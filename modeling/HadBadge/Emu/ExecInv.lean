import HadBadge.Emu.Interp
import HadBadge.Emu.Paging

/-!
# `Emu.ExecInv`: what an instruction keeps

Every instruction keeps the invariant of the CPU, leaves the pointers of the fetch loop alone, and can fail only
where it loads or stores, at a register of the cheat device.

## Contents
- **Even addresses.** Sums, masks and immediates with bit 0 clear.
- **Invariant.** `HartInv`; `Keeps`, what an instruction leaves.
- **Failures.** `dataAddr`, where an instruction loads or stores; `DataFails`, how that fails.
- **Traps and CSRs.** `raiseException2_keeps`, `handleSret_keeps`, `handleMret_keeps`, `csrWrite_keeps`.
- **Instructions.** One lemma for each group, and `exec_ends`.
-/

namespace HadBadge

open Lib

/-! ## Even addresses -/

theorem even_iff (x : UInt32) : x.toNat % 2 = 0 ↔ x.toNat.testBit 0 = false := by
  rw [Nat.testBit_zero, decide_eq_false_iff_not]
  omega

theorem even_add {x y : UInt32} (hx : x.toNat % 2 = 0) (hy : y.toNat % 2 = 0) : (x + y).toNat % 2 = 0 := by
  rw [UInt32.toNat_add]
  omega

theorem even_or {x y : UInt32} (hx : x.toNat % 2 = 0) (hy : y.toNat % 2 = 0) : (x ||| y).toNat % 2 = 0 := by
  rw [even_iff] at hx hy ⊢
  rw [UInt32.toNat_or, Nat.testBit_or, hx, hy]
  rfl

/-- A mask without bit 0. -/
theorem even_and (x : UInt32) {mask : UInt32} (hmask : mask.toNat % 2 = 0) : (x &&& mask).toNat % 2 = 0 := by
  rw [even_iff] at hmask ⊢
  rw [UInt32.toNat_and, Nat.testBit_and, hmask, Bool.and_false]

theorem even_bits (insn : UInt32) (pos : Nat) {mask : UInt32} (hmask : mask.toNat % 2 = 0) :
    (bits insn pos mask).toNat % 2 = 0 := even_and _ hmask

/-- A field that goes to bit 1 or above. -/
theorem even_getField1 (val : UInt32) (srcPos : Nat) {dstPos : Nat} (dstPosMax : Nat) (h1 : 1 ≤ dstPos)
    (h32 : dstPos < 32) : (getField1 val srcPos dstPos dstPosMax).toNat % 2 = 0 := by
  unfold getField1
  dsimp only
  split
  · exact even_and _ (shiftLeft_mod (k := 1) _ h1 h32)
  · exact even_and _ (shiftLeft_mod (k := 1) _ h1 h32)

/-- Sign extension keeps bit 0. -/
theorem even_sext {val : UInt32} (hval : val.toNat % 2 = 0) {n : Nat} (h1 : 1 ≤ n) (h32 : n ≤ 32) :
    (sext val n).toNat % 2 = 0 := by
  have hbit : val.toBitVec.getLsbD 0 = false := (even_iff val).mp hval
  have hn : (32 - n) % 2 ^ 32 % 32 = 32 - n := by omega
  rw [even_iff]
  show (sext val n).toBitVec.getLsbD 0 = false
  unfold sext sar
  dsimp only
  rw [BitVec.getLsbD_sshiftRight]
  -- bit 0 comes from where the shift to the left has put it
  have hshift : (val <<< UInt32.ofNat (32 - n)).toBitVec = val.toBitVec <<< (32 - n) := by
    rw [UInt32.toBitVec_shiftLeft]
    show val.toBitVec <<< ((UInt32.ofNat (32 - n)).toBitVec % 32) = _
    rw [BitVec.shiftLeft_eq', BitVec.toNat_umod]
    show val.toBitVec <<< ((UInt32.ofNat (32 - n)).toNat % 32) = _
    rw [UInt32.toNat_ofNat', hn]
  rw [hshift, Nat.add_zero, BitVec.getLsbD_shiftLeft, Nat.sub_self, hbit]
  simp
  omega

theorem even_jalImm (insn : UInt32) : (jalImm insn).toNat % 2 = 0 :=
  even_sext (even_or (even_or (even_or (even_bits _ _ (by decide)) (even_bits _ _ (by decide)))
    (even_bits _ _ (by decide))) (even_and _ (by decide))) (by decide) (by decide)

theorem even_branchImm (insn : UInt32) : (branchImm insn).toNat % 2 = 0 :=
  even_sext (even_or (even_or (even_or (even_bits _ _ (by decide)) (even_bits _ _ (by decide)))
    (even_bits _ _ (by decide))) (even_and _ (by decide))) (by decide) (by decide)

theorem even_cJumpImm (insn : UInt32) : (cJumpImm insn).toNat % 2 = 0 := by
  have hfield (src : Nat) {dst : Nat} (max : Nat) (h1 : 1 ≤ dst) (h32 : dst < 32) :=
    even_getField1 insn src max h1 h32
  refine even_sext ?_ (by decide) (by decide)
  exact even_or (even_or (even_or (even_or (even_or (even_or (even_or (hfield 12 11 (by decide) (by decide))
    (hfield 11 4 (by decide) (by decide))) (hfield 9 9 (by decide) (by decide))) (hfield 8 10 (by decide) (by decide)))
    (hfield 7 6 (by decide) (by decide))) (hfield 6 7 (by decide) (by decide))) (hfield 3 3 (by decide) (by decide)))
    (hfield 2 5 (by decide) (by decide))

theorem even_cBranchImm (insn : UInt32) : (cBranchImm insn).toNat % 2 = 0 := by
  have hfield (src : Nat) {dst : Nat} (max : Nat) (h1 : 1 ≤ dst) (h32 : dst < 32) :=
    even_getField1 insn src max h1 h32
  refine even_sext ?_ (by decide) (by decide)
  exact even_or (even_or (even_or (even_or (hfield 12 8 (by decide) (by decide))
    (hfield 10 4 (by decide) (by decide))) (hfield 5 7 (by decide) (by decide))) (hfield 3 2 (by decide) (by decide)))
    (hfield 2 5 (by decide) (by decide))

/-! ## Invariant -/

variable {σ : Type} {env : InterpEnv σ} {s s' s₁ s₂ : RISCVCPUState σ}

/-- **The invariant of the CPU**: the TLBs map to RAM, and all addresses that execution may go on at are even. -/
structure HartInv (env : InterpEnv σ) (s : RISCVCPUState σ) : Prop where
  mem : MemInv env.mm s.toMach
  pc : s.pc.toNat % 2 = 0
  mepc : s.mepc.toNat % 2 = 0
  sepc : s.sepc.toNat % 2 = 0
  mtvec : s.mtvec.toNat % 2 = 0
  stvec : s.stvec.toNat % 2 = 0

/-- What an instruction leaves: the invariant, and the pointers of the fetch loop. -/
structure Keeps (env : InterpEnv σ) (s s' : RISCVCPUState σ) : Prop where
  inv : HartInv env s'
  code : s'.code = s.code

theorem HartInv.keeps (hs : HartInv env s) : Keeps env s s := ⟨hs, rfl⟩

theorem keeps_ite {c : Prop} [Decidable c] (h₁ : Keeps env s s₁) (h₂ : Keeps env s s₂) :
    Keeps env s (if c then s₁ else s₂) := by
  split
  · exact h₁
  · exact h₂

theorem Keeps.trans (h₁ : Keeps env s s₁) (h₂ : Keeps env s₁ s₂) : Keeps env s s₂ :=
  ⟨h₂.inv, h₂.code.trans h₁.code⟩

theorem Keeps.getPc (hk : Keeps env s s') : s'.getPc = s.getPc := by
  unfold RISCVCPUState.getPc
  rw [hk.code]

theorem Keeps.setReg (hk : Keeps env s s') (rd : Fin 32) (val : UInt32) : Keeps env s (s'.setReg rd val) :=
  ⟨⟨hk.inv.mem, hk.inv.pc, hk.inv.mepc, hk.inv.sepc, hk.inv.mtvec, hk.inv.stvec⟩, hk.code⟩

theorem Keeps.setRd (hk : Keeps env s s') (rd : Fin 32) (val : UInt32) : Keeps env s (s'.setRd rd val) := by
  unfold RISCVCPUState.setRd
  split
  · exact hk.setReg rd val
  · exact hk

theorem Keeps.setFpReg (hk : Keeps env s s') (rd : Fin 32) (val : UInt64) : Keeps env s (s'.setFpReg rd val) :=
  ⟨⟨hk.inv.mem, hk.inv.pc, hk.inv.mepc, hk.inv.sepc, hk.inv.mtvec, hk.inv.stvec⟩, hk.code⟩

/-- Execution goes on at another even address. -/
theorem Keeps.setPc (hk : Keeps env s s') {pc : UInt32} (hpc : pc.toNat % 2 = 0) :
    Keeps env s { s' with pc := pc } :=
  ⟨⟨hk.inv.mem, hpc, hk.inv.mepc, hk.inv.sepc, hk.inv.mtvec, hk.inv.stvec⟩, hk.code⟩

/-- The registers besides the TLBs that memory accesses go by. -/
theorem Keeps.setCpu (hk : Keeps env s s') {cpu : Cpu} (hread : cpu.tlbRead = s'.cpu.tlbRead)
    (hwrite : cpu.tlbWrite = s'.cpu.tlbWrite) (hcode : cpu.tlbCode = s'.cpu.tlbCode) :
    Keeps env s { s' with cpu := cpu } :=
  ⟨⟨⟨fun i => hread ▸ hk.inv.mem.read i, fun i => hwrite ▸ hk.inv.mem.write i, fun i => hcode ▸ hk.inv.mem.code i⟩,
    hk.inv.pc, hk.inv.mepc, hk.inv.sepc, hk.inv.mtvec, hk.inv.stvec⟩, hk.code⟩

theorem Keeps.pending (hk : Keeps env s s') (cause : Int) : Keeps env s (s'.pending cause) :=
  hk.setCpu rfl rfl rfl

theorem Keeps.flushTlb (hk : Keeps env s s') : Keeps env s s'.flushTlb :=
  ⟨⟨⟨fun _ => .inl rfl, fun _ => .inl rfl, fun _ => .inl rfl⟩, hk.inv.pc, hk.inv.mepc, hk.inv.sepc,
    hk.inv.mtvec, hk.inv.stvec⟩, hk.code⟩

/-- An access of memory. -/
theorem Keeps.access (hk : Keeps env s s') {m : Mach σ} (hm : Follows env.mm s'.toMach m) :
    Keeps env s { s' with toMach := m } :=
  ⟨⟨hm.inv, hk.inv.pc, hk.inv.mepc, hk.inv.sepc, hk.inv.mtvec, hk.inv.stvec⟩, hm.code.trans hk.code⟩

/-! ## Failures -/

/-- The address of a load or store of `C_QUADRANT(0)`. -/
def c0Addr (s : RISCVCPUState σ) (insn : UInt32) : UInt32 :=
  match (bits insn 13 7).toNat with
  | 1 | 5 => s.reg (cRegAt insn 7) + cDoubleOffset insn
  | _     => s.reg (cRegAt insn 7) + cWordOffset insn

/-- The address of a load or store of `C_QUADRANT(2)`. -/
def c2Addr (s : RISCVCPUState σ) (insn : UInt32) : UInt32 :=
  match (bits insn 13 7).toNat with
  | 1     => s.reg 2 + (getField1 insn 12 5 5 ||| (bits insn 2 0x1f &&& 0x18) ||| getField1 insn 2 6 8)
  | 2 | 3 => s.reg 2 + (getField1 insn 12 5 5 ||| (bits insn 2 0x1f &&& 0x1c) ||| getField1 insn 2 6 7)
  | 5     => s.reg 2 + (getField1 insn 10 3 5 ||| getField1 insn 7 6 8)
  | _     => s.reg 2 + (getField1 insn 9 2 5 ||| getField1 insn 7 6 7)

/-- The address of a load or store of 32 bits. -/
def addr32 (s : RISCVCPUState σ) (insn : UInt32) : UInt32 :=
  match (insn &&& 0x7f).toNat with
  | 0x23 | 0x27 => s.reg (regAt insn 15) + storeImm insn
  | 0x2f        => s.reg (regAt insn 15)
  | _           => s.reg (regAt insn 15) + sar insn 20

/-- Where an instruction that loads or stores does so. -/
def dataAddr (s : RISCVCPUState σ) (insn : UInt32) : UInt32 :=
  match (insn &&& 3).toNat with
  | 0 => c0Addr s insn
  | 2 => c2Addr s insn
  | _ => addr32 s insn

/-- The load or store of an instruction at `addr` fails, or the store of one that loads first. -/
inductive DataFails (mm : MainMem) (h : MachHost σ) (m : Mach σ) (addr : UInt32) (e : Fault) : Prop where
  | load {k : Nat} : LoadFails mm h m addr k e → DataFails mm h m addr e
  | store {val k : Nat} : StoreFails mm h m addr val k e → DataFails mm h m addr e
  | loadStore {junk : UInt32 → Nat} {v val : Nat} {m₁ : Mach σ} :
      targetRead mm h junk m addr 2 = .ok (some v, m₁) → StoreFails mm h m₁ addr val 2 e → DataFails mm h m addr e

/-! ## Traps and CSRs -/

theorem setPriv_keeps (hk : Keeps env s s') (priv : Nat) : Keeps env s (setPriv s' priv) := by
  unfold setPriv
  split
  · exact hk.flushTlb.setCpu rfl rfl rfl
  · exact hk

/-- The privilege is changed, and execution goes on at an address that some register holds. -/
theorem Keeps.trap (hk : Keeps env s s') (priv : Nat) (pc : RISCVCPUState σ → UInt32)
    (hpc : ∀ t, HartInv env t → (pc t).toNat % 2 = 0) :
    Keeps env s { setPriv s' priv with pc := pc (setPriv s' priv) } :=
  (setPriv_keeps hk priv).setPc (hpc _ (setPriv_keeps hk priv).inv)

/-- A trap goes on at a vector, with the address it came from put away. -/
theorem raiseException2_keeps (hs : HartInv env s) (cause tval : UInt32) :
    Keeps env s (raiseException2 s cause tval) := by
  unfold raiseException2
  refine keeps_ite ?_ ?_
  · refine Keeps.trap ?_ prvS RISCVCPUState.stvec (fun t ht => ht.stvec)
    exact ⟨⟨⟨hs.mem.read, hs.mem.write, hs.mem.code⟩, hs.pc, hs.mepc, hs.pc, hs.mtvec, hs.stvec⟩, rfl⟩
  · refine Keeps.trap ?_ prvM RISCVCPUState.mtvec (fun t ht => ht.mtvec)
    exact ⟨⟨⟨hs.mem.read, hs.mem.write, hs.mem.code⟩, hs.pc, hs.pc, hs.sepc, hs.mtvec, hs.stvec⟩, rfl⟩

theorem handleSret_keeps (hk : Keeps env s s') : Keeps env s (handleSret s') := by
  unfold handleSret
  refine Keeps.trap ?_ _ RISCVCPUState.sepc (fun t ht => ht.sepc)
  exact hk.setCpu rfl rfl rfl

theorem handleMret_keeps (hk : Keeps env s s') : Keeps env s (handleMret s') := by
  unfold handleMret
  refine Keeps.trap ?_ _ RISCVCPUState.mepc (fun t ht => ht.mepc)
  exact hk.setCpu rfl rfl rfl

theorem setMstatus_keeps (hs : HartInv env s) (val : UInt32) : Keeps env s (setMstatus s val) := by
  unfold setMstatus
  dsimp only
  split
  · have hk := hs.keeps.flushTlb
    exact ⟨⟨⟨hk.inv.mem.read, hk.inv.mem.write, hk.inv.mem.code⟩, hk.inv.pc, hk.inv.mepc, hk.inv.sepc,
      hk.inv.mtvec, hk.inv.stvec⟩, rfl⟩
  · exact ⟨⟨⟨hs.mem.read, hs.mem.write, hs.mem.code⟩, hs.pc, hs.mepc, hs.sepc, hs.mtvec, hs.stvec⟩, rfl⟩

/-- A CSR that no address or TLB depends on. -/
theorem Keeps.other (hk : Keeps env s s') {t : RISCVCPUState σ} (hmach : t.toMach = s'.toMach) (hpc : t.pc = s'.pc)
    (hmepc : t.mepc = s'.mepc) (hsepc : t.sepc = s'.sepc) (hmtvec : t.mtvec = s'.mtvec)
    (hstvec : t.stvec = s'.stvec) : Keeps env s t :=
  ⟨⟨hmach ▸ hk.inv.mem, hpc ▸ hk.inv.pc, hmepc ▸ hk.inv.mepc, hsepc ▸ hk.inv.sepc, hmtvec ▸ hk.inv.mtvec,
    hstvec ▸ hk.inv.stvec⟩, by rw [hmach]; exact hk.code⟩

/-- **A write to a CSR keeps the invariant**: what can be written to an address register is even. -/
theorem csrWrite_keeps (hs : HartInv env s) {csr val : UInt32} {err : Nat}
    (hw : csrWrite s csr val = some (err, s')) : Keeps env s s' := by
  unfold csrWrite at hw
  split at hw
  -- `stvec`, `sepc`, `mtvec` and `mepc`
  case h_6 => cases hw; exact ⟨⟨hs.mem, hs.pc, hs.mepc, hs.sepc, hs.mtvec, even_and _ (by decide)⟩, rfl⟩
  case h_9 => cases hw; exact ⟨⟨hs.mem, hs.pc, hs.mepc, even_and _ (by decide), hs.mtvec, hs.stvec⟩, rfl⟩
  case h_19 => cases hw; exact ⟨⟨hs.mem, hs.pc, hs.mepc, hs.sepc, even_and _ (by decide), hs.stvec⟩, rfl⟩
  case h_22 => cases hw; exact ⟨⟨hs.mem, hs.pc, even_and _ (by decide), hs.sepc, hs.mtvec, hs.stvec⟩, rfl⟩
  -- `sstatus` and `mstatus`
  case h_4 => cases hw; exact setMstatus_keeps hs _
  case h_14 => cases hw; exact setMstatus_keeps hs _
  -- `satp`
  case h_13 =>
    cases hw
    exact ⟨⟨⟨fun _ => .inl rfl, fun _ => .inl rfl, fun _ => .inl rfl⟩, hs.pc, hs.mepc, hs.sepc, hs.mtvec,
      hs.stvec⟩, rfl⟩
  case h_26 => cases hw
  all_goals
    cases hw
    exact hs.keeps.other rfl rfl rfl rfl rfl rfl

/-! ## Instructions -/

/-- A jump by an even distance. -/
theorem Keeps.jumpInsn (hk : Keeps env s s') {pc : UInt32} (hpc : pc.toNat % 2 = 0) :
    Keeps env s (jumpInsn s' pc).2 := hk.setPc hpc

theorem loadInsn_ends (hs : HartInv env s) {addr : UInt32} {k : Nat} (hk3 : k ≤ 3)
    {next : Nat → RISCVCPUState σ → Executed σ}
    (hnext : ∀ v m, targetRead env.mm env.host (env.junk s) s.toMach addr k = .ok (some v, m) →
      Keeps env s { s with toMach := m } →
      Ends (DataFails env.mm env.host s.toMach addr) (fun r => Keeps env s r.2) (next v { s with toMach := m })) :
    Ends (DataFails env.mm env.host s.toMach addr) (fun r => Keeps env s r.2) (loadInsn env s addr k next) := by
  unfold loadInsn
  refine ((targetRead_ends _ hs.mem hk3 addr).weaken (fun e he => .load he)).bind_of ?_
  rintro ⟨v, m⟩ hread hm
  cases v with
  | none => exact hs.keeps.access hm
  | some v => exact hnext v m hread (hs.keeps.access hm)

/-- A load that only changes registers after it. -/
theorem loadInsn_keeps (hs : HartInv env s) {addr : UInt32} {k : Nat} (hk3 : k ≤ 3)
    {next : Nat → RISCVCPUState σ → Exit × RISCVCPUState σ} (hnext : ∀ v t, Keeps env s t → Keeps env s (next v t).2) :
    Ends (DataFails env.mm env.host s.toMach addr) (fun r => Keeps env s r.2)
      (loadInsn env s addr k (fun v t => .ok (next v t))) :=
  loadInsn_ends hs hk3 (fun v _ _ ht => hnext v _ ht)

/-- A store, in the state `s'` that the instruction has come to from `s`. -/
theorem storeInsn_ends {E : Fault → Prop} (hk : Keeps env s s') {addr : UInt32} {val k : Nat} (hk3 : k ≤ 3)
    {next : RISCVCPUState σ → Exit × RISCVCPUState σ} (hnext : ∀ t, Keeps env s t → Keeps env s (next t).2)
    (hfail : ∀ e, StoreFails env.mm env.host s'.toMach addr (val % 2 ^ (8 * 2 ^ k)) k e → E e) :
    Ends E (fun r => Keeps env s r.2) (storeInsn env s' addr val k next) := by
  unfold storeInsn
  refine ((targetWrite_ends hk.inv.mem hk3 addr _).weaken hfail).bind ?_
  rintro ⟨ok, m⟩ hm
  cases ok with
  | false => exact hk.access hm
  | true => exact hnext _ (hk.access hm)

/-- A store and nothing else. -/
theorem storeInsn_keeps (hs : HartInv env s) {addr : UInt32} {val k : Nat} (hk3 : k ≤ 3)
    {next : RISCVCPUState σ → Exit × RISCVCPUState σ} (hnext : ∀ t, Keeps env s t → Keeps env s (next t).2) :
    Ends (DataFails env.mm env.host s.toMach addr) (fun r => Keeps env s r.2) (storeInsn env s addr val k next) :=
  storeInsn_ends hs.keeps hk3 hnext (fun _ he => .store he)

theorem fpLoadInsn_ends (hs : HartInv env s) (rd : Fin 32) (addr : UInt32) {k : Nat} (hk3 : k ≤ 3) (exit : Exit) :
    Ends (DataFails env.mm env.host s.toMach addr) (fun r => Keeps env s r.2) (fpLoadInsn env s rd addr k exit) := by
  unfold fpLoadInsn
  split
  · exact hs.keeps
  · refine loadInsn_keeps hs hk3 (fun v t ht => ?_)
    exact Keeps.other (ht.setFpReg rd (UInt64.ofNat v ||| fHigh k)) rfl rfl rfl rfl rfl rfl

theorem fpStoreInsn_ends (hs : HartInv env s) (rs2 : Fin 32) (addr : UInt32) {k : Nat} (hk3 : k ≤ 3) (exit : Exit) :
    Ends (DataFails env.mm env.host s.toMach addr) (fun r => Keeps env s r.2) (fpStoreInsn env s rs2 addr k exit) := by
  unfold fpStoreInsn
  split
  · exact hs.keeps
  · exact storeInsn_keeps hs hk3 (fun t ht => ht)

theorem execC0_ends (hs : HartInv env s) (insn : UInt32) :
    Ends (DataFails env.mm env.host s.toMach (c0Addr s insn)) (fun r => Keeps env s r.2) (execC0 env s insn) := by
  unfold execC0
  dsimp only
  split
  · split
    · exact hs.keeps
    · exact hs.keeps.setReg _ _
  -- the loads and stores, with their addresses
  · next hf =>
    simp only [c0Addr, hf]
    exact fpLoadInsn_ends hs _ _ (by decide) _
  · next hf =>
    simp only [c0Addr, hf]
    exact loadInsn_keeps hs (by decide) (fun v t ht => ht.setReg _ _)
  · next hf =>
    simp only [c0Addr, hf]
    exact fpLoadInsn_ends hs _ _ (by decide) _
  · next hf =>
    simp only [c0Addr, hf]
    exact fpStoreInsn_ends hs _ _ (by decide) _
  · next hf =>
    simp only [c0Addr, hf]
    exact storeInsn_keeps hs (by decide) (fun t ht => ht)
  · next hf =>
    simp only [c0Addr, hf]
    exact fpStoreInsn_ends hs _ _ (by decide) _
  · exact hs.keeps

theorem execCArith_keeps (hs : HartInv env s) (insn : UInt32) : Keeps env s (execCArith s insn).2 := by
  unfold execCArith
  dsimp only
  split
  · split
    · exact hs.keeps
    · exact hs.keeps.setReg _ _
  · split
    · exact hs.keeps
    · exact hs.keeps.setReg _ _
  · exact hs.keeps.setReg _ _
  · split
    · exact hs.keeps.setReg _ _
    · exact hs.keeps.setReg _ _
    · exact hs.keeps.setReg _ _
    · exact hs.keeps.setReg _ _
    · exact hs.keeps

theorem execC1_keeps (hs : HartInv env s) (hpc : s.getPc.toNat % 2 = 0) (insn : UInt32) :
    Keeps env s (execC1 s insn).2 := by
  unfold execC1
  dsimp only
  split
  · exact hs.keeps.setRd _ _
  · exact (hs.keeps.setReg _ _).jumpInsn (even_add hpc (even_cJumpImm insn))
  · exact hs.keeps.setRd _ _
  · split
    · split
      · exact hs.keeps
      · exact hs.keeps.setReg _ _
    · exact hs.keeps.setRd _ _
  · exact execCArith_keeps hs insn
  · exact hs.keeps.jumpInsn (even_add hpc (even_cJumpImm insn))
  · split
    · exact hs.keeps.jumpInsn (even_add hpc (even_cBranchImm insn))
    · exact hs.keeps
  · split
    · exact hs.keeps.jumpInsn (even_add hpc (even_cBranchImm insn))
    · exact hs.keeps

theorem execCJump_keeps (hs : HartInv env s) (insn : UInt32) : Keeps env s (execCJump s insn).2 := by
  unfold execCJump
  dsimp only
  split
  · split
    · split
      · exact hs.keeps
      · exact hs.keeps.jumpInsn (even_and _ (by decide))
    · exact hs.keeps.setRd _ _
  · split
    · split
      · exact hs.keeps.pending _
      · exact (hs.keeps.setReg _ _).jumpInsn (even_and _ (by decide))
    · exact hs.keeps.setRd _ _

theorem execC2_ends (hs : HartInv env s) (insn : UInt32) :
    Ends (DataFails env.mm env.host s.toMach (c2Addr s insn)) (fun r => Keeps env s r.2) (execC2 env s insn) := by
  unfold execC2
  dsimp only
  split
  · split
    · exact hs.keeps
    · exact hs.keeps.setRd _ _
  -- the loads and stores, with their addresses
  · next hf =>
    simp only [c2Addr, hf]
    exact fpLoadInsn_ends hs _ _ (by decide) _
  · next hf =>
    simp only [c2Addr, hf]
    exact loadInsn_keeps hs (by decide) (fun v t ht => ht.setRd _ _)
  · next hf =>
    simp only [c2Addr, hf]
    exact fpLoadInsn_ends hs _ _ (by decide) _
  · exact execCJump_keeps hs insn
  · next hf =>
    simp only [c2Addr, hf]
    exact fpStoreInsn_ends hs _ _ (by decide) _
  · next hf =>
    simp only [c2Addr, hf]
    exact storeInsn_keeps hs (by decide) (fun t ht => ht)
  · next h0 h1 h2 h3 h4 h5 h6 =>
    have haddr : c2Addr s insn = s.reg 2 + (getField1 insn 9 2 5 ||| getField1 insn 7 6 7) := by
      unfold c2Addr
      split <;> first | rfl | contradiction
    rw [haddr]
    exact fpStoreInsn_ends hs _ _ (by decide) _

theorem execBranch_keeps (hs : HartInv env s) (hpc : s.getPc.toNat % 2 = 0) (insn : UInt32) :
    Keeps env s (execBranch s insn).2 := by
  unfold execBranch
  cases branchCond (funct3 insn) (s.reg (regAt insn 15)) (s.reg (regAt insn 20)) with
  | none => exact hs.keeps
  | some cond =>
      dsimp only
      split
      · exact hs.keeps.jumpInsn (even_add hpc (even_branchImm insn))
      · exact hs.keeps

theorem execLoad_ends (hs : HartInv env s) (insn : UInt32) :
    Ends (DataFails env.mm env.host s.toMach (s.reg (regAt insn 15) + sar insn 20)) (fun r => Keeps env s r.2)
      (execLoad env s insn) := by
  unfold execLoad
  dsimp only
  split
  · exact loadInsn_keeps hs (by decide) (fun v t ht => ht.setRd _ _)
  · exact loadInsn_keeps hs (by decide) (fun v t ht => ht.setRd _ _)
  · exact loadInsn_keeps hs (by decide) (fun v t ht => ht.setRd _ _)
  · exact loadInsn_keeps hs (by decide) (fun v t ht => ht.setRd _ _)
  · exact loadInsn_keeps hs (by decide) (fun v t ht => ht.setRd _ _)
  · exact hs.keeps

theorem execStore_ends (hs : HartInv env s) (insn : UInt32) :
    Ends (DataFails env.mm env.host s.toMach (s.reg (regAt insn 15) + storeImm insn)) (fun r => Keeps env s r.2)
      (execStore env s insn) := by
  unfold execStore
  dsimp only
  split
  · exact storeInsn_keeps hs (by omega) (fun t ht => ht)
  · exact hs.keeps

theorem execOpImm_keeps (hs : HartInv env s) (insn : UInt32) : Keeps env s (execOpImm s insn).2 := by
  unfold execOpImm
  cases opImm (funct3 insn).toNat (s.reg (regAt insn 15)) (sar insn 20) with
  | none => exact hs.keeps
  | some val => exact hs.keeps.setRd _ _

theorem execOp_keeps (hs : HartInv env s) (insn : UInt32) : Keeps env s (execOp s insn).2 := by
  unfold execOp
  cases op insn (s.reg (regAt insn 15)) (s.reg (regAt insn 20)) with
  | none => exact hs.keeps
  | some val => exact hs.keeps.setRd _ _

theorem csrDone_keeps (hk : Keeps env s s') (hpc : s.getPc.toNat % 2 = 0) (rd : Fin 32) (val2 : UInt32) (err : Nat) :
    Keeps env s (csrDone rd val2 err s').2 := by
  have hrd := hk.setRd rd val2
  have hnext : ((s'.setRd rd val2).getPc + 4).toNat % 2 = 0 := even_add (by rw [hrd.getPc]; exact hpc) (by decide)
  unfold csrDone
  dsimp only
  split
  · exact hrd
  · split
    · exact hrd.jumpInsn hnext
    · exact hrd.setPc hnext

theorem execCsr_keeps (hs : HartInv env s) (hpc : s.getPc.toNat % 2 = 0) (insn : UInt32) (counter : UInt64) :
    Keeps env s (execCsr s insn counter).2 := by
  have hcount : Keeps env s { s with insnCounter := counter } := hs.keeps.other rfl rfl rfl rfl rfl rfl
  unfold execCsr
  dsimp only
  split
  · exact hcount
  · split
    · exact csrDone_keeps hcount hpc _ _ _
    · split
      · exact hcount
      · rename_i hw
        exact csrDone_keeps (hcount.trans (csrWrite_keeps hcount.inv hw)) hpc _ _ _

theorem execPriv_keeps (hs : HartInv env s) (hpc : s.getPc.toNat % 2 = 0) (insn : UInt32) :
    Keeps env s (execPriv s insn).2 := by
  have hnext : (s.getPc + 4).toNat % 2 = 0 := even_add hpc (by decide)
  unfold execPriv
  dsimp only
  split
  -- `ecall` and `ebreak`
  · split
    · exact hs.keeps
    · exact hs.keeps.pending _
  · split
    · exact hs.keeps
    · exact hs.keeps.pending _
  -- `sret` and `mret`
  · split
    · exact hs.keeps
    · split
      · exact hs.keeps
      · exact handleSret_keeps (hs.keeps.setPc hpc)
  · split
    · exact hs.keeps
    · split
      · exact hs.keeps
      · exact handleMret_keeps (hs.keeps.setPc hpc)
  -- `wfi`
  · split
    · exact hs.keeps
    · split
      · exact hs.keeps
      · split
        · exact (hs.keeps.setPc hnext).other rfl rfl rfl rfl rfl rfl
        · exact hs.keeps
  -- `sfence.vma`
  · split
    · split
      · exact hs.keeps
      · split
        · exact hs.keeps
        · exact hs.keeps.flushTlb.jumpInsn hnext
    · exact hs.keeps

theorem execSystem_keeps (hs : HartInv env s) (hpc : s.getPc.toNat % 2 = 0) (insn : UInt32) (counter : UInt64) :
    Keeps env s (execSystem s insn counter).2 := by
  unfold execSystem
  split
  · exact execPriv_keeps hs hpc insn
  · exact execCsr_keeps hs hpc insn counter

theorem execMiscMem_keeps (hs : HartInv env s) (insn : UInt32) : Keeps env s (execMiscMem s insn).2 := by
  have hself (e : Exit) : Keeps env s (e, s).2 := hs.keeps
  unfold execMiscMem
  split
  · split
    · exact hself _
    · exact hself _
  · split
    · exact hself _
    · exact hself _
  · exact hself _

theorem execAmo_ends (hs : HartInv env s) (insn : UInt32) :
    Ends (DataFails env.mm env.host s.toMach (s.reg (regAt insn 15))) (fun r => Keeps env s r.2)
      (execAmo env s insn) := by
  unfold execAmo
  dsimp only
  split
  · exact hs.keeps
  · split
    -- `lr.w`
    · split
      · exact hs.keeps
      · refine loadInsn_keeps hs (by decide) (fun v t ht => Keeps.setRd ?_ _ _)
        exact ht.other rfl rfl rfl rfl rfl rfl
    · split
      -- `sc.w`
      · split
        · exact storeInsn_keeps hs (by decide) (fun t ht => ht.setRd _ _)
        · exact hs.keeps.setRd _ _
      · split
        · exact hs.keeps
        -- a load and a store
        · refine loadInsn_ends hs (by decide) (fun v m hread ht => ?_)
          split
          · exact ht
          · exact storeInsn_ends ht (by decide) (fun t ht => ht.setRd _ _) (fun e he => .loadStore hread he)

/-! ### Floating point -/

theorem Keeps.fpDone (hk : Keeps env s s') (rd : Fin 32) (r : UInt64 × UInt32) :
    Keeps env s (fpDone s' rd r).2 := (hk.setFpReg rd r.1).other rfl rfl rfl rfl rfl rfl

theorem Keeps.fpDoneInt (hk : Keeps env s s') (rd : Fin 32) (r : UInt32 × UInt32) :
    Keeps env s (fpDoneInt s' rd r).2 := (hk.setRd rd r.1).other rfl rfl rfl rfl rfl rfl

theorem withRm_keeps (hs : HartInv env s) (rm : UInt32) {f : UInt32 → Exit × RISCVCPUState σ}
    (hf : ∀ rm, Keeps env s (f rm).2) : Keeps env s (withRm s rm f).2 := by
  unfold withRm
  cases getInsnRm s rm with
  | none => exact hs.keeps
  | some rm => exact hf rm

theorem fpTemplate_keeps {α : Type} (F : FSize α) (hs : HartInv env s) (insn : UInt32) :
    Keeps env s (fpTemplate F s insn).2 := by
  have hfp (rd : Fin 32) (r : UInt64 × UInt32) := hs.keeps.fpDone rd r
  have hint (rd : Fin 32) (r : UInt32 × UInt32) := hs.keeps.fpDoneInt rd r
  unfold fpTemplate
  dsimp only
  split
  · exact withRm_keeps hs _ (fun rm => hfp _ _)
  · exact withRm_keeps hs _ (fun rm => hfp _ _)
  · exact withRm_keeps hs _ (fun rm => hfp _ _)
  · exact withRm_keeps hs _ (fun rm => hfp _ _)
  · refine withRm_keeps hs _ (fun rm => ?_)
    split
    · exact hs.keeps
    · exact hfp _ _
  · split
    · exact hfp _ _
    · exact hfp _ _
    · exact hfp _ _
    · exact hs.keeps
  · split
    · exact hfp _ _
    · exact hfp _ _
    · exact hs.keeps
  · refine withRm_keeps hs _ (fun rm => ?_)
    split
    · exact hint _ _
    · exact hint _ _
    · exact hs.keeps
  · split
    · exact hint _ _
    · exact hint _ _
    · exact hint _ _
    · exact hs.keeps
  · refine withRm_keeps hs _ (fun rm => ?_)
    split
    · exact hfp _ _
    · exact hfp _ _
    · exact hs.keeps
  · refine withRm_keeps hs _ (fun rm => ?_)
    split
    · exact hfp _ _
    · exact hs.keeps
  · split
    · exact hs.keeps
    · split
      · exact hint _ _
      · split
        · exact hint _ _
        · exact hs.keeps
  · split
    · exact hfp _ _
    · exact hs.keeps
  · exact hs.keeps

theorem execFp_keeps (hs : HartInv env s) (insn : UInt32) : Keeps env s (execFp env s insn).2 := by
  unfold execFp
  split
  · exact hs.keeps
  · split
    · exact fpTemplate_keeps _ hs insn
    · exact fpTemplate_keeps _ hs insn
    · exact hs.keeps

theorem execFma_keeps (hs : HartInv env s) (insn : UInt32) (neg1 neg3 : Bool) :
    Keeps env s (execFma env s insn neg1 neg3).2 := by
  unfold execFma
  split
  · exact hs.keeps
  · refine withRm_keeps hs _ (fun rm => ?_)
    split
    · exact hs.keeps.fpDone _ _
    · exact hs.keeps.fpDone _ _
    · exact hs.keeps

theorem execFpLoad_ends (hs : HartInv env s) (insn : UInt32) :
    Ends (DataFails env.mm env.host s.toMach (s.reg (regAt insn 15) + sar insn 20)) (fun r => Keeps env s r.2)
      (execFpLoad env s insn) := by
  unfold execFpLoad
  dsimp only
  split
  · exact fpLoadInsn_ends hs _ _ (by decide) _
  · exact fpLoadInsn_ends hs _ _ (by decide) _
  · exact hs.keeps

theorem execFpStore_ends (hs : HartInv env s) (insn : UInt32) :
    Ends (DataFails env.mm env.host s.toMach (s.reg (regAt insn 15) + storeImm insn)) (fun r => Keeps env s r.2)
      (execFpStore env s insn) := by
  unfold execFpStore
  dsimp only
  split
  · exact fpStoreInsn_ends hs _ _ (by decide) _
  · exact fpStoreInsn_ends hs _ _ (by decide) _
  · exact hs.keeps

/-! ### The `switch` -/

theorem exec32_ends (hs : HartInv env s) (hpc : s.getPc.toNat % 2 = 0) (insn : UInt32) (counter : UInt64) :
    Ends (DataFails env.mm env.host s.toMach (addr32 s insn)) (fun r => Keeps env s r.2)
      (exec32 env s insn counter) := by
  unfold exec32
  dsimp only
  split
  · exact hs.keeps.setRd _ _
  · exact hs.keeps.setRd _ _
  · exact (hs.keeps.setRd _ _).jumpInsn (even_add hpc (even_jalImm insn))
  · exact (hs.keeps.setRd _ _).jumpInsn (even_and _ (by decide))
  · exact execBranch_keeps hs hpc insn
  · next hop =>
    simp only [addr32, hop]
    exact execLoad_ends hs insn
  · next hop =>
    simp only [addr32, hop]
    exact execStore_ends hs insn
  · exact execOpImm_keeps hs insn
  · exact execOp_keeps hs insn
  · exact execSystem_keeps hs hpc insn counter
  · exact execMiscMem_keeps hs insn
  · next hop =>
    simp only [addr32, hop]
    exact execAmo_ends hs insn
  · next hop =>
    simp only [addr32, hop]
    exact execFpLoad_ends hs insn
  · next hop =>
    simp only [addr32, hop]
    exact execFpStore_ends hs insn
  · exact execFma_keeps hs insn _ _
  · exact execFma_keeps hs insn _ _
  · exact execFma_keeps hs insn _ _
  · exact execFma_keeps hs insn _ _
  · exact execFp_keeps hs insn
  · exact hs.keeps

/-- **Every instruction keeps the invariant**, and only its load or store can fail. -/
theorem exec_ends (hs : HartInv env s) (hpc : s.getPc.toNat % 2 = 0) (insn : UInt32) (counter : UInt64) :
    Ends (DataFails env.mm env.host s.toMach (dataAddr s insn)) (fun r => Keeps env s r.2)
      (exec env s insn counter) := by
  unfold exec
  split
  · next hq =>
    simp only [dataAddr, hq]
    exact execC0_ends hs insn
  · exact execC1_keeps hs hpc insn
  · next hq =>
    simp only [dataAddr, hq]
    exact execC2_ends hs insn
  · next h0 h1 h2 =>
    have haddr : dataAddr s insn = addr32 s insn := by
      unfold dataAddr
      split <;> first | rfl | contradiction
    rw [haddr]
    exact exec32_ends hs hpc insn counter

end HadBadge
