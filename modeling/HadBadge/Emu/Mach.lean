import HadBadge.Emu.Tlb
import HadBadge.Lib.Run

/-!
# `Emu.Mach`: runs of the machine

What the CPU, the interpreter loop and the rest of the emulator do to the state, in any order and with any
arguments, and the invariant of all runs in which translation stays off.

## Contents
- **Runs.** `machInit`, `MachOp`, `machStep`, `Reachable`.
- **One access.** What a load, a store and a fetch keep (`Kept`), and how they end: `targetRead_kept`,
  `targetWrite_kept`, `targetInsnPtr_kept`.
- **Invariant.** `MachOk`, its step lemma `machStep_ok`, and `Reachable.ok` for runs.
-/

namespace HadBadge

open Lib

/-! ## Runs -/

variable {σ : Type}

/-- The CPU as `riscv_cpu_init` leaves it. -/
def riscvCpuInit : Cpu where
  priv := prvM
  pendingException := 0
  pendingTval := 0
  mstatus := 0
  satp := 0
  tlbRead := fun _ => ⟨0xffffffff, 0⟩
  tlbWrite := fun _ => ⟨0xffffffff, 0⟩
  tlbCode := fun _ => ⟨0xffffffff, 0⟩

/-- `JUMP_INSN`, and the start of `riscv_cpu_interp`. -/
def Code.jump (pc : UInt32) : Code := ⟨0, 0, pc⟩

/-- `NEXT_INSN` and `C_NEXT_INSN`. -/
def Code.next (c : Code) (len : Nat) : Code := { c with codePtr := c.codePtr + len }

/-- The machine that `mach_setup` starts, whatever has been loaded into its RAM. -/
def machInit (ram : Ram) (host : σ) : Mach σ := ⟨riscvCpuInit, Code.jump 0x1000, ram, periphsInit host⟩

/-- `tlb_flush_all`. -/
def tlbFlushAll (cpu : Cpu) : Cpu where
  priv := cpu.priv
  pendingException := cpu.pendingException
  pendingTval := cpu.pendingTval
  mstatus := cpu.mstatus
  satp := cpu.satp
  tlbRead := fun i => { cpu.tlbRead i with vaddr := 0xffffffff }
  tlbWrite := fun i => { cpu.tlbWrite i with vaddr := 0xffffffff }
  tlbCode := fun i => { cpu.tlbCode i with vaddr := 0xffffffff }

/-- `riscv_cpu_flush_tlb_write_range_ram`. -/
def flushTlbWriteRange (cpu : Cpu) (ramPtr ramSize : Nat) : Cpu :=
  { cpu with
    tlbWrite := fun i =>
      let e := cpu.tlbWrite i
      let ptr := e.ptr e.vaddr
      if e.vaddr ≠ 0xffffffff ∧ ramPtr ≤ ptr ∧ ptr < ramPtr + ramSize then { e with vaddr := 0xffffffff } else e }

/-- What can happen to the machine. Targets of jumps are even: `pc` starts even, offsets are, and JALR, `mepc`,
    `sepc`, `mtvec` and `stvec` have bit 0 cleared. -/
inductive MachOp (σ : Type) where
  | read (junk : UInt32 → Nat) (addr : UInt32) (sizeLog2 : Nat)
  | write (addr : UInt32) (val sizeLog2 : Nat)
  | fetch
  | next (compressed : Bool)
  | jump (pc : { pc : UInt32 // pc.toNat % 2 = 0 })
  /-- a change of the registers that translation goes by -/
  | mmu (priv : Nat) (mstatus satp : UInt32)
  /-- a change of the fields for exceptions -/
  | pending (cause : Int) (tval : UInt32)
  | flushAll
  | flushWriteRange (ramPtr ramSize : Nat)
  /-- a change of memory, devices and host from outside of the CPU -/
  | outside (change : Ram → Periphs σ → Ram × Periphs σ)

/-- The operation leaves `satp` in bare mode. -/
def MachOp.Bare : MachOp σ → Prop
  | .mmu _ _ satp => satp >>> 31 = 0
  | _ => True

/-- One operation. -/
def machStep (mm : MainMem) (h : MachHost σ) (m : Mach σ) : MachOp σ → Except Fault (Mach σ)
  | .read junk addr sizeLog2 => do return (← targetRead mm h junk m addr sizeLog2).2
  | .write addr val sizeLog2 => do return (← targetWrite mm h m addr val sizeLog2).2
  | .fetch => do return (← fetchInsn mm m).2
  | .next compressed => .ok { m with code := m.code.next (if compressed then 2 else 4) }
  | .jump pc => .ok { m with code := Code.jump pc }
  | .mmu priv mstatus satp => .ok { m with cpu := { m.cpu with priv := priv, mstatus := mstatus, satp := satp } }
  | .pending cause tval => .ok (m.pend cause tval)
  | .flushAll => .ok { m with cpu := tlbFlushAll m.cpu }
  | .flushWriteRange ramPtr ramSize => .ok { m with cpu := flushTlbWriteRange m.cpu ramPtr ramSize }
  | .outside change =>
      let (ram, periphs) := change m.ram m.periphs
      .ok { m with ram := ram, periphs := periphs }

/-- A state that a run of the machine reaches in which `satp` stays in bare mode. -/
def Reachable (mm : MainMem) (h : MachHost σ) (m : Mach σ) : Prop :=
  ∃ ram host ops, (∀ op ∈ ops, MachOp.Bare op) ∧
    run (fun m op => m >>= fun m => machStep mm h m op) (.ok (machInit ram host)) ops = .ok m

/-! ## One access -/

variable {mm : MainMem} {h : MachHost σ} {m m' m₁ m₂ : Mach σ} {addr : UInt32} {k : Nat}

/-- After an access the entries are right, and the fetch loop is where it was. -/
structure Kept (mm : MainMem) (m m' : Mach σ) : Prop where
  cpu : CpuOk mm m'.cpu
  code : m'.code = m.code

theorem Kept.trans (h₁ : Kept mm m m₁) (h₂ : Kept mm m₁ m₂) : Kept mm m m₂ := ⟨h₂.cpu, h₂.code.trans h₁.code⟩

theorem devRead_kept (hm : CpuOk mm m.cpu) {dev : Dev} {offset : UInt32} {v : Nat}
    (hr : m.devRead h dev offset = .ok (v, m')) : Kept mm m m' := by
  obtain ⟨r, -, hr⟩ := bind_eq_ok.mp hr
  cases hr
  exact ⟨hm, rfl⟩

theorem devWrite_kept (hm : CpuOk mm m.cpu) {dev : Dev} {offset val : UInt32}
    (hr : m.devWrite h dev offset val = .ok m') : Kept mm m m' := by
  obtain ⟨r, -, hr⟩ := bind_eq_ok.mp hr
  cases hr
  exact ⟨hm, rfl⟩

theorem targetReadRange_kept (hm : CpuOk mm m.cpu) {pr : PhysMemoryRange}
    (hpr : getPhysMemRange (machMap mm) addr.toNat = some pr) {r : SlowRead}
    (hr : targetReadRange mm h m addr addr k pr = .ok (r, m')) : Kept mm m m' ∧ r ≠ .fault := by
  unfold targetReadRange at hr
  -- only RAM fills an entry; a device access leaves the CPU alone
  cases hkind : pr.kind with
  | ram physMem =>
      obtain ⟨rfl, h0, h1⟩ := getPhysMemRange_is_ram hpr hkind
      cases hkind
      dsimp only [ramRange] at hr
      by_cases hk : k ≤ 3
      · rw [if_pos hk] at hr
        obtain ⟨v, -, hr⟩ := bind_eq_ok.mp hr
        cases hr
        exact ⟨⟨hm.fillRead h0 h1, rfl⟩, fun hf => by cases hf⟩
      · rw [if_neg hk] at hr
        cases hr
  | device dev devioFlags =>
      rw [hkind] at hr
      dsimp only at hr
      split at hr
      · obtain ⟨⟨v, m₁⟩, hdev, hr⟩ := bind_eq_ok.mp hr
        cases hr
        exact ⟨devRead_kept hm hdev, fun hf => by cases hf⟩
      · split at hr
        · obtain ⟨⟨lo, m₁⟩, hlo, hr⟩ := bind_eq_ok.mp hr
          obtain ⟨⟨hi, m₂⟩, hhi, hr⟩ := bind_eq_ok.mp hr
          cases hr
          have h₁ := devRead_kept hm hlo
          exact ⟨h₁.trans (devRead_kept h₁.cpu hhi), fun hf => by cases hf⟩
        · cases hr
          exact ⟨⟨hm, rfl⟩, fun hf => by cases hf⟩

theorem targetReadAligned_kept (hm : CpuOk mm m.cpu) {r : SlowRead}
    (hr : targetReadAligned mm h m addr k = .ok (r, m')) : Kept mm m m' ∧ r ≠ .fault := by
  rw [targetReadAligned_bare hm.bare] at hr
  cases hpr : getPhysMemRange (machMap mm) addr.toNat with
  | none =>
      rw [hpr] at hr
      cases hr
      exact ⟨⟨hm, rfl⟩, fun hf => by cases hf⟩
  | some pr =>
      rw [hpr] at hr
      exact targetReadRange_kept hm hpr hr

/-- A load over a slow path that raises no exception raises none. -/
theorem targetReadVia_kept {slow : Mach σ → UInt32 → Nat → Except Fault (SlowRead × Mach σ)} {junk : UInt32 → Nat}
    (hm : CpuOk mm m.cpu) (hslow : ∀ r m', slow m addr k = .ok (r, m') → Kept mm m m' ∧ r ≠ .fault)
    {v : Option Nat} (hr : targetReadVia mm slow junk m addr k = .ok (v, m')) : Kept mm m m' ∧ v ≠ none := by
  unfold targetReadVia at hr
  dsimp only at hr
  -- a hit changes nothing, a miss leaves what the slow path leaves
  by_cases hhit : (m.cpu.tlbRead (tlbIdx addr)).vaddr = tlbTag addr k
  · rw [if_pos hhit] at hr
    obtain ⟨v', -, hr⟩ := bind_eq_ok.mp hr
    cases hr
    exact ⟨⟨hm, rfl⟩, fun hv => by cases hv⟩
  · rw [if_neg hhit] at hr
    obtain ⟨⟨r, m₁⟩, hs, hr⟩ := bind_eq_ok.mp hr
    obtain ⟨hkept, hne⟩ := hslow r m₁ hs
    cases r with
    | fault => exact absurd rfl hne
    | unset => cases hr; exact ⟨hkept, fun hv => by cases hv⟩
    | val v' => cases hr; exact ⟨hkept, fun hv => by cases hv⟩

theorem targetReadTwo_kept {junk : UInt32 → Nat} (hm : CpuOk mm m.cpu) {addr₀ addr₁ : UInt32}
    {join : Nat → Nat → Nat} {r : SlowRead}
    (hr : targetReadTwo mm h junk m addr₀ addr₁ k join = .ok (r, m')) : Kept mm m m' ∧ r ≠ .fault := by
  obtain ⟨⟨v₀, m₁⟩, h₀, hr⟩ := bind_eq_ok.mp hr
  obtain ⟨hk₀, hne₀⟩ := targetReadVia_kept hm (fun r m' hs => targetReadAligned_kept hm hs) h₀
  cases v₀ with
  | none => exact absurd rfl hne₀
  | some v₀ =>
      obtain ⟨⟨v₁, m₂⟩, h₁, hr⟩ := bind_eq_ok.mp hr
      obtain ⟨hk₁, hne₁⟩ := targetReadVia_kept hk₀.cpu (fun r m' hs => targetReadAligned_kept hk₀.cpu hs) h₁
      cases v₁ with
      | none => exact absurd rfl hne₁
      | some v₁ =>
          cases hr
          exact ⟨hk₀.trans hk₁, fun hf => by cases hf⟩

theorem targetReadSlow_kept {junk : UInt32 → Nat} (hm : CpuOk mm m.cpu) {r : SlowRead}
    (hr : targetReadSlow mm h junk m addr k = .ok (r, m')) : Kept mm m m' ∧ r ≠ .fault := by
  unfold targetReadSlow at hr
  dsimp only at hr
  split at hr
  · split at hr
    · exact targetReadTwo_kept hm hr
    · exact targetReadTwo_kept hm hr
    · exact targetReadTwo_kept hm hr
    · cases hr
  · exact targetReadAligned_kept hm hr

/-- **No load raises an exception** while translation is off. -/
theorem targetRead_kept {junk : UInt32 → Nat} (hm : CpuOk mm m.cpu) {v : Option Nat}
    (hr : targetRead mm h junk m addr k = .ok (v, m')) : Kept mm m m' ∧ v ≠ none :=
  targetReadVia_kept hm (fun _ _ hs => targetReadSlow_kept hm hs) hr

theorem targetWriteRange_kept (hm : CpuOk mm m.cpu) {pr : PhysMemoryRange}
    (hpr : getPhysMemRange (machMap mm) addr.toNat = some pr) {val : Nat}
    (hr : targetWriteRange mm h m addr addr val k pr = .ok m') : Kept mm m m' := by
  unfold targetWriteRange at hr
  cases hkind : pr.kind with
  | ram physMem =>
      obtain ⟨rfl, h0, h1⟩ := getPhysMemRange_is_ram hpr hkind
      cases hkind
      dsimp only [ramRange] at hr
      by_cases hk : k ≤ 3
      · rw [if_pos hk] at hr
        obtain ⟨ram, -, hr⟩ := bind_eq_ok.mp hr
        cases hr
        exact ⟨hm.fillWrite h0 h1, rfl⟩
      · rw [if_neg hk] at hr
        cases hr
  | device dev devioFlags =>
      rw [hkind] at hr
      dsimp only at hr
      split at hr
      · exact devWrite_kept hm hr
      · split at hr
        · obtain ⟨m₁, hlo, hr⟩ := bind_eq_ok.mp hr
          have h₁ := devWrite_kept hm hlo
          exact h₁.trans (devWrite_kept h₁.cpu hr)
        · cases hr
          exact ⟨hm, rfl⟩

theorem targetWriteAligned_kept (hm : CpuOk mm m.cpu) {val : Nat} {ok : Bool}
    (hr : targetWriteAligned mm h m addr val k = .ok (ok, m')) : Kept mm m m' ∧ ok = true := by
  rw [targetWriteAligned_bare hm.bare] at hr
  cases hpr : getPhysMemRange (machMap mm) addr.toNat with
  | none =>
      rw [hpr] at hr
      cases hr
      exact ⟨⟨hm, rfl⟩, rfl⟩
  | some pr =>
      rw [hpr] at hr
      obtain ⟨m₁, hw, hr⟩ := bind_eq_ok.mp hr
      cases hr
      exact ⟨targetWriteRange_kept hm hpr hw, rfl⟩

theorem targetWriteVia_kept {slow : Mach σ → UInt32 → Nat → Nat → Except Fault (Bool × Mach σ)}
    (hm : CpuOk mm m.cpu) {val : Nat} (hslow : ∀ ok m', slow m addr val k = .ok (ok, m') → Kept mm m m' ∧ ok = true)
    {ok : Bool} (hr : targetWriteVia mm slow m addr val k = .ok (ok, m')) : Kept mm m m' ∧ ok = true := by
  unfold targetWriteVia at hr
  dsimp only at hr
  by_cases hhit : (m.cpu.tlbWrite (tlbIdx addr)).vaddr = tlbTag addr k
  · rw [if_pos hhit] at hr
    obtain ⟨ram, -, hr⟩ := bind_eq_ok.mp hr
    cases hr
    exact ⟨⟨hm, rfl⟩, rfl⟩
  · rw [if_neg hhit] at hr
    exact hslow ok m' hr

theorem targetWriteBytes_kept (hm : CpuOk mm m.cpu) {val n i : Nat} {ok : Bool}
    (hr : targetWriteBytes mm h addr val n i m = .ok (ok, m')) : Kept mm m m' ∧ ok = true := by
  -- on the bytes left; each may refill the write TLB
  induction n generalizing i m with
  | zero =>
      cases hr
      exact ⟨⟨hm, rfl⟩, rfl⟩
  | succ n ih =>
      obtain ⟨⟨ok₁, m₁⟩, hw, hr⟩ := bind_eq_ok.mp hr
      obtain ⟨hk₁, rfl⟩ := targetWriteVia_kept hm (fun _ _ hs => targetWriteAligned_kept hm hs) hw
      obtain ⟨hk₂, hok⟩ := ih hk₁.cpu hr
      exact ⟨hk₁.trans hk₂, hok⟩

theorem targetWriteSlow_kept (hm : CpuOk mm m.cpu) {val : Nat} {ok : Bool}
    (hr : targetWriteSlow mm h m addr val k = .ok (ok, m')) : Kept mm m m' ∧ ok = true := by
  unfold targetWriteSlow at hr
  split at hr
  · exact targetWriteBytes_kept hm hr
  · exact targetWriteAligned_kept hm hr

/-- **No store raises an exception** while translation is off. -/
theorem targetWrite_kept (hm : CpuOk mm m.cpu) {val : Nat} {ok : Bool}
    (hr : targetWrite mm h m addr val k = .ok (ok, m')) : Kept mm m m' ∧ ok = true :=
  targetWriteVia_kept hm (fun _ _ hs => targetWriteSlow_kept hm hs) hr

/-- The address is one of RAM as the CPU reaches it. -/
def InRam (addr : UInt32) : Prop := 0x1000 ≤ addr.toNat ∧ addr.toNat < machRamSize

/-- The pointer for an address in RAM. -/
theorem ramPtr_eq (h1 : addr.toNat < machRamSize) :
    ramPtr (mm.base + 0x1000) 0x1000 addr = mm.base + addr.toNat := by
  have hfits := mm.fits
  simp only [machRamSize] at h1 hfits
  unfold ramPtr u64
  push_cast
  omega

/-- **How the lookup for a fetch ends** while translation is off: with the pointer for an address in RAM, and
    with an exception for any other. -/
theorem targetInsnPtr_spec (hm : CpuOk mm m.cpu) (addr : UInt32) :
    (InRam addr ∧ ∃ m', targetInsnPtr mm m addr = .ok (some (mm.base + addr.toNat), m') ∧ Kept mm m m') ∨
      (¬ InRam addr ∧ targetInsnPtr mm m addr = .ok (none, m.pend causeFaultFetch addr)) := by
  unfold targetInsnPtr
  dsimp only
  by_cases hhit : (m.cpu.tlbCode (tlbIdx addr)).vaddr = pageOf addr
  · rw [if_pos hhit]
    rw [pageOf_eq] at hhit
    obtain ⟨-, h0, h1, -⟩ := (hm.code _).hit (by omega) hhit
    rcases hm.code (tlbIdx addr) with hinv | ⟨-, -, -, haddend⟩
    -- the tag of a byte access is a page, which the invalid tag is not
    · have htag := tlbTag_toNat addr (Nat.zero_le 3)
      rw [← hhit, hinv] at htag
      have : (0xffffffff : UInt32).toNat = 4294967295 := by decide
      have hlt := addr.toNat_lt
      omega
    · have hptr : (m.cpu.tlbCode (tlbIdx addr)).ptr addr = mm.base + addr.toNat := by
        have hfits := mm.fits
        simp only [machRamSize] at h1 hfits
        unfold TLBEntry.ptr u64
        rw [haddend]
        omega
      rw [hptr]
      exact .inl ⟨⟨h0, h1⟩, m, rfl, hm, rfl⟩
  · rw [if_neg hhit, targetReadInsnSlow_bare hm.bare]
    by_cases hin : InRam addr
    · rw [getPhysMemRange_ram hin.1 hin.2]
      dsimp only [ramRange]
      refine .inl ⟨hin, _, ?_, hm.fillCode hin.1 hin.2, rfl⟩
      rw [ramPtr_eq hin.2]
    · refine .inr ⟨hin, ?_⟩
      -- outside of RAM there is no range or a device, and the source treats both as a fetch fault
      cases hpr : getPhysMemRange (machMap mm) addr.toNat with
      | none => rfl
      | some pr =>
          obtain ⟨base, size, kind⟩ := pr
          cases kind with
          | ram physMem =>
              obtain ⟨-, h0, h1⟩ := getPhysMemRange_is_ram hpr rfl
              exact absurd ⟨h0, h1⟩ hin
          | device dev devioFlags => rfl

theorem targetInsnPtr_kept (hm : CpuOk mm m.cpu) {ptr : Option Nat}
    (hr : targetInsnPtr mm m addr = .ok (ptr, m')) :
    Kept mm m m' ∧ ∀ p, ptr = some p → InRam addr ∧ p = mm.base + addr.toNat := by
  rcases targetInsnPtr_spec hm addr with ⟨hin, m₁, heq, hkept⟩ | ⟨-, heq⟩
  · obtain ⟨hptr, hm'⟩ := Prod.mk.inj (Except.ok.inj (heq.symm.trans hr))
    subst hptr hm'
    exact ⟨hkept, fun p hp => ⟨hin, (Option.some.inj hp).symm⟩⟩
  · obtain ⟨hptr, hm'⟩ := Prod.mk.inj (Except.ok.inj (heq.symm.trans hr))
    subst hptr hm'
    exact ⟨⟨⟨hm.bare, hm.read, hm.write, hm.code⟩, rfl⟩, fun p hp => by cases hp⟩

/-! ## Invariant -/

/-- The fetch loop is at an even address, and while `code_ptr` is below `code_end` it points into a page of
    RAM. -/
structure CodeOk (mm : MainMem) (c : Code) : Prop where
  even : c.pc.toNat % 2 = 0
  inPage : c.codePtr < c.codeEnd → ∃ page, 0x1000 ≤ page ∧ page + 4096 ≤ machRamSize ∧
    mm.base + page ≤ c.codePtr ∧ c.codeEnd ≤ mm.base + page + 4094 ∧
    c.codeToPcAddend.toNat = u32 (-(mm.base : Int))

/-- **The invariant of the machine.** -/
structure MachOk (mm : MainMem) (m : Mach σ) : Prop where
  cpu : CpuOk mm m.cpu
  code : CodeOk mm m.code

theorem Kept.machOk (hm : MachOk mm m) (hk : Kept mm m m') : MachOk mm m' := ⟨hk.cpu, hk.code ▸ hm.code⟩

theorem pc_toNat (c : Code) : c.pc.toNat = u32 ((c.codePtr : Int) + c.codeToPcAddend.toNat) := by
  unfold Code.pc
  rw [UInt32.toNat_ofNat']
  exact Nat.mod_eq_of_lt (u32_lt _)

theorem codeOk_jump {pc : UInt32} (hpc : pc.toNat % 2 = 0) : CodeOk mm (Code.jump pc) := by
  refine ⟨?_, fun hlt => absurd hlt (Nat.lt_irrefl 0)⟩
  rw [pc_toNat]
  have hlt := pc.toNat_lt
  simp only [Code.jump, u32]
  omega

theorem codeOk_next {c : Code} (hc : CodeOk mm c) {len : Nat} (hlen : len % 2 = 0) : CodeOk mm (c.next len) := by
  refine ⟨?_, ?_⟩
  · have heven := hc.even
    rw [pc_toNat] at heven ⊢
    simp only [Code.next, u32] at heven ⊢
    omega
  -- below the end after the step means below it before
  · intro hlt
    simp only [Code.next] at hlt ⊢
    obtain ⟨page, h0, h1, hlo, hhi, hadd⟩ := hc.inPage (by omega)
    exact ⟨page, h0, h1, by omega, hhi, hadd⟩

/-- `addr & PG_MASK`. -/
theorem pageOffset_toNat (addr : UInt32) : (addr &&& 0xfff).toNat = addr.toNat % 4096 := by
  rw [UInt32.toNat_and]
  exact Nat.and_two_pow_sub_one_eq_mod addr.toNat 12

/-- The loop after a fetch at an even address of RAM. -/
theorem codeOk_codeAt (hin : InRam addr) (heven : addr.toNat % 2 = 0) : CodeOk mm (codeAt addr (mm.base + addr.toNat)) := by
  obtain ⟨h0, h1⟩ := hin
  -- the addend is the difference of the two addresses, so it is the same for all of `main_mem`
  have hadd : (codeAt addr (mm.base + addr.toNat)).codeToPcAddend.toNat = u32 (-(mm.base : Int)) := by
    show (UInt32.ofNat (u32 ((addr.toNat : Int) - ((mm.base + addr.toNat : Nat) : Int)))).toNat = _
    rw [UInt32.toNat_ofNat', Nat.mod_eq_of_lt (u32_lt _)]
    congr 1
    push_cast
    ring
  refine ⟨?_, fun _ => ⟨addr.toNat / 4096 * 4096, by omega, ?_, ?_, ?_, hadd⟩⟩
  · rw [pc_toNat, hadd]
    simp only [codeAt, u32]
    have hlt := addr.toNat_lt
    push_cast
    omega
  · simp only [machRamSize] at h1 ⊢
    omega
  · simp only [codeAt]
    omega
  · simp only [codeAt, pageOffset_toNat, u32]
    omega

/-- Below `code_end`, the loop is at an address of RAM. -/
theorem CodeOk.pc_inRam {c : Code} (hc : CodeOk mm c) (hlt : c.codePtr < c.codeEnd) : InRam c.pc := by
  obtain ⟨page, h0, h1, hlo, hhi, hadd⟩ := hc.inPage hlt
  have hpc := pc_toNat c
  rw [hadd] at hpc
  simp only [machRamSize, u32] at h1 hpc
  simp only [InRam, machRamSize]
  omega

theorem targetReadInsnU16_kept (hm : CpuOk mm m.cpu) {insn : Option Nat}
    (hr : targetReadInsnU16 mm m addr = .ok (insn, m')) : Kept mm m m' := by
  obtain ⟨⟨ptr, m₁⟩, hp, hr⟩ := bind_eq_ok.mp hr
  have hk := (targetInsnPtr_kept hm hp).1
  cases ptr with
  | none => cases hr; exact hk
  | some ptr =>
      obtain ⟨v, -, hr⟩ := bind_eq_ok.mp hr
      cases hr
      exact hk

theorem fetchInsn_ok (hm : MachOk mm m) {insn : Option Nat} (hr : fetchInsn mm m = .ok (insn, m')) :
    MachOk mm m' := by
  unfold fetchInsn at hr
  -- within the window the CPU is not touched at all
  by_cases hrefill : m.code.codeEnd ≤ m.code.codePtr
  · rw [if_pos hrefill] at hr
    obtain ⟨⟨ptr, m₁⟩, hp, hr⟩ := bind_eq_ok.mp hr
    obtain ⟨hk, hptr⟩ := targetInsnPtr_kept hm.cpu hp
    cases ptr with
    | none =>
        cases hr
        exact hk.machOk hm
    | some ptr =>
        obtain ⟨hin, rfl⟩ := hptr ptr rfl
        have hcode : CodeOk mm (codeAt m.code.pc (mm.base + m.code.pc.toNat)) := codeOk_codeAt hin hm.code.even
        dsimp only at hr
        split at hr
        · obtain ⟨v, -, hr⟩ := bind_eq_ok.mp hr
          split at hr
          · obtain ⟨⟨high, m₂⟩, hhigh, hr⟩ := bind_eq_ok.mp hr
            -- the second halfword is on the next page and may fill one more entry
            have hk₂ := targetReadInsnU16_kept (m := { m₁ with code := codeAt _ _ }) hk.cpu hhigh
            have hok : MachOk mm m₂ := ⟨hk₂.cpu, by rw [hk₂.code]; exact hcode⟩
            cases high with
            | none => cases hr; exact hok
            | some high => cases hr; exact hok
          · cases hr
            exact ⟨hk.cpu, hcode⟩
        · obtain ⟨v, -, hr⟩ := bind_eq_ok.mp hr
          cases hr
          exact ⟨hk.cpu, hcode⟩
  · rw [if_neg hrefill] at hr
    obtain ⟨v, -, hr⟩ := bind_eq_ok.mp hr
    cases hr
    exact hm

/-- **One operation keeps the invariant.** -/
theorem machStep_ok {op : MachOp σ} (hbare : op.Bare) (hm : MachOk mm m) (hstep : machStep mm h m op = .ok m') :
    MachOk mm m' := by
  cases op with
  | read junk addr sizeLog2 =>
      obtain ⟨⟨v, m₁⟩, hr, hstep⟩ := bind_eq_ok.mp hstep
      cases hstep
      exact (targetRead_kept hm.cpu hr).1.machOk hm
  | write addr val sizeLog2 =>
      obtain ⟨⟨ok, m₁⟩, hw, hstep⟩ := bind_eq_ok.mp hstep
      cases hstep
      exact (targetWrite_kept hm.cpu hw).1.machOk hm
  | fetch =>
      obtain ⟨⟨insn, m₁⟩, hf, hstep⟩ := bind_eq_ok.mp hstep
      cases hstep
      exact fetchInsn_ok hm hf
  | next compressed =>
      cases hstep
      refine ⟨hm.cpu, codeOk_next hm.code ?_⟩
      cases compressed with
      | true => rfl
      | false => rfl
  | jump pc =>
      cases hstep
      exact ⟨hm.cpu, codeOk_jump pc.2⟩
  | mmu priv mstatus satp =>
      cases hstep
      exact ⟨⟨hbare, hm.cpu.read, hm.cpu.write, hm.cpu.code⟩, hm.code⟩
  | pending cause tval =>
      cases hstep
      exact ⟨⟨hm.cpu.bare, hm.cpu.read, hm.cpu.write, hm.cpu.code⟩, hm.code⟩
  | flushAll =>
      cases hstep
      exact ⟨⟨hm.cpu.bare, fun _ => .inl rfl, fun _ => .inl rfl, fun _ => .inl rfl⟩, hm.code⟩
  | flushWriteRange ramPtr ramSize =>
      cases hstep
      -- a flush can only turn entries into invalid ones
      refine ⟨⟨hm.cpu.bare, hm.cpu.read, ?_, hm.cpu.code⟩, hm.code⟩
      intro i
      show TlbEntryOk mm (if _ then _ else _)
      split
      · exact .inl rfl
      · exact hm.cpu.write i
  | outside change =>
      cases hstep
      exact ⟨hm.cpu, hm.code⟩

theorem machInit_ok (ram : Ram) (host : σ) : MachOk mm (machInit ram host) :=
  ⟨⟨show (0 : UInt32) >>> 31 = 0 by decide, fun _ => .inl rfl, fun _ => .inl rfl, fun _ => .inl rfl⟩, codeOk_jump (by decide)⟩

/-- The invariant of a run that may have ended in a fault. -/
def AllOk (mm : MainMem) (e : Except Fault (Mach σ)) : Prop := ∀ m, e = .ok m → MachOk mm m

/-- **Every reachable state satisfies the invariant.** -/
theorem Reachable.ok (hm : Reachable mm h m) : MachOk mm m := by
  obtain ⟨ram, host, ops, hbare, hrun⟩ := hm
  have hinit : AllOk mm (.ok (machInit ram host)) := fun m hm => by
    cases hm
    exact machInit_ok ram host
  -- a run that has faulted has no state left to say anything about
  refine run_inv ?_ hbare hinit m hrun
  intro e op hop hI m hstep
  obtain ⟨m₁, he, hstep⟩ := bind_eq_ok.mp hstep
  exact machStep_ok hop (hI m₁ he) hstep

end HadBadge
