import HadBadge.Correctness.CpuMemory
import HadBadge.Emu.ExecInv

/-!
# `Correctness.Slice`: the CPU's share of a scanline

`mach_setup` calls `riscv_cpu_interp` for each line with the number of cycles that a line has. The budget is tested
only between blocks of instructions, and a block is what is left of a page: at most 2047 halfwords.

## Contents
- **Cycles.** `UInt64.ofInt` as the counter uses it: `ofInt_toNat`, `cyclesLeft_eq`, `grown_eq`.
- **One iteration.** `LoopInv`, `Ended`; `InsnFails`, an instruction that fails at the cheat device;
  `interpFetch_ends` and `interpIter_ends`.
- **The loops.** `interpLoop_settles`, `interpX_settles`, `interpCalls_settles`.
- **Runs.** `CpuReachable.inv`; `SliceReturns` and `SliceFails`, and the bound on a slice.
-/

namespace HadBadge

open Lib Relation

variable {σ : Type} {env : InterpEnv σ} {s s' : RISCVCPUState σ}

/-! ## Cycles -/

/-- By how much `insn_counter` has grown. -/
def grown (s s' : RISCVCPUState σ) : Nat := (s'.insnCounter - s.insnCounter).toNat

theorem ofInt_toNat {x : Int} : (UInt64.ofInt x).toNat = (x % 18446744073709551616).toNat := by
  have hlt : (x % 18446744073709551616).toNat < 18446744073709551616 := by omega
  show (UInt64.ofNat (x % 2 ^ 64).toNat).toNat = _
  rw [UInt64.toNat_ofNat']
  exact Nat.mod_eq_of_lt hlt

/-- The `int` that `riscv_cpu_interp` gets from the difference of the counters. -/
theorem cyclesLeft_eq {timeout : UInt64} {r : Int} (hr : timeout = s.insnCounter + UInt64.ofInt r)
    (h0 : -2147483648 ≤ r) (h1 : r < 2147483648) : cyclesLeft timeout s = r := by
  have hsub : timeout - s.insnCounter = UInt64.ofInt r := by
    rw [hr, UInt64.add_comm, UInt64.add_sub_cancel]
  unfold cyclesLeft
  rw [hsub, ofInt_toNat]
  unfold i32
  omega

/-- A call that was given `n` cycles and has left `c` of them. -/
theorem grown_eq {n c : Int} (hc : s.insnCounter + UInt64.ofInt n = s'.insnCounter + UInt64.ofInt c) (h0 : c ≤ n)
    (h1 : n - c < 18446744073709551616) : (grown s s' : Int) = n - c := by
  have hsub : s'.insnCounter - s.insnCounter = UInt64.ofInt (n - c) := by
    have hn : UInt64.ofInt n = UInt64.ofInt (n - c) + UInt64.ofInt c := by
      rw [← UInt64.ofInt_add, Int.sub_add_cancel]
    rw [hn, ← UInt64.add_assoc] at hc
    rw [← (UInt64.add_left_inj _).mp hc, UInt64.add_comm, UInt64.add_sub_cancel]
  unfold grown
  rw [hsub, ofInt_toNat]
  omega

/-! ## One iteration -/

/-- Bytes left before the end of the block. -/
def blockLeft (c : Code) : Nat := c.codeEnd - c.codePtr

/-- No interrupt is pending, or none that is enabled. -/
def NoInterrupt (s : RISCVCPUState σ) : Prop := s.mip &&& s.mie = 0 ∨ getPendingIrqMask s = 0

theorem checkInterrupts_eq_none : checkInterrupts s = none ↔ NoInterrupt s := by
  unfold checkInterrupts raiseInterrupt NoInterrupt
  by_cases hpending : s.mip &&& s.mie = 0
  · rw [if_neg (not_not_intro hpending)]
    exact iff_of_true rfl (.inl hpending)
  · rw [if_pos hpending]
    dsimp only
    by_cases hmask : getPendingIrqMask s = 0
    · rw [if_pos hmask]
      exact iff_of_true rfl (.inr hmask)
    · rw [if_neg hmask]
      exact iff_of_false (fun h => by cases h) (fun h => h.elim hpending hmask)

/-- An interrupt that is taken is a trap. -/
theorem checkInterrupts_inv (hs : HartInv env s) (hirq : checkInterrupts s = some s') : HartInv env s' := by
  unfold checkInterrupts raiseInterrupt at hirq
  split at hirq
  · dsimp only at hirq
    split at hirq
    · cases hirq
    · cases hirq
      exact (raiseException2_keeps hs _ _).inv
  · cases hirq

/-- **The invariant of the loop** in a call with `n` cycles, `nCycles` before the iteration. A block takes at most one
    cycle for two bytes, and it has been entered with a cycle left. -/
structure LoopInv (env : InterpEnv σ) (n nCycles : Int) (s : RISCVCPUState σ) : Prop where
  inv : HartInv env s
  code : CodeIn env.mm s.code
  upper : nCycles ≤ n + 1
  /-- at the first iteration interrupts have just been looked at -/
  first : nCycles = n + 1 → NoInterrupt s
  block : (blockLeft s.code : Int) ≤ 2 * (nCycles + 2045)

/-- How a call with `n` cycles ends: it has left `c` of them, fewer than it was given. -/
structure Ended (env : InterpEnv σ) (addend : UInt64) (n : Int) (s' : RISCVCPUState σ) (c : Int) : Prop where
  inv : HartInv env s'
  counter : addend = s'.insnCounter + UInt64.ofInt c
  lower : -2046 ≤ c
  upper : c < n

/-- What an iteration leads to. -/
def IterPost (env : InterpEnv σ) (addend : UInt64) (n nCycles : Int) : Iter σ → Prop
  | .again nCycles' s => nCycles' = nCycles - 1 ∧ LoopInv env n nCycles' s
  | .done s           => ∃ c, Ended env addend n s c

theorem ended_theEnd (hs : HartInv env s) (addend : UInt64) {n c : Int} (h0 : -2046 ≤ c) (h1 : c < n) :
    ∃ left, Ended env addend n (theEnd addend c s) left :=
  ⟨c, ⟨hs.mem, hs.pc, hs.mepc, hs.sepc, hs.mtvec, hs.stvec⟩, (UInt64.sub_add_cancel _ _).symm, h0, h1⟩

theorem takeException_inv (hs : HartInv env s) (hc : CodeIn env.mm s.code) : HartInv env (takeException s) := by
  have hpc : HartInv env { s with pc := s.getPc } := (hs.keeps.setPc hc.even).inv
  unfold takeException
  dsimp only
  split
  · exact (raiseException2_keeps hpc _ _).inv
  · exact hpc

theorem illegalInsn_inv (hs : HartInv env s) (insn : UInt32) : HartInv env (illegalInsn s insn) := by
  have hkeeps : Keeps env s (illegalInsn s insn) := hs.keeps.setCpu rfl rfl rfl
  exact hkeeps.inv

/-- After the instruction: the pointers move on in the block, to another one, or the call ends. `hroom` is what a
    next iteration in the block needs. -/
theorem afterExec_post {n nCycles : Int} {addend : UInt64} {insn : UInt32} {exit : Exit} (hs : HartInv env s)
    (hc : CodeIn env.mm s.code) (hn : nCycles ≤ n) (h0 : -2045 ≤ nCycles)
    (hroom : (blockLeft s.code : Int) ≤ 2 * (nCycles + 2046)) :
    IterPost env addend n (nCycles + 1) (afterExec addend nCycles insn (exit, s)) := by
  have hinv (c : Code) : HartInv env { s with code := c } :=
    ⟨⟨hs.mem.read, hs.mem.write, hs.mem.code⟩, hs.pc, hs.mepc, hs.sepc, hs.mtvec, hs.stvec⟩
  unfold blockLeft at hroom
  cases exit with
  | next =>
      refine ⟨by omega, hinv _, codeIn_next hc rfl, by omega, fun h => absurd h (by omega), ?_⟩
      simp only [blockLeft, Code.next]
      omega
  | cNext =>
      refine ⟨by omega, hinv _, codeIn_next hc rfl, by omega, fun h => absurd h (by omega), ?_⟩
      simp only [blockLeft, Code.next]
      omega
  | jump =>
      refine ⟨by omega, hinv _, codeIn_jump hs.pc, by omega, fun h => absurd h (by omega), ?_⟩
      simp only [blockLeft, Code.jump]
      omega
  | illegalInsn => exact ended_theEnd (takeException_inv (illegalInsn_inv hs insn) hc) addend (by omega) (by omega)
  | exception => exact ended_theEnd (takeException_inv hs hc) addend (by omega) (by omega)
  | doneInterp => exact ended_theEnd hs addend (by omega) (by omega)

/-- The instruction that an iteration from `s` fetches fails with `e`: it loads or stores at a register of the cheat
    device, and the function of the device fails. -/
def InsnFails (env : InterpEnv σ) (s : RISCVCPUState σ) (e : Fault) : Prop :=
  ∃ insn m, fetchInsn env.mm s.toMach = .ok (some insn, m) ∧
    DataFails env.mm env.host m (dataAddr s (UInt32.ofNat insn)) e

/-- A fetch and its instruction. The block that is executed is the one the loop is in, or one that has been entered
    with a cycle left. -/
theorem interpFetch_ends (addend : UInt64) {n : Int} (nCycles : Int) (hs : HartInv env s) (hc : CodeIn env.mm s.code)
    (hn : nCycles ≤ n) (h0 : -2045 ≤ nCycles)
    (hin : s.code.codePtr < s.code.codeEnd → (blockLeft s.code : Int) ≤ 2 * (nCycles + 2046))
    (hout : s.code.codeEnd ≤ s.code.codePtr → 1 ≤ nCycles) :
    Ends (InsnFails env s) (IterPost env addend n (nCycles + 1)) (interpFetch env addend nCycles s) := by
  unfold interpFetch
  refine (fetchInsn_ends hs.mem hc).bind_of ?_
  rintro ⟨insn, m⟩ hfetch hf
  have hm : HartInv env { s with toMach := m } := ⟨hf.inv, hs.pc, hs.mepc, hs.sepc, hs.mtvec, hs.stvec⟩
  cases insn with
  | none => exact ended_theEnd (takeException_inv hm hf.code) addend (by omega) (by omega)
  | some insn =>
      have hroom : (blockLeft m.code : Int) ≤ 2 * (nCycles + 2046) := by
        by_cases hlt : s.code.codePtr < s.code.codeEnd
        · rw [hf.same hlt]
          exact hin hlt
        · have hleft := hf.code.left_le
          have hone := hout (by omega)
          unfold blockLeft
          dsimp only at hleft
          omega
      dsimp only
      refine ((exec_ends hm hf.code.even _ _).weaken (fun e he => ⟨insn, m, hfetch, he⟩)).bind ?_
      rintro ⟨exit, t⟩ ht
      have hcode : t.code = m.code := ht.code
      exact afterExec_post ht.inv (by rw [hcode]; exact hf.code) hn h0 (by rw [hcode]; exact hroom)

/-- **One iteration** keeps the invariant, or ends the call. -/
theorem interpIter_ends {n nCycles : Int} (addend : UInt64) (hn : 0 < n) (hl : LoopInv env n nCycles s) :
    Ends (InsnFails env s) (IterPost env addend n nCycles) (interpIter env addend nCycles s) := by
  have hlow : -2045 ≤ nCycles := by
    have := hl.block
    omega
  have hcycles : nCycles - 1 + 1 = nCycles := by omega
  have hlast : nCycles - 1 ≤ n := by
    have := hl.upper
    omega
  unfold interpIter
  dsimp only
  by_cases hend : s.code.codeEnd ≤ s.code.codePtr
  · have hpc : HartInv env { s with pc := s.getPc } := (hl.inv.keeps.setPc hl.code.even).inv
    rw [if_pos hend]
    by_cases hout : nCycles - 1 ≤ 0
    · rw [if_pos hout]
      exact ended_theEnd hpc addend (by omega) (by omega)
    · rw [if_neg hout]
      cases hirq : checkInterrupts { s with pc := s.getPc } with
      | some t =>
          -- an interrupt that the first iteration would take has been taken before the loop
          have hlater : nCycles ≤ n := by
            by_contra hfirst
            have hnone : NoInterrupt { s with pc := s.getPc } := hl.first (by have := hl.upper; omega)
            rw [checkInterrupts_eq_none.mpr hnone] at hirq
            cases hirq
          have ht := checkInterrupts_inv hpc hirq
          exact ended_theEnd ht addend (by omega) (by omega)
      | none =>
          have := interpFetch_ends addend (nCycles - 1) hpc hl.code hlast
            (by omega) (fun hlt => absurd hlt (by exact Nat.not_lt.mpr hend)) (fun _ => by omega)
          rwa [hcycles] at this
  · rw [if_neg hend]
    have hroom := hl.block
    have hpos : 1 ≤ blockLeft s.code := by
      unfold blockLeft
      omega
    have := interpFetch_ends addend (nCycles - 1) hl.inv hl.code hlast
      (by omega) (fun _ => by omega) (fun hle => absurd hle hend)
    rwa [hcycles] at this

/-! ## The loops -/

/-- An iteration that goes on with another one: the cycles and the state that it starts from, and those that it comes
    to. -/
def IterStep (env : InterpEnv σ) (addend : UInt64) (x x' : Int × RISCVCPUState σ) : Prop :=
  interpIter env addend x.1 x.2 = .ok (.again x'.1 x'.2)

/-- The loop comes to an iteration that fails with `e`. -/
def LoopFails (env : InterpEnv σ) (addend : UInt64) (x : Int × RISCVCPUState σ) (e : Fault) : Prop :=
  ∃ y, ReflTransGen (IterStep env addend) x y ∧ interpIter env addend y.1 y.2 = .error e ∧ InsnFails env y.2 e

/-- The loop ends, unless its bound is below the number of cycles and that of the instructions of a page. -/
theorem interpLoop_settles {n : Int} (addend : UInt64) (hn : 0 < n) (fuel : Nat) {nCycles : Int}
    (hl : LoopInv env n nCycles s) :
    Settles ((fuel : Int) < nCycles + 2046) (LoopFails env addend (nCycles, s)) (fun s' => ∃ c, Ended env addend n s' c)
      (interpLoop env addend fuel nCycles s) := by
  -- on the bound; an iteration takes a cycle
  induction fuel generalizing nCycles s with
  | zero =>
      have := hl.block
      show ((0 : Nat) : Int) < nCycles + 2046
      omega
  | succ fuel ih =>
      have hiter := interpIter_ends addend hn hl
      unfold interpLoop
      cases hi : interpIter env addend nCycles s with
      | error e =>
          rw [hi] at hiter
          exact ⟨(nCycles, s), .refl, hi, hiter⟩
      | ok r =>
          rw [hi] at hiter
          cases r with
          | done s' => exact hiter
          | again nCycles' s' =>
              obtain ⟨rfl, hl'⟩ := hiter
              refine (ih hl').mono (fun hshort => by push_cast; omega) ?_ (fun s' hs' => hs')
              rintro e ⟨y, hy, hfail⟩
              exact ⟨y, .head (show IterStep env addend (nCycles, s) (nCycles - 1, s') from hi) hy, hfail⟩

/-- A call of `riscv_cpu_interp_x32` with `n` cycles comes to an iteration that fails with `e`. -/
def CallFails (env : InterpEnv σ) (n : Int) (s : RISCVCPUState σ) (e : Fault) : Prop :=
  LoopFails env (s.insnCounter + UInt64.ofInt n) (n + 1, { s.pending (-1) with code := Code.jump s.pc }) e

/-- **A call of `riscv_cpu_interp_x32` ends**, with fewer cycles left than it was given. -/
theorem interpX_settles {n : Int} (hs : HartInv env s) (hn : 0 < n) (fuel : Nat) :
    Settles ((fuel : Int) < n + 2047) (CallFails env n s)
      (fun s' => ∃ c, Ended env (s.insnCounter + UInt64.ofInt n) n s' c) (interpX env fuel n s) := by
  unfold interpX
  rw [if_neg (by omega)]
  dsimp only
  cases hirq : checkInterrupts s with
  | some t =>
      exact ended_theEnd (checkInterrupts_inv hs hirq) _ (by omega) (by omega)
  | none =>
      refine (interpLoop_settles _ hn fuel ?_).mono (fun hshort => by omega) (fun e he => he) (fun s' hs' => hs')
      have hk := (hs.keeps.pending (-1)).inv
      refine ⟨⟨⟨hk.mem.read, hk.mem.write, hk.mem.code⟩, hk.pc, hk.mepc, hk.sepc, hk.mtvec, hk.stvec⟩,
        codeIn_jump hs.pc, by omega, fun _ => ?_, ?_⟩
      · have hnone : NoInterrupt s := checkInterrupts_eq_none.mp hirq
        exact hnone
      · simp only [blockLeft, Code.jump]
        omega

/-- How a slice ends that had `r` cycles left: with `c` of them left, and with none if the CPU is not powered down. -/
structure SliceEnded (env : InterpEnv σ) (timeout : UInt64) (r : Int) (s' : RISCVCPUState σ) (c : Int) : Prop where
  counter : timeout = s'.insnCounter + UInt64.ofInt c
  lower : -2046 ≤ c
  upper : c ≤ r
  spent : s'.powerDownFlag = false → c ≤ 0
  reach : CpuReachable env s'

/-- A call of `riscv_cpu_interp_x32` that returns, in the slice that ends at `timeout`. -/
def CallStep (env : InterpEnv σ) (timeout : UInt64) (u u' : RISCVCPUState σ) : Prop :=
  u.powerDownFlag = false ∧ 0 < cyclesLeft timeout u ∧
    ∃ fuel, interpX env fuel (cyclesLeft timeout u) u = some (.ok u')

/-- The slice comes to a call that fails with `e`. -/
def CallsFail (env : InterpEnv σ) (timeout : UInt64) (s : RISCVCPUState σ) (e : Fault) : Prop :=
  ∃ u, ReflTransGen (CallStep env timeout) s u ∧ CallFails env (cyclesLeft timeout u) u e

/-- **The loop over the calls ends.** Each of them has fewer cycles left than the one before. -/
theorem interpCalls_settles {timeout : UInt64} (fuel : Nat) {r : Int} (hs : HartInv env s)
    (hreach : CpuReachable env s) (hr : timeout = s.insnCounter + UInt64.ofInt r) (h0 : -2046 ≤ r)
    (h1 : r < 2147483647) :
    Settles ((fuel : Int) < r + 2049) (CallsFail env timeout s) (fun s' => ∃ c, SliceEnded env timeout r s' c)
      (interpCalls env timeout fuel s) := by
  -- on the bound; a call takes a cycle at least
  induction fuel generalizing r s with
  | zero =>
      show ((0 : Nat) : Int) < r + 2049
      omega
  | succ fuel ih =>
      have hleft : cyclesLeft timeout s = r := cyclesLeft_eq hr (by omega) (by omega)
      unfold interpCalls
      rw [hleft]
      by_cases hgo : s.powerDownFlag = false ∧ 0 < r
      · rw [if_pos hgo]
        have hcall := interpX_settles hs hgo.2 fuel
        rw [← hr] at hcall
        have hfail (e : Fault) (he : CallFails env r s e) : CallsFail env timeout s e :=
          ⟨s, .refl, by rw [hleft]; exact he⟩
        refine (hcall.mono id hfail (fun s' hs' => hs')).andThen (fun hshort => by push_cast; omega) ?_
        rintro s₁ hx ⟨c, hended⟩
        have hlow := hended.lower
        have hup := hended.upper
        have hreach₁ : CpuReachable env s₁ := .call fuel r hreach hgo.2 h1 hx
        refine (ih hended.inv hreach₁ hended.counter hlow (by omega)).mono (fun hshort => by push_cast; omega) ?_ ?_
        · rintro e ⟨u, hu, he⟩
          exact ⟨u, .head ⟨hgo.1, by rw [hleft]; exact hgo.2, fuel, by rw [hleft]; exact hx⟩ hu, he⟩
        · rintro s' ⟨c', h'⟩
          exact ⟨c', h'.counter, h'.lower, by have := h'.upper; omega, h'.spent, h'.reach⟩
      · rw [if_neg hgo]
        exact ⟨r, hr, h0, le_refl r, fun hup => by
          by_contra hpos
          exact hgo ⟨hup, by omega⟩, hreach⟩

/-! ## Runs -/

/-- **Every reachable state satisfies the invariant.** -/
theorem CpuReachable.inv (hs : CpuReachable env s) : HartInv env s := by
  induction hs with
  | init ram host =>
      have hpc : (0x1000 : UInt32).toNat % 2 = 0 := by decide
      have hzero : (0 : UInt32).toNat % 2 = 0 := by decide
      exact ⟨⟨fun _ => .inl rfl, fun _ => .inl rfl, fun _ => .inl rfl⟩, hpc, hzero, hzero, hzero, hzero⟩
  | call fuel nCycles _ h0 h1 hx ih =>
      obtain ⟨c, hended⟩ := (interpX_settles ih h0 fuel).of_ok hx
      exact hended.inv
  | outside ram periphs _ ih =>
      exact ⟨⟨ih.mem.read, ih.mem.write, ih.mem.code⟩, ih.pc, ih.mepc, ih.sepc, ih.mtvec, ih.stvec⟩
  | setMip mask _ ih =>
      unfold riscvCpuSetMip
      dsimp only
      split
      · exact ⟨ih.mem, ih.pc, ih.mepc, ih.sepc, ih.mtvec, ih.stvec⟩
      · exact ⟨ih.mem, ih.pc, ih.mepc, ih.sepc, ih.mtvec, ih.stvec⟩
  | resetMip mask _ ih => exact ⟨ih.mem, ih.pc, ih.mepc, ih.sepc, ih.mtvec, ih.stvec⟩

/-- A call of `riscv_cpu_interp_x32` takes a cycle at least. -/
theorem interpX_advances (hs : CpuReachable env s) {fuel : Nat} {k : Int} (h0 : 0 < k) (h1 : k < 2147483647)
    (hx : interpX env fuel k s = some (.ok s')) : 1 ≤ grown s s' := by
  obtain ⟨c, hended⟩ := (interpX_settles hs.inv h0 fuel).of_ok hx
  have hlow := hended.lower
  have hup := hended.upper
  have := grown_eq hended.counter (by omega) (by omega)
  omega

/-- The slice of `n` cycles returns in a state that the next one may start from. The counter has grown by less than
    `n + 2048`, and by `n` at least if the CPU is not powered down. -/
def SliceReturns (env : InterpEnv σ) (fuel : Nat) (s : RISCVCPUState σ) (n : Int) : Prop :=
  ∃ s', riscvCpuInterp env fuel s n = some (.ok s') ∧ CpuReachable env s' ∧ (grown s s' : Int) < n + 2048 ∧
    (s'.powerDownFlag = false → n ≤ grown s s')

/-- The slice comes to an instruction that loads or stores at a register of the cheat device, and the function of the
    device fails: it follows the addresses in its registers without looking whether they are in RAM. -/
def SliceFails (env : InterpEnv σ) (fuel : Nat) (s : RISCVCPUState σ) (n : Int) : Prop :=
  ∃ e, riscvCpuInterp env fuel s n = some (.error e) ∧ CallsFail env (s.insnCounter + UInt64.ofInt n) s e

/-- Every call of `riscv_cpu_interp_x32` takes a cycle at least. -/
def CallsAdvance (env : InterpEnv σ) : Prop :=
  ∀ (s s' : RISCVCPUState σ) (fuel : Nat) (k : Int), CpuReachable env s → 0 < k → k < 2147483647 →
    interpX env fuel k s = some (.ok s') → 1 ≤ grown s s'

/-- **A scanline's slice ends and is bounded**, from every state that the machine comes to. The bound on the
    iterations is never used up, and each call of `riscv_cpu_interp_x32` advances the counter. -/
theorem slice_bounded (hs : CpuReachable env s) {n : Int} (h0 : 0 < n) (h1 : n < 2147483647) {fuel : Nat}
    (hfuel : n + 2049 ≤ fuel) :
    (SliceReturns env fuel s n ∨ SliceFails env fuel s n) ∧ CallsAdvance env := by
  refine ⟨?_, fun s₁ s₂ bound k hs₁ hk0 hk1 hx => interpX_advances hs₁ hk0 hk1 hx⟩
  rcases (interpCalls_settles fuel hs.inv hs rfl (by omega) h1).ends (by omega) with ⟨s', hret, c, hended⟩ | hfault
  · have hlow := hended.lower
    have hup := hended.upper
    have hgrown := grown_eq hended.counter (by omega) (by omega)
    refine .inl ⟨s', hret, hended.reach, by omega, fun hawake => ?_⟩
    have := hended.spent hawake
    omega
  · exact .inr hfault

/-- Floating point for programs without it: every result is `x`. -/
def noFp {α : Type} (x : α) : SoftFp α where
  add := fun _ _ _ fl => (x, fl)
  sub := fun _ _ _ fl => (x, fl)
  mul := fun _ _ _ fl => (x, fl)
  div := fun _ _ _ fl => (x, fl)
  sqrt := fun _ _ fl => (x, fl)
  fma := fun _ _ _ _ fl => (x, fl)
  min := fun _ _ fl => (x, fl)
  max := fun _ _ fl => (x, fl)
  eqQuiet := fun _ _ fl => (0, fl)
  le := fun _ _ fl => (0, fl)
  lt := fun _ _ fl => (0, fl)
  fclass := fun _ => 0
  cvtI32 := fun _ _ fl => (0, fl)
  cvtU32 := fun _ _ fl => (0, fl)
  ofI32 := fun _ _ fl => (x, fl)
  ofU32 := fun _ _ fl => (x, fl)

/-- The machine on a host without files, input or buttons. -/
def quietEnv : InterpEnv Unit where
  mm := someMainMem
  host := quietHost
  junk := fun _ _ => 0
  sf32 := noFp 0
  sf64 := noFp 0
  cvtSf32Sf64 := fun _ fl => (0, fl)
  cvtSf64Sf32 := fun _ _ fl => (0, fl)

/-- The program `addi x1, x1, 1; c.j -4` at the reset address. -/
def countRam : Ram := (Ram.fill 0).setWords 0x1000 [0x108093, 0xbff5]

/-- A slice of 8 cycles of that program. -/
theorem slice_bounded_count : SliceReturns quietEnv 2057 (riscvStateInit countRam ()) 8 ∧ CallsAdvance quietEnv := by
  have hok : (riscvCpuInterp quietEnv 2057 (riscvStateInit countRam ()) 8).map
      (fun r => r.toOption.map (fun s => (s.insnCounter, s.reg 1))) = some (some (8, 4)) := by decide +kernel
  obtain ⟨s', hx, -⟩ := returns_of_map hok
  obtain ⟨hends, hcalls⟩ := slice_bounded (CpuReachable.init countRam ()) (by decide : (0 : Int) < 8) (by decide)
    (by decide : (8 : Int) + 2049 ≤ (2057 : Nat))
  refine ⟨hends.resolve_right ?_, hcalls⟩
  rintro ⟨e, he, -⟩
  rw [show riscvCpuInterp quietEnv 2057 (riscvStateInit countRam ()) 8 = some (.ok s') from hx] at he
  cases he

/-- Without a program the first instruction is illegal, and each call after it ends with the fetch at the vector. -/
example : (riscvCpuInterp quietEnv 8 (riscvStateInit (Ram.fill 0) ()) 3).map
    (fun r => r.toOption.map (fun s => (s.insnCounter, s.pc, s.mcause))) = some (some (3, 0, 1)) := by
  decide +kernel

end HadBadge
