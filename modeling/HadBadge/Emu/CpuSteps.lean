import HadBadge.Emu.Interp
import HadBadge.Emu.MemSteps

/-!
# `Emu.CpuSteps`: what the CPU can do

All instructions, traps and interrupts come down to a few kinds of steps. Most leave the registers that control the
CPU alone; the others are a write to a CSR, a return from a trap, `wfi`, a flush of the TLBs and a trap. So what holds
of each kind of step holds of every run.

## Contents
- **Steps.** `Control`, `Plain`; `InsnStep` for instructions, `CpuStep` with traps.
- **Instructions.** One lemma for each group, and `exec_steps`.
- **Calls of the interpreter.** `Ran`, `interpX_ran`.
- **Runs.** `CpuEvent` and `CpuRun`; `CpuRun.cpuSteps`, `CpuReachable.run`.
-/

namespace HadBadge

open Lib Relation

variable {σ : Type} {env : InterpEnv σ} {s s' s₁ s₂ t : RISCVCPUState σ}

/-! ## Steps -/

/-- The registers that control the CPU. -/
structure Control where
  priv : Nat
  mstatus : UInt32
  satp : UInt32
  frm : UInt32
  mxl : UInt32
  powerDownFlag : Bool
  mtvec : UInt32
  mscratch : UInt32
  mepc : UInt32
  mcause : UInt32
  mtval : UInt32
  mhartid : UInt32
  misa : UInt32
  mie : UInt32
  mip : UInt32
  medeleg : UInt32
  mideleg : UInt32
  mcounteren : UInt32
  stvec : UInt32
  sscratch : UInt32
  sepc : UInt32
  scause : UInt32
  stval : UInt32
  scounteren : UInt32

def RISCVCPUState.control (s : RISCVCPUState σ) : Control where
  priv := s.cpu.priv
  mstatus := s.cpu.mstatus
  satp := s.cpu.satp
  frm := s.frm
  mxl := s.mxl
  powerDownFlag := s.powerDownFlag
  mtvec := s.mtvec
  mscratch := s.mscratch
  mepc := s.mepc
  mcause := s.mcause
  mtval := s.mtval
  mhartid := s.mhartid
  misa := s.misa
  mie := s.mie
  mip := s.mip
  medeleg := s.medeleg
  mideleg := s.mideleg
  mcounteren := s.mcounteren
  stvec := s.stvec
  sscratch := s.sscratch
  sepc := s.sepc
  scause := s.scause
  stval := s.stval
  scounteren := s.scounteren

/-- A step that leaves the control registers and register 0 alone, and the floating point unit while it is off. -/
structure Plain (env : InterpEnv σ) (s s' : RISCVCPUState σ) : Prop where
  mem : MemSteps env.mm env.host s.toMach s'.toMach
  control : s'.control = s.control
  zero : s'.reg 0 = s.reg 0
  fs : s'.fs = s.fs ∨ (s.fs ≠ 0 ∧ s'.fs = 3)
  fpu : s.fs = 0 → s'.fpReg = s.fpReg ∧ s'.fflags = s.fflags

theorem Plain.refl : Plain env s s := ⟨.refl, rfl, rfl, .inl rfl, fun _ => ⟨rfl, rfl⟩⟩

theorem Plain.trans (h₁ : Plain env s s₁) (h₂ : Plain env s₁ s₂) : Plain env s s₂ where
  mem := h₁.mem.trans h₂.mem
  control := h₂.control.trans h₁.control
  zero := h₂.zero.trans h₁.zero
  fs := by
    rcases h₁.fs with h | ⟨h, h3⟩
    · rw [← h]
      exact h₂.fs
    · rcases h₂.fs with h' | ⟨-, h'⟩
      · exact .inr ⟨h, h'.trans h3⟩
      · exact .inr ⟨h, h'⟩
  fpu := by
    intro h0
    have hfs : s₁.fs = 0 := by
      rcases h₁.fs with h | ⟨h, -⟩
      · exact h.trans h0
      · exact absurd h0 h
    exact ⟨(h₂.fpu hfs).1.trans (h₁.fpu h0).1, (h₂.fpu hfs).2.trans (h₁.fpu h0).2⟩

/-- An access of memory. -/
theorem Plain.access {m : Mach σ} (hm : MemSteps env.mm env.host s.toMach m) : Plain env s { s with toMach := m } where
  mem := hm
  control := by
    have h := hm.sameMmu
    unfold RISCVCPUState.control
    rw [h.priv, h.mstatus, h.satp]
  zero := rfl
  fs := .inl rfl
  fpu := fun _ => ⟨rfl, rfl⟩

theorem Plain.setReg (hp : Plain env s s') {rd : Fin 32} (hrd : rd ≠ 0) (val : UInt32) : Plain env s (s'.setReg rd val) := by
  refine hp.trans ⟨.refl, rfl, ?_, .inl rfl, fun _ => ⟨rfl, rfl⟩⟩
  show Function.update s'.reg rd val 0 = s'.reg 0
  exact Function.update_of_ne (Ne.symm hrd) val s'.reg

theorem Plain.setRd (hp : Plain env s s') (rd : Fin 32) (val : UInt32) : Plain env s (s'.setRd rd val) := by
  unfold RISCVCPUState.setRd
  split
  · next hrd => exact hp.setReg hrd val
  · exact hp

theorem Plain.jumpInsn (hp : Plain env s s') (pc : UInt32) : Plain env s (jumpInsn s' pc).2 :=
  hp.trans ⟨.refl, rfl, rfl, .inl rfl, fun _ => ⟨rfl, rfl⟩⟩

theorem Plain.pending (hp : Plain env s s') (cause : Int) : Plain env s (s'.pending cause) :=
  hp.trans ⟨.single (.pend s'.toMach cause s'.cpu.pendingTval), rfl, rfl, .inl rfl, fun _ => ⟨rfl, rfl⟩⟩

/-- A result for a floating point register, the floating point unit being on. -/
theorem plain_fpDone (hfs : s.fs ≠ 0) (rd : Fin 32) (r : UInt64 × UInt32) : Plain env s (fpDone s rd r).2 :=
  ⟨.refl, rfl, rfl, .inr ⟨hfs, rfl⟩, fun h0 => absurd h0 hfs⟩

theorem plain_fpDoneInt (hfs : s.fs ≠ 0) (rd : Fin 32) (r : UInt32 × UInt32) : Plain env s (fpDoneInt s rd r).2 := by
  have hp : Plain env s (s.setRd rd r.1) := Plain.refl.setRd rd r.1
  have hfs' : (s.setRd rd r.1).fs = s.fs := by
    unfold RISCVCPUState.setRd
    split <;> rfl
  exact hp.trans ⟨.refl, rfl, rfl, .inl rfl, fun h0 => absurd (hfs'.symm.trans h0) hfs⟩

/-- What an instruction can do. -/
inductive InsnStep (env : InterpEnv σ) : RISCVCPUState σ → RISCVCPUState σ → Prop where
  /-- a step of an access of memory -/
  | mem {s : RISCVCPUState σ} {m : Mach σ} : MemStep env.mm env.host s.toMach m → InsnStep env s { s with toMach := m }
  /-- a plain step that does not access memory -/
  | data {s s' : RISCVCPUState σ} : s'.toMach = s.toMach → Plain env s s' → InsnStep env s s'
  /-- a write to a CSR, after the test of `csr_read` -/
  | csr {s s' : RISCVCPUState σ} {csr val old : UInt32} {err : Nat} :
      csrRead s csr true = some old → csrWrite s csr val = some (err, s') → InsnStep env s s'
  | sret {s : RISCVCPUState σ} : prvS ≤ s.cpu.priv → InsnStep env s (handleSret s)
  | mret {s : RISCVCPUState σ} : prvM ≤ s.cpu.priv → InsnStep env s (handleMret s)
  | fence {s : RISCVCPUState σ} : s.cpu.priv ≠ prvU → InsnStep env s s.flushTlb
  | wfi {s : RISCVCPUState σ} : s.cpu.priv ≠ prvU → InsnStep env s { s with powerDownFlag := true }

abbrev InsnSteps (env : InterpEnv σ) : RISCVCPUState σ → RISCVCPUState σ → Prop := ReflTransGen (InsnStep env)

/-- **A plain step** is its accesses of memory, and then the registers. -/
theorem Plain.steps (hp : Plain env s s') : InsnSteps env s s' := by
  have haccess {m : Mach σ} (hm : MemSteps env.mm env.host s.toMach m) : InsnSteps env s { s with toMach := m } := by
    induction hm with
    | refl => exact .refl
    | tail _ hstep ih => exact ih.tail (.mem hstep)
  have hcontrol := (Plain.access hp.mem).control
  exact (haccess hp.mem).tail (.data rfl ⟨.refl, hp.control.trans hcontrol.symm, hp.zero, hp.fs, hp.fpu⟩)

theorem MemStep.plain {m : Mach σ} (hm : MemStep env.mm env.host s.toMach m) : Plain env s { s with toMach := m } :=
  .access (.single hm)

/-- What the CPU can do. -/
inductive CpuStep (env : InterpEnv σ) : RISCVCPUState σ → RISCVCPUState σ → Prop where
  | insn {s s' : RISCVCPUState σ} : InsnStep env s s' → CpuStep env s s'
  | trap (s : RISCVCPUState σ) (cause tval : UInt32) : CpuStep env s (raiseException2 s cause tval)
  /-- the interrupt lines, set from outside -/
  | lines (s : RISCVCPUState σ) (mip : UInt32) (powerDown : Bool) :
      CpuStep env s { s with mip := mip, powerDownFlag := powerDown }
  /-- the rest of the emulator -/
  | outside (s : RISCVCPUState σ) (ram : Ram) (periphs : Periphs σ) : CpuStep env s { s with ram := ram, periphs := periphs }

abbrev CpuSteps (env : InterpEnv σ) : RISCVCPUState σ → RISCVCPUState σ → Prop := ReflTransGen (CpuStep env)

theorem InsnSteps.cpuSteps (hs : InsnSteps env s s') : CpuSteps env s s' := by
  induction hs with
  | refl => exact .refl
  | tail _ h ih => exact ih.tail (.insn h)

/-! ## Instructions -/

/-- A program that, if it returns, has made some steps. -/
abbrev InSteps (env : InterpEnv σ) (s : RISCVCPUState σ) (x : Executed σ) : Prop :=
  Ends (fun _ => True) (fun r => InsnSteps env s r.2) x

/-- A program that, if it returns, has made plain steps. -/
abbrev Plainly (env : InterpEnv σ) (s : RISCVCPUState σ) (x : Executed σ) : Prop :=
  Ends (fun _ => True) (fun r => Plain env s r.2) x

theorem Plainly.steps {x : Executed σ} (hx : Plainly env s x) : InSteps env s x := Ends.mono hx (fun _ h => h.steps)

theorem loadInsn_plain {addr : UInt32} {k : Nat} {next : Nat → RISCVCPUState σ → Executed σ}
    (hnext : ∀ v t, Plain env s t → t.fs = s.fs → Plainly env s (next v t)) : Plainly env s (loadInsn env s addr k next) := by
  unfold loadInsn
  cases hr : targetRead env.mm env.host (env.junk s) s.toMach addr k with
  | error e => trivial
  | ok r =>
      obtain ⟨v, m⟩ := r
      have hp : Plain env s { s with toMach := m } := Plain.access (targetRead_steps hr)
      cases v with
      | none => exact hp
      | some v => exact hnext v _ hp rfl

theorem storeInsn_plain {addr : UInt32} {val k : Nat} {next : RISCVCPUState σ → Exit × RISCVCPUState σ} (hk : k ≤ 3)
    (hnext : ∀ t, Plain env s t → Plain env s (next t).2) : Plainly env s (storeInsn env s addr val k next) := by
  unfold storeInsn
  cases hr : targetWrite env.mm env.host s.toMach addr (val % 2 ^ (8 * 2 ^ k)) k with
  | error e => trivial
  | ok r =>
      obtain ⟨ok, m⟩ := r
      have hp : Plain env s { s with toMach := m } := Plain.access (targetWrite_steps hk hr)
      cases ok with
      | false => exact hp
      | true => exact hnext _ hp

theorem fpLoadInsn_plain (rd : Fin 32) (addr : UInt32) (k : Nat) (exit : Exit) :
    Plainly env s (fpLoadInsn env s rd addr k exit) := by
  unfold fpLoadInsn
  split
  · exact Plain.refl
  · next hfs =>
    refine loadInsn_plain (fun v t ht hfst => ht.trans ?_)
    exact plain_fpDone (hfst ▸ hfs) rd (UInt64.ofNat v ||| fHigh k, t.fflags)

theorem fpStoreInsn_plain (rs2 : Fin 32) (addr : UInt32) {k : Nat} (hk : k ≤ 3) (exit : Exit) :
    Plainly env s (fpStoreInsn env s rs2 addr k exit) := by
  unfold fpStoreInsn
  split
  · exact Plain.refl
  · exact storeInsn_plain hk (fun t ht => ht)

/-- The registers of compressed instructions are 8 to 15. -/
theorem cRegAt_ne_zero (insn : UInt32) (pos : Nat) : cRegAt insn pos ≠ 0 := by
  intro h
  have hval : ((bits insn pos 7 ||| 8).toNat) % 32 = 0 := congrArg Fin.val h
  rw [UInt32.toNat_or] at hval
  have hbit : ((bits insn pos 7).toNat ||| 8).testBit 3 = true := by
    rw [Nat.testBit_or, show Nat.testBit 8 3 = true by decide, Bool.or_true]
  have hmod : (((bits insn pos 7).toNat ||| 8) % 2 ^ 5).testBit 3 = true := by
    rw [Nat.testBit_mod_two_pow, hbit]
    rfl
  have h0 : ((bits insn pos 7).toNat ||| 8) % 2 ^ 5 = 0 := hval
  rw [h0] at hmod
  exact absurd hmod (by decide)

theorem execC0_plain (insn : UInt32) : Plainly env s (execC0 env s insn) := by
  have hrd := cRegAt_ne_zero insn 2
  unfold execC0
  dsimp only
  split
  · split
    · exact Plain.refl
    · exact Plain.refl.setReg hrd _
  · exact fpLoadInsn_plain _ _ _ _
  · exact loadInsn_plain (fun v t ht _ => ht.setReg hrd _)
  · exact fpLoadInsn_plain _ _ _ _
  · exact fpStoreInsn_plain _ _ (by decide) _
  · exact storeInsn_plain (by decide) (fun t ht => ht)
  · exact fpStoreInsn_plain _ _ (by decide) _
  · exact Plain.refl

theorem execCArith_plain (insn : UInt32) : Plain env s (execCArith s insn).2 := by
  have hset (val : UInt32) : Plain env s (s.setReg (cRegAt insn 7) val) :=
    Plain.refl.setReg (cRegAt_ne_zero insn 7) val
  unfold execCArith
  dsimp only
  split
  · split
    · exact .refl
    · exact hset _
  · split
    · exact .refl
    · exact hset _
  · exact hset _
  · split
    · exact hset _
    · exact hset _
    · exact hset _
    · exact hset _
    · exact .refl

theorem execC1_plain (insn : UInt32) : Plain env s (execC1 s insn).2 := by
  unfold execC1
  dsimp only
  split
  · exact Plain.refl.setRd _ _
  · exact (Plain.refl.setReg (by decide) _).jumpInsn _
  · exact Plain.refl.setRd _ _
  · split
    · split
      · exact .refl
      · exact Plain.refl.setReg (by decide) _
    · exact Plain.refl.setRd _ _
  · exact execCArith_plain insn
  · exact Plain.refl.jumpInsn _
  · split
    · exact Plain.refl.jumpInsn _
    · exact .refl
  · split
    · exact Plain.refl.jumpInsn _
    · exact .refl

theorem execCJump_plain (insn : UInt32) : Plain env s (execCJump s insn).2 := by
  unfold execCJump
  dsimp only
  split
  · split
    · split
      · exact .refl
      · exact Plain.refl.jumpInsn _
    · exact Plain.refl.setRd _ _
  · split
    · split
      · exact Plain.refl.pending _
      · exact (Plain.refl.setReg (by decide) _).jumpInsn _
    · exact Plain.refl.setRd _ _

theorem execC2_plain (insn : UInt32) : Plainly env s (execC2 env s insn) := by
  unfold execC2
  dsimp only
  split
  · split
    · exact Plain.refl
    · exact Plain.refl.setRd _ _
  · exact fpLoadInsn_plain _ _ _ _
  · exact loadInsn_plain (fun v t ht _ => ht.setRd _ _)
  · exact fpLoadInsn_plain _ _ _ _
  · exact execCJump_plain insn
  · exact fpStoreInsn_plain _ _ (by decide) _
  · exact storeInsn_plain (by decide) (fun t ht => ht)
  · exact fpStoreInsn_plain _ _ (by decide) _

theorem execBranch_plain (insn : UInt32) : Plain env s (execBranch s insn).2 := by
  unfold execBranch
  cases branchCond (funct3 insn) (s.reg (regAt insn 15)) (s.reg (regAt insn 20)) with
  | none => exact .refl
  | some cond =>
      dsimp only
      split
      · exact Plain.refl.jumpInsn _
      · exact .refl

theorem execLoad_plain (insn : UInt32) : Plainly env s (execLoad env s insn) := by
  have hload {k : Nat} (f : Nat → UInt32) :
      Plainly env s (loadInsn env s (s.reg (regAt insn 15) + sar insn 20) k
        (fun v s => .ok (.next, s.setRd (regAt insn 7) (f v)))) :=
    loadInsn_plain (fun v t ht _ => ht.setRd _ _)
  unfold execLoad
  dsimp only
  split
  · exact hload _
  · exact hload _
  · exact hload _
  · exact hload _
  · exact hload _
  · exact Plain.refl

theorem execStore_plain (insn : UInt32) : Plainly env s (execStore env s insn) := by
  unfold execStore
  dsimp only
  split
  · next hle => exact storeInsn_plain (hle.trans (by decide)) (fun t ht => ht)
  · exact Plain.refl

theorem execOpImm_plain (insn : UInt32) : Plain env s (execOpImm s insn).2 := by
  unfold execOpImm
  cases opImm (funct3 insn).toNat (s.reg (regAt insn 15)) (sar insn 20) with
  | none => exact .refl
  | some val => exact Plain.refl.setRd _ _

theorem execOp_plain (insn : UInt32) : Plain env s (execOp s insn).2 := by
  unfold execOp
  cases op insn (s.reg (regAt insn 15)) (s.reg (regAt insn 20)) with
  | none => exact .refl
  | some val => exact Plain.refl.setRd _ _

theorem execMiscMem_plain (insn : UInt32) : Plain env s (execMiscMem s insn).2 := by
  have hself (e : Exit) : Plain env s (e, s).2 := .refl
  unfold execMiscMem
  split
  · split
    · exact hself _
    · exact hself _
  · split
    · exact hself _
    · exact hself _
  · exact hself _

theorem execAmo_plain (insn : UInt32) : Plainly env s (execAmo env s insn) := by
  unfold execAmo
  dsimp only
  split
  · exact Plain.refl
  · split
    -- `lr.w`
    · split
      · exact Plain.refl
      · refine loadInsn_plain (fun v t ht _ => Plain.setRd (ht.trans ?_) _ _)
        exact ⟨.refl, rfl, rfl, .inl rfl, fun _ => ⟨rfl, rfl⟩⟩
    · split
      -- `sc.w`
      · split
        · exact storeInsn_plain (by decide) (fun t ht => ht.setRd _ _)
        · exact Plain.refl.setRd _ _
      · split
        · exact Plain.refl
        -- a load and a store
        · refine loadInsn_plain (fun v t ht _ => ?_)
          split
          · exact ht
          · exact Ends.mono (storeInsn_plain (by decide) (fun t' ht' => ht'.setRd _ _)) (fun _ h => ht.trans h)

/-! ### Floating point -/

theorem withRm_plain (rm : UInt32) {f : UInt32 → Exit × RISCVCPUState σ} (hf : ∀ rm, Plain env s (f rm).2) :
    Plain env s (withRm s rm f).2 := by
  unfold withRm
  cases getInsnRm s rm with
  | none => exact .refl
  | some rm => exact hf rm

theorem fpTemplate_plain {α : Type} (F : FSize α) (hfs : s.fs ≠ 0) (insn : UInt32) :
    Plain env s (fpTemplate F s insn).2 := by
  have hfp (rd : Fin 32) (r : UInt64 × UInt32) : Plain env s (fpDone s rd r).2 := plain_fpDone hfs rd r
  have hint (rd : Fin 32) (r : UInt32 × UInt32) : Plain env s (fpDoneInt s rd r).2 := plain_fpDoneInt hfs rd r
  unfold fpTemplate
  dsimp only
  split
  -- the four operations and the square root
  · exact withRm_plain _ (fun rm => hfp _ _)
  · exact withRm_plain _ (fun rm => hfp _ _)
  · exact withRm_plain _ (fun rm => hfp _ _)
  · exact withRm_plain _ (fun rm => hfp _ _)
  · refine withRm_plain _ (fun rm => ?_)
    split
    · exact .refl
    · exact hfp _ _
  -- signs, minimum and maximum
  · split
    · exact hfp _ _
    · exact hfp _ _
    · exact hfp _ _
    · exact .refl
  · split
    · exact hfp _ _
    · exact hfp _ _
    · exact .refl
  -- to integers, comparisons, from integers, between formats
  · refine withRm_plain _ (fun rm => ?_)
    split
    · exact hint _ _
    · exact hint _ _
    · exact .refl
  · split
    · exact hint _ _
    · exact hint _ _
    · exact hint _ _
    · exact .refl
  · refine withRm_plain _ (fun rm => ?_)
    split
    · exact hfp _ _
    · exact hfp _ _
    · exact .refl
  · refine withRm_plain _ (fun rm => ?_)
    split
    · exact hfp _ _
    · exact .refl
  -- moves and classes
  · split
    · exact .refl
    · split
      · exact hint _ _
      · split
        · exact hint _ _
        · exact .refl
  · split
    · exact hfp _ _
    · exact .refl
  · exact .refl

theorem execFp_plain (insn : UInt32) : Plain env s (execFp env s insn).2 := by
  unfold execFp
  split
  · exact .refl
  · next hfs =>
    split
    · exact fpTemplate_plain _ hfs insn
    · exact fpTemplate_plain _ hfs insn
    · exact .refl

theorem execFma_plain (insn : UInt32) (neg1 neg3 : Bool) : Plain env s (execFma env s insn neg1 neg3).2 := by
  unfold execFma
  split
  · exact .refl
  · next hfs =>
    refine withRm_plain _ (fun rm => ?_)
    split
    · exact plain_fpDone hfs _ _
    · exact plain_fpDone hfs _ _
    · exact .refl

theorem execFpLoad_plain (insn : UInt32) : Plainly env s (execFpLoad env s insn) := by
  unfold execFpLoad
  dsimp only
  split
  · exact fpLoadInsn_plain _ _ _ _
  · exact fpLoadInsn_plain _ _ _ _
  · exact Plain.refl

theorem execFpStore_plain (insn : UInt32) : Plainly env s (execFpStore env s insn) := by
  unfold execFpStore
  dsimp only
  split
  · exact fpStoreInsn_plain _ _ (by decide) _
  · exact fpStoreInsn_plain _ _ (by decide) _
  · exact Plain.refl

/-! ### Opcode 0x73 -/

theorem csrDone_plain (rd : Fin 32) (val2 : UInt32) (err : Nat) : Plain env s (csrDone rd val2 err s).2 := by
  have hrd : Plain env s (s.setRd rd val2) := Plain.refl.setRd rd val2
  unfold csrDone
  dsimp only
  split
  · exact hrd
  · split
    · exact hrd.jumpInsn _
    · exact hrd.jumpInsn _

theorem execCsr_steps (insn : UInt32) (counter : UInt64) : InsnSteps env s (execCsr s insn counter).2 := by
  have hcount : Plain env s { s with insnCounter := counter } := ⟨.refl, rfl, rfl, .inl rfl, fun _ => ⟨rfl, rfl⟩⟩
  unfold execCsr
  dsimp only
  split
  · exact hcount.steps
  · next old hread =>
    split
    · exact (hcount.trans (csrDone_plain _ _ _)).steps
    · next hwrites =>
      have hwill : ((funct3 insn &&& 3).toNat = 1 ∨ regAt insn 15 ≠ 0 : Bool) = true := by
        rw [decide_eq_true_eq]
        by_contra hno
        rw [not_or, not_not] at hno
        exact hwrites hno
      rw [hwill] at hread
      split
      · exact hcount.steps
      · next err t hw => exact (hcount.steps.tail (.csr hread hw)).trans (csrDone_plain _ _ _).steps

theorem execPriv_steps (insn : UInt32) : InsnSteps env s (execPriv s insn).2 := by
  have hpc (pc : UInt32) : InsnSteps env s { s with pc := pc } := (Plain.refl.jumpInsn pc).steps
  unfold execPriv
  dsimp only
  split
  -- `ecall` and `ebreak`
  · split
    · exact .refl
    · exact (Plain.refl.pending _).steps
  · split
    · exact .refl
    · exact (Plain.refl.pending _).steps
  -- `sret` and `mret`
  · split
    · exact .refl
    · split
      · exact .refl
      · next hpriv => exact (hpc s.getPc).tail (.sret (not_lt.mp hpriv))
  · split
    · exact .refl
    · split
      · exact .refl
      · next hpriv => exact (hpc s.getPc).tail (.mret (not_lt.mp hpriv))
  -- `wfi`
  · split
    · exact .refl
    · split
      · exact .refl
      · next hpriv =>
        split
        · exact (hpc (s.getPc + 4)).tail (.wfi hpriv)
        · exact .refl
  -- `sfence.vma`
  · split
    · split
      · exact .refl
      · split
        · exact .refl
        · next hpriv => exact (ReflTransGen.single (.fence hpriv)).trans (Plain.refl.jumpInsn _).steps
    · exact .refl

theorem execSystem_steps (insn : UInt32) (counter : UInt64) : InsnSteps env s (execSystem s insn counter).2 := by
  unfold execSystem
  split
  · exact execPriv_steps insn
  · exact execCsr_steps insn counter

/-! ### The `switch` -/

theorem exec32_steps (insn : UInt32) (counter : UInt64) : InSteps env s (exec32 env s insn counter) := by
  have hset (val : UInt32) : Plain env s (s.setRd (regAt insn 7) val) := Plain.refl.setRd _ _
  unfold exec32
  dsimp only
  split
  · exact (hset _).steps
  · exact (hset _).steps
  · exact ((hset _).jumpInsn _).steps
  · exact ((hset _).jumpInsn _).steps
  · exact (execBranch_plain insn).steps
  · exact (execLoad_plain insn).steps
  · exact (execStore_plain insn).steps
  · exact (execOpImm_plain insn).steps
  · exact (execOp_plain insn).steps
  · exact execSystem_steps insn counter
  · exact (execMiscMem_plain insn).steps
  · exact (execAmo_plain insn).steps
  · exact (execFpLoad_plain insn).steps
  · exact (execFpStore_plain insn).steps
  · exact (execFma_plain insn _ _).steps
  · exact (execFma_plain insn _ _).steps
  · exact (execFma_plain insn _ _).steps
  · exact (execFma_plain insn _ _).steps
  · exact (execFp_plain insn).steps
  · exact .refl

/-- **Every instruction** comes down to the steps above. -/
theorem exec_steps (insn : UInt32) (counter : UInt64) : InSteps env s (exec env s insn counter) := by
  unfold exec
  split
  · exact (execC0_plain insn).steps
  · exact (execC1_plain insn).steps
  · exact (execC2_plain insn).steps
  · exact exec32_steps insn counter

/-! ## Calls of the interpreter -/

/-- **What a call of the interpreter comes to**: instructions, and at most one trap, which ends it. -/
def Ran (env : InterpEnv σ) (s s' : RISCVCPUState σ) : Prop :=
  InsnSteps env s s' ∨
    ∃ t cause tval counter, InsnSteps env s t ∧ s' = { raiseException2 t cause tval with insnCounter := counter }

theorem Ran.head (h₁ : InsnSteps env s s₁) (h₂ : Ran env s₁ s') : Ran env s s' := by
  rcases h₂ with h₂ | ⟨t, cause, tval, counter, h₂, rfl⟩
  · exact .inl (h₁.trans h₂)
  · exact .inr ⟨t, cause, tval, counter, h₁.trans h₂, rfl⟩

theorem theEnd_steps (addend : UInt64) (nCycles : Int) : InsnSteps env s (theEnd addend nCycles s) :=
  Plain.steps ⟨.refl, rfl, rfl, .inl rfl, fun _ => ⟨rfl, rfl⟩⟩

theorem takeException_ran (addend : UInt64) (nCycles : Int) : Ran env s (theEnd addend nCycles (takeException s)) := by
  have hpc : InsnSteps env s { s with pc := s.getPc } := (Plain.refl.jumpInsn _).steps
  unfold takeException
  dsimp only
  split
  · exact .inr ⟨_, _, _, _, hpc, rfl⟩
  · exact .inl (hpc.trans (theEnd_steps _ _))

theorem illegalInsn_steps (insn : UInt32) : InsnSteps env s (illegalInsn s insn) :=
  Plain.steps ⟨.single (.pend s.toMach causeIllegalInstruction insn), rfl, rfl, .inl rfl, fun _ => ⟨rfl, rfl⟩⟩

/-- What an iteration comes to: another one after instructions, or the end of the call. -/
def IterRan (env : InterpEnv σ) (s : RISCVCPUState σ) : Iter σ → Prop
  | .again _ s' => InsnSteps env s s'
  | .done s'    => Ran env s s'

theorem IterRan.head {i : Iter σ} (h₁ : InsnSteps env s s₁) (h₂ : IterRan env s₁ i) : IterRan env s i := by
  cases i with
  | again n t => exact h₁.trans h₂
  | done t => exact Ran.head h₁ h₂

theorem afterExec_ran (addend : UInt64) (nCycles : Int) (insn : UInt32) (exit : Exit) :
    IterRan env s (afterExec addend nCycles insn (exit, s)) := by
  have hcode (code : Code) : InsnSteps env s { s with code := code } :=
    Plain.steps ⟨.single (.code s.toMach code), rfl, rfl, .inl rfl, fun _ => ⟨rfl, rfl⟩⟩
  cases exit with
  | next => exact hcode _
  | cNext => exact hcode _
  | jump => exact hcode _
  | illegalInsn => exact Ran.head (illegalInsn_steps insn) (takeException_ran _ _)
  | exception => exact takeException_ran _ _
  | doneInterp => exact .inl (theEnd_steps _ _)

theorem interpFetch_ran {addend : UInt64} {nCycles : Int} {i : Iter σ}
    (hi : interpFetch env addend nCycles s = .ok i) : IterRan env s i := by
  obtain ⟨⟨insn, m⟩, hfetch, hi⟩ := bind_eq_ok.mp hi
  have hm : InsnSteps env s { s with toMach := m } := (Plain.access (fetchInsn_steps env.host hfetch)).steps
  cases insn with
  | none =>
      cases hi
      exact Ran.head hm (takeException_ran _ _)
  | some insn =>
      obtain ⟨⟨exit, t⟩, hexec, hi⟩ := bind_eq_ok.mp hi
      cases hi
      have hsteps : InSteps env { s with toMach := m } (exec env { s with toMach := m } (UInt32.ofNat insn)
          (getInsnCounter addend nCycles)) := exec_steps _ _
      rw [hexec] at hsteps
      exact IterRan.head (hm.trans hsteps) (afterExec_ran addend nCycles _ exit)

/-- An interrupt. -/
theorem checkInterrupts_ran (hirq : checkInterrupts s = some s') (addend : UInt64) (nCycles : Int) :
    Ran env s (theEnd addend nCycles s') := by
  unfold checkInterrupts raiseInterrupt at hirq
  dsimp only at hirq
  split at hirq
  · split at hirq
    · cases hirq
    · cases hirq
      exact .inr ⟨s, _, _, _, .refl, rfl⟩
  · cases hirq

theorem interpIter_ran {addend : UInt64} {nCycles : Int} {i : Iter σ} (hi : interpIter env addend nCycles s = .ok i) :
    IterRan env s i := by
  have hpc : InsnSteps env s { s with pc := s.getPc } := (Plain.refl.jumpInsn _).steps
  unfold interpIter at hi
  dsimp only at hi
  split at hi
  · split at hi
    · cases hi
      exact .inl (hpc.trans (theEnd_steps _ _))
    · split at hi
      · next t hirq =>
        cases hi
        exact Ran.head hpc (checkInterrupts_ran hirq _ _)
      · exact IterRan.head hpc (interpFetch_ran hi)
  · exact interpFetch_ran hi

theorem interpLoop_ran {addend : UInt64} {fuel : Nat} {nCycles : Int}
    (hr : interpLoop env addend fuel nCycles s = some (.ok s')) : Ran env s s' := by
  -- on the iterations that are left
  induction fuel generalizing nCycles s with
  | zero => cases hr
  | succ fuel ih =>
      unfold interpLoop at hr
      split at hr
      · cases hr
      · next t hiter =>
        cases hr
        exact interpIter_ran hiter
      · next n t hiter => exact Ran.head (interpIter_ran hiter) (ih hr)

/-- **A call of the interpreter.** -/
theorem interpX_ran {fuel : Nat} {nCycles : Int} (hr : interpX env fuel nCycles s = some (.ok s')) : Ran env s s' := by
  unfold interpX at hr
  dsimp only at hr
  split at hr
  · cases hr
    exact .inl .refl
  · split at hr
    · next t hirq =>
      cases hr
      exact checkInterrupts_ran hirq _ _
    · refine Ran.head (Plain.steps ((Plain.refl.pending (-1)).trans ?_)) (interpLoop_ran hr)
      exact ⟨.single (.code _ (Code.jump s.pc)), rfl, rfl, .inl rfl, fun _ => ⟨rfl, rfl⟩⟩

theorem Ran.cpuSteps (h : Ran env s s') : CpuSteps env s s' := by
  rcases h with h | ⟨t, cause, tval, counter, h, rfl⟩
  · exact InsnSteps.cpuSteps h
  · refine ((InsnSteps.cpuSteps h).tail (.trap t cause tval)).tail (.insn (.data rfl ?_))
    exact ⟨.refl, rfl, rfl, .inl rfl, fun _ => ⟨rfl, rfl⟩⟩

/-! ## Runs -/

/-- What happens to the CPU: calls of the interpreter, and whatever the rest of the emulator does in between. -/
inductive CpuEvent (env : InterpEnv σ) : RISCVCPUState σ → RISCVCPUState σ → Prop where
  | call {s s' : RISCVCPUState σ} {fuel : Nat} {nCycles : Int} :
      interpX env fuel nCycles s = some (.ok s') → CpuEvent env s s'
  | outside (s : RISCVCPUState σ) (ram : Ram) (periphs : Periphs σ) :
      CpuEvent env s { s with ram := ram, periphs := periphs }
  | setMip (s : RISCVCPUState σ) (mask : UInt32) : CpuEvent env s (riscvCpuSetMip s mask)
  | resetMip (s : RISCVCPUState σ) (mask : UInt32) : CpuEvent env s (riscvCpuResetMip s mask)

/-- Any number of events. -/
abbrev CpuRun (env : InterpEnv σ) : RISCVCPUState σ → RISCVCPUState σ → Prop := ReflTransGen (CpuEvent env)

/-- The interrupt lines. -/
theorem riscvCpuSetMip_eq (s : RISCVCPUState σ) (mask : UInt32) :
    ∃ mip powerDown, riscvCpuSetMip s mask = { s with mip := mip, powerDownFlag := powerDown } := by
  unfold riscvCpuSetMip
  dsimp only
  split
  · exact ⟨_, false, rfl⟩
  · exact ⟨_, s.powerDownFlag, rfl⟩

theorem CpuEvent.cpuSteps (h : CpuEvent env s s') : CpuSteps env s s' := by
  cases h with
  | call hr => exact (interpX_ran hr).cpuSteps
  | outside ram periphs => exact .single (.outside s ram periphs)
  | setMip mask =>
      obtain ⟨mip, powerDown, heq⟩ := riscvCpuSetMip_eq s mask
      rw [heq]
      exact .single (.lines s mip powerDown)
  | resetMip mask => exact .single (.lines s _ s.powerDownFlag)

theorem CpuRun.cpuSteps (h : CpuRun env s s') : CpuSteps env s s' := by
  induction h with
  | refl => exact .refl
  | tail _ hevent ih => exact ih.trans hevent.cpuSteps

/-- **Every state that the CPU reaches** is one of a run from reset. -/
theorem CpuReachable.run (hs : CpuReachable env s) : ∃ ram host, CpuRun env (riscvStateInit ram host) s := by
  induction hs with
  | init ram host => exact ⟨ram, host, .refl⟩
  | call fuel nCycles _ _ _ hr ih =>
      obtain ⟨ram, host, hrun⟩ := ih
      exact ⟨ram, host, hrun.tail (.call hr)⟩
  | outside ram periphs _ ih =>
      obtain ⟨ram₀, host, hrun⟩ := ih
      exact ⟨ram₀, host, hrun.tail (.outside _ ram periphs)⟩
  | setMip mask _ ih =>
      obtain ⟨ram, host, hrun⟩ := ih
      exact ⟨ram, host, hrun.tail (.setMip _ mask)⟩
  | resetMip mask _ ih =>
      obtain ⟨ram, host, hrun⟩ := ih
      exact ⟨ram, host, hrun.tail (.resetMip _ mask)⟩

end HadBadge
