import HadBadge.Correctness.FloatFma
import Mathlib.Analysis.Real.Sqrt
import Mathlib.Tactic.IntervalCases

/-!
# `Correctness.FpInsn`: floating point instructions

With the functions of `softfp.c` behind it, the interpreter does the arithmetic that the registers' formats ask for:
the operands' values, combined as the instruction says, are rounded as its rounding mode says, and what is raised is
added to `fflags`.

## Contents
- **Registers.** `Fmt`: what an instruction reads from a register, and how it puts a result there.
- **Instructions.** `FpOp`, `ArithDone` and `FmaDone`; `exec_fp_arith` and `exec_fma`.
-/

namespace HadBadge

open Lib Lib.FloatFormat

variable {σ : Type} {mm : MainMem} {host : MachHost σ} {junk : RISCVCPUState σ → UInt32 → Nat}

/-! ## Registers -/

/-- The formats of floating point registers. -/
inductive Fmt where
  | s | d
  deriving DecidableEq, Repr

def Fmt.format : Fmt → FloatFormat
  | .s => sf32
  | .d => sf64

/-- The number of a format in an instruction. -/
def Fmt.code : Fmt → ℕ
  | .s => 0
  | .d => 1

/-- What a register holds. -/
def Fmt.unbox (f : Fmt) (x : UInt64) : ℕ := x.toNat % 2 ^ f.format.size

/-- A result in a register. -/
def Fmt.box : Fmt → ℕ → UInt64
  | .s, r => UInt64.ofNat r ||| 0xffffffff00000000
  | .d, r => UInt64.ofNat r

theorem Fmt.unbox_lt (f : Fmt) (x : UInt64) : f.unbox x < 2 ^ f.format.size := Nat.mod_lt _ (Nat.two_pow_pos _)

/-- An operand with its sign changed or not. -/
def Fmt.signed (f : Fmt) (neg : Bool) (a : ℕ) : ℕ := if neg = true then f.format.flip a else a

theorem Fmt.signed_lt (f : Fmt) (neg : Bool) (x : UInt64) : f.signed neg (f.unbox x) < 2 ^ f.format.size := by
  unfold Fmt.signed
  split
  · exact flip_lt _
  · exact f.unbox_lt x

/-- A result is read as it has been put. -/
theorem Fmt.unbox_box (f : Fmt) {r : ℕ} (hr : r < 2 ^ f.format.size) : f.unbox (f.box r) = r := by
  cases f with
  | s =>
    have hr32 : r < 2 ^ 32 := hr
    have hlow : (r ||| 0xffffffff00000000) % 2 ^ 32 = r := by
      rw [Nat.or_mod_two_pow, Nat.mod_eq_of_lt hr32]
      exact Nat.or_zero r
    show (UInt64.ofNat r ||| 0xffffffff00000000).toNat % 2 ^ 32 = r
    rw [UInt64.toNat_or, UInt64.toNat_ofNat', Nat.mod_eq_of_lt (by omega : r < 2 ^ 64)]
    exact hlow
  | d =>
    have hr64 : r < 2 ^ 64 := hr
    show (UInt64.ofNat r).toNat % 2 ^ 64 = r
    rw [UInt64.toNat_ofNat', Nat.mod_mod, Nat.mod_eq_of_lt hr64]

/-- A result in register `rd`, with what it raises. -/
def fpWritten (s : RISCVCPUState σ) (f : Fmt) (rd : Fin 32) (r : ℕ) (ex : Exceptions) : RISCVCPUState σ :=
  { s.setFpReg rd (f.box r) with fflags := s.fflags ||| exBits ex, fs := 3 }

/-- The template of one format, over the functions of `softfp.c`. -/
structure FpTemplate {α : Type} (F : FSize α) (f : Fmt) (ofNat : ℕ → α) (toNat : α → ℕ) : Prop where
  lib : F.lib = softFp f.format ofNat toNat
  ofReg : ∀ x, toNat (F.ofReg x) = f.unbox x
  toReg : ∀ r, r < 2 ^ f.format.size → F.toReg (ofNat r) = f.box r
  flip : ∀ x, f.unbox (x ^^^ F.fsignMask) = f.format.flip (f.unbox x)

theorem fSize32_template : FpTemplate (fSize32 (softFpEnv mm host junk)) .s UInt32.ofNat UInt32.toNat where
  lib := rfl
  ofReg := fun x => UInt64.toNat_toUInt32 x
  toReg := by
    intro r hr
    have hr32 : r < 2 ^ 32 := hr
    have hword : (UInt32.ofNat r).toUInt64 = UInt64.ofNat r := by
      rw [← UInt64.toNat_inj, UInt32.toNat_toUInt64, UInt32.toNat_ofNat', UInt64.toNat_ofNat', Nat.mod_eq_of_lt hr32,
        Nat.mod_eq_of_lt (hr32.trans (by decide))]
    show (UInt32.ofNat r).toUInt64 ||| 0xffffffff00000000 = UInt64.ofNat r ||| 0xffffffff00000000
    rw [hword]
  flip := by
    intro x
    have hmask : (0xffffffff80000000 : UInt64).toNat % 2 ^ 32 = signMask sf32 := by decide
    show (x ^^^ 0xffffffff80000000).toNat % 2 ^ 32 = sf32.flip (x.toNat % 2 ^ 32)
    rw [UInt64.toNat_xor, Nat.xor_mod_two_pow, hmask]
    exact xor_signMask (Nat.mod_lt _ (Nat.two_pow_pos 32))

theorem fSize64_template : FpTemplate (fSize64 (softFpEnv mm host junk)) .d UInt64.ofNat UInt64.toNat where
  lib := rfl
  ofReg := fun x => (Nat.mod_eq_of_lt x.toNat_lt).symm
  toReg := fun _ _ => rfl
  flip := by
    intro x
    have hmask : ((1 : UInt64) <<< 63).toNat = signMask sf64 := by decide
    show (x ^^^ (1 : UInt64) <<< 63).toNat % 2 ^ 64 = sf64.flip (x.toNat % 2 ^ 64)
    rw [Nat.mod_eq_of_lt (UInt64.toNat_lt _), UInt64.toNat_xor, hmask, Nat.mod_eq_of_lt x.toNat_lt]
    exact xor_signMask x.toNat_lt

/-! ## Instructions -/

/-- The arithmetic of opcode 0x53. -/
inductive FpOp where
  | add | sub | mul | div | sqrt
  deriving DecidableEq, Repr

/-- The upper five bits of the instruction. -/
def FpOp.code : FpOp → ℕ
  | .add => 0x00
  | .sub => 0x01
  | .mul => 0x02
  | .div => 0x03
  | .sqrt => 0x0b

/-- What an instruction computes, over the reals. -/
noncomputable def FpOp.spec (op : FpOp) (F : FloatFormat) (mode : RoundingMode) (a b : ℕ) : FloatResult ℝ :=
  match op with
  | .add => F.addSpec ℝ mode a b
  | .sub => F.subSpec ℝ mode a b
  | .mul => F.mulSpec ℝ a b
  | .div => F.divSpec ℝ a b
  | .sqrt => F.sqrtSpec a (Real.sqrt (F.value a))

/-- The function of an instruction. -/
def FpOp.softfp (op : FpOp) (F : FloatFormat) (a b : ℕ) (rm fl : UInt32) : Except Fault FpResult :=
  match op with
  | .add => addSf F a b rm fl
  | .sub => subSf F a b rm fl
  | .mul => mulSf F a b rm fl
  | .div => divSf F a b rm fl
  | .sqrt => sqrtSf F a rm fl

theorem FpOp.softfp_delivers (op : FpOp) (F : FloatFormat) (mode : RoundingMode) {a b : ℕ} (ha : a < 2 ^ F.size)
    (hb : b < 2 ^ F.size) (fl : UInt32) :
    ∃ r ex, op.softfp F a b (RoundingMode.rm mode) fl = .ok (r, fl ||| exBits ex) ∧
      F.Delivers mode (op.spec F mode a b) r ex := by
  cases op with
  | add => exact addSf_delivers mode ha hb fl
  | sub => exact subSf_delivers mode ha hb fl
  | mul => exact mulSf_delivers mode ha hb fl
  | div => exact divSf_delivers mode ha hb fl
  | sqrt => exact sqrtSf_delivers mode ha (Real.sqrt_nonneg _) (fun h => Real.mul_self_sqrt h) fl

/-- A rounding mode that an instruction may have. -/
theorem getInsnRm_mode {s : RISCVCPUState σ} {rm rm' : UInt32} (hfrm : s.frm < 5) (h : getInsnRm s rm = some rm') :
    ∃ mode, rm' = RoundingMode.rm mode := by
  have hlt : rm' < 5 := by
    unfold getInsnRm at h
    split at h
    · exact Option.some.inj h ▸ hfrm
    · split at h
      · cases h
      · next h5 => exact Option.some.inj h ▸ UInt32.not_le.mp h5
  obtain ⟨n, hn, rfl⟩ : ∃ n, n < 5 ∧ rm' = UInt32.ofNat n := ⟨rm'.toNat, hlt, UInt32.ofNat_toNat.symm⟩
  interval_cases n
  · exact ⟨.rne, rfl⟩
  · exact ⟨.rtz, rfl⟩
  · exact ⟨.rdn, rfl⟩
  · exact ⟨.rup, rfl⟩
  · exact ⟨.rmm, rfl⟩

/-- The outcome of an instruction on operands `res` was made from: `r` in its register, correctly rounded. -/
def FpDelivered (s : RISCVCPUState σ) (f : Fmt) (rd : Fin 32) (mode : RoundingMode) (res : FloatResult ℝ)
    (out : Exit × RISCVCPUState σ) : Prop :=
  ∃ r ex, out = (.next, fpWritten s f rd r ex) ∧ r < 2 ^ f.format.size ∧ f.format.Delivers mode res r ex

theorem inWord_delivered {α : Type} {F : FSize α} {f : Fmt} {ofNat : ℕ → α} {toNat : α → ℕ}
    (hF : FpTemplate F f ofNat toNat) (s : RISCVCPUState σ) (rd : Fin 32) {mode : RoundingMode} {res : FloatResult ℝ}
    {x : Except Fault FpResult}
    (hx : ∃ r ex, x = .ok (r, s.fflags ||| exBits ex) ∧ f.format.Delivers mode res r ex) :
    FpDelivered s f rd mode res
      (fpDone s rd (F.toReg (inWord ofNat s.fflags x).1, (inWord ofNat s.fflags x).2)) := by
  obtain ⟨r, ex, rfl, hdel⟩ := hx
  refine ⟨r, ex, ?_, Delivers.lt hdel, hdel⟩
  rw [inWord, hF.toReg r (Delivers.lt hdel)]
  rfl

theorem fpTemplate_arith {α : Type} {F : FSize α} {f : Fmt} {ofNat : ℕ → α} {toNat : α → ℕ}
    (hF : FpTemplate F f ofNat toNat) {s : RISCVCPUState σ} {insn : UInt32} {op : FpOp} {mode : RoundingMode}
    (hop : (insn >>> 27).toNat = op.code) (hrm : getInsnRm s (funct3 insn) = some (RoundingMode.rm mode))
    (hsqrt : op = .sqrt → regAt insn 20 = 0) :
    FpDelivered s f (regAt insn 7) mode
      (op.spec f.format mode (f.unbox (s.fpReg (regAt insn 15))) (f.unbox (s.fpReg (regAt insn 20))))
      (fpTemplate F s insn) := by
  have hx := op.softfp_delivers f.format mode (f.unbox_lt (s.fpReg (regAt insn 15))) (f.unbox_lt (s.fpReg (regAt insn 20)))
    s.fflags
  rw [← hF.ofReg, ← hF.ofReg] at hx ⊢
  unfold fpTemplate
  cases op <;> simp only [hop, FpOp.code, withRm, hrm, hF.lib]
  · exact inWord_delivered hF s _ hx
  · exact inWord_delivered hF s _ hx
  · exact inWord_delivered hF s _ hx
  · exact inWord_delivered hF s _ hx
  · rw [if_neg (not_not.mpr (hsqrt rfl))]
    exact inWord_delivered hF s _ hx

theorem fmaTemplate_delivers {α : Type} {F : FSize α} {f : Fmt} {ofNat : ℕ → α} {toNat : α → ℕ}
    (hF : FpTemplate F f ofNat toNat) (s : RISCVCPUState σ) (insn : UInt32) (mode : RoundingMode) (neg1 neg3 : Bool) :
    FpDelivered s f (regAt insn 7) mode
      (f.format.fmaSpec ℝ mode (f.signed neg1 (f.unbox (s.fpReg (regAt insn 15)))) (f.unbox (s.fpReg (regAt insn 20)))
        (f.signed neg3 (f.unbox (s.fpReg (regAt insn 27)))))
      (fmaTemplate F s insn (RoundingMode.rm mode) neg1 neg3) := by
  have hsigned (neg : Bool) (x : UInt64) :
      toNat (F.ofReg (if neg = true then x ^^^ F.fsignMask else x)) = f.signed neg (f.unbox x) := by
    rw [hF.ofReg]
    cases neg with
    | true => exact hF.flip x
    | false => rfl
  unfold fmaTemplate
  dsimp only
  rw [hF.lib]
  refine inWord_delivered hF s _ ?_
  rw [hsigned, hsigned, hF.ofReg]
  exact fmaSf_delivers mode (f.signed_lt neg1 _) (f.unbox_lt _) (f.signed_lt neg3 _) s.fflags

/-- An instruction of 32 bits. -/
theorem exec_eq_exec32 {env : InterpEnv σ} {s : RISCVCPUState σ} {insn c : UInt32} (hinsn : insn &&& 0x7f = c)
    (hc : c &&& 3 = 3) (counter : UInt64) : exec env s insn counter = exec32 env s insn counter := by
  have hlow : insn &&& 3 = 3 := by
    have h := congrArg (· &&& (3 : UInt32)) hinsn
    rwa [UInt32.and_assoc, show (0x7f : UInt32) &&& 3 = 3 by decide, hc] at h
  unfold exec
  rw [hlow]
  rfl

/-- The rounding mode of an instruction is reserved, or it is a mode. -/
theorem getInsnRm_cases {s : RISCVCPUState σ} (hfrm : s.frm < 5) (rm : UInt32) :
    (5 ≤ rm ∧ rm ≠ 7) ∧ getInsnRm s rm = none ∨
      ¬ (5 ≤ rm ∧ rm ≠ 7) ∧ ∃ mode, getInsnRm s rm = some (RoundingMode.rm mode) := by
  cases h : getInsnRm s rm with
  | none =>
    unfold getInsnRm at h
    split at h
    · cases h
    · next h7 =>
      split at h
      · next h5 => exact .inl ⟨⟨h5, h7⟩, rfl⟩
      · cases h
  | some rm' =>
    obtain ⟨mode, rfl⟩ := getInsnRm_mode hfrm h
    refine .inr ⟨fun hres => ?_, mode, rfl⟩
    unfold getInsnRm at h
    rw [if_neg hres.2, if_pos hres.1] at h
    cases h

/-- What addition, subtraction, multiplication, division and the square root do. An instruction is illegal where the
    floating point unit is off, its rounding mode is reserved, or a field that must be 0 is not; else it delivers what
    the operation comes to on the values of the two registers, rounded. -/
def ArithDone (s : RISCVCPUState σ) (insn : UInt32) (op : FpOp) (f : Fmt) (out : Exit × RISCVCPUState σ) : Prop :=
  if s.fs = 0 ∨ (5 ≤ funct3 insn ∧ funct3 insn ≠ 7) ∨ (op = .sqrt ∧ regAt insn 20 ≠ 0) then out = (.illegalInsn, s)
  else ∃ mode, getInsnRm s (funct3 insn) = some (RoundingMode.rm mode) ∧
    FpDelivered s f (regAt insn 7) mode
      (op.spec f.format mode (f.unbox (s.fpReg (regAt insn 15))) (f.unbox (s.fpReg (regAt insn 20)))) out

/-- **Addition, subtraction, multiplication, division and square root.** -/
theorem exec_fp_arith {s : RISCVCPUState σ} (hfrm : s.frm < 5) {insn : UInt32} (hinsn : insn &&& 0x7f = 0x53) {op : FpOp}
    (hop : (insn >>> 27).toNat = op.code) {f : Fmt} (hfmt : (bits insn 25 3).toNat = f.code) (counter : UInt64) :
    ∃ out, exec (softFpEnv mm host junk) s insn counter = .ok out ∧ ArithDone s insn op f out := by
  refine ⟨execFp (softFpEnv mm host junk) s insn, ?_, ?_⟩
  · rw [exec_eq_exec32 hinsn (by decide)]
    unfold exec32
    rw [hinsn]
    rfl
  unfold execFp ArithDone
  by_cases hfs : s.fs = 0
  · rw [if_pos (.inl hfs), if_pos hfs]
  rw [if_neg hfs]
  -- the template of the format, of which the two differ in words only
  suffices h : ∀ {α : Type} {F : FSize α} {ofNat : ℕ → α} {toNat : α → ℕ}, FpTemplate F f ofNat toNat →
      if s.fs = 0 ∨ (5 ≤ funct3 insn ∧ funct3 insn ≠ 7) ∨ (op = .sqrt ∧ regAt insn 20 ≠ 0)
      then fpTemplate F s insn = (.illegalInsn, s)
      else ∃ mode, getInsnRm s (funct3 insn) = some (RoundingMode.rm mode) ∧
        FpDelivered s f (regAt insn 7) mode
          (op.spec f.format mode (f.unbox (s.fpReg (regAt insn 15))) (f.unbox (s.fpReg (regAt insn 20))))
          (fpTemplate F s insn) by
    cases f with
    | s => simp only [hfmt, Fmt.code]; exact h fSize32_template
    | d => simp only [hfmt, Fmt.code]; exact h fSize64_template
  intro α F ofNat toNat hF
  rcases getInsnRm_cases hfrm (funct3 insn) with ⟨hres, hnone⟩ | ⟨hres, mode, hmode⟩
  · rw [if_pos (.inr (.inl hres))]
    unfold fpTemplate
    cases op <;> simp only [hop, FpOp.code, withRm, hnone]
  by_cases hsq : op = .sqrt ∧ regAt insn 20 ≠ 0
  · rw [if_pos (.inr (.inr hsq))]
    unfold fpTemplate
    simp only [hop, hsq.1, FpOp.code, withRm, hmode, if_pos hsq.2]
  · rw [if_neg (by tauto)]
    exact ⟨mode, hmode, fpTemplate_arith hF hop hmode (fun h => not_not.mp (fun hne => hsq ⟨h, hne⟩))⟩

/-- What `fmadd`, `fmsub`, `fnmsub` and `fnmadd` do: they round once, with the signs of a factor and of the summand
    changed as the opcode says. -/
def FmaDone (s : RISCVCPUState σ) (insn : UInt32) (neg1 neg3 : Bool) (f : Fmt) (out : Exit × RISCVCPUState σ) : Prop :=
  if s.fs = 0 ∨ (5 ≤ funct3 insn ∧ funct3 insn ≠ 7) then out = (.illegalInsn, s)
  else ∃ mode, getInsnRm s (funct3 insn) = some (RoundingMode.rm mode) ∧
    FpDelivered s f (regAt insn 7) mode
      (f.format.fmaSpec ℝ mode (f.signed neg1 (f.unbox (s.fpReg (regAt insn 15))))
        (f.unbox (s.fpReg (regAt insn 20))) (f.signed neg3 (f.unbox (s.fpReg (regAt insn 27))))) out

/-- The opcode of a fused multiplication. -/
def fmaOpcode (neg1 neg3 : Bool) : UInt32 := 0x43 ||| (if neg1 = true then 8 else 0) ||| (if neg3 = true then 4 else 0)

/-- **Fused multiplications.** -/
theorem exec_fma {s : RISCVCPUState σ} (hfrm : s.frm < 5) {insn : UInt32} {neg1 neg3 : Bool}
    (hinsn : insn &&& 0x7f = fmaOpcode neg1 neg3) {f : Fmt} (hfmt : (bits insn 25 3).toNat = f.code)
    (counter : UInt64) :
    ∃ out, exec (softFpEnv mm host junk) s insn counter = .ok out ∧ FmaDone s insn neg1 neg3 f out := by
  refine ⟨execFma (softFpEnv mm host junk) s insn neg1 neg3, ?_, ?_⟩
  · rw [exec_eq_exec32 hinsn (by cases neg1 <;> cases neg3 <;> decide)]
    unfold exec32
    rw [hinsn]
    cases neg1 <;> cases neg3 <;> rfl
  unfold execFma FmaDone
  by_cases hfs : s.fs = 0
  · rw [if_pos (.inl hfs), if_pos hfs]
  rw [if_neg hfs]
  rcases getInsnRm_cases hfrm (funct3 insn) with ⟨hres, hnone⟩ | ⟨hres, mode, hmode⟩
  · rw [if_pos (.inr hres)]
    simp only [withRm, hnone]
  · rw [if_neg (by tauto)]
    refine ⟨mode, hmode, ?_⟩
    cases f with
    | s =>
      simp only [withRm, hmode, hfmt, Fmt.code]
      exact fmaTemplate_delivers fSize32_template s insn mode neg1 neg3
    | d =>
      simp only [withRm, hmode, hfmt, Fmt.code]
      exact fmaTemplate_delivers fSize64_template s insn mode neg1 neg3

end HadBadge
