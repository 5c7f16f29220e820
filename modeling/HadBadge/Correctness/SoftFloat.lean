import HadBadge.Correctness.FloatCompare
import HadBadge.Correctness.FloatConvert
import HadBadge.Correctness.FloatWords
import HadBadge.Correctness.FpInsn
import HadBadge.Correctness.Privilege
import Mathlib.Analysis.Real.Sqrt

/-!
# `Correctness.SoftFloat`: `softfp.c` is IEEE arithmetic

What the functions of `softfp.c` come to for every pattern, in every rounding mode and with any flags set before: no
assertion fails, the result is the real number that the operation comes to, rounded, and what is raised is added to
the flags.

## Contents
- **Arithmetic.** `addSf_subSf_ieee`, `mulSf_ieee`, `divSf_ieee`, `sqrtSf_ieee`, `fmaSf_ieee`.
- **Comparisons.** `compare_ieee`, `min_max_ieee`.
- **Conversions.** `cvtSf_int_ieee`, `cvtInt_sf_ieee`, `cvtSf_sf_ieee`, and the round trip `cvtSf64Sf32_cvtSf32Sf64`.
- **Portability.** `words_agree`.
- **Instructions**, in every state that the CPU reaches. `fp_arith_ieee`, `fp_fma_ieee`.
-/

namespace HadBadge

open Lib Lib.FloatFormat

variable (F : FloatFormat) (mode : RoundingMode)

/-- A function that comes to `res`: it returns what `res` is delivered as, with the exceptions added to `fl`. -/
def Computes (fl : UInt32) (res : FloatResult ℝ) (x : Except Fault FpResult) : Prop :=
  ∃ r ex, x = .ok (r, fl ||| exBits ex) ∧ F.Delivers mode res r ex

variable {F}

/-! ## Arithmetic -/

/-- **Addition and subtraction.** -/
theorem addSf_subSf_ieee (a b : Fin (2 ^ F.size)) (fl : UInt32) :
    Computes F mode fl (F.addSpec ℝ mode a b) (addSf F a b (RoundingMode.rm mode) fl) ∧
      Computes F mode fl (F.subSpec ℝ mode a b) (subSf F a b (RoundingMode.rm mode) fl) :=
  ⟨addSf_delivers mode a.isLt b.isLt fl, subSf_delivers mode a.isLt b.isLt fl⟩

/-- **Multiplication.** -/
theorem mulSf_ieee (a b : Fin (2 ^ F.size)) (fl : UInt32) :
    Computes F mode fl (F.mulSpec ℝ a b) (mulSf F a b (RoundingMode.rm mode) fl) :=
  mulSf_delivers mode a.isLt b.isLt fl

/-- **Division.** -/
theorem divSf_ieee (a b : Fin (2 ^ F.size)) (fl : UInt32) :
    Computes F mode fl (F.divSpec ℝ a b) (divSf F a b (RoundingMode.rm mode) fl) :=
  divSf_delivers mode a.isLt b.isLt fl

/-- **The square root.** -/
theorem sqrtSf_ieee (a : Fin (2 ^ F.size)) (fl : UInt32) :
    Computes F mode fl (F.sqrtSpec a (Real.sqrt (F.value a))) (sqrtSf F a (RoundingMode.rm mode) fl) :=
  sqrtSf_delivers mode a.isLt (Real.sqrt_nonneg _) (fun h => Real.mul_self_sqrt h) fl

/-- **The fused multiplication and addition** rounds once. -/
theorem fmaSf_ieee (a b c : Fin (2 ^ F.size)) (fl : UInt32) :
    Computes F mode fl (F.fmaSpec ℝ mode a b c) (fmaSf F a b c (RoundingMode.rm mode) fl) :=
  fmaSf_delivers mode a.isLt b.isLt c.isLt fl

/-! ## Comparisons -/

/-- **Comparisons** are those of the numbers and the infinities, and false for a NaN, which `le_sf` and `lt_sf` raise
    an exception for, and `eq_quiet_sf` for a signaling one only. -/
theorem compare_ieee (a b : Fin (2 ^ F.size)) (fl : UInt32) :
    (leSf F a b fl = if F.IsNan a ∨ F.IsNan b then (false, fl ||| fflagInvalidOp)
      else (decide (extended ℚ F a ≤ extended ℚ F b), fl)) ∧
    (ltSf F a b fl = if F.IsNan a ∨ F.IsNan b then (false, fl ||| fflagInvalidOp)
      else (decide (extended ℚ F a < extended ℚ F b), fl)) ∧
    (eqQuietSf F a b fl = if F.IsNan a ∨ F.IsNan b
      then (false, fl ||| exBits { invalid := decide (F.IsSignaling a ∨ F.IsSignaling b) })
      else (decide (extended ℚ F a = extended ℚ F b), fl)) :=
  ⟨leSf_eq ℚ a.isLt b.isLt fl, ltSf_eq ℚ a.isLt b.isLt fl, eqQuietSf_eq ℚ a.isLt b.isLt fl⟩

/-- **Minimum and maximum** are those of the numbers, with -0 below +0. A number is picked rather than a quiet NaN; a
    signaling NaN gives the default NaN and is invalid. -/
theorem min_max_ieee (a b : Fin (2 ^ F.size)) (fl : UInt32) :
    (∃ r ex, minSf F a b fl = (r, fl ||| exBits ex) ∧ PickDelivers F (Picks F ℚ min or a b) a b r ex) ∧
      ∃ r ex, maxSf F a b fl = (r, fl ||| exBits ex) ∧ PickDelivers F (Picks F ℚ max and a b) a b r ex :=
  ⟨minSf_spec ℚ a.isLt b.isLt fl, maxSf_spec ℚ a.isLt b.isLt fl⟩

/-! ## Conversions -/

/-- **To integers** of up to as many bits as the format has exponents for: the number is rounded to an integer, and a
    NaN or what is beyond a bound gives a bound and is invalid. -/
theorem cvtSf_int_ieee (hF : F.mantSize ≤ F.bias + 1) {n : ℕ} (hn : 1 ≤ n) (hnF : n ≤ F.bias + 1) (a : Fin (2 ^ F.size))
    (fl : UInt32) :
    let toInt (isUnsigned : Bool) := F.toIntSpec ℚ (icvtMin n isUnsigned) (icvtMax n isUnsigned) mode a
    cvtSfI F n a (RoundingMode.rm mode) fl = (((toInt false).1 % 2 ^ n).toNat, fl ||| exBits (toInt false).2) ∧
      cvtSfU F n a (RoundingMode.rm mode) fl = (((toInt true).1 % 2 ^ n).toNat, fl ||| exBits (toInt true).2) :=
  ⟨internalCvtSfI_spec ℚ mode hF hn hnF a.isLt false fl, internalCvtSfI_spec ℚ mode hF hn hnF a.isLt true fl⟩

/-- 2.5 to 64 bits, rounded up. -/
theorem cvtSf_int_ieee_half : sf32.mantSize ≤ sf32.bias + 1 ∧ 64 ≤ sf32.bias + 1 ∧
    cvtSfI sf32 64 0x40200000 (RoundingMode.rm .rup) 0 =
      (((sf32.toIntSpec ℚ (icvtMin 64 false) (icvtMax 64 false) .rup 0x40200000).1 % 2 ^ 64).toNat,
        0 ||| exBits (sf32.toIntSpec ℚ (icvtMin 64 false) (icvtMax 64 false) .rup 0x40200000).2) :=
  ⟨by decide, by decide, (cvtSf_int_ieee (F := sf32) .rup (by decide) (by decide) (by decide) ⟨0x40200000, by decide⟩ 0).1⟩

/-- **From integers** of any size. -/
theorem cvtInt_sf_ieee {n : ℕ} (hn : 1 ≤ n) (a : Fin (2 ^ n)) (fl : UInt32) :
    Computes F mode fl (.exactly (icvtInt n false a : ℤ) false) (cvtISf F n a (RoundingMode.rm mode) fl) ∧
      Computes F mode fl (.exactly (icvtInt n true a : ℤ) false) (cvtUSf F n a (RoundingMode.rm mode) fl) :=
  ⟨internalCvtISf_delivers mode hn a.isLt false fl, internalCvtISf_delivers mode hn a.isLt true fl⟩

/-- -1, or 2^32 - 1, rounded to the nearest number. -/
theorem cvtInt_sf_ieee_minus_one : 1 ≤ 32 ∧
    Computes sf32 .rne 0 (.exactly (icvtInt 32 false 0xffffffff : ℤ) false)
      (cvtISf sf32 32 0xffffffff (RoundingMode.rm .rne) 0) ∧
    Computes sf32 .rne 0 (.exactly (icvtInt 32 true 0xffffffff : ℤ) false)
      (cvtUSf sf32 32 0xffffffff (RoundingMode.rm .rne) 0) :=
  ⟨by decide, cvtInt_sf_ieee .rne (by decide) (0xffffffff : Fin (2 ^ 32)) 0⟩

/-- **Between the formats**: widening is exact, narrowing rounds. -/
theorem cvtSf_sf_ieee (a : Fin (2 ^ sf32.size)) (b : Fin (2 ^ sf64.size)) (fl : UInt32) :
    (∃ r ex, cvtSf32Sf64 a fl = (r, fl ||| exBits ex) ∧ sf64.Delivers mode (sf32.convertSpec ℝ a) r ex ∧
      (sf32.IsFinite a → ex = {} ∧ (sf64.value r : ℝ) = sf32.value a)) ∧
    Computes sf32 mode fl (sf64.convertSpec ℝ b) (cvtSf64Sf32 b (RoundingMode.rm mode) fl) := by
  constructor
  · obtain ⟨r, ex, heq, -, hdel, hexact⟩ :=
      cvtWiden_delivers (K := ℝ) (G := sf32) (F := sf64) (by decide) (by decide) a.isLt fl
    exact ⟨r, ex, heq, hdel mode, fun hfin => ⟨(hexact hfin).1, (hexact hfin).2.2⟩⟩
  · exact cvtNarrow_delivers mode (by decide) (by decide) b.isLt fl

/-- **Widening and narrowing give a number back**, in every rounding mode, and raise nothing. -/
theorem cvtSf64Sf32_cvtSf32Sf64 (a : Fin (2 ^ sf32.size)) (hnan : ¬ sf32.IsNan a) (fl : UInt32) :
    cvtSf64Sf32 (cvtSf32Sf64 a fl).1 (RoundingMode.rm mode) (cvtSf32Sf64 a fl).2 = .ok (a.val, fl) := by
  obtain ⟨r, ex, heq, hr, hdel, hexact⟩ :=
    cvtWiden_delivers (K := ℚ) (G := sf32) (F := sf64) (by decide) (by decide) a.isLt fl
  obtain ⟨r', ex', heq', hdel'⟩ :=
    cvtNarrow_delivers (K := ℚ) (F := sf64) (G := sf32) mode (by decide) (by decide) hr (fl ||| exBits ex)
  have hwide : cvtSf32Sf64 a fl = (r, fl ||| exBits ex) := heq
  have hnarrow : cvtSf64Sf32 r (RoundingMode.rm mode) (fl ||| exBits ex) = .ok (r', fl ||| exBits ex ||| exBits ex') := heq'
  rw [hwide, hnarrow]
  suffices hback : r' = a.val ∧ ex = {} ∧ ex' = {} by
    rw [hback.1, hback.2.1, hback.2.2, ← exBits_none, ← exBits_none]
  -- both formats have the same number, and in its own the number is delivered as itself
  have hsame : sf64.convertSpec ℚ r = sf32.convertSpec ℚ a :=
    convertSpec_delivered hnan (hdel mode) (fun hfin => (hexact hfin).2)
  rw [hsame] at hdel'
  obtain ⟨hr', hex'⟩ := Delivers.unique hdel' (delivers_self a.isLt hnan)
  refine ⟨hr', ?_, hex'⟩
  by_cases hinf : sf32.IsInf a
  · have hspec : sf32.convertSpec ℚ a = .inf (sf32.neg a) false := by rw [convertSpec, if_neg hnan, if_pos hinf]
    have hdelInf := hdel mode
    rw [hspec] at hdelInf
    exact hdelInf.2
  · exact (hexact (finite_of_not hnan hinf)).1

/-- The smallest subnormal number. -/
theorem cvtSf64Sf32_cvtSf32Sf64_tiny : ¬ sf32.IsNan 1 ∧
    cvtSf64Sf32 (cvtSf32Sf64 1 0).1 (RoundingMode.rm .rdn) (cvtSf32Sf64 1 0).2 = .ok (1, 0) :=
  ⟨by decide, cvtSf64Sf32_cvtSf32Sf64 .rdn (1 : Fin (2 ^ 32)) (by decide) 0⟩

/-! ## Portability -/

/-- **Arithmetic of words does not depend on the compiler**: what `mul_u`, `divrem_u` and `sqrtrem_u` do without
    integers of twice the size is what they do with them, and the assertion of `divrem_u` holds. -/
theorem words_agree (hS : 2 ∣ F.size) (a b : Fin (2 ^ F.size)) {a1 m : ℕ} (h1 : a1 < b) (h0 : 2 ≤ m) (hm : m < 2 ^ (F.size - 2)) :
    mulUHalves F a b = mulU F a b ∧ divremUBits F a1 a b = .ok (divremU F a1 a b) ∧
      sqrtremUWords F m 0 = .ok (sqrtremU F m 0) := by
  refine ⟨mulUHalves_eq hS a.isLt b.isLt, ?_, sqrtremUWords_eq hS h0 hm⟩
  rw [divremUBits_eq b.isLt h1 a.isLt, divremU, Nat.shiftLeft_eq, ← Nat.mul_comm (2 ^ F.size),
    ← Nat.two_pow_add_eq_or_of_lt a.isLt]
  rw [fUint_of_lt, fUint_of_lt ((Nat.mod_lt _ (by omega)).trans b.isLt)]
  refine Nat.div_lt_of_lt_mul ?_
  have ha := a.isLt
  have hmul : (a1 + 1) * 2 ^ F.size ≤ b * 2 ^ F.size := Nat.mul_le_mul_right _ h1
  rw [Nat.succ_mul] at hmul
  rw [Nat.mul_comm (2 ^ F.size)]
  omega

/-- Words of 64 bits. -/
theorem words_agree_sf64 : 2 ∣ sf64.size ∧ 0xb00000000000000f < 0xc0ffee0123456789 ∧
    2 ≤ 0x3fedcba987654321 ∧ 0x3fedcba987654321 < 2 ^ (sf64.size - 2) ∧
    mulUHalves sf64 0xfedcba9876543210 0xc0ffee0123456789 = mulU sf64 0xfedcba9876543210 0xc0ffee0123456789 ∧
    divremUBits sf64 0xb00000000000000f 0xfedcba9876543210 0xc0ffee0123456789
      = .ok (divremU sf64 0xb00000000000000f 0xfedcba9876543210 0xc0ffee0123456789) ∧
    sqrtremUWords sf64 0x3fedcba987654321 0 = .ok (sqrtremU sf64 0x3fedcba987654321 0) :=
  ⟨by decide, by decide, by decide, by decide,
    words_agree (F := sf64) (by decide) ⟨0xfedcba9876543210, by decide⟩ ⟨0xc0ffee0123456789, by decide⟩
      (by decide) (by decide) (by decide)⟩

/-! ## Instructions -/

section

variable {σ : Type} {mm : MainMem} {host : MachHost σ} {junk : RISCVCPUState σ → UInt32 → Nat} {s : RISCVCPUState σ}

/-- **The arithmetic of registers**, in every state that the CPU reaches. -/
theorem fp_arith_ieee (hs : CpuReachable (softFpEnv mm host junk) s) {insn : UInt32} (hinsn : insn &&& 0x7f = 0x53)
    {op : FpOp} (hop : (insn >>> 27).toNat = op.code) {f : Fmt} (hfmt : (bits insn 25 3).toNat = f.code)
    (counter : UInt64) : ∃ out, exec (softFpEnv mm host junk) s insn counter = .ok out ∧ ArithDone s insn op f out := by
  obtain ⟨ram, host', hrun⟩ := hs.run
  exact exec_fp_arith (hrun.cpuSteps.legal (legal_init ram host')).control.frm hinsn hop hfmt counter

/-- A program that turns on the floating point unit (`lui x1, 6`, `csrrw x0, mstatus, x1`) and loads registers:
    1 and 3 into `f1` and `f2` as singles and into `f3` and `f4` as doubles, and `fdiv.d f5, f3, f4`. -/
def fpOnRam : Ram :=
  (Ram.fill 0).setWords 0x1000 [0x60b7, 0x30009073, 0x100113, 0x300193, 0xd00170d3, 0xd001f153, 0xd20171d3, 0xd201f253,
    0x1a41f2d3]

/-- The machine with that program. -/
def fpEnv : InterpEnv Unit := softFpEnv someMainMem quietHost (fun _ _ => 0)

/-- The state after the program. -/
theorem fpOn_reachable {β : Type} {f : RISCVCPUState Unit → β} {b : β}
    (h : (interpX fpEnv 20 9 (riscvStateInit fpOnRam ())).map (fun r => r.toOption.map f) = some (some b)) :
    ∃ s', CpuReachable fpEnv s' ∧ f s' = b := by
  obtain ⟨s', hx, hf⟩ := returns_of_map h
  exact ⟨s', .call 20 9 (.init fpOnRam ()) (by decide) (by decide) hx, hf⟩

/-- The result of an instruction in `f0`, and the flags. -/
def fpResult (s : RISCVCPUState Unit) (insn : UInt32) : Option (UInt64 × UInt32) :=
  (exec fpEnv s insn 0).toOption.map fun out => (out.2.fpReg 0, out.2.fflags)

theorem fpResult_ok {s : RISCVCPUState Unit} {insn : UInt32} {out : Exit × RISCVCPUState Unit}
    (h : exec fpEnv s insn 0 = .ok out) : fpResult s insn = some (out.2.fpReg 0, out.2.fflags) := by
  unfold fpResult
  rw [h]
  rfl

/-- `fdiv.s f0, f1, f2` on 1 and 3: a third is rounded up, and inexact. -/
theorem fp_arith_ieee_div : ∃ s', CpuReachable fpEnv s' ∧
    (s'.fs, s'.fpReg 1, s'.fpReg 2) = (3, 0xffffffff3f800000, 0xffffffff40400000) ∧ ∃ out,
    exec fpEnv s' 0x1820f053 0 = .ok out ∧ ArithDone s' 0x1820f053 .div .s out ∧
    (out.2.fpReg 0, out.2.fflags) = (0xffffffff3eaaaaab, 1) := by
  obtain ⟨s', hs, hf⟩ := fpOn_reachable (f := fun s => ((s.fs, s.fpReg 1, s.fpReg 2), fpResult s 0x1820f053))
    (b := ((3, 0xffffffff3f800000, 0xffffffff40400000), some (0xffffffff3eaaaaab, 1))) (by decide +kernel)
  obtain ⟨hregs, hres⟩ := Prod.mk.inj hf
  have hinsn : (0x1820f053 : UInt32) &&& 0x7f = 0x53 := by decide
  have hop : ((0x1820f053 : UInt32) >>> 27).toNat = FpOp.div.code := by decide
  have hs32 : (bits 0x1820f053 25 3).toNat = Fmt.s.code := by decide
  obtain ⟨out, hout, hdone⟩ := fp_arith_ieee hs hinsn hop hs32 0
  exact ⟨s', hs, hregs, out, hout, hdone, Option.some.inj ((fpResult_ok hout).symm.trans hres)⟩

/-- **Fused multiplications of registers**, in every state that the CPU reaches. -/
theorem fp_fma_ieee (hs : CpuReachable (softFpEnv mm host junk) s) {insn : UInt32} {neg1 neg3 : Bool}
    (hinsn : insn &&& 0x7f = fmaOpcode neg1 neg3) {f : Fmt} (hfmt : (bits insn 25 3).toNat = f.code)
    (counter : UInt64) :
    ∃ out, exec (softFpEnv mm host junk) s insn counter = .ok out ∧ FmaDone s insn neg1 neg3 f out := by
  obtain ⟨ram, host', hrun⟩ := hs.run
  exact exec_fma (hrun.cpuSteps.legal (legal_init ram host')).control.frm hinsn hfmt counter

/-- `fnmadd.d f0, f5, f5, f3`, with the double next to a third in `f5` and 1 in `f3`: rounded once, and inexact. -/
theorem fp_fma_ieee_fnmadd : ∃ s', CpuReachable fpEnv s' ∧
    (s'.fs, s'.fpReg 3, s'.fpReg 5) = (3, 0x3ff0000000000000, 0x3fd5555555555555) ∧ ∃ out,
    exec fpEnv s' 0x1a52f04f 0 = .ok out ∧ FmaDone s' 0x1a52f04f true true .d out ∧
    (out.2.fpReg 0, out.2.fflags) = (0xbff1c71c71c71c72, 1) := by
  obtain ⟨s', hs, hf⟩ := fpOn_reachable (f := fun s => ((s.fs, s.fpReg 3, s.fpReg 5), fpResult s 0x1a52f04f))
    (b := ((3, 0x3ff0000000000000, 0x3fd5555555555555), some (0xbff1c71c71c71c72, 1))) (by decide +kernel)
  obtain ⟨hregs, hres⟩ := Prod.mk.inj hf
  have hd : (bits 0x1a52f04f 25 3).toNat = Fmt.d.code := by decide
  obtain ⟨out, hout, hdone⟩ := @fp_fma_ieee _ _ _ _ _ hs 0x1a52f04f true true (by decide) .d hd 0
  exact ⟨s', hs, hregs, out, hout, hdone, Option.some.inj ((fpResult_ok hout).symm.trans hres)⟩

end

end HadBadge
