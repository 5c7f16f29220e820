import HadBadge.Correctness.RoundPack
import Mathlib.Data.Nat.Bitwise

/-!
# `Correctness.FloatAdd`: sums of floating point numbers

`add_sf` delivers the rounded sum of any two patterns, in every mode and with the exceptions of it. The smaller
summand is shifted to the exponent of the larger one with three bits and a sticky bit below the significand: where
the difference cancels, these are exact; where they are not, it is too large to cancel.

## Contents
- **Operands.** `addMant_eq`: the mantissa with its implicit bit, `shifted_agrees`.
- **Finite summands.** `addOrdered_finite`.
- **Sums.** `addSf_delivers`, `subSf_delivers`.
-/

namespace HadBadge

open Lib Lib.FloatFormat

variable {F : FloatFormat} {a b m : ℕ}
variable {K : Type*} [Field K] [LinearOrder K] [IsStrictOrderedRing K] [FloorRing K]

/-! ## Operands -/

theorem mantOf_lt (F : FloatFormat) (a : ℕ) : F.mantOf a < 2 ^ F.mantSize := Nat.mod_lt a (Nat.two_pow_pos _)

theorem effExp_eq (F : FloatFormat) (a : ℕ) : (if sfExp F a = 0 then 1 else sfExp F a) = F.eexp a := by
  rw [sfExp_eq]
  unfold eexp
  split <;> omega

/-- The mantissa of a summand: the significand, with three bits below it. -/
theorem addMant_eq (F : FloatFormat) (a : ℕ) :
    (if sfExp F a = 0 then fUint F (sfMant F a <<< 3) else fUint F (sfMant F a <<< 3) ||| fUint F (1 <<< (F.mantSize + 3))) =
      8 * F.sig a := by
  have hsize := size_eq F
  have hk := four_le_rndSize F
  have hm := mantOf_lt F a
  have hpow : 2 ^ (F.mantSize + 3) = 8 * 2 ^ F.mantSize := by rw [pow_add, Nat.mul_comm]; rfl
  have hbig : 2 ^ (F.mantSize + 4) ≤ 2 ^ F.size := Nat.pow_le_pow_right (by decide) (by omega)
  have hpow4 : 2 ^ (F.mantSize + 4) = 16 * 2 ^ F.mantSize := by rw [pow_add, Nat.mul_comm]; rfl
  have hmant : fUint F (sfMant F a <<< 3) = 8 * F.mantOf a := by
    rw [sfMant_eq, Nat.shiftLeft_eq, Nat.mul_comm]
    exact fUint_of_lt (by omega)
  have hone : fUint F (1 <<< (F.mantSize + 3)) = 2 ^ (F.mantSize + 3) := by
    rw [Nat.one_shiftLeft]
    exact fUint_of_lt (by omega)
  rw [hmant, hone, sfExp_eq, sig]
  split
  · rfl
  · have := Nat.two_pow_add_eq_or_of_lt (i := F.mantSize + 3) (b := 8 * F.mantOf a) (by omega) 1
    rw [Nat.mul_one] at this
    rw [Nat.or_comm, ← this]
    omega

attribute [local instance] two_atLeastTwo in
/-- The unit of the mantissas of a sum: an eighth of the last place of the larger summand. -/
def addUnit (F : FloatFormat) (K : Type*) [Field K] (a : ℕ) : K := 2 ^ ((F.eexp a : ℤ) - F.bias - F.mantSize - 3)

theorem addUnit_pos (F : FloatFormat) (a : ℕ) : (0 : K) < addUnit F K a := zpow_pos two_pos _

omit [LinearOrder K] [IsStrictOrderedRing K] [FloorRing K] in
theorem absVal_larger [NeZero (2 : K)] (F : FloatFormat) (a : ℕ) : (F.absVal a : K) = (8 * F.sig a : ℕ) * addUnit F K a := by
  have h8 : (8 : K) = 2 ^ (3 : ℤ) := by norm_num
  unfold absVal addUnit
  push_cast
  rw [h8, mul_right_comm, ← zpow_add₀ two_ne_zero, mul_comm]
  congr 2
  ring

theorem absVal_smaller (h : F.eexp b ≤ F.eexp a) :
    (F.absVal b : K) = (8 * F.sig b : ℕ) / 2 ^ (F.eexp a - F.eexp b) * addUnit F K a := by
  have h8 : (8 : K) = 2 ^ (3 : ℤ) := by norm_num
  have hexp : (2 : K) ^ ((F.eexp b : ℤ) - F.bias - F.mantSize) = 8 * addUnit F K a / 2 ^ (F.eexp a - F.eexp b) := by
    rw [eq_div_iff (pow_pos two_pos _).ne', addUnit, h8, ← zpow_natCast, ← zpow_add₀ two_ne_zero, ← zpow_add₀ two_ne_zero]
    congr 1
    push_cast [Nat.cast_sub h]
    ring
  unfold absVal
  rw [hexp]
  push_cast
  ring

/-! ## Finite summands -/

/-- Exact as far as three bits below the significand can hold it; a larger shift leaves no cancellation. -/
theorem shifted_agrees {A B d : ℕ} (hA : A % 8 = 0) (hB : B % 8 = 0) (hBlt : B < 2 ^ (F.mantSize + 4))
    (hnorm : d = 0 ∨ 2 ^ (F.mantSize + 3) ≤ A) (hle : (B : K) / 2 ^ d ≤ A) :
    jam B d ≤ A ∧
      Agrees (((A + jam B d).log2 : ℤ) - F.mantSize - 1) ((A + jam B d : ℕ) : K) (A + B / 2 ^ d) ∧
      Agrees (((A - jam B d).log2 : ℤ) - F.mantSize - 1) ((A - jam B d : ℕ) : K) (A - B / 2 ^ d) := by
  rcases Nat.lt_or_ge 3 d with hd | hd
  · -- no cancellation: the sum and the difference have their highest bits at the place of the larger summand's
    have hAlow := hnorm.resolve_left (by omega)
    have hc : jam B d ≤ 2 ^ F.mantSize :=
      jam_le (hBlt.le.trans (Nat.pow_le_pow_right (by decide) (by omega))) (by have := F.two_le_mant; omega)
    have hpow : 2 ^ (F.mantSize + 3) = 8 * 2 ^ F.mantSize := by rw [pow_add, Nat.mul_comm]; rfl
    have hpow2 : 2 ^ (F.mantSize + 2) = 4 * 2 ^ F.mantSize := by rw [pow_add, Nat.mul_comm]; rfl
    have hpos := Nat.two_pow_pos F.mantSize
    have hag := agrees_jam (K := K) B d
    have hAK : (A : K) = ((A / 2 : ℕ) : ℤ) * 2 ^ (1 : ℤ) := by
      rw [zpow_one, Int.cast_natCast]
      exact_mod_cast (by omega : A = A / 2 * 2)
    have hlog (m : ℕ) (h : 2 ^ (F.mantSize + 2) ≤ m) : (1 : ℤ) ≤ (m.log2 : ℤ) - F.mantSize - 1 := by
      have := (Nat.le_log2 (by omega)).mpr h
      omega
    refine ⟨by omega, ?_, ?_⟩
    · rw [Nat.cast_add]
      have := hag.add_left (A / 2 : ℕ)
      rw [← hAK] at this
      exact this.mono (hlog _ (by omega))
    · rw [Nat.cast_sub (by omega)]
      have := hag.sub_left (A / 2 : ℕ)
      rw [← hAK] at this
      exact this.mono (hlog _ (by omega))
  · -- exact
    have hdvd : 2 ^ d ∣ B := (Nat.pow_dvd_pow 2 hd).trans (Nat.dvd_of_mod_eq_zero hB)
    have hjam : jam B d = B / 2 ^ d := by rw [jam_eq, if_pos (Nat.mod_eq_zero_of_dvd hdvd)]
    have hK : (B : K) / 2 ^ d = (jam B d : ℕ) := by
      rw [hjam, Nat.cast_div hdvd (by positivity)]
      push_cast
      rfl
    have hjle : jam B d ≤ A := by
      rw [hK] at hle
      exact_mod_cast hle
    refine ⟨hjle, ?_, ?_⟩
    · rw [hK, Nat.cast_add]
      exact Agrees.refl _ _
    · rw [hK, Nat.cast_sub hjle]
      exact Agrees.refl _ _

theorem addOrdered_eq (ha : F.IsFinite a) (rm fl : UInt32) :
    addOrdered F a b rm fl =
      let c := rshiftRnd F (8 * F.sig b) (F.eexp a - F.eexp b)
      let rExp : ℤ := F.eexp a + (rndSize F - 3)
      if sfSign F a = sfSign F b then normalizeSf F (sfSign F a) rExp (fUint F (8 * F.sig a + c)) rm fl
      else
        let m := fUint F (2 ^ F.size + 8 * F.sig a - c)
        normalizeSf F (if m = 0 then (if rm = rmRdn then 1 else 0) else sfSign F a) rExp m rm fl := by
  have hfin : ¬ sfExp F a = F.expMask := by
    rw [sfExp_eq]
    exact ha
  unfold addOrdered
  simp only [hfin, if_false, effExp_eq, addMant_eq]

omit [LinearOrder K] [IsStrictOrderedRing K] [FloorRing K] in
/-- The number that a mantissa of a sum stands for. -/
theorem addUnit_packed (F : FloatFormat) (a : ℕ) :
    (2 : K) ^ ((F.eexp a : ℤ) + (rndSize F - 3) - F.bias - (F.size - 2 : ℕ)) = addUnit F K a := by
  have hsize := size_eq F
  unfold addUnit
  congr 1
  omega

/-- **The sum of finite numbers**, of which the first is not the smaller one. -/
theorem addOrdered_finite (mode : RoundingMode) (ha : a < 2 ^ F.size) (hb : b < 2 ^ F.size) (hfin : F.IsFinite a)
    (hle : F.mag b ≤ F.mag a) (fl : UInt32) :
    ∃ r ex, addOrdered F a b (RoundingMode.rm mode) fl = .ok (r, fl ||| exBits ex) ∧
      F.Delivers mode (.exactly (F.value a + F.value b : K) (if F.neg a = F.neg b then F.neg a else decide (mode = .rdn)))
        r ex := by
  have hsize := size_eq F
  have hk := four_le_rndSize F
  have hexp := eexp_le_of_mag_le hle
  have hAlt := F.sig_lt a
  have hBlt := F.sig_lt b
  rw [pow_succ] at hAlt hBlt
  have hpow5 : 2 ^ (F.mantSize + 5) = 32 * 2 ^ F.mantSize := by rw [pow_add, Nat.mul_comm]; rfl
  have hword : 2 ^ (F.mantSize + 5) ≤ 2 ^ (F.size - 1) := Nat.pow_le_pow_right (by decide) (by omega)
  have hword' : 2 ^ F.size = 2 * 2 ^ (F.size - 1) := by rw [size_sub_one, FloatFormat.size, pow_succ, Nat.mul_comm]
  have haK := absVal_larger (K := K) F a
  have hbK := absVal_smaller (K := K) hexp
  have hle' : ((8 * F.sig b : ℕ) : K) / 2 ^ (F.eexp a - F.eexp b) ≤ (8 * F.sig a : ℕ) := by
    have := absVal_le_of_mag_le (K := K) hle
    rw [haK, hbK] at this
    exact le_of_mul_le_mul_right this (addUnit_pos F a)
  obtain ⟨hjle, hsum, hdiff⟩ := shifted_agrees (K := K) (F := F) (A := 8 * F.sig a) (B := 8 * F.sig b)
    (d := F.eexp a - F.eexp b) (by omega) (by omega) (by rw [pow_add]; omega)
    (by
      rcases F.sig_normal a with h | h
      · exact .inr (by rw [pow_add]; omega)
      · have := F.one_le_eexp b
        exact .inl (by omega)) hle'
  have hc : jam (8 * F.sig b) (F.eexp a - F.eexp b) ≤ 8 * F.sig a := hjle
  rw [addOrdered_eq hfin, rshiftRnd_eq (by omega), sfSign_eq ha, sfSign_eq hb]
  unfold FloatFormat.value
  rw [haK, hbK]
  simp only [signNat_inj]
  by_cases hs : F.neg a = F.neg b
  · obtain ⟨r, ex, hr, hd⟩ := normalizeSf_delivers mode (F.neg a) (F.neg a) ((F.eexp a : ℤ) + (rndSize F - 3)) (by omega) hsum fl
    rw [ite_self] at hr
    refine ⟨r, ex, by rw [if_pos hs, fUint_of_lt (by omega), hr], ?_⟩
    rw [if_pos hs, ← hs]
    convert hd using 2
    rw [addUnit_packed]
    cases F.neg a <;> simp only [signed, if_true, Bool.false_eq_true, if_false] <;> ring
  · obtain ⟨r, ex, hr, hd⟩ := normalizeSf_delivers mode (F.neg a) (decide (mode = .rdn))
      ((F.eexp a : ℤ) + (rndSize F - 3)) (by omega) hdiff fl
    have hm : fUint F (2 ^ F.size + 8 * F.sig a - jam (8 * F.sig b) (F.eexp a - F.eexp b)) =
        8 * F.sig a - jam (8 * F.sig b) (F.eexp a - F.eexp b) := by
      rw [Nat.add_sub_assoc hc, fUint, Nat.add_mod_left]
      exact Nat.mod_eq_of_lt (by omega)
    have hsign (m : ℕ) : (if m = 0 then (if RoundingMode.rm mode = rmRdn then 1 else 0) else signNat (F.neg a)) =
        signNat (if m = 0 then decide (mode = .rdn) else F.neg a) := by
      simp only [rm_eq_rdn]
      split
      · simp [signNat]
      · rfl
    refine ⟨r, ex, by rw [if_neg hs, hm, hsign, hr], ?_⟩
    rw [if_neg hs]
    convert hd using 2
    rw [addUnit_packed]
    have hb' : F.neg b = !F.neg a := by
      cases hna : F.neg a <;> cases hnb : F.neg b <;> simp_all
    rw [hb']
    cases F.neg a <;> simp only [signed, if_true, Bool.false_eq_true, if_false, Bool.not_true, Bool.not_false] <;> ring

/-! ## Sums -/

/-- A NaN or an infinity has the highest exponent. -/
theorem expOf_eq_of_mag_le (hle : F.mag b ≤ F.mag a) (hb : F.expOf b = F.expMask) : F.expOf a = F.expMask := by
  have := eexp_le_of_mag_le hle
  have hmask := one_lt_expMask F
  have hlt : F.expOf a < 2 ^ F.expSize := Nat.mod_lt _ (Nat.two_pow_pos _)
  have := F.expMask_succ
  unfold eexp at *
  omega

/-- The test of the quiet bit in the mantissa of a summand. -/
theorem quietBit_iff (F : FloatFormat) (a : ℕ) :
    fUint F (sfMant F a <<< 3) &&& fUint F (qnanMask F <<< 3) = 0 ↔ F.mantOf a < 2 ^ (F.mantSize - 1) := by
  have hmant := F.two_le_mant
  have hsize := size_eq F
  have hk := four_le_rndSize F
  have hm := mantOf_lt F a
  obtain ⟨p, hp⟩ : ∃ p, F.mantSize = p + 1 := ⟨F.mantSize - 1, by omega⟩
  have hword : 2 ^ (F.mantSize + 3) ≤ 2 ^ F.size := Nat.pow_le_pow_right (by decide) (by omega)
  have hpow : 2 ^ (F.mantSize + 3) = 8 * 2 ^ F.mantSize := by rw [pow_add, Nat.mul_comm]; rfl
  have hshl : fUint F (sfMant F a <<< 3) = F.mantOf a <<< 3 := by
    rw [sfMant_eq]
    refine fUint_of_lt ?_
    rw [Nat.shiftLeft_eq, Nat.mul_comm]
    omega
  have hquiet : fUint F (qnanMask F <<< 3) = 2 ^ (p + 3) := by
    rw [qnanMask, hp, Nat.add_sub_cancel, Nat.one_shiftLeft, Nat.shiftLeft_eq, ← pow_add]
    exact fUint_of_lt ((Nat.pow_lt_pow_right (by decide) (by omega)).trans_le hword)
  rw [hp, pow_succ] at hm
  rw [hshl, hquiet, Nat.and_two_pow, hp, Nat.add_sub_cancel, Nat.testBit_shiftLeft, Nat.testBit_eq_decide_div_mod_eq,
    Nat.add_sub_cancel]
  have hle : 3 ≤ p + 3 := by omega
  have hpos := Nat.two_pow_pos (p + 3)
  have hdiv : F.mantOf a / 2 ^ p < 2 := Nat.div_lt_of_lt_mul hm
  rw [Nat.mul_eq_zero, or_iff_left (by omega)]
  constructor
  · intro h
    by_contra hc
    have := (Nat.one_le_div_iff (Nat.two_pow_pos p)).mpr (not_lt.mp hc)
    simp [hle, show F.mantOf a / 2 ^ p % 2 = 1 by omega] at h
  · intro h
    simp [Nat.div_eq_of_lt h]

/-- Nothing is larger than infinity but NaNs. -/
theorem not_nan_of_mag_le (ha : F.IsInf a) (hle : F.mag b ≤ F.mag a) : ¬ F.IsNan b := by
  rintro ⟨hexp, hmant⟩
  rw [mag_of_inf ha, mag_eq, eexp, sig, hexp, infMag] at hle
  have := one_lt_expMask F
  rw [if_neg (by omega), Nat.max_eq_left (by omega), ← Nat.add_assoc, ← Nat.succ_mul, Nat.succ_eq_add_one,
    Nat.sub_add_cancel (by omega)] at hle
  omega

/-- An infinite operand as it is returned. -/
theorem sign_add_inf (h : a < 2 ^ F.size) (ha : F.IsInf a) : F.signBit (F.neg a) + F.infMag = a := by
  rw [← mag_of_inf ha, sign_add_mag h]

omit [IsStrictOrderedRing K] in
theorem addOrdered_special (mode : RoundingMode) (ha : a < 2 ^ F.size) (hb : b < 2 ^ F.size) (hle : F.mag b ≤ F.mag a)
    (hexp : F.expOf a = F.expMask) (fl : UInt32) :
    ∃ r ex, addOrdered F a b (RoundingMode.rm mode) fl = .ok (r, fl ||| exBits ex) ∧
      F.Delivers mode (F.addSpec K mode a b) r ex := by
  have hsize := size_eq F
  have hmant : fUint F (sfMant F a <<< 3) = 0 ↔ F.mantOf a = 0 := by
    have hm := mantOf_lt F a
    have hk := four_le_rndSize F
    have hword : 2 ^ (F.mantSize + 3) ≤ 2 ^ F.size := Nat.pow_le_pow_right (by decide) (by omega)
    rw [pow_add] at hword
    rw [sfMant_eq, Nat.shiftLeft_eq, fUint_of_lt (by omega)]
    omega
  unfold addOrdered addSpec
  simp only [sfExp_eq, hexp, if_true, ne_eq, hmant, quietBit_iff, issignanSf_eq, sfSign_eq ha, sfSign_eq hb, signNat_inj, fQnan_eq]
  by_cases hm : F.mantOf a = 0
  · have hia : F.IsInf a := ⟨hexp, hm⟩
    have hna : ¬ F.IsNan a := fun h => h.2 hm
    have hnb := not_nan_of_mag_le hia hle
    have hib : F.expOf b = F.expMask ↔ F.IsInf b :=
      ⟨fun h => by_contra fun hc => hnb ⟨h, fun h0 => hc ⟨h, h0⟩⟩, fun h => h.1⟩
    simp only [hm, not_true_eq_false, if_false, hna, hnb, or_self, hia, if_true, hib]
    split
    · exact ⟨_, { invalid := true }, by simp [exBits], rfl, rfl⟩
    · exact ⟨_, {}, by simp [exBits], (sign_add_inf ha hia).symm, rfl⟩
  · have hna : F.IsNan a := ⟨hexp, hm⟩
    simp only [hm, not_false_eq_true, if_true, hna, true_or]
    refine ⟨_, { invalid := decide (F.IsSignaling a ∨ F.IsSignaling b) }, ?_, rfl, rfl⟩
    have hsig : F.IsSignaling a ↔ F.mantOf a < 2 ^ (F.mantSize - 1) := and_iff_right hna
    simp only [invalidIf_eq, decide_eq_true_eq, hsig]

theorem addOrdered_delivers (mode : RoundingMode) (ha : a < 2 ^ F.size) (hb : b < 2 ^ F.size) (hle : F.mag b ≤ F.mag a)
    (fl : UInt32) :
    ∃ r ex, addOrdered F a b (RoundingMode.rm mode) fl = .ok (r, fl ||| exBits ex) ∧
      F.Delivers mode (F.addSpec K mode a b) r ex := by
  by_cases hexp : F.expOf a = F.expMask
  · exact addOrdered_special mode ha hb hle hexp fl
  · have hna : ¬ F.IsNan a := fun h => hexp h.1
    have hia : ¬ F.IsInf a := fun h => hexp h.1
    have hnb : ¬ F.IsNan b := fun h => hexp (expOf_eq_of_mag_le hle h.1)
    have hib : ¬ F.IsInf b := fun h => hexp (expOf_eq_of_mag_le hle h.1)
    unfold addSpec
    rw [if_neg (by tauto), if_neg hia, if_neg hib]
    exact addOrdered_finite mode ha hb hexp hle fl

theorem abs_eq_mag (ha : a < 2 ^ F.size) : a &&& (2 ^ F.size - 1 - signMask F) = F.mag a := by
  have hsize : 2 ^ F.size = 2 ^ (F.mantSize + F.expSize) * 2 := by rw [FloatFormat.size, pow_succ]
  rw [signMask, size_sub_one, Nat.one_shiftLeft,
    show 2 ^ F.size - 1 - 2 ^ (F.mantSize + F.expSize) = 2 ^ (F.mantSize + F.expSize) - 1 by omega,
    Nat.and_two_pow_sub_one_eq_mod]
  rfl

/-- **`add_sf` delivers the sum.** -/
theorem addSf_delivers (mode : RoundingMode) (ha : a < 2 ^ F.size) (hb : b < 2 ^ F.size) (fl : UInt32) :
    ∃ r ex, addSf F a b (RoundingMode.rm mode) fl = .ok (r, fl ||| exBits ex) ∧
      F.Delivers mode (F.addSpec K mode a b) r ex := by
  unfold addSf
  simp only [abs_eq_mag ha, abs_eq_mag hb]
  split
  · next h =>
    rw [addSpec_comm]
    exact addOrdered_delivers mode hb ha h.le fl
  · next h => exact addOrdered_delivers mode ha hb (not_lt.mp h) fl

/-- The other operand of a difference, with its sign changed. -/
theorem xor_signMask (hb : b < 2 ^ F.size) : b ^^^ signMask F = F.flip b := by
  unfold FloatFormat.flip
  have hlt := F.mag_lt b
  have hsign (s : Bool) : F.signBit s + F.mag b = 2 ^ (F.mantSize + F.expSize) * (signNat s) ||| F.mag b := by
    rw [← Nat.two_pow_add_eq_or_of_lt hlt]
    cases s <;> simp [signBit, signNat]
  have hb' := sign_add_mag hb
  rw [hsign] at hb' ⊢
  apply Nat.eq_of_testBit_eq
  intro i
  have hi : (F.mag b).testBit i = true → i < F.mantSize + F.expSize := by
    intro h
    by_contra hc
    rw [Nat.testBit_lt_two_pow (hlt.trans_le (Nat.pow_le_pow_right (by decide) (not_lt.mp hc)))] at h
    exact absurd h (by decide)
  conv_lhs => rw [← hb']
  rw [signMask, size_sub_one, Nat.one_shiftLeft]
  rcases eq_or_ne i (F.mantSize + F.expSize) with rfl | hne
  · have : (F.mag b).testBit (F.mantSize + F.expSize) = false := Nat.testBit_lt_two_pow hlt
    cases F.neg b <;> simp [signNat, Nat.testBit_xor, Nat.testBit_or, this]
  · cases F.neg b <;> simp [signNat, Nat.testBit_xor, Nat.testBit_or, Nat.testBit_two_pow_of_ne hne.symm]

/-- **`sub_sf` delivers the difference**: the sum with the second operand's sign changed. -/
theorem subSf_delivers (mode : RoundingMode) (ha : a < 2 ^ F.size) (hb : b < 2 ^ F.size) (fl : UInt32) :
    ∃ r ex, subSf F a b (RoundingMode.rm mode) fl = .ok (r, fl ||| exBits ex) ∧
      F.Delivers mode (F.subSpec K mode a b) r ex := by
  unfold subSf subSpec
  rw [xor_signMask hb]
  exact addSf_delivers mode ha (flip_lt b) fl

end HadBadge
