import HadBadge.Lib.Rounding
import Mathlib.Data.Nat.Cast.Field
import Mathlib.Order.WithBot

/-!
# `Lib.FloatFormat`: binary interchange formats and what their operations deliver

A format has `mantSize` bits of fraction and `expSize` bits of exponent below the sign. Bit patterns are natural
numbers, values are in any ordered field with a floor function.

## Contents
- **Patterns.** `FloatFormat`, the fields of a pattern, `IsNan` … `IsZero`, `value`.
- **Rounding.** `bounded` and `unbounded`: to the format, and to its precision alone. `Rounds`: the pattern and the
  exceptions of a number that is rounded.
- **Magnitudes.** `RoundsMag`, with `rounds_of_mag`, and `RoundsMag.congr`: it sees the magnitude only up to
  agreement on half a unit in the last place.
- **Numbers of the format.** They are rounded to themselves: `rounds_self`.
- **Operations.** `FloatResult` and `Delivers`; `addSpec`, `mulSpec`, `fmaSpec`, `divSpec`, `sqrtSpec`.
-/

namespace Lib

/-! ## Patterns -/

/-- A binary format. -/
structure FloatFormat where
  mantSize : ℕ
  expSize : ℕ
  two_le_mant : 2 ≤ mantSize
  five_le_exp : 5 ≤ expSize

namespace FloatFormat

variable (F : FloatFormat)

def size : ℕ := F.mantSize + F.expSize + 1

/-- The exponent of infinities and NaNs. -/
def expMask : ℕ := 2 ^ F.expSize - 1

def bias : ℕ := 2 ^ (F.expSize - 1) - 1

/-- The exponents of the smallest and the largest normal numbers. -/
def emin : ℤ := 1 - F.bias

def emax : ℤ := F.expMask - 1 - F.bias

/-- The fields of a pattern. -/
def neg (a : ℕ) : Bool := decide (2 ^ (F.mantSize + F.expSize) ≤ a)

def expOf (a : ℕ) : ℕ := a / 2 ^ F.mantSize % 2 ^ F.expSize

def mantOf (a : ℕ) : ℕ := a % 2 ^ F.mantSize

/-- A pattern with its sign cleared. -/
def mag (a : ℕ) : ℕ := a % 2 ^ (F.mantSize + F.expSize)

def IsFinite (a : ℕ) : Prop := F.expOf a ≠ F.expMask

def IsInf (a : ℕ) : Prop := F.expOf a = F.expMask ∧ F.mantOf a = 0

def IsNan (a : ℕ) : Prop := F.expOf a = F.expMask ∧ F.mantOf a ≠ 0

/-- A NaN whose highest fraction bit is clear. -/
def IsSignaling (a : ℕ) : Prop := F.IsNan a ∧ F.mantOf a < 2 ^ (F.mantSize - 1)

def IsZero (a : ℕ) : Prop := F.expOf a = 0 ∧ F.mantOf a = 0

instance (a : ℕ) : Decidable (F.IsFinite a) := inferInstanceAs (Decidable (_ ≠ _))
instance (a : ℕ) : Decidable (F.IsInf a) := inferInstanceAs (Decidable (_ ∧ _))
instance (a : ℕ) : Decidable (F.IsNan a) := inferInstanceAs (Decidable (_ ∧ _))
instance (a : ℕ) : Decidable (F.IsSignaling a) := inferInstanceAs (Decidable (_ ∧ _))
instance (a : ℕ) : Decidable (F.IsZero a) := inferInstanceAs (Decidable (_ ∧ _))

/-- The sign bit. -/
def signBit (neg : Bool) : ℕ := if neg = true then 2 ^ (F.mantSize + F.expSize) else 0

/-- Infinity and the largest finite number, without their signs. -/
def infMag : ℕ := F.expMask * 2 ^ F.mantSize

def maxMag : ℕ := F.expMask * 2 ^ F.mantSize - 1

/-- The quiet NaN that operations return. -/
def qnan : ℕ := F.expMask * 2 ^ F.mantSize + 2 ^ (F.mantSize - 1)

/-- The significand, with the implicit bit of a normal number. -/
def sig (a : ℕ) : ℕ := if F.expOf a = 0 then F.mantOf a else 2 ^ F.mantSize + F.mantOf a

/-- The exponent that goes with it: subnormal numbers have the one of the smallest normal number. -/
def eexp (a : ℕ) : ℕ := max (F.expOf a) 1

variable {F}

/-! ### Sign and magnitude of a pattern -/

theorem neg_sign_add {m : ℕ} (n : Bool) (hm : m < 2 ^ (F.mantSize + F.expSize)) : F.neg (F.signBit n + m) = n := by
  cases n with
  | false => simpa [neg, signBit] using hm
  | true => simp [neg, signBit]

theorem expOf_sign_add (n : Bool) (m : ℕ) : F.expOf (F.signBit n + m) = F.expOf m := by
  cases n with
  | false => simp [signBit]
  | true =>
      simp only [expOf, signBit, if_true]
      rw [pow_add, Nat.mul_add_div (Nat.two_pow_pos _), Nat.add_mod_left]

theorem mantOf_sign_add (n : Bool) (m : ℕ) : F.mantOf (F.signBit n + m) = F.mantOf m := by
  cases n with
  | false => simp [signBit]
  | true =>
      simp only [mantOf, signBit, if_true]
      rw [pow_add, Nat.mul_add_mod]

/-- A pattern with the other sign. -/
def flip (F : FloatFormat) (a : ℕ) : ℕ := F.signBit (!F.neg a) + F.mag a

theorem mag_lt (a : ℕ) : F.mag a < 2 ^ (F.mantSize + F.expSize) := Nat.mod_lt a (Nat.two_pow_pos _)

theorem sign_add_lt {m : ℕ} (s : Bool) (hm : m < 2 ^ (F.mantSize + F.expSize)) : F.signBit s + m < 2 ^ F.size := by
  rw [size, pow_succ]
  cases s with
  | false => simp only [signBit, Bool.false_eq_true, if_false]; omega
  | true => simp only [signBit, if_true]; omega

theorem flip_lt (a : ℕ) : F.flip a < 2 ^ F.size := sign_add_lt _ (mag_lt a)

theorem sign_add_mag {a : ℕ} (ha : a < 2 ^ F.size) : F.signBit (F.neg a) + F.mag a = a := by
  simp only [size] at ha
  rw [pow_succ] at ha
  simp only [signBit, neg, mag, decide_eq_true_eq]
  split
  · next h => rw [Nat.mod_eq_sub_mod h, Nat.mod_eq_of_lt (by omega), Nat.add_sub_cancel' h]
  · next h => rw [Nat.mod_eq_of_lt (by omega), Nat.zero_add]

theorem expMask_succ : F.expMask + 1 = 2 ^ F.expSize := Nat.sub_add_cancel Nat.one_le_two_pow

theorem expOf_of_lt {m : ℕ} (hm : m < 2 ^ (F.mantSize + F.expSize)) : F.expOf m = m / 2 ^ F.mantSize := by
  unfold expOf
  exact Nat.mod_eq_of_lt (Nat.div_lt_of_lt_mul (by rwa [← pow_add]))

theorem infMag_lt : F.infMag + 2 ^ F.mantSize = 2 ^ (F.mantSize + F.expSize) := by
  rw [infMag, ← Nat.succ_mul, Nat.succ_eq_add_one, expMask_succ, pow_add, Nat.mul_comm]

theorem lt_of_lt_infMag {m : ℕ} (hm : m < F.infMag) : m < 2 ^ (F.mantSize + F.expSize) := by
  have := F.infMag_lt
  have := Nat.two_pow_pos F.mantSize
  omega

theorem isFinite_of_lt {m : ℕ} (hm : m < F.infMag) : F.IsFinite m := by
  unfold IsFinite
  rw [expOf_of_lt (lt_of_lt_infMag hm)]
  exact (Nat.div_lt_of_lt_mul (by rwa [infMag, Nat.mul_comm] at hm)).ne

/-! ### Significand and exponent -/

theorem one_le_eexp (a : ℕ) : 1 ≤ F.eexp a := Nat.le_max_right _ _

theorem sig_lt (a : ℕ) : F.sig a < 2 ^ (F.mantSize + 1) := by
  have : F.mantOf a < 2 ^ F.mantSize := Nat.mod_lt a (Nat.two_pow_pos _)
  unfold sig
  rw [pow_succ]
  split <;> omega

theorem sig_normal (a : ℕ) : 2 ^ F.mantSize ≤ F.sig a ∨ F.eexp a = 1 := by
  unfold sig eexp
  split
  · next h => exact .inr (by rw [h]; rfl)
  · exact .inl (Nat.le_add_right _ _)

/-- Without its sign a pattern is its exponent and its significand. -/
theorem mag_eq (a : ℕ) : F.mag a = (F.eexp a - 1) * 2 ^ F.mantSize + F.sig a := by
  have hsplit : F.mag a = F.expOf a * 2 ^ F.mantSize + F.mantOf a := by
    rw [mag, pow_add, Nat.mod_mul, expOf, mantOf, Nat.mul_comm]
    omega
  rw [hsplit]
  unfold eexp sig
  split
  · next h => simp [h]
  · next h =>
    obtain ⟨e, he⟩ : ∃ e, F.expOf a = e + 1 := ⟨F.expOf a - 1, by omega⟩
    rw [he, Nat.max_eq_left (by omega), Nat.add_sub_cancel, Nat.add_mul]
    omega

theorem finite_of_not {a : ℕ} (hn : ¬ F.IsNan a) (hi : ¬ F.IsInf a) : F.IsFinite a := by
  intro h
  by_cases hm : F.mantOf a = 0
  · exact hi ⟨h, hm⟩
  · exact hn ⟨h, hm⟩

theorem eexp_lt_of_finite {a : ℕ} (h : F.IsFinite a) : F.eexp a < F.expMask := by
  have hlt : F.expOf a < 2 ^ F.expSize := Nat.mod_lt _ (Nat.two_pow_pos _)
  have hpow : 2 ^ 5 ≤ 2 ^ F.expSize := Nat.pow_le_pow_right (by decide) F.five_le_exp
  have := F.expMask_succ
  unfold IsFinite at h
  unfold eexp
  omega

/-- A larger pattern has no smaller exponent. -/
theorem eexp_le_of_mag_le {a b : ℕ} (h : F.mag b ≤ F.mag a) : F.eexp b ≤ F.eexp a := by
  by_contra hc
  have hsa := F.sig_lt a
  have h1 := F.one_le_eexp a
  have hsb := (F.sig_normal b).resolve_right (by omega)
  rw [mag_eq, mag_eq] at h
  rw [pow_succ] at hsa
  obtain ⟨d, hd⟩ : ∃ d, F.eexp b - 1 = F.eexp a - 1 + 1 + d := ⟨F.eexp b - F.eexp a - 1, by omega⟩
  rw [hd, Nat.add_mul, Nat.add_mul] at h
  omega

variable (F)
variable {K : Type*} [Field K]

attribute [local instance] two_atLeastTwo in
/-- The magnitude of a finite number. -/
def absVal (a : ℕ) : K := F.sig a * 2 ^ ((F.eexp a : ℤ) - F.bias - F.mantSize)

/-- A number with a sign. -/
def signed (neg : Bool) (y : K) : K := if neg = true then -y else y

/-- The value of a finite number. -/
def value (a : ℕ) : K := signed (F.neg a) (F.absVal a)

variable {F} {y z : K}

theorem absVal_sign_add (n : Bool) (m : ℕ) : (F.absVal (F.signBit n + m) : K) = F.absVal m := by
  simp only [absVal, sig, eexp, expOf_sign_add, mantOf_sign_add]

theorem signed_inj (neg : Bool) : signed neg y = signed neg z ↔ y = z := by
  cases neg with
  | false => exact Iff.rfl
  | true => exact neg_inj

variable [LinearOrder K] [IsStrictOrderedRing K]

/-- The pattern of an exponent and a significand. A significand of `mantSize + 2` bits has carried over to the next
    exponent. -/
theorem absVal_pattern {E N : ℕ} (hE : 1 ≤ E) (hN : N ≤ 2 ^ (F.mantSize + 1)) (hnorm : 2 ^ F.mantSize ≤ N ∨ E = 1)
    (hfit : (E - 1) * 2 ^ F.mantSize + N < 2 ^ (F.mantSize + F.expSize)) :
    (F.absVal ((E - 1) * 2 ^ F.mantSize + N) : K) = N * 2 ^ ((E : ℤ) - F.bias - F.mantSize) := by
  have hpos := Nat.two_pow_pos F.mantSize
  obtain ⟨e, rfl⟩ : ∃ e, E = e + 1 := ⟨E - 1, by omega⟩
  rw [Nat.add_sub_cancel] at hfit ⊢
  simp only [absVal, sig, eexp, expOf_of_lt hfit, mantOf]
  rw [pow_succ] at hN
  -- subnormal, normal, or carried over
  rcases Nat.lt_or_ge N (2 ^ F.mantSize) with hlt | hge
  · obtain rfl : e = 0 := by omega
    rw [Nat.zero_mul, Nat.zero_add, Nat.div_eq_of_lt hlt, if_pos rfl, Nat.mod_eq_of_lt hlt]
    simp
  · obtain ⟨r, rfl⟩ := Nat.exists_eq_add_of_le hge
    have hsplit : e * 2 ^ F.mantSize + (2 ^ F.mantSize + r) = r + 2 ^ F.mantSize * (e + 1) := by ring
    rw [hsplit, Nat.add_mul_div_left _ _ hpos, Nat.add_mul_mod_self_left]
    rcases Nat.lt_or_ge r (2 ^ F.mantSize) with hlt | hge'
    · rw [Nat.div_eq_of_lt hlt, Nat.mod_eq_of_lt hlt, if_neg (by omega), Nat.zero_add, Nat.max_eq_left (by omega)]
    · obtain rfl : r = 2 ^ F.mantSize := by omega
      rw [Nat.div_self hpos, Nat.mod_self, if_neg (by omega), Nat.max_eq_left (by omega),
        show ((1 + (e + 1) : ℕ) : ℤ) - F.bias - F.mantSize = ((e + 1 : ℕ) : ℤ) - F.bias - F.mantSize + 1 by push_cast; ring,
        zpow_add_one₀ two_ne_zero]
      push_cast
      ring

/-- The pattern of an exponent and a significand is beyond the finite ones if its value is. -/
theorem infMag_le_pattern {E N : ℕ} (hE : 1 ≤ E) (h0 : 2 ^ F.mantSize ≤ N) (h1 : N ≤ 2 ^ (F.mantSize + 1)) :
    F.infMag ≤ (E - 1) * 2 ^ F.mantSize + N ↔
      (2 : K) ^ (F.emax + 1) ≤ (N : K) * 2 ^ ((E : ℤ) - F.bias - F.mantSize) := by
  have hz : (0 : K) < 2 ^ ((E : ℤ) - F.bias - F.mantSize) := zpow_pos two_pos _
  have h0' : (2 : K) ^ F.mantSize ≤ N := by exact_mod_cast h0
  have h1' : (N : K) ≤ 2 ^ (F.mantSize + 1) := by exact_mod_cast h1
  have hscale (n : ℕ) : (2 : K) ^ ((n : ℤ) + E - F.bias - F.mantSize) = 2 ^ n * 2 ^ ((E : ℤ) - F.bias - F.mantSize) := by
    rw [← zpow_natCast, ← zpow_add₀ two_ne_zero]
    congr 1
    ring
  have hpos := Nat.two_pow_pos F.mantSize
  obtain ⟨e, rfl⟩ : ∃ e, E = e + 1 := ⟨E - 1, by omega⟩
  rw [Nat.add_sub_cancel, infMag]
  rw [pow_succ] at h1
  rcases lt_trichotomy F.expMask (e + 2) with hlt | heq | hgt
  · have := Nat.mul_le_mul_right (2 ^ F.mantSize) (show F.expMask ≤ e + 1 by omega)
    rw [Nat.add_mul, Nat.one_mul] at this
    refine iff_of_true (by omega) ?_
    refine le_trans ?_ (mul_le_mul_of_nonneg_right h0' hz.le)
    rw [← hscale]
    exact zpow_le_zpow_right₀ one_le_two (by unfold emax; push_cast; omega)
  · rw [heq, show F.emax + 1 = ((F.mantSize + 1 : ℕ) : ℤ) + (e + 1 : ℕ) - F.bias - F.mantSize by
      unfold emax; push_cast; omega, hscale, mul_le_mul_iff_left₀ hz, Nat.add_mul]
    rw [show (2 : K) ^ (F.mantSize + 1) = ((2 ^ (F.mantSize + 1) : ℕ) : K) by push_cast; rfl, Nat.cast_le, pow_succ]
    omega
  · have := Nat.mul_le_mul_right (2 ^ F.mantSize) (show e + 3 ≤ F.expMask by omega)
    rw [Nat.add_mul] at this
    refine iff_of_false (by omega) (not_le.mpr ?_)
    refine lt_of_le_of_lt (mul_le_mul_of_nonneg_right h1' hz.le) ?_
    rw [← hscale]
    exact zpow_lt_zpow_right₀ one_lt_two (by unfold emax; push_cast; omega)

theorem absVal_nonneg (a : ℕ) : (0 : K) ≤ F.absVal a := mul_nonneg (Nat.cast_nonneg _) (zpow_pos two_pos _).le

/-- Patterns without a sign are in the order of their values. -/
theorem absVal_lt_of_mag_lt {a b : ℕ} (h : F.mag a < F.mag b) : (F.absVal a : K) < F.absVal b := by
  have hexp := eexp_le_of_mag_le h.le
  rw [mag_eq, mag_eq] at h
  unfold absVal
  rcases hexp.eq_or_lt with heq | hlt
  · rw [heq] at h ⊢
    exact mul_lt_mul_of_pos_right (by exact_mod_cast (by omega : F.sig a < F.sig b)) (zpow_pos two_pos _)
  · have hb := (F.sig_normal b).resolve_right (by have := F.one_le_eexp a; omega)
    calc (F.sig a : K) * 2 ^ ((F.eexp a : ℤ) - F.bias - F.mantSize)
        < 2 ^ (F.mantSize + 1) * 2 ^ ((F.eexp a : ℤ) - F.bias - F.mantSize) :=
          mul_lt_mul_of_pos_right (by exact_mod_cast F.sig_lt a) (zpow_pos two_pos _)
      _ = 2 ^ ((F.eexp a : ℤ) + 1 - F.bias) := by
          rw [← zpow_natCast, ← zpow_add₀ two_ne_zero]
          congr 1
          push_cast
          ring
      _ ≤ 2 ^ ((F.eexp b : ℤ) - F.bias) := zpow_le_zpow_right₀ one_le_two (by omega)
      _ = 2 ^ F.mantSize * 2 ^ ((F.eexp b : ℤ) - F.bias - F.mantSize) := by
          rw [← zpow_natCast, ← zpow_add₀ two_ne_zero]
          congr 1
          ring
      _ ≤ (F.sig b : K) * 2 ^ ((F.eexp b : ℤ) - F.bias - F.mantSize) :=
          mul_le_mul_of_nonneg_right (by exact_mod_cast hb) (zpow_pos two_pos _).le

theorem absVal_le_of_mag_le {a b : ℕ} (h : F.mag a ≤ F.mag b) : (F.absVal a : K) ≤ F.absVal b := by
  rcases h.lt_or_eq with hlt | heq
  · exact (absVal_lt_of_mag_lt hlt).le
  · have hexp := Nat.le_antisymm (eexp_le_of_mag_le heq.le) (eexp_le_of_mag_le heq.ge)
    rw [mag_eq, mag_eq, hexp] at heq
    rw [absVal, absVal, hexp, show F.sig a = F.sig b by omega]

theorem sig_eq_zero_iff (a : ℕ) : F.sig a = 0 ↔ F.IsZero a := by
  have := Nat.two_pow_pos F.mantSize
  unfold sig IsZero
  split
  · next h => simp [h]
  · next h =>
    simp only [h, false_and, iff_false]
    omega

theorem absVal_eq_zero_iff (a : ℕ) : (F.absVal a : K) = 0 ↔ F.IsZero a := by
  unfold absVal
  rw [mul_eq_zero, or_iff_left (zpow_pos two_pos _).ne', Nat.cast_eq_zero, sig_eq_zero_iff]

theorem value_eq_zero_iff (a : ℕ) : (F.value a : K) = 0 ↔ F.IsZero a := by
  unfold value
  rw [← absVal_eq_zero_iff (K := K)]
  cases F.neg a with
  | false => exact Iff.rfl
  | true => exact neg_eq_zero

theorem abs_signed (neg : Bool) (hy : 0 < y) : |signed neg y| = y := by
  cases neg with
  | false => exact abs_of_pos hy
  | true => exact (abs_neg y).trans (abs_of_pos hy)

theorem signed_neg_iff (neg : Bool) (hy : 0 < y) : decide (signed neg y < 0) = neg := by
  cases neg with
  | false => simpa [signed] using hy.le
  | true => simpa [signed] using hy

/-! ### Order -/

theorem absVal_le_iff {a b : ℕ} : (F.absVal a : K) ≤ F.absVal b ↔ F.mag a ≤ F.mag b :=
  ⟨fun h => not_lt.mp fun hlt => not_lt.mpr h (absVal_lt_of_mag_lt hlt), absVal_le_of_mag_le⟩

theorem mag_eq_zero_iff {a : ℕ} : F.mag a = 0 ↔ F.IsZero a := by
  rw [← sig_eq_zero_iff, mag_eq, Nat.add_eq_zero_iff]
  constructor
  · exact fun h => h.2
  · intro h
    have := (F.sig_normal a).resolve_left (by have := Nat.two_pow_pos F.mantSize; omega)
    rw [this, h]
    simp

/-- The order of numbers, infinities included, by their signs and their patterns. -/
theorem value_le_iff {a b : ℕ} (ha : a < 2 ^ F.size) (hb : b < 2 ^ F.size) :
    (F.value a : K) ≤ F.value b ↔
      if F.neg a = F.neg b then (if F.neg a = true then b ≤ a else a ≤ b)
      else F.neg a = true ∨ (F.mag a = 0 ∧ F.mag b = 0) := by
  have ha' := sign_add_mag ha
  have hb' := sign_add_mag hb
  have hva := absVal_nonneg (F := F) (K := K) a
  have hvb := absVal_nonneg (F := F) (K := K) b
  unfold value
  cases hna : F.neg a with
  | false =>
      cases hnb : F.neg b with
      | false =>
          rw [hna] at ha'
          rw [hnb] at hb'
          simp only [signed, signBit, Bool.false_eq_true, if_false, if_true, absVal_le_iff] at ha' hb' ⊢
          omega
      | true =>
          simp only [signed, if_true, Bool.false_eq_true, if_false, false_or, mag_eq_zero_iff, ← absVal_eq_zero_iff (K := K)]
          constructor
          · exact fun h => ⟨by linarith, by linarith⟩
          · rintro ⟨h, h'⟩
            rw [h, h', neg_zero]
  | true =>
      cases hnb : F.neg b with
      | false =>
          simp only [signed, if_true, Bool.false_eq_true, if_false, true_or, reduceCtorEq, iff_true]
          linarith
      | true =>
          rw [hna] at ha'
          rw [hnb] at hb'
          simp only [signed, signBit, if_true, neg_le_neg_iff, absVal_le_iff] at ha' hb' ⊢
          omega

/-- Numbers of one sign and one value have one pattern. -/
theorem eq_of_value {a b : ℕ} (ha : a < 2 ^ F.size) (hb : b < 2 ^ F.size) (hn : F.neg a = F.neg b)
    (hv : (F.value a : K) = F.value b) : a = b := by
  rw [value, value, hn, signed_inj] at hv
  have h1 := absVal_le_iff.mp hv.le
  have h2 := absVal_le_iff.mp hv.ge
  rw [← sign_add_mag ha, ← sign_add_mag hb, hn, Nat.le_antisymm h1 h2]

/-- Numbers are equal if their patterns are, or if both are zeros. -/
theorem value_eq_iff {a b : ℕ} (ha : a < 2 ^ F.size) (hb : b < 2 ^ F.size) :
    (F.value a : K) = F.value b ↔ (F.mag a = 0 ∧ F.mag b = 0) ∨ a = b := by
  have ha' := sign_add_mag ha
  have hb' := sign_add_mag hb
  have hma := F.mag_lt a
  have hmb := F.mag_lt b
  rw [le_antisymm_iff, value_le_iff ha hb, value_le_iff hb ha]
  cases hna : F.neg a <;> cases hnb : F.neg b <;> rw [hna] at ha' <;> rw [hnb] at hb' <;>
    simp only [signBit, Bool.false_eq_true, if_false, if_true, reduceCtorEq, false_or, true_or, and_true, true_and] at * <;>
    omega

/-- Where a pattern lies on the line with both infinities. -/
def extended (K : Type*) [Field K] (F : FloatFormat) (a : ℕ) : WithBot (WithTop K) :=
  if F.IsInf a then (if F.neg a = true then ⊥ else ⊤) else ((F.value a : K) : WithTop K)

theorem mag_of_inf {a : ℕ} (ha : F.IsInf a) : F.mag a = F.infMag := by
  have := F.expMask_succ
  have := Nat.pow_le_pow_right (n := 2) (by decide) F.five_le_exp
  rw [mag_eq, eexp, sig, ha.1, ha.2, infMag, if_neg (by omega), Nat.max_eq_left (by omega), Nat.add_zero, ← Nat.succ_mul]
  congr 1
  omega

theorem mag_of_finite {a : ℕ} (ha : F.IsFinite a) : F.mag a < F.infMag := by
  have hexp := eexp_lt_of_finite ha
  have hsig := F.sig_lt a
  have := F.one_le_eexp a
  rw [pow_succ] at hsig
  rw [mag_eq, infMag]
  obtain ⟨d, hd⟩ : ∃ d, F.expMask = F.eexp a - 1 + 2 + d := ⟨F.expMask - F.eexp a - 1, by omega⟩
  rw [hd, Nat.add_mul, Nat.add_mul]
  have := Nat.zero_le (d * 2 ^ F.mantSize)
  omega

/-- The place on the line goes by the values, where the one of an infinity is beyond all finite ones. -/
theorem extended_le_iff {a b : ℕ} (ha : a < 2 ^ F.size) (hb : b < 2 ^ F.size) (hna : ¬ F.IsNan a) (hnb : ¬ F.IsNan b) :
    extended K F a ≤ extended K F b ↔ (F.value a : K) ≤ F.value b := by
  have hpos := (Nat.two_pow_pos F.mantSize)
  have hmask : 0 < F.infMag := by
    have := F.expMask_succ
    have := Nat.pow_le_pow_right (n := 2) (by decide) F.five_le_exp
    exact Nat.mul_pos (by omega) hpos
  rw [value_le_iff ha hb]
  have ha' := sign_add_mag ha
  have hb' := sign_add_mag hb
  unfold extended
  by_cases hia : F.IsInf a
  · have hma := mag_of_inf hia
    rw [if_pos hia]
    by_cases hib : F.IsInf b
    · have hmb := mag_of_inf hib
      rw [if_pos hib]
      cases hsa : F.neg a <;> cases hsb : F.neg b <;> rw [hsa] at ha' <;> rw [hsb] at hb' <;>
        simp [signBit] at ha' hb' ⊢ <;> omega
    · have hmb := mag_of_finite (finite_of_not hnb hib)
      rw [if_neg hib]
      cases hsa : F.neg a <;> cases hsb : F.neg b <;> rw [hsa] at ha' <;> rw [hsb] at hb' <;>
        simp [signBit] at ha' hb' ⊢ <;> omega
  · have hma := mag_of_finite (finite_of_not hna hia)
    rw [if_neg hia]
    by_cases hib : F.IsInf b
    · have hmb := mag_of_inf hib
      rw [if_pos hib]
      cases hsa : F.neg a <;> cases hsb : F.neg b <;> rw [hsa] at ha' <;> rw [hsb] at hb' <;>
        simp [signBit] at ha' hb' ⊢ <;> omega
    · rw [if_neg hib, WithBot.coe_le_coe, WithTop.coe_le_coe, value_le_iff ha hb]

theorem extended_eq_iff {a b : ℕ} (ha : a < 2 ^ F.size) (hb : b < 2 ^ F.size) (hna : ¬ F.IsNan a) (hnb : ¬ F.IsNan b) :
    extended K F a = extended K F b ↔ (F.mag a = 0 ∧ F.mag b = 0) ∨ a = b := by
  rw [le_antisymm_iff, extended_le_iff ha hb hna hnb, extended_le_iff hb ha hnb hna, ← le_antisymm_iff, value_eq_iff ha hb]

variable (F)

/-! ## Rounding -/

variable [FloorRing K]

attribute [local instance] two_atLeastTwo in
/-- `x` rounded to multiples of `2 ^ q`. -/
def roundAt (mode : RoundingMode) (q : ℤ) (x : K) : K := roundInt mode (x / 2 ^ q) * 2 ^ q

/-- `x` rounded to the precision of the format, with no bound on the exponent. -/
def unbounded (mode : RoundingMode) (x : K) : K := roundAt mode (Int.log 2 |x| - F.mantSize) x

/-- `x` rounded to the precision of the format, with no exponent below `emin`. -/
def bounded (mode : RoundingMode) (x : K) : K := roundAt mode (max (Int.log 2 |x|) F.emin - F.mantSize) x

/-- What an operation raises. -/
structure Exceptions where
  invalid : Bool := false
  divZero : Bool := false
  overflow : Bool := false
  underflow : Bool := false
  inexact : Bool := false
  deriving DecidableEq, Repr

attribute [local instance] two_atLeastTwo in
/-- The rounded number is beyond the largest finite one. -/
def Overflows (mode : RoundingMode) (x : K) : Prop := 2 ^ (F.emax + 1) ≤ |F.unbounded mode x|

/-- The result of an overflow: modes that round the magnitude down stop at the largest finite number. -/
def overflowMag (mm : MagMode) : ℕ := if mm = .down then F.maxMag else F.infMag

/-- **`r` is `x` rounded.** Underflow is detected after rounding. -/
structure Rounds (mode : RoundingMode) (x : K) (r : ℕ) (ex : Exceptions) : Prop where
  overflow : F.Overflows mode x → r = F.signBit (decide (x < 0)) + F.overflowMag (mode.mag (decide (x < 0))) ∧
    ex = { overflow := true, inexact := true }
  finite : ¬ F.Overflows mode x → r < 2 ^ F.size ∧ F.IsFinite r ∧ F.neg r = decide (x < 0) ∧
    F.value r = F.bounded mode x ∧
    ex = { underflow := decide (F.bounded mode x ≠ x ∧ |F.unbounded mode x| < 2 ^ F.emin),
           inexact := decide (F.bounded mode x ≠ x) }

/-! ## Magnitudes -/

attribute [local instance] two_atLeastTwo in
/-- Rounding of a magnitude to multiples of `2 ^ q`. -/
def roundMagAt (mm : MagMode) (q : ℤ) (y : K) : K := roundMag mm (y / 2 ^ q) * 2 ^ q

/-- `Rounds` for magnitudes: `m` is a pattern without a sign. -/
structure RoundsMag (mm : MagMode) (y : K) (m : ℕ) (ex : Exceptions) : Prop where
  overflow : 2 ^ (F.emax + 1) ≤ roundMagAt mm (Int.log 2 y - F.mantSize) y →
    m = F.overflowMag mm ∧ ex = { overflow := true, inexact := true }
  finite : roundMagAt mm (Int.log 2 y - F.mantSize) y < 2 ^ (F.emax + 1) →
    m < F.infMag ∧ F.absVal m = roundMagAt mm (max (Int.log 2 y) F.emin - F.mantSize) y ∧
    ex = { underflow := decide (roundMagAt mm (max (Int.log 2 y) F.emin - F.mantSize) y ≠ y ∧
             roundMagAt mm (Int.log 2 y - F.mantSize) y < 2 ^ F.emin),
           inexact := decide (roundMagAt mm (max (Int.log 2 y) F.emin - F.mantSize) y ≠ y) }

variable {F}
variable {mm : MagMode} {mode : RoundingMode} {m : ℕ} {ex : Exceptions} {q : ℤ}

theorem roundAt_signed (mode : RoundingMode) (q : ℤ) (neg : Bool) (hy : 0 < y) :
    roundAt mode q (signed neg y) = signed neg (roundMagAt (mode.mag neg) q y) := by
  have hq : (0 : K) < 2 ^ q := zpow_pos two_pos q
  have hdiv : signed neg y / 2 ^ q = if neg = true then -(y / 2 ^ q) else y / 2 ^ q := by
    cases neg with
    | false => rfl
    | true => exact neg_div _ _
  unfold roundAt
  rw [hdiv, roundInt_sign mode (div_pos hy hq)]
  cases neg with
  | false => rfl
  | true =>
      simp only [if_true, signed, roundMagAt]
      push_cast
      ring

theorem roundMag_nonneg (mm : MagMode) (hy : 0 ≤ y) : 0 ≤ roundMag mm y := by
  have hfloor : 0 ≤ ⌊y⌋ := Int.floor_nonneg.mpr hy
  cases mm with
  | even =>
      simp only [roundMag, roundEven]
      split_ifs
      · exact hfloor
      · omega
      · omega
  | down => exact hfloor
  | up => exact Int.ceil_nonneg hy
  | away => exact Int.floor_nonneg.mpr (by linarith)

theorem roundMagAt_nonneg (mm : MagMode) (q : ℤ) (hy : 0 ≤ y) : 0 ≤ roundMagAt mm q y :=
  mul_nonneg (Int.cast_nonneg (roundMag_nonneg mm (div_nonneg hy (zpow_pos two_pos q).le))) (zpow_pos two_pos q).le

/-- Rounding does not go beyond a multiple of the unit. -/
theorem roundMagAt_le (mm : MagMode) (q : ℤ) {j : ℤ} (hj : q ≤ j) (hy : y ≤ 2 ^ j) : roundMagAt mm q y ≤ 2 ^ j := by
  obtain ⟨d, rfl⟩ := Int.le.dest hj
  have hq : (0 : K) < 2 ^ q := zpow_pos two_pos q
  have hpow : (2 : K) ^ (q + d) = ((2 ^ d : ℕ) : ℤ) * 2 ^ q := by
    rw [zpow_add₀ two_ne_zero, zpow_natCast, mul_comm]
    push_cast
    rfl
  have hdiv : y / 2 ^ q ≤ ((2 ^ d : ℕ) : ℤ) := by
    rw [div_le_iff₀ hq, ← hpow]
    exact hy
  rw [hpow]
  exact mul_le_mul_of_nonneg_right (Int.cast_le.mpr (roundMag_le mm hdiv)) hq.le

/-- **Rounding a number is rounding its magnitude.** -/
theorem rounds_of_mag (n : Bool) (hy : 0 < y) (h : F.RoundsMag (mode.mag n) y m ex) :
    F.Rounds mode (signed n y) (F.signBit n + m) ex := by
  have hun : |F.unbounded mode (signed n y)| = roundMagAt (mode.mag n) (Int.log 2 y - F.mantSize) y := by
    unfold unbounded
    rw [abs_signed n hy, roundAt_signed mode _ n hy]
    have h0 := roundMagAt_nonneg (mode.mag n) (Int.log 2 y - F.mantSize) hy.le
    cases n with
    | false => exact abs_of_nonneg h0
    | true => exact (abs_neg _).trans (abs_of_nonneg h0)
  have hbd : F.bounded mode (signed n y) =
      signed n (roundMagAt (mode.mag n) (max (Int.log 2 y) F.emin - F.mantSize) y) := by
    unfold bounded
    rw [abs_signed n hy, roundAt_signed mode _ n hy]
  constructor
  · intro hov
    unfold Overflows at hov
    rw [hun] at hov
    obtain ⟨hm, hex⟩ := h.overflow hov
    rw [signed_neg_iff n hy, hm]
    exact ⟨rfl, hex⟩
  · intro hov
    unfold Overflows at hov
    rw [hun, not_le] at hov
    obtain ⟨hlt, hval, hex⟩ := h.finite hov
    have hlt' := lt_of_lt_infMag hlt
    have hneg := neg_sign_add n hlt'
    refine ⟨?_, ?_, ?_, ?_, ?_⟩
    · exact sign_add_lt n hlt'
    · unfold IsFinite
      rw [expOf_sign_add]
      exact isFinite_of_lt hlt
    · rw [signed_neg_iff n hy, hneg]
    · rw [hbd, value, hneg, absVal_sign_add, hval]
    · simp only [hbd, hun, ne_eq, signed_inj]
      exact hex

/-! ### Agreement -/

theorem log_eq {j : ℤ} (h0 : 2 ^ j ≤ y) (h1 : y < 2 ^ (j + 1)) : Int.log 2 y = j := by
  have hy : 0 < y := (zpow_pos two_pos j).trans_le h0
  have hlo := (Int.zpow_le_iff_le_log (by decide : 1 < 2) hy).mp (by exact_mod_cast h0)
  have hhi := (Int.lt_zpow_iff_log_lt (by decide : 1 < 2) hy).mp (by exact_mod_cast h1)
  omega

theorem zpow_log_le (hy : 0 < y) : 2 ^ Int.log 2 y ≤ y := by
  exact_mod_cast Int.zpow_log_le_self (by decide : 1 < 2) hy

theorem lt_zpow_succ_log (y : K) : y < 2 ^ (Int.log 2 y + 1) := by
  exact_mod_cast Int.lt_zpow_succ_log_self (by decide : 1 < 2) y

/-- Agreement on half the unit of rounding. -/
theorem roundMagAt_congr (h : Agrees (q - 1) y z) (mm : MagMode) :
    roundMagAt mm q y = roundMagAt mm q z ∧ (roundMagAt mm q y = y ↔ roundMagAt mm q z = z) := by
  have hscale := h.scale (-q)
  rw [show q - 1 + -q = -1 by omega, zpow_neg, ← div_eq_mul_inv, ← div_eq_mul_inv] at hscale
  have hround := hscale.roundMag mm
  unfold roundMagAt
  rw [hround]
  refine ⟨rfl, ?_⟩
  rw [eq_comm, eq_comm (b := z)]
  exact (h.mono (by omega)).eq_iff _

theorem log_scaled {m n : ℕ} (h0 : 2 ^ n ≤ m) (h1 : m < 2 ^ (n + 1)) (z : ℤ) :
    Int.log 2 ((m : K) * 2 ^ z) = n + z := by
  have hz : (0 : K) < 2 ^ z := zpow_pos two_pos z
  have h0' : (2 : K) ^ n ≤ m := by exact_mod_cast h0
  have h1' : (m : K) < 2 ^ (n + 1) := by exact_mod_cast h1
  apply log_eq
  · rw [zpow_add₀ two_ne_zero, zpow_natCast]
    exact mul_le_mul_of_nonneg_right h0' hz.le
  · rw [show (n : ℤ) + z + 1 = (n + 1 : ℕ) + z by push_cast; ring, zpow_add₀ two_ne_zero, zpow_natCast]
    exact mul_lt_mul_of_pos_right h1' hz

/-- Rounding of a number that is given by an integer. -/
theorem roundMagAt_scaled (mm : MagMode) (m : ℕ) {k : ℕ} (hk : 1 ≤ k) (z : ℤ) :
    roundMagAt mm (z + k) ((m : K) * 2 ^ z) = (roundShift mm m k : ℕ) * 2 ^ (z + k) := by
  have hdiv : (m : K) * 2 ^ z / 2 ^ (z + k) = (m : K) / 2 ^ k := by
    rw [zpow_add₀ two_ne_zero, zpow_natCast, mul_div_mul_comm, div_mul_eq_mul_div, mul_comm]
    field_simp
  unfold roundMagAt
  rw [hdiv, roundMag_div mm m hk, Int.cast_natCast]

/-- **Rounding sees a magnitude up to agreement on half a unit in the last place.** -/
theorem RoundsMag.congr (hy : 0 < y) (hag : Agrees (Int.log 2 y - F.mantSize - 1) y z) (h : F.RoundsMag mm y m ex) :
    F.RoundsMag mm z m ex := by
  have hlog : Int.log 2 z = Int.log 2 y :=
    log_eq ((hag.pow_le_iff (by omega)).mp (zpow_log_le hy)) ((hag.lt_pow_iff (by omega)).mp (lt_zpow_succ_log y))
  obtain ⟨hun, -⟩ := roundMagAt_congr hag mm
  obtain ⟨hbd, hexact⟩ := roundMagAt_congr (q := max (Int.log 2 y) F.emin - F.mantSize)
    (hag.mono (by omega)) mm
  constructor
  · rw [hlog, ← hun]
    exact h.overflow
  · rw [hlog, ← hun]
    intro hov
    obtain ⟨hlt, hval, hex⟩ := h.finite hov
    refine ⟨hlt, hval.trans hbd, ?_⟩
    simp only [ne_eq, ← hexact]
    exact hex

/-- Below half of the smallest subnormal number, the rounded number does not depend on the magnitude. -/
theorem RoundsMag.tiny (hy : 0 < y) (hz : 0 < z) (hy' : y < 2 ^ (F.emin - F.mantSize - 1))
    (hz' : z < 2 ^ (F.emin - F.mantSize - 1)) (h : F.RoundsMag mm y m ex) : F.RoundsMag mm z m ex := by
  have hexp : F.emin - F.mantSize - 1 < F.emax + 1 := by
    have := F.expMask_succ
    have := Nat.pow_le_pow_right (n := 2) (by decide) F.five_le_exp
    unfold emin emax
    omega
  -- what is true of both
  have hlog {x : K} (hx : 0 < x) (hx' : x < 2 ^ (F.emin - F.mantSize - 1)) : Int.log 2 x < F.emin - F.mantSize - 1 :=
    (Int.lt_zpow_iff_log_lt (by decide : 1 < 2) hx).mp (by exact_mod_cast hx')
  have hun {x : K} (hx : 0 < x) (hx' : x < 2 ^ (F.emin - F.mantSize - 1)) :
      roundMagAt mm (Int.log 2 x - F.mantSize) x < 2 ^ F.emin := by
    have hle : roundMagAt mm (Int.log 2 x - F.mantSize) x ≤ 2 ^ (Int.log 2 x + 1) := by
      have := roundMagAt_le mm (Int.log 2 x - F.mantSize) (j := Int.log 2 x + 1) (by omega) (lt_zpow_succ_log x).le
      exact this
    exact hle.trans_lt (zpow_lt_zpow_right₀ one_lt_two (by have := hlog hx hx'; omega))
  have hag : Agrees (F.emin - F.mantSize - 1) y z := agrees_of_between hy hz hy' hz'
  obtain ⟨hbd, hexact⟩ := roundMagAt_congr hag mm
  have hmax {x : K} (hx : 0 < x) (hx' : x < 2 ^ (F.emin - F.mantSize - 1)) : max (Int.log 2 x) F.emin = F.emin := by
    have := hlog hx hx'
    omega
  have hov {x : K} (hx : 0 < x) (hx' : x < 2 ^ (F.emin - F.mantSize - 1)) :
      roundMagAt mm (Int.log 2 x - F.mantSize) x < 2 ^ (F.emax + 1) :=
    (hun hx hx').trans_le (zpow_le_zpow_right₀ one_le_two (by
      unfold emin emax
      have := F.expMask_succ
      have := Nat.pow_le_pow_right (n := 2) (by decide) F.five_le_exp
      omega))
  obtain ⟨hlt, hval, hex⟩ := h.finite (hov hy hy')
  refine ⟨fun hc => absurd hc (not_le.mpr (hov hz hz')), fun _ => ⟨hlt, ?_, ?_⟩⟩
  · rw [hval, hmax hy hy', hmax hz hz', hbd]
  · rw [hex, hmax hy hy', hmax hz hz']
    simp only [hun hy hy', hun hz hz', and_true, ne_eq, hexact]

/-! ### Numbers of the format -/

/-- Rounding keeps multiples of the unit. -/
theorem roundMagAt_mul (mm : MagMode) (n : ℕ) {z : ℤ} (h : q ≤ z) :
    roundMagAt mm q ((n : K) * 2 ^ z) = n * 2 ^ z := by
  obtain ⟨d, rfl⟩ := Int.le.dest h
  have hq : (2 : K) ^ q ≠ 0 := (zpow_pos two_pos q).ne'
  have hint : (n : K) * 2 ^ (q + d) / 2 ^ q = ((n * 2 ^ d : ℤ) : K) := by
    rw [zpow_add₀ two_ne_zero, zpow_natCast]
    push_cast
    field_simp
  rw [roundMagAt, hint, roundMag_intCast, ← hint, div_mul_cancel₀ _ hq]

/-- Where an integer of at most `mantSize + 1` bits is rounded, nothing is lost. -/
theorem roundsMag_exact (mm : MagMode) (hm : m < F.infMag) (hpos : 0 < (F.absVal m : K)) :
    F.RoundsMag mm (F.absVal m : K) m {} := by
  have hexp := eexp_lt_of_finite (isFinite_of_lt hm)
  have hsig : 0 < F.sig m := by
    rw [absVal, mul_pos_iff_of_pos_right (zpow_pos two_pos _)] at hpos
    exact_mod_cast hpos
  have hlo := Nat.log2_self_le hsig.ne'
  have hhi := Nat.lt_log2_self (n := F.sig m)
  have hlt := (Nat.log2_lt hsig.ne').mpr (F.sig_lt m)
  have hlog : Int.log 2 (F.absVal m : K) = (F.sig m).log2 + ((F.eexp m : ℤ) - F.bias - F.mantSize) :=
    log_scaled hlo hhi _
  have hone := F.one_le_eexp m
  -- both units are at most the one of the number
  have hun : roundMagAt mm (Int.log 2 (F.absVal m : K) - F.mantSize) (F.absVal m : K) = F.absVal m :=
    roundMagAt_mul mm _ (by rw [hlog]; omega)
  have hbd : roundMagAt mm (max (Int.log 2 (F.absVal m : K)) F.emin - F.mantSize) (F.absVal m : K) = F.absVal m :=
    roundMagAt_mul mm _ (by rw [hlog]; unfold emin; omega)
  constructor
  · rw [hun]
    intro hov
    have := (lt_zpow_succ_log (F.absVal m : K)).trans_le (zpow_le_zpow_right₀ one_le_two
      (show Int.log 2 (F.absVal m : K) + 1 ≤ F.emax + 1 by rw [hlog]; unfold emax; omega))
    exact absurd hov (not_le.mpr this)
  · intro _
    refine ⟨hm, hbd.symm, ?_⟩
    simp [hbd]

/-- **A number of the format is rounded to itself.** -/
theorem rounds_self (mode : RoundingMode) {a : ℕ} (ha : a < 2 ^ F.size) (hfin : F.IsFinite a) (hz : ¬ F.IsZero a) :
    F.Rounds mode (F.value a : K) a {} := by
  have hpos : 0 < (F.absVal (F.mag a) : K) := by
    rw [← absVal_sign_add (F.neg a), sign_add_mag ha]
    exact lt_of_le_of_ne (absVal_nonneg a) (Ne.symm (mt (absVal_eq_zero_iff a).mp hz))
  have hmag : F.mag a < F.infMag := by
    have hexp : F.expOf (F.mag a) ≠ F.expMask := by
      rw [← expOf_sign_add (F.neg a), sign_add_mag ha]
      exact hfin
    rw [expOf_of_lt (mag_lt a)] at hexp
    have hle : F.mag a / 2 ^ F.mantSize < F.expMask + 1 := by
      rw [expMask_succ]
      exact Nat.div_lt_of_lt_mul (by rw [← pow_add]; exact mag_lt a)
    have := (Nat.div_lt_iff_lt_mul (Nat.two_pow_pos F.mantSize)).mp (show F.mag a / 2 ^ F.mantSize < F.expMask by omega)
    exact this
  have := rounds_of_mag (F.neg a) hpos (roundsMag_exact (mode.mag (F.neg a)) hmag hpos)
  rwa [sign_add_mag ha, ← absVal_sign_add (F.neg a), sign_add_mag ha] at this

/-- A number rounds to one pattern and raises one set of exceptions. -/
theorem Rounds.unique {x : K} {r r' : ℕ} {ex ex' : Exceptions} (h : F.Rounds mode x r ex) (h' : F.Rounds mode x r' ex') :
    r = r' ∧ ex = ex' := by
  by_cases hov : F.Overflows mode x
  · obtain ⟨hr, hex⟩ := h.overflow hov
    obtain ⟨hr', hex'⟩ := h'.overflow hov
    exact ⟨hr.trans hr'.symm, hex.trans hex'.symm⟩
  · obtain ⟨hr, -, hn, hv, hex⟩ := h.finite hov
    obtain ⟨hr', -, hn', hv', hex'⟩ := h'.finite hov
    exact ⟨eq_of_value (K := K) hr hr' (hn.trans hn'.symm) (hv.trans hv'.symm), hex.trans hex'.symm⟩

/-! ## Operations -/

/-- What an operation comes to before it is rounded: a quiet NaN, an infinity, a zero, or a number other than zero. -/
inductive FloatResult (K : Type*) where
  | nan (invalid : Bool)
  | inf (neg divZero : Bool)
  | zero (neg : Bool)
  | round (x : K)

/-- A result that is known exactly: it is rounded, if it is not zero. -/
def FloatResult.exactly (x : K) (zeroNeg : Bool) : FloatResult K := if x = 0 then .zero zeroNeg else .round x

variable (F)

/-- The pattern and the exceptions that a result is delivered as. -/
def Delivers (mode : RoundingMode) (res : FloatResult K) (r : ℕ) (ex : Exceptions) : Prop :=
  match res with
  | .nan invalid => r = F.qnan ∧ ex = { invalid := invalid }
  | .inf neg divZero => r = F.signBit neg + F.infMag ∧ ex = { divZero := divZero }
  | .zero neg => r = F.signBit neg ∧ ex = {}
  | .round x => F.Rounds mode x r ex

variable {F} in
theorem Delivers.unique {res : FloatResult K} {r r' : ℕ} {ex ex' : Exceptions}
    (h : F.Delivers mode res r ex) (h' : F.Delivers mode res r' ex') : r = r' ∧ ex = ex' := by
  cases res with
  | nan invalid => exact ⟨h.1.trans h'.1.symm, h.2.trans h'.2.symm⟩
  | inf neg divZero => exact ⟨h.1.trans h'.1.symm, h.2.trans h'.2.symm⟩
  | zero neg => exact ⟨h.1.trans h'.1.symm, h.2.trans h'.2.symm⟩
  | round x => exact Rounds.unique h h'

variable {F} in
omit [IsStrictOrderedRing K] in
/-- What is delivered is a pattern of the format. -/
theorem Delivers.lt {res : FloatResult K} {r : ℕ} {ex : Exceptions} (h : F.Delivers mode res r ex) : r < 2 ^ F.size := by
  have hinf := infMag_lt (F := F)
  have hpos := Nat.two_pow_pos F.mantSize
  cases res with
  | nan invalid =>
    have hquiet : 2 ^ (F.mantSize - 1) < 2 ^ F.mantSize :=
      Nat.pow_lt_pow_right (by decide) (by have := F.two_le_mant; omega)
    have hq : F.qnan < 2 ^ (F.mantSize + F.expSize) := by
      unfold qnan
      unfold infMag at hinf
      omega
    rw [h.1]
    exact hq.trans (Nat.pow_lt_pow_right (by decide) (Nat.lt_succ_self _))
  | inf neg divZero =>
    rw [h.1]
    exact sign_add_lt neg (by omega)
  | zero neg =>
    rw [h.1]
    exact sign_add_lt (m := 0) neg (Nat.two_pow_pos _)
  | round x =>
    by_cases hov : F.Overflows mode x
    · rw [(Rounds.overflow h hov).1]
      refine sign_add_lt _ ?_
      unfold overflowMag
      split
      · unfold maxMag
        unfold infMag at hinf
        omega
      · omega
    · exact (Rounds.finite h hov).1

/-- A sum: an exact zero of different signs is negative when rounding down only. -/
def addSpec (K : Type*) [Field K] [LinearOrder K] (mode : RoundingMode) (a b : ℕ) : FloatResult K :=
  if F.IsNan a ∨ F.IsNan b then .nan (F.IsSignaling a ∨ F.IsSignaling b)
  else if F.IsInf a then (if F.IsInf b ∧ F.neg a ≠ F.neg b then .nan true else .inf (F.neg a) false)
  else if F.IsInf b then .inf (F.neg b) false
  else .exactly (F.value a + F.value b) (if F.neg a = F.neg b then F.neg a else decide (mode = .rdn))

omit [IsStrictOrderedRing K] [FloorRing K] in
theorem addSpec_comm (mode : RoundingMode) (a b : ℕ) : F.addSpec K mode a b = F.addSpec K mode b a := by
  unfold addSpec
  simp only [add_comm (F.value b : K), or_comm (a := F.IsNan b), or_comm (a := F.IsSignaling b)]
  by_cases ha : F.IsInf a <;> by_cases hb : F.IsInf b <;> by_cases hs : F.neg a = F.neg b <;>
    simp [ha, hb, hs, eq_comm]

/-- A difference is a sum with the other sign. -/
def subSpec (K : Type*) [Field K] [LinearOrder K] (mode : RoundingMode) (a b : ℕ) : FloatResult K :=
  F.addSpec K mode a (F.flip b)

/-- A product. -/
def mulSpec (K : Type*) [Field K] [LinearOrder K] (a b : ℕ) : FloatResult K :=
  if F.IsNan a ∨ F.IsNan b then .nan (F.IsSignaling a ∨ F.IsSignaling b)
  else if (F.IsInf a ∧ F.IsZero b) ∨ (F.IsInf b ∧ F.IsZero a) then .nan true
  else if F.IsInf a ∨ F.IsInf b then .inf (F.neg a ^^ F.neg b) false
  else .exactly (F.value a * F.value b) (F.neg a ^^ F.neg b)

/-- A quotient. -/
def divSpec (K : Type*) [Field K] [LinearOrder K] (a b : ℕ) : FloatResult K :=
  if F.IsNan a ∨ F.IsNan b then .nan (F.IsSignaling a ∨ F.IsSignaling b)
  else if (F.IsInf a ∧ F.IsInf b) ∨ (F.IsZero a ∧ F.IsZero b) then .nan true
  else if F.IsInf a then .inf (F.neg a ^^ F.neg b) false
  else if F.IsInf b then .zero (F.neg a ^^ F.neg b)
  else if F.IsZero b then .inf (F.neg a ^^ F.neg b) true
  else .exactly (F.value a / F.value b) (F.neg a ^^ F.neg b)

/-- A square root, where `root` is the one of the operand's value. -/
def sqrtSpec (a : ℕ) (root : K) : FloatResult K :=
  if F.IsNan a then .nan (F.IsSignaling a)
  else if F.IsZero a then .zero (F.neg a)
  else if F.neg a = true then .nan true
  else if F.IsInf a then .inf false false
  else .round root

/-- A product and a sum, rounded once. Infinity times zero is invalid unless the other summand is a quiet NaN. -/
def fmaSpec (K : Type*) [Field K] [LinearOrder K] (mode : RoundingMode) (a b c : ℕ) : FloatResult K :=
  let neg := F.neg a ^^ F.neg b
  if F.IsNan a ∨ F.IsNan b ∨ F.IsNan c then .nan (F.IsSignaling a ∨ F.IsSignaling b ∨ F.IsSignaling c)
  else if (F.IsInf a ∧ F.IsZero b) ∨ (F.IsInf b ∧ F.IsZero a) then .nan true
  else if F.IsInf a ∨ F.IsInf b then (if F.IsInf c ∧ neg ≠ F.neg c then .nan true else .inf neg false)
  else if F.IsInf c then .inf (F.neg c) false
  else .exactly (F.value a * F.value b + F.value c) (if neg = F.neg c then neg else decide (mode = .rdn))

/-! ## Conversions -/

/-- The number of another format. -/
def convertSpec (K : Type*) [Field K] [LinearOrder K] (a : ℕ) : FloatResult K :=
  if F.IsNan a then .nan (F.IsSignaling a)
  else if F.IsInf a then .inf (F.neg a) false
  else .exactly (F.value a) (F.neg a)

/-- The integer of a number, between two bounds. A NaN is like positive infinity; beyond a bound, the bound is
    delivered as invalid. -/
def toIntSpec (K : Type*) [Field K] [LinearOrder K] [FloorRing K] (lo hi : ℤ) (mode : RoundingMode) (a : ℕ) : ℤ × Exceptions :=
  if F.IsNan a then (hi, { invalid := true })
  else if F.IsInf a then (if F.neg a = true then lo else hi, { invalid := true })
  else
    let n := roundInt mode (F.value a : K)
    if n < lo then (lo, { invalid := true })
    else if hi < n then (hi, { invalid := true })
    else (n, { inexact := decide ((n : K) ≠ F.value a) })

variable {F}

omit [FloorRing K] [IsStrictOrderedRing K] in
theorem convertSpec_inf {r : ℕ} (neg : Bool) (hr : r = F.signBit neg + F.infMag) :
    F.convertSpec K r = .inf neg false := by
  have hlt : F.infMag < 2 ^ (F.mantSize + F.expSize) := by
    have := infMag_lt (F := F)
    have := Nat.two_pow_pos F.mantSize
    omega
  have hexp : F.expOf F.infMag = F.expMask := by
    rw [expOf_of_lt hlt, infMag, Nat.mul_div_cancel _ (Nat.two_pow_pos _)]
  have hmant : F.mantOf F.infMag = 0 := Nat.mul_mod_left _ _
  have hinf : F.IsInf r := by
    subst hr
    exact ⟨(expOf_sign_add neg _).trans hexp, (mantOf_sign_add neg _).trans hmant⟩
  rw [convertSpec, if_neg (fun hnan => hnan.2 hinf.2), if_pos hinf, hr, neg_sign_add neg hlt]

/-- **What is no NaN is delivered as itself.** -/
theorem delivers_self {a : ℕ} (ha : a < 2 ^ F.size) (hnan : ¬ F.IsNan a) : F.Delivers mode (F.convertSpec K a) a {} := by
  rw [convertSpec, if_neg hnan]
  by_cases hinf : F.IsInf a
  · rw [if_pos hinf]
    refine ⟨?_, rfl⟩
    rw [← mag_of_inf hinf, sign_add_mag ha]
  rw [if_neg hinf, FloatResult.exactly]
  by_cases hz : F.IsZero a
  · rw [if_pos ((value_eq_zero_iff a).mpr hz)]
    refine ⟨?_, rfl⟩
    have hself := sign_add_mag ha
    rw [mag_eq_zero_iff.mpr hz, Nat.add_zero] at hself
    exact hself.symm
  · rw [if_neg (mt (value_eq_zero_iff a).mp hz)]
    exact rounds_self mode ha (finite_of_not hnan hinf) hz

omit [IsStrictOrderedRing K] in
/-- A conversion that does not change the number: what comes of another one does not depend on it. -/
theorem convertSpec_delivered {G : FloatFormat} {a r : ℕ} (hnan : ¬ G.IsNan a)
    (hdel : F.Delivers mode (G.convertSpec K a) r ex)
    (hexact : G.IsFinite a → F.IsFinite r ∧ (F.value r : K) = G.value a) : F.convertSpec K r = G.convertSpec K a := by
  by_cases hinf : G.IsInf a
  · have hspec : G.convertSpec K a = .inf (G.neg a) false := by rw [convertSpec, if_neg hnan, if_pos hinf]
    rw [hspec] at hdel ⊢
    exact convertSpec_inf _ hdel.1
  have hspec : G.convertSpec K a = .exactly (G.value a) (G.neg a) := by rw [convertSpec, if_neg hnan, if_neg hinf]
  obtain ⟨hfin, hval⟩ := hexact (finite_of_not hnan hinf)
  have hr : F.convertSpec K r = .exactly (F.value r) (F.neg r) := by
    rw [convertSpec, if_neg (fun h => hfin h.1), if_neg (fun h => hfin h.1)]
  rw [hr, hspec, hval]
  rw [hspec] at hdel
  unfold FloatResult.exactly at hdel ⊢
  by_cases h0 : (G.value a : K) = 0
  · -- the sign of a zero is kept
    rw [if_pos h0] at hdel ⊢
    rw [if_pos h0, hdel.1, ← Nat.add_zero (F.signBit (G.neg a)), neg_sign_add _ (Nat.two_pow_pos _)]
  · rw [if_neg h0, if_neg h0]

end FloatFormat

end Lib
