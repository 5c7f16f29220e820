import HadBadge.Correctness.FloatAdd

/-!
# `Correctness.FloatCompare`: comparisons of floating point numbers

The comparisons are made on the patterns, by sign and magnitude. They give the order of the numbers, infinities
included and both zeros the same; `min_sf` and `max_sf` also tell the zeros apart.

## Contents
- **Order.** `bothZero_iff`, `leSf_eq`, `ltSf_eq`, `eqQuietSf_eq`.
- **Minimum and maximum.** `Picks`, `pickSf_spec`; `minSf_spec`, `maxSf_spec`.
-/

namespace HadBadge

open Lib Lib.FloatFormat

variable {F : FloatFormat} {a b : ℕ}

/-! ## Order -/

theorem bothZero_iff (F : FloatFormat) (a b : ℕ) : bothZero F a b = true ↔ F.mag a = 0 ∧ F.mag b = 0 := by
  have hpow : 2 ^ F.size = 2 * 2 ^ (F.mantSize + F.expSize) := by rw [FloatFormat.size, pow_succ, Nat.mul_comm]
  unfold bothZero
  rw [decide_eq_true_eq, Nat.shiftLeft_eq, pow_one, Nat.mul_comm, fUint, hpow, Nat.mul_mod_mul_left, Nat.mul_eq_zero,
    or_iff_right two_ne_zero, Nat.or_mod_two_pow, Nat.or_eq_zero_iff]
  rfl

theorem sfSign_ne_zero (ha : a < 2 ^ F.size) : sfSign F a ≠ 0 ↔ F.neg a = true := by
  rw [sfSign_eq ha]
  cases F.neg a <;> decide

theorem sfSign_ne_iff (ha : a < 2 ^ F.size) (hb : b < 2 ^ F.size) : sfSign F a ≠ sfSign F b ↔ ¬ F.neg a = F.neg b := by
  rw [sfSign_eq ha, sfSign_eq hb, ne_eq, signNat_inj]

variable {K : Type*} [Field K] [LinearOrder K] [IsStrictOrderedRing K]

/-- **`le_sf` is the order of the numbers**; NaNs are invalid, quiet ones too. -/
theorem leSf_eq (K : Type*) [Field K] [LinearOrder K] [IsStrictOrderedRing K] (ha : a < 2 ^ F.size) (hb : b < 2 ^ F.size)
    (fl : UInt32) :
    leSf F a b fl = if F.IsNan a ∨ F.IsNan b then (false, fl ||| fflagInvalidOp)
      else (decide (extended K F a ≤ extended K F b), fl) := by
  unfold leSf
  simp only [isnanSf_eq, decide_eq_true_eq]
  by_cases hn : F.IsNan a ∨ F.IsNan b
  · rw [if_pos hn, if_pos hn]
  · rw [if_neg hn, if_neg hn]
    rw [not_or] at hn
    simp only [extended_le_iff ha hb hn.1 hn.2, value_le_iff ha hb, sfSign_ne_iff ha hb, sfSign_ne_zero ha,
      bothZero_iff F a b]
    by_cases hs : F.neg a = F.neg b
    · simp only [hs, not_true_eq_false, if_false, if_true]
      cases F.neg b <;> rfl
    · simp only [hs, not_false_eq_true, if_true, if_false]

/-- **`lt_sf`** is the strict order. -/
theorem ltSf_eq (K : Type*) [Field K] [LinearOrder K] [IsStrictOrderedRing K] (ha : a < 2 ^ F.size) (hb : b < 2 ^ F.size)
    (fl : UInt32) :
    ltSf F a b fl = if F.IsNan a ∨ F.IsNan b then (false, fl ||| fflagInvalidOp)
      else (decide (extended K F a < extended K F b), fl) := by
  unfold ltSf
  simp only [isnanSf_eq, decide_eq_true_eq]
  by_cases hn : F.IsNan a ∨ F.IsNan b
  · rw [if_pos hn, if_pos hn]
  · rw [if_neg hn, if_neg hn]
    rw [not_or] at hn
    have hz : bothZero F a b = false ↔ ¬ (F.mag a = 0 ∧ F.mag b = 0) := by
      rw [← bothZero_iff F a b, Bool.not_eq_true]
    simp only [← not_le, extended_le_iff hb ha hn.2 hn.1, value_le_iff hb ha, sfSign_ne_iff ha hb, sfSign_ne_zero ha, hz]
    by_cases hs : F.neg a = F.neg b
    · simp only [hs, not_true_eq_false, if_false, if_true]
      cases F.neg b <;> rfl
    · have hs' : F.neg b ≠ F.neg a := Ne.symm hs
      have hopp : ¬ F.neg b = true ↔ F.neg a = true := by
        cases hna : F.neg a <;> cases hnb : F.neg b <;> simp_all
      simp only [hs, hs', not_false_eq_true, if_true, if_false, not_or, hopp, and_comm (a := F.mag b = 0)]

/-- **`eq_quiet_sf`** is equality of the numbers; only signaling NaNs are invalid. -/
theorem eqQuietSf_eq (K : Type*) [Field K] [LinearOrder K] [IsStrictOrderedRing K] (ha : a < 2 ^ F.size)
    (hb : b < 2 ^ F.size) (fl : UInt32) :
    eqQuietSf F a b fl =
      if F.IsNan a ∨ F.IsNan b then (false, fl ||| exBits { invalid := decide (F.IsSignaling a ∨ F.IsSignaling b) })
      else (decide (extended K F a = extended K F b), fl) := by
  unfold eqQuietSf
  simp only [isnanSf_eq, issignanSf_eq, decide_eq_true_eq, invalidIf_eq]
  by_cases hn : F.IsNan a ∨ F.IsNan b
  · rw [if_pos hn, if_pos hn]
  · rw [if_neg hn, if_neg hn]
    rw [not_or] at hn
    simp only [extended_eq_iff ha hb hn.1 hn.2, bothZero_iff F a b]
    by_cases hz : F.mag a = 0 ∧ F.mag b = 0
    · simp [hz]
    · simp only [hz, false_or, if_false]

/-! ## Minimum and maximum -/

/-- `r` is the one of `a` and `b` that `pick` picks of their places on the line; `neg` picks its sign. -/
structure Picks (F : FloatFormat) (K : Type*) [Field K] (pick : WithBot (WithTop K) → WithBot (WithTop K) → WithBot (WithTop K))
    (neg : Bool → Bool → Bool) (a b r : ℕ) : Prop where
  operand : r = a ∨ r = b
  extended : extended K F r = pick (extended K F a) (extended K F b)
  sign : F.neg r = neg (F.neg a) (F.neg b)

/-- What `min_sf` and `max_sf` deliver. A number is picked rather than a quiet NaN; a signaling NaN gives the default
    NaN, whatever the other operand is, and is invalid. -/
def PickDelivers (F : FloatFormat) (P : ℕ → Prop) (a b : ℕ) (r : ℕ) (ex : Exceptions) : Prop :=
  if F.IsSignaling a ∨ F.IsSignaling b then r = F.qnan ∧ ex = { invalid := true }
  else ex = {} ∧
    if F.IsNan a then (if F.IsNan b then r = F.qnan else r = b)
    else if F.IsNan b then r = a
    else P r

omit [LinearOrder K] [IsStrictOrderedRing K] [Field K] in
theorem pickSf_spec (pick : ℕ → ℕ → ℕ) {P : ℕ → Prop} (h : ¬ F.IsNan a → ¬ F.IsNan b → P (pick a b)) (fl : UInt32) :
    ∃ r ex, pickSf F pick a b fl = (r, fl ||| exBits ex) ∧ PickDelivers F P a b r ex := by
  unfold pickSf PickDelivers
  simp only [isnanSf_eq, issignanSf_eq, decide_eq_true_eq, fQnan_eq]
  by_cases hsig : F.IsSignaling a ∨ F.IsSignaling b
  · have hn : F.IsNan a ∨ F.IsNan b := hsig.imp And.left And.left
    rw [if_pos hn, if_pos hsig]
    exact ⟨_, { invalid := true }, by rw [exBits_invalid], by rw [if_pos hsig]; exact ⟨rfl, rfl⟩⟩
  · rw [if_neg hsig]
    by_cases hna : F.IsNan a
    · exact ⟨_, {}, by rw [if_pos (.inl hna), if_pos hna, ← exBits_none],
        by rw [if_neg hsig, if_pos hna]; split <;> exact ⟨rfl, rfl⟩⟩
    · by_cases hnb : F.IsNan b
      · exact ⟨_, {}, by rw [if_pos (.inr hnb), if_neg hna, ← exBits_none],
          by rw [if_neg hsig, if_neg hna, if_pos hnb]; exact ⟨rfl, rfl⟩⟩
      · exact ⟨_, {}, by rw [if_neg (by tauto), ← exBits_none],
          by rw [if_neg hsig, if_neg hna, if_neg hnb]; exact ⟨rfl, h hna hnb⟩⟩

theorem ltXor_iff (ha : a < 2 ^ F.size) : ltXor a b (sfSign F a) = true ↔ if F.neg a = true then ¬ a < b else a < b := by
  unfold ltXor
  rw [sfSign_eq ha]
  by_cases h : a < b <;> cases F.neg a <;> simp [h, signNat]

/-- **`min_sf`**: the lesser one, of two zeros the negative one. -/
theorem minSf_spec (K : Type*) [Field K] [LinearOrder K] [IsStrictOrderedRing K] (ha : a < 2 ^ F.size) (hb : b < 2 ^ F.size)
    (fl : UInt32) :
    ∃ r ex, minSf F a b fl = (r, fl ||| exBits ex) ∧ PickDelivers F (Picks F K min or a b) a b r ex := by
  refine pickSf_spec _ (fun hna hnb => ?_) fl
  have hle := extended_le_iff (K := K) ha hb hna hnb
  have hge := extended_le_iff (K := K) hb ha hnb hna
  rw [value_le_iff ha hb] at hle
  rw [value_le_iff hb ha] at hge
  simp only [sfSign_ne_iff ha hb, sfSign_ne_zero ha, ltXor_iff ha]
  cases hsa : F.neg a <;> cases hsb : F.neg b <;>
    simp only [hsa, hsb, reduceCtorEq, not_true_eq_false, not_false_eq_true, if_true, if_false, Bool.false_eq_true, true_or,
      false_or] at hle hge ⊢
  · split
    · next h => exact ⟨.inl rfl, (min_eq_left (hle.mpr h.le)).symm, by rw [hsa, hsb]; rfl⟩
    · next h => exact ⟨.inr rfl, (min_eq_right (hge.mpr (not_lt.mp h))).symm, by rw [hsa, hsb]; rfl⟩
  · exact ⟨.inr rfl, (min_eq_right (hge.mpr trivial)).symm, by rw [hsa, hsb]; rfl⟩
  · exact ⟨.inl rfl, (min_eq_left (hle.mpr trivial)).symm, by rw [hsa, hsb]; rfl⟩
  · split
    · next h => exact ⟨.inl rfl, (min_eq_left (hle.mpr (not_lt.mp h))).symm, by rw [hsa, hsb]; rfl⟩
    · next h => exact ⟨.inr rfl, (min_eq_right (hge.mpr (not_not.mp h).le)).symm, by rw [hsa, hsb]; rfl⟩

/-- **`max_sf`**: the greater one, of two zeros the positive one. -/
theorem maxSf_spec (K : Type*) [Field K] [LinearOrder K] [IsStrictOrderedRing K] (ha : a < 2 ^ F.size) (hb : b < 2 ^ F.size)
    (fl : UInt32) :
    ∃ r ex, maxSf F a b fl = (r, fl ||| exBits ex) ∧ PickDelivers F (Picks F K max and a b) a b r ex := by
  refine pickSf_spec _ (fun hna hnb => ?_) fl
  have hle := extended_le_iff (K := K) ha hb hna hnb
  have hge := extended_le_iff (K := K) hb ha hnb hna
  rw [value_le_iff ha hb] at hle
  rw [value_le_iff hb ha] at hge
  simp only [sfSign_ne_iff ha hb, sfSign_ne_zero ha, ltXor_iff ha]
  cases hsa : F.neg a <;> cases hsb : F.neg b <;>
    simp only [hsa, hsb, reduceCtorEq, not_true_eq_false, not_false_eq_true, if_true, if_false, Bool.false_eq_true, true_or,
      false_or] at hle hge ⊢
  · split
    · next h => exact ⟨.inr rfl, (max_eq_right (hle.mpr h.le)).symm, by rw [hsa, hsb]; rfl⟩
    · next h => exact ⟨.inl rfl, (max_eq_left (hge.mpr (not_lt.mp h))).symm, by rw [hsa, hsb]; rfl⟩
  · exact ⟨.inl rfl, (max_eq_left (hge.mpr trivial)).symm, by rw [hsa, hsb]; rfl⟩
  · exact ⟨.inr rfl, (max_eq_right (hle.mpr trivial)).symm, by rw [hsa, hsb]; rfl⟩
  · split
    · next h => exact ⟨.inr rfl, (max_eq_right (hle.mpr (not_lt.mp h))).symm, by rw [hsa, hsb]; rfl⟩
    · next h => exact ⟨.inl rfl, (max_eq_left (hge.mpr (not_not.mp h).le)).symm, by rw [hsa, hsb]; rfl⟩

end HadBadge
