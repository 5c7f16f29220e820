import HadBadge.Correctness.FloatMul

/-!
# `Correctness.FloatFma`: product and sum, rounded once

`fma_sf` delivers the rounded sum of a product and a third operand. Both summands are two words long with their
highest bits at the same place. Where the smaller one is shifted so far that words drop out, a sum with the product
as the larger summand still has all bits of the other in a sticky bit; a sum with the third operand as the larger
one has no bits in its low word, and then it is enough that the product is not zero.

## Contents
- **Two words.** `wideAdd_eq`, `wideSub_eq`: sums and differences with a carry.
- **The shift.** `fmaShift_jam`, `fmaShift_far`.
- **Sums.** `fma_agrees`, `fmaAdd_delivers`.
- **Operations.** `fmaProduct_spec`, `fmaSf_delivers`.
-/

namespace HadBadge

open Lib Lib.FloatFormat

variable {F : FloatFormat} {a b c d m : ℕ}

/-! ## Two words -/

/-- Two words as one number. -/
def FmaOperand.wide (F : FloatFormat) (x : FmaOperand) : ℕ := x.mant1 * 2 ^ F.size + x.mant0

/-- The sum of two words with a carry. -/
theorem wideAdd_eq {a1 a0 c1 c0 : ℕ} (ha : a0 < 2 ^ F.size) (hc : c0 < 2 ^ F.size)
    (h : a1 * 2 ^ F.size + a0 + (c1 * 2 ^ F.size + c0) < 2 ^ (2 * F.size - 1)) :
    let r0 := fUint F (a0 + c0)
    let r1 := fUint F (a1 + c1 + (if r0 < c0 then 1 else 0))
    r1 * 2 ^ F.size + r0 = a1 * 2 ^ F.size + a0 + (c1 * 2 ^ F.size + c0) ∧ r1 < 2 ^ (F.size - 1) := by
  have hsize := size_eq F
  have hpow : 2 ^ (2 * F.size - 1) = 2 ^ (F.size - 1) * 2 ^ F.size := by
    rw [← pow_add]
    congr 1
    omega
  have hword : 2 ^ (F.size - 1) < 2 ^ F.size := Nat.pow_lt_pow_right (by decide) (by omega)
  dsimp only
  obtain ⟨k, hk, hr0, hcarry⟩ : ∃ k ≤ 1, a0 + c0 = k * 2 ^ F.size + fUint F (a0 + c0) ∧
      (if fUint F (a0 + c0) < c0 then 1 else 0) = k := by
    unfold fUint
    rcases Nat.lt_or_ge (a0 + c0) (2 ^ F.size) with hlt | hge
    · refine ⟨0, by omega, ?_, ?_⟩
      · rw [Nat.mod_eq_of_lt hlt]
        omega
      · rw [Nat.mod_eq_of_lt hlt, if_neg (by omega)]
    · have hmod : (a0 + c0) % 2 ^ F.size = a0 + c0 - 2 ^ F.size := by
        rw [Nat.mod_eq_sub_mod hge, Nat.mod_eq_of_lt (by omega)]
      refine ⟨1, by omega, ?_, ?_⟩
      · rw [hmod]
        omega
      · rw [hmod, if_pos (by omega)]
  rw [hcarry]
  have hsum : a1 * 2 ^ F.size + a0 + (c1 * 2 ^ F.size + c0) = (a1 + c1 + k) * 2 ^ F.size + fUint F (a0 + c0) := by
    rw [Nat.add_mul, Nat.add_mul]
    omega
  have hhigh : a1 + c1 + k < 2 ^ (F.size - 1) := by
    rw [hsum, hpow] at h
    exact Nat.lt_of_mul_lt_mul_right ((Nat.le_add_right _ _).trans_lt h)
  rw [hsum, fUint_of_lt (hhigh.trans hword)]
  exact ⟨rfl, hhigh⟩

/-- The difference of two words with a borrow. -/
theorem wideSub_eq {a1 a0 c1 c0 : ℕ} (ha : a0 < 2 ^ F.size) (hc : c0 < 2 ^ F.size) (ha1 : a1 < 2 ^ (F.size - 1))
    (h : c1 * 2 ^ F.size + c0 ≤ a1 * 2 ^ F.size + a0) :
    let r0 := fUint F (2 ^ F.size + a0 - c0)
    let r1 := fUint F (2 * 2 ^ F.size + a1 - c1 - (if a0 < r0 then 1 else 0))
    r1 * 2 ^ F.size + r0 = a1 * 2 ^ F.size + a0 - (c1 * 2 ^ F.size + c0) ∧ r1 < 2 ^ (F.size - 1) := by
  have hsize := size_eq F
  have hword : 2 ^ (F.size - 1) < 2 ^ F.size := Nat.pow_lt_pow_right (by decide) (by omega)
  have hc1 : c1 ≤ a1 := by
    by_contra hlt
    have := Nat.mul_le_mul_right (2 ^ F.size) (show a1 + 1 ≤ c1 by omega)
    rw [Nat.add_mul] at this
    omega
  dsimp only
  obtain ⟨k, hk, hle, hr0, hborrow⟩ : ∃ k ≤ 1, k ≤ a1 - c1 ∧ fUint F (2 ^ F.size + a0 - c0) + c0 = k * 2 ^ F.size + a0 ∧
      (if a0 < fUint F (2 ^ F.size + a0 - c0) then 1 else 0) = k := by
    unfold fUint
    rcases Nat.lt_or_ge a0 c0 with hlt | hge
    · have hne : c1 < a1 := by
        rcases hc1.lt_or_eq with hlt' | heq
        · exact hlt'
        · rw [heq] at h
          omega
      refine ⟨1, by omega, by omega, ?_, ?_⟩
      · rw [Nat.mod_eq_of_lt (by omega)]
        omega
      · rw [Nat.mod_eq_of_lt (by omega), if_pos (by omega)]
    · have hmod : (2 ^ F.size + a0 - c0) % 2 ^ F.size = a0 - c0 := by
        rw [Nat.add_sub_assoc hge, Nat.add_mod_left, Nat.mod_eq_of_lt (by omega)]
      refine ⟨0, by omega, by omega, ?_, ?_⟩
      · rw [hmod]
        omega
      · rw [hmod, if_neg (by omega)]
  rw [hborrow]
  have hhigh : fUint F (2 * 2 ^ F.size + a1 - c1 - k) = a1 - c1 - k := by
    rw [show 2 * 2 ^ F.size + a1 - c1 - k = a1 - c1 - k + 2 ^ F.size * 2 by omega, fUint, Nat.add_mul_mod_self_left]
    exact Nat.mod_eq_of_lt (by omega)
  rw [hhigh]
  refine ⟨?_, by omega⟩
  have hsplit : a1 * 2 ^ F.size = (a1 - c1 - k) * 2 ^ F.size + c1 * 2 ^ F.size + k * 2 ^ F.size := by
    rw [← Nat.add_mul, ← Nat.add_mul]
    congr 1
    omega
  omega

/-! ## The shift -/

theorem wide_eq_zero_iff : a ||| b = 0 ↔ b * 2 ^ F.size + a = 0 := by
  rw [Nat.or_eq_zero_iff, Nat.add_eq_zero_iff, Nat.mul_eq_zero, or_iff_left (Nat.two_pow_pos _).ne', and_comm]

/-- Bits that are zero are shifted out first. -/
theorem jam_mul_pow (a j d : ℕ) : jam (a * 2 ^ j) (j + d) = jam a d := by
  have hdiv : a * 2 ^ j / 2 ^ (j + d) = a / 2 ^ d := by
    rw [pow_add, Nat.mul_comm a, Nat.mul_div_mul_left _ _ (Nat.two_pow_pos j)]
  have hmod : a * 2 ^ j % 2 ^ (j + d) = 0 ↔ a % 2 ^ d = 0 := by
    rw [pow_add, Nat.mul_comm a, Nat.mul_mod_mul_left, Nat.mul_eq_zero, or_iff_right (Nat.two_pow_pos j).ne']
  rw [jam_eq, jam_eq, hdiv]
  simp only [hmod]

/-- The shift keeps the bits that drop out as a sticky bit, as long as no word drops out before. -/
theorem fmaShift_jam (ha : a < 2 ^ F.size) (hb : b < 2 ^ F.size) (h : d ≤ F.size ∨ b = 0) :
    (fmaShift F a b d).2 < 2 ^ F.size ∧
      (fmaShift F a b d).1 * 2 ^ F.size + (fmaShift F a b d).2 = jam (a * 2 ^ F.size + b) d := by
  have hsize := size_eq F
  have hpos := Nat.two_pow_pos F.size
  have hone : 1 < 2 ^ F.size := Nat.one_lt_two_pow (by omega)
  have hW := wide_lt (F := F) ha hb
  unfold fmaShift
  rw [← two_mul] at hW
  split
  · next hd =>
    have hlt : a * 2 ^ F.size + b < 2 ^ d := hW.trans_le (Nat.pow_le_pow_right (by decide) hd)
    refine ⟨by split <;> omega, ?_⟩
    rw [jam, Nat.shiftRight_eq_div_pow, Nat.div_eq_of_lt hlt, Nat.mod_eq_of_lt hlt, Nat.zero_or, Nat.zero_mul, Nat.zero_add]
    simp only [ne_eq, wide_eq_zero_iff (F := F), ite_not]
  split
  · next hd =>
    obtain rfl : b = 0 := h.resolve_left (by omega)
    rw [rshiftRnd_eq ha]
    obtain ⟨k, rfl⟩ := Nat.exists_eq_add_of_le (show F.size ≤ d by omega)
    rw [Nat.add_sub_cancel_left, Nat.add_zero, jam_mul_pow]
    exact ⟨jam_lt (ha.trans_le (Nat.pow_le_pow_right (by decide) (by omega))) (by omega), by omega⟩
  split
  · next hd =>
    subst hd
    have hdiv : (a * 2 ^ F.size + b) / 2 ^ F.size = a := by
      rw [Nat.add_comm, Nat.add_mul_div_right _ _ hpos, Nat.div_eq_of_lt hb, Nat.zero_add]
    have hmod : (a * 2 ^ F.size + b) % 2 ^ F.size = b := by
      rw [Nat.add_comm, Nat.add_mul_mod_self_right, Nat.mod_eq_of_lt hb]
    rw [← sticky_word, hdiv, hmod, Nat.zero_mul, Nat.zero_add]
    refine ⟨Nat.or_lt_two_pow ha (by split <;> omega), rfl⟩
  split
  · next hd0 hd =>
    have hdlt : d < F.size := by omega
    have hmask : fUint F (1 <<< d) = 2 ^ d := by
      rw [Nat.one_shiftLeft]
      exact fUint_of_lt (Nat.pow_lt_pow_right (by decide) hdlt)
    have hjam := wide_jam (F := F) (show 0 < d by omega) hdlt a hb
    simp only [hmask, Nat.and_two_pow_sub_one_eq_mod, ne_eq, ite_not, Nat.shiftRight_eq_div_pow a] at hjam ⊢
    refine ⟨?_, hjam⟩
    refine Nat.or_lt_two_pow (Nat.or_lt_two_pow (fUint_lt F _) ?_) (by split <;> omega)
    rw [Nat.shiftRight_eq_div_pow]
    exact (Nat.div_le_self _ _).trans_lt hb
  · next hd =>
    obtain rfl : d = 0 := by omega
    exact ⟨hb, (jam_zero _).symm⟩

/-- Beyond a word the low word is left out, but a number other than zero does not become one. -/
theorem fmaShift_far (ha0 : 0 < a) (ha : a < 2 ^ (F.size - 2)) (hd : F.size < d) :
    (fmaShift F a b d).1 = 0 ∧ 0 < (fmaShift F a b d).2 ∧ (fmaShift F a b d).2 < 2 ^ (F.size - 2) := by
  have hsize := size_eq F
  have hone : 1 < 2 ^ (F.size - 2) := Nat.one_lt_two_pow (by have := F.two_le_mant; omega)
  have hword : a < 2 ^ F.size := ha.trans (Nat.pow_lt_pow_right (by decide) (by omega))
  unfold fmaShift
  split
  · rw [if_pos (by rw [ne_eq, Nat.or_eq_zero_iff]; omega)]
    exact ⟨rfl, Nat.one_pos, hone⟩
  · rw [if_pos (by omega), rshiftRnd_eq hword]
    refine ⟨rfl, Nat.pos_of_ne_zero fun h => ha0.ne' (jam_eq_zero_iff.mp h), ?_⟩
    exact jam_lt (ha.trans_le (Nat.pow_le_pow_right (by decide) (by omega))) (by have := F.two_le_mant; omega)

/-! ## Sums -/

variable {K : Type*} [Field K] [LinearOrder K] [IsStrictOrderedRing K]

/-- **The two words of a sum are exact enough.** `C` stands for `B / 2 ^ d`: exactly without a shift by more than one
    place, and up to a grid that the larger summand is on otherwise. -/
theorem fma_agrees {A B C d g : ℕ} (hA : 2 ^ (2 * F.size - 3) ≤ A) (hle : C ≤ A) (hg : g ≤ F.size + rndSize F - 3)
    (hdvd : 2 ^ g ∣ A) (hag : Agrees g (C : K) (B / 2 ^ d)) (hC : 2 ≤ d → C < 2 ^ (2 * F.size - 4))
    (hexact : d < 2 → (C : K) = B / 2 ^ d) :
    Agrees (((A + C).log2 : ℤ) - F.mantSize - 1) ((A + C : ℕ) : K) (A + B / 2 ^ d) ∧
      Agrees (((A - C).log2 : ℤ) - F.mantSize - 1) ((A - C : ℕ) : K) (A - B / 2 ^ d) := by
  have hsize := size_eq F
  have hk := four_le_rndSize F
  rcases Nat.lt_or_ge d 2 with hd | hd
  · rw [← hexact hd, Nat.cast_add, Nat.cast_sub hle]
    exact ⟨Agrees.refl _ _, Agrees.refl _ _⟩
  · have hlt := hC hd
    have hpow : 2 ^ (2 * F.size - 3) = 2 * 2 ^ (2 * F.size - 4) := by
      rw [← pow_succ']
      congr 1
      omega
    obtain ⟨n, rfl⟩ := hdvd
    have hAK : ((2 ^ g * n : ℕ) : K) = (n : ℤ) * 2 ^ (g : ℤ) := by
      rw [zpow_natCast]
      push_cast
      ring
    have hlog (m : ℕ) (h : 2 ^ (2 * F.size - 4) ≤ m) : (g : ℤ) ≤ (m.log2 : ℤ) - F.mantSize - 1 := by
      have := (Nat.le_log2 (by have := Nat.two_pow_pos (2 * F.size - 4); omega)).mpr h
      omega
    constructor
    · rw [Nat.cast_add, hAK]
      exact (hag.add_left n).mono (hlog _ (by omega))
    · rw [Nat.cast_sub hle, hAK]
      exact (hag.sub_left n).mono (hlog _ (by omega))

attribute [local instance] two_atLeastTwo in
/-- The value of two words with their exponent. -/
def FmaOperand.absVal (F : FloatFormat) (K : Type*) [Field K] (x : FmaOperand) : K :=
  x.wide F * 2 ^ (x.exp - F.bias - (F.size - 2 : ℕ) - F.size)

/-- Two words with their highest bit at its place. -/
structure FmaOperand.Normal (F : FloatFormat) (x : FmaOperand) : Prop where
  low : x.mant0 < 2 ^ F.size
  ge : 2 ^ (2 * F.size - 3) ≤ x.wide F
  lt : x.wide F < 2 ^ (2 * F.size - 2)
  dvd : 4 ∣ x.wide F

theorem FmaOperand.Normal.mant1_lt {x : FmaOperand} (h : x.Normal F) : x.mant1 < 2 ^ (F.size - 2) := by
  have hsize := size_eq F
  have := h.lt
  have hpow : 2 ^ (2 * F.size - 2) = 2 ^ (F.size - 2) * 2 ^ F.size := by
    rw [← pow_add]
    congr 1
    omega
  rw [hpow] at this
  exact Nat.lt_of_mul_lt_mul_right ((Nat.le_add_right _ _).trans_lt this)

theorem FmaOperand.Normal.mant1_pos {x : FmaOperand} (h : x.Normal F) : 0 < x.mant1 := by
  have hsize := size_eq F
  have hk := four_le_rndSize F
  by_contra hc
  have hge := h.ge
  rw [FmaOperand.wide, Nat.eq_zero_of_not_pos hc, Nat.zero_mul, Nat.zero_add] at hge
  have := Nat.pow_le_pow_right (n := 2) (by decide) (show F.size ≤ 2 * F.size - 3 by omega)
  have := h.low
  omega

/-- One of two summands may be a sum of products of significands, the other has no low word. -/
def FmaOperand.Short (F : FloatFormat) (x : FmaOperand) : Prop := x.mant0 = 0 ∧ 2 ^ (F.size + rndSize F - 3) ∣ x.wide F

/-- What the shift makes of the smaller summand. -/
theorem fmaShift_agrees {r c : FmaOperand} (hr : r.Normal F) (hc : c.Normal F) (hshort : r.Short F ∨ c.Short F) (d : ℕ) :
    let C := (fmaShift F c.mant1 c.mant0 d).1 * 2 ^ F.size + (fmaShift F c.mant1 c.mant0 d).2
    (fmaShift F c.mant1 c.mant0 d).2 < 2 ^ F.size ∧ (2 ≤ d → C < 2 ^ (2 * F.size - 4)) ∧
      (d < 2 → (C : K) = (c.wide F : K) / 2 ^ d) ∧
      ∃ g : ℕ, g ≤ F.size + rndSize F - 3 ∧ 2 ^ g ∣ r.wide F ∧ Agrees g (C : K) ((c.wide F : K) / 2 ^ d) := by
  have hsize := size_eq F
  have hk := four_le_rndSize F
  have hc1 := hc.mant1_lt
  have hc1' : c.mant1 < 2 ^ F.size := hc1.trans (Nat.pow_lt_pow_right (by decide) (by omega))
  by_cases hd : d ≤ F.size ∨ c.mant0 = 0
  · obtain ⟨hlow, hjam⟩ := fmaShift_jam hc1' hc.low hd
    rw [← FmaOperand.wide] at hjam
    dsimp only
    rw [hjam]
    refine ⟨hlow, fun h2 => ?_, fun h2 => ?_, 1, by omega, ?_, agrees_jam _ _⟩
    · refine jam_lt (hc.lt.trans_le (Nat.pow_le_pow_right (by decide) (by omega))) (by omega)
    · have hdvd : 2 ^ d ∣ c.wide F := (Nat.pow_dvd_pow 2 (show d ≤ 2 by omega)).trans hc.dvd
      rw [jam_eq, if_pos (Nat.mod_eq_zero_of_dvd hdvd), Nat.cast_div hdvd (by positivity)]
      push_cast
      rfl
    · exact (by decide : 2 ^ 1 ∣ 4).trans hr.dvd
  · -- words drop out: nothing but the grid of the larger summand is left
    rw [not_or, not_le] at hd
    obtain ⟨hhigh, hpos, hlt⟩ := fmaShift_far hc.mant1_pos hc1 hd.1 (b := c.mant0)
    have hr' : r.Short F := hshort.resolve_right fun h => hd.2 h.1
    dsimp only
    rw [hhigh, Nat.zero_mul, Nat.zero_add]
    refine ⟨hlt.trans (Nat.pow_lt_pow_right (by decide) (by omega)), fun _ => ?_, fun _ => by omega, _, le_refl _, hr'.2, ?_⟩
    · exact hlt.trans (Nat.pow_lt_pow_right (by decide) (by omega))
    · have hCK : ((fmaShift F c.mant1 c.mant0 d).2 : K) < 2 ^ ((F.size + rndSize F - 3 : ℕ) : ℤ) := by
        rw [zpow_natCast]
        exact_mod_cast hlt.trans_le (Nat.pow_le_pow_right (by decide) (by omega))
      have hcpos : (0 : K) < c.wide F := by
        have := hc.ge
        have := Nat.two_pow_pos (2 * F.size - 3)
        exact_mod_cast (by omega : 0 < c.wide F)
      have hcK : (c.wide F : K) / 2 ^ d < 2 ^ ((F.size + rndSize F - 3 : ℕ) : ℤ) := by
        rw [div_lt_iff₀ (pow_pos two_pos d), zpow_natCast, ← pow_add]
        exact_mod_cast hc.lt.trans_le (Nat.pow_le_pow_right (by decide) (by omega))
      exact agrees_of_between (by exact_mod_cast hpos) (div_pos hcpos (pow_pos two_pos d)) hCK hcK

variable [FloorRing K]

/-- **The sum of two words**, of which the first is not the smaller one. -/
theorem fmaAdd_delivers (mode : RoundingMode) {r c : FmaOperand} {s t : Bool} (hr : r.Normal F) (hc : c.Normal F)
    (hshort : r.Short F ∨ c.Short F) (hrs : r.sign = signNat s) (hcs : c.sign = signNat t) (hexp : c.exp ≤ r.exp)
    (hle : r.exp = c.exp → c.wide F ≤ r.wide F) (fl : UInt32) :
    ∃ x ex, fmaAdd F r c (RoundingMode.rm mode) fl = .ok (x, fl ||| exBits ex) ∧
      F.Delivers mode (.exactly (signed s (r.absVal F K) + signed t (c.absVal F K))
        (if s = t then s else decide (mode = .rdn))) x ex := by
  have hsize := size_eq F
  have hk := four_le_rndSize F
  obtain ⟨d, hd⟩ : ∃ d : ℕ, r.exp = c.exp + d := ⟨(r.exp - c.exp).toNat, by omega⟩
  obtain ⟨hlow, hC, hexact, g, hg, hdvd, hag⟩ := fmaShift_agrees (K := K) hr hc hshort d
  have hdiff : (r.exp - c.exp).toNat = d := by omega
  set C1 := (fmaShift F c.mant1 c.mant0 d).1 with hC1
  set C0 := (fmaShift F c.mant1 c.mant0 d).2 with hC0
  have hpow3 : 2 ^ (2 * F.size - 3) = 2 * 2 ^ (2 * F.size - 4) := by
    rw [← pow_succ']
    congr 1
    omega
  have hpow2 : 2 ^ (2 * F.size - 2) = 4 * 2 ^ (2 * F.size - 4) := by
    rw [show 4 = 2 ^ 2 from rfl, ← pow_add]
    congr 1
    omega
  have hpow1 : 2 ^ (2 * F.size - 1) = 8 * 2 ^ (2 * F.size - 4) := by
    rw [show 8 = 2 ^ 3 from rfl, ← pow_add]
    congr 1
    omega
  have hrge := hr.ge
  have hrlt := hr.lt
  have hCle : C1 * 2 ^ F.size + C0 ≤ r.wide F := by
    rcases Nat.lt_or_ge d 2 with h2 | h2
    · have hCK := hexact h2
      rw [eq_div_iff (pow_pos two_pos d).ne'] at hCK
      have hCN : (C1 * 2 ^ F.size + C0) * 2 ^ d = c.wide F := by exact_mod_cast hCK
      have hclt := hc.lt
      obtain rfl | rfl : d = 0 ∨ d = 1 := by omega
      · rw [pow_zero, Nat.mul_one] at hCN
        rw [hCN]
        exact hle (by omega)
      · rw [pow_one] at hCN
        omega
    · have := hC h2
      omega
  obtain ⟨hsum, hsub⟩ := fma_agrees (F := F) hrge hCle hg hdvd hag hC hexact
  -- the values in units of the larger summand
  have hcK : c.absVal F K = (c.wide F : K) / 2 ^ d * 2 ^ (r.exp - F.bias - (F.size - 2 : ℕ) - F.size) := by
    rw [FmaOperand.absVal, div_mul_eq_mul_div, mul_div_assoc, ← zpow_natCast, ← zpow_sub₀ two_ne_zero, hd]
    congr 2
    ring
  have hcarry : r.wide F + (C1 * 2 ^ F.size + C0) < 2 ^ (2 * F.size - 1) := by omega
  have hr1 : r.mant1 < 2 ^ (F.size - 1) := hr.mant1_lt.trans (Nat.pow_lt_pow_right (by decide) (by omega))
  rw [hcK, FmaOperand.absVal]
  unfold fmaAdd
  simp only [hdiff, ← hC1, ← hC0, hrs, hcs, signNat_inj]
  by_cases hst : s = t
  · subst hst
    obtain ⟨hadd, hhigh⟩ := wideAdd_eq hr.low hlow hcarry
    rw [if_pos rfl, if_pos rfl]
    have hv := hsum
    rw [FmaOperand.wide, ← hadd] at hv
    obtain ⟨x, ex, hx, hdel⟩ := normalize2Sf_delivers (K := K) mode s s r.exp hhigh (fUint_lt F _) hv fl
    rw [ite_self] at hx
    refine ⟨x, ex, hx, ?_⟩
    convert hdel using 2
    cases s <;> simp only [signed, if_true, Bool.false_eq_true, if_false, FmaOperand.wide] <;> ring
  · obtain ⟨hdif, hhigh⟩ := wideSub_eq hr.low hlow hr1 hCle
    rw [if_neg hst, if_neg hst]
    have hv := hsub
    rw [FmaOperand.wide, ← hdif] at hv
    obtain ⟨x, ex, hx, hdel⟩ := normalize2Sf_delivers (K := K) mode s (decide (mode = .rdn)) r.exp hhigh (fUint_lt F _) hv fl
    have hsign (p : Prop) [Decidable p] : (if p then (if RoundingMode.rm mode = rmRdn then 1 else 0) else signNat s) =
        signNat (if p then decide (mode = .rdn) else s) := by
      simp only [rm_eq_rdn]
      split
      · simp [signNat]
      · rfl
    refine ⟨x, ex, ?_, ?_⟩
    · rw [hsign]
      simp only [Nat.or_eq_zero_iff]
      exact hx
    · convert hdel using 2
      have ht : t = !s := by
        cases s <;> cases t <;> simp_all
      rw [ht]
      cases s <;> simp only [signed, if_true, Bool.false_eq_true, if_false, FmaOperand.wide, Bool.not_true, Bool.not_false] <;> ring

/-! ## Operations -/

theorem fmaProduct_wide (s : ℕ) (e e' : ℤ) {M N : ℕ} (hM : M < 2 ^ (F.mantSize + 1)) (hN : N < 2 ^ (F.mantSize + 1)) :
    let r := fmaProduct F s e e' M N
    let P := M * 2 ^ rndSize F * (N * 2 ^ rndSize F)
    r.sign = s ∧ r.mant0 < 2 ^ F.size ∧
      if P / 2 ^ F.size < 2 ^ (F.size - 3) then r.exp = e + e' - F.bias + 1 ∧ r.wide F = 2 * P
      else r.exp = e + e' - F.bias + 2 ∧ r.wide F = P := by
  have hsize := size_eq F
  have hk := four_le_rndSize F
  have hP : M * 2 ^ rndSize F * (N * 2 ^ rndSize F) < 2 ^ (2 * F.size) := by
    calc M * 2 ^ rndSize F * (N * 2 ^ rndSize F)
        < 2 ^ (F.mantSize + 1) * 2 ^ rndSize F * (2 ^ (F.mantSize + 1) * 2 ^ rndSize F) :=
          Nat.mul_lt_mul'' (Nat.mul_lt_mul_of_pos_right hM (Nat.two_pow_pos _))
            (Nat.mul_lt_mul_of_pos_right hN (Nat.two_pow_pos _))
      _ ≤ 2 ^ (2 * F.size) := by
          rw [← pow_add, ← pow_add]
          exact Nat.pow_le_pow_right (by decide) (by omega)
  have hmul := mulU_eq (F := F) hP
  rw [← fUint_shl (F := F) (k := rndSize F) hM (by omega), ← fUint_shl (F := F) (k := rndSize F) hN (by omega)] at hmul ⊢
  dsimp only
  unfold fmaProduct
  simp only [hmul, one_shl_exp, Nat.one_shiftLeft (F.size - 3)]
  set P := fUint F (M <<< rndSize F) * fUint F (N <<< rndSize F) with hPdef
  have hlow : P % 2 ^ F.size < 2 ^ F.size := Nat.mod_lt _ (Nat.two_pow_pos _)
  have hdm := Nat.div_add_mod P (2 ^ F.size)
  split
  · next h =>
    have hword : 2 ^ F.size = 2 * 2 ^ (F.size - 1) := by rw [← pow_succ', Nat.sub_add_cancel (by omega)]
    have hword3 : 2 ^ (F.size - 1) = 4 * 2 ^ (F.size - 3) := by
      rw [show 4 = 2 ^ 2 from rfl, ← pow_add]
      congr 1
      omega
    set lo := P % 2 ^ F.size with hlo
    set hi := P / 2 ^ F.size with hhi
    have hbit : lo / 2 ^ (F.size - 1) < 2 ^ 1 := Nat.div_lt_of_lt_mul (by rw [pow_one, Nat.mul_comm, ← hword]; exact hlow)
    have hshl : fUint F (hi <<< 1) = 2 ^ 1 * hi := by
      rw [Nat.shiftLeft_eq, Nat.mul_comm]
      exact fUint_of_lt (by omega)
    have hshl0 : fUint F (lo <<< 1) + lo / 2 ^ (F.size - 1) * 2 ^ F.size = 2 * lo := by
      rw [Nat.shiftLeft_eq, pow_one, fUint, hword, Nat.mul_comm lo, Nat.mul_mod_mul_left]
      have := Nat.div_add_mod lo (2 ^ (F.size - 1))
      rw [Nat.mul_left_comm, Nat.mul_comm (lo / _), ← Nat.mul_add]
      omega
    refine ⟨rfl, fUint_lt F _, by push_cast; ring, ?_⟩
    rw [FmaOperand.wide, hshl, Nat.shiftRight_eq_div_pow, ← Nat.two_pow_add_eq_or_of_lt hbit, pow_one, Nat.add_mul,
      ← hdm, Nat.mul_add, Nat.add_assoc, Nat.add_comm (_ * _) (fUint F _), hshl0]
    ring
  · refine ⟨rfl, hlow, by push_cast; ring, ?_⟩
    rw [FmaOperand.wide, Nat.mul_comm, hdm]

omit [FloorRing K] in
/-- **The product**, with its highest bit at its place. -/
theorem fmaProduct_spec (s : ℕ) (e e' : ℤ) {M N : ℕ} (hM0 : 2 ^ F.mantSize ≤ M) (hM : M < 2 ^ (F.mantSize + 1))
    (hN0 : 2 ^ F.mantSize ≤ N) (hN : N < 2 ^ (F.mantSize + 1)) :
    (fmaProduct F s e e' M N).sign = s ∧ (fmaProduct F s e e' M N).Normal F ∧
      (fmaProduct F s e e' M N).absVal F K =
        M * 2 ^ (e - F.bias - F.mantSize) * (N * 2 ^ (e' - F.bias - F.mantSize)) := by
  have hsize := size_eq F
  have hk := four_le_rndSize F
  obtain ⟨hs, hlow, hW⟩ := fmaProduct_wide (F := F) s e e' hM hN
  set r := fmaProduct F s e e' M N
  set P := M * 2 ^ rndSize F * (N * 2 ^ rndSize F) with hP
  have hP0 : 2 ^ (2 * F.size - 4) ≤ P := by
    calc 2 ^ (2 * F.size - 4) = 2 ^ F.mantSize * 2 ^ rndSize F * (2 ^ F.mantSize * 2 ^ rndSize F) := by
          rw [← pow_add, ← pow_add]
          congr 1
          omega
      _ ≤ P := Nat.mul_le_mul (Nat.mul_le_mul_right _ hM0) (Nat.mul_le_mul_right _ hN0)
  have hP1 : P < 2 ^ (2 * F.size - 2) := by
    calc P < 2 ^ (F.mantSize + 1) * 2 ^ rndSize F * (2 ^ (F.mantSize + 1) * 2 ^ rndSize F) :=
          Nat.mul_lt_mul'' (Nat.mul_lt_mul_of_pos_right hM (Nat.two_pow_pos _))
            (Nat.mul_lt_mul_of_pos_right hN (Nat.two_pow_pos _))
      _ = 2 ^ (2 * F.size - 2) := by
          rw [← pow_add, ← pow_add]
          congr 1
          omega
  have hdvd : 4 ∣ P := by
    have h4 : 4 ∣ 2 ^ rndSize F := Nat.pow_dvd_pow 2 (show 2 ≤ rndSize F by omega)
    exact Dvd.dvd.mul_right (Dvd.dvd.mul_left h4 M) _
  have hhalf : P / 2 ^ F.size < 2 ^ (F.size - 3) ↔ P < 2 ^ (2 * F.size - 3) := by
    rw [Nat.div_lt_iff_lt_mul (Nat.two_pow_pos _), ← pow_add, show F.size - 3 + F.size = 2 * F.size - 3 by omega]
  have hpow3 : 2 ^ (2 * F.size - 3) = 2 * 2 ^ (2 * F.size - 4) := by
    rw [← pow_succ']
    congr 1
    omega
  have hpow2 : 2 ^ (2 * F.size - 2) = 2 * 2 ^ (2 * F.size - 3) := by
    rw [← pow_succ']
    congr 1
    omega
  have hval : (P : K) * 2 ^ (e + e' - F.bias + 2 - F.bias - (F.size - 2 : ℕ) - F.size) =
      M * 2 ^ (e - F.bias - F.mantSize) * (N * 2 ^ (e' - F.bias - F.mantSize)) := by
    have hexp : (2 : K) ^ rndSize F * 2 ^ rndSize F * 2 ^ (e + e' - F.bias + 2 - F.bias - (F.size - 2 : ℕ) - F.size) =
        2 ^ (e - F.bias - F.mantSize) * 2 ^ (e' - F.bias - F.mantSize) := by
      rw [← zpow_natCast, ← zpow_add₀ two_ne_zero, ← zpow_add₀ two_ne_zero, ← zpow_add₀ two_ne_zero]
      congr 1
      omega
    rw [hP, Nat.cast_mul, Nat.cast_mul, Nat.cast_mul, Nat.cast_pow, Nat.cast_ofNat]
    linear_combination ((M : K) * N) * hexp
  simp only [hhalf] at hW
  split at hW
  · next h =>
    refine ⟨hs, ⟨hlow, by omega, by omega, hW.2 ▸ Dvd.dvd.mul_left hdvd 2⟩, ?_⟩
    rw [FmaOperand.absVal, hW.1, hW.2, ← hval, show e + e' - (F.bias : ℤ) + 2 - F.bias - (F.size - 2 : ℕ) - F.size =
      e + e' - F.bias + 1 - F.bias - (F.size - 2 : ℕ) - F.size + 1 by ring, zpow_add_one₀ two_ne_zero]
    push_cast
    ring
  · next h =>
    refine ⟨hs, ⟨hlow, by omega, by omega, hW.2 ▸ hdvd⟩, ?_⟩
    rw [FmaOperand.absVal, hW.1, hW.2, hval]

/-- The third operand as two words. -/
def fmaAddend (F : FloatFormat) (s : ℕ) (e : ℤ) (M : ℕ) : FmaOperand := ⟨s, e + 1, fUint F (M <<< (rndSize F - 1)), 0⟩

omit [FloorRing K] in
theorem fmaAddend_spec (s : ℕ) (e : ℤ) {M : ℕ} (hM0 : 2 ^ F.mantSize ≤ M) (hM : M < 2 ^ (F.mantSize + 1)) :
    (fmaAddend F s e M).Normal F ∧ (fmaAddend F s e M).Short F ∧
      (fmaAddend F s e M).absVal F K = M * 2 ^ (e - F.bias - F.mantSize) := by
  have hsize := size_eq F
  have hk := four_le_rndSize F
  have hW : (fmaAddend F s e M).wide F = M * 2 ^ (rndSize F - 1) * 2 ^ F.size := by
    rw [FmaOperand.wide, fmaAddend, fUint_shl (F := F) hM (by omega), Nat.add_zero]
  have hgrid : 2 ^ (F.size + rndSize F - 3) ∣ M * 2 ^ (rndSize F - 1) * 2 ^ F.size := by
    rw [Nat.mul_assoc, ← pow_add]
    exact Dvd.dvd.mul_left (Nat.pow_dvd_pow 2 (by omega)) M
  refine ⟨⟨Nat.two_pow_pos _, ?_, ?_, ?_⟩, ⟨rfl, hW ▸ hgrid⟩, ?_⟩
  · rw [hW]
    calc 2 ^ (2 * F.size - 3) = 2 ^ F.mantSize * 2 ^ (rndSize F - 1) * 2 ^ F.size := by
          rw [← pow_add, ← pow_add]
          congr 1
          omega
      _ ≤ M * 2 ^ (rndSize F - 1) * 2 ^ F.size := Nat.mul_le_mul_right _ (Nat.mul_le_mul_right _ hM0)
  · rw [hW]
    calc M * 2 ^ (rndSize F - 1) * 2 ^ F.size < 2 ^ (F.mantSize + 1) * 2 ^ (rndSize F - 1) * 2 ^ F.size :=
          Nat.mul_lt_mul_of_pos_right (Nat.mul_lt_mul_of_pos_right hM (Nat.two_pow_pos _)) (Nat.two_pow_pos _)
      _ = 2 ^ (2 * F.size - 2) := by
          rw [← pow_add, ← pow_add]
          congr 1
          omega
  · rw [hW]
    exact (Nat.pow_dvd_pow 2 (show 2 ≤ F.size + rndSize F - 3 by omega)).trans hgrid
  · have hexp : (2 : K) ^ (rndSize F - 1) * 2 ^ F.size * 2 ^ (e + 1 - F.bias - (F.size - 2 : ℕ) - F.size) =
        2 ^ (e - F.bias - F.mantSize) := by
      rw [← zpow_natCast, ← zpow_natCast, ← zpow_add₀ two_ne_zero, ← zpow_add₀ two_ne_zero]
      congr 1
      omega
    rw [FmaOperand.absVal, hW, ← hexp, Nat.cast_mul, Nat.cast_mul, Nat.cast_pow, Nat.cast_pow, Nat.cast_ofNat, fmaAddend]
    ring

/-- The sum in either order. -/
theorem fmaAdd_ordered (mode : RoundingMode) {r c : FmaOperand} {s t : Bool} (hr : r.Normal F) (hc : c.Normal F)
    (hshort : c.Short F) (hrs : r.sign = signNat s) (hcs : c.sign = signNat t) (fl : UInt32) :
    ∃ x ex, (if c.exp < r.exp ∨ (r.exp = c.exp ∧ c.mant1 ≤ r.mant1) then fmaAdd F r c (RoundingMode.rm mode) fl
        else fmaAdd F c r (RoundingMode.rm mode) fl) = .ok (x, fl ||| exBits ex) ∧
      F.Delivers mode (.exactly (signed s (r.absVal F K) + signed t (c.absVal F K))
        (if s = t then s else decide (mode = .rdn))) x ex := by
  split
  · next h =>
    refine fmaAdd_delivers mode hr hc (.inr hshort) hrs hcs (by omega) (fun heq => ?_) fl
    have hle : c.mant1 ≤ r.mant1 := (h.resolve_left (by omega)).2
    have := Nat.mul_le_mul_right (2 ^ F.size) hle
    rw [FmaOperand.wide, FmaOperand.wide, hshort.1]
    omega
  · next h =>
    rw [not_or, not_lt, not_and, not_le] at h
    have hcomm : (if s = t then s else decide (mode = .rdn)) = if t = s then t else decide (mode = .rdn) := by
      by_cases hst : s = t
      · rw [if_pos hst, if_pos hst.symm, hst]
      · rw [if_neg hst, if_neg (Ne.symm hst)]
    rw [add_comm, hcomm]
    refine fmaAdd_delivers mode hc hr (.inl hshort) hcs hrs h.1 (fun heq => ?_) fl
    have hlt := h.2 heq.symm
    have := Nat.mul_le_mul_right (2 ^ F.size) (show r.mant1 + 1 ≤ c.mant1 from hlt)
    have := hr.low
    rw [Nat.add_mul, Nat.one_mul] at *
    rw [FmaOperand.wide, FmaOperand.wide]
    omega

/-- **Finite operands.** -/
theorem fmaSf_finite (mode : RoundingMode) (ha : a < 2 ^ F.size) (hb : b < 2 ^ F.size) (hc : c < 2 ^ F.size)
    (hfa : F.IsFinite a) (hfb : F.IsFinite b) (hfc : F.IsFinite c) (fl : UInt32) :
    ∃ r ex, fmaSf F a b c (RoundingMode.rm mode) fl = .ok (r, fl ||| exBits ex) ∧
      F.Delivers mode (.exactly (F.value a * F.value b + F.value c : K)
        (if (F.neg a ^^ F.neg b) = F.neg c then (F.neg a ^^ F.neg b) else decide (mode = .rdn))) r ex := by
  have hsize := size_eq F
  have hk := four_le_rndSize F
  have hna : ¬ sfExp F a = F.expMask := by rwa [sfExp_eq]
  have hnb : ¬ sfExp F b = F.expMask := by rwa [sfExp_eq]
  have hnc : ¬ sfExp F c = F.expMask := by rwa [sfExp_eq]
  unfold fmaSf
  simp only [hna, hnb, hnc, or_self, if_false, isZero_iff, sfSign_eq ha, sfSign_eq hb, sfSign_eq hc, signNat_xor]
  set s := (F.neg a ^^ F.neg b) with hs
  by_cases hz : F.IsZero a ∨ F.IsZero b
  · have hzero : (F.value a * F.value b : K) = 0 := by
      rw [mul_eq_zero, value_eq_zero_iff, value_eq_zero_iff]
      exact hz
    rw [if_pos hz, hzero, zero_add]
    by_cases hzc : F.IsZero c
    · have hsign : (if signNat (F.neg c) ≠ signNat s then (if RoundingMode.rm mode = rmRdn then 1 else 0) else signNat s) =
          signNat (if s = F.neg c then s else decide (mode = .rdn)) := by
        simp only [ne_eq, signNat_inj, ite_not, rm_eq_rdn]
        by_cases h : F.neg c = s
        · rw [if_pos h, if_pos h.symm]
        · rw [if_neg h, if_neg (Ne.symm h)]
          simp [signNat]
      rw [if_pos hzc, hsign, signBit_eq_pack, FloatResult.exactly, if_pos ((value_eq_zero_iff c).mpr hzc)]
      exact ⟨_, {}, by rw [← exBits_none], rfl, rfl⟩
    · rw [if_neg hzc, FloatResult.exactly, if_neg (mt (value_eq_zero_iff c).mp hzc)]
      exact ⟨c, {}, by rw [← exBits_none], rounds_self mode hc hfc hzc⟩
  · rw [if_neg hz]
    rw [not_or] at hz
    obtain ⟨e, M, heM, hM0, hM1, hM⟩ := normalOperand_spec (K := K) hz.1
    obtain ⟨e', N, heN, hN0, hN1, hN⟩ := normalOperand_spec (K := K) hz.2
    obtain ⟨hrs, hr, hrK⟩ := fmaProduct_spec (K := K) (signNat s) e e' hM0 hM1 hN0 hN1
    rw [← hM, ← hN] at hrK
    simp only [heM, heN]
    set r := fmaProduct F (signNat s) e e' M N with hrdef
    have hprod : (F.value a * F.value b : K) = signed s (r.absVal F K) := by rw [value_mul, hrK]
    rw [hprod]
    by_cases hzc : F.IsZero c
    · -- a product only
      have hdiv : r.wide F / 2 ^ F.size = r.mant1 := by
        rw [FmaOperand.wide, Nat.add_comm, Nat.add_mul_div_right _ _ (Nat.two_pow_pos _), Nat.div_eq_of_lt hr.low, Nat.zero_add]
      have hmod : r.wide F % 2 ^ F.size = r.mant0 := by
        rw [FmaOperand.wide, Nat.add_comm, Nat.add_mul_mod_self_right, Nat.mod_eq_of_lt hr.low]
      have hsticky := sticky_word (F := F) (r.wide F)
      rw [hdiv, hmod] at hsticky
      have hW0 : 2 ^ (F.size - 3 + F.size) ≤ r.wide F := by
        rw [show F.size - 3 + F.size = 2 * F.size - 3 by omega]
        exact hr.ge
      have hW1 : r.wide F < 2 ^ (F.size - 1 + F.size) := hr.lt.trans_le (Nat.pow_le_pow_right (by decide) (by omega))
      obtain ⟨x, ex, hx, hround⟩ := normalizeSf_sticky (K := K) mode s r.exp (jam_low hW0) (jam_lt hW1 (by omega))
        (agrees_jam (r.wide F) F.size) fl
      have hne : signed s (r.absVal F K) ≠ 0 := by
        rw [← hprod, mul_ne_zero_iff, ne_eq, value_eq_zero_iff, ne_eq, value_eq_zero_iff]
        exact hz
      rw [if_pos hzc, hrs, hsticky, (value_eq_zero_iff c).mpr hzc, add_zero, FloatResult.exactly, if_neg hne]
      rw [div_mul_eq_mul_div, mul_div_assoc, ← zpow_natCast, ← zpow_sub₀ two_ne_zero] at hround
      exact ⟨x, ex, hx, hround⟩
    · obtain ⟨e'', L, heL, hL0, hL1, hL⟩ := normalOperand_spec (K := K) hzc
      obtain ⟨hcn, hcs, hcK⟩ := fmaAddend_spec (F := F) (K := K) (signNat (F.neg c)) e'' hL0 hL1
      rw [← hL] at hcK
      rw [if_neg hzc, heL, FloatFormat.value, ← hcK]
      exact fmaAdd_ordered mode hr hcn hcs hrs rfl fl

/-- **`fma_sf` delivers the product and the sum**, rounded once. -/
theorem fmaSf_delivers (mode : RoundingMode) (ha : a < 2 ^ F.size) (hb : b < 2 ^ F.size) (hc : c < 2 ^ F.size)
    (fl : UInt32) :
    ∃ r ex, fmaSf F a b c (RoundingMode.rm mode) fl = .ok (r, fl ||| exBits ex) ∧
      F.Delivers mode (F.fmaSpec K mode a b c) r ex := by
  by_cases hfin : F.IsFinite a ∧ F.IsFinite b ∧ F.IsFinite c
  · obtain ⟨hfa, hfb, hfc⟩ := hfin
    have hia := not_inf_of_finite hfa
    have hib := not_inf_of_finite hfb
    have hic := not_inf_of_finite hfc
    have hspec : F.fmaSpec K mode a b c = .exactly (F.value a * F.value b + F.value c)
        (if (F.neg a ^^ F.neg b) = F.neg c then (F.neg a ^^ F.neg b) else decide (mode = .rdn)) := by
      unfold fmaSpec
      simp only [not_nan_of_finite hfa, not_nan_of_finite hfb, not_nan_of_finite hfc, hia, hib, hic, false_and, or_self,
        if_false]
    rw [hspec]
    exact fmaSf_finite mode ha hb hc hfa hfb hfc fl
  · have hexp : sfExp F a = F.expMask ∨ sfExp F b = F.expMask ∨ sfExp F c = F.expMask := by
      rw [sfExp_eq, sfExp_eq, sfExp_eq]
      unfold FloatFormat.IsFinite at hfin
      tauto
    unfold fmaSf fmaSpec
    simp only [hexp, if_true, isnanSf_eq, issignanSf_eq, decide_eq_true_eq, isZero_iff, sfSign_eq ha, sfSign_eq hb,
      sfSign_eq hc, signNat_xor, packSf_inf, fQnan_eq]
    by_cases hn : F.IsNan a ∨ F.IsNan b ∨ F.IsNan c
    · rw [if_pos hn, if_pos hn, invalidIf_eq]
      exact ⟨_, _, rfl, rfl, by simp⟩
    · rw [if_neg hn, if_neg hn]
      rw [not_or, not_or] at hn
      rw [inf_iff hn.1, inf_iff hn.2.1, inf_iff hn.2.2] at hexp
      simp only [inf_iff hn.1, inf_iff hn.2.1, inf_iff hn.2.2, ne_eq, signNat_inj]
      set s := (F.neg a ^^ F.neg b)
      by_cases hinv : (F.IsInf a ∧ F.IsZero b) ∨ (F.IsInf b ∧ F.IsZero a)
      · rw [if_pos (hinv.elim .inl fun h => .inr (.inl h)), if_pos hinv]
        exact ⟨_, { invalid := true }, by rw [exBits_invalid], rfl, rfl⟩
      · rw [if_neg hinv]
        by_cases hprod : F.IsInf a ∨ F.IsInf b
        · rw [if_pos hprod]
          by_cases hopp : F.IsInf c ∧ ¬ s = F.neg c
          · rw [if_pos (.inr (.inr ⟨hprod, hopp⟩)), if_pos hopp]
            exact ⟨_, { invalid := true }, by rw [exBits_invalid], rfl, rfl⟩
          · rw [if_neg (by rintro (h | h | h); exacts [hinv (.inl h), hinv (.inr h), hopp h.2]), if_neg hopp]
            refine ⟨F.signBit s + F.infMag, {}, ?_, rfl, rfl⟩
            rw [← exBits_none]
            split
            · next hi =>
              have : s = F.neg c := by_contra fun hne => hopp ⟨hi, hne⟩
              rw [this]
            · rfl
        · have hic : F.IsInf c := (hexp.resolve_left fun h => hprod (.inl h)).resolve_left fun h => hprod (.inr h)
          rw [if_neg (by rintro (h | h | h); exacts [hinv (.inl h), hinv (.inr h), hprod h.1]), if_neg hprod, if_pos hic,
            if_pos hic]
          exact ⟨_, {}, by rw [← exBits_none], rfl, rfl⟩

end HadBadge
