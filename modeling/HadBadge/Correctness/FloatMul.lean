import HadBadge.Correctness.FloatAdd
import Mathlib.Tactic.LinearCombination

/-!
# `Correctness.FloatMul`: products, quotients and square roots

`mul_sf`, `div_sf` and `sqrt_sf` deliver the rounded product, quotient and square root of any patterns. Each takes
its operands to significands of full length first; the integer product, quotient or root then has more bits than the
format, and a sticky bit stands for what the integer operation leaves over.

## Contents
- **Operands.** `normalOperand_spec`: a finite number other than zero, subnormal or not.
- **Sticky mantissas.** `normalizeSf_sticky`.
- **Operations.** `mulSf_delivers`, `divSf_delivers`, `sqrtLoop_eq`, `sqrtSf_delivers`.
-/

namespace HadBadge

open Lib Lib.FloatFormat

variable {F : FloatFormat} {a b m : ℕ}
variable {K : Type*} [Field K]

/-! ## Operands -/

theorem one_shl_exp (F : FloatFormat) : 1 <<< (F.expSize - 1) = F.bias + 1 := by
  rw [Nat.one_shiftLeft, bias, Nat.sub_add_cancel Nat.one_le_two_pow]

/-- A mantissa with bits below it. -/
theorem fUint_shl {j k : ℕ} (hm : m < 2 ^ j) (h : j + k ≤ F.size) : fUint F (m <<< k) = m * 2 ^ k := by
  rw [Nat.shiftLeft_eq]
  refine fUint_of_lt (lt_of_lt_of_le ?_ (Nat.pow_le_pow_right (by decide) h))
  rw [pow_add]
  exact Nat.mul_lt_mul_of_pos_right hm (Nat.two_pow_pos k)

theorem signed_mul (s t : Bool) (x y : K) : signed s x * signed t y = signed (s ^^ t) (x * y) := by
  cases s <;> cases t <;> simp [signed]

theorem value_mul (F : FloatFormat) (a b : ℕ) :
    (F.value a * F.value b : K) = signed (F.neg a ^^ F.neg b) (F.absVal a * F.absVal b) := signed_mul _ _ _ _

variable [LinearOrder K] [IsStrictOrderedRing K]

/-- **An operand other than zero** has a significand of full length, with an exponent that may be below the ones of
    the format. -/
theorem normalOperand_spec (hz : ¬ F.IsZero a) :
    ∃ e M, normalOperand F (sfExp F a) (sfMant F a) = (e, M) ∧ 2 ^ F.mantSize ≤ M ∧ M < 2 ^ (F.mantSize + 1) ∧
      (F.absVal a : K) = M * 2 ^ (e - F.bias - F.mantSize) := by
  have hsize := size_eq F
  have hk := four_le_rndSize F
  have hm := mantOf_lt F a
  unfold normalOperand
  rw [sfExp_eq, sfMant_eq]
  split
  · next h0 =>
    have hm0 : 0 < F.mantOf a := Nat.pos_of_ne_zero fun h => hz ⟨h0, h⟩
    obtain ⟨hlo, hhi⟩ := log2_bounds hm0
    have hlog := log2_lt_of_lt hm0 hm
    set n := F.mantSize - (F.mantOf a).log2 with hn
    have hshift : (F.mantSize : ℤ) - ((F.size : ℤ) - 1 - clz F.size (F.mantOf a)) = n := by
      rw [clz, if_neg hm0.ne']
      omega
    have hM0 : 2 ^ F.mantSize ≤ F.mantOf a * 2 ^ n := by
      calc 2 ^ F.mantSize = 2 ^ (F.mantOf a).log2 * 2 ^ n := by rw [← pow_add]; congr 1; omega
        _ ≤ F.mantOf a * 2 ^ n := Nat.mul_le_mul_right _ hlo
    have hM1 : F.mantOf a * 2 ^ n < 2 ^ (F.mantSize + 1) := by
      calc F.mantOf a * 2 ^ n < 2 ^ ((F.mantOf a).log2 + 1) * 2 ^ n :=
            Nat.mul_lt_mul_of_pos_right hhi (Nat.two_pow_pos n)
        _ = 2 ^ (F.mantSize + 1) := by rw [← pow_add]; congr 1; omega
    refine ⟨1 - n, F.mantOf a * 2 ^ n, ?_, hM0, hM1, ?_⟩
    · unfold normalizeSubnormalSf
      simp only [hshift, Int.toNat_natCast, fUint_shl (F := F) (k := n) hhi (by omega)]
    · unfold absVal sig eexp
      rw [if_pos h0, h0, Nat.zero_max]
      push_cast
      rw [mul_assoc, ← zpow_natCast (2 : K) n, ← zpow_add₀ two_ne_zero]
      congr 2
      ring
  · next h0 =>
    have hone : fUint F (1 <<< F.mantSize) = 2 ^ F.mantSize := by
      rw [Nat.one_shiftLeft]
      exact fUint_of_lt (Nat.pow_lt_pow_right (by decide) (by omega))
    have hor := Nat.two_pow_add_eq_or_of_lt hm 1
    rw [Nat.mul_one] at hor
    refine ⟨F.expOf a, F.sig a, ?_, ?_, F.sig_lt a, ?_⟩
    · rw [hone, Nat.or_comm, ← hor, sig, if_neg h0]
    · rw [sig, if_neg h0]
      exact Nat.le_add_right _ _
    · unfold absVal eexp
      rw [Nat.max_eq_left (by omega)]

/-! ## Sticky mantissas -/

variable [FloorRing K]

/-- **A mantissa with a sticky bit**, at most one place short of its full length. -/
theorem normalizeSf_sticky (mode : RoundingMode) (s : Bool) (e : ℤ) (h0 : 2 ^ (F.size - 3) ≤ m)
    (h1 : m < 2 ^ (F.size - 1)) {v : K} (hv : Agrees 1 (m : K) v) (fl : UInt32) :
    ∃ r ex, normalizeSf F (signNat s) e m (RoundingMode.rm mode) fl = .ok (r, fl ||| exBits ex) ∧
      F.Rounds mode (signed s (v * 2 ^ (e - F.bias - (F.size - 2 : ℕ)))) r ex := by
  have hsize := size_eq F
  have hk := four_le_rndSize F
  have hpos : 0 < m := (Nat.two_pow_pos _).trans_le h0
  have hlog := (Nat.le_log2 hpos.ne').mpr h0
  have hvpos : 0 < v := hv.pos_iff.mp (by exact_mod_cast hpos)
  obtain ⟨r, ex, hr, hm⟩ := normalizeSf_rounds mode s e hpos h1 (hv.mono (by omega)) fl
  exact ⟨_, ex, hr, rounds_of_mag s (mul_pos hvpos (zpow_pos two_pos _)) hm⟩

/-! ## Products -/

theorem mulU_eq {x y : ℕ} (h : x * y < 2 ^ (2 * F.size)) :
    mulU F x y = (x * y / 2 ^ F.size, x * y % 2 ^ F.size) := by
  unfold mulU
  simp only [Nat.mod_eq_of_lt h]
  rw [Nat.shiftRight_eq_div_pow, fUint_of_lt (Nat.div_lt_of_lt_mul (by rwa [← pow_add, ← two_mul]))]
  rfl

/-- A word with the sticky bit of the word below. -/
theorem sticky_word (W : ℕ) :
    (W / 2 ^ F.size ||| (if W % 2 ^ F.size ≠ 0 then 1 else 0)) = jam W F.size := by
  unfold jam
  rw [Nat.shiftRight_eq_div_pow]
  simp only [ne_eq, ite_not]

theorem jam_low {W d n : ℕ} (h : 2 ^ (n + d) ≤ W) : 2 ^ n ≤ jam W d := by
  refine le_trans ?_ (le_jam W d)
  rwa [Nat.le_div_iff_mul_le (Nat.two_pow_pos d), ← pow_add]

/-- **The product of numbers other than zero.** -/
theorem mulSf_finite (mode : RoundingMode) (ha : a < 2 ^ F.size) (hb : b < 2 ^ F.size) (hfa : F.IsFinite a)
    (hfb : F.IsFinite b) (hza : ¬ F.IsZero a) (hzb : ¬ F.IsZero b) (fl : UInt32) :
    ∃ r ex, mulSf F a b (RoundingMode.rm mode) fl = .ok (r, fl ||| exBits ex) ∧
      F.Rounds mode (F.value a * F.value b : K) r ex := by
  have hsize := size_eq F
  have hk := four_le_rndSize F
  obtain ⟨e, M, heM, hM0, hM1, hM⟩ := normalOperand_spec (K := K) hza
  obtain ⟨e', N, heN, hN0, hN1, hN⟩ := normalOperand_spec (K := K) hzb
  set W := M * 2 ^ rndSize F * (N * 2 ^ (rndSize F + 1)) with hW
  have hW0 : 2 ^ (F.size - 3 + F.size) ≤ W := by
    calc 2 ^ (F.size - 3 + F.size) = 2 ^ F.mantSize * 2 ^ rndSize F * (2 ^ F.mantSize * 2 ^ (rndSize F + 1)) := by
          rw [← pow_add, ← pow_add, ← pow_add]
          congr 1
          omega
      _ ≤ W := Nat.mul_le_mul (Nat.mul_le_mul_right _ hM0) (Nat.mul_le_mul_right _ hN0)
  have hW1 : W < 2 ^ (F.size - 1 + F.size) := by
    calc W < 2 ^ (F.mantSize + 1) * 2 ^ rndSize F * (2 ^ (F.mantSize + 1) * 2 ^ (rndSize F + 1)) :=
          Nat.mul_lt_mul'' (Nat.mul_lt_mul_of_pos_right hM1 (Nat.two_pow_pos _))
            (Nat.mul_lt_mul_of_pos_right hN1 (Nat.two_pow_pos _))
      _ = 2 ^ (F.size - 1 + F.size) := by
          rw [← pow_add, ← pow_add, ← pow_add]
          congr 1
          omega
  obtain ⟨r, ex, hr, hround⟩ := normalizeSf_sticky (K := K) mode (F.neg a ^^ F.neg b) (e + e' - (F.bias + 1 : ℕ) + 2)
    (jam_low hW0) (jam_lt hW1 (by omega)) (agrees_jam W F.size) fl
  refine ⟨r, ex, ?_, ?_⟩
  · unfold mulSf
    have hna : ¬ sfExp F a = F.expMask := by rwa [sfExp_eq]
    have hnb : ¬ sfExp F b = F.expMask := by rwa [sfExp_eq]
    simp only [hna, hnb, or_self, if_false, isZero_iff, hza, hzb, heM, heN, one_shl_exp, sfSign_eq ha, sfSign_eq hb,
      signNat_xor, fUint_shl (F := F) hM1 (show F.mantSize + 1 + rndSize F ≤ F.size by omega),
      fUint_shl (F := F) hN1 (show F.mantSize + 1 + (rndSize F + 1) ≤ F.size by omega),
      mulU_eq (F := F) (hW1.trans_le (Nat.pow_le_pow_right (by decide) (by omega))), ← hW, sticky_word, hr]
  · convert hround using 1
    rw [value_mul, hM, hN, hW]
    congr 1
    have hexp : (2 : K) ^ (e + e' - (F.bias + 1 : ℕ) + 2 - F.bias - (F.size - 2 : ℕ)) * 2 ^ rndSize F * 2 ^ (rndSize F + 1)
        = 2 ^ (e - F.bias - F.mantSize) * 2 ^ (e' - F.bias - F.mantSize) * 2 ^ F.size := by
      rw [← zpow_natCast, ← zpow_natCast, ← zpow_natCast, ← zpow_add₀ two_ne_zero, ← zpow_add₀ two_ne_zero,
        ← zpow_add₀ two_ne_zero, ← zpow_add₀ two_ne_zero]
      congr 1
      push_cast
      omega
    have hS : (2 : K) ^ F.size ≠ 0 := (pow_pos two_pos _).ne'
    rw [div_mul_eq_mul_div, eq_div_iff hS, Nat.cast_mul, Nat.cast_mul, Nat.cast_mul, Nat.cast_pow, Nat.cast_pow,
      Nat.cast_ofNat]
    linear_combination (-(M : K) * N) * hexp

/-- **`mul_sf` delivers the product.** -/
theorem mulSf_delivers (mode : RoundingMode) (ha : a < 2 ^ F.size) (hb : b < 2 ^ F.size) (fl : UInt32) :
    ∃ r ex, mulSf F a b (RoundingMode.rm mode) fl = .ok (r, fl ||| exBits ex) ∧
      F.Delivers mode (F.mulSpec K a b) r ex := by
  by_cases hfin : F.IsFinite a ∧ F.IsFinite b
  · obtain ⟨hfa, hfb⟩ := hfin
    have hspec : F.mulSpec K a b = .exactly (F.value a * F.value b) (F.neg a ^^ F.neg b) := by
      unfold mulSpec
      rw [if_neg (by simp [not_nan_of_finite hfa, not_nan_of_finite hfb]),
        if_neg (by simp [not_inf_of_finite hfa, not_inf_of_finite hfb]),
        if_neg (by simp [not_inf_of_finite hfa, not_inf_of_finite hfb])]
    have hna : ¬ sfExp F a = F.expMask := by rwa [sfExp_eq]
    have hnb : ¬ sfExp F b = F.expMask := by rwa [sfExp_eq]
    rw [hspec]
    by_cases hz : F.IsZero a ∨ F.IsZero b
    · have hzero : (F.value a * F.value b : K) = 0 := by
        rw [mul_eq_zero, value_eq_zero_iff, value_eq_zero_iff]
        exact hz
      refine ⟨F.signBit (F.neg a ^^ F.neg b), {}, ?_, ?_⟩
      · unfold mulSf
        simp only [hna, hnb, or_self, if_false, isZero_iff, sfSign_eq ha, sfSign_eq hb, signNat_xor, signBit_eq_pack]
        rw [← exBits_none]
        rcases hz with h | h
        · rw [if_pos h]
        · simp only [h, if_true, ite_self]
      · rw [FloatResult.exactly, if_pos hzero]
        exact ⟨rfl, rfl⟩
    · rw [not_or] at hz
      rw [FloatResult.exactly, if_neg (by simp [value_eq_zero_iff, hz.1, hz.2])]
      exact mulSf_finite mode ha hb hfa hfb hz.1 hz.2 fl
  · have hexp : sfExp F a = F.expMask ∨ sfExp F b = F.expMask := by
      rw [sfExp_eq, sfExp_eq]
      unfold FloatFormat.IsFinite at hfin
      tauto
    unfold mulSf mulSpec
    simp only [hexp, if_true, isnanSf_eq, issignanSf_eq, decide_eq_true_eq, isZero_iff, sfSign_eq ha, sfSign_eq hb,
      signNat_xor, packSf_inf, fQnan_eq]
    by_cases hn : F.IsNan a ∨ F.IsNan b
    · rw [if_pos hn, if_pos hn, invalidIf_eq]
      exact ⟨_, _, rfl, rfl, by simp⟩
    · rw [not_or] at hn
      rw [inf_iff hn.1, inf_iff hn.2] at hexp
      simp only [hn, or_self, if_false, inf_iff hn.1, inf_iff hn.2]
      split
      · exact ⟨_, { invalid := true }, by rw [exBits_invalid], rfl, rfl⟩
      · exact ⟨_, {}, by rw [← exBits_none], rfl, rfl⟩

/-! ## Quotients -/

/-- A quotient with a remainder. -/
theorem divremU_eq {d : ℕ} (hd : 0 < d) (hd1 : d < 2 ^ F.size) (hq : m * 2 ^ F.size / d < 2 ^ F.size) :
    divremU F m 0 d = (m * 2 ^ F.size / d, m * 2 ^ F.size % d) := by
  unfold divremU
  simp only [Nat.or_zero, Nat.shiftLeft_eq]
  rw [fUint_of_lt hq, fUint_of_lt ((Nat.mod_lt _ hd).trans hd1)]

/-- The integer part of a quotient, with a sticky bit for the remainder. -/
theorem agrees_quotient {n d : ℕ} (hd : 0 < d) :
    Agrees (K := K) 1 ((if n % d ≠ 0 then n / d ||| 1 else n / d : ℕ) : K) (n / d) := by
  have hdK : (0 : K) < d := by exact_mod_cast hd
  have hsplit : (n : K) = d * (n / d : ℕ) + (n % d : ℕ) := by exact_mod_cast (Nat.div_add_mod n d).symm
  have hq : (n / d : K) = (n / d : ℕ) + ((n % d : ℕ) : K) / d := by
    conv_lhs => rw [hsplit]
    rw [add_div, mul_div_cancel_left₀ _ hdK.ne']
  have hfrac : ((n % d : ℕ) : K) / d < 1 := (div_lt_one hdK).mpr (by exact_mod_cast Nat.mod_lt n hd)
  refine agrees_sticky ?_ ?_ ?_
  · rw [hq]
    exact le_add_of_nonneg_right (div_nonneg (Nat.cast_nonneg _) hdK.le)
  · rw [hq]
    linarith
  · rw [hq, ne_eq, ne_eq, left_eq_add, div_eq_zero_iff, or_iff_left hdK.ne', Nat.cast_eq_zero]

omit [LinearOrder K] [IsStrictOrderedRing K] [FloorRing K] in
theorem value_div (F : FloatFormat) (a b : ℕ) :
    (F.value a / F.value b : K) = signed (F.neg a ^^ F.neg b) (F.absVal a / F.absVal b) := by
  unfold value
  cases F.neg a <;> cases F.neg b <;> simp [signed, div_neg, neg_div]

theorem or_one_lt {n q : ℕ} (h : q < 2 ^ n) (hn : 1 ≤ n) : q ||| 1 < 2 ^ n :=
  Nat.or_lt_two_pow h (Nat.one_lt_two_pow (by omega))

/-- **The quotient of numbers other than zero.** -/
theorem divSf_finite (mode : RoundingMode) (ha : a < 2 ^ F.size) (hb : b < 2 ^ F.size) (hfa : F.IsFinite a)
    (hfb : F.IsFinite b) (hza : ¬ F.IsZero a) (hzb : ¬ F.IsZero b) (fl : UInt32) :
    ∃ r ex, divSf F a b (RoundingMode.rm mode) fl = .ok (r, fl ||| exBits ex) ∧
      F.Rounds mode (F.value a / F.value b : K) r ex := by
  have hsize := size_eq F
  have hk := four_le_rndSize F
  obtain ⟨e, M, heM, hM0, hM1, hM⟩ := normalOperand_spec (K := K) hza
  obtain ⟨e', N, heN, hN0, hN1, hN⟩ := normalOperand_spec (K := K) hzb
  have hNpos : 0 < N := (Nat.two_pow_pos _).trans_le hN0
  have hshl : fUint F (N <<< 2) = N * 4 := fUint_shl (F := F) hN1 (by omega)
  have hN4 : N * 4 < 2 ^ F.size := hshl ▸ fUint_lt F _
  set q := M * 2 ^ F.size / (N * 4) with hq
  -- the quotient of two numbers of the same length
  have hq0 : 2 ^ (F.size - 3) ≤ q := by
    rw [hq, Nat.le_div_iff_mul_le (by omega)]
    calc 2 ^ (F.size - 3) * (N * 4) ≤ 2 ^ (F.size - 3) * (2 ^ (F.mantSize + 1) * 4) := by gcongr
      _ = 2 ^ F.mantSize * 2 ^ F.size := by
          rw [show 4 = 2 ^ 2 from rfl, ← pow_add, ← pow_add, ← pow_add]
          congr 1
          omega
      _ ≤ M * 2 ^ F.size := Nat.mul_le_mul_right _ hM0
  have hq1 : q < 2 ^ (F.size - 1) := by
    rw [hq, Nat.div_lt_iff_lt_mul (by omega)]
    calc M * 2 ^ F.size < 2 ^ (F.mantSize + 1) * 2 ^ F.size := Nat.mul_lt_mul_of_pos_right hM1 (Nat.two_pow_pos _)
      _ = 2 ^ (F.size - 1) * (2 ^ F.mantSize * 4) := by
          rw [show 4 = 2 ^ 2 from rfl, ← pow_add, ← pow_add, ← pow_add]
          congr 1
          omega
      _ ≤ 2 ^ (F.size - 1) * (N * 4) := by gcongr
  have hag := agrees_quotient (K := K) (n := M * 2 ^ F.size) (d := N * 4) (by omega)
  rw [← hq] at hag
  obtain ⟨r, ex, hr, hround⟩ := normalizeSf_sticky (K := K) mode (F.neg a ^^ F.neg b) (e - e' + (F.bias + 1 : ℕ) - 1)
    (by split; exacts [hq0.trans Nat.left_le_or, hq0]) (by split; exacts [or_one_lt hq1 (by omega), hq1]) hag fl
  refine ⟨r, ex, ?_, ?_⟩
  · have hdiv := divremU_eq (F := F) (m := M) (d := N * 4) (by omega) hN4
      (hq ▸ hq1.trans (Nat.pow_lt_pow_right (by decide) (by omega)))
    have hna : ¬ sfExp F a = F.expMask := by rwa [sfExp_eq]
    have hnb : ¬ sfExp F b = F.expMask := by rwa [sfExp_eq]
    unfold divSf
    simp only [hna, hnb, if_false, isZero_iff, hza, hzb, heM, heN, one_shl_exp, sfSign_eq ha, sfSign_eq hb,
      signNat_xor, hshl, hdiv, ← hq, hr]
  · convert hround using 1
    rw [value_div, hM, hN]
    congr 1
    have hexp : (2 : K) ^ F.size * 2 ^ (e - e' + (F.bias + 1 : ℕ) - 1 - F.bias - (F.size - 2 : ℕ)) *
        2 ^ (e' - F.bias - F.mantSize) = 4 * 2 ^ (e - F.bias - F.mantSize) := by
      rw [show (4 : K) = 2 ^ (2 : ℤ) by norm_num, ← zpow_natCast, ← zpow_add₀ two_ne_zero, ← zpow_add₀ two_ne_zero,
        ← zpow_add₀ two_ne_zero]
      congr 1
      push_cast
      omega
    have hN0' : (N : K) ≠ 0 := by exact_mod_cast hNpos.ne'
    have he' : (2 : K) ^ (e' - F.bias - F.mantSize) ≠ 0 := (zpow_pos two_pos _).ne'
    rw [Nat.cast_mul, Nat.cast_mul, Nat.cast_pow, Nat.cast_ofNat, Nat.cast_ofNat, div_mul_eq_mul_div,
      div_eq_div_iff (mul_ne_zero hN0' he') (mul_ne_zero hN0' four_ne_zero)]
    linear_combination (-(M : K) * N) * hexp

/-- **`div_sf` delivers the quotient.** -/
theorem divSf_delivers (mode : RoundingMode) (ha : a < 2 ^ F.size) (hb : b < 2 ^ F.size) (fl : UInt32) :
    ∃ r ex, divSf F a b (RoundingMode.rm mode) fl = .ok (r, fl ||| exBits ex) ∧
      F.Delivers mode (F.divSpec K a b) r ex := by
  have hsa := sfSign_eq ha
  have hsb := sfSign_eq hb
  have hza0 := isZero_iff F a
  have hzb0 := isZero_iff F b
  by_cases hn : F.IsNan a ∨ F.IsNan b
  · have hma : sfExp F a = F.expMask → (sfMant F a ≠ 0 ↔ F.IsNan a) := by
      rw [sfExp_eq, sfMant_eq]
      exact fun h => (and_iff_right h).symm
    have hmb : sfExp F b = F.expMask → (sfMant F b ≠ 0 ↔ F.IsNan b) := by
      rw [sfExp_eq, sfMant_eq]
      exact fun h => (and_iff_right h).symm
    refine ⟨F.qnan, { invalid := decide (F.IsSignaling a ∨ F.IsSignaling b) }, ?_, ?_⟩
    · unfold divSf
      simp only [isnanSf_eq, issignanSf_eq, decide_eq_true_eq, fQnan_eq, invalidIf_eq]
      by_cases ha' : sfExp F a = F.expMask
      · simp only [if_pos ha', hma ha', hn, if_true]
      · have hna : ¬ F.IsNan a := fun h => ha' (by rw [sfExp_eq]; exact h.1)
        have hnb : F.IsNan b := hn.resolve_left hna
        have hb' : sfExp F b = F.expMask := by rw [sfExp_eq]; exact hnb.1
        simp only [if_neg ha', if_pos hb', hmb hb', hnb, if_true]
    · unfold divSpec
      rw [if_pos hn]
      exact ⟨rfl, rfl⟩
  · have hn' := hn
    rw [not_or] at hn'
    obtain ⟨hna, hnb⟩ := hn'
    have hia := inf_iff hna
    have hib := inf_iff hnb
    have hma : F.IsInf a → sfMant F a = 0 := fun h => by rw [sfMant_eq]; exact h.2
    have hmb : F.IsInf b → sfMant F b = 0 := fun h => by rw [sfMant_eq]; exact h.2
    by_cases hspecial : F.IsInf a ∨ F.IsInf b ∨ F.IsZero a ∨ F.IsZero b
    · unfold divSf divSpec
      simp only [hia, hib, isnanSf_eq, hna, hnb, decide_false, or_self, if_false, hza0, hzb0, hsa, hsb, signNat_xor,
        packSf_inf, signBit_eq_pack, fQnan_eq, or_false, Bool.false_eq_true]
      by_cases ha' : F.IsInf a
      · have hza : ¬ F.IsZero a := not_zero_of_exp ha'.1
        by_cases hb' : F.IsInf b
        · simp only [ha', hb', hma ha', if_true, ne_eq, not_true_eq_false, if_false, and_self, true_or]
          exact ⟨_, { invalid := true }, by rw [exBits_invalid], rfl, rfl⟩
        · simp only [ha', hb', hza, hma ha', if_true, ne_eq, not_true_eq_false, if_false, and_false, false_and, or_self]
          exact ⟨_, {}, by rw [← exBits_none], rfl, rfl⟩
      · by_cases hb' : F.IsInf b
        · have hzb : ¬ F.IsZero b := not_zero_of_exp hb'.1
          simp only [ha', hb', hzb, hmb hb', if_true, ne_eq, not_true_eq_false, if_false, and_false, false_and, or_self]
          exact ⟨_, {}, by rw [← exBits_none], rfl, rfl⟩
        · by_cases hzb : F.IsZero b
          · by_cases hza : F.IsZero a
            · simp only [ha', hb', hzb, hza, if_true, if_false, and_self, or_true]
              exact ⟨_, { invalid := true }, by rw [exBits_invalid], rfl, rfl⟩
            · simp only [ha', hb', hzb, hza, if_true, if_false, and_false, false_and, or_self]
              exact ⟨_, { divZero := true }, by simp [exBits], rfl, rfl⟩
          · have hza : F.IsZero a := by tauto
            have hzero : (F.value a / F.value b : K) = 0 := by
              rw [div_eq_zero_iff, value_eq_zero_iff]
              exact .inl hza
            simp only [ha', hb', hzb, hza, if_true, if_false, and_false, or_self, FloatResult.exactly, hzero]
            exact ⟨_, {}, by rw [← exBits_none], rfl, rfl⟩
    · simp only [not_or] at hspecial
      obtain ⟨ha', hb', hza, hzb⟩ := hspecial
      have hne : (F.value a / F.value b : K) ≠ 0 := div_ne_zero (mt (value_eq_zero_iff a).mp hza) (mt (value_eq_zero_iff b).mp hzb)
      unfold divSpec
      rw [if_neg hn, if_neg (by tauto), if_neg ha', if_neg hb', if_neg hzb, FloatResult.exactly, if_neg hne]
      exact divSf_finite mode ha hb (finite_of_not hna ha') (finite_of_not hnb hb') hza hzb fl

/-! ## Square roots -/

/-- A step from above stays above the root. -/
theorem sqrt_le_step (a : ℕ) {s : ℕ} (hs : 0 < s) : Nat.sqrt a ≤ (a / s + s) / 2 := by
  have hr := Nat.sqrt_le a
  set r := Nat.sqrt a
  have hq : 2 * r - s ≤ a / s := by
    rw [Nat.le_div_iff_mul_le hs]
    refine le_trans ?_ hr
    rcases Nat.le_total (2 * r) s with h | h
    · rw [Nat.sub_eq_zero_of_le h, Nat.zero_mul]
      exact Nat.zero_le _
    · obtain ⟨k, hk⟩ := Nat.exists_eq_add_of_le h
      rw [hk, Nat.add_sub_cancel_left]
      nlinarith [sq_nonneg ((k : ℤ) - s)]
  omega

/-- **The loop of `sqrtrem_u` ends at the root**, from any number above it. -/
theorem sqrtLoop_eq (a s : ℕ) (ha : 0 < a) (h : Nat.sqrt a ≤ s) : sqrtLoop a s = Nat.sqrt a := by
  have hpos : 0 < s := (Nat.sqrt_pos.mpr ha).trans_le h
  fun_induction sqrtLoop a s with
  | case1 s u hu =>
      -- no progress: the quotient by `s` is not below `s`
      have hle : s ≤ a / s := by omega
      rw [Nat.le_div_iff_mul_le hpos] at hle
      exact Nat.le_antisymm (Nat.le_sqrt.mpr hle) h
  | case2 s u hu ih =>
      have hstep := sqrt_le_step a hpos
      exact ih hstep ((Nat.sqrt_pos.mpr ha).trans_le hstep)

/-- The first approximation is above the root. -/
theorem sqrt_start (h0 : 2 ≤ m) (h1 : m < 2 ^ F.size) :
    2 * F.size - clz F.size (m - 1) = F.size + ((m - 1).log2 + 1) ∧
      Nat.sqrt (m * 2 ^ F.size) ≤ 2 ^ ((F.size + ((m - 1).log2 + 1) + 1) / 2) := by
  have hlog := log2_lt_of_lt (show 0 < m - 1 by omega) (show m - 1 < 2 ^ F.size by omega)
  have hm : m ≤ 2 ^ ((m - 1).log2 + 1) := by
    have := Nat.lt_log2_self (n := m - 1)
    omega
  constructor
  · rw [clz, if_neg (by omega)]
    omega
  · refine le_trans (Nat.sqrt_le_sqrt ?_) (Nat.sqrt_eq _).le
    calc m * 2 ^ F.size ≤ 2 ^ ((m - 1).log2 + 1) * 2 ^ F.size := Nat.mul_le_mul_right _ hm
      _ ≤ 2 ^ ((F.size + ((m - 1).log2 + 1) + 1) / 2) * 2 ^ ((F.size + ((m - 1).log2 + 1) + 1) / 2) := by
          rw [← pow_add, ← pow_add]
          exact Nat.pow_le_pow_right (by decide) (by omega)

theorem sqrtremU_eq (h0 : 2 ≤ m) (h1 : m < 2 ^ F.size) :
    sqrtremU F m 0 = (decide (m * 2 ^ F.size ≠ Nat.sqrt (m * 2 ^ F.size) * Nat.sqrt (m * 2 ^ F.size)),
      Nat.sqrt (m * 2 ^ F.size)) := by
  have hpos : 0 < m * 2 ^ F.size := Nat.mul_pos (by omega) (Nat.two_pow_pos _)
  obtain ⟨hl, hstart⟩ := sqrt_start h0 h1
  have hroot : Nat.sqrt (m * 2 ^ F.size) < 2 ^ F.size := by
    rw [Nat.sqrt_lt]
    exact Nat.mul_lt_mul_of_pos_right h1 (Nat.two_pow_pos _)
  unfold sqrtremU
  simp only [show m ≠ 0 by omega, false_and, if_false, ne_eq, not_false_eq_true, if_true, hl, Nat.or_zero,
    Nat.shiftLeft_eq, Nat.one_mul, sqrtLoop_eq _ _ hpos hstart, fUint_of_lt hroot]

/-- The integer part of a square root, with a sticky bit. -/
theorem agrees_sqrt {n : ℕ} {v : K} (hv0 : 0 ≤ v) (hv : v * v = n) :
    Agrees 1 ((if n ≠ Nat.sqrt n * Nat.sqrt n then Nat.sqrt n ||| 1 else Nat.sqrt n : ℕ) : K) v := by
  have hlo : ((Nat.sqrt n : ℕ) : K) * Nat.sqrt n ≤ v * v := by
    rw [hv]
    exact_mod_cast Nat.sqrt_le n
  have hhi : v * v < ((Nat.sqrt n : ℕ) + 1 : K) * (Nat.sqrt n + 1) := by
    rw [hv]
    exact_mod_cast Nat.lt_succ_sqrt n
  have hs0 : (0 : K) ≤ (Nat.sqrt n : ℕ) := Nat.cast_nonneg _
  refine agrees_sticky ((mul_self_le_mul_self_iff hs0 hv0).mpr hlo) (by nlinarith) ?_
  rw [ne_eq, ne_eq, not_iff_not, eq_comm (b := v), ← mul_self_inj hv0 hs0, hv]
  exact_mod_cast Iff.rfl

/-- **The square root of a positive number.** -/
theorem sqrtSf_finite (mode : RoundingMode) (ha : a < 2 ^ F.size) (hfa : F.IsFinite a) (hza : ¬ F.IsZero a)
    (hneg : F.neg a = false) {root : K} (hr0 : 0 ≤ root) (hroot : root * root = F.value a) (fl : UInt32) :
    ∃ r ex, sqrtSf F a (RoundingMode.rm mode) fl = .ok (r, fl ||| exBits ex) ∧ F.Rounds mode root r ex := by
  have hsize := size_eq F
  have hk := four_le_rndSize F
  obtain ⟨e, M, heM, hM0, hM1, hM⟩ := normalOperand_spec (K := K) hza
  have hbias : F.expMask / 2 = F.bias := by
    have : 2 ^ F.expSize = 2 * 2 ^ (F.expSize - 1) := by
      rw [← pow_succ', Nat.sub_add_cancel (by have := F.five_le_exp; omega)]
    unfold expMask bias
    omega
  -- an even exponent
  obtain ⟨c, k, hc, hek⟩ : ∃ (c : ℕ) (k : ℤ), c < 2 ∧ e - F.bias = 2 * k + c :=
    ⟨((e - F.bias) % 2).toNat, (e - F.bias) / 2, by omega, by omega⟩
  have hmant : (if (e - (F.bias : ℤ)) % 2 ≠ 0 then fUint F (M <<< 1) else M) = M * 2 ^ c := by
    obtain rfl | rfl : c = 0 ∨ c = 1 := by omega
    · rw [if_neg (by omega), pow_zero, Nat.mul_one]
    · rw [if_pos (by omega), fUint_shl (F := F) hM1 (by omega)]
  have hexp : (if (e - (F.bias : ℤ)) % 2 ≠ 0 then e - F.bias - 1 else e - F.bias) / 2 = k := by
    obtain rfl | rfl : c = 0 ∨ c = 1 := by omega
    · rw [if_neg (by omega)]
      omega
    · rw [if_pos (by omega)]
      omega
  set m := M * 2 ^ c * 2 ^ (F.size - 4 - F.mantSize) with hm
  have hMc1 : M * 2 ^ c < 2 ^ (F.mantSize + 2) := by
    calc M * 2 ^ c < 2 ^ (F.mantSize + 1) * 2 ^ c := Nat.mul_lt_mul_of_pos_right hM1 (Nat.two_pow_pos _)
      _ ≤ 2 ^ (F.mantSize + 2) := by
          rw [← pow_add]
          exact Nat.pow_le_pow_right (by decide) (by omega)
  have hm0 : 2 ^ (F.size - 4) ≤ m := by
    calc 2 ^ (F.size - 4) = 2 ^ F.mantSize * 1 * 2 ^ (F.size - 4 - F.mantSize) := by
          rw [Nat.mul_one, ← pow_add]
          congr 1
          omega
      _ ≤ m := Nat.mul_le_mul_right _ (Nat.mul_le_mul hM0 Nat.one_le_two_pow)
  have hm1 : m < 2 ^ (F.size - 2) := by
    calc m < 2 ^ (F.mantSize + 2) * 2 ^ (F.size - 4 - F.mantSize) :=
          Nat.mul_lt_mul_of_pos_right hMc1 (Nat.two_pow_pos _)
      _ = 2 ^ (F.size - 2) := by
          rw [← pow_add]
          congr 1
          omega
  have htwo : 2 ≤ m := le_trans (Nat.pow_le_pow_right (n := 2) (by decide) (show 1 ≤ F.size - 4 by omega)) hm0
  set A := m * 2 ^ F.size with hA
  have hs0 : 2 ^ (F.size - 2) ≤ Nat.sqrt A := by
    rw [Nat.le_sqrt, ← pow_add]
    calc 2 ^ (F.size - 2 + (F.size - 2)) = 2 ^ (F.size - 4) * 2 ^ F.size := by
          rw [← pow_add]
          congr 1
          omega
      _ ≤ A := Nat.mul_le_mul_right _ hm0
  have hs1 : Nat.sqrt A < 2 ^ (F.size - 1) := by
    rw [Nat.sqrt_lt, ← pow_add]
    calc A < 2 ^ (F.size - 2) * 2 ^ F.size := Nat.mul_lt_mul_of_pos_right hm1 (Nat.two_pow_pos _)
      _ = 2 ^ (F.size - 1 + (F.size - 1)) := by
          rw [← pow_add]
          congr 1
          omega
  -- the root of the integer
  have hunit : (0 : K) < 2 ^ (k + F.bias - F.bias - (F.size - 2 : ℕ)) := zpow_pos two_pos _
  have hv : root / 2 ^ (k + F.bias - F.bias - (F.size - 2 : ℕ)) * (root / 2 ^ (k + F.bias - F.bias - (F.size - 2 : ℕ)))
      = (A : ℕ) := by
    have hscale : (2 : K) ^ c * 2 ^ (F.size - 4 - F.mantSize) * 2 ^ F.size *
        (2 ^ (k + F.bias - F.bias - (F.size - 2 : ℕ)) * 2 ^ (k + F.bias - F.bias - (F.size - 2 : ℕ))) =
        2 ^ (e - F.bias - F.mantSize) := by
      rw [← zpow_natCast, ← zpow_natCast, ← zpow_natCast, ← zpow_add₀ two_ne_zero, ← zpow_add₀ two_ne_zero,
        ← zpow_add₀ two_ne_zero, ← zpow_add₀ two_ne_zero]
      congr 1
      omega
    rw [div_mul_div_comm, hroot, FloatFormat.value, hneg, div_eq_iff (mul_pos hunit hunit).ne', signed, if_neg (by decide),
      hM, hA, hm, ← hscale]
    push_cast
    ring
  obtain ⟨r, ex, hr, hround⟩ := normalizeSf_sticky (K := K) mode false (k + F.bias)
    (m := if A ≠ Nat.sqrt A * Nat.sqrt A then Nat.sqrt A ||| 1 else Nat.sqrt A)
    (by
      have : 2 ^ (F.size - 3) ≤ 2 ^ (F.size - 2) := Nat.pow_le_pow_right (by decide) (by omega)
      split
      · exact (this.trans hs0).trans Nat.left_le_or
      · exact this.trans hs0)
    (by split; exacts [or_one_lt hs1 (by omega), hs1]) (agrees_sqrt (div_nonneg hr0 hunit.le) hv) fl
  refine ⟨r, ex, ?_, ?_⟩
  · have hna : ¬ sfExp F a = F.expMask := by rwa [sfExp_eq]
    have hsign : sfSign F a = signNat false := by rw [sfSign_eq ha, hneg]
    have hrem := sqrtremU_eq (F := F) htwo (hm1.trans (Nat.pow_lt_pow_right (by decide) (by omega)))
    rw [← hA] at hrem
    unfold sqrtSf
    simp only [hna, if_false, isZero_iff, hza, heM, hsign, hbias, hmant, hexp,
      fUint_shl (F := F) hMc1 (show F.mantSize + 2 + (F.size - 4 - F.mantSize) ≤ F.size by omega), ← hm, hrem,
      decide_eq_true_eq]
    simpa [signNat] using hr
  · rwa [div_mul_cancel₀ _ hunit.ne'] at hround

/-- **`sqrt_sf` delivers the square root.** -/
theorem sqrtSf_delivers (mode : RoundingMode) (ha : a < 2 ^ F.size) {root : K} (hr0 : 0 ≤ root)
    (hroot : 0 ≤ (F.value a : K) → root * root = F.value a) (fl : UInt32) :
    ∃ r ex, sqrtSf F a (RoundingMode.rm mode) fl = .ok (r, fl ||| exBits ex) ∧
      F.Delivers mode (F.sqrtSpec a root) r ex := by
  by_cases hn : F.IsNan a
  · have hexp : sfExp F a = F.expMask := by rw [sfExp_eq]; exact hn.1
    have hmant : sfMant F a ≠ 0 := by rw [sfMant_eq]; exact hn.2
    refine ⟨F.qnan, { invalid := decide (F.IsSignaling a) }, ?_, ?_⟩
    · unfold sqrtSf
      simp only [hexp, hmant, if_true, ne_eq, not_false_eq_true, fQnan_eq, issignanSf_eq, invalidIf_eq]
    · rw [sqrtSpec, if_pos hn]
      exact ⟨rfl, rfl⟩
  have hinf := inf_iff hn
  have hsign : sfSign F a ≠ 0 ↔ F.neg a = true := by
    rw [sfSign_eq ha]
    cases F.neg a <;> decide
  have hzero0 := isZero_iff F a
  by_cases hz : F.IsZero a
  · have hni : ¬ F.IsInf a := fun h => not_zero_of_exp h.1 hz
    have hself : F.signBit (F.neg a) = a := by
      have hmag : F.mag a = 0 := by
        rw [mag_eq, (sig_eq_zero_iff a).mpr hz, eexp, hz.1]
        simp
      have := sign_add_mag ha
      rwa [hmag, Nat.add_zero] at this
    refine ⟨F.signBit (F.neg a), {}, ?_, ?_⟩
    · unfold sqrtSf
      simp only [hinf, hni, if_false, hsign, hzero0, hz, if_true, ← exBits_none]
      split
      · rw [hself]
      · next h =>
        have hpack : packSf F 0 0 0 = F.signBit false := signBit_eq_pack false
        rw [hpack, Bool.eq_false_of_not_eq_true h]
    · rw [sqrtSpec, if_neg hn, if_pos hz]
      exact ⟨rfl, rfl⟩
  by_cases hneg : F.neg a = true
  · refine ⟨F.qnan, { invalid := true }, ?_, ?_⟩
    · have hmi : F.IsInf a → sfMant F a = 0 := fun h => by rw [sfMant_eq]; exact h.2
      unfold sqrtSf
      simp only [hinf, hsign, hneg, hzero0, hz, if_true, if_false, fQnan_eq, exBits_invalid]
      split
      · next h => rw [if_neg (not_not.mpr (hmi h))]
      · rfl
    · rw [sqrtSpec, if_neg hn, if_neg hz, if_pos hneg]
      exact ⟨rfl, rfl⟩
  · rw [Bool.not_eq_true] at hneg
    by_cases hi : F.IsInf a
    · have hmi : sfMant F a = 0 := by rw [sfMant_eq]; exact hi.2
      have hself := sign_add_inf ha hi
      rw [hneg] at hself
      refine ⟨a, {}, ?_, ?_⟩
      · unfold sqrtSf
        simp only [hinf, hi, hsign, hneg, hmi, if_true, ne_eq, not_true_eq_false, if_false, Bool.false_eq_true, ← exBits_none]
      · rw [sqrtSpec, if_neg hn, if_neg hz, if_neg (by rw [hneg]; decide), if_pos hi]
        exact ⟨hself.symm, rfl⟩
    · have hval : (0 : K) ≤ F.value a := by
        rw [FloatFormat.value, hneg]
        exact absVal_nonneg a
      rw [sqrtSpec, if_neg hn, if_neg hz, if_neg (by rw [hneg]; decide), if_neg hi]
      exact sqrtSf_finite mode ha (finite_of_not hn hi) hz hneg hr0 (hroot hval) fl

end HadBadge
