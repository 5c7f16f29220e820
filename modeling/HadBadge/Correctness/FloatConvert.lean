import HadBadge.Correctness.FloatMul

/-!
# `Correctness.FloatConvert`: conversions of floating point numbers

Between the formats, a wider format takes every number as it is, and a narrower one rounds it. Integers of any size
are rounded to the format, and numbers to integers of any size, where what is out of range is invalid.

## Contents
- **Between formats.** `cvtWiden_finite` and `cvtWiden_special`; `cvtWiden_delivers`, `cvtNarrow_delivers`.
- **From integers.** `internalCvtISf_delivers`.
- **To integers.** `roundInt_signed`; `icvtResult`, and `internalCvtSfI_eq` for the code; `internalCvtSfI_spec`.
-/

namespace HadBadge

open Lib Lib.FloatFormat

variable {F G : FloatFormat} {a m n : ℕ}
variable {K : Type*} [Field K] [LinearOrder K] [IsStrictOrderedRing K]

theorem half_expMask (F : FloatFormat) : F.expMask / 2 = F.bias := by
  have : 2 ^ F.expSize = 2 * 2 ^ (F.expSize - 1) := by
    rw [← pow_succ', Nat.sub_add_cancel (by have := F.five_le_exp; omega)]
  unfold expMask bias
  omega

theorem expMask_eq (F : FloatFormat) : F.expMask = 2 * F.bias + 1 := by
  have : 2 ^ F.expSize = 2 * 2 ^ (F.expSize - 1) := by
    rw [← pow_succ', Nat.sub_add_cancel (by have := F.five_le_exp; omega)]
  have := Nat.two_pow_pos (F.expSize - 1)
  unfold expMask bias
  omega

/-! ## Between formats -/

/-- The exponent of an operand other than zero is not far below the format. -/
theorem normalOperand_exp (hz : ¬ F.IsZero a) {e : ℤ} {M : ℕ} (h : normalOperand F (sfExp F a) (sfMant F a) = (e, M)) :
    1 - (F.mantSize : ℤ) ≤ e ∧ e ≤ F.eexp a := by
  have hsize := size_eq F
  have hm := mantOf_lt F a
  unfold normalOperand at h
  rw [sfExp_eq, sfMant_eq] at h
  split at h
  · next h0 =>
    have hm0 : 0 < F.mantOf a := Nat.pos_of_ne_zero fun h => hz ⟨h0, h⟩
    have hlog := log2_lt_of_lt hm0 hm
    obtain ⟨rfl, -⟩ := Prod.mk.inj h
    rw [clz, if_neg hm0.ne', eexp, h0]
    omega
  · obtain ⟨rfl, -⟩ := Prod.mk.inj h
    have := F.two_le_mant
    unfold eexp
    omega

/-- The mantissa that `cvtWiden` takes is the one of the operand but for the implicit bit. -/
theorem widenMant_eq (hz : ¬ G.IsZero a) :
    ∃ e M, (if sfExp G a = 0 then normalizeSubnormalSf G (sfMant G a) else ((sfExp G a : ℤ), sfMant G a)) = (e, M) ∧
      ∃ N, normalOperand G (sfExp G a) (sfMant G a) = (e, N) ∧ M % 2 ^ G.mantSize = N % 2 ^ G.mantSize ∧
        M < 2 ^ (G.mantSize + 1) := by
  obtain ⟨e, N, h, hN0, hN1, -⟩ := normalOperand_spec (K := ℚ) hz
  have hsize := size_eq G
  unfold normalOperand at h ⊢
  split
  · next h0 =>
    rw [if_pos h0] at h
    exact ⟨e, N, h, N, rfl.trans h, rfl, hN1⟩
  · next h0 =>
    rw [if_neg h0] at h
    obtain ⟨he, hor⟩ := Prod.mk.inj h
    have hone : fUint G (1 <<< G.mantSize) = 2 ^ G.mantSize := by
      rw [Nat.one_shiftLeft]
      exact fUint_of_lt (Nat.pow_lt_pow_right (by decide) (by omega))
    have hm : sfMant G a < 2 ^ G.mantSize := by
      rw [sfMant_eq]
      exact mantOf_lt G a
    refine ⟨e, sfMant G a, by rw [he], N, h, ?_, hm.trans (Nat.pow_lt_pow_right (by decide) (by omega))⟩
    rw [← hor, hone, Nat.or_mod_two_pow, Nat.mod_self, Nat.or_zero]

/-- A significand of `G` is one of a format with `k` bits more. -/
theorem widenSig_bounds {N k : ℕ} (hk : F.mantSize = G.mantSize + k) (hN0 : 2 ^ G.mantSize ≤ N)
    (hN1 : N < 2 ^ (G.mantSize + 1)) : 2 ^ F.mantSize ≤ N * 2 ^ k ∧ N * 2 ^ k < 2 ^ (F.mantSize + 1) := by
  constructor
  · rw [hk, pow_add]
    exact Nat.mul_le_mul_right _ hN0
  · calc N * 2 ^ k < 2 ^ (G.mantSize + 1) * 2 ^ k := Nat.mul_lt_mul_of_pos_right hN1 (Nat.two_pow_pos k)
      _ = 2 ^ (F.mantSize + 1) := by
          rw [← pow_add, hk]
          congr 1
          omega

/-- The mantissa that `cvtWiden` shifts has the bits of that significand below the implicit one. -/
theorem widenMant_shl {M N k : ℕ} (hk : F.mantSize = G.mantSize + k) (hN0 : 2 ^ G.mantSize ≤ N)
    (hN1 : N < 2 ^ (G.mantSize + 1)) (hM : M < 2 ^ (G.mantSize + 1)) (hmod : M % 2 ^ G.mantSize = N % 2 ^ G.mantSize) :
    fUint F (M <<< k) % 2 ^ F.mantSize = N * 2 ^ k - 2 ^ F.mantSize := by
  have hsize := size_eq F
  have hround := four_le_rndSize F
  rw [pow_succ] at hN1
  rw [fUint_shl (F := F) hM (by omega), hk, pow_add, Nat.mul_mod_mul_right, hmod, ← Nat.sub_mul,
    Nat.mod_eq_sub_mod hN0, Nat.mod_eq_of_lt (by omega)]

/-- A number other than zero gets a pattern of the same magnitude. -/
theorem cvtWiden_number (hm : G.mantSize ≤ F.mantSize) (hb : G.mantSize + G.bias ≤ F.bias) (ha : a < 2 ^ G.size)
    (hfin : G.IsFinite a) (hz : ¬ G.IsZero a) (fl : UInt32) :
    ∃ m, cvtWiden G F a fl = (F.signBit (G.neg a) + m, fl) ∧ m < F.infMag ∧ (F.absVal m : K) = G.absVal a := by
  have hmaskF := expMask_eq F
  have hmaskG := expMask_eq G
  have hGp := G.two_le_mant
  obtain ⟨e, M, heM, N, hN, hmod, hM1⟩ := widenMant_eq hz
  obtain ⟨e', N', hN', hN0, hN1, hval⟩ := normalOperand_spec (K := K) hz
  obtain ⟨rfl, rfl⟩ := Prod.mk.inj (hN.symm.trans hN')
  obtain ⟨he0, he1⟩ := normalOperand_exp hz hN
  have heG := eexp_lt_of_finite hfin
  obtain ⟨E, hE⟩ : ∃ E : ℕ, e - G.bias + F.bias = (E + 1 : ℕ) := ⟨(e - G.bias + F.bias - 1).toNat, by omega⟩
  obtain ⟨k, hk⟩ := Nat.exists_eq_add_of_le hm
  obtain ⟨hW0, hW1⟩ := widenSig_bounds hk hN0 hN1
  have hr : packSf F (signNat (G.neg a)) (E + 1) (fUint F (M <<< k)) =
      F.signBit (G.neg a) + (E * 2 ^ F.mantSize + N * 2 ^ k) := by
    rw [packSf_eq _ (by omega), widenMant_shl hk hN0 hN1 hM1 hmod, Nat.add_mul]
    omega
  have hfit : E * 2 ^ F.mantSize + N * 2 ^ k < F.infMag := by
    have := Nat.mul_le_mul_right (2 ^ F.mantSize) (show E + 2 ≤ F.expMask by omega)
    rw [Nat.add_mul] at this
    rw [pow_succ] at hW1
    unfold infMag
    omega
  refine ⟨E * 2 ^ F.mantSize + N * 2 ^ k, ?_, hfit, ?_⟩
  · have hna : ¬ sfExp G a = G.expMask := by rwa [sfExp_eq]
    unfold cvtWiden
    simp only [hna, if_false, isZero_iff, hz, heM, half_expMask, hE, Int.toNat_natCast, sfSign_eq ha]
    rw [show F.mantSize - G.mantSize = k by omega, hr]
  · have hpattern := absVal_pattern (F := F) (K := K) (E := E + 1) (show 1 ≤ E + 1 by omega) hW1.le (.inl hW0)
      (lt_of_lt_infMag hfit)
    rw [Nat.add_sub_cancel] at hpattern
    rw [hpattern, hval, ← hE]
    push_cast
    rw [mul_assoc, ← zpow_natCast (2 : K) k, ← zpow_add₀ two_ne_zero]
    congr 2
    omega

/-- So does a zero. -/
theorem cvtWiden_finite (hm : G.mantSize ≤ F.mantSize) (hb : G.mantSize + G.bias ≤ F.bias) (ha : a < 2 ^ G.size)
    (hfin : G.IsFinite a) (fl : UInt32) :
    ∃ m, cvtWiden G F a fl = (F.signBit (G.neg a) + m, fl) ∧ m < F.infMag ∧ (F.absVal m : K) = G.absVal a := by
  by_cases hz : G.IsZero a
  · have hna : ¬ sfExp G a = G.expMask := by rwa [sfExp_eq]
    have hzero : F.IsZero 0 := ⟨by simp [expOf], by simp [mantOf]⟩
    refine ⟨0, ?_, ?_, ?_⟩
    · unfold cvtWiden
      simp only [hna, if_false, isZero_iff, hz, if_true, sfSign_eq ha, signBit_eq_pack, Nat.add_zero]
    · have := one_lt_expMask F
      exact Nat.mul_pos (by omega) (Nat.two_pow_pos _)
    · rw [(absVal_eq_zero_iff a).mpr hz, (absVal_eq_zero_iff 0).mpr hzero]
  · exact cvtWiden_number hm hb ha hfin hz fl

variable [FloorRing K]

omit [IsStrictOrderedRing K] in
/-- Infinities and NaNs. -/
theorem cvtWiden_special (ha : a < 2 ^ G.size) (hfin : ¬ G.IsFinite a) (fl : UInt32) :
    ∃ r ex, cvtWiden G F a fl = (r, fl ||| exBits ex) ∧ r < 2 ^ F.size ∧
      ∀ mode, F.Delivers mode (G.convertSpec K a) r ex := by
  have hexp : sfExp G a = G.expMask := by
    rw [sfExp_eq]
    exact not_not.mp hfin
  have hinf := F.infMag_lt
  unfold cvtWiden convertSpec
  simp only [hexp, if_true, issignanSf_eq, fQnan_eq, invalidIf_eq, sfSign_eq ha, packSf_inf]
  by_cases hn : G.IsNan a
  · have hmne : sfMant G a ≠ 0 := by
      rw [sfMant_eq]
      exact hn.2
    refine ⟨F.qnan, { invalid := decide (G.IsSignaling a) }, by rw [if_pos hmne], ?_, fun _ => ?_⟩
    · have := Nat.pow_lt_pow_right (a := 2) (by decide) (show F.mantSize - 1 < F.mantSize by have := F.two_le_mant; omega)
      have hq := sign_add_lt (F := F) false (m := F.qnan) (by unfold qnan infMag at *; omega)
      simpa [signBit] using hq
    · rw [if_pos hn]
      exact ⟨rfl, rfl⟩
  · have hi : G.IsInf a := (inf_iff hn).mp hexp
    have hm0 : sfMant G a = 0 := by
      rw [sfMant_eq]
      exact hi.2
    refine ⟨_, {}, by rw [if_neg (not_not.mpr hm0), ← exBits_none], ?_, fun _ => ?_⟩
    · exact sign_add_lt _ (by have := Nat.two_pow_pos F.mantSize; omega)
    · rw [if_neg hn, if_pos hi]
      exact ⟨rfl, rfl⟩

/-- **A wider format takes every number as it is.** -/
theorem cvtWiden_delivers (hm : G.mantSize ≤ F.mantSize) (hb : G.mantSize + G.bias ≤ F.bias) (ha : a < 2 ^ G.size)
    (fl : UInt32) :
    ∃ r ex, cvtWiden G F a fl = (r, fl ||| exBits ex) ∧ r < 2 ^ F.size ∧
      (∀ mode, F.Delivers mode (G.convertSpec K a) r ex) ∧
      (G.IsFinite a → ex = {} ∧ F.IsFinite r ∧ (F.value r : K) = G.value a) := by
  by_cases hfin : G.IsFinite a
  · obtain ⟨m, hx, hmag, habs⟩ := cvtWiden_finite (K := K) hm hb ha hfin fl
    have hlt := lt_of_lt_infMag hmag
    have hneg : F.neg (F.signBit (G.neg a) + m) = G.neg a := neg_sign_add _ hlt
    have hvalue : (F.value (F.signBit (G.neg a) + m) : K) = G.value a := by
      rw [FloatFormat.value, hneg, absVal_sign_add, habs, FloatFormat.value]
    have hfinF : F.IsFinite (F.signBit (G.neg a) + m) := by
      unfold FloatFormat.IsFinite
      rw [expOf_sign_add]
      exact isFinite_of_lt hmag
    -- the same number with the same sign, which the format delivers as itself
    have hspec : G.convertSpec K a = F.convertSpec K (F.signBit (G.neg a) + m) := by
      rw [convertSpec, if_neg (not_nan_of_finite hfin), if_neg (not_inf_of_finite hfin), convertSpec,
        if_neg (not_nan_of_finite hfinF), if_neg (not_inf_of_finite hfinF), hvalue, hneg]
    refine ⟨_, {}, by rw [hx, ← exBits_none], sign_add_lt _ hlt, fun mode => ?_, fun _ => ⟨rfl, hfinF, hvalue⟩⟩
    rw [hspec]
    exact delivers_self (sign_add_lt _ hlt) (not_nan_of_finite hfinF)
  · obtain ⟨r, ex, hx, hr, hdel⟩ := cvtWiden_special (K := K) (F := F) ha hfin fl
    exact ⟨r, ex, hx, hr, hdel, fun h => absurd h hfin⟩

/-- What is below a word after the shift of a mantissa. -/
theorem narrowMant_lt {M j : ℕ} (hj : 1 ≤ j) (hM : M < 2 ^ (F.mantSize + j)) (hjs : j ≤ 2) :
    fUint G (rshiftRnd F M (F.mantSize - (G.size - 2))) = jam M (F.mantSize - (G.size - 2)) ∧
      jam M (F.mantSize - (G.size - 2)) < 2 ^ (G.size - 2 + j) := by
  have hsizeF := size_eq F
  have hsizeG := size_eq G
  have hkF := four_le_rndSize F
  have hlt : jam M (F.mantSize - (G.size - 2)) < 2 ^ (G.size - 2 + j) :=
    jam_lt (hM.trans_le (Nat.pow_le_pow_right (by decide) (by omega))) (by omega)
  rw [rshiftRnd_eq (hM.trans_le (Nat.pow_le_pow_right (by decide) (by omega)))]
  exact ⟨fUint_of_lt (hlt.trans_le (Nat.pow_le_pow_right (by decide) (by omega))), hlt⟩

/-- A normal number. -/
theorem cvtNarrow_normal (mode : RoundingMode) (hm : G.size ≤ F.mantSize + 2) (ha : a < 2 ^ F.size) (hfin : F.IsFinite a)
    (hexp : F.expOf a ≠ 0) (fl : UInt32) :
    ∃ r ex, cvtNarrow F G a (RoundingMode.rm mode) fl = .ok (r, fl ||| exBits ex) ∧ G.Rounds mode (F.value a : K) r ex := by
  have hsizeF := size_eq F
  have hsizeG := size_eq G
  have hkF := four_le_rndSize F
  have hkG := four_le_rndSize G
  have hna : ¬ sfExp F a = F.expMask := by rwa [sfExp_eq]
  have hn0 : ¬ sfExp F a = 0 := by rwa [sfExp_eq]
  have hexpK : (sfExp F a : ℤ) = F.expOf a := by rw [sfExp_eq]
  have hsig : sfMant F a ||| fUint F (1 <<< F.mantSize) = F.sig a := by
    have hone : fUint F (1 <<< F.mantSize) = 2 ^ F.mantSize := by
      rw [Nat.one_shiftLeft]
      exact fUint_of_lt (Nat.pow_lt_pow_right (by decide) (by omega))
    have hor := Nat.two_pow_add_eq_or_of_lt (mantOf_lt F a) 1
    rw [Nat.mul_one] at hor
    rw [hone, Nat.or_comm, sfMant_eq, ← hor, sig, if_neg hexp]
  have hlow : 2 ^ F.mantSize ≤ F.sig a := by
    rw [sig, if_neg hexp]
    exact Nat.le_add_right _ _
  obtain ⟨d, hd⟩ : ∃ d, F.mantSize = G.size - 2 + d := ⟨F.mantSize - (G.size - 2), by omega⟩
  obtain ⟨hshift, hlt⟩ := narrowMant_lt (G := G) (le_refl 1) (F.sig_lt a) (by decide)
  rw [show F.mantSize - (G.size - 2) = d by omega] at hshift hlt
  have hge : 2 ^ (G.size - 3) ≤ jam (F.sig a) d := by
    refine jam_low (le_trans (Nat.pow_le_pow_right (by decide) ?_) hlow)
    omega
  obtain ⟨r, ex, hr, hround⟩ := normalizeSf_sticky (K := K) (F := G) mode (F.neg a)
    ((F.expOf a : ℤ) - (F.bias : ℕ) + (G.bias : ℕ)) hge (by rwa [show G.size - 2 + 1 = G.size - 1 by omega] at hlt)
    (agrees_jam (F.sig a) d) fl
  refine ⟨r, ex, ?_, ?_⟩
  · unfold cvtNarrow
    simp only [hna, hn0, if_false, false_and, hsig, half_expMask, show F.mantSize - (G.size - 2) = d by omega, hshift,
      hexpK, sfSign_eq ha, hr]
  · convert hround using 1
    rw [FloatFormat.value, absVal, eexp, Nat.max_eq_left (by omega), div_mul_eq_mul_div, mul_div_assoc, ← zpow_natCast,
      ← zpow_sub₀ two_ne_zero]
    congr 3
    omega

/-- A subnormal number is so small that the mantissa does not matter. -/
theorem cvtNarrow_subnormal (mode : RoundingMode) (hm : G.size ≤ F.mantSize + 2) (hb : G.bias + G.mantSize + 1 ≤ F.bias)
    (ha : a < 2 ^ F.size) (hexp : F.expOf a = 0) (hz : ¬ F.IsZero a) (fl : UInt32) :
    ∃ r ex, cvtNarrow F G a (RoundingMode.rm mode) fl = .ok (r, fl ||| exBits ex) ∧ G.Rounds mode (F.value a : K) r ex := by
  have hsizeF := size_eq F
  have hsizeG := size_eq G
  have hkG := four_le_rndSize G
  have hmaskF := expMask_eq F
  have hna : ¬ sfExp F a = F.expMask := by
    rw [sfExp_eq]
    have := one_lt_expMask F
    omega
  have hn0 : sfExp F a = 0 := by rwa [sfExp_eq]
  have hm0 : 0 < F.mantOf a := Nat.pos_of_ne_zero fun h => hz ⟨hexp, h⟩
  have hmlt := mantOf_lt F a
  obtain ⟨e, M, heM, -, -, -⟩ := normalOperand_spec (K := K) hz
  have he := (normalOperand_exp hz heM).2
  have hmantN : sfMant F a = F.mantOf a := sfMant_eq F a
  have hnorm : (normalizeSubnormalSf F (F.mantOf a)).1 = e := by
    unfold normalOperand at heM
    rw [if_pos hn0, hmantN] at heM
    rw [heM]
  obtain ⟨d, hd⟩ : ∃ d, F.mantSize = G.size - 2 + d := ⟨F.mantSize - (G.size - 2), by omega⟩
  obtain ⟨hshift, hlt⟩ := narrowMant_lt (G := G) (le_refl 1)
    (hmlt.trans (Nat.pow_lt_pow_right (by decide) (Nat.lt_succ_self _))) (by decide)
  rw [show F.mantSize - (G.size - 2) = d by omega] at hshift hlt
  have hpos : 0 < jam (F.mantOf a) d := Nat.pos_of_ne_zero fun h => hm0.ne' (jam_eq_zero_iff.mp h)
  obtain ⟨r, ex, hr, hround⟩ := normalizeSf_rounds (K := K) (F := G) mode (F.neg a) (e - (F.bias : ℕ) + (G.bias : ℕ)) hpos
    (by rwa [show G.size - 2 + 1 = G.size - 1 by omega] at hlt) (Agrees.refl _ _) fl
  have hvpos : 0 < (F.absVal a : K) := lt_of_le_of_ne (absVal_nonneg a) (Ne.symm (mt (absVal_eq_zero_iff a).mp hz))
  refine ⟨_, ex, ?_, rounds_of_mag (F.neg a) hvpos (hround.tiny ?_ hvpos ?_ ?_)⟩
  · unfold cvtNarrow
    simp only [if_neg hna, hm0.ne', and_false, if_false, if_pos hn0, half_expMask, hnorm,
      show F.mantSize - (G.size - 2) = d by omega, hmantN, hshift, sfSign_eq ha, hr]
  · exact mul_pos (by exact_mod_cast hpos) (zpow_pos two_pos _)
  · -- what the code rounds
    have hjam : (jam (F.mantOf a) d : K) ≤ 2 ^ (G.size - 2) := by
      exact_mod_cast jam_le (hmlt.le.trans (Nat.pow_le_pow_right (by decide) (by omega))) (by omega)
    calc (jam (F.mantOf a) d : K) * 2 ^ (e - (F.bias : ℕ) + (G.bias : ℕ) - G.bias - (G.size - 2 : ℕ))
        ≤ 2 ^ (G.size - 2) * 2 ^ (e - (F.bias : ℕ) + (G.bias : ℕ) - G.bias - (G.size - 2 : ℕ)) :=
          mul_le_mul_of_nonneg_right hjam (zpow_pos two_pos _).le
      _ = 2 ^ (e - F.bias) := by
          rw [← zpow_natCast, ← zpow_add₀ two_ne_zero]
          congr 1
          ring
      _ < 2 ^ (G.emin - G.mantSize - 1) := by
          refine zpow_lt_zpow_right₀ one_lt_two ?_
          have heq : F.eexp a = 1 := by rw [eexp, hexp]; rfl
          have hshift1 : e ≤ 0 := by
            rw [← hnorm]
            have := log2_lt_of_lt hm0 hmlt
            unfold normalizeSubnormalSf
            rw [clz, if_neg hm0.ne']
            dsimp only
            omega
          unfold emin
          omega
  · calc (F.absVal a : K) < 2 ^ F.mantSize * 2 ^ ((F.eexp a : ℤ) - F.bias - F.mantSize) := by
          unfold absVal
          rw [sig, if_pos hexp]
          exact mul_lt_mul_of_pos_right (by exact_mod_cast hmlt) (zpow_pos two_pos _)
      _ = 2 ^ (1 - (F.bias : ℤ)) := by
          rw [eexp, hexp, Nat.zero_max, ← zpow_natCast, ← zpow_add₀ two_ne_zero]
          congr 1
          push_cast
          ring
      _ ≤ 2 ^ (G.emin - G.mantSize - 1) := zpow_le_zpow_right₀ one_le_two (by unfold emin; omega)

/-- **A narrower format rounds**, also what is subnormal in the wider one. -/
theorem cvtNarrow_delivers (mode : RoundingMode) (hm : G.size ≤ F.mantSize + 2) (hb : G.bias + G.mantSize + 1 ≤ F.bias)
    (ha : a < 2 ^ F.size) (fl : UInt32) :
    ∃ r ex, cvtNarrow F G a (RoundingMode.rm mode) fl = .ok (r, fl ||| exBits ex) ∧
      G.Delivers mode (F.convertSpec K a) r ex := by
  by_cases hfin : F.IsFinite a
  · rw [convertSpec, if_neg (not_nan_of_finite hfin), if_neg (not_inf_of_finite hfin)]
    by_cases hz : F.IsZero a
    · have hna : ¬ sfExp F a = F.expMask := by rwa [sfExp_eq]
      refine ⟨G.signBit (F.neg a), {}, ?_, ?_⟩
      · unfold cvtNarrow
        simp only [hna, if_false, isZero_iff, hz, if_true, sfSign_eq ha, signBit_eq_pack, ← exBits_none]
      · rw [FloatResult.exactly, if_pos ((value_eq_zero_iff a).mpr hz)]
        exact ⟨rfl, rfl⟩
    · rw [FloatResult.exactly, if_neg (mt (value_eq_zero_iff a).mp hz)]
      by_cases hexp : F.expOf a = 0
      · exact cvtNarrow_subnormal mode hm hb ha hexp hz fl
      · exact cvtNarrow_normal mode hm ha hfin hexp fl
  · have hexp : sfExp F a = F.expMask := by
      rw [sfExp_eq]
      exact not_not.mp hfin
    unfold cvtNarrow convertSpec
    simp only [hexp, if_true, issignanSf_eq, fQnan_eq, invalidIf_eq, sfSign_eq ha, packSf_inf]
    by_cases hn : F.IsNan a
    · have hmne : sfMant F a ≠ 0 := by
        rw [sfMant_eq]
        exact hn.2
      rw [if_pos hmne, if_pos hn]
      exact ⟨_, { invalid := decide (F.IsSignaling a) }, rfl, rfl, rfl⟩
    · have hi : F.IsInf a := (inf_iff hn).mp hexp
      have hm0 : sfMant F a = 0 := by
        rw [sfMant_eq]
        exact hi.2
      rw [if_neg (not_not.mpr hm0), if_neg hn, if_pos hi]
      exact ⟨_, {}, by rw [← exBits_none], rfl, rfl⟩

/-! ## From integers -/

/-- The integer of a word of `n` bits. -/
def icvtInt (n : ℕ) (isUnsigned : Bool) (a : ℕ) : ℤ :=
  if isUnsigned = false ∧ 2 ^ (n - 1) ≤ a then (a : ℤ) - 2 ^ n else a

/-- A natural number with a sign, shifted down to a mantissa where it is too long for one. -/
theorem normalizeNat_delivers (mode : RoundingMode) {s : Bool} {l : ℤ} (hs : m = 0 → s = false)
    (hl : l = (m.log2 : ℤ) + 1 - (F.size - 1) ∨ (m = 0 ∧ l ≤ 0)) (fl : UInt32) :
    ∃ r ex, (if 0 < l then
        normalizeSf F (signNat s) ((F.expMask / 2 : ℕ) + (F.size : ℤ) - 2 + l)
          (fUint F (m >>> l.toNat ||| (if m &&& (m &&& (1 <<< l.toNat - 1)) ≠ 0 then 1 else 0))) (RoundingMode.rm mode) fl
      else normalizeSf F (signNat s) ((F.expMask / 2 : ℕ) + (F.size : ℤ) - 2) (fUint F m) (RoundingMode.rm mode) fl) =
        .ok (r, fl ||| exBits ex) ∧ F.Delivers mode (.exactly (signed s (m : K)) false) r ex := by
  have hsize := size_eq F
  have hk := four_le_rndSize F
  rw [half_expMask]
  by_cases hlpos : 0 < l
  · obtain ⟨k, rfl⟩ : ∃ k : ℕ, l = k := ⟨l.toNat, by omega⟩
    have hlog : m.log2 + 1 = F.size - 1 + k := by omega
    have hm0 : m ≠ 0 := by
      rintro rfl
      rcases hl with h | h
      · rw [Nat.log2_zero] at h
        omega
      · omega
    have hlo := Nat.log2_self_le hm0
    have hhi := Nat.lt_log2_self (n := m)
    have hjam : (m >>> k ||| (if m &&& (m &&& (1 <<< k - 1)) ≠ 0 then 1 else 0)) = jam m k := by
      rw [← Nat.and_assoc, Nat.and_self, Nat.one_shiftLeft, Nat.and_two_pow_sub_one_eq_mod, jam]
      simp only [ne_eq, ite_not]
    have h1 : jam m k < 2 ^ (F.size - 1) := jam_lt (by rwa [← hlog]) (by omega)
    have h0 : 2 ^ (F.size - 3) ≤ jam m k :=
      jam_low ((Nat.pow_le_pow_right (by decide) (by omega)).trans hlo)
    obtain ⟨r, ex, hr, hround⟩ := normalizeSf_sticky (K := K) mode s (F.bias + (F.size : ℤ) - 2 + k) h0 h1 (agrees_jam m k) fl
    have hval : (m : K) / 2 ^ k * 2 ^ (F.bias + (F.size : ℤ) - 2 + k - F.bias - (F.size - 2 : ℕ)) = m := by
      rw [div_mul_eq_mul_div, mul_div_assoc, ← zpow_natCast, ← zpow_sub₀ two_ne_zero,
        show F.bias + (F.size : ℤ) - 2 + k - F.bias - (F.size - 2 : ℕ) - k = 0 by omega, zpow_zero, mul_one]
    have hne : signed s (m : K) ≠ 0 := by
      cases s with
      | false => exact Nat.cast_ne_zero.mpr hm0
      | true => exact neg_ne_zero.mpr (Nat.cast_ne_zero.mpr hm0)
    rw [if_pos hlpos, Int.toNat_natCast, hjam, fUint_of_lt (h1.trans (Nat.pow_lt_pow_right (by decide) (by omega))),
      FloatResult.exactly, if_neg hne]
    rw [hval] at hround
    exact ⟨r, ex, hr, hround⟩
  · have h1 : m < 2 ^ (F.size - 1) := by
      rcases Nat.eq_zero_or_pos m with rfl | hpos
      · exact Nat.two_pow_pos _
      · have hlog : m.log2 < F.size - 1 := by
          rcases hl with h | h <;> omega
        exact (Nat.log2_lt hpos.ne').mp hlog
    have hsign : signNat (if m = 0 then false else s) = signNat s := by
      split
      · next h => rw [hs h]
      · rfl
    obtain ⟨r, ex, hr, hd⟩ := normalizeSf_delivers (K := K) (F := F) mode s false (F.bias + (F.size : ℤ) - 2) h1
      (Agrees.refl _ _) fl
    rw [hsign] at hr
    rw [if_neg hlpos, fUint_of_lt (h1.trans (Nat.pow_lt_pow_right (by decide) (by omega)))]
    refine ⟨r, ex, hr, ?_⟩
    rwa [show F.bias + (F.size : ℤ) - 2 - F.bias - (F.size - 2 : ℕ) = 0 by omega, zpow_zero, mul_one] at hd

/-- **Integers are rounded to the format.** -/
theorem internalCvtISf_delivers (mode : RoundingMode) (hn : 1 ≤ n) (ha : a < 2 ^ n) (isUnsigned : Bool) (fl : UInt32) :
    ∃ r ex, internalCvtISf F n a (RoundingMode.rm mode) fl isUnsigned = .ok (r, fl ||| exBits ex) ∧
      F.Delivers mode (.exactly ((icvtInt n isUnsigned a : ℤ) : K) false) r ex := by
  have hpow : 2 ^ n = 2 * 2 ^ (n - 1) := by rw [← pow_succ', Nat.sub_add_cancel hn]
  have hhalf := Nat.two_pow_pos (n - 1)
  set neg : Bool := decide (isUnsigned = false ∧ 2 ^ (n - 1) ≤ a) with hneg
  set m := if neg = true then (2 ^ n - a) % 2 ^ n else a with hm
  have hmlt : m < 2 ^ n := by
    rw [hm]
    split
    · exact Nat.mod_lt _ (by omega)
    · exact ha
  have hval : ((icvtInt n isUnsigned a : ℤ) : K) = signed neg (m : K) := by
    unfold icvtInt
    by_cases h : isUnsigned = false ∧ 2 ^ (n - 1) ≤ a
    · have hn' : neg = true := by simp [hneg, h]
      rw [if_pos h, hm, if_pos hn', Nat.mod_eq_of_lt (by omega), hn', signed, if_pos rfl, Nat.cast_sub ha.le]
      push_cast
      ring
    · have hn' : neg = false := by simp [hneg, h]
      rw [if_neg h, hm, if_neg (by rw [hn']; decide), hn', signed, if_neg (by decide)]
      push_cast
      rfl
  have hl : (n : ℤ) - clz n m - (F.size - 1) = (m.log2 : ℤ) + 1 - (F.size - 1) ∨
      (m = 0 ∧ (n : ℤ) - clz n m - (F.size - 1) ≤ 0) := by
    have hsize := size_eq F
    unfold clz
    rcases Nat.eq_zero_or_pos m with h0 | hpos
    · rw [if_pos h0]
      exact .inr ⟨h0, by omega⟩
    · have := log2_lt_of_lt hpos hmlt
      rw [if_neg hpos.ne']
      exact .inl (by omega)
  have hs : m = 0 → neg = false := by
    intro h0
    by_contra hc
    rw [Bool.not_eq_false] at hc
    rw [hm, if_pos hc] at h0
    rw [hneg, decide_eq_true_eq] at hc
    rw [Nat.mod_eq_of_lt (by omega)] at h0
    omega
  obtain ⟨r, ex, hr, hd⟩ := normalizeNat_delivers (K := K) (F := F) mode hs hl fl
  rw [hval]
  refine ⟨r, ex, ?_, hd⟩
  unfold internalCvtISf
  exact hr

/-! ## To integers -/

/-- Rounding to an integer goes by sign and magnitude, zeros included. -/
theorem roundInt_signed (mode : RoundingMode) {y : K} (hy : 0 ≤ y) (s : Bool) :
    roundInt mode (signed s y) = if s = true then -roundMag (mode.mag s) y else roundMag (mode.mag s) y := by
  rcases hy.eq_or_lt with rfl | hpos
  · have h0 (mm : MagMode) : roundMag mm (0 : K) = 0 := by
      have := roundMag_intCast (K := K) mm 0
      rwa [Int.cast_zero] at this
    have hsigned : signed s (0 : K) = 0 := by cases s <;> simp [signed]
    rw [hsigned, h0]
    cases mode <;> cases s <;> simp [roundInt, roundEven] <;> norm_num
  · exact roundInt_sign mode hpos s

/-- The integers of `n` bits. -/
def icvtMin (n : ℕ) (isUnsigned : Bool) : ℤ := if isUnsigned = true then 0 else -2 ^ (n - 1)

def icvtMax (n : ℕ) (isUnsigned : Bool) : ℤ := if isUnsigned = true then 2 ^ n - 1 else 2 ^ (n - 1) - 1

/-- `r_max`: the bound on the side of the sign, as a magnitude. -/
def icvtLimit (n : ℕ) (isUnsigned s : Bool) : ℕ :=
  if isUnsigned = true then (if s = true then 0 else 2 ^ n - 1) else (if s = true then 2 ^ (n - 1) else 2 ^ (n - 1) - 1)

theorem icvtLimit_eq (hn : 1 ≤ n) (isUnsigned s : Bool) :
    (if isUnsigned = true then (2 ^ n + signNat s - 1) % 2 ^ n else 1 <<< (n - 1) % 2 ^ n - (signNat s ^^^ 1)) =
      icvtLimit n isUnsigned s := by
  have hpow : 2 ^ n = 2 * 2 ^ (n - 1) := by rw [← pow_succ', Nat.sub_add_cancel hn]
  have hhalf := Nat.two_pow_pos (n - 1)
  have hone : 1 <<< (n - 1) % 2 ^ n = 2 ^ (n - 1) := by
    rw [Nat.one_shiftLeft]
    exact Nat.mod_eq_of_lt (by omega)
  rw [hone]
  cases isUnsigned <;> cases s <;> simp only [signNat, icvtLimit, if_true, Bool.false_eq_true, if_false, Nat.add_zero]
  · rfl
  · rfl
  · exact Nat.mod_eq_of_lt (by omega)
  · rw [Nat.add_sub_cancel, Nat.mod_self]

theorem icvtLimit_lt (hn : 1 ≤ n) (isUnsigned s : Bool) : icvtLimit n isUnsigned s < 2 ^ n := by
  have hpow : 2 ^ n = 2 * 2 ^ (n - 1) := by rw [← pow_succ', Nat.sub_add_cancel hn]
  have hhalf := Nat.two_pow_pos (n - 1)
  unfold icvtLimit
  cases isUnsigned <;> cases s <;> simp only [if_true, Bool.false_eq_true, if_false] <;> omega

/-- The limit is the bound that a number of that sign can exceed. -/
theorem icvtLimit_int (n : ℕ) (isUnsigned s : Bool) :
    (if s = true then icvtMin n isUnsigned else icvtMax n isUnsigned) =
      if s = true then -(icvtLimit n isUnsigned s : ℤ) else icvtLimit n isUnsigned s := by
  have hhalf := Nat.two_pow_pos (n - 1)
  have hpow := Nat.two_pow_pos n
  unfold icvtMin icvtMax icvtLimit
  cases isUnsigned <;> cases s <;> simp only [if_true, Bool.false_eq_true, if_false] <;> push_cast [Nat.cast_sub] <;> simp

/-- What a magnitude within the limit or beyond it comes to. -/
theorem icvt_clamp (n : ℕ) (isUnsigned s : Bool) (N : ℕ) (z : ℤ) (hz : z = if s = true then -(N : ℤ) else N)
    (inexact : Exceptions) :
    (if z < icvtMin n isUnsigned then (icvtMin n isUnsigned, { invalid := true })
      else if icvtMax n isUnsigned < z then (icvtMax n isUnsigned, { invalid := true }) else (z, inexact)) =
      if icvtLimit n isUnsigned s < N then (if s = true then -(icvtLimit n isUnsigned s : ℤ) else icvtLimit n isUnsigned s,
        ({ invalid := true } : Exceptions))
      else (z, inexact) := by
  have hlim := icvtLimit_int n isUnsigned s
  have hmin : icvtMin n isUnsigned ≤ 0 := by
    unfold icvtMin
    split
    · exact le_refl 0
    · exact neg_nonpos.mpr (by positivity)
  have hmax : 0 ≤ icvtMax n isUnsigned := by
    have h1 : (1 : ℤ) ≤ 2 ^ n := one_le_pow₀ (by norm_num)
    have h2 : (1 : ℤ) ≤ 2 ^ (n - 1) := one_le_pow₀ (by norm_num)
    unfold icvtMax
    split <;> omega
  subst hz
  cases s with
  | false =>
      simp only [Bool.false_eq_true, if_false] at hlim ⊢
      rw [if_neg (by omega), hlim]
      simp only [Nat.cast_lt]
  | true =>
      simp only [if_true] at hlim ⊢
      have hcond : ¬ icvtMax n isUnsigned < -(N : ℤ) := by omega
      simp only [hcond, if_false, hlim, neg_lt_neg_iff, Nat.cast_lt]

/-- The word of an integer. -/
theorem icvt_word (hn : 1 ≤ n) (isUnsigned s : Bool) {N : ℕ} (hN : N ≤ icvtLimit n isUnsigned s) :
    (if signNat s ≠ 0 then (2 ^ n - N) % 2 ^ n else N) = ((if s = true then -(N : ℤ) else N) % 2 ^ n).toNat := by
  have hlt := icvtLimit_lt hn isUnsigned s
  have hcast : ((2 ^ n : ℕ) : ℤ) = 2 ^ n := by push_cast; rfl
  cases s with
  | false =>
      simp only [signNat, Bool.false_eq_true, if_false, ne_eq, not_true_eq_false]
      rw [← hcast, ← Int.natCast_mod, Int.toNat_natCast, Nat.mod_eq_of_lt (by omega)]
  | true =>
      simp only [signNat, if_true, ne_eq, one_ne_zero, not_false_eq_true]
      have hneg : (-(N : ℤ)) % 2 ^ n = ((2 ^ n - N : ℕ) : ℤ) % 2 ^ n := by
        rw [Nat.cast_sub (by omega), hcast, sub_eq_add_neg, add_comm, Int.add_emod_right]
      rw [hneg, ← hcast, ← Int.natCast_mod, Int.toNat_natCast]

/-- The limit is its own word, for either sign. -/
theorem icvtLimit_word (hn : 1 ≤ n) (isUnsigned s : Bool) :
    ((if s = true then -(icvtLimit n isUnsigned s : ℤ) else icvtLimit n isUnsigned s) % 2 ^ n).toNat =
      icvtLimit n isUnsigned s := by
  have hpow : 2 ^ n = 2 * 2 ^ (n - 1) := by rw [← pow_succ', Nat.sub_add_cancel hn]
  have hhalf := Nat.two_pow_pos (n - 1)
  rw [← icvt_word hn isUnsigned s (le_refl _)]
  cases isUnsigned <;> cases s <;> simp only [signNat, icvtLimit, if_true, Bool.false_eq_true, if_false, ne_eq,
    not_true_eq_false, one_ne_zero, not_false_eq_true]
  · rw [Nat.mod_eq_of_lt (by omega)]
    omega
  · rw [Nat.sub_zero, Nat.mod_self]

/-- **A number below the unit of the significand** is rounded where the code shifts it to. -/
theorem rndInt_eq (mode : RoundingMode) (s : Bool) {M d : ℕ} (hM : M < 2 ^ (F.mantSize + 1)) :
    let N := rndMant F (jam (M * 2 ^ rndSize F) d) (rmAddend F (signNat s) (RoundingMode.rm mode)) (RoundingMode.rm mode)
    roundMag (mode.mag s) ((M : K) * 2 ^ (-(d : ℤ))) = N ∧
      (jam (M * 2 ^ rndSize F) d % 2 ^ rndSize F = 0 ↔ (N : K) = M * 2 ^ (-(d : ℤ))) := by
  have hsize := size_eq F
  have hk := four_le_rndSize F
  have hlt : jam (M * 2 ^ rndSize F) d < 2 ^ (F.size - 1) := by
    refine jam_lt ?_ (by omega)
    calc M * 2 ^ rndSize F < 2 ^ (F.mantSize + 1) * 2 ^ rndSize F := Nat.mul_lt_mul_of_pos_right hM (Nat.two_pow_pos _)
      _ ≤ 2 ^ (F.size - 1 + d) := by
          rw [← pow_add]
          exact Nat.pow_le_pow_right (by decide) (by omega)
  dsimp only
  rw [rmAddend_eq, rndMant_eq mode s hlt]
  set J := jam (M * 2 ^ rndSize F) d
  -- the shifted mantissa agrees with the number, on less than the halves
  have hag : Agrees (1 - (rndSize F : ℤ)) ((J : K) / 2 ^ rndSize F) (M * 2 ^ (-(d : ℤ))) := by
    have := (agrees_jam (K := K) (M * 2 ^ rndSize F) d).scale (-(rndSize F : ℤ))
    rw [← sub_eq_add_neg, zpow_neg, zpow_natCast, ← div_eq_mul_inv, ← div_eq_mul_inv] at this
    convert this using 1
    rw [zpow_neg, zpow_natCast]
    push_cast
    field_simp
  have hround := (hag.mono (show 1 - (rndSize F : ℤ) ≤ -1 by omega)).roundMag (mode.mag s)
  rw [roundMag_div _ _ (by omega)] at hround
  refine ⟨hround.symm, ?_⟩
  have hexact := (hag.mono (show 1 - (rndSize F : ℤ) ≤ 0 by omega)).eq_iff (roundShift (mode.mag s) J (rndSize F) : ℕ)
  rw [zpow_zero, mul_one, Int.cast_natCast] at hexact
  rw [eq_comm (b := (M : K) * _), ← hexact, div_eq_iff (pow_pos two_pos _).ne',
    ← roundShift_exact (mode.mag s) J (show 1 ≤ rndSize F by omega), eq_comm]
  exact_mod_cast Iff.rfl

omit [IsStrictOrderedRing K] in
/-- What is no finite number is beyond every limit. -/
theorem toIntSpec_special (mode : RoundingMode) (isUnsigned : Bool) (hfin : ¬ F.IsFinite a) :
    let s := if F.IsNan a then false else F.neg a
    F.toIntSpec K (icvtMin n isUnsigned) (icvtMax n isUnsigned) mode a =
      (if s = true then -(icvtLimit n isUnsigned s : ℤ) else icvtLimit n isUnsigned s, { invalid := true }) := by
  have hlim := icvtLimit_int n isUnsigned
  dsimp only
  unfold toIntSpec
  by_cases hn : F.IsNan a
  · have := hlim false
    simp only [Bool.false_eq_true, if_false] at this
    simp only [hn, if_true, Bool.false_eq_true, if_false, this]
  · have hi : F.IsInf a := by_contra fun hi => hfin (finite_of_not hn hi)
    rw [if_neg hn, if_pos hi, if_neg hn, hlim (F.neg a)]

/-- A finite number is rounded as a magnitude, which is within the limit or beyond it. -/
theorem toIntSpec_finite (mode : RoundingMode) (isUnsigned : Bool) (hfin : F.IsFinite a) {N : ℕ}
    (hN : roundMag (mode.mag (F.neg a)) (F.absVal a : K) = N) :
    F.toIntSpec K (icvtMin n isUnsigned) (icvtMax n isUnsigned) mode a =
      if icvtLimit n isUnsigned (F.neg a) < N then
        (if F.neg a = true then -(icvtLimit n isUnsigned (F.neg a) : ℤ) else icvtLimit n isUnsigned (F.neg a), { invalid := true })
      else (if F.neg a = true then -(N : ℤ) else N, { inexact := decide ((N : K) ≠ F.absVal a) }) := by
  have hz : roundInt mode (F.value a : K) = if F.neg a = true then -(N : ℤ) else N := by
    rw [FloatFormat.value, roundInt_signed mode (absVal_nonneg a), hN]
  have hexact : ((roundInt mode (F.value a : K) : ℤ) : K) ≠ F.value a ↔ (N : K) ≠ F.absVal a := by
    rw [hz, FloatFormat.value]
    cases F.neg a with
    | false => simp [signed]
    | true => simp [signed]
  unfold toIntSpec
  rw [if_neg (not_nan_of_finite hfin), if_neg (not_inf_of_finite hfin)]
  dsimp only
  rw [icvt_clamp n isUnsigned (F.neg a) N _ hz, hz]
  simp only [hz] at hexact
  simp only [hexact]

/-- The magnitude `N` in a word, and the flags; what is beyond the limit is invalid. -/
def icvtResult (n : ℕ) (isUnsigned s : Bool) (fl : UInt32) (N : ℕ) (inexact : Bool) : ℕ × UInt32 :=
  if icvtLimit n isUnsigned s < N then (icvtLimit n isUnsigned s, fl ||| fflagInvalidOp)
  else (if signNat s ≠ 0 then (2 ^ n - N) % 2 ^ n else N, if inexact = true then fl ||| fflagInexact else fl)

/-- It is the result of a number that is rounded to that magnitude. -/
theorem icvtResult_spec (hn : 1 ≤ n) (mode : RoundingMode) (isUnsigned : Bool) (hfin : F.IsFinite a) {N : ℕ}
    (hN : roundMag (mode.mag (F.neg a)) (F.absVal a : K) = N) {inexact : Bool}
    (hx : inexact = true ↔ (N : K) ≠ F.absVal a) (fl : UInt32) :
    icvtResult n isUnsigned (F.neg a) fl N inexact =
      (((F.toIntSpec K (icvtMin n isUnsigned) (icvtMax n isUnsigned) mode a).1 % 2 ^ n).toNat,
        fl ||| exBits (F.toIntSpec K (icvtMin n isUnsigned) (icvtMax n isUnsigned) mode a).2) := by
  rw [toIntSpec_finite mode isUnsigned hfin hN]
  unfold icvtResult
  split
  · rw [icvtLimit_word hn, exBits_invalid]
  · next h =>
    rw [icvt_word hn isUnsigned _ (not_lt.mp h), exBits_rounded]
    simp only [← hx, Bool.decide_eq_true, Bool.false_eq_true, if_false]
    congr 1
    split <;> simp

/-- A word is not changed by being cut to its size again. -/
theorem icvtResult_mod (hn : 1 ≤ n) (isUnsigned s : Bool) (fl : UInt32) (N : ℕ) (inexact : Bool) :
    (if icvtLimit n isUnsigned s < N then (icvtLimit n isUnsigned s, fl ||| fflagInvalidOp)
      else (if signNat s ≠ 0 then (2 ^ n - N % 2 ^ n) % 2 ^ n else N % 2 ^ n,
        if inexact = true then fl ||| fflagInexact else fl)) = icvtResult n isUnsigned s fl N inexact := by
  have hlimlt := icvtLimit_lt hn isUnsigned s
  unfold icvtResult
  split
  · rfl
  · next h => rw [Nat.mod_eq_of_lt ((not_lt.mp h).trans_lt hlimlt)]

/-- The sign, which a NaN does not have. -/
theorem icvtSign_eq (ha : a < 2 ^ F.size) :
    (if sfExp F a = F.expMask ∧ sfMant F a ≠ 0 then 0 else sfSign F a) =
      signNat (if F.IsNan a then false else F.neg a) := by
  have hnan : sfExp F a = F.expMask ∧ sfMant F a ≠ 0 ↔ F.IsNan a := by
    rw [sfExp_eq, sfMant_eq]
    rfl
  simp only [hnan, sfSign_eq ha]
  split <;> rfl

/-- The mantissa with its implicit bit is the significand. -/
theorem icvtMant_eq (F : FloatFormat) (a : ℕ) :
    (if sfExp F a = 0 then sfMant F a else sfMant F a ||| fUint F (1 <<< F.mantSize)) = F.sig a := by
  have hsize := size_eq F
  have hone : fUint F (1 <<< F.mantSize) = 2 ^ F.mantSize := by
    rw [Nat.one_shiftLeft]
    exact fUint_of_lt (Nat.pow_lt_pow_right (by decide) (by omega))
  have hor := Nat.two_pow_add_eq_or_of_lt (mantOf_lt F a) 1
  rw [Nat.mul_one] at hor
  rw [hone, Nat.or_comm, sfExp_eq, sfMant_eq, ← hor, sig]

/-- The conversion by sign, significand and exponent: a number of at least the unit of the significand is shifted to the
    left and is exact, any other is rounded. -/
theorem internalCvtSfI_eq (hn : 1 ≤ n) (ha : a < 2 ^ F.size) (isUnsigned : Bool) (rm fl : UInt32) :
    let s := if F.IsNan a then false else F.neg a
    let e : ℤ := F.eexp a - F.bias - F.mantSize
    internalCvtSfI F n a rm fl isUnsigned =
      if 0 ≤ e then
        if e ≤ (n : ℤ) - 1 - F.mantSize then
          icvtResult n isUnsigned s fl ((F.sig a % 2 ^ n) <<< e.toNat % 2 ^ n) false
        else (icvtLimit n isUnsigned s, fl ||| fflagInvalidOp)
      else
        let J := rshiftRnd F (F.sig a * 2 ^ rndSize F) (-e).toNat
        icvtResult n isUnsigned s fl (rndMant F J (rmAddend F (signNat s) rm) rm) (J % 2 ^ rndSize F ≠ 0) := by
  have hsize := size_eq F
  have hk := four_le_rndSize F
  have hexp : (if sfExp F a = 0 then 1 else sfExp F a) = F.eexp a := effExp_eq F a
  have hsigW : fUint F (F.sig a <<< rndSize F) = F.sig a * 2 ^ rndSize F := fUint_shl (F := F) (F.sig_lt a) (by omega)
  have hsigD : (F.sig a * 2 ^ rndSize F) >>> rndSize F = F.sig a := by
    rw [Nat.shiftRight_eq_div_pow, Nat.mul_div_cancel _ (Nat.two_pow_pos _)]
  dsimp only
  unfold internalCvtSfI
  simp only [icvtSign_eq ha, icvtMant_eq, hexp, hsigW, hsigD, icvtLimit_eq hn, half_expMask]
  split
  · unfold icvtResult
    simp only [Bool.false_eq_true, if_false]
  · rw [← icvtResult_mod hn]
    simp only [Nat.one_shiftLeft, Nat.and_two_pow_sub_one_eq_mod, decide_eq_true_eq]

/-- A number of at least the unit of the significand. -/
theorem internalCvtSfI_int (hn : 1 ≤ n) (ha : a < 2 ^ F.size) (hfin : F.IsFinite a) (isUnsigned : Bool) (rm fl : UInt32)
    {k : ℕ} (hk : (F.eexp a : ℤ) - F.bias - F.mantSize = k) :
    internalCvtSfI F n a rm fl isUnsigned = icvtResult n isUnsigned (F.neg a) fl (F.sig a * 2 ^ k) false := by
  have heq := internalCvtSfI_eq hn ha isUnsigned rm fl
  dsimp only at heq
  rw [if_neg (not_nan_of_finite hfin), hk, if_pos (Int.natCast_nonneg k)] at heq
  rw [heq]
  split
  · next hle =>
    have hfit : F.sig a * 2 ^ k < 2 ^ n := by
      calc F.sig a * 2 ^ k < 2 ^ (F.mantSize + 1) * 2 ^ k := Nat.mul_lt_mul_of_pos_right (F.sig_lt a) (Nat.two_pow_pos k)
        _ ≤ 2 ^ n := by
            rw [← pow_add]
            exact Nat.pow_le_pow_right (by decide) (by omega)
    have hsigfit : F.sig a < 2 ^ n := (F.sig_lt a).trans_le (Nat.pow_le_pow_right (by decide) (by omega))
    rw [Int.toNat_natCast, Nat.mod_eq_of_lt hsigfit, Nat.shiftLeft_eq, Nat.mod_eq_of_lt hfit]
  · next hgt =>
    -- a normal number beyond every word
    have hsig : 2 ^ F.mantSize ≤ F.sig a := (F.sig_normal a).resolve_right (by have := F.two_le_mant; omega)
    have hbig : 2 ^ n ≤ F.sig a * 2 ^ k := by
      calc 2 ^ n ≤ 2 ^ (F.mantSize + k) := Nat.pow_le_pow_right (by decide) (by omega)
        _ ≤ F.sig a * 2 ^ k := by
            rw [pow_add]
            exact Nat.mul_le_mul_right _ hsig
    unfold icvtResult
    rw [if_pos ((icvtLimit_lt hn isUnsigned (F.neg a)).trans_le hbig)]

/-- A number below the unit of the significand. -/
theorem internalCvtSfI_frac (hn : 1 ≤ n) (ha : a < 2 ^ F.size) (hfin : F.IsFinite a) (isUnsigned : Bool) (rm fl : UInt32)
    {d : ℕ} (hd : (F.eexp a : ℤ) - F.bias - F.mantSize = -(d : ℤ)) (h0 : d ≠ 0) :
    internalCvtSfI F n a rm fl isUnsigned =
      icvtResult n isUnsigned (F.neg a) fl
        (rndMant F (jam (F.sig a * 2 ^ rndSize F) d) (rmAddend F (signNat (F.neg a)) rm) rm)
        (jam (F.sig a * 2 ^ rndSize F) d % 2 ^ rndSize F ≠ 0) := by
  have hsize := size_eq F
  have hk := four_le_rndSize F
  have hW : F.sig a * 2 ^ rndSize F < 2 ^ F.size := by
    rw [← fUint_shl (F := F) (F.sig_lt a) (by omega)]
    exact fUint_lt F _
  have heq := internalCvtSfI_eq hn ha isUnsigned rm fl
  dsimp only at heq
  rw [if_neg (not_nan_of_finite hfin), hd, if_neg (by omega), neg_neg, Int.toNat_natCast, rshiftRnd_eq hW] at heq
  exact heq

/-- **Numbers are rounded to integers** of `n` bits; what does not fit is invalid. -/
theorem internalCvtSfI_spec (K : Type*) [Field K] [LinearOrder K] [IsStrictOrderedRing K] [FloorRing K]
    (mode : RoundingMode) (hF : F.mantSize ≤ F.bias + 1) (hn : 1 ≤ n) (hnF : n ≤ F.bias + 1) (ha : a < 2 ^ F.size)
    (isUnsigned : Bool) (fl : UInt32) :
    internalCvtSfI F n a (RoundingMode.rm mode) fl isUnsigned =
      (((F.toIntSpec K (icvtMin n isUnsigned) (icvtMax n isUnsigned) mode a).1 % 2 ^ n).toNat,
        fl ||| exBits (F.toIntSpec K (icvtMin n isUnsigned) (icvtMax n isUnsigned) mode a).2) := by
  by_cases hfin : F.IsFinite a
  · by_cases hk0 : 0 ≤ (F.eexp a : ℤ) - F.bias - F.mantSize
    · obtain ⟨k, hk⟩ := Int.eq_ofNat_of_zero_le hk0
      have hval : (F.absVal a : K) = ((F.sig a * 2 ^ k : ℕ) : ℤ) := by
        unfold absVal
        rw [hk, zpow_natCast]
        push_cast
        rfl
      rw [internalCvtSfI_int hn ha hfin isUnsigned _ fl hk]
      refine icvtResult_spec hn mode isUnsigned hfin ?_ ?_ fl
      · rw [hval, roundMag_intCast]
      · rw [hval]
        simp
    · obtain ⟨d, hd⟩ : ∃ d : ℕ, (F.eexp a : ℤ) - F.bias - F.mantSize = -(d : ℤ) :=
        ⟨(-((F.eexp a : ℤ) - F.bias - F.mantSize)).toNat, by omega⟩
      obtain ⟨hround, hexact⟩ := rndInt_eq (K := K) mode (F.neg a) (d := d) (F.sig_lt a)
      have hval : (F.absVal a : K) = F.sig a * 2 ^ (-(d : ℤ)) := by rw [absVal, hd]
      rw [← hval] at hround hexact
      rw [internalCvtSfI_frac hn ha hfin isUnsigned _ fl hd (by omega)]
      refine icvtResult_spec hn mode isUnsigned hfin hround ?_ fl
      rw [decide_eq_true_eq]
      exact not_congr hexact
  · -- infinities and NaNs have an exponent beyond every word
    have hmask := expMask_eq F
    have hE : F.eexp a = F.expMask := by
      have := one_lt_expMask F
      rw [eexp, show F.expOf a = F.expMask from not_not.mp hfin]
      omega
    have heq := internalCvtSfI_eq hn ha isUnsigned (RoundingMode.rm mode) fl
    dsimp only at heq
    rw [hE, if_pos (by omega), if_neg (by omega)] at heq
    rw [heq, toIntSpec_special mode isUnsigned hfin, icvtLimit_word hn, exBits_invalid]

end HadBadge
