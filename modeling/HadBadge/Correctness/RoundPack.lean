import HadBadge.Emu.SoftFp

/-!
# `Correctness.RoundPack`: rounding and packing is correct

`round_pack_sf` rounds what it is given as the format asks for, in every mode, subnormal results and overflows
included; `normalize_sf` and `normalize2_sf` too, where the mantissa is as exact as the shift needs.

## Contents
- **Fields.** The fields of a pattern as the code takes them (`sfSign_eq` … `issignanSf_eq`, `packSf_eq`).
- **Rounding.** `RoundingMode.rm`, `exBits`; `rmAddend_eq`, `rndMant_eq`.
- **Packing.** `packRounded_spec`, `roundPackSf_rounds`.
- **Normalizing.** `normalizeSf_rounds`, `normalize2Sf_rounds`.
-/

namespace HadBadge

open Lib Lib.FloatFormat

variable {F : FloatFormat} {a b m n : ℕ}

/-! ## Fields -/

theorem size_sub_one (F : FloatFormat) : F.size - 1 = F.mantSize + F.expSize := rfl

theorem rndSize_eq (F : FloatFormat) : rndSize F = F.expSize - 1 := by
  have := F.five_le_exp
  unfold rndSize imantSize FloatFormat.size
  omega

theorem imantSize_eq (F : FloatFormat) : imantSize F = F.mantSize + rndSize F := by
  have := F.five_le_exp
  rw [rndSize_eq]
  unfold imantSize FloatFormat.size
  omega

theorem size_eq (F : FloatFormat) : F.size = F.mantSize + rndSize F + 2 := by
  have := F.five_le_exp
  rw [rndSize_eq]
  unfold FloatFormat.size
  omega

theorem four_le_rndSize (F : FloatFormat) : 4 ≤ rndSize F := by
  have := F.five_le_exp
  rw [rndSize_eq]
  omega

theorem one_lt_expMask (F : FloatFormat) : 1 < F.expMask := by
  have := Nat.pow_le_pow_right (n := 2) (by decide) F.five_le_exp
  unfold FloatFormat.expMask
  omega

theorem fUint_of_lt (h : n < 2 ^ F.size) : fUint F n = n := Nat.mod_eq_of_lt h

theorem fUint_lt (F : FloatFormat) (n : ℕ) : fUint F n < 2 ^ F.size := Nat.mod_lt n (Nat.two_pow_pos _)

/-- A sign in the words of the code. -/
def signNat (neg : Bool) : ℕ := if neg = true then 1 else 0

theorem sfSign_eq (ha : a < 2 ^ F.size) : sfSign F a = signNat (F.neg a) := by
  have hsize : 2 ^ F.size = 2 ^ (F.mantSize + F.expSize) * 2 := by rw [FloatFormat.size, pow_succ]
  unfold sfSign
  rw [size_sub_one, Nat.shiftRight_eq_div_pow]
  have hlt : a / 2 ^ (F.mantSize + F.expSize) < 2 := Nat.div_lt_of_lt_mul (by omega)
  simp only [signNat, neg, decide_eq_true_eq]
  split
  · next h =>
    have := (Nat.one_le_div_iff (Nat.two_pow_pos (F.mantSize + F.expSize))).mpr h
    omega
  · next h => exact Nat.div_eq_of_lt (by omega)

theorem signNat_inj {x y : Bool} : signNat x = signNat y ↔ x = y := by
  cases x <;> cases y <;> decide

theorem signNat_xor (x y : Bool) : signNat x ^^^ signNat y = signNat (x ^^ y) := by
  cases x <;> cases y <;> rfl

theorem sfExp_eq (F : FloatFormat) (a : ℕ) : sfExp F a = F.expOf a := by
  unfold sfExp FloatFormat.expMask
  rw [Nat.and_two_pow_sub_one_eq_mod, Nat.shiftRight_eq_div_pow]
  rfl

theorem mantMask_eq (F : FloatFormat) : mantMask F = 2 ^ F.mantSize - 1 := by
  unfold mantMask
  rw [Nat.one_shiftLeft]

theorem sfMant_eq (F : FloatFormat) (a : ℕ) : sfMant F a = F.mantOf a := by
  unfold sfMant
  rw [mantMask_eq, Nat.and_two_pow_sub_one_eq_mod]
  rfl

theorem isnanSf_eq (F : FloatFormat) (a : ℕ) : isnanSf F a = decide (F.IsNan a) := by
  unfold isnanSf
  rw [sfExp_eq, sfMant_eq]
  rfl

theorem issignanSf_eq (F : FloatFormat) (a : ℕ) : issignanSf F a = decide (F.IsSignaling a) := by
  have hmant := F.two_le_mant
  obtain ⟨p, hp⟩ : ∃ p, F.mantSize = p + 1 := ⟨F.mantSize - 1, by omega⟩
  unfold issignanSf
  rw [← sfMant, sfMant_eq, Nat.shiftRight_eq_div_pow, Nat.one_shiftLeft, Nat.and_two_pow_sub_one_eq_mod, pow_succ 2 F.expSize]
  -- the exponent with the quiet bit below it is twice the exponent
  have hsplit : a / 2 ^ (F.mantSize - 1) % (2 ^ F.expSize * 2) =
      2 * F.expOf a + a / 2 ^ (F.mantSize - 1) % 2 := by
    rw [Nat.mul_comm (2 ^ F.expSize), Nat.mod_mul, Nat.div_div_eq_div_mul, ← pow_succ, expOf, hp, Nat.add_sub_cancel]
    omega
  have hquiet : a / 2 ^ (F.mantSize - 1) % 2 = 0 ↔ F.mantOf a < 2 ^ (F.mantSize - 1) := by
    rw [mantOf, hp, Nat.add_sub_cancel, pow_succ, Nat.mod_mul]
    have := Nat.mod_lt a (Nat.two_pow_pos p)
    obtain h | h : a / 2 ^ p % 2 = 0 ∨ a / 2 ^ p % 2 = 1 := by omega
    all_goals
      rw [h]
      omega
  rw [hsplit]
  simp only [IsSignaling, IsNan]
  congr 1
  rw [← hquiet]
  have := Nat.mod_lt (a / 2 ^ (F.mantSize - 1)) two_pos
  apply propext
  constructor
  · rintro ⟨h, h0⟩
    exact ⟨⟨by omega, h0⟩, by omega⟩
  · rintro ⟨⟨h, h0⟩, hq⟩
    exact ⟨by omega, h0⟩

/-- A pattern is its sign, its exponent and its mantissa. -/
theorem packSf_eq (s : Bool) {e : ℕ} (he : e ≤ F.expMask) (m : ℕ) :
    packSf F (signNat s) e m = F.signBit s + (e * 2 ^ F.mantSize + m % 2 ^ F.mantSize) := by
  have hexp : e < 2 ^ F.expSize := by
    have := F.expMask_succ
    omega
  have hmant : m % 2 ^ F.mantSize < 2 ^ F.mantSize := Nat.mod_lt m (Nat.two_pow_pos _)
  have hlow : e * 2 ^ F.mantSize + m % 2 ^ F.mantSize < 2 ^ (F.mantSize + F.expSize) := by
    rw [pow_add]
    have := Nat.mul_le_mul_right (2 ^ F.mantSize) (show e + 1 ≤ 2 ^ F.expSize by omega)
    rw [Nat.add_mul, Nat.mul_comm (2 ^ F.expSize)] at this
    omega
  have hsize : 2 ^ F.size = 2 * 2 ^ (F.mantSize + F.expSize) := by rw [FloatFormat.size, pow_succ, Nat.mul_comm]
  have hsign : fUint F (signNat s <<< (F.size - 1)) = 2 ^ (F.mantSize + F.expSize) * signNat s := by
    rw [size_sub_one, Nat.shiftLeft_eq, Nat.mul_comm]
    apply fUint_of_lt
    have := Nat.two_pow_pos (F.mantSize + F.expSize)
    cases s with
    | false => simp only [signNat, Bool.false_eq_true, if_false]; omega
    | true => simp only [signNat, if_true]; omega
  have hefield : fUint F (e <<< F.mantSize) = 2 ^ F.mantSize * e := by
    rw [Nat.shiftLeft_eq, Nat.mul_comm]
    apply fUint_of_lt
    rw [Nat.mul_comm] at hlow
    omega
  unfold packSf
  rw [hsign, hefield, ← sfMant, sfMant_eq, mantOf, Nat.or_assoc, ← Nat.two_pow_add_eq_or_of_lt hmant,
    ← Nat.two_pow_add_eq_or_of_lt (by rwa [Nat.mul_comm]), Nat.mul_comm (2 ^ F.mantSize)]
  congr 1
  cases s with
  | false => rfl
  | true => exact Nat.mul_one _

theorem fQnan_eq (F : FloatFormat) : fQnan F = F.qnan := by
  have hmant := F.two_le_mant
  unfold fQnan FloatFormat.qnan
  rw [Nat.one_shiftLeft, Nat.shiftLeft_eq, Nat.mul_comm,
    ← Nat.two_pow_add_eq_or_of_lt (Nat.pow_lt_pow_right (by decide) (by omega))]

/-! ### Special operands -/

theorem isZero_iff (F : FloatFormat) (a : ℕ) : sfExp F a = 0 ∧ sfMant F a = 0 ↔ F.IsZero a := by
  rw [sfExp_eq, sfMant_eq]
  rfl

theorem inf_iff (hn : ¬ F.IsNan a) : sfExp F a = F.expMask ↔ F.IsInf a := by
  rw [sfExp_eq]
  exact ⟨fun h => by_contra fun hc => hn ⟨h, fun h0 => hc ⟨h, h0⟩⟩, fun h => h.1⟩

/-- An operand is a NaN, an infinity, or finite. -/
theorem not_inf_of_finite (h : F.IsFinite a) : ¬ F.IsInf a := fun hi => h hi.1

theorem not_nan_of_finite (h : F.IsFinite a) : ¬ F.IsNan a := fun hn => h hn.1

theorem not_zero_of_exp (h : F.expOf a = F.expMask) : ¬ F.IsZero a := by
  rintro ⟨h0, -⟩
  have := one_lt_expMask F
  omega

theorem packSf_inf (s : Bool) : packSf F (signNat s) F.expMask 0 = F.signBit s + F.infMag := by
  rw [packSf_eq s (le_refl _), Nat.zero_mod, Nat.add_zero, infMag]

/-! ## Rounding -/

/-- The number of a rounding mode. -/
def RoundingMode.rm : RoundingMode → UInt32
  | .rne => rmRne
  | .rtz => rmRtz
  | .rdn => rmRdn
  | .rup => rmRup
  | .rmm => rmRmm

/-- Exceptions as flags. -/
def exBits (ex : Exceptions) : UInt32 :=
  (if ex.invalid = true then fflagInvalidOp else 0) ||| (if ex.divZero = true then fflagDivideZero else 0) |||
    (if ex.overflow = true then fflagOverflow else 0) ||| (if ex.underflow = true then fflagUnderflow else 0) |||
      (if ex.inexact = true then fflagInexact else 0)

theorem rmAddend_eq (mode : RoundingMode) (s : Bool) :
    rmAddend F (signNat s) (RoundingMode.rm mode) = (mode.mag s).addend (rndSize F) := by
  cases mode <;> cases s <;>
    simp [rmAddend, RoundingMode.rm, RoundingMode.mag, MagMode.addend, rmRne, rmRtz, rmRdn, rmRup, rmRmm, signNat, Nat.one_shiftLeft]

theorem rm_eq_rne (mode : RoundingMode) (s : Bool) : RoundingMode.rm mode = rmRne ↔ mode.mag s = .even := by
  cases mode <;> cases s <;> decide

theorem rm_eq_rdn (mode : RoundingMode) : RoundingMode.rm mode = rmRdn ↔ mode = .rdn := by
  cases mode <;> decide

theorem addend_lt (mm : MagMode) {k : ℕ} (hk : 1 ≤ k) : mm.addend k < 2 ^ k := by
  have hhalf : 2 ^ (k - 1) < 2 ^ k := Nat.pow_lt_pow_right (by decide) (by omega)
  have := Nat.two_pow_pos k
  cases mm <;> simp only [MagMode.addend] <;> omega

theorem rndMant_eq (mode : RoundingMode) (s : Bool) (hm : m < 2 ^ (F.size - 1)) :
    rndMant F m ((mode.mag s).addend (rndSize F)) (RoundingMode.rm mode) = roundShift (mode.mag s) m (rndSize F) := by
  have hk := four_le_rndSize F
  have hadd := addend_lt (mode.mag s) (k := rndSize F) (by omega)
  have hk' : 2 ^ rndSize F ≤ 2 ^ (F.size - 1) := Nat.pow_le_pow_right (by decide) (by rw [size_eq]; omega)
  have hsize : 2 ^ F.size = 2 * 2 ^ (F.size - 1) := by rw [size_sub_one, FloatFormat.size, pow_succ, Nat.mul_comm]
  have hsum : fUint F (m + (mode.mag s).addend (rndSize F)) = m + (mode.mag s).addend (rndSize F) := fUint_of_lt (by omega)
  have hquot : (m + (mode.mag s).addend (rndSize F)) / 2 ^ rndSize F < 2 ^ F.size :=
    (Nat.div_le_self _ _).trans_lt (by omega)
  unfold rndMant roundShift
  simp only [hsum, Nat.shiftRight_eq_div_pow, Nat.one_shiftLeft, Nat.and_two_pow_sub_one_eq_mod, rm_eq_rne mode s]
  split
  · have heven := and_high hquot (j := 1) (by rw [size_eq]; omega)
    rw [pow_one] at heven
    exact heven
  · rfl

/-! ## Packing -/

theorem addend_eq_zero {mm : MagMode} {k : ℕ} (hk : 1 ≤ k) : mm.addend k = 0 ↔ mm = .down := by
  have := Nat.two_pow_pos (k - 1)
  have := Nat.pow_le_pow_right (n := 2) (by decide) hk
  cases mm <;> simp only [MagMode.addend, reduceCtorEq, iff_false] <;> omega

/-- The patterns that `round_pack_sf` comes to, for an exponent from 1 on. -/
theorem packRounded_eq (mode : RoundingMode) (s : Bool) {E : ℕ} (hE : 1 ≤ E) (hm : m < 2 ^ (F.size - 1))
    (hnorm : 2 ^ (F.size - 2) ≤ m ∨ E = 1) (fl : UInt32) :
    packRounded F (signNat s) E m ((mode.mag s).addend (rndSize F)) (RoundingMode.rm mode) fl =
      let r := (E - 1) * 2 ^ F.mantSize + roundShift (mode.mag s) m (rndSize F)
      let fl := if m % 2 ^ rndSize F ≠ 0 then fl ||| fflagInexact else fl
      if F.infMag ≤ r then (F.signBit s + F.overflowMag (mode.mag s), fl ||| (fflagOverflow ||| fflagInexact))
      else (F.signBit s + r, fl) := by
  have hk := four_le_rndSize F
  have hmask := one_lt_expMask F
  have hpos := Nat.two_pow_pos F.mantSize
  have hsize := size_eq F
  have hN : roundShift (mode.mag s) m (rndSize F) ≤ 2 ^ (F.mantSize + 1) :=
    roundShift_le _ (by omega) (by rw [show F.mantSize + 1 + rndSize F = F.size - 1 by omega]; exact hm.le)
  have hnorm' : 2 ^ F.mantSize ≤ roundShift (mode.mag s) m (rndSize F) ∨ E = 1 :=
    hnorm.imp_left (fun h => le_roundShift _ (by omega) (by rwa [show F.mantSize + rndSize F = F.size - 2 by omega]))
  unfold packRounded
  rw [rndMant_eq mode s hm, mantMask_eq]
  simp only [Nat.one_shiftLeft, Nat.and_two_pow_sub_one_eq_mod, Nat.shiftRight_eq_div_pow]
  set N := roundShift (mode.mag s) m (rndSize F) with hNdef
  set fl' := if m % 2 ^ rndSize F ≠ 0 then fl ||| fflagInexact else fl with hfl
  have hinf : F.infMag = F.expMask * 2 ^ F.mantSize := rfl
  rw [pow_succ] at hN
  rw [pow_succ]
  by_cases hsub : N ≤ 2 ^ F.mantSize - 1
  · -- subnormal: the exponent is 1
    obtain rfl : E = 1 := hnorm'.resolve_left (by omega)
    have := Nat.mul_le_mul_right (2 ^ F.mantSize) hmask.le
    rw [if_pos hsub, if_neg (by omega), packSf_eq s (Nat.zero_le _), Nat.mod_eq_of_lt (by omega)]
  · rw [if_neg hsub]
    obtain ⟨e, rfl⟩ : ∃ e, E = e + 1 := ⟨E - 1, by omega⟩
    rw [Nat.add_sub_cancel]
    -- the significand has carried over to the next exponent or not
    obtain ⟨c, hc, hN'⟩ : ∃ c ≤ 1, N / (2 ^ F.mantSize * 2) = c ∧ N = (1 + c) * 2 ^ F.mantSize + N % 2 ^ F.mantSize := by
      rcases Nat.lt_or_ge N (2 ^ F.mantSize * 2) with hlt | hge
      · refine ⟨0, by omega, Nat.div_eq_of_lt hlt, ?_⟩
        rw [Nat.mod_eq_sub_mod (by omega), Nat.mod_eq_of_lt (by omega)]
        omega
      · obtain hNeq : N = 2 ^ F.mantSize * 2 := by omega
        refine ⟨1, by omega, ?_, ?_⟩
        · rw [hNeq, Nat.div_self (by omega)]
        · rw [hNeq, Nat.mul_mod_right]
          omega
    have hr : e * 2 ^ F.mantSize + N = (e + 1 + c) * 2 ^ F.mantSize + N % 2 ^ F.mantSize := by
      rw [show (e + 1 + c) * 2 ^ F.mantSize + N % 2 ^ F.mantSize = e * 2 ^ F.mantSize + ((1 + c) * 2 ^ F.mantSize +
        N % 2 ^ F.mantSize) by ring, ← hN'.2]
    have hmod := Nat.mod_lt N hpos
    have hov : F.infMag ≤ e * 2 ^ F.mantSize + N ↔ F.expMask ≤ e + 1 + c := by
      rw [hr, hinf]
      constructor
      · intro h
        by_contra hlt
        have := Nat.mul_le_mul_right (2 ^ F.mantSize) (show e + 1 + c + 1 ≤ F.expMask by omega)
        rw [Nat.add_mul (e + 1 + c), Nat.one_mul] at this
        omega
      · intro h
        exact (Nat.mul_le_mul_right (2 ^ F.mantSize) h).trans (Nat.le_add_right _ _)
    have hexp : (F.expMask : ℤ) ≤ (e + 1 : ℕ) + (N / (2 ^ F.mantSize * 2) : ℕ) ↔ F.expMask ≤ e + 1 + c := by
      rw [hN'.1]
      omega
    simp only [hexp, hov]
    split
    · rw [packSf_eq s (Nat.sub_le _ _), packSf_eq s (le_refl _)]
      simp only [addend_eq_zero (show 1 ≤ rndSize F by omega), overflowMag]
      split
      · rw [Nat.mod_eq_of_lt (by omega), maxMag]
        have : (F.expMask - 1) * 2 ^ F.mantSize + 2 ^ F.mantSize = F.expMask * 2 ^ F.mantSize := by
          rw [← Nat.succ_mul, Nat.succ_eq_add_one, Nat.sub_add_cancel hmask.le]
        congr 1
        omega
      · rw [Nat.zero_mod, Nat.add_zero, infMag]
    · next hlt =>
      have htoNat : ((((e + 1 : ℕ) : ℤ) + (N / (2 ^ F.mantSize * 2) : ℕ)).toNat) = e + 1 + c := by
        rw [hN'.1]
        omega
      rw [htoNat, packSf_eq s (by omega), hr]

theorem rshiftRnd_eq {d : ℕ} (ha : a < 2 ^ F.size) : rshiftRnd F a d = jam a d := by
  unfold rshiftRnd jam
  by_cases h0 : d = 0
  · subst h0
    simp [Nat.mod_one]
  · rw [if_pos h0]
    by_cases hd : F.size ≤ d
    · have hlt : a < 2 ^ d := ha.trans_le (Nat.pow_le_pow_right (by decide) hd)
      rw [if_pos hd, Nat.shiftRight_eq_div_pow, Nat.div_eq_of_lt hlt, Nat.mod_eq_of_lt hlt, Nat.zero_or]
      split <;> simp_all
    · have hmask : fUint F (1 <<< d) = 2 ^ d := by
        rw [Nat.one_shiftLeft]
        exact fUint_of_lt (Nat.pow_lt_pow_right (by decide) (by omega))
      rw [if_neg hd, hmask]
      simp only [Nat.and_two_pow_sub_one_eq_mod, ne_eq, ite_not]

variable {K : Type*} [Field K] [LinearOrder K] [IsStrictOrderedRing K] [FloorRing K]

theorem exBits_rounded (u i : Bool) (fl : UInt32) :
    fl ||| exBits { underflow := u, inexact := i } =
      (if u = true then fl ||| fflagUnderflow else fl) ||| (if i = true then fflagInexact else 0) := by
  cases u <;> cases i <;> simp [exBits, UInt32.or_assoc]

theorem invalidIf_eq (c : Bool) (fl : UInt32) : invalidIf c fl = fl ||| exBits { invalid := c } := by
  cases c <;> simp [invalidIf, exBits]

theorem exBits_none (fl : UInt32) : fl = fl ||| exBits {} := by simp [exBits]

theorem exBits_invalid (fl : UInt32) : fl ||| fflagInvalidOp = fl ||| exBits { invalid := true } := by simp [exBits]

theorem exBits_overflow (c : Prop) [Decidable c] (fl : UInt32) :
    (if c then fl ||| fflagInexact else fl) ||| (fflagOverflow ||| fflagInexact) =
      fl ||| exBits { overflow := true, inexact := true } := by
  have hbits : exBits { overflow := true, inexact := true } = fflagOverflow ||| fflagInexact := by decide
  have hidem : fflagInexact ||| (fflagOverflow ||| fflagInexact) = fflagOverflow ||| fflagInexact := by decide
  rw [hbits]
  split
  · rw [UInt32.or_assoc, hidem]
  · rfl

attribute [local instance] two_atLeastTwo in
/-- The number that `round_pack_sf` is given. -/
def packed (F : FloatFormat) (K : Type*) [Field K] (e : ℤ) (m : ℕ) : K := m * 2 ^ (e - F.bias - (F.size - 2 : ℕ))

/-- `round_pack_sf` for an exponent from 1 on. -/
theorem roundPackSf_normal (mode : RoundingMode) (s : Bool) {E : ℕ} (hE : 1 ≤ E) (h0 : 2 ^ (F.size - 2) ≤ m)
    (h1 : m < 2 ^ (F.size - 1)) (fl : UInt32) :
    ∃ r ex, roundPackSf F (signNat s) E m (RoundingMode.rm mode) fl = (F.signBit s + r, fl ||| exBits ex) ∧
      F.RoundsMag (mode.mag s) (packed F K E m) r ex := by
  have hk := four_le_rndSize F
  have hsize := size_eq F
  have hlog : Int.log 2 (packed F K E m) = (E : ℤ) - F.bias := by
    unfold packed
    rw [log_scaled h0 (by rwa [show F.size - 2 + 1 = F.size - 1 by omega])]
    ring
  have hround : roundMagAt (mode.mag s) ((E : ℤ) - F.bias - F.mantSize) (packed F K E m) =
      (roundShift (mode.mag s) m (rndSize F) : ℕ) * 2 ^ ((E : ℤ) - F.bias - F.mantSize) := by
    have := roundMagAt_scaled (K := K) (mode.mag s) m (show 1 ≤ rndSize F by omega) ((E : ℤ) - F.bias - (F.size - 2 : ℕ))
    rwa [show (E : ℤ) - F.bias - (F.size - 2 : ℕ) + rndSize F = (E : ℤ) - F.bias - F.mantSize by omega] at this
  have hlow := le_roundShift (mode.mag s) (m := m) (k := rndSize F) (n := F.mantSize) (by omega)
    (by rwa [show F.mantSize + rndSize F = F.size - 2 by omega])
  have hhigh := roundShift_le (mode.mag s) (m := m) (k := rndSize F) (n := F.mantSize + 1) (by omega)
    (by rw [show F.mantSize + 1 + rndSize F = F.size - 1 by omega]; exact h1.le)
  have hexact : ((roundShift (mode.mag s) m (rndSize F) : ℕ) : K) * 2 ^ ((E : ℤ) - F.bias - F.mantSize) = packed F K E m ↔
      m % 2 ^ rndSize F = 0 := by
    rw [← roundShift_exact (mode.mag s) m (show 1 ≤ rndSize F by omega), packed,
      show (E : ℤ) - F.bias - F.mantSize = rndSize F + ((E : ℤ) - F.bias - (F.size - 2 : ℕ)) by omega,
      zpow_add₀ two_ne_zero, ← mul_assoc, mul_left_inj' (zpow_pos two_pos _).ne', zpow_natCast]
    exact_mod_cast Iff.rfl
  have hmax : max ((E : ℤ) - F.bias) F.emin = (E : ℤ) - F.bias := by
    unfold FloatFormat.emin
    omega
  set N := roundShift (mode.mag s) m (rndSize F) with hN
  -- nothing from the smallest normal number on underflows
  have htiny : ¬ (N : K) * 2 ^ ((E : ℤ) - F.bias - F.mantSize) < 2 ^ F.emin := by
    rw [not_lt]
    calc (2 : K) ^ F.emin ≤ 2 ^ ((E : ℤ) - F.bias) := zpow_le_zpow_right₀ one_le_two (by unfold FloatFormat.emin; omega)
      _ = 2 ^ F.mantSize * 2 ^ ((E : ℤ) - F.bias - F.mantSize) := by
          rw [← zpow_natCast, ← zpow_add₀ two_ne_zero]
          congr 1
          ring
      _ ≤ (N : K) * 2 ^ ((E : ℤ) - F.bias - F.mantSize) :=
          mul_le_mul_of_nonneg_right (by exact_mod_cast hlow) (zpow_pos two_pos _).le
  have hpat := infMag_le_pattern (F := F) (K := K) hE hlow hhigh
  unfold roundPackSf
  rw [if_neg (by omega), rmAddend_eq, packRounded_eq mode s hE h1 (.inl h0) fl]
  simp only [← hN]
  by_cases hov : F.infMag ≤ (E - 1) * 2 ^ F.mantSize + N
  · rw [if_pos hov, exBits_overflow]
    refine ⟨_, _, rfl, ⟨fun _ => ⟨rfl, rfl⟩, fun h => ?_⟩⟩
    rw [hlog, hround] at h
    exact absurd (hpat.mp hov) (not_le.mpr h)
  · rw [if_neg hov]
    refine ⟨(E - 1) * 2 ^ F.mantSize + N, { inexact := decide (m % 2 ^ rndSize F ≠ 0) }, ?_,
      ⟨fun h => ?_, fun _ => ⟨?_, ?_, ?_⟩⟩⟩
    · rw [exBits_rounded false]
      congr 1
      by_cases hx : m % 2 ^ rndSize F = 0 <;> simp [hx]
    · rw [hlog, hround] at h
      exact absurd (hpat.mpr h) hov
    · omega
    · rw [hlog, hmax, hround]
      exact absVal_pattern hE hhigh (.inl hlow) (lt_of_lt_infMag (by omega))
    · simp only [hlog, hmax, hround, ne_eq, hexact, htiny, and_false, decide_false]

/-- `round_pack_sf` for an exponent up to 0: the mantissa is shifted to exponent 1, with a sticky bit. -/
theorem roundPackSf_subnormal (mode : RoundingMode) (s : Bool) {e : ℤ} (he : e ≤ 0) (h0 : 2 ^ (F.size - 2) ≤ m)
    (h1 : m < 2 ^ (F.size - 1)) (fl : UInt32) :
    ∃ r ex, roundPackSf F (signNat s) e m (RoundingMode.rm mode) fl = (F.signBit s + r, fl ||| exBits ex) ∧
      F.RoundsMag (mode.mag s) (packed F K e m) r ex := by
  have hk := four_le_rndSize F
  have hsize := size_eq F
  obtain ⟨d, rfl⟩ : ∃ d : ℕ, e = 1 - d := ⟨(1 - e).toNat, by omega⟩
  have hd : 1 ≤ d := by omega
  set z : ℤ := 1 - d - F.bias - (F.size - 2 : ℕ) with hz
  have hlog : Int.log 2 (packed F K (1 - d) m) = 1 - (d : ℤ) - F.bias := by
    unfold packed
    rw [log_scaled h0 (by rwa [show F.size - 2 + 1 = F.size - 1 by omega])]
    ring
  -- rounded without a bound on the exponent
  have hun : roundMagAt (mode.mag s) (1 - (d : ℤ) - F.bias - F.mantSize) (packed F K (1 - d) m) =
      (roundShift (mode.mag s) m (rndSize F) : ℕ) * 2 ^ (1 - (d : ℤ) - F.bias - F.mantSize) := by
    have := roundMagAt_scaled (K := K) (mode.mag s) m (show 1 ≤ rndSize F by omega) z
    rwa [show z + rndSize F = 1 - (d : ℤ) - F.bias - F.mantSize by omega] at this
  have hhigh := roundShift_le (mode.mag s) (m := m) (k := rndSize F) (n := F.mantSize + 1) (by omega)
    (by rw [show F.mantSize + 1 + rndSize F = F.size - 1 by omega]; exact h1.le)
  have hhighK : ((roundShift (mode.mag s) m (rndSize F) : ℕ) : K) * 2 ^ (1 - (d : ℤ) - F.bias - F.mantSize) ≤
      2 ^ (2 - (d : ℤ) - F.bias) := by
    rw [show 2 - (d : ℤ) - F.bias = (F.mantSize + 1 : ℕ) + (1 - (d : ℤ) - F.bias - F.mantSize) by push_cast; ring,
      zpow_add₀ two_ne_zero, zpow_natCast]
    exact mul_le_mul_of_nonneg_right (by exact_mod_cast hhigh) (zpow_pos two_pos _).le
  have htiny : ((roundShift (mode.mag s) m (rndSize F) : ℕ) : K) * 2 ^ (1 - (d : ℤ) - F.bias - F.mantSize) < 2 ^ F.emin ↔
      2 ≤ d ∨ m + (mode.mag s).addend (rndSize F) < 2 ^ (F.size - 1) := by
    rcases Nat.lt_or_ge 1 d with hlt | hge
    · exact iff_of_true (hhighK.trans_lt (zpow_lt_zpow_right₀ one_lt_two (by unfold FloatFormat.emin; omega))) (.inl hlt)
    · obtain rfl : d = 1 := by omega
      rw [show F.emin = (F.mantSize + 1 : ℕ) + (1 - ((1 : ℕ) : ℤ) - F.bias - F.mantSize) by
          unfold FloatFormat.emin; push_cast; ring, zpow_add₀ two_ne_zero, zpow_natCast,
        mul_lt_mul_iff_left₀ (zpow_pos two_pos _), show F.size - 1 = F.mantSize + 1 + rndSize F by omega,
        ← roundShift_lt_iff]
      rw [show (2 : K) ^ (F.mantSize + 1) = ((2 ^ (F.mantSize + 1) : ℕ) : K) by push_cast; rfl, Nat.cast_lt]
      omega
  -- rounded with it
  have hm' : jam m d ≤ 2 ^ (F.mantSize + rndSize F) := by
    refine jam_le (h1.le.trans (Nat.pow_le_pow_right (by decide) (by omega))) (by omega)
  have hm'' : jam m d < 2 ^ (F.size - 1) := hm'.trans_lt (Nat.pow_lt_pow_right (by decide) (by omega))
  have hlow := roundShift_le (mode.mag s) (by omega) hm'
  have hag : Agrees (1 - (F.bias : ℤ) - F.mantSize - 1) (packed F K (1 - d) m) ((jam m d : ℕ) * 2 ^ (z + d) : K) := by
    have := (agrees_jam (K := K) m d).scale (z + d)
    have heq : (m : K) / 2 ^ d * 2 ^ (z + d) = packed F K (1 - d) m := by
      rw [zpow_add₀ two_ne_zero, zpow_natCast, packed, ← hz]
      field_simp
    rw [heq] at this
    exact (this.mono (by omega)).symm
  obtain ⟨hbd, hexact⟩ := roundMagAt_congr hag (mode.mag s)
  have hbd' := roundMagAt_scaled (K := K) (mode.mag s) (jam m d) (show 1 ≤ rndSize F by omega) (z + d)
  rw [show z + d + rndSize F = 1 - (F.bias : ℤ) - F.mantSize by omega] at hbd'
  rw [hbd', show 1 - (F.bias : ℤ) - F.mantSize = rndSize F + (z + d) by omega, zpow_add₀ two_ne_zero, ← mul_assoc,
    mul_left_inj' (zpow_pos two_pos _).ne', zpow_natCast,
    show ((roundShift (mode.mag s) (jam m d) (rndSize F) : ℕ) : K) * 2 ^ rndSize F = (jam m d : ℕ) ↔
      roundShift (mode.mag s) (jam m d) (rndSize F) * 2 ^ rndSize F = jam m d by exact_mod_cast Iff.rfl,
    roundShift_exact _ _ (by omega), show (rndSize F : ℤ) + (z + d) = 1 - (F.bias : ℤ) - F.mantSize by omega] at hexact
  have hmax : max (1 - (d : ℤ) - F.bias) F.emin = 1 - (F.bias : ℤ) := by
    unfold FloatFormat.emin
    omega
  have hmask := one_lt_expMask F
  have hinf : F.infMag = F.expMask * 2 ^ F.mantSize := rfl
  have hfit := Nat.mul_le_mul_right (2 ^ F.mantSize) (show 2 ≤ F.expMask by omega)
  have hpos := Nat.two_pow_pos F.mantSize
  set N := roundShift (mode.mag s) (jam m d) (rndSize F) with hN
  -- what the code does
  have hsum : fUint F (m + (mode.mag s).addend (rndSize F)) = m + (mode.mag s).addend (rndSize F) := by
    have hadd := addend_lt (mode.mag s) (k := rndSize F) (by omega)
    have hle : 2 ^ rndSize F ≤ 2 ^ (F.size - 1) := Nat.pow_le_pow_right (by decide) (by omega)
    have : 2 ^ F.size = 2 * 2 ^ (F.size - 1) := by rw [size_sub_one, FloatFormat.size, pow_succ, Nat.mul_comm]
    exact fUint_of_lt (by omega)
  have hone : fUint F (1 <<< (F.size - 1)) = 2 ^ (F.size - 1) := by
    rw [Nat.one_shiftLeft]
    exact fUint_of_lt (Nat.pow_lt_pow_right (by decide) (by omega))
  unfold roundPackSf
  rw [if_pos he, rmAddend_eq, rshiftRnd_eq (h1.trans (Nat.pow_lt_pow_right (by decide) (by omega))),
    show (1 - (1 - (d : ℤ))).toNat = d by omega]
  have hpack := packRounded_eq mode s (le_refl 1) hm'' (.inr rfl)
  simp only [Nat.sub_self, Nat.zero_mul, Nat.zero_add, ← hN, Nat.cast_one, show ¬ F.infMag ≤ N by omega, if_false] at hpack
  rw [hpack, hsum, hone, Nat.one_shiftLeft, Nat.and_two_pow_sub_one_eq_mod]
  refine ⟨N, { underflow := decide (jam m d % 2 ^ rndSize F ≠ 0 ∧ (2 ≤ d ∨ m + (mode.mag s).addend (rndSize F) < 2 ^ (F.size - 1))),
               inexact := decide (jam m d % 2 ^ rndSize F ≠ 0) }, ?_, ⟨fun h => ?_, fun _ => ⟨by omega, ?_, ?_⟩⟩⟩
  · rw [exBits_rounded]
    have hneg : 1 - (d : ℤ) < 0 ↔ 2 ≤ d := by omega
    congr 1
    simp only [decide_eq_true_eq, hneg]
    by_cases hx : jam m d % 2 ^ rndSize F = 0 <;> simp [hx]
  · rw [hlog, hun] at h
    exact absurd (h.trans hhighK) (not_le.mpr (zpow_lt_zpow_right₀ one_lt_two (by unfold FloatFormat.emax; omega)))
  · rw [hlog, hmax, hbd, hbd']
    have := absVal_pattern (F := F) (K := K) (E := 1) (N := N) (le_refl 1) (by rw [pow_succ]; omega) (.inr rfl)
      (by rw [Nat.sub_self, Nat.zero_mul, Nat.zero_add]; exact lt_of_lt_infMag (by omega))
    simpa using this
  · simp only [hlog, hmax, hun, ne_eq, hexact, htiny]

/-- **`round_pack_sf` rounds.** -/
theorem roundPackSf_rounds (mode : RoundingMode) (s : Bool) (e : ℤ) (h0 : 2 ^ (F.size - 2) ≤ m) (h1 : m < 2 ^ (F.size - 1))
    (fl : UInt32) :
    ∃ r ex, roundPackSf F (signNat s) e m (RoundingMode.rm mode) fl = (F.signBit s + r, fl ||| exBits ex) ∧
      F.RoundsMag (mode.mag s) (packed F K e m) r ex := by
  rcases lt_or_ge 0 e with hpos | hneg
  · obtain ⟨E, rfl⟩ : ∃ E : ℕ, e = E := ⟨e.toNat, by omega⟩
    exact roundPackSf_normal mode s (by omega) h0 h1 fl
  · exact roundPackSf_subnormal mode s hneg h0 h1 fl

/-! ## Normalizing -/

theorem log2_bounds (h : 0 < n) : 2 ^ n.log2 ≤ n ∧ n < 2 ^ (n.log2 + 1) :=
  ⟨Nat.log2_self_le (by omega), Nat.lt_log2_self⟩

theorem log2_lt_of_lt {j : ℕ} (h0 : 0 < n) (h : n < 2 ^ j) : n.log2 < j := (Nat.log2_lt (by omega)).mpr h

theorem packed_pos (e : ℤ) (h : 0 < m) : (0 : K) < packed F K e m :=
  mul_pos (by exact_mod_cast h) (zpow_pos two_pos _)

theorem log_packed (e : ℤ) (h0 : 2 ^ (F.size - 2) ≤ m) (h1 : m < 2 ^ (F.size - 1)) :
    Int.log 2 (packed F K e m) = e - F.bias := by
  have hsize := size_eq F
  unfold packed
  rw [log_scaled h0 (by rwa [show F.size - 2 + 1 = F.size - 1 by omega])]
  ring

/-- Rounding a mantissa rounds what it agrees with on half a unit in the last place. -/
theorem roundPackSf_agrees (mode : RoundingMode) (s : Bool) (e : ℤ) (h0 : 2 ^ (F.size - 2) ≤ m) (h1 : m < 2 ^ (F.size - 1))
    {v : K} (hv : Agrees (rndSize F - 1) (m : K) v) (fl : UInt32) :
    ∃ r ex, roundPackSf F (signNat s) e m (RoundingMode.rm mode) fl = (F.signBit s + r, fl ||| exBits ex) ∧
      F.RoundsMag (mode.mag s) (v * 2 ^ (e - F.bias - (F.size - 2 : ℕ))) r ex := by
  have hsize := size_eq F
  obtain ⟨r, ex, hpack, hr⟩ := roundPackSf_rounds (K := K) mode s e h0 h1 fl
  refine ⟨r, ex, hpack, hr.congr (packed_pos e ((Nat.two_pow_pos _).trans_le h0)) ?_⟩
  have := hv.scale (e - F.bias - (F.size - 2 : ℕ))
  rw [log_packed e h0 h1]
  exact this.mono (by omega)

/-- **`normalize_sf` rounds** what its mantissa agrees with on half a unit in the last place. -/
theorem normalizeSf_rounds (mode : RoundingMode) (s : Bool) (e : ℤ) (h0 : 0 < m) (h1 : m < 2 ^ (F.size - 1)) {v : K}
    (hv : Agrees ((m.log2 : ℤ) - F.mantSize - 1) (m : K) v) (fl : UInt32) :
    ∃ r ex, normalizeSf F (signNat s) e m (RoundingMode.rm mode) fl = .ok (F.signBit s + r, fl ||| exBits ex) ∧
      F.RoundsMag (mode.mag s) (v * 2 ^ (e - F.bias - (F.size - 2 : ℕ))) r ex := by
  have hsize := size_eq F
  have hlog := log2_lt_of_lt h0 h1
  obtain ⟨hlo, hhi⟩ := log2_bounds h0
  have hclz : (clz F.size m : ℤ) - ((F.size : ℤ) - 1 - imantSize F) = (F.size - 2 - m.log2 : ℕ) := by
    rw [clz, if_neg (by omega), imantSize_eq]
    omega
  set n := F.size - 2 - m.log2 with hn
  have hM0 : 2 ^ (F.size - 2) ≤ m * 2 ^ n := by
    calc 2 ^ (F.size - 2) = 2 ^ m.log2 * 2 ^ n := by rw [← pow_add, hn, show m.log2 + (F.size - 2 - m.log2) = F.size - 2 by omega]
      _ ≤ m * 2 ^ n := Nat.mul_le_mul_right _ hlo
  have hM1 : m * 2 ^ n < 2 ^ (F.size - 1) := by
    calc m * 2 ^ n < 2 ^ (m.log2 + 1) * 2 ^ n := Nat.mul_lt_mul_of_pos_right hhi (Nat.two_pow_pos n)
      _ = 2 ^ (F.size - 1) := by rw [← pow_add, hn, show m.log2 + 1 + (F.size - 2 - m.log2) = F.size - 1 by omega]
  have hshl : fUint F (m <<< n) = m * 2 ^ n := by
    rw [Nat.shiftLeft_eq]
    exact fUint_of_lt (hM1.trans (Nat.pow_lt_pow_right (by decide) (by omega)))
  have hag := hv.scale n
  rw [zpow_natCast, show (m : K) * 2 ^ n = ((m * 2 ^ n : ℕ) : K) by push_cast; rfl] at hag
  obtain ⟨r, ex, hpack, hr⟩ := roundPackSf_agrees (K := K) mode s (e - n) hM0 hM1 (hag.mono (by omega)) fl
  refine ⟨r, ex, ?_, ?_⟩
  · unfold normalizeSf
    simp only [hclz, Int.natCast_nonneg, if_true, Int.toNat_natCast, hshl, hpack]
  · rwa [mul_assoc, ← zpow_natCast, ← zpow_add₀ two_ne_zero,
      show (n : ℤ) + (e - n - F.bias - (F.size - 2 : ℕ)) = e - F.bias - (F.size - 2 : ℕ) by ring] at hr

theorem signBit_eq_pack (s : Bool) : packSf F (signNat s) 0 0 = F.signBit s := by
  rw [packSf_eq s (Nat.zero_le _)]
  simp

/-- A mantissa of zero gives a zero, whatever the exponent. -/
theorem roundPackSf_zero (s : Bool) (e : ℤ) (mode : RoundingMode) (fl : UInt32) :
    roundPackSf F (signNat s) e 0 (RoundingMode.rm mode) fl = (F.signBit s, fl) := by
  have hk := four_le_rndSize F
  have hround : roundShift (mode.mag s) 0 (rndSize F) = 0 := by
    have := (roundShift_exact (mode.mag s) 0 (show 1 ≤ rndSize F by omega)).mpr (Nat.zero_mod _)
    have hpos := Nat.two_pow_pos (rndSize F)
    exact (Nat.mul_eq_zero.mp this).resolve_right (by omega)
  have hpack (e : ℤ) : packRounded F (signNat s) e 0 ((mode.mag s).addend (rndSize F)) (RoundingMode.rm mode) fl =
      (F.signBit s, fl) := by
    unfold packRounded
    rw [rndMant_eq mode s (Nat.two_pow_pos _), hround, Nat.zero_and]
    simp [signBit_eq_pack]
  unfold roundPackSf
  rw [rmAddend_eq]
  split
  · rw [rshiftRnd_eq (Nat.two_pow_pos _), jam_eq_zero_iff.mpr rfl]
    simp [hpack]
  · rw [hpack]

theorem normalizeSf_zero (s : Bool) (e : ℤ) (mode : RoundingMode) (fl : UInt32) :
    normalizeSf F (signNat s) e 0 (RoundingMode.rm mode) fl = .ok (F.signBit s, fl) := by
  have hsize := size_eq F
  have hclz : (clz F.size 0 : ℤ) - ((F.size : ℤ) - 1 - imantSize F) = (F.size - 1 : ℕ) := by
    rw [clz, if_pos rfl, imantSize_eq]
    omega
  unfold normalizeSf
  simp only [hclz, Int.natCast_nonneg, if_true, Int.toNat_natCast, Nat.zero_shiftLeft, fUint, Nat.zero_mod,
    roundPackSf_zero]

theorem normalize2Sf_zero (s : Bool) (e : ℤ) (mode : RoundingMode) (fl : UInt32) :
    normalize2Sf F (signNat s) e 0 0 (RoundingMode.rm mode) fl = .ok (F.signBit s, fl) := by
  have hsize := size_eq F
  have hclz : ((F.size + clz F.size 0 : ℕ) : ℤ) - ((F.size : ℤ) - 1 - imantSize F) = (2 * F.size - 1 : ℕ) := by
    rw [clz, if_pos rfl, imantSize_eq]
    omega
  unfold normalize2Sf
  simp only [if_true, hclz, Int.natCast_nonneg, Int.toNat_natCast]
  rw [if_neg (by omega), if_neg (by omega), Nat.zero_shiftLeft, fUint, Nat.zero_mod, roundPackSf_zero]

/-- A number other than zero, with its sign. -/
theorem delivers_exactly (mode : RoundingMode) (s z : Bool) {y : K} (hy : 0 < y) {r : ℕ} {ex : Exceptions}
    (h : F.RoundsMag (mode.mag s) y r ex) : F.Delivers mode (.exactly (signed s y) z) (F.signBit s + r) ex := by
  have hne : signed s y ≠ 0 := by
    cases s with
    | false => exact hy.ne'
    | true => exact neg_ne_zero.mpr hy.ne'
  rw [FloatResult.exactly, if_neg hne]
  exact rounds_of_mag s hy h

/-- `normalize_sf` delivers a sign and what its mantissa agrees with; a zero has a sign of its own. -/
theorem normalizeSf_delivers (mode : RoundingMode) (s z : Bool) (e : ℤ) (h1 : m < 2 ^ (F.size - 1)) {v : K}
    (hv : Agrees ((m.log2 : ℤ) - F.mantSize - 1) (m : K) v) (fl : UInt32) :
    ∃ r ex, normalizeSf F (signNat (if m = 0 then z else s)) e m (RoundingMode.rm mode) fl = .ok (r, fl ||| exBits ex) ∧
      F.Delivers mode (.exactly (signed s (v * 2 ^ (e - F.bias - (F.size - 2 : ℕ)))) z) r ex := by
  have hzero : m = 0 ↔ v = 0 := by
    have := hv.eq_iff 0
    rwa [Int.cast_zero, zero_mul, Nat.cast_eq_zero] at this
  rcases Nat.eq_zero_or_pos m with rfl | hpos
  · rw [hzero.mp rfl, zero_mul, if_pos rfl, normalizeSf_zero, FloatResult.exactly, if_pos (by cases s <;> simp [signed])]
    exact ⟨_, {}, by simp [exBits], rfl, rfl⟩
  · have hvpos : 0 < v := hv.pos_iff.mp (by exact_mod_cast hpos)
    obtain ⟨r, ex, hr, hm⟩ := normalizeSf_rounds mode s e hpos h1 hv fl
    rw [if_neg (by omega)]
    exact ⟨_, ex, hr, delivers_exactly mode s z (mul_pos hvpos (zpow_pos two_pos _)) hm⟩

/-- Two words side by side. -/
theorem wide_lt {j : ℕ} (ha : a < 2 ^ j) (hb : b < 2 ^ F.size) : a * 2 ^ F.size + b < 2 ^ (j + F.size) := by
  have := Nat.mul_le_mul_right (2 ^ F.size) (show a + 1 ≤ 2 ^ j from ha)
  rw [Nat.add_mul, Nat.one_mul] at this
  rw [pow_add]
  omega

/-- The shift of two words with a sticky bit. -/
theorem wide_jam {d : ℕ} (hd : 0 < d) (hds : d < F.size) (a : ℕ) (hb : b < 2 ^ F.size) :
    a / 2 ^ d * 2 ^ F.size + ((fUint F (a <<< (F.size - d)) ||| b >>> d) ||| (if b % 2 ^ d = 0 then 0 else 1)) =
      jam (a * 2 ^ F.size + b) d := by
  have hpow : 2 ^ F.size = 2 ^ (F.size - d) * 2 ^ d := by rw [← pow_add, Nat.sub_add_cancel hds.le]
  have hshl : fUint F (a <<< (F.size - d)) = 2 ^ (F.size - d) * (a % 2 ^ d) := by
    rw [Nat.shiftLeft_eq, Nat.mul_comm, fUint, hpow, Nat.mul_mod_mul_left]
  have hshr : b / 2 ^ d < 2 ^ (F.size - d) := Nat.div_lt_of_lt_mul (by rwa [Nat.mul_comm, ← hpow])
  have hsplit : a * 2 ^ F.size + b = b + 2 ^ d * (a * 2 ^ (F.size - d)) := by
    rw [hpow]
    ring
  have hquot : (a * 2 ^ F.size + b) / 2 ^ d = a / 2 ^ d * 2 ^ F.size + (2 ^ (F.size - d) * (a % 2 ^ d) + b / 2 ^ d) := by
    have ha : a * 2 ^ (F.size - d) = a / 2 ^ d * 2 ^ F.size + 2 ^ (F.size - d) * (a % 2 ^ d) := by
      conv_lhs => rw [← Nat.div_add_mod a (2 ^ d)]
      rw [hpow]
      ring
    rw [hsplit, Nat.add_mul_div_left _ _ (Nat.two_pow_pos d), ha]
    omega
  have hmod : (a * 2 ^ F.size + b) % 2 ^ d = b % 2 ^ d := by
    rw [hsplit, Nat.add_mul_mod_self_left]
  have heven : 2 ^ F.size = 2 * 2 ^ (F.size - 1) := by rw [← pow_succ', Nat.sub_add_cancel (by omega)]
  unfold jam
  rw [Nat.shiftRight_eq_div_pow, Nat.shiftRight_eq_div_pow, hshl, ← Nat.two_pow_add_eq_or_of_lt hshr, hquot, hmod]
  split
  · rw [Nat.or_zero, Nat.or_zero]
  · rw [or_one, or_one, heven, ← Nat.mul_assoc, Nat.mul_comm (a / 2 ^ d), Nat.mul_assoc]
    omega

theorem shl_eq_zero_iff {d : ℕ} (hd : d < F.size) (b : ℕ) : fUint F (b <<< (F.size - d)) = 0 ↔ b % 2 ^ d = 0 := by
  have hpow : 2 ^ F.size = 2 ^ (F.size - d) * 2 ^ d := by rw [← pow_add, Nat.sub_add_cancel hd.le]
  rw [Nat.shiftLeft_eq, Nat.mul_comm, fUint, hpow, Nat.mul_mod_mul_left, Nat.mul_eq_zero]
  have := Nat.two_pow_pos (F.size - d)
  omega

theorem log2_wide (ha : a ≠ 0) (hb : b < 2 ^ F.size) : (a * 2 ^ F.size + b).log2 = a.log2 + F.size := by
  obtain ⟨hlo, hhi⟩ := log2_bounds (Nat.pos_of_ne_zero ha)
  rw [Nat.log2_eq_iff (by have := Nat.two_pow_pos F.size; have := Nat.mul_pos (Nat.pos_of_ne_zero ha) this; omega)]
  constructor
  · rw [pow_add]
    exact (Nat.mul_le_mul_right _ hlo).trans (Nat.le_add_right _ _)
  · have := wide_lt hhi hb
    rwa [show a.log2 + 1 + F.size = a.log2 + F.size + 1 by omega] at this

/-- **`normalize2_sf` rounds** what its two words agree with on half a unit in the last place. -/
theorem normalize2Sf_rounds (mode : RoundingMode) (s : Bool) (e : ℤ) (h1 : a < 2 ^ (F.size - 1)) (h0 : b < 2 ^ F.size)
    (hpos : 0 < a * 2 ^ F.size + b) {v : K}
    (hv : Agrees (((a * 2 ^ F.size + b).log2 : ℤ) - F.mantSize - 1) ((a * 2 ^ F.size + b : ℕ) : K) v) (fl : UInt32) :
    ∃ r ex, normalize2Sf F (signNat s) e a b (RoundingMode.rm mode) fl = .ok (F.signBit s + r, fl ||| exBits ex) ∧
      F.RoundsMag (mode.mag s) (v * 2 ^ (e - F.bias - (F.size - 2 : ℕ) - F.size)) r ex := by
  have hsize := size_eq F
  have hk := four_le_rndSize F
  set W := a * 2 ^ F.size + b with hW
  have hWlt : W < 2 ^ (2 * F.size - 1) := by
    have := wide_lt h1 h0
    rwa [show F.size - 1 + F.size = 2 * F.size - 1 by omega] at this
  have hlog := log2_lt_of_lt hpos hWlt
  obtain ⟨hlo, hhi⟩ := log2_bounds hpos
  -- the shift takes the highest bit to its place
  have hclz : (if a = 0 then F.size + clz F.size b else clz F.size a : ℕ) - ((F.size : ℤ) - 1 - imantSize F) =
      (2 * F.size - 2 - W.log2 : ℕ) := by
    rw [imantSize_eq]
    split
    · next ha =>
      have hWb : W = b := by rw [hW, ha, Nat.zero_mul, Nat.zero_add]
      have := log2_lt_of_lt (by omega) h0
      rw [clz, if_neg (by omega), hWb]
      omega
    · next ha =>
      have := log2_lt_of_lt (Nat.pos_of_ne_zero ha) h1
      rw [clz, if_neg ha, hW, log2_wide ha h0]
      omega
  set n := 2 * F.size - 2 - W.log2 with hn
  unfold normalize2Sf
  simp only [hclz, Int.natCast_nonneg, if_true, Int.toNat_natCast]
  rcases Nat.lt_or_ge n F.size with hlt | hge
  · -- down to one word, with a sticky bit
    have hmant : (if n = 0 then a ||| (if b ≠ 0 then 1 else 0)
        else if n < F.size then (fUint F (a <<< n) ||| b >>> (F.size - n)) ||| (if fUint F (b <<< n) ≠ 0 then 1 else 0)
        else fUint F (b <<< (n - F.size))) = jam W (F.size - n) := by
      rcases Nat.eq_zero_or_pos n with hz | hnpos
      · rw [hz, if_pos rfl, Nat.sub_zero, jam, Nat.shiftRight_eq_div_pow, hW, Nat.add_comm, Nat.add_mul_mod_self_right,
          Nat.mod_eq_of_lt h0, Nat.add_mul_div_right _ _ (Nat.two_pow_pos _), Nat.div_eq_of_lt h0, Nat.zero_add]
        simp only [ne_eq, ite_not]
      · have hd : F.size - n < F.size := by omega
        have ha : a / 2 ^ (F.size - n) = 0 := by
          refine Nat.div_eq_of_lt ?_
          by_contra hc
          have : 2 ^ (2 * F.size - n) ≤ W := by
            rw [show 2 * F.size - n = F.size - n + F.size by omega, pow_add]
            exact (Nat.mul_le_mul_right _ (not_lt.mp hc)).trans (Nat.le_add_right _ _)
          have := (Nat.le_log2 (by omega)).mpr this
          omega
        have hjam := wide_jam (by omega) hd a h0
        rw [ha, Nat.zero_mul, Nat.zero_add, Nat.sub_sub_self hlt.le] at hjam
        rw [if_neg (by omega), if_pos hlt, ← hjam]
        have hst := shl_eq_zero_iff hd b
        rw [Nat.sub_sub_self hlt.le] at hst
        simp only [ne_eq, ite_not, hst]
    have hM1 : jam W (F.size - n) < 2 ^ (F.size - 1) :=
      jam_lt (by rwa [show F.size - 1 + (F.size - n) = W.log2 + 1 by omega]) (by omega)
    have hM0 : 2 ^ (F.size - 2) ≤ jam W (F.size - n) := by
      refine le_trans ?_ (le_jam W (F.size - n))
      rw [Nat.le_div_iff_mul_le (Nat.two_pow_pos _), ← pow_add, show F.size - 2 + (F.size - n) = W.log2 by omega]
      exact hlo
    have hag := hv.jam (F.size - n) (rndSize F - 1) (by omega) (by omega)
    obtain ⟨r, ex, hpack, hr⟩ := roundPackSf_agrees (K := K) mode s (e - n) hM0 hM1 hag fl
    refine ⟨r, ex, by rw [hmant, hpack], ?_⟩
    rw [div_mul_eq_mul_div, mul_div_assoc, ← zpow_natCast, ← zpow_sub₀ two_ne_zero] at hr
    convert hr using 3
    omega
  · -- the high word is empty
    have ha : a = 0 := by
      by_contra hc
      have := log2_wide hc h0
      rw [← hW] at this
      omega
    have hWb : W = b := by rw [hW, ha, Nat.zero_mul, Nat.zero_add]
    have hM0 : 2 ^ (F.size - 2) ≤ W * 2 ^ (n - F.size) := by
      calc 2 ^ (F.size - 2) = 2 ^ W.log2 * 2 ^ (n - F.size) := by rw [← pow_add]; congr 1; omega
        _ ≤ W * 2 ^ (n - F.size) := Nat.mul_le_mul_right _ hlo
    have hM1 : W * 2 ^ (n - F.size) < 2 ^ (F.size - 1) := by
      calc W * 2 ^ (n - F.size) < 2 ^ (W.log2 + 1) * 2 ^ (n - F.size) := Nat.mul_lt_mul_of_pos_right hhi (Nat.two_pow_pos _)
        _ = 2 ^ (F.size - 1) := by rw [← pow_add]; congr 1; omega
    have hshl : fUint F (b <<< (n - F.size)) = W * 2 ^ (n - F.size) := by
      rw [Nat.shiftLeft_eq, ← hWb]
      exact fUint_of_lt (hM1.trans (Nat.pow_lt_pow_right (by decide) (by omega)))
    have hag := hv.scale (n - F.size : ℕ)
    rw [zpow_natCast, show (W : K) * 2 ^ (n - F.size) = ((W * 2 ^ (n - F.size) : ℕ) : K) by push_cast; rfl] at hag
    obtain ⟨r, ex, hpack, hr⟩ := roundPackSf_agrees (K := K) mode s (e - n) hM0 hM1 (hag.mono (by omega)) fl
    refine ⟨r, ex, by rw [if_neg (by omega), if_neg (by omega), hshl, hpack], ?_⟩
    rw [mul_assoc, ← zpow_natCast, ← zpow_add₀ two_ne_zero] at hr
    convert hr using 3
    omega

/-- `normalize2_sf` delivers a sign and what its two words agree with; a zero has a sign of its own. -/
theorem normalize2Sf_delivers (mode : RoundingMode) (s z : Bool) (e : ℤ) (h1 : a < 2 ^ (F.size - 1)) (h0 : b < 2 ^ F.size)
    {v : K} (hv : Agrees (((a * 2 ^ F.size + b).log2 : ℤ) - F.mantSize - 1) ((a * 2 ^ F.size + b : ℕ) : K) v)
    (fl : UInt32) :
    ∃ r ex, normalize2Sf F (signNat (if b = 0 ∧ a = 0 then z else s)) e a b (RoundingMode.rm mode) fl =
        .ok (r, fl ||| exBits ex) ∧
      F.Delivers mode (.exactly (signed s (v * 2 ^ (e - F.bias - (F.size - 2 : ℕ) - F.size))) z) r ex := by
  by_cases hab : b = 0 ∧ a = 0
  · obtain ⟨rfl, rfl⟩ := hab
    have hzero : v = 0 := by
      have := (hv.eq_iff 0).mp (by simp)
      rwa [Int.cast_zero, zero_mul] at this
    rw [hzero, zero_mul, if_pos ⟨rfl, rfl⟩, normalize2Sf_zero, FloatResult.exactly, if_pos (by cases s <;> simp [signed])]
    exact ⟨_, {}, by simp [exBits], rfl, rfl⟩
  · have hpos : 0 < a * 2 ^ F.size + b := by
      rcases Nat.eq_zero_or_pos a with rfl | ha
      · omega
      · have := Nat.mul_pos ha (Nat.two_pow_pos F.size)
        omega
    have hvpos : 0 < v := hv.pos_iff.mp (by exact_mod_cast hpos)
    obtain ⟨r, ex, hr, hm⟩ := normalize2Sf_rounds mode s e h1 h0 hpos hv fl
    rw [if_neg hab]
    exact ⟨_, ex, hr, delivers_exactly mode s z (mul_pos hvpos (zpow_pos two_pos _)) hm⟩

end HadBadge
