import Mathlib.Algebra.Order.Floor.Ring
import Mathlib.Data.Int.Log
import Mathlib.Tactic.FieldSimp
import Mathlib.Tactic.Linarith
import Mathlib.Tactic.Positivity
import Mathlib.Tactic.Push
import Mathlib.Tactic.Ring

/-!
# `Lib.Rounding`: rounding to integers, and sticky bits

Over any ordered field with a floor function.

## Contents
- **Agreement.** `Agrees g a b`: no multiple of `2 ^ g` tells `a` from `b`. Kept under scaling, under adding a
  multiple of `2 ^ g`, and on coarser grids.
- **Sticky bits.** An integer part with a sticky bit agrees with the number on the even numbers (`agrees_sticky`).
  `jam`: a shift to the right that keeps the bits shifted out as one (`agrees_jam`).
- **Rounding.** The five modes of `RoundingMode`, `roundInt`, and `roundMag` for magnitudes: `roundInt_sign`.
  Rounding and exactness go by agreement on the halves (`Agrees.roundMag`).
- **By machine.** `roundMag` of a quotient by `2 ^ k` in integers: `roundMag_div`.
-/

namespace Lib

variable {K : Type*} [Field K] [LinearOrder K]

/-- For the numeral 2 of a field. -/
theorem two_atLeastTwo : Nat.AtLeastTwo 2 := inferInstance

/-! ## Agreement -/

attribute [local instance] two_atLeastTwo in
/-- `a` and `b` lie the same way to every multiple of `2 ^ g`. -/
def Agrees (g : ℤ) (a b : K) : Prop :=
  ∀ t : ℤ, (a < t * 2 ^ g ↔ b < t * 2 ^ g) ∧ (t * 2 ^ g < a ↔ t * 2 ^ g < b)

variable {g : ℤ} {a b c : K}

theorem Agrees.refl (g : ℤ) (a : K) : Agrees g a a := fun _ => ⟨Iff.rfl, Iff.rfl⟩

theorem Agrees.symm (h : Agrees g a b) : Agrees g b a := fun t => ⟨(h t).1.symm, (h t).2.symm⟩

theorem Agrees.trans (h : Agrees g a b) (h' : Agrees g b c) : Agrees g a c :=
  fun t => ⟨(h t).1.trans (h' t).1, (h t).2.trans (h' t).2⟩

theorem Agrees.lt_iff (h : Agrees g a b) (t : ℤ) : a < t * 2 ^ g ↔ b < t * 2 ^ g := (h t).1

theorem Agrees.le_iff (h : Agrees g a b) (t : ℤ) : t * 2 ^ g ≤ a ↔ t * 2 ^ g ≤ b := by
  rw [← not_lt, ← not_lt, (h t).1]

theorem Agrees.eq_iff (h : Agrees g a b) (t : ℤ) : a = t * 2 ^ g ↔ b = t * 2 ^ g := by
  rw [eq_iff_le_not_lt, eq_iff_le_not_lt, ← not_lt, ← not_lt, (h t).1, (h t).2]

theorem Agrees.pos_iff (h : Agrees g a b) : 0 < a ↔ 0 < b := by
  have := (h 0).2
  rwa [Int.cast_zero, zero_mul] at this

variable [IsStrictOrderedRing K]

/-- Agreement on a grid is agreement on every coarser one. -/
theorem Agrees.mono {g' : ℤ} (h : Agrees g a b) (hg : g ≤ g') : Agrees g' a b := by
  intro t
  obtain ⟨d, rfl⟩ := Int.le.dest hg
  have hpow : (t : K) * 2 ^ (g + d) = ((t * 2 ^ d : ℤ) : K) * 2 ^ g := by
    rw [zpow_add₀ two_ne_zero, zpow_natCast]
    push_cast
    ring
  rw [hpow]
  exact h (t * 2 ^ d)

theorem Agrees.scale (h : Agrees g a b) (s : ℤ) : Agrees (g + s) (a * 2 ^ s) (b * 2 ^ s) := by
  intro t
  have hs : (0 : K) < 2 ^ s := zpow_pos two_pos s
  have hpow : (t : K) * 2 ^ (g + s) = t * 2 ^ g * 2 ^ s := by rw [zpow_add₀ two_ne_zero, mul_assoc]
  rw [hpow, mul_lt_mul_iff_left₀ hs, mul_lt_mul_iff_left₀ hs, mul_lt_mul_iff_left₀ hs, mul_lt_mul_iff_left₀ hs]
  exact h t

theorem Agrees.neg (h : Agrees g a b) : Agrees g (-a) (-b) := by
  intro t
  have ht := h (-t)
  push_cast at ht
  rw [neg_mul] at ht
  rw [neg_lt, neg_lt (a := b), lt_neg, lt_neg (b := b)]
  exact ⟨ht.2, ht.1⟩

/-- Adding a multiple of the grid. -/
theorem Agrees.add_left (h : Agrees g a b) (n : ℤ) : Agrees g (n * 2 ^ g + a) (n * 2 ^ g + b) := by
  intro t
  have ht := h (t - n)
  push_cast at ht
  rw [sub_mul] at ht
  rw [← lt_sub_iff_add_lt', ← lt_sub_iff_add_lt', ← sub_lt_iff_lt_add', ← sub_lt_iff_lt_add']
  exact ht

theorem Agrees.sub_left (h : Agrees g a b) (n : ℤ) : Agrees g (n * 2 ^ g - a) (n * 2 ^ g - b) := by
  simpa only [sub_eq_add_neg] using h.neg.add_left n

/-- Powers of two from the grid on. -/
theorem Agrees.pow_le_iff {j : ℤ} (h : Agrees g a b) (hj : g ≤ j) : 2 ^ j ≤ a ↔ 2 ^ j ≤ b := by
  have := (h.mono hj).le_iff 1
  rwa [Int.cast_one, one_mul] at this

theorem Agrees.lt_pow_iff {j : ℤ} (h : Agrees g a b) (hj : g ≤ j) : a < 2 ^ j ↔ b < 2 ^ j := by
  have := (h.mono hj).lt_iff 1
  rwa [Int.cast_one, one_mul] at this

/-- Numbers between two neighbours on the grid. -/
theorem agrees_of_between (ha : 0 < a) (hb : 0 < b) (ha' : a < 2 ^ g) (hb' : b < 2 ^ g) : Agrees g a b := by
  have hg : (0 : K) < 2 ^ g := zpow_pos two_pos g
  have hbetween {x : K} (h0 : 0 < x) (h1 : x < 2 ^ g) (t : ℤ) : (x < t * 2 ^ g ↔ 1 ≤ t) ∧ (t * 2 ^ g < x ↔ t ≤ 0) := by
    rcases le_or_gt t 0 with ht | ht
    · have htK : (t : K) * 2 ^ g ≤ 0 := mul_nonpos_of_nonpos_of_nonneg (by exact_mod_cast ht) hg.le
      exact ⟨iff_of_false (by linarith) (by omega), iff_of_true (by linarith) ht⟩
    · have htK : 1 * 2 ^ g ≤ (t : K) * 2 ^ g := mul_le_mul_of_nonneg_right (by exact_mod_cast ht) hg.le
      exact ⟨iff_of_true (by linarith) (by omega), iff_of_false (by linarith) (by omega)⟩
  intro t
  exact ⟨(hbetween ha ha' t).1.trans (hbetween hb hb' t).1.symm, (hbetween ha ha' t).2.trans (hbetween hb hb' t).2.symm⟩

/-! ## Sticky bits -/

/-- `a` shifted to the right by `d`; the lowest bit is set if a bit that is shifted out is. -/
def jam (a d : ℕ) : ℕ := a >>> d ||| (if a % 2 ^ d = 0 then 0 else 1)

@[simp] theorem jam_zero (a : ℕ) : jam a 0 = a := by simp [jam, Nat.mod_one]

theorem or_one (n : ℕ) : n ||| 1 = n / 2 * 2 + 1 := by
  have h := Nat.two_pow_add_eq_or_of_lt (i := 1) (b := 1) (by decide) (n / 2)
  have hlow : n % 2 ||| 1 = 1 := by
    obtain hn | hn : n % 2 = 0 ∨ n % 2 = 1 := by omega
    all_goals
      rw [hn]
      decide
  calc n ||| 1 = (2 ^ 1 * (n / 2) + n % 2) ||| 1 := by rw [pow_one, Nat.div_add_mod]
    _ = (2 ^ 1 * (n / 2) ||| n % 2) ||| 1 := by
        rw [← Nat.two_pow_add_eq_or_of_lt (Nat.mod_lt n (by decide) : n % 2 < 2 ^ 1) (n / 2)]
    _ = 2 ^ 1 * (n / 2) ||| 1 := by rw [Nat.or_assoc, hlow]
    _ = n / 2 * 2 + 1 := by rw [← h, pow_one, Nat.mul_comm]

/-- Bits shifted out make the result odd. -/
theorem jam_eq (a d : ℕ) : jam a d = if a % 2 ^ d = 0 then a / 2 ^ d else a / 2 ^ d / 2 * 2 + 1 := by
  unfold jam
  rw [Nat.shiftRight_eq_div_pow]
  split
  · rw [Nat.or_zero]
  · rw [or_one]

/-- An odd number that is less than one away from `v` agrees with it on the even numbers. -/
theorem agrees_odd {n : ℕ} {v : K} (h0 : ((2 * n : ℕ) : K) < v) (h1 : v < ((2 * n + 2 : ℕ) : K)) :
    Agrees 1 ((n * 2 + 1 : ℕ) : K) v := by
  intro t
  have ht : (t : K) * 2 ^ (1 : ℤ) = ((2 * t : ℤ) : K) := by
    rw [zpow_one]
    push_cast
    ring
  have hcast (k : ℕ) : ((k : ℕ) : K) = ((k : ℤ) : K) := (Int.cast_natCast k).symm
  rw [hcast] at h0 h1
  rw [ht, hcast, Int.cast_lt, Int.cast_lt]
  constructor
  · constructor
    · intro h
      exact h1.trans_le (Int.cast_le.mpr (by omega))
    · intro h
      have := Int.cast_lt.mp (h0.trans h)
      omega
  · constructor
    · intro h
      exact lt_of_le_of_lt (Int.cast_le.mpr (by omega)) h0
    · intro h
      have := Int.cast_lt.mp (h.trans h1)
      omega

/-- **A sticky bit stands for all the bits below it**: to the even numbers, an integer part whose lowest bit is set
    if there is a fraction lies as the number does. -/
theorem agrees_sticky {q : ℕ} {v : K} {inexact : Prop} [Decidable inexact] (h0 : (q : K) ≤ v) (h1 : v < q + 1)
    (hx : inexact ↔ (q : K) ≠ v) : Agrees 1 ((if inexact then q ||| 1 else q : ℕ) : K) v := by
  split
  · next h =>
    have hlt : (q : K) < v := lt_of_le_of_ne h0 (hx.mp h)
    -- the number is between the two even numbers around the odd result
    have hlo : ((2 * (q / 2) : ℕ) : K) ≤ (q : ℕ) := Nat.cast_le.mpr (by omega)
    have hhi : ((q + 1 : ℕ) : K) ≤ (2 * (q / 2) + 2 : ℕ) := Nat.cast_le.mpr (by omega)
    rw [Nat.cast_add, Nat.cast_one] at hhi
    rw [or_one]
    exact agrees_odd (hlo.trans_lt hlt) (h1.trans_le hhi)
  · next h =>
    rw [not_ne_iff.mp (mt hx.mpr h)]
    exact Agrees.refl _ _

theorem agrees_jam (a d : ℕ) : Agrees (K := K) 1 (jam a d : ℕ) (a / 2 ^ d) := by
  have hpos : (0 : K) < 2 ^ d := pow_pos two_pos d
  have hsplit : (a : K) = 2 ^ d * (a / 2 ^ d : ℕ) + (a % 2 ^ d : ℕ) := by
    exact_mod_cast (Nat.div_add_mod a (2 ^ d)).symm
  have hlow : ((a % 2 ^ d : ℕ) : K) < 2 ^ d := by
    exact_mod_cast Nat.mod_lt a (Nat.two_pow_pos d)
  have hq : (a / 2 ^ d : K) = (a / 2 ^ d : ℕ) + (a % 2 ^ d : ℕ) / 2 ^ d := by
    conv_lhs => rw [hsplit]
    rw [add_div, mul_div_cancel_left₀ _ hpos.ne']
  have hfrac : ((a % 2 ^ d : ℕ) : K) / 2 ^ d < 1 := (div_lt_one hpos).mpr hlow
  have hjam : jam a d = if a % 2 ^ d ≠ 0 then a / 2 ^ d ||| 1 else a / 2 ^ d := by
    rw [jam_eq, or_one, ite_not]
  rw [hjam]
  refine agrees_sticky ?_ ?_ ?_
  · rw [hq]
    exact le_add_of_nonneg_right (div_nonneg (Nat.cast_nonneg _) hpos.le)
  · rw [hq]
    linarith
  · rw [hq, ne_eq, ne_eq, left_eq_add, div_eq_zero_iff, or_iff_left hpos.ne', Nat.cast_eq_zero]

/-- Jamming what agrees with `v`. -/
theorem Agrees.jam {a : ℕ} {v : K} (h : Agrees g (a : K) v) (d : ℕ) (g' : ℤ) (h1 : 1 ≤ g') (hg : g ≤ g' + d) :
    Agrees g' (Lib.jam a d : K) (v / 2 ^ d) := by
  have hv := (h.mono hg).scale (-d)
  rw [add_neg_cancel_right, zpow_neg, zpow_natCast, ← div_eq_mul_inv, ← div_eq_mul_inv] at hv
  exact ((agrees_jam a d).mono h1).trans hv

theorem jam_lt {a d n : ℕ} (h : a < 2 ^ (n + d)) (hn : 0 < n) : jam a d < 2 ^ n := by
  have hq : a / 2 ^ d < 2 ^ n := Nat.div_lt_of_lt_mul (by rwa [pow_add, Nat.mul_comm] at h)
  obtain ⟨k, rfl⟩ : ∃ k, n = k + 1 := ⟨n - 1, by omega⟩
  rw [pow_succ] at hq ⊢
  rw [jam_eq]
  split
  · exact hq
  · omega

theorem jam_le {a d n : ℕ} (h : a ≤ 2 ^ (n + d)) (hn : 0 < n) : jam a d ≤ 2 ^ n := by
  rcases h.lt_or_eq with hlt | heq
  · exact (jam_lt hlt hn).le
  · rw [jam_eq, heq, pow_add, Nat.mul_mod_left, if_pos rfl, Nat.mul_div_cancel _ (Nat.two_pow_pos d)]

theorem le_jam (a d : ℕ) : a / 2 ^ d ≤ jam a d := by
  rw [jam_eq]
  split <;> omega

theorem jam_eq_zero_iff {a d : ℕ} : jam a d = 0 ↔ a = 0 := by
  rw [jam_eq]
  split
  · next h =>
    rw [Nat.div_eq_zero_iff]
    constructor
    · rintro (h0 | hlt)
      · exact absurd h0 (Nat.two_pow_pos d).ne'
      · rwa [Nat.mod_eq_of_lt hlt] at h
    · rintro rfl
      exact .inr (Nat.two_pow_pos d)
  · next h =>
    constructor
    · intro h'
      omega
    · rintro rfl
      exact absurd (Nat.zero_mod _) h

/-! ## Rounding -/

/-- To nearest (ties to even), towards zero, down, up, and to nearest (ties away from zero). -/
inductive RoundingMode where
  | rne | rtz | rdn | rup | rmm
  deriving DecidableEq, Repr

/-- What a mode does to a magnitude. -/
inductive MagMode where
  | even | down | up | away
  deriving DecidableEq, Repr

/-- The mode for the magnitude of a number, negative or not. -/
def RoundingMode.mag (mode : RoundingMode) (neg : Bool) : MagMode :=
  match mode with
  | .rne => .even
  | .rtz => .down
  | .rdn => if neg = true then .up else .down
  | .rup => if neg = true then .down else .up
  | .rmm => .away

variable [FloorRing K]

/-- To the nearest integer, and to an even one where there are two. -/
def roundEven (x : K) : ℤ :=
  if x < ⌊x⌋ + 1 / 2 then ⌊x⌋ else if ⌊x⌋ + 1 / 2 < x then ⌊x⌋ + 1 else ⌊x⌋ + ⌊x⌋ % 2

/-- Rounding to an integer. -/
def roundInt (mode : RoundingMode) (x : K) : ℤ :=
  match mode with
  | .rne => roundEven x
  | .rtz => if 0 ≤ x then ⌊x⌋ else ⌈x⌉
  | .rdn => ⌊x⌋
  | .rup => ⌈x⌉
  | .rmm => if 0 ≤ x then ⌊x + 1 / 2⌋ else ⌈x - 1 / 2⌉

/-- Rounding of a magnitude. -/
def roundMag (mm : MagMode) (y : K) : ℤ :=
  match mm with
  | .even => roundEven y
  | .down => ⌊y⌋
  | .up => ⌈y⌉
  | .away => ⌊y + 1 / 2⌋

theorem roundEven_neg (y : K) : roundEven (-y) = -roundEven y := by
  have hlo := Int.floor_le y
  have hhi := Int.lt_floor_add_one y
  rcases hlo.eq_or_lt with heq | hlt
  · have hfloor : ⌊-y⌋ = -⌊y⌋ := by
      rw [← heq, ← Int.cast_neg, Int.floor_intCast, Int.floor_intCast]
    unfold roundEven
    rw [hfloor]
    push_cast
    rw [if_pos (by linarith), if_pos (by linarith)]
  · have hfloor : ⌊-y⌋ = -⌊y⌋ - 1 := by
      rw [Int.floor_eq_iff]
      push_cast
      constructor <;> linarith
    unfold roundEven
    rw [hfloor]
    push_cast
    -- below a half, above it, and a half itself, where the parities of both sides differ
    rcases lt_trichotomy y (⌊y⌋ + 1 / 2) with h | h | h
    · rw [if_pos h, if_neg (by linarith), if_pos (by linarith)]
      ring
    · rw [if_neg (by linarith), if_neg (by linarith), if_neg (by linarith), if_neg (by linarith)]
      omega
    · rw [if_pos (by linarith : -y < -(⌊y⌋ : K) - 1 + 1 / 2), if_neg (by linarith), if_pos h]
      ring

/-- Rounding goes by sign and magnitude. -/
theorem roundInt_sign (mode : RoundingMode) {y : K} (hy : 0 < y) (neg : Bool) :
    roundInt mode (if neg = true then -y else y) =
      if neg = true then -roundMag (mode.mag neg) y else roundMag (mode.mag neg) y := by
  cases neg with
  | false => cases mode <;> simp [roundInt, roundMag, RoundingMode.mag, hy.le]
  | true =>
      cases mode with
      | rne => simpa [roundInt, roundMag, RoundingMode.mag] using roundEven_neg y
      | rtz => simp [roundInt, roundMag, RoundingMode.mag, not_le.mpr hy, Int.ceil_neg]
      | rdn => simp [roundInt, roundMag, RoundingMode.mag, Int.floor_neg]
      | rup => simp [roundInt, roundMag, RoundingMode.mag, Int.ceil_neg]
      | rmm =>
          have hneg : -y - 1 / 2 = -(y + 1 / 2) := by ring
          simp only [roundInt, roundMag, RoundingMode.mag, if_true, Left.nonneg_neg_iff, not_le.mpr hy, if_false, hneg,
            Int.ceil_neg]

theorem roundMag_le (mm : MagMode) {y : K} {n : ℤ} (h : y ≤ n) : roundMag mm y ≤ n := by
  have hfloor : ⌊y⌋ ≤ n := by
    exact_mod_cast (Int.floor_le y).trans h
  cases mm with
  | even =>
      simp only [roundMag, roundEven]
      split_ifs with hlt hgt
      · exact hfloor
      -- above the floor, the number is below the next integer
      all_goals
        have : ⌊y⌋ < n := by
          rcases hfloor.lt_or_eq with hlt' | heq
          · exact hlt'
          · rw [← heq] at h
            linarith
        omega
  | down => exact hfloor
  | up => exact Int.ceil_le.mpr h
  | away =>
      have : ⌊y + 1 / 2⌋ < n + 1 := by
        rw [Int.floor_lt]
        push_cast
        linarith
      exact Int.lt_add_one_iff.mp this

@[simp] theorem roundMag_intCast (mm : MagMode) (n : ℤ) : roundMag mm (n : K) = n := by
  cases mm with
  | even => simp [roundMag, roundEven]
  | down => simp [roundMag]
  | up => simp [roundMag]
  | away =>
      rw [roundMag, Int.floor_eq_iff]
      constructor <;> linarith

/-! ### Rounding goes by agreement -/

omit [IsStrictOrderedRing K] in
theorem Agrees.floor (h : Agrees 0 a b) : ⌊a⌋ = ⌊b⌋ := by
  rw [Int.floor_eq_iff]
  have hlo := h.le_iff ⌊b⌋
  have hhi := h.lt_iff (⌊b⌋ + 1)
  rw [zpow_zero, mul_one] at hlo hhi
  push_cast at hhi
  exact ⟨hlo.mpr (Int.floor_le b), hhi.mpr (Int.lt_floor_add_one b)⟩

theorem Agrees.ceil (h : Agrees 0 a b) : ⌈a⌉ = ⌈b⌉ := by
  have := h.neg.floor
  rw [Int.floor_neg, Int.floor_neg] at this
  exact neg_injective this

omit [IsStrictOrderedRing K] in
theorem Agrees.half (h : Agrees (-1) a b) (n : ℤ) : (a < n + 1 / 2 ↔ b < n + 1 / 2) ∧ (n + 1 / 2 < a ↔ n + 1 / 2 < b) := by
  have hhalf : ((2 * n + 1 : ℤ) : K) * 2 ^ (-1 : ℤ) = n + 1 / 2 := by
    rw [zpow_neg_one]
    push_cast
    ring
  rw [← hhalf]
  exact h (2 * n + 1)

/-- **Rounding sees no more than the halves.** -/
theorem Agrees.roundMag (h : Agrees (-1) a b) (mm : MagMode) : Lib.roundMag mm a = Lib.roundMag mm b := by
  have hint : Agrees 0 a b := h.mono (by decide)
  cases mm with
  | even =>
      simp only [Lib.roundMag, roundEven, hint.floor, (h.half ⌊b⌋).1, (h.half ⌊b⌋).2]
  | down => exact hint.floor
  | up => exact hint.ceil
  | away =>
      have hadd : Agrees (-1) (a + 1 / 2) (b + 1 / 2) := by
        have := h.add_left 1
        rwa [Int.cast_one, one_mul, zpow_neg_one, add_comm _ a, add_comm _ b, ← one_div] at this
      exact (hadd.mono (by decide)).floor

/-! ## By machine -/

/-- What is added to a magnitude before its `k` low bits are dropped. -/
def MagMode.addend (mm : MagMode) (k : ℕ) : ℕ :=
  match mm with
  | .even | .away => 2 ^ (k - 1)
  | .down => 0
  | .up => 2 ^ k - 1

/-- The rounded quotient by `2 ^ k`: the addend, the shift, and on a tie the even one. -/
def roundShift (mm : MagMode) (m k : ℕ) : ℕ :=
  let n := (m + mm.addend k) / 2 ^ k
  if mm = .even ∧ m % 2 ^ k = 2 ^ (k - 1) then n / 2 * 2 else n

/-- The quotient after something less than the divisor was added. -/
theorem add_div_step (m d : ℕ) {c : ℕ} (hc : c < d) :
    (m + c) / d = if d ≤ m % d + c then m / d + 1 else m / d := by
  have hd : 0 < d := by omega
  have := Nat.mod_lt m hd
  rw [Nat.add_div hd, Nat.mod_eq_of_lt hc, Nat.div_eq_of_lt hc, Nat.add_zero]
  split <;> rfl

/-- The rounded quotient is the quotient or, if that is not exact, may be the next number. -/
theorem roundShift_cases (mm : MagMode) (m : ℕ) {k : ℕ} (hk : 1 ≤ k) :
    roundShift mm m k = m / 2 ^ k ∨ (roundShift mm m k = m / 2 ^ k + 1 ∧ m % 2 ^ k ≠ 0) := by
  have hpow : 2 ^ k = 2 * 2 ^ (k - 1) := by rw [← pow_succ', Nat.sub_add_cancel hk]
  have hhalf : 2 ^ (k - 1) < 2 ^ k := Nat.pow_lt_pow_right (by decide) (by omega)
  have hpos := Nat.two_pow_pos (k - 1)
  have hr := Nat.mod_lt m (Nat.two_pow_pos k)
  unfold roundShift
  cases mm with
  | even =>
      simp only [MagMode.addend, true_and, add_div_step m (2 ^ k) hhalf]
      split_ifs <;> omega
  | down =>
      simp only [MagMode.addend, reduceCtorEq, false_and, if_false, Nat.add_zero, true_or]
  | up =>
      simp only [MagMode.addend, reduceCtorEq, false_and, if_false, add_div_step m (2 ^ k) (c := 2 ^ k - 1) (by omega)]
      split_ifs <;> omega
  | away =>
      simp only [MagMode.addend, reduceCtorEq, false_and, if_false, add_div_step m (2 ^ k) hhalf]
      split_ifs <;> omega

theorem roundShift_le (mm : MagMode) {m k n : ℕ} (hk : 1 ≤ k) (hm : m ≤ 2 ^ (n + k)) : roundShift mm m k ≤ 2 ^ n := by
  have hpos := Nat.two_pow_pos k
  have hdm := Nat.div_add_mod m (2 ^ k)
  rw [pow_add, Nat.mul_comm] at hm
  rcases roundShift_cases mm m hk with h | ⟨h, hr⟩
  · rw [h]
    exact Nat.div_le_of_le_mul hm
  · rw [h]
    by_contra hc
    have := Nat.mul_le_mul_left (2 ^ k) (show 2 ^ n ≤ m / 2 ^ k by omega)
    omega

theorem le_roundShift (mm : MagMode) {m k n : ℕ} (hk : 1 ≤ k) (hm : 2 ^ (n + k) ≤ m) : 2 ^ n ≤ roundShift mm m k := by
  have hq : 2 ^ n ≤ m / 2 ^ k := by
    rw [Nat.le_div_iff_mul_le (Nat.two_pow_pos k), ← pow_add]
    exact hm
  rcases roundShift_cases mm m hk with h | ⟨h, -⟩
  all_goals omega

/-- The rounded quotient is exact if no bit is dropped. -/
theorem roundShift_exact (mm : MagMode) (m : ℕ) {k : ℕ} (hk : 1 ≤ k) : roundShift mm m k * 2 ^ k = m ↔ m % 2 ^ k = 0 := by
  have hdm := Nat.div_add_mod m (2 ^ k)
  have hr := Nat.mod_lt m (Nat.two_pow_pos k)
  rw [Nat.mul_comm]
  rcases roundShift_cases mm m hk with h | ⟨h, h0⟩
  · rw [h]
    omega
  · rw [h, Nat.mul_add]
    omega

/-- The rounded quotient stays below a power of two if the sum does. -/
theorem roundShift_lt_iff (mm : MagMode) (m k n : ℕ) :
    roundShift mm m k < 2 ^ (n + 1) ↔ m + mm.addend k < 2 ^ (n + 1 + k) := by
  have hsum : (m + mm.addend k) / 2 ^ k < 2 ^ (n + 1) ↔ m + mm.addend k < 2 ^ (n + 1 + k) := by
    rw [Nat.div_lt_iff_lt_mul (Nat.two_pow_pos k), ← pow_add]
  rw [← hsum]
  unfold roundShift
  dsimp only
  split
  · rw [pow_succ]
    omega
  · rfl

/-- **Rounding by machine is rounding.** -/
theorem roundMag_div (mm : MagMode) (m : ℕ) {k : ℕ} (hk : 1 ≤ k) :
    roundMag mm ((m : K) / 2 ^ k) = (roundShift mm m k : ℕ) := by
  obtain ⟨j, rfl⟩ : ∃ j, k = j + 1 := ⟨k - 1, by omega⟩
  set d : ℕ := 2 ^ j with hd
  have hdpos : 0 < d := Nat.two_pow_pos j
  have hpow : 2 ^ (j + 1) = 2 * d := by rw [pow_succ, Nat.mul_comm]
  have hpowK : (2 : K) ^ (j + 1) = 2 * (d : K) := by
    rw [hd, pow_succ, mul_comm]
    push_cast
    rfl
  have hdK : (0 : K) < d := by exact_mod_cast hdpos
  have hr : m % (2 * d) < 2 * d := Nat.mod_lt m (by omega)
  set q := m / (2 * d) with hq
  set r := m % (2 * d) with hrdef
  -- quotient and remainder, and where the remainder lies
  have hval : (m : K) / 2 ^ (j + 1) = q + (r : K) / (2 * d) := by
    rw [hpowK]
    have : (m : K) = 2 * d * q + r := by exact_mod_cast (Nat.div_add_mod m (2 * d)).symm
    rw [this, add_div, mul_div_cancel_left₀ _ (by positivity)]
  have hfrac0 : (0 : K) ≤ (r : K) / (2 * d) := by positivity
  have hfrac1 : (r : K) / (2 * d) < 1 := by
    rw [div_lt_one (by positivity)]
    exact_mod_cast hr
  have hfloor : ⌊(m : K) / 2 ^ (j + 1)⌋ = q := by
    rw [hval, Int.floor_eq_iff]
    push_cast
    constructor <;> linarith
  have hlt : (r : K) / (2 * d) < 1 / 2 ↔ r < d := by
    rw [div_lt_div_iff₀ (by positivity) two_pos, one_mul, mul_comm, mul_lt_mul_iff_right₀ two_pos, Nat.cast_lt]
  have hgt : 1 / 2 < (r : K) / (2 * d) ↔ d < r := by
    rw [div_lt_div_iff₀ two_pos (by positivity), one_mul, mul_comm, mul_lt_mul_iff_left₀ two_pos, Nat.cast_lt]
  unfold roundShift
  simp only [hpow, Nat.add_sub_cancel, ← hd, ← hrdef]
  cases mm with
  | even =>
      simp only [roundMag, roundEven, MagMode.addend, Nat.add_sub_cancel, ← hd, true_and, hfloor]
      rw [add_div_step m (2 * d) (by omega), ← hq, ← hrdef, hval]
      simp only [Int.cast_natCast, add_lt_add_iff_left, hlt, hgt]
      split_ifs <;> omega
  | down =>
      simp only [roundMag, MagMode.addend, hfloor, Nat.add_zero, reduceCtorEq, false_and, if_false, ← hq]
  | up =>
      simp only [roundMag, MagMode.addend, reduceCtorEq, false_and, if_false, hpow]
      rw [add_div_step m (2 * d) (by omega), ← hq, ← hrdef, hval, Int.ceil_eq_iff]
      rcases Nat.eq_zero_or_pos r with h0 | hpos
      · rw [h0, if_neg (by omega)]
        simp
      · have hrK : (0 : K) < (r : K) / (2 * d) := div_pos (by exact_mod_cast hpos) (by positivity)
        rw [if_pos (by omega)]
        push_cast
        constructor <;> linarith
  | away =>
      simp only [roundMag, MagMode.addend, Nat.add_sub_cancel, ← hd, reduceCtorEq, false_and, if_false]
      rw [add_div_step m (2 * d) (by omega), ← hq, ← hrdef, hval, Int.floor_eq_iff]
      by_cases h : r < d
      · have := hlt.mpr h
        rw [if_neg (by omega)]
        push_cast
        constructor <;> linarith
      · have := not_lt.mp (fun hc => h (hlt.mp hc))
        rw [if_pos (by omega)]
        push_cast
        constructor <;> linarith

end Lib
