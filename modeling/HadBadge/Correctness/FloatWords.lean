import HadBadge.Correctness.FloatMul

/-!
# `Correctness.FloatWords`: arithmetic without words of twice the size

Where the compiler has no integer of twice the size of an `F_UINT`, `mul_u` multiplies by halves, `divrem_u` divides
bit by bit and `sqrtrem_u` calls both. They compute what the wide ones do, and their assertion holds.

## Contents
- **Products.** `mulUHalves_eq`.
- **Quotients.** `DivremState`, what the loop has done after some rounds; `divremUBits_eq`.
- **Square roots.** `sqrtLoopWords_eq`, `sqrtremUWords_eq`.
-/

namespace HadBadge

open Lib Lib.FloatFormat

variable {F : FloatFormat} {a b m : ℕ}

/-! ## Products -/

/-- Two words are determined by the number they make. -/
theorem words_eq {S lo : ℕ} (hi W : ℕ) (hlo : lo < 2 ^ S) (h : hi * 2 ^ S + lo = W) : hi = W / 2 ^ S ∧ lo = W % 2 ^ S := by
  subst h
  constructor
  · rw [Nat.add_comm, Nat.add_mul_div_right _ _ (Nat.two_pow_pos S), Nat.div_eq_of_lt hlo, Nat.zero_add]
  · rw [Nat.add_comm, Nat.add_mul_mod_self_right, Nat.mod_eq_of_lt hlo]

/-- Schoolbook multiplication in base `B`, with its carries. -/
theorem schoolbook {B a0 a1 b0 b1 c c' : ℕ} (hc : c = a0 * b0 / B + a0 * b1 % B + a1 * b0 % B)
    (hc' : c' = c / B + a0 * b1 / B + a1 * b0 / B + a1 * b1 % B) :
    (((c' / B + a1 * b1 / B) * B + c' % B) * B + c % B) * B + a0 * b0 % B = (a1 * B + a0) * (b1 * B + b0) := by
  have h00 := Nat.div_add_mod (a0 * b0) B
  have h01 := Nat.div_add_mod (a0 * b1) B
  have h10 := Nat.div_add_mod (a1 * b0) B
  have h11 := Nat.div_add_mod (a1 * b1) B
  have hcd := Nat.div_add_mod c B
  have hcd' := Nat.div_add_mod c' B
  zify at *
  linear_combination (B : ℤ) ^ 2 * hcd' + B * hcd + (B : ℤ) ^ 2 * hc' + (B : ℤ) * hc + h00 + B * h01 + B * h10 + B ^ 2 * h11

/-- The carries of half words fit into words, and the highest part into a half word. -/
theorem schoolbook_lt {B a0 a1 b0 b1 c c' : ℕ} (hB : 4 ≤ B) (ha0 : a0 < B) (ha1 : a1 < B) (hb0 : b0 < B) (hb1 : b1 < B)
    (hc : c = a0 * b0 / B + a0 * b1 % B + a1 * b0 % B) (hc' : c' = c / B + a0 * b1 / B + a1 * b0 / B + a1 * b1 % B) :
    c < B * B ∧ c' < B * B ∧ c' / B + a1 * b1 / B < B := by
  have hBpos : 0 < B := by omega
  have hBB : 4 * B ≤ B * B := Nat.mul_le_mul_right B hB
  have hdiv {x y : ℕ} (hx : x < B) (hy : y < B) : x * y / B < B := Nat.div_lt_of_lt_mul (Nat.mul_lt_mul'' hx hy)
  have hmod (x : ℕ) : x % B < B := Nat.mod_lt x hBpos
  have hclt : c < B * B := by
    have := hdiv ha0 hb0
    have := hmod (a0 * b1)
    have := hmod (a1 * b0)
    omega
  refine ⟨hclt, ?_, ?_⟩
  · have : c / B < B := Nat.div_lt_of_lt_mul hclt
    have := hdiv ha0 hb1
    have := hdiv ha1 hb0
    have := hmod (a1 * b1)
    omega
  · by_contra hge
    have hbook := schoolbook hc hc'
    have hword {x y : ℕ} (hx : x < B) (hy : y < B) : x * B + y < B * B := by
      have := Nat.mul_le_mul_right B (show x + 1 ≤ B from hx)
      rw [Nat.add_mul] at this
      omega
    have hprod := Nat.mul_lt_mul'' (hword ha1 ha0) (hword hb1 hb0)
    have hhigh := Nat.mul_le_mul_right (B * B * B) (not_lt.mp hge)
    have hsplit : (((c' / B + a1 * b1 / B) * B + c' % B) * B + c % B) * B + a0 * b0 % B =
        (c' / B + a1 * b1 / B) * (B * B * B) + ((c' % B * B + c % B) * B + a0 * b0 % B) := by ring
    have hpow : B * B * (B * B) = B * (B * B * B) := by ring
    omega

/-- **`mul_u` by halves** is the product in two words. -/
theorem mulUHalves_eq (hS : 2 ∣ F.size) (ha : a < 2 ^ F.size) (hb : b < 2 ^ F.size) : mulUHalves F a b = mulU F a b := by
  have hsize := size_eq F
  obtain ⟨H, hH⟩ := hS
  have hfh : fhSize F = H := by
    unfold fhSize
    omega
  set B := 2 ^ H with hB
  have hB4 : 4 ≤ B := Nat.pow_le_pow_right (n := 2) (by decide) (show 2 ≤ H by have := F.two_le_mant; omega)
  have hBpos : 0 < B := by omega
  have hword : 2 ^ F.size = B * B := by rw [hH, two_mul, pow_add]
  have hmod (x : ℕ) : x % B < B := Nat.mod_lt x hBpos
  have hhalf (x : ℕ) (hx : x < 2 ^ F.size) : x / B < B := Nat.div_lt_of_lt_mul (by rwa [← hword])
  have hmul {x y : ℕ} (hx : x < B) (hy : y < B) : x * y < 2 ^ F.size := by
    rw [hword]
    exact Nat.mul_lt_mul'' hx hy
  set a0 := a % B with ha0
  set a1 := a / B with ha1
  set b0 := b % B with hb0
  set b1 := b / B with hb1
  have hla0 : a0 < B := hmod a
  have hla1 : a1 < B := hhalf a ha
  have hlb0 : b0 < B := hmod b
  have hlb1 : b1 < B := hhalf b hb
  set c := a0 * b0 / B + a0 * b1 % B + a1 * b0 % B with hc
  set c' := c / B + a0 * b1 / B + a1 * b0 / B + a1 * b1 % B with hc'
  obtain ⟨hclt, hclt', hr3lt⟩ := schoolbook_lt hB4 hla0 hla1 hlb0 hlb1 hc hc'
  rw [← hword] at hclt hclt'
  set r3 := c' / B + a1 * b1 / B with hr3
  have hbook := schoolbook hc hc'
  have hab : (a1 * B + a0) * (b1 * B + b0) = a * b := by
    rw [Nat.mul_comm a1, Nat.mul_comm b1, ha1, ha0, hb1, hb0, Nat.div_add_mod, Nat.div_add_mod]
  rw [← hr3, hab] at hbook
  have hr3word : r3 < 2 ^ F.size := hr3lt.trans_le (by rw [hword]; exact Nat.le_mul_of_pos_left B hBpos)
  have hshl {x y : ℕ} (hx : x < B) (hy : y < B) : fUint F (x <<< H) ||| y = x * B + y := by
    have hlt : x * B < 2 ^ F.size := by
      rw [hword]
      exact Nat.mul_lt_mul_of_pos_right hx hBpos
    rw [Nat.shiftLeft_eq, fUint_of_lt hlt, Nat.mul_comm, ← Nat.two_pow_add_eq_or_of_lt hy]
  have hleft : mulUHalves F a b = (r3 * B + c' % B, c % B * B + a0 * b0 % B) := by
    unfold mulUHalves fUhalf
    simp only [hfh, Nat.shiftRight_eq_div_pow, ← hB, ← ha0, ← hb0, ← ha1, ← hb1, Nat.mod_eq_of_lt hla1,
      Nat.mod_eq_of_lt hlb1, fUint_of_lt (hmul hla0 hlb0), fUint_of_lt (hmul hla0 hlb1), fUint_of_lt (hmul hla1 hlb0),
      fUint_of_lt (hmul hla1 hlb1), ← hc, fUint_of_lt hclt, ← hc', fUint_of_lt hclt', ← hr3, fUint_of_lt hr3word,
      Nat.mod_eq_of_lt hr3lt, hshl hr3lt (hmod c'), hshl (hmod c) (hmod (a0 * b0))]
  have hlow : c % B * B + a0 * b0 % B < 2 ^ F.size := by
    have h := Nat.mul_le_mul_right B (show c % B + 1 ≤ B from hmod c)
    have := hmod (a0 * b0)
    rw [Nat.add_mul] at h
    rw [hword]
    omega
  obtain ⟨hhi, hlo⟩ := words_eq (r3 * B + c' % B) (a * b) hlow (by rw [← hbook, hword]; ring)
  rw [hleft, hhi, hlo, mulU_eq (by rw [two_mul, pow_add]; exact Nat.mul_lt_mul'' ha hb)]

/-! ## Quotients -/

/-- The state of the loop of `divrem_u` after `i` rounds: the remainder of what has been taken in of the dividend
    `a1 * 2 ^ F.size + a0`, the bits that are left of it, and below them the bits of the quotient. -/
structure DivremState (F : FloatFormat) (b a1 a0 i : ℕ) (x : ℕ × ℕ) : Prop where
  rem_lt : x.1 < b
  split : ∃ q < 2 ^ i, x.2 = a0 % 2 ^ (F.size - i) * 2 ^ i + q ∧ q * b + x.1 = a1 * 2 ^ i + a0 / 2 ^ (F.size - i)

theorem DivremState.init {a1 a0 : ℕ} (h1 : a1 < b) (h0 : a0 < 2 ^ F.size) : DivremState F b a1 a0 0 (a1, a0) where
  rem_lt := h1
  split := ⟨0, Nat.one_pos, by simp [Nat.mod_eq_of_lt h0], by simp [Nat.div_eq_of_lt h0]⟩

/-- The highest bit that is left, and the bits below it. -/
theorem top_bit (a0 : ℕ) {i : ℕ} (hi : i < F.size) :
    a0 % 2 ^ (F.size - i) = (a0 / 2 ^ (F.size - i - 1) % 2) * 2 ^ (F.size - i - 1) + a0 % 2 ^ (F.size - i - 1) ∧
      a0 / 2 ^ (F.size - i - 1) = a0 / 2 ^ (F.size - i) * 2 + a0 / 2 ^ (F.size - i - 1) % 2 := by
  have hpow : 2 ^ (F.size - i) = 2 ^ (F.size - i - 1) * 2 := by
    rw [← pow_succ, Nat.sub_add_cancel (by omega)]
  constructor
  · rw [hpow, Nat.mod_mul]
    ring
  · rw [hpow, ← Nat.div_div_eq_div_mul]
    omega

/-- **One round** takes in a bit of the dividend and puts out one of the quotient. -/
theorem DivremState.round {a1 a0 i : ℕ} {x : ℕ × ℕ} (hb : b < 2 ^ F.size) (hi : i < F.size) (h : DivremState F b a1 a0 i x) :
    DivremState F b a1 a0 (i + 1) (divremRound F b x) := by
  obtain ⟨q, hq, hx2, hx1⟩ := h.split
  have hrem := h.rem_lt
  obtain ⟨hmod, hdiv⟩ := top_bit (F := F) a0 hi
  set t := a0 / 2 ^ (F.size - i - 1) % 2 with ht
  set low := a0 % 2 ^ (F.size - i - 1) with hlow
  have ht2 : t < 2 := Nat.mod_lt _ two_pos
  have hlowlt : low < 2 ^ (F.size - i - 1) := Nat.mod_lt _ (Nat.two_pow_pos _)
  have hword : 2 ^ F.size = 2 * 2 ^ (F.size - 1) := by rw [← pow_succ', Nat.sub_add_cancel (by omega)]
  have hpowi : 2 ^ (F.size - 1) = 2 ^ (F.size - i - 1) * 2 ^ i := by
    rw [← pow_add]
    congr 1
    omega
  have hrest : low * 2 ^ i + q < 2 ^ (F.size - 1) := by
    rw [hpowi]
    have := Nat.mul_le_mul_right (2 ^ i) (show low + 1 ≤ 2 ^ (F.size - i - 1) from hlowlt)
    rw [Nat.add_mul] at this
    omega
  have hx2' : x.2 = t * 2 ^ (F.size - 1) + (low * 2 ^ i + q) := by
    rw [hx2, hmod, hpowi]
    ring
  -- the highest bits of the two words
  have htop : x.2 / 2 ^ (F.size - 1) = t := by
    rw [hx2', Nat.add_comm, Nat.add_mul_div_right _ _ (Nat.two_pow_pos _), Nat.div_eq_of_lt hrest, Nat.zero_add]
  have hshl2 : fUint F (x.2 <<< 1) = 2 * (low * 2 ^ i + q) := by
    rw [Nat.shiftLeft_eq, pow_one, fUint, hword, Nat.mul_comm, Nat.mul_mod_mul_left, hx2', Nat.add_comm,
      Nat.add_mul_mod_self_right, Nat.mod_eq_of_lt hrest]
  have hbit {y : ℕ} (hy : y % 2 = 0) {c : ℕ} (hc : c < 2) : y ||| c = y + c := by
    have := Nat.two_pow_add_eq_or_of_lt (i := 1) (b := c) (by omega) (y / 2)
    rw [pow_one, show 2 * (y / 2) = y by omega] at this
    exact this.symm
  have hR : fUint F (x.1 <<< 1) ||| x.2 >>> (F.size - 1) = fUint F (2 * x.1) + t := by
    rw [Nat.shiftRight_eq_div_pow, htop, Nat.shiftLeft_eq, pow_one, Nat.mul_comm, hbit _ ht2]
    rw [fUint, hword, Nat.mul_mod_mul_left]
    omega
  -- what the remainder is before the divisor is taken off
  set R := 2 * x.1 + t with hRdef
  have hRlt : R < 2 * b := by omega
  have hcarry : (x.1 >>> (F.size - 1) ≠ 0 ∨ b ≤ fUint F (2 * x.1) + t) ↔ b ≤ R := by
    rw [Nat.shiftRight_eq_div_pow]
    rcases Nat.lt_or_ge x.1 (2 ^ (F.size - 1)) with hlt | hge
    · rw [Nat.div_eq_of_lt hlt, fUint_of_lt (by omega), hRdef]
      simp
    · have := (Nat.one_le_div_iff (Nat.two_pow_pos (F.size - 1))).mpr hge
      exact iff_of_true (.inl (by omega)) (by omega)
  have hsub (hge : b ≤ R) : fUint F (2 ^ F.size + (fUint F (2 * x.1) + t) - b) = R - b := by
    have hsplit : ∃ k, 2 * x.1 = k * 2 ^ F.size + fUint F (2 * x.1) := by
      refine ⟨2 * x.1 / 2 ^ F.size, ?_⟩
      have := Nat.div_add_mod (2 * x.1) (2 ^ F.size)
      rw [fUint, Nat.mul_comm (2 * x.1 / _), this]
    obtain ⟨k, hk⟩ := hsplit
    have hmodeq : (2 ^ F.size + (fUint F (2 * x.1) + t) - b) % 2 ^ F.size = (R - b) % 2 ^ F.size := by
      rw [← Nat.add_mul_mod_self_right _ k]
      rw [show 2 ^ F.size + (fUint F (2 * x.1) + t) - b + k * 2 ^ F.size = R - b + 2 ^ F.size by omega, Nat.add_mod_right]
    rw [fUint, hmodeq, Nat.mod_eq_of_lt (by omega)]
  have hdiv' : a1 * 2 ^ (i + 1) + a0 / 2 ^ (F.size - (i + 1)) = 2 * (q * b + x.1) + t := by
    rw [hx1, show F.size - (i + 1) = F.size - i - 1 by omega, hdiv, pow_succ]
    ring
  unfold divremRound
  simp only [hR, hshl2, hcarry, decide_eq_true_eq]
  by_cases hge : b ≤ R
  · simp only [hge, if_true, hsub hge]
    refine ⟨by dsimp only; omega, 2 * q + 1, by rw [pow_succ]; omega, ?_, ?_⟩
    · dsimp only
      rw [hbit (by omega) (by omega), show F.size - (i + 1) = F.size - i - 1 by omega, ← hlow, pow_succ]
      ring
    · dsimp only
      rw [hdiv', Nat.add_mul, Nat.one_mul, Nat.mul_assoc]
      omega
  · have hlt : R < 2 ^ F.size := by omega
    simp only [hge, if_false]
    refine ⟨?_, 2 * q, by rw [pow_succ]; omega, ?_, ?_⟩
    · rw [fUint_of_lt (by omega)]
      omega
    · dsimp only
      rw [Nat.or_zero, show F.size - (i + 1) = F.size - i - 1 by omega, ← hlow, pow_succ]
      ring
    · rw [hdiv', fUint_of_lt (by omega), Nat.mul_assoc]
      omega

/-- All rounds. -/
theorem DivremState.run {a1 a0 : ℕ} (hb : b < 2 ^ F.size) (h1 : a1 < b) (h0 : a0 < 2 ^ F.size) :
    ∀ i ≤ F.size, DivremState F b a1 a0 i ((divremRound F b)^[i] (a1, a0)) := by
  intro i
  induction i with
  | zero => exact fun _ => DivremState.init h1 h0
  | succ i ih =>
      intro hi
      rw [Function.iterate_succ_apply']
      exact (ih (by omega)).round hb (by omega)

/-- **`divrem_u` by bits** divides two words. -/
theorem divremUBits_eq {a1 a0 : ℕ} (hb : b < 2 ^ F.size) (h1 : a1 < b) (h0 : a0 < 2 ^ F.size) :
    divremUBits F a1 a0 b = .ok ((a1 * 2 ^ F.size + a0) / b, (a1 * 2 ^ F.size + a0) % b) := by
  have hend := DivremState.run hb h1 h0 F.size (le_refl _)
  obtain ⟨q, hq, hx2, hx1⟩ := hend.split
  have hrem := hend.rem_lt
  rw [Nat.sub_self, pow_zero, Nat.mod_one, Nat.zero_mul, Nat.zero_add] at hx2
  rw [Nat.sub_self, pow_zero, Nat.div_one] at hx1
  unfold divremUBits
  have hbpos : 0 < b := by omega
  rw [if_pos h1]
  dsimp only
  rw [hx2, ← hx1]
  rw [Nat.add_comm (q * b), Nat.add_mul_div_right _ _ hbpos, Nat.div_eq_of_lt hrem, Nat.zero_add,
    Nat.add_mul_mod_self_right, Nat.mod_eq_of_lt hrem]

/-! ## Square roots -/

/-- A step of the iteration does not overflow: the low word of the radicand is zero. -/
theorem quotient_add_lt {T A s : ℕ} (hA : A + 2 * T ≤ T * T) (hs : s ≤ T) (hroot : Nat.sqrt A ≤ s) (hpos : 0 < s) :
    A / s + s < 2 * T := by
  have hq := Nat.div_mul_le_self A s
  have hlt : A < (s + 1) * (s + 1) := Nat.sqrt_lt.mp (Nat.lt_succ_of_le hroot)
  set q := A / s
  rcases Nat.lt_or_ge (s + 1) T with h | h
  · -- the quotient is at most two more than the root
    have : q ≤ s + 2 := by
      by_contra hc
      have := Nat.mul_le_mul_right s (show s + 3 ≤ q by omega)
      nlinarith
    omega
  · by_contra hc
    obtain rfl | rfl : T = s ∨ T = s + 1 := by omega
    · have := Nat.mul_le_mul_right T (show T ≤ q by omega)
      omega
    · have := Nat.mul_le_mul_right s (show s + 2 ≤ q by omega)
      nlinarith

/-- The high word of a radicand is below its root. -/
theorem root_gt (hm0 : 0 < m) (hm : m < 2 ^ (F.size - 2)) {s : ℕ} (hroot : Nat.sqrt (m * 2 ^ F.size) ≤ s) : m < s := by
  have hsize := size_eq F
  have hmant := F.two_le_mant
  have hlt : m * 2 ^ F.size < (s + 1) * (s + 1) := Nat.sqrt_lt.mp (Nat.lt_succ_of_le hroot)
  have hword4 : 2 ^ F.size = 4 * 2 ^ (F.size - 2) := by
    rw [show 4 = 2 ^ 2 from rfl, ← pow_add]
    congr 1
    omega
  by_contra hle
  have hsq : (s + 1) * (s + 1) ≤ (m + 1) * (m + 1) := Nat.mul_le_mul (by omega) (by omega)
  have hbig : m * (4 * (m + 1)) ≤ m * 2 ^ F.size := Nat.mul_le_mul_left m (by omega)
  nlinarith

/-- **The loop in words** does what the wide one does, and never fails its assertion. -/
theorem sqrtLoopWords_eq (hm0 : 0 < m) (hm : m < 2 ^ (F.size - 2)) (s : ℕ) (hroot : Nat.sqrt (m * 2 ^ F.size) ≤ s)
    (hs : s ≤ 2 ^ (F.size - 1)) : sqrtLoopWords F m 0 s = .ok (sqrtLoop (m * 2 ^ F.size) s) := by
  have hsize := size_eq F
  have hmant := F.two_le_mant
  have hApos : 0 < m * 2 ^ F.size := Nat.mul_pos hm0 (Nat.two_pow_pos _)
  have hword : 2 ^ F.size = 2 * 2 ^ (F.size - 1) := by rw [← pow_succ', Nat.sub_add_cancel (by omega)]
  have hword4 : 2 ^ F.size = 4 * 2 ^ (F.size - 2) := by
    rw [show 4 = 2 ^ 2 from rfl, ← pow_add]
    congr 1
    omega
  have hT : m * 2 ^ F.size + 2 * 2 ^ (F.size - 1) ≤ 2 ^ (F.size - 1) * 2 ^ (F.size - 1) := by
    have h1 := Nat.mul_le_mul_right (2 ^ F.size) (show m + 1 ≤ 2 ^ (F.size - 2) from hm)
    have h2 : 2 ^ (F.size - 2) * 2 ^ F.size = 2 ^ (F.size - 1) * 2 ^ (F.size - 1) := by
      rw [← pow_add, ← pow_add]
      congr 1
      omega
    rw [Nat.add_mul, Nat.one_mul, h2] at h1
    omega
  have hpos : 0 < s := (Nat.sqrt_pos.mpr hApos).trans_le hroot
  fun_induction sqrtLoop (m * 2 ^ F.size) s with
  | case1 s u hu =>
      have hq : m * 2 ^ F.size / s + s < 2 ^ F.size := by
        have := quotient_add_lt hT hs hroot hpos
        omega
      have hms : m < s := root_gt hm0 hm hroot
      rw [sqrtLoopWords, divremUBits_eq (by omega) hms (Nat.two_pow_pos _), Nat.add_zero]
      simp only [bind, Except.bind, fUint_of_lt hq]
      exact if_pos hu
  | case2 s u hu ih =>
      have hq : m * 2 ^ F.size / s + s < 2 ^ F.size := by
        have := quotient_add_lt hT hs hroot hpos
        omega
      have hms : m < s := root_gt hm0 hm hroot
      have hstep := sqrt_le_step (m * 2 ^ F.size) hpos
      rw [sqrtLoopWords, divremUBits_eq (by omega) hms (Nat.two_pow_pos _), Nat.add_zero]
      simp only [bind, Except.bind, fUint_of_lt hq]
      refine (if_neg hu).trans ?_
      exact ih hstep (by omega) ((Nat.sqrt_pos.mpr hApos).trans_le hstep)

/-- **`sqrtrem_u` in words** finds the root that the wide one finds. -/
theorem sqrtremUWords_eq (hS : 2 ∣ F.size) (h0 : 2 ≤ m) (hm : m < 2 ^ (F.size - 2)) :
    sqrtremUWords F m 0 = .ok (sqrtremU F m 0) := by
  have hsize := size_eq F
  have hmant := F.two_le_mant
  have hmS : m < 2 ^ F.size := hm.trans (Nat.pow_lt_pow_right (by decide) (by omega))
  obtain ⟨hl, hstart⟩ := sqrt_start (F := F) h0 hmS
  have hlog := log2_lt_of_lt (show 0 < m - 1 by omega) (show m - 1 < 2 ^ (F.size - 2) by omega)
  have hu : 2 ^ ((F.size + ((m - 1).log2 + 1) + 1) / 2) ≤ 2 ^ (F.size - 1) :=
    Nat.pow_le_pow_right (by decide) (by omega)
  have hword : 2 ^ F.size = 2 * 2 ^ (F.size - 1) := by rw [← pow_succ', Nat.sub_add_cancel (by omega)]
  have hroot : Nat.sqrt (m * 2 ^ F.size) < 2 ^ F.size := by
    rw [Nat.sqrt_lt]
    exact Nat.mul_lt_mul_of_pos_right hmS (Nat.two_pow_pos _)
  have hsquare : Nat.sqrt (m * 2 ^ F.size) * Nat.sqrt (m * 2 ^ F.size) < 2 ^ (2 * F.size) := by
    rw [two_mul, pow_add]
    exact Nat.mul_lt_mul'' hroot hroot
  have hpos := Nat.two_pow_pos (F.size - 1)
  have hApos : 0 < m * 2 ^ F.size := Nat.mul_pos (by omega) (Nat.two_pow_pos _)
  rw [sqrtremU_eq h0 hmS]
  unfold sqrtremUWords
  rw [if_neg (by omega)]
  simp only [show m ≠ 0 by omega, ne_eq, not_false_eq_true, if_true, hl, Nat.one_shiftLeft,
    fUint_of_lt (show 2 ^ ((F.size + ((m - 1).log2 + 1) + 1) / 2) < 2 ^ F.size by omega),
    sqrtLoopWords_eq (show 0 < m by omega) hm _ hstart hu, sqrtLoop_eq _ _ hApos hstart, bind, Except.bind, pure, Except.pure,
    mulUHalves_eq hS hroot hroot, mulU_eq hsquare]
  set r := Nat.sqrt (m * 2 ^ F.size)
  -- both words of the square are those of the radicand
  have hiff : (¬ r * r % 2 ^ F.size = 0 ∨ ¬ r * r / 2 ^ F.size = m) ↔ ¬ m * 2 ^ F.size = r * r := by
    have hdm := Nat.div_add_mod (r * r) (2 ^ F.size)
    constructor
    · rintro h heq
      rw [← heq, Nat.mul_mod_left, Nat.mul_div_cancel _ (Nat.two_pow_pos _)] at h
      simp at h
    · intro h
      by_contra hc
      rw [not_or, not_not, not_not] at hc
      rw [hc.1, hc.2, Nat.mul_comm] at hdm
      exact h hdm
  rw [decide_eq_decide.mpr hiff]

end HadBadge
