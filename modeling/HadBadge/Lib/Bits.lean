import HadBadge.Lib.Bytes

/-!
# `Lib.Bits`: masks and shifts of machine words

## Contents
- **Masks.** `and_pageMask`: what `addr & ~(pageMask & ~(size - 1))` is. It keeps the page and the offset of
  the address from a multiple of `size`.
- **Shifts.** `shiftLeft_mod`; `or_of_halves`, and `Mem.load_unaligned`: the value of an unaligned load from the two aligned
  loads around it.
-/

namespace Lib

/-! ## Masks -/

/-- Masking with the bits from `j` on, below `2 ^ n`. -/
theorem and_high {x n j : Nat} (hx : x < 2 ^ n) (hj : j ≤ n) : x &&& (2 ^ n - 2 ^ j) = x / 2 ^ j * 2 ^ j := by
  have hmask : 2 ^ n - 2 ^ j = (2 ^ (n - j) - 1) <<< j := by
    rw [Nat.shiftLeft_eq, Nat.sub_mul, Nat.one_mul, ← pow_add, Nat.sub_add_cancel hj]
  rw [hmask, ← Nat.shiftLeft_eq (x / 2 ^ j), ← Nat.shiftRight_eq_div_pow]
  -- bit by bit: below `j`, between `j` and `n`, and from `n` on, where `x` has none
  apply Nat.eq_of_testBit_eq
  intro i
  rw [Nat.testBit_and, Nat.testBit_shiftLeft, Nat.testBit_shiftLeft, Nat.testBit_shiftRight,
    Nat.testBit_two_pow_sub_one]
  by_cases hi : j ≤ i
  · rw [Nat.add_sub_cancel' hi]
    by_cases hin : i < n
    · simp [hi, show i - j < n - j by omega]
    · have hzero : x.testBit i = false := Nat.testBit_lt_two_pow (hx.trans_le (Nat.pow_le_pow_right (by decide) (by omega)))
      simp [hi, hzero]
  · simp [hi]

/-- Masking out the bits between `k` and `j`. -/
theorem and_high_or_low {x n j k : Nat} (hx : x < 2 ^ n) (hj : j ≤ n) (hk : k ≤ j) :
    x &&& ((2 ^ n - 2 ^ j) ||| (2 ^ k - 1)) = x / 2 ^ j * 2 ^ j + x % 2 ^ k := by
  have hlow : x % 2 ^ k < 2 ^ j :=
    (Nat.mod_lt x (by positivity)).trans_le (Nat.pow_le_pow_right (by decide) hk)
  rw [Nat.and_or_distrib_left, and_high hx hj, Nat.and_two_pow_sub_one_eq_mod, Nat.mul_comm,
    ← Nat.two_pow_add_eq_or_of_lt hlow]

/-- `addr & ~(0xfff & ~(size - 1))` for `size = 1 << k`. -/
theorem and_pageMask (addr : UInt32) {k : Nat} (hk : k ≤ 3) :
    (addr &&& ~~~(0xfff &&& ~~~((1 : UInt32) <<< UInt32.ofNat k - 1))).toNat =
      addr.toNat / 4096 * 4096 + addr.toNat % 2 ^ k := by
  have hmask : (~~~(0xfff &&& ~~~((1 : UInt32) <<< UInt32.ofNat k - 1))).toNat =
      (2 ^ 32 - 2 ^ 12) ||| (2 ^ k - 1) := by
    obtain rfl | rfl | rfl | rfl : k = 0 ∨ k = 1 ∨ k = 2 ∨ k = 3 := by omega
    all_goals decide
  rw [UInt32.toNat_and, hmask]
  exact and_high_or_low addr.toNat_lt (by decide) (by omega)

/-! ## Shifts -/

/-- The high part of one number and the low part of another, side by side in `n` bits. -/
theorem or_of_halves {u v n s : Nat} (hu : u < 2 ^ n) (hs : s ≤ n) :
    u >>> s ||| v <<< (n - s) % 2 ^ n = u / 2 ^ s + 2 ^ (n - s) * (v % 2 ^ s) := by
  have hpow : 2 ^ n = 2 ^ (n - s) * 2 ^ s := by rw [← pow_add, Nat.sub_add_cancel hs]
  have hhigh : v <<< (n - s) % 2 ^ n = 2 ^ (n - s) * (v % 2 ^ s) := by
    rw [Nat.shiftLeft_eq, Nat.mul_comm v, hpow, Nat.mul_mod_mul_left]
  have hlow : u / 2 ^ s < 2 ^ (n - s) := Nat.div_lt_of_lt_mul (by rw [Nat.mul_comm, ← hpow]; exact hu)
  rw [Nat.shiftRight_eq_div_pow, hhigh, Nat.or_comm, ← Nat.two_pow_add_eq_or_of_lt hlow, Nat.add_comm]

/-- A load of all bytes before a point and of all after it. -/
theorem Mem.load_split {m : Mem} {i : Int} {a b w : Nat} (h : m.load i (a + b) = some w) :
    m.load i a = some (w % 256 ^ a) ∧ m.load (i + a) b = some (w / 256 ^ a) := by
  have hbytes := Mem.load_isSome_iff.mp ⟨w, h⟩
  obtain ⟨u, hu⟩ := Mem.load_isSome_iff.mpr (fun k (hk : k < a) => hbytes k (by omega))
  obtain ⟨v, hv⟩ := Mem.load_isSome_iff.mpr (fun k (hk : k < b) => by
    have := hbytes (a + k) (by omega)
    rwa [Nat.cast_add, ← add_assoc] at this : ∀ k < b, (m (i + a + (k : Nat))).isSome)
  have hw : w = u + 256 ^ a * v := Option.some.inj (h.symm.trans (Mem.load_add hu hv))
  have hlt := Mem.load_lt hu
  subst hw
  rw [Nat.add_mul_mod_self_left, Nat.mod_eq_of_lt hlt, Nat.add_mul_div_left _ _ (Nat.pos_of_ne_zero (by positivity)),
    Nat.div_eq_of_lt hlt, Nat.zero_add]
  exact ⟨hu, hv⟩

/-- A shift to the left leaves a multiple of `2 ^ k`. -/
theorem shiftLeft_mod (x : UInt32) {n k : Nat} (hk : k ≤ n) (hn : n < 32) :
    (x <<< UInt32.ofNat n).toNat % 2 ^ k = 0 := by
  obtain ⟨j, rfl⟩ := Nat.exists_eq_add_of_le hk
  have hshift : (k + j) % 2 ^ 32 % 32 = k + j := by omega
  have hdvd : 2 ^ k ∣ 2 ^ 32 := Nat.pow_dvd_pow 2 (by omega)
  rw [UInt32.toNat_shiftLeft, UInt32.toNat_ofNat', hshift, Nat.shiftLeft_eq, Nat.mod_mod_of_dvd _ hdvd, pow_add,
    Nat.mul_left_comm]
  exact Nat.mul_mod_right _ _

/-- **An unaligned load from two aligned ones.** `n` bytes at `i + d`, from the `n` bytes at `i` and those at
    `i + n`. -/
theorem Mem.load_unaligned {m : Mem} {i : Int} {n d u v : Nat} (hd : d ≤ n) (hu : m.load i n = some u)
    (hv : m.load (i + n) n = some v) :
    m.load (i + d) n = some (u >>> (d * 8) ||| v <<< (n * 8 - d * 8) % 2 ^ (n * 8)) := by
  have hpow (k : Nat) : 2 ^ (k * 8) = 256 ^ k := by
    rw [Nat.mul_comm, pow_mul]
    norm_num
  -- the high part of the first block and the low part of the second
  have hsplit : d + (n - d) = n := by omega
  have hhigh : m.load (i + d) (n - d) = some (u / 256 ^ d) := (Mem.load_split (by rwa [hsplit])).2
  have hlow : m.load (i + n) d = some (v % 256 ^ d) := (Mem.load_split (b := n - d) (by rwa [hsplit])).1
  have hnext : m.load (i + d + (n - d : Nat)) d = some (v % 256 ^ d) := by
    rw [← hlow]
    congr 1
    omega
  have hjoin := Mem.load_add hhigh hnext
  rw [show n - d + d = n by omega] at hjoin
  rw [hjoin, or_of_halves (by rw [hpow]; exact Mem.load_lt hu) (by omega), ← Nat.sub_mul, hpow, hpow]

end Lib
