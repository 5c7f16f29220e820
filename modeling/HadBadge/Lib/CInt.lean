import Mathlib.Tactic.Linarith
import Mathlib.Tactic.Ring

/-!
# `Lib.CInt`: C integer conversions over `Int`

C `int` and `uint32_t` values are carried as `Int` and `Nat`; the places where a C program converts
between the two types, or where arithmetic wraps, go through `i32` and `u32`. Division and remainder of
C `int`s are `Int.tdiv` and `Int.tmod`.

## Contents
- **Conversions.** `i32`, `i16`, `u32`, `u64`, `u16`, with the facts that make them disappear on values in range.
- **Wraparound idiom.** `x %= m; if (x < 0) x += m;` is the non-negative remainder (`tmod_fix`).
-/

namespace Lib

/-- `x` converted to a C `int`. -/
def i32 (x : Int) : Int := (x + 2147483648) % 4294967296 - 2147483648

/-- `x` converted to `int16_t`. -/
def i16 (x : Int) : Int := (x + 32768) % 65536 - 32768

/-- `x` converted to `uint32_t`. -/
def u32 (x : Int) : Nat := (x % 4294967296).toNat

/-- `x` converted to `uint64_t`. -/
def u64 (x : Int) : Nat := (x % 18446744073709551616).toNat

/-- `x` converted to `uint16_t`. -/
def u16 (x : Int) : Nat := (x % 65536).toNat

theorem i32_of_range {x : Int} (h0 : -2147483648 ≤ x) (h1 : x < 2147483648) : i32 x = x := by
  unfold i32; omega

theorem u32_of_range {x : Int} (h0 : 0 ≤ x) (h1 : x < 4294967296) : (u32 x : Int) = x := by
  unfold u32; omega

@[simp] theorem u32_natCast (n : Nat) : u32 (n : Int) = n % 4294967296 := by
  unfold u32; omega

theorem u32_lt (x : Int) : u32 x < 4294967296 := by
  unfold u32; omega

theorem u16_lt (x : Int) : u16 x < 65536 := by
  unfold u16; omega

/-- Converting to `int` and back to `uint32_t` keeps the 32 bits. -/
@[simp] theorem u32_i32 (x : Int) : u32 (i32 x) = u32 x := by
  unfold u32 i32; omega

/-- The sum of an `int` and an unsigned value only depends on the 32 bits of each. -/
theorem u32_i32_add (x y : Int) : u32 (i32 x + y) = u32 (x + y) := by
  unfold u32 i32; omega

/-! ## The wraparound idiom -/

/-- `x % m`, then `if (x < 0) x += m`: the non-negative remainder. -/
theorem tmod_fix (a : Int) {m : Int} (hm : 0 < m) :
    (if a.tmod m < 0 then a.tmod m + m else a.tmod m) = a % m := by
  have hlt : a % m < m := Int.emod_lt_of_pos a hm
  have hge : 0 ≤ a % m := Int.emod_nonneg a (by omega)
  -- the remainders of C and of `Int` differ below zero only, there by `m` unless `m` divides `a`
  rcases Int.le_total 0 a with ha | ha
  · have h : a.tmod m = a % m := Int.tmod_eq_emod_of_nonneg ha
    rw [h, if_neg (by omega)]
  · by_cases hz : a % m = 0
    · have hd : m ∣ a := Int.dvd_of_emod_eq_zero hz
      have h : a.tmod m = 0 := Int.tmod_eq_zero_of_dvd hd
      rw [h, hz]; rfl
    · have hnd : ¬ m ∣ a := fun hd => hz (Int.emod_eq_zero_of_dvd hd)
      have h : a.tmod m = a % m - m := by
        rw [Int.tmod_eq_emod, if_neg (by simp only [not_or]; exact ⟨by
          intro h0; exact hz (by rw [show a = 0 by omega]; simp), hnd⟩)]
        omega
      rw [h, if_pos (by omega)]; omega

/-- Splitting a position on a torus of `n` cells of `k` points into cell and point. -/
theorem emod_mul_ediv (a n : Int) {k : Int} (hk : 0 < k) : a % (k * n) / k = a / k % n := by
  rw [Int.emod_def a (k * n), ← Int.ediv_ediv_of_nonneg (by omega : 0 ≤ k), Int.emod_def (a / k) n]
  rw [show a - k * n * (a / k / n) = a + (-(n * (a / k / n))) * k by ring,
    Int.add_mul_ediv_right _ _ (by omega)]
  ring

end Lib
