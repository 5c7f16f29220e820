import HadBadge.Lib.CText
import Mathlib.Data.List.Induction
import Mathlib.Data.List.TakeWhile
import Mathlib.Data.Nat.Digits.Defs

/-!
# `Lib.Strtol`: `strtol` and its end pointer

`strtol` of the C standard up to C17, for base 0 and bases 2 to 36: blanks, a sign, a prefix that depends on the
base, digits. The result is the number, clamped to `long`, with the text at the end pointer, which is the
whole text if no digit was found.

## Contents
- **Numerals.** `digitOf`, `isDigitIn`, `numeral`, and the numeral as digits of Mathlib (`numeral_eq_ofDigits`).
- **`strtol`**, and when it takes a text without blanks and sign to its end (`strtol_end_iff`).
-/

namespace Lib

/-! ## Numerals -/

/-- The value of a digit; letters count on from 10, and what is neither has no value in any base. -/
def digitOf (c : UInt8) : Nat :=
  if 48 ≤ c ∧ c ≤ 57 then c.toNat - 48
  else if 65 ≤ c ∧ c ≤ 90 then c.toNat - 55
  else if 97 ≤ c ∧ c ≤ 122 then c.toNat - 87
  else 36

def isDigitIn (base : Nat) (c : UInt8) : Bool := digitOf c < base

/-- The number that digits spell, the most significant first. -/
def numeral (base : Nat) (s : CStr) : Nat := s.foldl (fun n c => n * base + digitOf c) 0

theorem numeral_append_singleton (base : Nat) (s : CStr) (c : UInt8) :
    numeral base (s ++ [c]) = numeral base s * base + digitOf c := by
  simp [numeral, List.foldl_append]

theorem numeral_eq_ofDigits (base : Nat) (s : CStr) :
    numeral base s = Nat.ofDigits base (s.reverse.map digitOf) := by
  induction s using List.reverseRecOn with
  | nil => rfl
  | append_singleton s c ih =>
      rw [numeral_append_singleton, ih, List.reverse_append, List.reverse_singleton, List.singleton_append,
        List.map_cons, Nat.ofDigits_cons, Nat.mul_comm, Nat.add_comm]

/-! ## `strtol` -/

/-- `0x` or `0X`, and a hexadecimal digit after it. -/
def hexPrefix : CStr → Bool
  | 48 :: x :: d :: _ => (x = 88 || x = 120) && isDigitIn 16 d
  | _ => false

/-- The base that `strtol` reads in, and where its digits begin. -/
def strtolBase (base : Nat) (s : CStr) : Nat × CStr :=
  if (base = 0 ∨ base = 16) ∧ hexPrefix s = true then (16, s.drop 2)
  else if base = 0 then (if s.head? = some 48 then 8 else 10, s)
  else (base, s)

/-- `strtol`, with `LONG_MAX` a parameter: its result and the text at `*endptr`. -/
def strtol (longMax : Nat) (nptr : CStr) (base : Nat) : Int × CStr :=
  let s := nptr.dropWhile isSpace
  let neg := s.head? = some 45
  let s := if s.head? = some 45 ∨ s.head? = some 43 then s.tail else s
  let (base, s) := strtolBase base s
  let digits := s.takeWhile (isDigitIn base)
  if digits = [] then (0, nptr)
  else
    (if neg then max (-(longMax + 1)) (-(numeral base digits : Int)) else min longMax (numeral base digits),
      s.dropWhile (isDigitIn base))

/-- The text begins with neither a blank nor a sign. -/
def Unsigned (s : CStr) : Prop := ∀ c ∈ s.head?, isSpace c = false ∧ c ≠ 45 ∧ c ≠ 43

/-- `strtol` takes such a text to its end exactly when digits of the base are all that follows the prefix. -/
theorem strtol_end_iff {longMax base : Nat} {s : CStr} (hne : s ≠ []) (hs : Unsigned s) {v : Int} :
    strtol longMax s base = (v, []) ↔
      (strtolBase base s).2 ≠ [] ∧ (∀ c ∈ (strtolBase base s).2, isDigitIn (strtolBase base s).1 c = true) ∧
        v = min (longMax : Int) (numeral (strtolBase base s).1 (strtolBase base s).2) := by
  obtain ⟨c, s', rfl⟩ := List.exists_cons_of_ne_nil hne
  obtain ⟨hsp, hminus, hplus⟩ := hs c rfl
  -- neither blanks nor a sign are dropped
  have hdrop : (c :: s').dropWhile isSpace = c :: s' := by
    rw [List.dropWhile_cons, hsp]
    rfl
  have hm : ¬ some c = some 45 := fun h => hminus (Option.some.inj h)
  have hp : ¬ some c = some 43 := fun h => hplus (Option.some.inj h)
  unfold strtol
  simp only [hdrop, List.head?_cons, hm, hp, or_self, if_false]
  generalize strtolBase base (c :: s') = r
  obtain ⟨b, t⟩ := r
  dsimp only
  by_cases hd : t.takeWhile (isDigitIn b) = []
  · rw [if_pos hd]
    refine iff_of_false (fun h => hne (Prod.mk.inj h).2) ?_
    rintro ⟨ht, hall, -⟩
    rw [List.takeWhile_eq_self_iff.mpr hall] at hd
    exact ht hd
  · rw [if_neg hd, Prod.mk.injEq]
    constructor
    · rintro ⟨hv, hend⟩
      have hall := List.dropWhile_eq_nil_iff.mp hend
      rw [List.takeWhile_eq_self_iff.mpr hall] at hv hd
      exact ⟨hd, hall, hv.symm⟩
    · rintro ⟨-, hall, hv⟩
      rw [List.takeWhile_eq_self_iff.mpr hall]
      exact ⟨hv.symm, List.dropWhile_eq_nil_iff.mpr hall⟩

end Lib
