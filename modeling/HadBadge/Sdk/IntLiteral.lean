import HadBadge.Lib.Strtol

/-!
# `Sdk.IntLiteral`: integer literals of BASIC

`vbequiv_strtol` of `sdk/mybasic/ext_intliteral_strtol.c` and the two places of `sdk/mybasic/my_basic.c` that
decide what reaches it and what becomes of its result: the characters of a symbol, and the first test of
`_get_symbol_type`.
-/

namespace HadBadge

open Lib

/-- `vbequiv_strtol`: the result and the text at `*endptr`. -/
def vbequivStrtol (longMax : Nat) (nptr : CStr) (base : Nat) : Int × CStr :=
  if 2 < nptr.length ∧ nptr[0]? = some 38 then -- `&`
    if (nptr[1]? = some 104 ∨ nptr[1]? = some 72) ∧ (base = 0 ∨ base = 16) then -- `h`, `H`
      strtol longMax (nptr.drop 2) 16
    else if (nptr[1]? = some 111 ∨ nptr[1]? = some 79) ∧ (base = 0 ∨ base = 8) then -- `o`, `O`
      strtol longMax (nptr.drop 2) 8
    else if (nptr[1]? = some 98 ∨ nptr[1]? = some 66) ∧ (base = 0 ∨ base = 2) then -- `b`, `B`
      strtol longMax (nptr.drop 2) 2
    else strtol longMax nptr base
  else strtol longMax nptr base

/-- `_is_accessor_char`. -/
def isAccessorChar (c : UInt8) : Bool := c = 46

/-- `_is_numeric_char`. -/
def isNumericChar (c : UInt8) : Bool := (48 ≤ c && c ≤ 57) || isAccessorChar c

/-- `_is_identifier_char`. -/
def isIdentifierChar (c : UInt8) : Bool :=
  (97 ≤ c && c ≤ 122) || (65 ≤ c && c ≤ 90) || c = 95 || c = 38 || isNumericChar c || c = 36

/-- `toupper` in the C locale. -/
def toUpper (c : UInt8) : UInt8 := if 97 ≤ c ∧ c ≤ 122 then c - 32 else c

/-- A symbol as the lexer cuts it: identifier characters, after `toupper`. -/
structure BasicSymbol where
  text : CStr
  ne_nil : text ≠ []
  ident : ∀ c ∈ text, isIdentifierChar c = true ∧ toUpper c = c

/-- The first test of `_get_symbol_type`: the integer that the symbol is, before the conversion to `int_t`. -/
def symbolInt (longMax : Nat) (sym : CStr) : Option Int :=
  let (value, convSuc) := vbequivStrtol longMax sym 0
  if convSuc = [] then some value else none

theorem symbolInt_eq_some {longMax : Nat} {sym : CStr} {v : Int} :
    symbolInt longMax sym = some v ↔ vbequivStrtol longMax sym 0 = (v, []) := by
  unfold symbolInt
  obtain ⟨value, convSuc⟩ := vbequivStrtol longMax sym 0
  dsimp only
  by_cases hend : convSuc = []
  · simp [hend]
  · simp [hend]

end HadBadge
