import HadBadge.Lib.CInt

/-!
# `Lib.CText`: C strings, numbers in them and fields between separators

A C string is the list of its bytes before the terminating NUL. `atoi` is the one of glibc, `strtol` in base
ten converted to `int`.

## Contents
- **`strchr`, `atoi`.**
- **Decimal numbers.** `decimal n`, and that `atoi` reads it back (`atoi_decimal`).
- **Fields.** `field sep s i`: what a loop that calls `strchr` and steps over the separator points at in round
  `i`; there is such a field when there are `i` separators (`field_isSome_iff`).
-/

namespace Lib

/-- A C string. -/
abbrev CStr := List UInt8

/-- A string literal of the program. -/
def cstr (s : String) : CStr := s.toList.map (fun c => c.toNat.toUInt8)

/-- `strchr`: from the first `c` on. -/
def strchr : CStr → UInt8 → Option CStr
  | [],     _ => none
  | b :: s, c => if b = c then some (b :: s) else strchr s c

/-- `isspace` in the C locale. -/
def isSpace (c : UInt8) : Bool := c = 32 || (9 ≤ c && c ≤ 13)

/-- `isdigit`. -/
def isDigit (c : UInt8) : Bool := 48 ≤ c && c ≤ 57

/-- The number that the leading digits spell, after `acc`. -/
def digitsVal (acc : Nat) : CStr → Nat
  | []     => acc
  | c :: s => if isDigit c then digitsVal (acc * 10 + (c.toNat - 48)) s else acc

/-- `atoi`. -/
def atoi (s : CStr) : Int :=
  match s.dropWhile isSpace with
  | 45 :: s => i32 (max (-9223372036854775808) (-(digitsVal 0 s : Int)))
  | 43 :: s => i32 (min 9223372036854775807 (digitsVal 0 s))
  | s       => i32 (min 9223372036854775807 (digitsVal 0 s))

/-! ## Decimal numbers -/

/-- A number as it is printed in base ten. -/
def decimal (n : Nat) : CStr := cstr (toString n)

theorem decimal_eq (n : Nat) : decimal n = (Nat.toDigits 10 n).map (fun c => c.toNat.toUInt8) := by
  unfold decimal cstr
  rw [Nat.toString_eq_ofList_toDigits, String.toList_ofList]

/-- A digit stays one as a byte. -/
theorem toNat_digit {c : Char} (hc : c.isDigit) : c.toNat.toUInt8.toNat = c.toNat ∧ 48 ≤ c.toNat ∧ c.toNat ≤ 57 := by
  obtain ⟨h0, h1⟩ : 48 ≤ c.toNat ∧ c.toNat ≤ 57 := by
    simpa [Char.isDigit, UInt32.le_iff_toNat_le] using hc
  refine ⟨?_, h0, h1⟩
  rw [Nat.toUInt8_eq, UInt8.toNat_ofNat', Nat.mod_eq_of_lt (by omega)]

theorem isDigit_iff {c : UInt8} : isDigit c = true ↔ 48 ≤ c.toNat ∧ c.toNat ≤ 57 := by
  simp [isDigit, UInt8.le_iff_toNat_le]

theorem isDigit_decimal {n : Nat} {c : UInt8} (hc : c ∈ decimal n) : isDigit c = true := by
  rw [decimal_eq] at hc
  obtain ⟨d, hd, rfl⟩ := List.mem_map.mp hc
  obtain ⟨hbyte, hrange⟩ := toNat_digit (Nat.isDigit_of_mem_toDigits (by omega) (by omega) hd)
  rw [isDigit_iff, hbyte]
  exact hrange

theorem decimal_ne_nil (n : Nat) : decimal n ≠ [] := by
  rw [decimal_eq]
  simp [Nat.toDigits_ne_nil]

/-- Digits are read up to the first byte that is none. -/
theorem digitsVal_append {cs : List Char} (hcs : ∀ c ∈ cs, c.isDigit) {rest : CStr}
    (hrest : ∀ c ∈ rest.head?, isDigit c = false) (acc : Nat) :
    digitsVal acc (cs.map (fun c => c.toNat.toUInt8) ++ rest) = Nat.ofDigitChars 10 cs acc := by
  -- on the digits; each moves the number one place up
  induction cs generalizing acc with
  | nil =>
      rw [Nat.ofDigitChars_nil, List.map_nil, List.nil_append]
      cases rest with
      | nil => rfl
      | cons c rest => simp [digitsVal, hrest c rfl]
  | cons c cs ih =>
      obtain ⟨hbyte, hrange⟩ := toNat_digit (hcs c (List.mem_cons_self ..))
      have hdigit : isDigit c.toNat.toUInt8 = true := by rwa [isDigit_iff, hbyte]
      rw [List.map_cons, List.cons_append, digitsVal, if_pos hdigit, hbyte,
        ih (fun d hd => hcs d (List.mem_cons_of_mem _ hd)), Nat.ofDigitChars_cons, Nat.mul_comm]
      rfl

theorem digitsVal_decimal (n : Nat) {rest : CStr} (hrest : ∀ c ∈ rest.head?, isDigit c = false) :
    digitsVal 0 (decimal n ++ rest) = n := by
  rw [decimal_eq, digitsVal_append (fun c hc => Nat.isDigit_of_mem_toDigits (by omega) (by omega) hc) hrest,
    Nat.ofDigitChars_ten_toDigits]

/-- A text that starts with a digit is a number without a sign. -/
theorem atoi_digit {c : UInt8} (hc : isDigit c = true) (s : CStr) :
    atoi (c :: s) = i32 (min 9223372036854775807 (digitsVal 0 (c :: s))) := by
  obtain ⟨h0, h1⟩ := isDigit_iff.mp hc
  have hspace : ¬ isSpace c = true := by
    simp [isSpace, UInt8.le_iff_toNat_le, ← UInt8.toNat_inj]
    omega
  unfold atoi
  rw [List.dropWhile_cons_of_neg hspace]
  split
  · rename_i heq
    cases heq
    exact absurd h0 (by decide)
  · rename_i heq
    cases heq
    exact absurd h0 (by decide)
  · rfl

/-- **`atoi` reads a decimal number back**, between white space and what is no digit. -/
theorem atoi_decimal {pad rest : CStr} {n : Nat} (hpad : ∀ c ∈ pad, isSpace c = true) (hn : n < 2147483648)
    (hrest : ∀ c ∈ rest.head?, isDigit c = false) : atoi (pad ++ (decimal n ++ rest)) = n := by
  have hskip : atoi (pad ++ (decimal n ++ rest)) = atoi (decimal n ++ rest) := by
    unfold atoi
    rw [List.dropWhile_append_of_pos hpad]
  have hval := digitsVal_decimal n hrest
  obtain ⟨c, ds, hdec⟩ := List.exists_cons_of_ne_nil (decimal_ne_nil n)
  rw [hskip]
  rw [hdec, List.cons_append] at hval ⊢
  rw [atoi_digit (isDigit_decimal (n := n) (by rw [hdec]; exact List.mem_cons_self ..)), hval]
  unfold i32
  omega

/-! ## Fields -/

/-- The text after the first separator. -/
def afterSep (sep : UInt8) (s : CStr) : Option CStr := (strchr s sep).map List.tail

/-- The text from field `i` on. -/
def field (sep : UInt8) (s : CStr) : Nat → Option CStr
  | 0   => some s
  | i+1 => (afterSep sep s).bind (fun s => field sep s i)

theorem field_succ (sep : UInt8) (s : CStr) (i : Nat) :
    field sep s (i + 1) = (afterSep sep s).bind (fun s => field sep s i) := rfl

theorem afterSep_cons (sep b : UInt8) (s : CStr) :
    afterSep sep (b :: s) = if b = sep then some s else afterSep sep s := by
  unfold afterSep
  rw [strchr]
  by_cases hb : b = sep
  · rw [if_pos hb, if_pos hb]
    rfl
  · rw [if_neg hb, if_neg hb]

/-- The first separator ends what has none in it. -/
theorem afterSep_append {sep : UInt8} {s : CStr} (hs : sep ∉ s) (rest : CStr) :
    afterSep sep (s ++ sep :: rest) = some rest := by
  induction s with
  | nil => rw [List.nil_append, afterSep_cons, if_pos rfl]
  | cons b s ih =>
      obtain ⟨hb, hs⟩ := List.ne_and_not_mem_of_not_mem_cons hs
      rw [List.cons_append, afterSep_cons, if_neg (Ne.symm hb), ih hs]

/-- Stepping over a separator leaves one fewer. -/
theorem afterSep_count (sep : UInt8) (s : CStr) :
    (afterSep sep s = none ∧ s.count sep = 0) ∨ ∃ rest, afterSep sep s = some rest ∧ s.count sep = rest.count sep + 1 := by
  induction s with
  | nil => exact .inl ⟨rfl, rfl⟩
  | cons b s ih =>
      rw [afterSep_cons]
      by_cases hb : b = sep
      · rw [if_pos hb, hb]
        exact .inr ⟨s, rfl, List.count_cons_self⟩
      · rw [if_neg hb, List.count_cons_of_ne hb]
        exact ih

/-- There is a field `i` exactly when there are `i` separators before it. -/
theorem field_isSome_iff (sep : UInt8) (s : CStr) (i : Nat) : (field sep s i).isSome ↔ i ≤ s.count sep := by
  induction i generalizing s with
  | zero => exact iff_of_true rfl (Nat.zero_le _)
  | succ i ih =>
      rw [field_succ]
      rcases afterSep_count sep s with ⟨hnone, hcount⟩ | ⟨rest, hrest, hcount⟩
      · rw [hnone, hcount]
        exact iff_of_false Bool.false_ne_true (Nat.not_succ_le_zero i)
      · rw [hrest, hcount, Nat.succ_le_succ_iff]
        exact ih rest

end Lib
