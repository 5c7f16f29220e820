import HadBadge.Sdk.IntLiteral

/-!
# `Correctness.IntLiteral`: which symbols are integers

The grammar of the literals is `Literal`. `vbequiv_strtol` strips `&H`, `&O` and `&B` and leaves the rest to
`strtol`, which for base 16 has a prefix of its own: `&H0X1F` is taken for a number too. On every other
symbol the two agree.

## Contents
- **The grammar.** `Literal`, `Denotes`.
- **Symbols.** `strtol` sees neither blanks nor signs in them (`unsigned_of_ident`).
- **By prefix.** `vbequiv_plain`, `vbequiv_amp`, and the literals of each form.
- **All symbols.** `symbolInt_iff`.
-/

namespace HadBadge

open Lib

variable {longMax : Nat} {s t : CStr} {v : Int}

/-! ## The grammar -/

/-- One or more digits of base `b`. -/
def Digits (b : Nat) (ds : CStr) : Prop := ds ≠ [] ∧ ∀ c ∈ ds, isDigitIn b c = true

/-- `Literal s b ds`: the text `s` is an integer literal with the digits `ds` in base `b`. -/
inductive Literal : CStr → Nat → CStr → Prop
  /-- decimal: no leading 0 -/
  | dec {ds : CStr} : Digits 10 ds → ds.head? ≠ some 48 → Literal ds 10 ds
  /-- octal: a leading 0 -/
  | oct {ds : CStr} : Digits 8 (48 :: ds) → Literal (48 :: ds) 8 (48 :: ds)
  /-- `0X` -/
  | hex {ds : CStr} : Digits 16 ds → Literal (48 :: 88 :: ds) 16 ds
  /-- `&H` -/
  | vbHex {ds : CStr} : Digits 16 ds → Literal (38 :: 72 :: ds) 16 ds
  /-- `&O` -/
  | vbOct {ds : CStr} : Digits 8 ds → Literal (38 :: 79 :: ds) 8 ds
  /-- `&B` -/
  | vbBin {ds : CStr} : Digits 2 ds → Literal (38 :: 66 :: ds) 2 ds

/-- The number that digits denote, clamped. -/
def literalVal (longMax b : Nat) (ds : CStr) : Int :=
  min (longMax : Int) (Nat.ofDigits b (ds.reverse.map digitOf) : Nat)

/-- `s` is an integer literal of value `v`. -/
def Denotes (longMax : Nat) (s : CStr) (v : Int) : Prop := ∃ b ds, Literal s b ds ∧ v = literalVal longMax b ds

/-! ## Symbols -/

/-- The characters of a symbol. -/
def SymbolChars (s : CStr) : Prop := ∀ c ∈ s, isIdentifierChar c = true ∧ toUpper c = c

theorem SymbolChars.tail {c : UInt8} (h : SymbolChars (c :: s)) : SymbolChars s :=
  fun d hd => h d (List.mem_cons_of_mem c hd)

/-- No character of a symbol is a blank or a sign. -/
theorem unsigned_of_ident (h : SymbolChars s) : Unsigned s := by
  intro c hc
  have hid := (h c (List.mem_of_mem_head? hc)).1
  simp only [isIdentifierChar, isNumericChar, isAccessorChar, Bool.or_eq_true, Bool.and_eq_true,
    decide_eq_true_eq, UInt8.le_iff_toNat_le, ← UInt8.toNat_inj, UInt8.reduceToNat] at hid
  refine ⟨?_, ?_, ?_⟩
  · rw [isSpace, Bool.or_eq_false_iff, Bool.and_eq_false_iff, decide_eq_false_iff_not, decide_eq_false_iff_not,
      decide_eq_false_iff_not, UInt8.le_iff_toNat_le, UInt8.le_iff_toNat_le, ← UInt8.toNat_inj]
    simp only [UInt8.reduceToNat]
    omega
  · rintro rfl
    exact absurd hid (by decide)
  · rintro rfl
    exact absurd hid (by decide)

/-- What `strtol` makes of such a text. -/
theorem strtol_eq_iff (hne : s ≠ []) (hs : SymbolChars s) (base : Nat) :
    strtol longMax s base = (v, []) ↔
      Digits (strtolBase base s).1 (strtolBase base s).2 ∧
        v = literalVal longMax (strtolBase base s).1 (strtolBase base s).2 := by
  rw [strtol_end_iff hne (unsigned_of_ident hs), Digits, and_assoc, literalVal, ← numeral_eq_ofDigits]

/-! ## By prefix -/

/-- `strtol` without a prefix to skip. -/
theorem strtolBase_of_not_hex (base : Nat) (hx : hexPrefix s = false) :
    strtolBase base s = if base = 0 then (if s.head? = some 48 then 8 else 10, s) else (base, s) := by
  unfold strtolBase
  rw [if_neg (fun h => by rw [hx] at h; exact absurd h.2 (by decide))]

/-- In a symbol the prefix is `0X`. -/
theorem hexPrefix_eq (hs : SymbolChars s) (hx : hexPrefix s = true) :
    ∃ d ds, s = 48 :: 88 :: d :: ds := by
  unfold hexPrefix at hx
  split at hx
  · rename_i x d ds
    rw [Bool.and_eq_true, Bool.or_eq_true, decide_eq_true_eq, decide_eq_true_eq] at hx
    obtain ⟨rfl | rfl, -⟩ := hx
    · exact ⟨d, ds, rfl⟩
    · exact absurd (hs 120 (by simp)).2 (by decide)
  · cases hx

/-- `&H`, `&O` and `&B` with their bases. -/
def AmpBase (c : UInt8) (b : Nat) : Prop := (c = 72 ∧ b = 16) ∨ (c = 79 ∧ b = 8) ∨ (c = 66 ∧ b = 2)

theorem vbequiv_amp {c : UInt8} {b : Nat} (hc : AmpBase c b) (ht : t ≠ []) :
    vbequivStrtol longMax (38 :: c :: t) 0 = strtol longMax t b := by
  obtain ⟨d, t, rfl⟩ := List.exists_cons_of_ne_nil ht
  obtain ⟨rfl, rfl⟩ | ⟨rfl, rfl⟩ | ⟨rfl, rfl⟩ := hc
  · simp [vbequivStrtol]
  · simp [vbequivStrtol]
  · simp [vbequivStrtol]

/-- A symbol without these prefixes goes to `strtol` as it is. -/
theorem vbequiv_plain (hs : SymbolChars s) (hform : ∀ c b t, AmpBase c b → t ≠ [] → s ≠ 38 :: c :: t) :
    vbequivStrtol longMax s 0 = strtol longMax s 0 := by
  unfold vbequivStrtol
  by_cases hamp : 2 < s.length ∧ s[0]? = some 38
  · rw [if_pos hamp]
    obtain ⟨hlen, hhead⟩ := hamp
    rcases s with _ | ⟨a, _ | ⟨c, _ | ⟨d, t⟩⟩⟩
    · exact absurd hlen (by simp)
    · exact absurd hlen (by simp)
    · exact absurd hlen (by simp)
    · obtain rfl : a = 38 := Option.some.inj hhead
      -- the lower-case letters are no characters of a symbol, the upper-case ones are excluded
      have hlow {k : UInt8} (hk : toUpper k ≠ k) : ¬ some c = some k := by
        rintro ⟨⟩
        exact hk (hs c (by simp)).2
      have hup {k : UInt8} {b : Nat} (hk : AmpBase k b) : ¬ some c = some k := by
        rintro ⟨⟩
        exact hform c b (d :: t) hk (List.cons_ne_nil d t) rfl
      have h1 : (38 :: c :: d :: t)[1]? = some c := rfl
      rw [h1, if_neg (fun h => h.1.elim (hlow (by decide)) (hup (.inl ⟨rfl, rfl⟩))),
        if_neg (fun h => h.1.elim (hlow (by decide)) (hup (.inr (.inl ⟨rfl, rfl⟩)))),
        if_neg (fun h => h.1.elim (hlow (by decide)) (hup (.inr (.inr ⟨rfl, rfl⟩))))]
  · rw [if_neg hamp]

/-- After `&H`, `&O` and `&B` the literals are digits. -/
theorem denotes_amp {c : UInt8} {b : Nat} (hc : AmpBase c b) :
    Denotes longMax (38 :: c :: t) v ↔ Digits b t ∧ v = literalVal longMax b t := by
  constructor
  · rintro ⟨b', ds, hl, hv⟩
    cases hl with
    | dec hd => exact absurd (hd.2 38 List.mem_cons_self) (by decide)
    | vbHex hd =>
        obtain ⟨-, rfl⟩ | ⟨h, -⟩ | ⟨h, -⟩ := hc
        · exact ⟨hd, hv⟩
        · exact absurd h (by decide)
        · exact absurd h (by decide)
    | vbOct hd =>
        obtain ⟨h, -⟩ | ⟨-, rfl⟩ | ⟨h, -⟩ := hc
        · exact absurd h (by decide)
        · exact ⟨hd, hv⟩
        · exact absurd h (by decide)
    | vbBin hd =>
        obtain ⟨h, -⟩ | ⟨h, -⟩ | ⟨-, rfl⟩ := hc
        · exact absurd h (by decide)
        · exact absurd h (by decide)
        · exact ⟨hd, hv⟩
  · rintro ⟨hd, hv⟩
    obtain ⟨rfl, rfl⟩ | ⟨rfl, rfl⟩ | ⟨rfl, rfl⟩ := hc
    · exact ⟨16, t, .vbHex hd, hv⟩
    · exact ⟨8, t, .vbOct hd, hv⟩
    · exact ⟨2, t, .vbBin hd, hv⟩

/-- Without these prefixes the literals are those of C, and the base is the one `strtol` finds. -/
theorem denotes_plain (hs : SymbolChars s) (hform : ∀ c b t, AmpBase c b → t ≠ [] → s ≠ 38 :: c :: t) :
    Denotes longMax s v ↔ Digits (strtolBase 0 s).1 (strtolBase 0 s).2 ∧
      v = literalVal longMax (strtolBase 0 s).1 (strtolBase 0 s).2 := by
  have hnot : ∀ c b t, Digits b t → AmpBase c b → s ≠ 38 :: c :: t := fun c b t hd hc => hform c b t hc hd.1
  by_cases hx : hexPrefix s = true
  · obtain ⟨d, ds, rfl⟩ := hexPrefix_eq hs hx
    rw [strtolBase, if_pos ⟨.inl rfl, hx⟩]
    constructor
    · rintro ⟨b', ds', hl, hv⟩
      cases hl with
      | dec _ hhead => exact absurd rfl hhead
      -- `X` is no octal digit
      | oct hd => exact absurd (hd.2 88 (by simp)) (by decide)
      | hex hd => exact ⟨hd, hv⟩
    · rintro ⟨hd, hv⟩
      exact ⟨16, d :: ds, .hex hd, hv⟩
  · rw [Bool.not_eq_true] at hx
    rw [strtolBase_of_not_hex 0 hx, if_pos rfl]
    have hhex {ds : CStr} (hd : Digits 16 ds) : s ≠ 48 :: 88 :: ds := by
      rintro rfl
      obtain ⟨d, ds, rfl⟩ := List.exists_cons_of_ne_nil hd.1
      rw [hexPrefix, hd.2 d List.mem_cons_self] at hx
      exact absurd hx (by decide)
    by_cases hhead : s.head? = some 48
    · rw [if_pos hhead]
      obtain ⟨ds, rfl⟩ : ∃ ds, s = 48 :: ds := by
        cases s with
        | nil => cases hhead
        | cons a ds => exact ⟨ds, by rw [Option.some.inj hhead]⟩
      constructor
      · rintro ⟨b', ds', hl, hv⟩
        cases hl with
        | dec _ hne => exact absurd rfl hne
        | oct hd => exact ⟨hd, hv⟩
        | hex hd => exact absurd rfl (hhex hd)
      · rintro ⟨hd, hv⟩
        exact ⟨8, 48 :: ds, .oct hd, hv⟩
    · rw [if_neg hhead]
      constructor
      · rintro ⟨b', ds', hl, hv⟩
        cases hl with
        | dec hd _ => exact ⟨hd, hv⟩
        | oct hd => exact absurd rfl hhead
        | hex hd => exact absurd rfl hhead
        | vbHex hd => exact absurd rfl (hnot 72 16 _ hd (.inl ⟨rfl, rfl⟩))
        | vbOct hd => exact absurd rfl (hnot 79 8 _ hd (.inr (.inl ⟨rfl, rfl⟩)))
        | vbBin hd => exact absurd rfl (hnot 66 2 _ hd (.inr (.inr ⟨rfl, rfl⟩)))
      · rintro ⟨hd, hv⟩
        exact ⟨10, s, .dec hd hhead, hv⟩

/-! ## All symbols -/

/-- The text is `&H0X` and hexadecimal digits. -/
def DoublePrefix (s : CStr) : Prop := ∃ ds, Digits 16 ds ∧ s = 38 :: 72 :: 48 :: 88 :: ds

/-- `X` is no digit, so no such text is a literal. -/
theorem not_denotes_double (h : DoublePrefix s) : ¬ Denotes longMax s v := by
  obtain ⟨ds, -, rfl⟩ := h
  rw [denotes_amp (.inl ⟨rfl, rfl⟩)]
  rintro ⟨hd, -⟩
  exact absurd (hd.2 88 (by simp)) (by decide)

/-- `strtol` finds the base it is given in what follows `&O` and `&B`, and in what follows `&H` unless that has
    a prefix of its own. -/
theorem strtol_amp {c : UInt8} {b : Nat} (hc : AmpBase c b) (ht : t ≠ []) (hs : SymbolChars t)
    (hd : ¬ DoublePrefix (38 :: c :: t)) :
    strtol longMax t b = (v, []) ↔ Digits b t ∧ v = literalVal longMax b t := by
  have hb : b ≠ 0 := by
    obtain ⟨-, rfl⟩ | ⟨-, rfl⟩ | ⟨-, rfl⟩ := hc <;> decide
  rw [strtol_eq_iff ht hs]
  by_cases hx : b = 16 ∧ hexPrefix t = true
  -- the digits after `0X` would make this the excluded form, and `0X` itself has a character that is no digit
  · obtain ⟨rfl, hx⟩ := hx
    obtain ⟨d, ds, rfl⟩ := hexPrefix_eq hs hx
    have hc72 : c = 72 := by
      obtain ⟨rfl, -⟩ | ⟨-, h⟩ | ⟨-, h⟩ := hc
      · rfl
      · exact absurd h (by decide)
      · exact absurd h (by decide)
    rw [strtolBase, if_pos ⟨.inr rfl, hx⟩]
    refine iff_of_false ?_ ?_
    · rintro ⟨hdig, -⟩
      exact hd ⟨d :: ds, hdig, by rw [hc72]⟩
    · rintro ⟨hdig, -⟩
      exact absurd (hdig.2 88 (by simp)) (by decide)
  · rw [strtolBase, if_neg (fun h => hx ⟨h.1.resolve_left hb, h.2⟩), if_neg hb]

/-- **The integer test accepts exactly the literals, with their values, except that it accepts `&H0X` and
    hexadecimal digits as well.** -/
theorem symbolInt_iff (longMax : Nat) (sym : BasicSymbol) :
    (∀ v, symbolInt longMax sym.text = some v ↔ Denotes longMax sym.text v) ↔
      ¬ ∃ ds, Digits 16 ds ∧ sym.text = 38 :: 72 :: 48 :: 88 :: ds := by
  obtain ⟨s, hne, hs⟩ := sym
  dsimp only
  constructor
  · rintro h ⟨ds, hd, rfl⟩
    have hx : hexPrefix (48 :: 88 :: ds) = true := by
      obtain ⟨d, ds, rfl⟩ := List.exists_cons_of_ne_nil hd.1
      rw [hexPrefix, hd.2 d List.mem_cons_self]
      rfl
    -- the text is accepted: `strtol` skips the second prefix
    have hacc : symbolInt longMax (38 :: 72 :: 48 :: 88 :: ds) = some (literalVal longMax 16 ds) := by
      rw [symbolInt_eq_some, vbequiv_amp (.inl ⟨rfl, rfl⟩) (by simp),
        strtol_eq_iff (by simp) (SymbolChars.tail (SymbolChars.tail hs)), strtolBase, if_pos ⟨.inr rfl, hx⟩]
      exact ⟨hd, rfl⟩
    exact not_denotes_double ⟨ds, hd, rfl⟩ ((h _).mp hacc)
  · intro hd v
    rw [symbolInt_eq_some]
    by_cases hform : ∃ c b t, AmpBase c b ∧ t ≠ [] ∧ s = 38 :: c :: t
    · obtain ⟨c, b, t, hc, ht, rfl⟩ := hform
      rw [vbequiv_amp hc ht, strtol_amp hc ht (SymbolChars.tail (SymbolChars.tail hs)) hd, denotes_amp hc]
    · have hplain : ∀ c b t, AmpBase c b → t ≠ [] → s ≠ 38 :: c :: t :=
        fun c b t hc ht heq => hform ⟨c, b, t, hc, ht, heq⟩
      rw [vbequiv_plain hs hplain, strtol_eq_iff hne hs, denotes_plain hs hplain]

/-- `&H0X1F` is taken for 31, though `X` is no hexadecimal digit and the symbol no literal. -/
theorem symbolInt_double_prefix :
    ∃ sym : BasicSymbol, sym.text = [38, 72, 48, 88, 49, 70] ∧
      symbolInt 2147483647 sym.text = some 31 ∧ ∀ v, ¬ Denotes 2147483647 sym.text v :=
  ⟨⟨[38, 72, 48, 88, 49, 70], by decide, by simp [isIdentifierChar, isNumericChar, toUpper]⟩, rfl, by decide,
    fun _ => not_denotes_double ⟨[49, 70], ⟨by decide, by simp [isDigitIn, digitOf]⟩, rfl⟩⟩

end HadBadge
