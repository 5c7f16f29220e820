import HadBadge.Lib.Bits

/-!
# `Lib.Masks`: fields of a word

`x &&& m = y &&& m`: the words agree on the bits of the mask `m`. A register is made of fields, and what an update of
one does to the others follows from the masks alone.

## Contents
- **Bits.** `word_ext`, `bit_cases`.
- **Updates.** `keep_clear`, `keep_or`, `keep_insert`: what an update of some bits leaves of others;
  `insert_within`: what it puts into them.
- **Comparisons.** `and_disjoint`, `and_mono`, `bit_disjoint`: words without the bits of a mask; `and_eq_of_xor`,
  `agree_mono`, `field_eq`: words that agree on one.
-/

namespace Lib

variable {x y m n v : UInt32}

/-! ## Bits -/

/-- Words are equal if all of their bits are. -/
theorem word_ext (h : ∀ i < 32, x.toNat.testBit i = y.toNat.testBit i) : x = y := by
  apply UInt32.toNat_inj.mp
  apply Nat.eq_of_testBit_eq
  intro i
  by_cases hi : i < 32
  · exact h i hi
  · have hpow : 2 ^ 32 ≤ 2 ^ i := Nat.pow_le_pow_right (by decide) (by omega)
    rw [Nat.testBit_lt_two_pow (x.toNat_lt.trans_le hpow), Nat.testBit_lt_two_pow (y.toNat_lt.trans_le hpow)]

theorem testBit_not (x : UInt32) {i : ℕ} (hi : i < 32) : (~~~x).toNat.testBit i = !x.toNat.testBit i := by
  show (~~~x.toBitVec).getLsbD i = !x.toBitVec.getLsbD i
  rw [BitVec.getLsbD_not]
  simp [hi]

/-- The lowest bit. -/
theorem bit_cases (x : UInt32) : x &&& 1 = 0 ∨ x &&& 1 = 1 := by
  have hmod : (x &&& 1).toNat = x.toNat % 2 := by
    rw [UInt32.toNat_and]
    exact Nat.and_one_is_mod x.toNat
  rcases Nat.mod_two_eq_zero_or_one x.toNat with h | h
  · exact .inl (UInt32.toNat_inj.mp (hmod.trans h))
  · exact .inr (UInt32.toNat_inj.mp (hmod.trans h))

/-! ## Updates -/

/-- Bits outside of a mask that is cleared. -/
theorem keep_clear (x : UInt32) (h : n &&& m = 0) : x &&& ~~~n &&& m = x &&& m := by
  apply word_ext
  intro i hi
  have hbit := congrArg (fun w : UInt32 => w.toNat.testBit i) h
  simp only [UInt32.toNat_and, Nat.testBit_and, testBit_not n hi] at hbit ⊢
  cases hn : n.toNat.testBit i with
  | false => simp
  | true =>
      have hm : m.toNat.testBit i = false := by simpa [hn] using hbit
      simp [hm]

/-- Bits outside of what is put in. -/
theorem keep_or (x : UInt32) (h : v &&& m = 0) : (x ||| v) &&& m = x &&& m := by
  apply word_ext
  intro i _
  have hbit := congrArg (fun w : UInt32 => w.toNat.testBit i) h
  simp only [UInt32.toNat_and, UInt32.toNat_or, Nat.testBit_and, Nat.testBit_or] at hbit ⊢
  cases hm : m.toNat.testBit i with
  | false => simp
  | true =>
      have hv : v.toNat.testBit i = false := by simpa [hm] using hbit
      simp [hv]

/-- Bits outside of a field that is replaced. -/
theorem keep_insert (x : UInt32) (hn : n &&& m = 0) (hv : v &&& m = 0) : ((x &&& ~~~n) ||| v) &&& m = x &&& m := by
  rw [keep_or _ hv, keep_clear _ hn]

/-- A part of a mask that is disjoint from another. -/
theorem and_disjoint (x : UInt32) (h : n &&& m = 0) : x &&& n &&& m = 0 := by
  rw [UInt32.and_assoc, h, UInt32.and_zero]

/-- A word without the bits of a mask has none of a part of the mask. -/
theorem and_mono (h : x &&& m = 0) (hn : m &&& n = n) : x &&& n = 0 := by
  rw [← hn, ← UInt32.and_assoc, h, UInt32.zero_and]

/-- A single bit that is put elsewhere. -/
theorem bit_disjoint (x : UInt32) {k : UInt32} (h : (1 : UInt32) <<< k &&& m = 0) : (x &&& 1) <<< k &&& m = 0 := by
  rcases bit_cases x with h0 | h1
  · rw [h0, UInt32.zero_shiftLeft, UInt32.zero_and]
  · rw [h1, h]

/-- Bits within a field that is replaced. -/
theorem insert_within (x v : UInt32) (h : n &&& m = m) : ((x &&& ~~~n) ||| (v &&& n)) &&& m = v &&& m := by
  apply word_ext
  intro i hi
  have hbit := congrArg (fun w : UInt32 => w.toNat.testBit i) h
  simp only [UInt32.toNat_and, UInt32.toNat_or, Nat.testBit_and, Nat.testBit_or, testBit_not n hi] at hbit ⊢
  cases hm : m.toNat.testBit i with
  | false => simp
  | true =>
      have hn : n.toNat.testBit i = true := by simpa [hm] using hbit
      simp [hn]

/-- Words that do not differ in the bits of a mask. -/
theorem and_eq_of_xor (h : (x ^^^ y) &&& m = 0) : y &&& m = x &&& m := by
  apply word_ext
  intro i _
  have hbit := congrArg (fun w : UInt32 => w.toNat.testBit i) h
  simp only [UInt32.toNat_and, UInt32.toNat_xor, Nat.testBit_and, Nat.testBit_xor, UInt32.toNat_zero,
    Nat.zero_testBit] at hbit ⊢
  revert hbit
  cases x.toNat.testBit i <;> cases y.toNat.testBit i <;> cases m.toNat.testBit i <;> decide

/-- Words that agree on a mask agree on a part of it. -/
theorem agree_mono (h : x &&& m = y &&& m) (hn : m &&& n = n) : x &&& n = y &&& n := by
  rw [← hn, ← UInt32.and_assoc, ← UInt32.and_assoc, h]

/-- A field of words that agree on its mask. -/
theorem field_eq {k : UInt32} (h : x &&& (v <<< k) = y &&& (v <<< k)) (hv : (v <<< k) >>> k = v) :
    (x >>> k) &&& v = (y >>> k) &&& v := by
  have hf : (x &&& (v <<< k)) >>> k = (y &&& (v <<< k)) >>> k := by rw [h]
  rwa [UInt32.shiftRight_and, UInt32.shiftRight_and, hv] at hf

end Lib
