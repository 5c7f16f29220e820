import Mathlib.Data.Nat.Bitwise
import Mathlib.Tactic.Ring

/-!
# `Lib.Sv32`: the two-level page tables of RISC-V

Addresses and entries are natural numbers; `load a` is the word at the physical address `a`, if there is one. Three
points are looser than in the RISC-V manual: a large page may be misaligned, and the low bits of its number are
ignored; the supervisor may execute pages of the user where it may read them; and how many bits a physical address
has is left to `load`.

## Contents
- **Entries.** `IsLeaf`, `Permits`, and `mark`, the bits that an access sets.
- **Tables.** `Finds`: the leaf that the tables have for an address; `Leaf.physical`.
- **Facts.** Leaves are unique, all addresses of a page have the same, and marking one leaves it where it is:
  `Finds.unique`, `Finds.of_page`, `Finds.mark`.
- **The same tables.** `IsEntry`, where walks read; `SameTables`, up to the bits that accesses set.
-/

namespace Lib.Sv32

/-! ## Entries -/

inductive Access where
  | read | write | fetch
  deriving DecidableEq, Repr

/-- What permissions go by besides the entry: the privilege, and whether the supervisor may access pages of the user
    and read pages that are executable only. -/
structure Context where
  user : Bool
  sum : Bool
  mxr : Bool

def Valid (e : ℕ) : Prop := e.testBit 0

/-- An entry is a leaf if it is readable, writable or executable; else it points to a table. -/
def IsLeaf (e : ℕ) : Prop := e.testBit 1 ∨ e.testBit 2 ∨ e.testBit 3

def ppn (e : ℕ) : ℕ := e / 2 ^ 10

/-- A leaf permits an access. What is writable has to be readable, too. `sum` opens pages of the user to all accesses
    of the supervisor, where the manual excepts fetches. -/
def Permits (c : Context) (access : Access) (e : ℕ) : Prop :=
  (e.testBit 2 → e.testBit 1) ∧ (if c.user = true then e.testBit 4 = true else e.testBit 4 = true → c.sum = true) ∧
    match access with
    | .read  => e.testBit 1 ∨ (c.mxr ∧ e.testBit 3)
    | .write => e.testBit 2
    | .fetch => e.testBit 3

/-- The entry with the bits for accessed and dirty that an access sets. -/
def mark (access : Access) (e : ℕ) : ℕ := e ||| 2 ^ 6 ||| (if access = .write then 2 ^ 7 else 0)

theorem testBit_mark (access : Access) (e : ℕ) {i : ℕ} (h6 : i ≠ 6) (h7 : i ≠ 7) :
    (mark access e).testBit i = e.testBit i := by
  unfold mark
  rw [Nat.testBit_or, Nat.testBit_or, Nat.testBit_two_pow, decide_eq_false (Ne.symm h6), Bool.or_false]
  split
  · rw [Nat.testBit_two_pow, decide_eq_false (Ne.symm h7), Bool.or_false]
  · rw [Nat.zero_testBit, Bool.or_false]

theorem ppn_mark (access : Access) (e : ℕ) : ppn (mark access e) = ppn e := by
  apply Nat.eq_of_testBit_eq
  intro i
  unfold ppn
  rw [Nat.testBit_div_two_pow, Nat.testBit_div_two_pow]
  exact testBit_mark access e (by omega) (by omega)

theorem permits_mark {c : Context} {access access' : Access} {e : ℕ} :
    Permits c access (mark access' e) ↔ Permits c access e := by
  unfold Permits
  simp only [testBit_mark access' e (i := 1) (by decide) (by decide), testBit_mark access' e (i := 2) (by decide) (by decide),
    testBit_mark access' e (i := 3) (by decide) (by decide), testBit_mark access' e (i := 4) (by decide) (by decide)]

/-- An entry that has the bits already. -/
theorem mark_eq_self {access : Access} {e : ℕ} (ha : e.testBit 6) (hd : access = .write → e.testBit 7) : mark access e = e := by
  apply Nat.eq_of_testBit_eq
  intro i
  unfold mark
  rw [Nat.testBit_or, Nat.testBit_or, Nat.testBit_two_pow]
  by_cases h6 : 6 = i
  · rw [← h6, ha, Bool.true_or, Bool.true_or]
  rw [decide_eq_false h6, Bool.or_false]
  split
  · next hw =>
    rw [Nat.testBit_two_pow]
    by_cases h7 : 7 = i
    · rw [← h7, hd hw, Bool.true_or]
    · rw [decide_eq_false h7, Bool.or_false]
  · rw [Nat.zero_testBit, Bool.or_false]

/-- Marking twice is marking once. -/
theorem mark_mark (access : Access) (e : ℕ) : mark access (mark access e) = mark access e := by
  apply Nat.eq_of_testBit_eq
  intro i
  unfold mark
  simp only [Nat.testBit_or]
  cases e.testBit i <;> cases (2 ^ 6).testBit i <;> simp

/-! ## Tables -/

/-- A leaf: where its entry is, the entry, and how many bits of an address are the offset in its page. -/
structure Leaf where
  addr : ℕ
  entry : ℕ
  bits : ℕ

/-- Entry `idx` of the table at page `page`. -/
def entryAddr (page idx : ℕ) : ℕ := page * 2 ^ 12 + idx * 4

/-- The leaf for an address, in the tables whose root is page `root`. -/
inductive Finds (load : ℕ → Option ℕ) (root vaddr : ℕ) : Leaf → Prop where
  /-- a page of 4 MiB -/
  | mega {e : ℕ} : load (entryAddr root (vaddr / 2 ^ 22 % 2 ^ 10)) = some e → Valid e → IsLeaf e →
      Finds load root vaddr ⟨entryAddr root (vaddr / 2 ^ 22 % 2 ^ 10), e, 22⟩
  /-- a page of 4 KiB -/
  | page {d e : ℕ} : load (entryAddr root (vaddr / 2 ^ 22 % 2 ^ 10)) = some d → Valid d → ¬ IsLeaf d →
      load (entryAddr (ppn d) (vaddr / 2 ^ 12 % 2 ^ 10)) = some e → Valid e → IsLeaf e →
      Finds load root vaddr ⟨entryAddr (ppn d) (vaddr / 2 ^ 12 % 2 ^ 10), e, 12⟩

/-- The physical address: the page of the leaf, and the offset. The low bits of a large page's number are ignored,
    where the manual has a page fault if they are set. -/
def Leaf.physical (l : Leaf) (vaddr : ℕ) : ℕ := ppn l.entry * 2 ^ 12 / 2 ^ l.bits * 2 ^ l.bits + vaddr % 2 ^ l.bits

/-! ## Facts -/

variable {load load' : ℕ → Option ℕ} {root vaddr vaddr' : ℕ} {l l' : Leaf}

theorem Finds.load_eq (h : Finds load root vaddr l) : load l.addr = some l.entry := by
  cases h <;> assumption

theorem Finds.valid (h : Finds load root vaddr l) : Valid l.entry := by
  cases h <;> assumption

theorem Finds.bits (h : Finds load root vaddr l) : l.bits = 12 ∨ l.bits = 22 := by
  cases h
  · exact .inr rfl
  · exact .inl rfl

theorem entryAddr_aligned (page idx : ℕ) : 4 ∣ entryAddr page idx := ⟨page * 2 ^ 10 + idx, by unfold entryAddr; ring⟩

theorem Finds.aligned (h : Finds load root vaddr l) : 4 ∣ l.addr := by
  cases h <;> exact entryAddr_aligned _ _

/-- **There is one leaf at most.** -/
theorem Finds.unique (h : Finds load root vaddr l) (h' : Finds load root vaddr l') : l' = l := by
  cases h with
  | mega he _ hleaf =>
    cases h' with
    | mega he' => rw [Option.some.inj (he'.symm.trans he)]
    | page hd' _ hnot => exact absurd (Option.some.inj (he.symm.trans hd') ▸ hleaf) hnot
  | page hd _ hnot he =>
    cases h' with
    | mega he' _ hleaf' => exact absurd (Option.some.inj (he'.symm.trans hd) ▸ hleaf') hnot
    | page hd' _ _ he' =>
      obtain rfl := Option.some.inj (hd'.symm.trans hd)
      rw [Option.some.inj (he'.symm.trans he)]

/-- **A page has one leaf.** -/
theorem Finds.of_page (h : Finds load root vaddr l) (hpage : vaddr' / 2 ^ 12 = vaddr / 2 ^ 12) : Finds load root vaddr' l := by
  have htop : vaddr' / 2 ^ 22 % 2 ^ 10 = vaddr / 2 ^ 22 % 2 ^ 10 := by omega
  have hlow : vaddr' / 2 ^ 12 % 2 ^ 10 = vaddr / 2 ^ 12 % 2 ^ 10 := by rw [hpage]
  cases h with
  | mega he hvalid hleaf =>
    rw [← htop] at he ⊢
    exact .mega he hvalid hleaf
  | page hd hdvalid hnot he hvalid hleaf =>
    rw [← htop] at hd
    rw [← hlow] at he ⊢
    exact .page hd hdvalid hnot he hvalid hleaf

/-- All addresses of a page are mapped to one page. -/
theorem Leaf.physical_of_page (hbits : l.bits = 12 ∨ l.bits = 22) (hpage : vaddr' / 2 ^ 12 = vaddr / 2 ^ 12) :
    l.physical vaddr' / 2 ^ 12 = l.physical vaddr / 2 ^ 12 := by
  unfold Leaf.physical
  rcases hbits with h | h <;> rw [h] <;> omega

/-- **Marking a leaf leaves it where it is**, even where tables overlap: the entry is no pointer to a table. -/
theorem Finds.mark {access : Access} (h : Finds load root vaddr l) (hleaf : load' l.addr = some (mark access l.entry))
    (hothers : ∀ a, 4 ∣ a → load' a = load a ∨ load a = some l.entry) :
    Finds load' root vaddr { l with entry := Sv32.mark access l.entry } := by
  have hbit {e i : ℕ} (h6 : i ≠ 6) (h7 : i ≠ 7) (hi : e.testBit i) : (Sv32.mark access e).testBit i := by
    rwa [testBit_mark access e h6 h7]
  have hmarked {e : ℕ} (he : IsLeaf e) : IsLeaf (Sv32.mark access e) := by
    rcases he with h | h | h
    · exact .inl (hbit (by decide) (by decide) h)
    · exact .inr (.inl (hbit (by decide) (by decide) h))
    · exact .inr (.inr (hbit (by decide) (by decide) h))
  cases h with
  | mega _ hvalid hisleaf => exact .mega hleaf (hbit (by decide) (by decide) hvalid) (hmarked hisleaf)
  | page hd hdvalid hnot _ hvalid hisleaf =>
    refine .page ?_ hdvalid hnot hleaf (hbit (by decide) (by decide) hvalid) (hmarked hisleaf)
    rcases hothers _ (entryAddr_aligned _ _) with hsame | hentry
    · rw [hsame, hd]
    · exact absurd (Option.some.inj (hd.symm.trans hentry) ▸ hisleaf) hnot

/-! ## The same tables -/

/-- Entries that differ at most in the bits for accessed and dirty. -/
def Alike (e e' : ℕ) : Prop := ∀ i, i ≠ 6 → i ≠ 7 → e'.testBit i = e.testBit i

theorem Alike.refl (e : ℕ) : Alike e e := fun _ _ _ => rfl

theorem Alike.trans {e e' e'' : ℕ} (h : Alike e e') (h' : Alike e' e'') : Alike e e'' :=
  fun i h6 h7 => (h' i h6 h7).trans (h i h6 h7)

theorem alike_mark (access : Access) (e : ℕ) : Alike e (mark access e) := fun _ h6 h7 => testBit_mark access e h6 h7

variable {e e' : ℕ}

theorem Alike.valid (h : Alike e e') : Valid e' ↔ Valid e := by
  unfold Valid
  rw [h 0 (by decide) (by decide)]

theorem Alike.isLeaf (h : Alike e e') : IsLeaf e' ↔ IsLeaf e := by
  unfold IsLeaf
  rw [h 1 (by decide) (by decide), h 2 (by decide) (by decide), h 3 (by decide) (by decide)]

theorem Alike.ppn (h : Alike e e') : Sv32.ppn e' = Sv32.ppn e := by
  apply Nat.eq_of_testBit_eq
  intro i
  unfold Sv32.ppn
  rw [Nat.testBit_div_two_pow, Nat.testBit_div_two_pow]
  exact h _ (by omega) (by omega)

theorem Alike.permits (h : Alike e e') {c : Context} {access : Access} : Permits c access e' ↔ Permits c access e := by
  unfold Permits
  rw [h 1 (by decide) (by decide), h 2 (by decide) (by decide), h 3 (by decide) (by decide), h 4 (by decide) (by decide)]

/-- Where walks read: the entries of the root, and those of the tables that it points to. -/
inductive IsEntry (load : ℕ → Option ℕ) (root : ℕ) : ℕ → Prop where
  | root {i : ℕ} : i < 2 ^ 10 → IsEntry load root (entryAddr root i)
  | table {i j d : ℕ} : i < 2 ^ 10 → load (entryAddr root i) = some d → Valid d → ¬ IsLeaf d → j < 2 ^ 10 →
      IsEntry load root (entryAddr (ppn d) j)

theorem IsEntry.aligned {a : ℕ} (h : IsEntry load root a) : 4 ∣ a := by
  cases h <;> exact entryAddr_aligned _ _

theorem Finds.isEntry (h : Finds load root vaddr l) : IsEntry load root l.addr := by
  have hidx (n : ℕ) : n % 2 ^ 10 < 2 ^ 10 := Nat.mod_lt _ (by decide)
  cases h with
  | mega => exact .root (hidx _)
  | page hd hvalid hnot => exact .table (hidx _) hd hvalid hnot (hidx _)

/-- **Tables that differ at most in the bits for accessed and dirty.** -/
def SameTables (load load' : ℕ → Option ℕ) (root : ℕ) : Prop :=
  ∀ a, IsEntry load root a → Option.Rel Alike (load a) (load' a)

/-- An entry of the other tables. -/
theorem SameTables.entry (h : SameTables load load' root) {a : ℕ} (ha : IsEntry load root a) (he : load' a = some e') :
    ∃ e, load a = some e ∧ Alike e e' := by
  have hrel := h a ha
  rw [he] at hrel
  cases hload : load a with
  | none =>
    rw [hload] at hrel
    cases hrel
  | some e =>
    rw [hload] at hrel
    cases hrel with
    | some halike => exact ⟨e, rfl, halike⟩

theorem SameTables.isEntry (h : SameTables load load' root) {a : ℕ} (ha : IsEntry load' root a) : IsEntry load root a := by
  cases ha with
  | root hi => exact .root hi
  | table hi hd hvalid hnot hj =>
    obtain ⟨d, hd', halike⟩ := h.entry (.root hi) hd
    rw [halike.ppn]
    exact .table hi hd' (halike.valid.mp hvalid) (fun hleaf => hnot (halike.isLeaf.mpr hleaf)) hj

/-- **They translate in the same way.** -/
theorem SameTables.finds (h : SameTables load load' root) (hf : Finds load' root vaddr l') :
    ∃ l, Finds load root vaddr l ∧ l'.addr = l.addr ∧ Alike l.entry l'.entry ∧ l'.physical vaddr = l.physical vaddr := by
  have hidx (n : ℕ) : n % 2 ^ 10 < 2 ^ 10 := Nat.mod_lt _ (by decide)
  cases hf with
  | mega he hvalid hleaf =>
    obtain ⟨e, he', halike⟩ := h.entry (.root (hidx _)) he
    refine ⟨_, .mega he' (halike.valid.mp hvalid) (halike.isLeaf.mp hleaf), rfl, halike, ?_⟩
    unfold Leaf.physical
    rw [halike.ppn]
  | page hd hdvalid hnot he hvalid hleaf =>
    obtain ⟨d, hd', hdalike⟩ := h.entry (.root (hidx _)) hd
    have hdvalid' := hdalike.valid.mp hdvalid
    have hnot' : ¬ IsLeaf d := fun hleaf => hnot (hdalike.isLeaf.mpr hleaf)
    rw [hdalike.ppn] at he ⊢
    obtain ⟨e, he', halike⟩ := h.entry (.table (hidx _) hd' hdvalid' hnot' (hidx _)) he
    refine ⟨_, .page hd' hdvalid' hnot' he' (halike.valid.mp hvalid) (halike.isLeaf.mp hleaf), rfl, halike, ?_⟩
    unfold Leaf.physical
    rw [halike.ppn]

end Lib.Sv32
