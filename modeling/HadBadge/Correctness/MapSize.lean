import HadBadge.Emu.CheatBounds

/-!
# `Correctness.MapSize`: the size that `write_map` answers and the map that it writes

`write_map` is called twice: without a block it answers how many bytes the map of a layer takes, with one it fills
the block in. Both multiply width and height as `int`s. The size then wraps, the loop over the entries stops at once
when the product is negative, and the header keeps 16 bits of each.

## Contents
- **Setup.** `BlockOnly` (a memory that is the block), `PassesAgree` (the property), `MapSizeSound` (the condition).
- **The two passes.** `mapSize_cases`, `layerCells_le`; `writeMap_ret`.
- **Main result.** `passesAgree_iff`; `PassesAgree.frame` is the property in a larger memory.
-/

namespace HadBadge

open Lib

/-! ## Setup -/

/-- The memory consists of the `n` bytes at `out`: any other access leaves it. -/
def BlockOnly (mem : Mem) (out n : Int) : Prop := ∀ a, (mem a).isSome ↔ out ≤ a ∧ a < out + n

/-- The size that the first pass answers is enough for the second, and is the size of the map in its header. -/
def PassesAgree (xml : LibXml) (doc : xml.Doc) (layer : xml.Node) : Prop :=
  ∀ (out n : Int) (mem : Mem), writeMap xml doc layer none mem = .ok (n, mem) → 0 ≤ n → BlockOnly mem out n →
    InBounds (writeMap xml doc layer (some out) mem) ∧
    ∀ mem', writeMap xml doc layer (some out) mem = .ok (n, mem') →
      ∃ w h : Nat, u16At mem' out = .ok w ∧ u16At mem' (out + 2) = .ok h ∧ n = 4 + 2 * (w * h : Nat)

/-- The layer has csv data with at least `n` entries. -/
def HasEntries (xml : LibXml) (doc : xml.Doc) (layer : xml.Node) (n : Nat) : Prop :=
  CsvData xml layer ∧ ∀ j < n, (layerEntry xml doc layer j).isSome

/-- The condition on a layer of size `w × h`: the product modulo `2 ^ 31` is not one of the last two, whose size has
    no room for a header; and where the map fits an `int`, either an entry is missing or width and height keep their
    product in 16 bits each. -/
def MapSizeSound (xml : LibXml) (doc : xml.Doc) (layer : xml.Node) : Prop :=
  ∀ w h, layerSize xml layer = some (w, h) →
    w * h % 2147483648 < 2147483646 ∧
    (w * h % 2147483648 < 1073741822 → HasEntries xml doc layer (layerCells w h) →
      (u16 w * u16 h : Nat) = w * h % 2147483648)

variable {xml : LibXml} {doc : xml.Doc} {layer : xml.Node} {mem mem' : Mem} {out n w h : Int}

/-! ## The size -/

/-- The size of a map of `w × h` entries only depends on the product modulo `2 ^ 31`. -/
theorem mapSize_cases (w h : Int) :
    (w * h % 2147483648 < 1073741822 ∧ i32 (4 + i32 (w * h) * 2) = 4 + 2 * (w * h % 2147483648)) ∨
      (1073741822 ≤ w * h % 2147483648 ∧ w * h % 2147483648 < 2147483646 ∧ i32 (4 + i32 (w * h) * 2) < 0) ∨
      (2147483646 ≤ w * h % 2147483648 ∧ 0 ≤ i32 (4 + i32 (w * h) * 2) ∧ i32 (4 + i32 (w * h) * 2) < 4) := by
  generalize w * h = p
  unfold i32
  omega

/-- No more entries are read than the size has room for. -/
theorem layerCells_le (w h : Int) : (layerCells w h : Int) ≤ w * h % 2147483648 := by
  unfold layerCells
  generalize w * h = p
  unfold i32
  omega

/-! ## The second pass -/

/-- A layer with all its entries can be filled in where its cells are. -/
theorem HasEntries.fillable {k : Nat} (hhas : HasEntries xml doc layer k) (hcells : ∀ j < k, CellInMem mem out j) :
    Fillable xml doc layer mem out k := by
  intro _ hk
  obtain ⟨e, he⟩ := Option.isSome_iff_exists.mp (hhas.2 0 hk)
  obtain ⟨csv, hcsv, -⟩ := Option.bind_eq_some_iff.mp he
  exact ⟨csv, hcsv, fun j hj _ => hcells j hj⟩

/-- The second pass returns the size exactly when no entry is missing. -/
theorem writeMap_ret (hsize : layerSize xml layer = some (w, h)) {ret : Int}
    (hrun : writeMap xml doc layer (some out) mem = .ok (ret, mem')) :
    ret ≠ -1 ↔ HasEntries xml doc layer (layerCells w h) := by
  have hup := (writeMap_mem hsize hrun).2
  constructor
  · intro hne
    refine ⟨by_contra fun hno => hne (hup.mpr (.inl hno)), fun j hj => ?_⟩
    obtain ⟨e, he, -⟩ := (writeMap_written hsize hrun).cells hne j hj
    rw [he]
    rfl
  · rintro ⟨hcsv, hall⟩ hret
    rcases hup.mp hret with hno | ⟨csv, htext, j, hj, hnone⟩
    · exact hno hcsv
    · have := hall j hj
      rw [layerEntry, htext] at this
      exact absurd this (by rw [Option.bind_some, hnone]; exact Bool.false_ne_true)

/-- A block of the size of its map has room for the header and for every entry that is read. -/
theorem BlockOnly.room {c : Int} (hblock : BlockOnly mem out (4 + 2 * c)) {k : Nat} (hk : (k : Int) ≤ c) :
    HeaderInMem mem out ∧ ∀ j < k, CellInMem mem out j := by
  have hin : ∀ i < 4 + 2 * k, (mem (out + (i : Nat))).isSome := fun i hi => (hblock _).mpr ⟨by omega, by omega⟩
  exact ⟨fun i hi => hin i (by omega), fun j hj => cellInMem_of_block hin hj⟩

/-! ## Main result -/

/-- A memory that is one block. -/
def blockMem (out n : Int) : Mem := fun a => if out ≤ a ∧ a < out + n then some 0 else none

theorem blockMem_only (out n : Int) : BlockOnly (blockMem out n) out n := by
  intro a
  unfold blockMem
  by_cases ha : out ≤ a ∧ a < out + n
  · simp [ha]
  · simp [ha]

/-- Passes that agree have room for a header, and one that says the size. -/
theorem PassesAgree.sound (hagree : PassesAgree xml doc layer) : MapSizeSound xml doc layer := by
  intro w h hsize
  have hpass (mem : Mem) : writeMap xml doc layer none mem = .ok (i32 (4 + i32 (w * h) * 2), mem) :=
    (writeMap_of_size hsize mem).1
  have hblock := blockMem_only 0 (i32 (4 + i32 (w * h) * 2))
  obtain ⟨hc, hn⟩ | ⟨hc, hc', -⟩ | ⟨-, hn, hn'⟩ := mapSize_cases w h
  · refine ⟨by omega, fun _ hhas => ?_⟩
    rw [hn] at hpass hblock
    -- the second pass over a block of that size ends, and returns the size
    obtain ⟨hhead, hcells⟩ := hblock.room (layerCells_le w h)
    obtain ⟨⟨ret, mem'⟩, hrun⟩ := (writeMap_total hsize).mpr ⟨hhead, hhas.fillable hcells⟩
    have hmap := writeMap_written hsize hrun
    have hret : ret = 4 + 2 * (w * h % 2147483648) := by
      rw [hmap.ret_eq.resolve_right ((writeMap_ret hsize hrun).mpr hhas), hn]
    obtain ⟨-, hheader⟩ := hagree 0 _ _ (hpass _) (by omega) hblock
    obtain ⟨w', h', hw', hh', heq⟩ := hheader mem' (by rw [hrun, hret])
    obtain rfl : u16 w = w' := Except.ok.inj (hmap.width.symm.trans hw')
    obtain rfl : u16 h = h' := Except.ok.inj (hmap.height.symm.trans hh')
    omega
  · exact ⟨hc', fun hlt => absurd hlt (by omega)⟩
  -- no room for the header
  · obtain ⟨hin, -⟩ := hagree 0 _ _ (hpass _) hn hblock
    have hhead := ((writeMap_inBounds hsize).mp hin).1 3 (by omega)
    have hlast := (hblock _).mp hhead
    omega

/-- Under the condition a block of the size has room for all that is written. -/
theorem MapSizeSound.agree (hsound : MapSizeSound xml doc layer) : PassesAgree xml doc layer := by
  intro out n mem hpass hn hblock
  obtain ⟨-, rfl⟩ | ⟨w, h, hsize, rfl⟩ := writeMap_size hpass
  · exact absurd hn (by omega)
  obtain ⟨hlt, hheader⟩ := hsound w h hsize
  obtain ⟨hc, hsz⟩ | ⟨-, -, hneg⟩ | ⟨hge, -, -⟩ := mapSize_cases w h
  · rw [hsz] at hblock ⊢
    obtain ⟨hhead, hcells⟩ := hblock.room (layerCells_le w h)
    refine ⟨(writeMap_inBounds hsize).mpr ⟨hhead, fun _ _ j hj _ => hcells j hj⟩, fun mem' hrun => ?_⟩
    have hmap := writeMap_written hsize hrun
    refine ⟨_, _, hmap.width, hmap.height, ?_⟩
    rw [hheader hc ((writeMap_ret hsize hrun).mp (by omega))]
  · exact absurd hn (by omega)
  · exact absurd hge (by omega)

/-- **The two passes over a layer agree exactly under `MapSizeSound`.** -/
theorem passesAgree_iff : PassesAgree xml doc layer ↔ MapSizeSound xml doc layer :=
  ⟨PassesAgree.sound, MapSizeSound.agree⟩

/-- A layer of `-1 × 1` entries. -/
def negativeLayer : XmlNode :=
  .elem (cstr "layer") [(cstr "width", cstr "-1"), (cstr "height", cstr "1")]
    [.elem (cstr "data") [(cstr "encoding", cstr "csv")] [] (some (cstr "1"))] none

/-- The size of that layer is 2 bytes, its header takes 4. -/
theorem passes_disagree : ¬ PassesAgree (treeXml fun _ => none) negativeLayer negativeLayer := by
  intro hagree
  obtain ⟨hin, -⟩ := hagree 0 2 (blockMem 0 2) rfl (by decide) (blockMem_only 0 2)
  exact hin 2 rfl

/-- When the passes agree, the second one changes nothing but its block in any memory. -/
theorem PassesAgree.frame (hagree : PassesAgree xml doc layer) (hpass : writeMap xml doc layer none mem = .ok (n, mem))
    (hn : 0 ≤ n) {ret : Int} (hrun : writeMap xml doc layer (some out) mem = .ok (ret, mem')) {a : Int}
    (ha : a < out ∨ out + n ≤ a) : mem' a = mem a := by
  obtain ⟨-, rfl⟩ | ⟨w, h, hsize, rfl⟩ := writeMap_size hpass
  · exact absurd hn (by omega)
  have hblock := blockMem_only out (i32 (4 + i32 (w * h) * 2))
  obtain ⟨hin, -⟩ := hagree out _ _ (writeMap_of_size hsize _).1 hn hblock
  obtain ⟨hhead, hcells⟩ := (writeMap_inBounds hsize).mp hin
  rw [(writeMap_mem hsize hrun).1]
  by_contra hne
  -- what is changed lies in the block
  rcases mapMem_changed hne with ⟨hlo, hhi⟩ | ⟨j, hj, hsome, hlo, hhi⟩
  · have hlast := (hblock _).mp (hhead 3 (by omega))
    push_cast at hlast
    omega
  · obtain ⟨e, he⟩ := Option.isSome_iff_exists.mp hsome
    obtain ⟨csv, hcsv, he⟩ := Option.bind_eq_some_iff.mp he
    obtain ⟨hlow, hhigh⟩ := hcells csv hcsv j hj (by rw [he]; rfl)
    have hlow := (hblock _).mp hlow
    have hhigh := (hblock _).mp hhigh
    omega

end HadBadge
