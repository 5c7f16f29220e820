import HadBadge.Emu.CheatBounds

/-!
# `Correctness.Csv`: reading the csv text of a layer undoes writing it

The editor writes the entries of a layer as decimal numbers with a comma between two of them, and breaks lines
where it likes. `write_map` searches the commas from the start of each number; the last entry has none behind it.

## Contents
- **The text.** `CsvCell`, `csvText`; entry `i` of the text is the value of cell `i` (`csvEntry_csvText`).
- **Too short a text.** `csvEntry_isSome_iff`: entries and commas.
- **Main result.** `writeMap_decodes`.
-/

namespace HadBadge

open Lib

/-! ## The text -/

/-- A number of the text, with the white space around it. -/
structure CsvCell where
  before : CStr
  value : Nat
  after : CStr
  before_space : ∀ c ∈ before, isSpace c = true
  value_le : value ≤ 65535
  after_space : ∀ c ∈ after, isSpace c = true

def CsvCell.text (cell : CsvCell) : CStr := cell.before ++ (decimal cell.value ++ cell.after)

/-- The text of a layer: its cells with commas between them. -/
def csvText (cells : List CsvCell) : CStr := List.intercalate [44] (cells.map CsvCell.text)

theorem csvText_cons_cons (cell next : CsvCell) (cells : List CsvCell) :
    csvText (cell :: next :: cells) = cell.text ++ 44 :: csvText (next :: cells) := by
  simp [csvText]

theorem isSpace_not_digit {c : UInt8} (hc : isSpace c = true) : isDigit c = false := by
  rw [← Bool.not_eq_true, isDigit_iff]
  simp [isSpace, UInt8.le_iff_toNat_le, ← UInt8.toNat_inj] at hc
  omega

/-- A cell has no comma in it. -/
theorem CsvCell.comma_not_mem (cell : CsvCell) : 44 ∉ cell.text := by
  unfold CsvCell.text
  simp only [List.mem_append, not_or]
  refine ⟨fun h => ?_, fun h => ?_, fun h => ?_⟩
  · exact absurd (cell.before_space _ h) (by decide)
  · exact absurd (isDigit_decimal h) (by decide)
  · exact absurd (cell.after_space _ h) (by decide)

/-- The number of a cell is read, whatever white space is around it, up to a comma or the end. -/
theorem atoi_cell (cell : CsvCell) {rest : CStr} (hrest : ∀ c ∈ rest.head?, c = 44) :
    atoi (cell.text ++ rest) = cell.value := by
  have hvalue := cell.value_le
  unfold CsvCell.text
  rw [List.append_assoc, List.append_assoc]
  refine atoi_decimal cell.before_space (by omega) (fun c hc => ?_)
  cases hafter : cell.after with
  | nil =>
      rw [hafter, List.nil_append] at hc
      rw [hrest c hc]
      rfl
  | cons d after =>
      rw [hafter] at hc
      obtain rfl : d = c := Option.some.inj hc
      exact isSpace_not_digit (cell.after_space d (by rw [hafter]; exact List.mem_cons_self ..))

theorem atoi_csvText (cell : CsvCell) (cells : List CsvCell) : atoi (csvText (cell :: cells)) = cell.value := by
  cases cells with
  | nil =>
      have hone : csvText [cell] = cell.text ++ [] := by simp [csvText]
      rw [hone]
      exact atoi_cell cell (by simp)
  | cons next cells =>
      rw [csvText_cons_cons]
      exact atoi_cell cell (by simp)

/-- **Entry `i` of the text is the value of cell `i`.** -/
theorem csvEntry_csvText {cells : List CsvCell} {i : Nat} {cell : CsvCell} (hi : cells[i]? = some cell) :
    csvEntry (csvText cells) i = some (cell.value : Int) := by
  -- on the cells; the comma behind the first one leads to the rest of them
  induction cells generalizing i with
  | nil => cases hi
  | cons first cells ih =>
      cases i with
      | zero =>
          cases hi
          rw [csvEntry_zero, atoi_csvText]
      | succ i =>
          cases cells with
          | nil => cases hi
          | cons next cells =>
              rw [csvText_cons_cons, csvEntry_succ (afterSep_append first.comma_not_mem _)]
              exact ih hi

/-! ## Too short a text -/

/-- The text has an entry `i` when it has `i` commas. -/
theorem csvEntry_isSome_iff (csv : CStr) (i : Nat) : (csvEntry csv i).isSome ↔ i ≤ csv.count 44 := by
  rw [csvEntry, Option.isSome_map, field_isSome_iff]

/-- The text of `n` cells has `n - 1` commas at least. -/
theorem csvText_commas {cells : List CsvCell} (hpos : 0 < cells.length) :
    cells.length - 1 ≤ (csvText cells).count 44 := by
  have hlast := List.getElem?_eq_getElem (show cells.length - 1 < cells.length by omega)
  rw [← csvEntry_isSome_iff, csvEntry_csvText hlast]
  rfl

/-- A layer that has a csv text has csv data. -/
theorem csvData_of_text {xml : LibXml} {doc : xml.Doc} {layer : xml.Node} {csv : CStr}
    (htext : layerText xml doc layer = some csv) : CsvData xml layer := by
  unfold layerText at htext
  obtain ⟨data, hdata, htext⟩ := Option.bind_eq_some_iff.mp htext
  by_cases henc : xml.getProp data (cstr "encoding") = some (cstr "csv")
  · exact ⟨data, hdata, henc⟩
  · rw [if_neg henc] at htext
    cases htext

variable {xml : LibXml} {doc : xml.Doc} {layer : xml.Node} {out : Int} {mem mem' : Mem} {w h : Nat}

/-- `write_map` gives up on a text exactly when it has too few commas. -/
theorem givesUp_iff {csv : CStr} (htext : layerText xml doc layer = some csv) {n : Nat} (hn : 0 < n) :
    MapGivesUp xml doc layer n ↔ csv.count 44 < n - 1 := by
  have hnone (j : Nat) : csvEntry csv j = none ↔ csv.count 44 < j := by
    rw [← Option.not_isSome_iff_eq_none, csvEntry_isSome_iff, Nat.not_le]
  constructor
  · rintro (hno | ⟨csv', hcsv', j, hj, hj'⟩)
    · exact absurd (csvData_of_text htext) hno
    · obtain rfl : csv = csv' := Option.some.inj (htext.symm.trans hcsv')
      have := (hnone j).mp hj'
      omega
  · intro hcount
    exact .inr ⟨csv, htext, n - 1, by omega, (hnone _).mpr hcount⟩

/-! ## Main result -/

/-- The map at `out` has this size, and the tiles that the entries stand for. -/
structure MapHolds (mem : Mem) (out : Int) (w h : Nat) (values : List Nat) : Prop where
  width : u16At mem out = .ok w
  height : u16At mem (out + 2) = .ok h
  tiles : ∀ (i v : Nat), values[i]? = some v → u16At mem (out + 4 + 2 * i) = .ok (if v = 0 then 0xffff else v - 1)

/-- The halfword of an entry that a map can hold. -/
theorem entryTile_natCast {v : Nat} (hv : v ≤ 65535) : entryTile (v : Int) = if v = 0 then 0xffff else v - 1 := by
  by_cases h0 : v = 0
  · rw [if_pos h0, h0]
    exact entryTile_zero
  · rw [if_neg h0]
    have := entryTile_pos (g := v) (by omega) (by omega)
    omega

theorem u16_natCast {n : Nat} (hn : n ≤ 65535) : u16 (n : Int) = n := by
  unfold u16
  omega

/-- The entries that are read from a layer whose map is no larger than an `int`. -/
theorem layerCells_natCast (hbytes : 4 + 2 * (w * h) < 2147483648) : layerCells w h = w * h := by
  unfold layerCells
  rw [← Nat.cast_mul, i32_of_range (by omega) (by omega), Int.toNat_natCast]

/-- A map whose block is in memory is written, and nothing else. -/
theorem writeMap_block (hbytes : 4 + 2 * (w * h) < 2147483648) (hsize : layerSize xml layer = some ((w : Int), (h : Int)))
    {csv : CStr} (htext : layerText xml doc layer = some csv)
    (hout : ∀ k < 4 + 2 * (w * h), (mem (out + (k : Nat))).isSome) :
    ∃ ret mem', writeMap xml doc layer (some out) mem = .ok (ret, mem') ∧
      MapWritten xml doc layer out mem mem' ret w h ∧ (ret = -1 ↔ MapGivesUp xml doc layer (w * h)) ∧
      ∀ a, a < out ∨ out + (4 + 2 * (w * h) : Nat) ≤ a → mem' a = mem a := by
  have hcells := layerCells_natCast hbytes
  have hheader : HeaderInMem mem out := fun k hk => hout k (by omega)
  have hfill : Fillable xml doc layer mem out (layerCells w h) := by
    rw [hcells]
    exact fun _ _ => ⟨csv, htext, fun j hj _ => cellInMem_of_block hout hj⟩
  obtain ⟨⟨ret, mem'⟩, hrun⟩ := (writeMap_total hsize).mpr ⟨hheader, hfill⟩
  obtain ⟨hmem, hret⟩ := writeMap_mem hsize hrun
  refine ⟨ret, mem', hrun, writeMap_written hsize hrun, by rw [hret, hcells], fun a ha => ?_⟩
  rw [hmem]
  refine mapMem_frame ?_
  rw [hcells]
  push_cast at ha ⊢
  omega

/-- A map that was written for entries it can hold is the map of these entries. -/
theorem MapWritten.mapHolds {ret : Int} {values : List Nat} (hmap : MapWritten xml doc layer out mem mem' ret w h)
    (hne : ret ≠ -1) (hw : w ≤ 65535) (hh : h ≤ 65535) (hlen : values.length = layerCells w h)
    (hentry : ∀ i v : Nat, values[i]? = some v → v ≤ 65535 ∧ layerEntry xml doc layer i = some (v : Int)) :
    MapHolds mem' out w h values := by
  refine ⟨?_, ?_, fun i v hv => ?_⟩
  · rw [hmap.width, u16_natCast hw]
  · rw [hmap.height, u16_natCast hh]
  · obtain ⟨hle, hv'⟩ := hentry i v hv
    have hi : i < values.length := (List.getElem?_eq_some_iff.mp hv).1
    obtain ⟨e, he, hread⟩ := hmap.cells hne i (by omega)
    obtain rfl : (v : Int) = e := Option.some.inj (hv'.symm.trans he)
    rw [hread, entryTile_natCast hle]

/-- **The csv text of a layer is read back.** For a layer of up to 65535 by 65535 entries, with a block for its map,
    `write_map` stores the tiles of whatever numbers the text was written from, in that block only; a text with too
    few commas is refused. -/
theorem writeMap_decodes (hw : 1 ≤ w ∧ w ≤ 65535) (hh : 1 ≤ h ∧ h ≤ 65535) (hbytes : 4 + 2 * (w * h) < 2147483648)
    (hsize : layerSize xml layer = some ((w : Int), (h : Int))) {csv : CStr}
    (htext : layerText xml doc layer = some csv)
    (hout : ∀ k < 4 + 2 * (w * h), (mem (out + (k : Nat))).isSome) :
    (∀ cells : List CsvCell, cells.length = w * h → csv = csvText cells →
      ∃ mem', writeMap xml doc layer (some out) mem = .ok ((4 + 2 * (w * h) : Nat), mem') ∧
        MapHolds mem' out w h (cells.map CsvCell.value) ∧
        ∀ a, a < out ∨ out + (4 + 2 * (w * h) : Nat) ≤ a → mem' a = mem a) ∧
    (csv.count 44 < w * h - 1 → ∃ mem', writeMap xml doc layer (some out) mem = .ok (-1, mem') ∧
      ∀ a, a < out ∨ out + (4 + 2 * (w * h) : Nat) ≤ a → mem' a = mem a) := by
  have hpos := Nat.mul_pos hw.1 hh.1
  have hcells := layerCells_natCast hbytes
  obtain ⟨ret, mem', hrun, hmap, hup, hframe⟩ := writeMap_block hbytes hsize htext hout
  rw [givesUp_iff htext hpos] at hup
  constructor
  · rintro cells hlen rfl
    have hne : ret ≠ -1 := by
      have hcommas := csvText_commas (show 0 < cells.length by omega)
      rw [ne_eq, hup]
      omega
    have hret : ret = ((4 + 2 * (w * h) : Nat) : Int) := by
      have hprod : i32 ((w : Int) * h) = (w * h : Nat) := by
        rw [← Nat.cast_mul, i32_of_range (by omega) (by omega)]
      rw [hmap.ret_eq.resolve_right hne, hprod, i32_of_range (by omega) (by omega)]
      omega
    refine ⟨mem', by rw [hrun, hret], ?_, hframe⟩
    refine hmap.mapHolds hne hw.2 hh.2 (by rw [List.length_map, hlen, hcells]) (fun i v hv => ?_)
    rw [List.getElem?_map, Option.map_eq_some_iff] at hv
    obtain ⟨cell, hcell, rfl⟩ := hv
    refine ⟨cell.value_le, ?_⟩
    rw [layerEntry, htext]
    exact csvEntry_csvText hcell
  · intro hcount
    obtain rfl := hup.mpr hcount
    exact ⟨mem', hrun, hframe⟩

/-- A row of two cells, the second one empty, with blanks before its number and a line break at the end. -/
def rowLayer : XmlNode :=
  .elem (cstr "layer") [(cstr "width", cstr "2"), (cstr "height", cstr "1")]
    [.elem (cstr "data") [(cstr "encoding", cstr "csv")] [] (some (cstr "7, \t0\n"))] none

theorem writeMap_decodes_row : ∃ mem',
    writeMap (treeXml fun _ => none) rowLayer rowLayer (some 4096) (Ram.fill 0).mem = .ok (8, mem') ∧
      MapHolds mem' 4096 2 1 [7, 0] := by
  have hout : ∀ k < 4 + 2 * (2 * 1), ((Ram.fill 0).mem (4096 + (k : Nat))).isSome :=
    fun k hk => (Ram.fill 0).isSome_of_range (by omega) (by unfold machRamSize; omega)
  have hsize : layerSize (treeXml fun _ => none) rowLayer = some (((2 : Nat) : Int), ((1 : Nat) : Int)) := by decide
  have htext : layerText (treeXml fun _ => none) rowLayer rowLayer = some (cstr "7, \t0\n") := by decide
  have hdecode := (writeMap_decodes (by decide) (by decide) (by decide) hsize htext hout).1
  obtain ⟨mem', hrun, hmap, -⟩ := hdecode [⟨[], 7, [], by simp, by omega, by simp⟩,
    ⟨[32, 9], 0, [10], by simp [isSpace], by omega, by simp [isSpace]⟩] rfl (by decide)
  exact ⟨mem', hrun, hmap⟩

end HadBadge
