import HadBadge.Lib.CText
import HadBadge.MachDefines

/-!
# `Emu.MapLoader`: tilemaps from TMX files

`write_map` and `tile_loader_gen_map` of `emu/tile_loader.c`. The XML library is a parameter (`LibXml`). `out`
is an index in `main_mem`; `none` is a null pointer. Messages are left out.

## Contents
- **Translation.** `findNodeByName`, `writeTiles` (the loop over the entries), `writeMap`,
  `tileLoaderGenMap`.
- **Entries.** `csvEntry`, `entryTile` and `writeTiles_spec`: what the loop stores and when it gives up.
- **The map of a layer.** `layerSize`, `layerEntry`, `writeMap_spec` and `writeMap_total`; `genMap_cases`.
-/

namespace HadBadge

open Lib

/-- What the loader uses of libxml. -/
structure LibXml where
  Doc : Type
  Node : Type
  readFile : CStr → Option Doc
  docGetRootElement : Doc → Option Node
  /-- the list `children`, `next`, `next`, … -/
  children : Node → List Node
  name : Node → CStr
  getProp : Node → CStr → Option CStr
  /-- `xmlNodeListGetString(doc, node->xmlChildrenNode, 1)` -/
  nodeListGetString : Doc → Node → Option CStr

/-- An element of a document: its name, its attributes, its children and the text among them. -/
inductive XmlNode where
  | elem (name : CStr) (props : List (CStr × CStr)) (children : List XmlNode) (text : Option CStr)

/-- The library over documents that are trees, `files` being what it reads from each file. -/
def treeXml (files : CStr → Option XmlNode) : LibXml where
  Doc := XmlNode
  Node := XmlNode
  readFile := files
  docGetRootElement := some
  children := fun | .elem _ _ children _ => children
  name := fun | .elem name _ _ _ => name
  getProp := fun | .elem _ props _ _ => fun key => (props.find? (fun prop => prop.1 = key)).map Prod.snd
  nodeListGetString := fun _ node => match node with | .elem _ _ _ text => text

/-- `findNodeByName`. -/
def findNodeByName (xml : LibXml) (parent : xml.Node) (name : CStr) : Option xml.Node :=
  (xml.children parent).find? (fun node => xml.name node = name)

/-- `int tile=atoi(p)-1; if (tile==-1) tile=0xffff;`. -/
def storedTile (entry : Int) : Int :=
  let tile := i32 (entry - 1)
  if tile = -1 then 0xffff else tile

/-- The entry loop of `write_map` from iteration `i` on, `n` iterations being left of `count`; `p` is the text
    pointer. The result says whether the loop ran to its end. -/
def writeTiles (count : Int) (out : Int) : (n i : Nat) → Option CStr → Mem → Except Fault (Bool × Mem)
  | 0,   _, _,      mem => .ok (true, mem)
  | _+1, _, none,   _   => .error .nullDeref
  | n+1, i, some p, mem => do
      let mem ← setU16 mem (out + 4 + 2 * i) (u16 (storedTile (atoi p)))
      match afterSep 44 p with
      | some p => writeTiles count out n (i + 1) (some p) mem
      | none   => if (i : Int) ≠ count - 1 then .ok (false, mem) else writeTiles count out n (i + 1) none mem

/-- The part of `write_map` that fills the map in: the text and encoding of the `data` node. -/
def writeData (xml : LibXml) (doc : xml.Doc) (layer : xml.Node) (count : Int) (out : Int) (mem : Mem) :
    Except Fault (Bool × Mem) :=
  match findNodeByName xml layer (cstr "data") with
  | none => .ok (false, mem)
  | some data =>
      if xml.getProp data (cstr "encoding") = some (cstr "csv") then
        writeTiles count out count.toNat 0 (xml.nodeListGetString doc data) mem
      else .ok (false, mem)

/-- `write_map`: its result, and the memory after it. -/
def writeMap (xml : LibXml) (doc : xml.Doc) (layer : xml.Node) (out : Option Int) (mem : Mem) :
    Except Fault (Int × Mem) :=
  match xml.getProp layer (cstr "height"), xml.getProp layer (cstr "width") with
  | some mh, some mw =>
      let h := atoi mh
      let w := atoi mw
      let ret := i32 (4 + i32 (w * h) * 2)
      match out with
      | none => .ok (ret, mem)
      | some out => do
          let mem ← setU16 mem out (u16 w)
          let mem ← setU16 mem (out + 2) (u16 h)
          let (done, mem) ← writeData xml doc layer (i32 (w * h)) out mem
          return (if done then ret else -1, mem)
  | _, _ => .ok (-1, mem)

/-- The loop of `tile_loader_gen_map` over the children of the root: the first layer that matches. A layer
    without a name is handed to `strcmp` as a null pointer unless any layer will do. -/
def findLayer (xml : LibXml) (layername : CStr) : List xml.Node → Except Fault (Option xml.Node)
  | [] => .ok none
  | child :: rest =>
      if xml.name child = cstr "layer" then
        if layername = [] then .ok (some child)
        else match xml.getProp child (cstr "name") with
          | none    => .error .nullDeref
          | some mn => if mn = layername then .ok (some child) else findLayer xml layername rest
      else findLayer xml layername rest

/-- `tile_loader_gen_map`. -/
def tileLoaderGenMap (xml : LibXml) (name layername : CStr) (out : Option Int) (mem : Mem) :
    Except Fault (Int × Mem) :=
  match xml.readFile name with
  | none => .ok (0, mem)
  | some doc =>
  match xml.docGetRootElement doc with
  | none => .error .nullDeref
  | some root => do
      match ← findLayer xml layername (xml.children root) with
      | none       => return (-1, mem)
      | some layer => writeMap xml doc layer out mem

/-! ## Entries -/

/-- Entry `i` of csv text. -/
def csvEntry (csv : CStr) (i : Nat) : Option Int := (field 44 csv i).map atoi

/-- The halfword stored for an entry. -/
def entryTile (entry : Int) : Nat := u16 (storedTile entry)

theorem entryTile_lt (entry : Int) : entryTile entry < 65536 := u16_lt _

/-- An entry that is not filled in is stored as `0xffff`. -/
theorem entryTile_zero : entryTile 0 = 65535 := by decide

/-- An entry `g` refers to tile `g - 1`. -/
theorem entryTile_pos {g : Int} (h1 : 1 ≤ g) (h2 : g ≤ 65535) : (entryTile g : Int) = g - 1 := by
  have htile : i32 (g - 1) = g - 1 := i32_of_range (by omega) (by omega)
  unfold entryTile storedTile
  rw [htile, if_neg (by omega)]
  unfold u16
  omega

/-- A store of a halfword reads back, and leaves the rest alone. -/
theorem setU16_reads {m m' : Mem} {a : Int} {v : Nat} (hv : v < 65536) (h : setU16 m a v = .ok m') :
    u16At m' a = .ok v ∧ ∀ i : Int, i < a ∨ a + 2 ≤ i → m' i = m i := by
  have hs := setU16_eq_ok.mp h
  refine ⟨u16At_eq_ok.mpr ?_, fun i hi => Mem.store_frame hs (by omega)⟩
  rw [Mem.load_store_same hs]
  exact congrArg some (Nat.mod_eq_of_lt hv)

/-- A halfword only depends on its two bytes. -/
theorem u16At_congr {m m' : Mem} {a : Int} (h0 : m' a = m a) (h1 : m' (a + 1) = m (a + 1)) :
    u16At m' a = u16At m a := by
  unfold u16At
  rw [Mem.load_congr (fun k hk => by
    obtain rfl | rfl : k = 0 ∨ k = 1 := by omega
    · simpa using h0
    · simpa using h1)]

theorem csvEntry_zero (csv : CStr) : csvEntry csv 0 = some (atoi csv) := rfl

theorem csvEntry_succ {csv rest : CStr} (h : afterSep 44 csv = some rest) (j : Nat) :
    csvEntry csv (j + 1) = csvEntry rest j := by
  unfold csvEntry
  rw [field_succ, h]
  rfl

/-- What the entry loop from iteration `i` on, with text `p`, leaves in memory and says. -/
structure TilesWritten (out : Int) (n i : Nat) (p : Option CStr) (mem mem' : Mem) (done : Bool) : Prop where
  frame : ∀ a : Int, a < out + 4 + 2 * i ∨ out + 4 + 2 * (i + n : Nat) ≤ a → mem' a = mem a
  dom : ∀ a, (mem' a).isSome = (mem a).isSome
  cells : done = true → ∀ j < n, ∃ csv e, p = some csv ∧ csvEntry csv j = some e ∧
    u16At mem' (out + 4 + 2 * (i + j : Nat)) = .ok (entryTile e)
  short : done = false → ∃ csv, p = some csv ∧ ∃ j < n, csvEntry csv j = none

/-- One iteration, then the rest of the loop. -/
theorem tilesWritten_cons {out : Int} {n i : Nat} {csv rest : CStr} {mem mem₁ mem' : Mem} {done : Bool}
    (hset : setU16 mem (out + 4 + 2 * i) (entryTile (atoi csv)) = .ok mem₁)
    (hrest : afterSep 44 csv = some rest) (h : TilesWritten out n (i + 1) (some rest) mem₁ mem' done) :
    TilesWritten out (n + 1) i (some csv) mem mem' done := by
  obtain ⟨hread, hframe⟩ := setU16_reads (entryTile_lt _) hset
  refine ⟨fun a ha => ?_, fun a => ?_, fun hd j hj => ?_, fun hd => ?_⟩
  · rw [h.frame a (by push_cast at ha ⊢; omega), hframe a (by push_cast at ha; omega)]
  · rw [h.dom, Mem.store_dom (setU16_eq_ok.mp hset)]
  -- cell `i` is not touched by the rest of the loop; cell `i + j + 1` is its cell `j`
  · rcases j with _ | j
    · refine ⟨csv, atoi csv, rfl, csvEntry_zero csv, ?_⟩
      rw [← hread]
      exact u16At_congr (h.frame _ (by push_cast; omega)) (h.frame _ (by push_cast; omega))
    · obtain ⟨csv', e, hcsv, he, hcell⟩ := h.cells hd j (by omega)
      cases hcsv
      refine ⟨csv, e, rfl, (csvEntry_succ hrest j).trans he, ?_⟩
      rw [show i + (j + 1) = i + 1 + j by omega]
      exact hcell
  · obtain ⟨csv', hcsv, j, hj, hnone⟩ := h.short hd
    cases hcsv
    exact ⟨csv, rfl, j + 1, by omega, (csvEntry_succ hrest j).trans hnone⟩

/-- The last iteration, with no separator after it. -/
theorem tilesWritten_last {out : Int} {i : Nat} {csv : CStr} {mem mem₁ : Mem}
    (hset : setU16 mem (out + 4 + 2 * i) (entryTile (atoi csv)) = .ok mem₁) :
    TilesWritten out 1 i (some csv) mem mem₁ true := by
  obtain ⟨hread, hframe⟩ := setU16_reads (entryTile_lt _) hset
  refine ⟨fun a ha => hframe a (by push_cast at ha; omega), fun a => Mem.store_dom (setU16_eq_ok.mp hset) a,
    fun _ j hj => ?_, fun hd => by cases hd⟩
  obtain rfl : j = 0 := by omega
  exact ⟨csv, atoi csv, rfl, csvEntry_zero csv, hread⟩

/-- **What the entry loop does when it stops without a fault.** It writes from cell `i` on only; it has run to
    its end exactly when every entry is there, and then each cell holds the halfword of its entry. -/
theorem writeTiles_spec {count out : Int} {n i : Nat} {p : Option CStr} {mem mem' : Mem} {done : Bool}
    (hcount : (i : Int) + n = count) (h : writeTiles count out n i p mem = .ok (done, mem')) :
    TilesWritten out n i p mem mem' done := by
  -- on the iterations left; the text pointer and the memory move with them
  induction n generalizing i p mem with
  | zero =>
      cases h
      exact ⟨fun _ _ => rfl, fun _ => rfl, fun _ j hj => absurd hj (Nat.not_lt_zero j), fun hd => by cases hd⟩
  | succ n ih =>
      cases p with
      | none => cases h
      | some csv =>
          obtain ⟨mem₁, hset, h⟩ := bind_eq_ok.mp h
          cases hrest : afterSep 44 csv with
          | some rest =>
              rw [hrest] at h
              exact tilesWritten_cons hset hrest (ih (by push_cast at hcount ⊢; omega) h)
          | none =>
              rw [hrest] at h
              dsimp only at h
              by_cases hlast : (i : Int) ≠ count - 1
              · -- the text ends before the last entry
                rw [if_pos hlast] at h
                cases h
                obtain ⟨-, hframe⟩ := setU16_reads (entryTile_lt _) hset
                refine ⟨fun a ha => hframe a (by push_cast at ha; omega),
                  fun a => Mem.store_dom (setU16_eq_ok.mp hset) a, (fun hd => by cases hd), fun _ => ?_⟩
                refine ⟨csv, rfl, 1, by push_cast at hcount; omega, ?_⟩
                unfold csvEntry
                rw [field_succ, hrest]
                rfl
              · rw [if_neg hlast] at h
                obtain rfl : n = 0 := by push_cast at hcount; omega
                cases h
                exact tilesWritten_last hset

/-- A halfword can be stored where both its bytes are. -/
theorem setU16_total {m : Mem} {a : Int} (v : Nat) : (∃ m', setU16 m a v = .ok m') ↔ (m a).isSome ∧ (m (a + 1)).isSome := by
  simp only [setU16_eq_ok, Mem.store_isSome_iff]
  constructor
  · intro h
    exact ⟨by simpa using h 0 (by omega), h 1 (by omega)⟩
  · rintro ⟨h0, h1⟩ k hk
    obtain rfl | rfl : k = 0 ∨ k = 1 := by omega
    · simpa using h0
    · exact h1

/-- Both bytes of cell `j` of a map at `out` are in memory. -/
def CellInMem (mem : Mem) (out : Int) (j : Nat) : Prop :=
  (mem (out + 4 + 2 * j)).isSome ∧ (mem (out + 4 + 2 * j + 1)).isSome

/-- The first `n` entries of `csv` have their cells in memory, from cell `i` on. -/
def EntriesFit (mem : Mem) (out : Int) (i n : Nat) (csv : CStr) : Prop :=
  ∀ j < n, (csvEntry csv j).isSome → CellInMem mem out (i + j)

theorem EntriesFit.head {mem : Mem} {out : Int} {i n : Nat} {csv : CStr} (h : EntriesFit mem out i (n + 1) csv) :
    CellInMem mem out i := h 0 (Nat.succ_pos n) rfl

theorem entriesFit_cons {mem : Mem} {out : Int} {i n : Nat} {csv rest : CStr} (hrest : afterSep 44 csv = some rest) :
    EntriesFit mem out i (n + 1) csv ↔ CellInMem mem out i ∧ EntriesFit mem out (i + 1) n rest := by
  have hshift (j : Nat) : i + 1 + j = i + (j + 1) := by omega
  constructor
  · intro h
    refine ⟨h.head, fun j hj he => ?_⟩
    rw [hshift]
    exact h (j + 1) (by omega) (by rw [csvEntry_succ hrest]; exact he)
  · rintro ⟨hcell, h⟩ j hj he
    rcases j with _ | j
    · exact hcell
    · rw [csvEntry_succ hrest] at he
      rw [← hshift]
      exact h j (by omega) he

/-- The last entry of the text. -/
theorem entriesFit_last {mem : Mem} {out : Int} {i n : Nat} {csv : CStr} (hrest : afterSep 44 csv = none) :
    EntriesFit mem out i (n + 1) csv ↔ CellInMem mem out i := by
  refine ⟨fun h => h.head, fun hcell j hj he => ?_⟩
  rcases j with _ | j
  · exact hcell
  · rw [csvEntry, field_succ, hrest] at he
    cases he

theorem EntriesFit.congr {mem mem' : Mem} (hdom : ∀ a, (mem' a).isSome = (mem a).isSome) {out : Int} {i n : Nat}
    {csv : CStr} : EntriesFit mem' out i n csv ↔ EntriesFit mem out i n csv := by
  unfold EntriesFit CellInMem
  simp only [hdom]

/-- With a text at hand, it does not matter whether anything is to be read. -/
theorem entriesFit_text {mem : Mem} {out : Int} {i n : Nat} {csv : CStr} :
    (0 < n → ∃ csv', some csv = some csv' ∧ EntriesFit mem out i n csv') ↔ EntriesFit mem out i n csv := by
  refine ⟨fun h j hj => ?_, fun h _ => ⟨csv, rfl, h⟩⟩
  obtain ⟨csv', hcsv, h⟩ := h (by omega)
  cases hcsv
  exact h j hj

/-- **When the entry loop stops without a fault:** there is a text, unless there is nothing to read, and each
    entry that is there has its cell in memory. -/
theorem writeTiles_total {count out : Int} {n i : Nat} {p : Option CStr} {mem : Mem}
    (hcount : (i : Int) + n = count) :
    (∃ r, writeTiles count out n i p mem = .ok r) ↔ (0 < n → ∃ csv, p = some csv ∧ EntriesFit mem out i n csv) := by
  -- on the iterations left, as the loop runs
  induction n generalizing i p mem with
  | zero => exact iff_of_true ⟨_, rfl⟩ (fun hn => absurd hn (Nat.lt_irrefl 0))
  | succ n ih =>
      cases p with
      | none =>
          refine iff_of_false ?_ ?_
          · rintro ⟨r, hr⟩
            cases hr
          · intro hall
            obtain ⟨csv, hcsv, -⟩ := hall (Nat.succ_pos n)
            cases hcsv
      | some csv =>
          rw [entriesFit_text]
          -- either the first cell can be stored and the loop goes on, or both sides fail here
          by_cases hset : ∃ m₁, setU16 mem (out + 4 + 2 * i) (entryTile (atoi csv)) = .ok m₁
          · have hcell : CellInMem mem out i := (setU16_total _).mp hset
            obtain ⟨m₁, hm₁⟩ := hset
            have hgoon : writeTiles count out (n + 1) i (some csv) mem = match afterSep 44 csv with
                | some p => writeTiles count out n (i + 1) (some p) m₁
                | none   => if (i : Int) ≠ count - 1 then .ok (false, m₁)
                            else writeTiles count out n (i + 1) none m₁ := by
              rw [writeTiles]
              exact congrArg (· >>= _) hm₁
            rw [hgoon]
            cases hrest : afterSep 44 csv with
            | some rest =>
                dsimp only
                rw [entriesFit_cons hrest, and_iff_right hcell, ih (by push_cast at hcount ⊢; omega), entriesFit_text]
                exact EntriesFit.congr (Mem.store_dom (setU16_eq_ok.mp hm₁))
            | none =>
                dsimp only
                rw [entriesFit_last hrest]
                refine iff_of_true ?_ hcell
                by_cases hlast : (i : Int) ≠ count - 1
                · exact ⟨_, if_pos hlast⟩
                · obtain rfl : n = 0 := by push_cast at hcount; omega
                  exact ⟨_, if_neg hlast⟩
          · refine iff_of_false ?_ ?_
            · rintro ⟨r, hr⟩
              obtain ⟨m₁, hm₁, -⟩ := bind_eq_ok.mp hr
              exact hset ⟨m₁, hm₁⟩
            · intro hfit
              exact hset ((setU16_total _).mpr hfit.head)

/-! ## The map of a layer -/

/-- Width and height of a layer. -/
def layerSize (xml : LibXml) (layer : xml.Node) : Option (Int × Int) :=
  match xml.getProp layer (cstr "height"), xml.getProp layer (cstr "width") with
  | some mh, some mw => some (atoi mw, atoi mh)
  | _, _             => none

/-- The csv text of a layer. -/
def layerText (xml : LibXml) (doc : xml.Doc) (layer : xml.Node) : Option CStr :=
  (findNodeByName xml layer (cstr "data")).bind (fun data =>
    if xml.getProp data (cstr "encoding") = some (cstr "csv") then xml.nodeListGetString doc data else none)

/-- Entry `i` of a layer. -/
def layerEntry (xml : LibXml) (doc : xml.Doc) (layer : xml.Node) (i : Nat) : Option Int :=
  (layerText xml doc layer).bind (fun csv => csvEntry csv i)

/-- The number of entries that `write_map` takes from a layer of that size. -/
def layerCells (w h : Int) : Nat := (i32 (w * h)).toNat

variable {xml : LibXml} {doc : xml.Doc} {layer : xml.Node} {out : Int} {mem mem' : Mem}

/-- What filling the map in leaves in memory and says, `n` cells being there to fill. -/
structure DataWritten (xml : LibXml) (doc : xml.Doc) (layer : xml.Node) (out : Int) (n : Nat) (mem mem' : Mem)
    (done : Bool) : Prop where
  frame : ∀ a : Int, a < out + 4 ∨ out + 4 + 2 * n ≤ a → mem' a = mem a
  dom : ∀ a, (mem' a).isSome = (mem a).isSome
  cells : done = true → ∀ j < n, ∃ e, layerEntry xml doc layer j = some e ∧
    u16At mem' (out + 4 + 2 * (j : Int)) = .ok (entryTile e)
  short : done = false → 0 < n → ∃ j < n, layerEntry xml doc layer j = none

/-- A layer without csv text has no entries. -/
theorem dataWritten_none (hnone : layerText xml doc layer = none) (n : Nat) :
    DataWritten xml doc layer out n mem mem false := by
  refine ⟨fun _ _ => rfl, fun _ => rfl, (fun hd => by cases hd), fun _ hn => ⟨0, hn, ?_⟩⟩
  unfold layerEntry
  rw [hnone]
  rfl

theorem writeData_spec {count : Int} {done : Bool} (h : writeData xml doc layer count out mem = .ok (done, mem')) :
    DataWritten xml doc layer out count.toNat mem mem' done := by
  unfold writeData at h
  cases hdata : findNodeByName xml layer (cstr "data") with
  | none =>
      rw [hdata] at h
      cases h
      exact dataWritten_none (by rw [layerText, hdata]; rfl) _
  | some data =>
      rw [hdata] at h
      dsimp only at h
      by_cases henc : xml.getProp data (cstr "encoding") = some (cstr "csv")
      · rw [if_pos henc] at h
        have htext : layerText xml doc layer = xml.nodeListGetString doc data := by
          rw [layerText, hdata]
          exact if_pos henc
        -- a negative product of the sizes leaves no iterations
        rcases Nat.eq_zero_or_pos count.toNat with hn | hn
        · rw [hn] at h ⊢
          cases h
          exact ⟨fun _ _ => rfl, fun _ => rfl, fun _ j hj => absurd hj (Nat.not_lt_zero j),
            fun _ hn => absurd hn (Nat.lt_irrefl 0)⟩
        · obtain ⟨hframe, hdom, hcells, hshort⟩ := writeTiles_spec (by omega) h
          refine ⟨fun a ha => hframe a (by omega), hdom, fun hd j hj => ?_, fun hd _ => ?_⟩
          · obtain ⟨csv, e, hcsv, he, hcell⟩ := hcells hd j hj
            rw [Nat.zero_add] at hcell
            exact ⟨e, by rw [layerEntry, htext, hcsv]; exact he, hcell⟩
          · obtain ⟨csv, hcsv, j, hj, hnone⟩ := hshort hd
            exact ⟨j, hj, by rw [layerEntry, htext, hcsv]; exact hnone⟩
      · rw [if_neg henc] at h
        cases h
        exact dataWritten_none (by rw [layerText, hdata]; exact if_neg henc) _

/-- The layer has csv data, as far as `write_map` checks. -/
def CsvData (xml : LibXml) (layer : xml.Node) : Prop :=
  ∃ data, findNodeByName xml layer (cstr "data") = some data ∧ xml.getProp data (cstr "encoding") = some (cstr "csv")

/-- The first `n` cells can be filled in without a fault: there is a text to read them from, and memory for the
    entries that are there. -/
def Fillable (xml : LibXml) (doc : xml.Doc) (layer : xml.Node) (mem : Mem) (out : Int) (n : Nat) : Prop :=
  CsvData xml layer → 0 < n → ∃ csv, layerText xml doc layer = some csv ∧
    ∀ j < n, (csvEntry csv j).isSome → CellInMem mem out j

/-- Filling cells in depends on which memory is there only. -/
theorem Fillable.congr (hdom : ∀ a, (mem' a).isSome = (mem a).isSome) (n : Nat) :
    Fillable xml doc layer mem' out n ↔ Fillable xml doc layer mem out n := by
  unfold Fillable CellInMem
  simp only [hdom]

theorem writeData_total (count : Int) :
    (∃ r, writeData xml doc layer count out mem = .ok r) ↔ Fillable xml doc layer mem out count.toNat := by
  unfold writeData
  cases hdata : findNodeByName xml layer (cstr "data") with
  | none =>
      refine iff_of_true ⟨_, rfl⟩ (fun hcsv => ?_)
      obtain ⟨data, hd, -⟩ := hcsv
      rw [hdata] at hd
      cases hd
  | some data =>
      dsimp only
      by_cases henc : xml.getProp data (cstr "encoding") = some (cstr "csv")
      · have hcsv : CsvData xml layer := ⟨data, hdata, henc⟩
        have htext : layerText xml doc layer = xml.nodeListGetString doc data := by
          rw [layerText, hdata]
          exact if_pos henc
        rw [if_pos henc, Fillable, htext]
        rcases Nat.eq_zero_or_pos count.toNat with hn | hn
        · rw [hn]
          exact iff_of_true ⟨_, rfl⟩ (fun _ h0 => absurd h0 (Nat.lt_irrefl 0))
        · rw [writeTiles_total (by omega)]
          simp only [EntriesFit, Nat.zero_add, forall_true_left, hcsv, hn]
      · rw [if_neg henc]
        refine iff_of_true ⟨_, rfl⟩ (fun hcsv => ?_)
        obtain ⟨data', hd, he⟩ := hcsv
        rw [hdata] at hd
        cases hd
        exact absurd he henc

/-- The size that `write_map` returns is even, so it is never the error value. -/
theorem mapSize_ne (w h : Int) : i32 (4 + i32 (w * h) * 2) ≠ -1 := by
  generalize w * h = p
  unfold i32
  omega

/-- The header of a map at `out` is in memory. -/
def HeaderInMem (mem : Mem) (out : Int) : Prop := ∀ k < 4, (mem (out + (k : Nat))).isSome

/-- The header of a map can be written where it is in memory. -/
theorem header_total (w h : Nat) :
    (∃ m₁ m₂, setU16 mem out w = .ok m₁ ∧ setU16 m₁ (out + 2) h = .ok m₂) ↔ HeaderInMem mem out := by
  constructor
  · rintro ⟨m₁, m₂, h₁, h₂⟩ k hk
    have hd₁ := Mem.store_dom (setU16_eq_ok.mp h₁)
    obtain ⟨hlo, hhi⟩ := (setU16_total w).mp ⟨m₁, h₁⟩
    obtain ⟨hlo', hhi'⟩ := (setU16_total h).mp ⟨m₂, h₂⟩
    rw [hd₁] at hlo' hhi'
    obtain rfl | rfl | rfl | rfl : k = 0 ∨ k = 1 ∨ k = 2 ∨ k = 3 := by omega
    · simpa using hlo
    · exact hhi
    · exact hlo'
    · simpa [add_assoc] using hhi'
  · intro hheader
    obtain ⟨m₁, h₁⟩ := (setU16_total w).mpr ⟨by simpa using hheader 0 (by omega), hheader 1 (by omega)⟩
    have hd₁ := Mem.store_dom (setU16_eq_ok.mp h₁)
    obtain ⟨m₂, h₂⟩ := (setU16_total (m := m₁) (a := out + 2) h).mpr
      ⟨by rw [hd₁]; exact hheader 2 (by omega), by rw [hd₁, add_assoc]; exact hheader 3 (by omega)⟩
    exact ⟨m₁, m₂, h₁, h₂⟩

/-- A layer without a size is refused, with memory as it was. -/
theorem writeMap_of_none (hsize : layerSize xml layer = none) (out : Option Int) (mem : Mem) :
    writeMap xml doc layer out mem = .ok (-1, mem) := by
  unfold layerSize at hsize
  unfold writeMap
  cases hh : xml.getProp layer (cstr "height") with
  | none => rfl
  | some mh =>
  cases hw : xml.getProp layer (cstr "width") with
  | none => rfl
  | some mw => rw [hh, hw] at hsize; cases hsize

/-- The two passes over a layer of `w × h` entries: the size, and the header with the cells behind it. -/
theorem writeMap_of_size {w h : Int} (hsize : layerSize xml layer = some (w, h)) (mem : Mem) :
    writeMap xml doc layer none mem = .ok (i32 (4 + i32 (w * h) * 2), mem) ∧
    ∀ out, writeMap xml doc layer (some out) mem =
      (setU16 mem out (u16 w) >>= fun m₁ => setU16 m₁ (out + 2) (u16 h) >>= fun m₂ =>
        writeData xml doc layer (i32 (w * h)) out m₂ >>= fun r =>
          .ok (if r.1 then i32 (4 + i32 (w * h) * 2) else -1, r.2)) := by
  unfold layerSize at hsize
  unfold writeMap
  cases hh : xml.getProp layer (cstr "height") with
  | none => rw [hh] at hsize; cases hsize
  | some mh =>
  cases hw : xml.getProp layer (cstr "width") with
  | none => rw [hh, hw] at hsize; cases hsize
  | some mw =>
      rw [hh, hw] at hsize
      cases hsize
      exact ⟨rfl, fun out => rfl⟩

/-- The size pass of `write_map` looks at the attributes only. -/
theorem writeMap_size {ret : Int} (hw : writeMap xml doc layer none mem = .ok (ret, mem')) :
    (layerSize xml layer = none ∧ ret = -1) ∨
      ∃ w h, layerSize xml layer = some (w, h) ∧ ret = i32 (4 + i32 (w * h) * 2) := by
  cases hsize : layerSize xml layer with
  | none =>
      rw [writeMap_of_none hsize] at hw
      cases hw
      exact .inl ⟨rfl, rfl⟩
  | some size =>
      rw [(writeMap_of_size hsize mem).1] at hw
      cases hw
      exact .inr ⟨size.1, size.2, rfl, rfl⟩

/-- **When `write_map` stops without a fault**, for a layer with a size: the header is in memory, and the cells
    can be filled in. -/
theorem writeMap_total {w h : Int} (hsize : layerSize xml layer = some (w, h)) :
    (∃ r, writeMap xml doc layer (some out) mem = .ok r) ↔
      HeaderInMem mem out ∧ Fillable xml doc layer mem out (layerCells w h) := by
  rw [(writeMap_of_size hsize mem).2, ← header_total (u16 w) (u16 h), layerCells]
  have hdom {m₁ m₂ : Mem} (h₁ : setU16 mem out (u16 w) = .ok m₁) (h₂ : setU16 m₁ (out + 2) (u16 h) = .ok m₂)
      (a : Int) : (m₂ a).isSome = (mem a).isSome := by
    rw [Mem.store_dom (setU16_eq_ok.mp h₂), Mem.store_dom (setU16_eq_ok.mp h₁)]
  constructor
  · rintro ⟨r, hr⟩
    obtain ⟨m₁, h₁, hr⟩ := bind_eq_ok.mp hr
    obtain ⟨m₂, h₂, hr⟩ := bind_eq_ok.mp hr
    obtain ⟨r', hr', -⟩ := bind_eq_ok.mp hr
    exact ⟨⟨m₁, m₂, h₁, h₂⟩, (Fillable.congr (hdom h₁ h₂) _).mp ((writeData_total _).mp ⟨r', hr'⟩)⟩
  · rintro ⟨⟨m₁, m₂, h₁, h₂⟩, hfill⟩
    obtain ⟨r', hr'⟩ := (writeData_total _).mpr ((Fillable.congr (hdom h₁ h₂) _).mpr hfill)
    rw [h₁, ok_bind, h₂, ok_bind, hr']
    exact ⟨_, rfl⟩

/-- What `write_map` leaves in memory and returns for a layer of `w × h` entries. -/
structure MapWritten (xml : LibXml) (doc : xml.Doc) (layer : xml.Node) (out : Int) (mem mem' : Mem) (ret : Int)
    (w h : Int) : Prop where
  size : layerSize xml layer = some (w, h)
  width : u16At mem' out = .ok (u16 w)
  height : u16At mem' (out + 2) = .ok (u16 h)
  dom : ∀ a, (mem' a).isSome = (mem a).isSome
  ret_eq : ret = i32 (4 + i32 (w * h) * 2) ∨ ret = -1
  cells : ret ≠ -1 → ∀ j < layerCells w h, ∃ e, layerEntry xml doc layer j = some e ∧
    u16At mem' (out + 4 + 2 * (j : Int)) = .ok (entryTile e)
  short : ret = -1 → 0 < layerCells w h → ∃ j < layerCells w h, layerEntry xml doc layer j = none

/-- The steps of the second pass when it stops without a fault. -/
theorem writeMap_steps {w h ret : Int} (hsize : layerSize xml layer = some (w, h))
    (hrun : writeMap xml doc layer (some out) mem = .ok (ret, mem')) :
    ∃ m₁ m₂ done, setU16 mem out (u16 w) = .ok m₁ ∧ setU16 m₁ (out + 2) (u16 h) = .ok m₂ ∧
      writeData xml doc layer (i32 (w * h)) out m₂ = .ok (done, mem') ∧
      ret = if done then i32 (4 + i32 (w * h) * 2) else -1 := by
  rw [(writeMap_of_size hsize mem).2] at hrun
  obtain ⟨m₁, h₁, hrun⟩ := bind_eq_ok.mp hrun
  obtain ⟨m₂, h₂, hrun⟩ := bind_eq_ok.mp hrun
  obtain ⟨⟨done, m₃⟩, h₃, hrun⟩ := bind_eq_ok.mp hrun
  obtain ⟨hret, rfl⟩ := Prod.mk.inj (Except.ok.inj hrun)
  exact ⟨m₁, m₂, done, h₁, h₂, h₃, hret.symm⟩

/-- What `write_map` does for a layer of `w × h` entries when it stops without a fault. -/
theorem writeMap_written {w h ret : Int} (hsize : layerSize xml layer = some (w, h))
    (hrun : writeMap xml doc layer (some out) mem = .ok (ret, mem')) :
    MapWritten xml doc layer out mem mem' ret w h := by
  obtain ⟨m₁, m₂, done, h₁, h₂, h₃, rfl⟩ := writeMap_steps hsize hrun
  obtain ⟨hr₁, hf₁⟩ := setU16_reads (u16_lt _) h₁
  obtain ⟨hr₂, hf₂⟩ := setU16_reads (u16_lt _) h₂
  obtain ⟨hframe, hdom, hcells, hshort⟩ := writeData_spec h₃
  -- the error value cannot be mistaken for a size
  have hne := mapSize_ne w h
  refine ⟨hsize, ?_, ?_, ?_, ?_, ?_, ?_⟩
  · rw [← hr₁]
    refine u16At_congr ?_ ?_
    · rw [hframe _ (by omega), hf₂ _ (by omega)]
    · rw [hframe _ (by omega), hf₂ _ (by omega)]
  · rw [← hr₂]
    exact u16At_congr (hframe _ (by omega)) (hframe _ (by omega))
  · intro a
    rw [hdom, Mem.store_dom (setU16_eq_ok.mp h₂), Mem.store_dom (setU16_eq_ok.mp h₁)]
  · cases done with
    | true => exact .inl rfl
    | false => exact .inr rfl
  · intro hret
    cases done with
    | true => exact hcells rfl
    | false => exact absurd rfl hret
  · intro hret hp
    cases done with
    | true => exact absurd hret hne
    | false => exact hshort rfl hp

/-- **What `write_map` does when it stops without a fault.** A layer without a size is refused untouched;
    otherwise the header is written, and the result is the size exactly when every entry is there, each then
    stored in its cell. -/
theorem writeMap_spec {ret : Int} (h : writeMap xml doc layer (some out) mem = .ok (ret, mem')) :
    (layerSize xml layer = none ∧ ret = -1 ∧ mem' = mem) ∨
      ∃ w h, MapWritten xml doc layer out mem mem' ret w h := by
  cases hsize : layerSize xml layer with
  | none =>
      rw [writeMap_of_none hsize] at h
      cases h
      exact .inl ⟨rfl, rfl, rfl⟩
  | some size => exact .inr ⟨size.1, size.2, writeMap_written hsize h⟩

/-- A layer's map is written to memory that is there. -/
theorem writeMap_dom {out : Option Int} {ret : Int} (h : writeMap xml doc layer out mem = .ok (ret, mem')) (a : Int) :
    (mem' a).isSome = (mem a).isSome := by
  cases out with
  | some out =>
      rcases writeMap_spec h with ⟨-, -, heq⟩ | ⟨w, h, hw⟩
      · rw [heq]
      · exact hw.dom a
  | none =>
      cases hsize : layerSize xml layer with
      | none =>
          rw [writeMap_of_none hsize] at h
          cases h
          rfl
      | some size =>
          rw [(writeMap_of_size hsize mem).1] at h
          cases h
          rfl

/-- Where `tile_loader_gen_map` ends. -/
theorem genMap_cases {name layername : CStr} {out : Option Int} {ret : Int}
    (hgen : tileLoaderGenMap xml name layername out mem = .ok (ret, mem')) :
    (xml.readFile name = none ∧ ret = 0 ∧ mem' = mem) ∨ (ret = -1 ∧ mem' = mem) ∨
      ∃ doc root node, xml.readFile name = some doc ∧ xml.docGetRootElement doc = some root ∧
        findLayer xml layername (xml.children root) = .ok (some node) ∧
        writeMap xml doc node out mem = .ok (ret, mem') := by
  unfold tileLoaderGenMap at hgen
  cases hdoc : xml.readFile name with
  | none =>
      rw [hdoc] at hgen
      cases hgen
      exact .inl ⟨rfl, rfl, rfl⟩
  | some doc =>
      rw [hdoc] at hgen
      dsimp only at hgen
      cases hroot : xml.docGetRootElement doc with
      | none => rw [hroot] at hgen; cases hgen
      | some root =>
          rw [hroot] at hgen
          obtain ⟨found, hfind, hgen⟩ := bind_eq_ok.mp hgen
          cases found with
          | none =>
              cases hgen
              exact .inr (.inl ⟨rfl, rfl⟩)
          | some node => exact .inr (.inr ⟨doc, root, node, rfl, hroot, hfind, hgen⟩)

theorem genMap_dom {name layername : CStr} {out : Option Int} {ret : Int}
    (hgen : tileLoaderGenMap xml name layername out mem = .ok (ret, mem')) (a : Int) :
    (mem' a).isSome = (mem a).isSome := by
  rcases genMap_cases hgen with ⟨-, -, heq⟩ | ⟨-, heq⟩ | ⟨doc, root, node, -, -, -, hwrite⟩
  · rw [heq]
  · rw [heq]
  · exact writeMap_dom hwrite a

/-- The loader comes to `layer` and hands it to `write_map`. -/
def TakesLayer (xml : LibXml) (name layername : CStr) (doc : xml.Doc) (layer : xml.Node) : Prop :=
  ∃ root, xml.readFile name = some doc ∧ xml.docGetRootElement doc = some root ∧
    findLayer xml layername (xml.children root) = .ok (some layer)

theorem TakesLayer.unique {name layername : CStr} {doc doc' : xml.Doc} {layer layer' : xml.Node}
    (ht : TakesLayer xml name layername doc layer) (ht' : TakesLayer xml name layername doc' layer') :
    doc' = doc ∧ layer' = layer := by
  obtain ⟨root, hdoc, hroot, hfind⟩ := ht
  obtain ⟨root', hdoc', hroot', hfind'⟩ := ht'
  obtain rfl : doc' = doc := Option.some.inj (hdoc'.symm.trans hdoc)
  obtain rfl : root' = root := Option.some.inj (hroot'.symm.trans hroot)
  exact ⟨rfl, Option.some.inj (Except.ok.inj (hfind'.symm.trans hfind))⟩

theorem TakesLayer.genMap {name layername : CStr} {doc : xml.Doc} {layer : xml.Node}
    (ht : TakesLayer xml name layername doc layer) (out : Option Int) (mem : Mem) :
    tileLoaderGenMap xml name layername out mem = writeMap xml doc layer out mem := by
  obtain ⟨root, hdoc, hroot, hfind⟩ := ht
  unfold tileLoaderGenMap
  rw [hdoc]
  dsimp only
  rw [hroot]
  dsimp only
  rw [hfind, ok_bind]

end HadBadge
