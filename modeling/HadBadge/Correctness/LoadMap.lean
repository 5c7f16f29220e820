import HadBadge.Sdk.Loader

/-!
# `Correctness.LoadMap`: what a map that `load_tilemap` returns holds

The loader makes two passes over the file: one for the size, one that fills the block in. The first checks less
than the second, and the result of the second is dropped. This module says for which files and layers a pointer
that is not `NULL` still means a complete map.

## Contents
- **Setup.** `Requested` (the layer the caller asked for), `MapComplete` (the block holds all of it),
  `LoadsComplete` (the property), `LoadsSafely` (the condition).
- **The layer asked for.** `Requested.takes` and `Requested.unique`.
- **Main result.** `loadTilemap_complete_iff`.
-/

namespace HadBadge

open Lib

/-! ## Setup -/

/-- The layer of that name in that file, and its size. -/
structure Requested (xml : LibXml) (name layername : CStr) (doc : xml.Doc) (node : xml.Node) (w h : Int) :
    Prop where
  file : xml.readFile name = some doc
  layer : ∃ root, xml.docGetRootElement doc = some root ∧
    findLayer xml layername (xml.children root) = .ok (some node)
  size : layerSize xml node = some (w, h)

/-- The tile number that an entry stands for; `0xffff` where the cell is not filled in. -/
def tileNumber (entry : Int) : Int := if entry = 0 then 0xffff else entry - 1

/-- The block at `ptr` holds the header and all tile numbers of a layer of `w × h` entries. -/
structure MapComplete (xml : LibXml) (doc : xml.Doc) (layer : xml.Node) (w h : Int) (mem : Mem) (ptr : Int) :
    Prop where
  width : ∃ v : Nat, u16At mem ptr = .ok v ∧ (v : Int) = w
  height : ∃ v : Nat, u16At mem (ptr + 2) = .ok v ∧ (v : Int) = h
  tiles : ∀ i : Nat, (i : Int) < w * h → ∃ e, ∃ v : Nat, layerEntry xml doc layer i = some e ∧
    u16At mem (ptr + 4 + 2 * (i : Int)) = .ok v ∧ (v : Int) = tileNumber e

/-- If `load_tilemap` returns a pointer that is not `NULL`, the map there is complete. -/
def LoadsComplete (host : Host) (malloc : Malloc) (p : PeriCheat) (mem : Mem) (filename layer : UInt32)
    (name layername : CStr) : Prop :=
  ∀ res, loadTilemap host malloc p mem filename layer = .ok res → res.ret ≠ 0 →
    ∃ doc node w h, Requested host.xml name layername doc node w h ∧
      MapComplete host.xml doc node w h res.mem res.ret.toNat

/-- The size that the guest allocates for a layer. -/
def mapBytes (w h : Int) : UInt32 := UInt32.ofNat (u32 (i32 (4 + i32 (w * h) * 2)))

/-- A map can hold the layer, and all its entries are there. -/
structure LayerWhole (xml : LibXml) (doc : xml.Doc) (layer : xml.Node) (w h : Int) : Prop where
  width : 0 ≤ w ∧ w ≤ 65535
  height : 0 ≤ h ∧ h ≤ 65535
  cells : w * h < 2147483648
  entries : ∀ i : Nat, (i : Int) < w * h → ∃ e, layerEntry xml doc layer i = some e ∧ 0 ≤ e ∧ e ≤ 65536

/-- The condition: no memory is granted for a file that cannot be read; and a layer whose size is granted
    memory is whole, unless the emulator itself crashes on filling the block in. -/
structure LoadsSafely (xml : LibXml) (malloc : Malloc) (mem : Mem) (name layername : CStr) : Prop where
  unreadable : xml.readFile name = none → (malloc mem 0).1 = 0
  whole : ∀ doc node w h, Requested xml name layername doc node w h → (malloc mem (mapBytes w h)).1 ≠ 0 →
    HeaderInMem mem (malloc mem (mapBytes w h)).1.toNat →
    Fillable xml doc node mem (malloc mem (mapBytes w h)).1.toNat (layerCells w h) → LayerWhole xml doc node w h

variable {xml : LibXml} {name layername : CStr} {doc : xml.Doc} {node : xml.Node} {w h : Int} {mem mem' : Mem}

/-- A halfword holds the tile number of exactly the entries `0 … 65536`. -/
theorem entryTile_eq_iff (e : Int) : (entryTile e : Int) = tileNumber e ↔ 0 ≤ e ∧ e ≤ 65536 := by
  have hlt := entryTile_lt e
  unfold tileNumber
  -- entry 0 is `0xffff` for both; entry `65536` is tile 65535, which is the same halfword
  by_cases he : e = 0
  · subst he
    rw [entryTile_zero]
    decide
  · rw [if_neg he]
    constructor
    · intro heq
      omega
    · rintro ⟨h0, h1⟩
      have htile : i32 (e - 1) = e - 1 := i32_of_range (by omega) (by omega)
      unfold entryTile storedTile
      rw [htile, if_neg (by omega), u16]
      omega

/-! ## The two passes -/

/-- The layer the caller asked for is the one that `tile_loader_gen_map` hands to `write_map`. -/
theorem Requested.takes (hreq : Requested xml name layername doc node w h) :
    TakesLayer xml name layername doc node := by
  obtain ⟨root, hroot, hfind⟩ := hreq.layer
  exact ⟨root, hreq.file, hroot, hfind⟩

/-- There is one layer that a caller asks for. -/
theorem Requested.unique {doc' : xml.Doc} {node' : xml.Node} {w' h' : Int}
    (hreq : Requested xml name layername doc node w h) (hreq' : Requested xml name layername doc' node' w' h') :
    doc' = doc ∧ node' = node ∧ w' = w ∧ h' = h := by
  obtain ⟨rfl, rfl⟩ := hreq.takes.unique hreq'.takes
  obtain ⟨rfl, rfl⟩ := Prod.mk.inj (Option.some.inj (hreq'.size.symm.trans hreq.size))
  exact ⟨rfl, rfl, rfl, rfl⟩

/-! ## Complete maps -/

/-- The number of entries that are read, for a layer that a map can hold. -/
theorem layerCells_of_range (h0 : 0 ≤ w * h) (h1 : w * h < 2147483648) : (layerCells w h : Int) = w * h := by
  unfold layerCells
  rw [i32_of_range (by omega) h1]
  omega

/-- Filling a block in with a whole layer completes the map. -/
theorem LayerWhole.complete {ptr ret : Int} (hwhole : LayerWhole xml doc node w h)
    (hw : MapWritten xml doc node ptr mem mem' ret w h) : MapComplete xml doc node w h mem' ptr := by
  have hpos : 0 ≤ w * h := mul_nonneg hwhole.width.1 hwhole.height.1
  have hcells := layerCells_of_range hpos hwhole.cells
  refine ⟨⟨u16 w, hw.width, ?_⟩, ⟨u16 h, hw.height, ?_⟩, ?_⟩
  · have := hwhole.width
    unfold u16
    omega
  · have := hwhole.height
    unfold u16
    omega
  · intro i hi
    -- the result is the error value only when an entry is missing
    have hret : ret ≠ -1 := by
      intro hret
      obtain ⟨j, hj, hnone⟩ := hw.short hret (by omega)
      obtain ⟨e, he, -⟩ := hwhole.entries j (by omega)
      rw [hnone] at he
      cases he
    obtain ⟨e, he, hcell⟩ := hw.cells hret i (by omega)
    obtain ⟨e', he', hrange⟩ := hwhole.entries i hi
    obtain rfl : e' = e := Option.some.inj (he'.symm.trans he)
    exact ⟨e', entryTile e', he, hcell, (entryTile_eq_iff e').mpr hrange⟩

/-- A halfword that can be read lies in RAM. -/
theorem u16At_in_ram {r : Ram} {m : Mem} (hdom : ∀ a, (m a).isSome = (r.mem a).isSome) {i : Int} {v : Nat}
    (hread : u16At m i = .ok v) : 0 ≤ i ∧ i < machRamSize := by
  have hb := Mem.load_isSome_iff.mp ⟨v, u16At_eq_ok.mp hread⟩ 0 (by omega)
  rw [hdom, r.dom] at hb
  simpa using hb

/-- A block that `write_map` has filled in is a complete map for whole layers only. -/
theorem MapComplete.whole {r : Ram} {ptr ret : Int} (hptr : 0 ≤ ptr)
    (hc : MapComplete xml doc node w h mem' ptr) (hw : MapWritten xml doc node ptr mem mem' ret w h)
    (hdom : ∀ a, (mem' a).isSome = (r.mem a).isSome) : LayerWhole xml doc node w h := by
  have hwidth : 0 ≤ w ∧ w ≤ 65535 := by
    obtain ⟨v, hv, hvw⟩ := hc.width
    have := u16At_lt hv
    omega
  have hheight : 0 ≤ h ∧ h ≤ 65535 := by
    obtain ⟨v, hv, hvh⟩ := hc.height
    have := u16At_lt hv
    omega
  have hcells : w * h < 2147483648 := by
    by_contra hbig
    -- RAM has no room for a cell with that index
    obtain ⟨e, v, -, hv, -⟩ := hc.tiles 8388608 (by push_cast; omega)
    have := (u16At_in_ram hdom hv).2
    simp only [machRamSize] at this
    push_cast at this
    omega
  have hlen := layerCells_of_range (mul_nonneg hwidth.1 hheight.1) hcells
  refine ⟨hwidth, hheight, hcells, ?_⟩
  intro i hi
  obtain ⟨e, v, he, hv, hve⟩ := hc.tiles i hi
  -- a missing entry would be a cell without a tile number
  have hret : ret ≠ -1 := by
    intro hret
    obtain ⟨j, hj, hnone⟩ := hw.short hret (by omega)
    obtain ⟨e', v', he', -⟩ := hc.tiles j (by omega)
    rw [hnone] at he'
    cases he'
  obtain ⟨e', he', hcell⟩ := hw.cells hret i (by omega)
  obtain rfl : e' = e := Option.some.inj (he'.symm.trans he)
  have hstored : v = entryTile e' := Except.ok.inj (hv.symm.trans hcell)
  subst hstored
  exact ⟨e', he, (entryTile_eq_iff e').mp hve⟩

/-! ## `load_tilemap` -/

variable {host : Host} {malloc : Malloc} {p : PeriCheat} {r : Ram} {filename layer : UInt32}

/-- The second pass writes the layer that was asked for, in a block of its size. -/
theorem loadTilemap_written (hm : malloc.Serves r.mem filename layer) (hname : strAt r.mem filename.toNat = .ok name)
    (hlayer : strAt r.mem layer.toNat = .ok layername) {res : Loaded}
    (hres : loadTilemap host malloc p r.mem filename layer = .ok res) (hret : res.ret ≠ 0) :
    (host.xml.readFile name = none ∧ res.ret = (malloc r.mem 0).1) ∨
      ∃ doc node w h ret, Requested host.xml name layername doc node w h ∧
        res.ret = (malloc r.mem (mapBytes w h)).1 ∧
        writeMap host.xml doc node (some res.ret.toNat) (malloc r.mem (mapBytes w h)).2 = .ok (ret, res.mem) := by
  rw [loadTilemap_eq hm hname hlayer] at hres
  obtain ⟨⟨size, m₀⟩, hsize, hres⟩ := bind_eq_ok.mp hres
  dsimp only at hres
  by_cases hnull : (malloc r.mem (UInt32.ofNat (u32 size))).1 = 0
  · rw [if_pos hnull] at hres
    cases hres
    exact absurd rfl hret
  rw [if_neg hnull] at hres
  obtain ⟨⟨ret, m₁⟩, hread, hres⟩ := bind_eq_ok.mp hres
  cases hres
  have hsize' := genMap_cases hsize
  rcases hsize' with ⟨hnone, hzero, -⟩ | ⟨herr, -⟩ | ⟨doc, root, node, hdoc, hroot, hfind, hwrite⟩
  · subst hzero
    exact .inl ⟨hnone, rfl⟩
  · -- the error value asks for 4 GiB
    subst herr
    exact absurd hm.refuses hnull
  · rcases writeMap_size hwrite with ⟨-, herr⟩ | ⟨w, h, hsz, heq⟩
    · subst herr
      exact absurd hm.refuses hnull
    · subst heq
      have hreq : Requested host.xml name layername doc node w h := ⟨hdoc, ⟨root, hroot, hfind⟩, hsz⟩
      rw [hreq.takes.genMap] at hread
      exact .inr ⟨doc, node, w, h, ret, hreq, rfl, hread⟩

/-- Where the caller's layer is granted memory and the second pass does not crash, `load_tilemap` returns the
    block. -/
theorem loadTilemap_returns (hm : malloc.Serves r.mem filename layer) (hname : strAt r.mem filename.toNat = .ok name)
    (hlayer : strAt r.mem layer.toNat = .ok layername) {doc : host.xml.Doc} {node : host.xml.Node}
    (hreq : Requested host.xml name layername doc node w h) (hgrant : (malloc r.mem (mapBytes w h)).1 ≠ 0)
    {ret : Int} {m₁ : Mem} (hwrite : writeMap host.xml doc node (some (malloc r.mem (mapBytes w h)).1.toNat)
      (malloc r.mem (mapBytes w h)).2 = .ok (ret, m₁)) :
    loadTilemap host malloc p r.mem filename layer =
      .ok ⟨(malloc r.mem (mapBytes w h)).1, ⟨filename, layer⟩, m₁⟩ := by
  rw [loadTilemap_eq hm hname hlayer, hreq.takes.genMap, (writeMap_of_size hreq.size r.mem).1, ok_bind]
  dsimp only
  rw [← mapBytes, if_neg hgrant, hreq.takes.genMap, hwrite]
  rfl

/-- **When a pointer that is not `NULL` means a complete map.** For every file system and XML library, every
    device state and every pair of names: `load_tilemap` returns a complete map or `NULL` (or does not return),
    if and only if no memory is granted for an unreadable file, and the layer asked for, where its size is
    granted memory and the emulator does not crash on filling it in, has a width and a height of 16 bits, fewer
    than `2 ^ 31` cells and an entry of `0 … 65536` for each. -/
theorem loadTilemap_complete_iff (hm : malloc.Serves r.mem filename layer)
    (hname : strAt r.mem filename.toNat = .ok name) (hlayer : strAt r.mem layer.toNat = .ok layername) :
    LoadsComplete host malloc p r.mem filename layer name layername ↔
      LoadsSafely host.xml malloc r.mem name layername := by
  constructor
  · intro hc
    refine ⟨?_, ?_⟩
    -- both passes return 0 on an unreadable file: the guest gets an empty block
    · intro hnone
      by_contra hgrant
      have hgen (out : Option Int) (m : Mem) : tileLoaderGenMap host.xml name layername out m = .ok (0, m) := by
        rw [tileLoaderGenMap, hnone]
      have hload : loadTilemap host malloc p r.mem filename layer =
          .ok ⟨(malloc r.mem 0).1, ⟨filename, layer⟩, (malloc r.mem 0).2⟩ := by
        rw [loadTilemap_eq hm hname hlayer, hgen, ok_bind]
        dsimp only
        rw [show UInt32.ofNat (u32 0) = 0 from rfl, if_neg hgrant, hgen]
        rfl
      obtain ⟨doc, node, w, h, hreq, -⟩ := hc _ hload hgrant
      rw [hreq.file] at hnone
      cases hnone
    · intro doc node w h hreq hgrant hheader hfill
      have hdom := hm.dom (mapBytes w h)
      obtain ⟨⟨ret, m₁⟩, hwrite⟩ := (writeMap_total hreq.size).mpr
        ⟨fun k hk => by rw [hdom]; exact hheader k hk, (Fillable.congr hdom _).mpr hfill⟩
      obtain ⟨doc', node', w', h', hreq', hmap⟩ :=
        hc _ (loadTilemap_returns hm hname hlayer hreq hgrant hwrite) hgrant
      obtain ⟨rfl, rfl, rfl, rfl⟩ := hreq.unique hreq'
      have hw := writeMap_written hreq.size hwrite
      exact hmap.whole (Int.natCast_nonneg _) hw (fun a => by rw [hw.dom, hdom])
  · intro hsafe res hres hret
    rcases loadTilemap_written hm hname hlayer hres hret with
      ⟨hnone, heq⟩ | ⟨doc, node, w, h, ret, hreq, heq, hwrite⟩
    · exact absurd (heq.trans (hsafe.unreadable hnone)) hret
    · have hdom := hm.dom (mapBytes w h)
      rw [heq] at hret hwrite ⊢
      obtain ⟨hheader, hfill⟩ := (writeMap_total hreq.size).mp ⟨_, hwrite⟩
      have hwhole := hsafe.whole doc node w h hreq hret (fun k hk => by rw [← hdom]; exact hheader k hk)
        ((Fillable.congr hdom _).mp hfill)
      exact ⟨doc, node, w, h, hreq, hwhole.complete (writeMap_written hreq.size hwrite)⟩

/-! ## Two files -/

/-- RAM with the string `"a"` at 8192 and the empty string at 8194. -/
def nameRam : Ram where
  mem := (Ram.fill 0).mem.set 8192 97
  dom := by
    intro i
    rw [Mem.set_apply, ← (Ram.fill 0).dom i]
    by_cases hi : i = 8192
    · subst hi
      exact iff_of_true rfl ((Ram.fill 0).isSome_of_range (by decide) (by decide))
    · rw [if_neg hi]

theorem nameRam_at : nameRam.mem 8192 = some 97 := rfl

theorem nameRam_zero {i : Int} (h0 : 8192 < i) (h1 : i < 8388608) : nameRam.mem i = some 0 :=
  (if_neg (by omega)).trans (if_pos ⟨by omega, by simpa [machRamSize] using h1⟩)

theorem nameRam_name : strAt nameRam.mem (8192 : UInt32).toNat = .ok (cstr "a") := by
  have hnonzero : ∀ b ∈ [(97 : UInt8)], b ≠ 0 := List.forall_mem_singleton.mpr (by decide)
  refine strAt_eq (by decide) hnonzero (fun k hk => ?_) (nameRam_zero (by decide) (by decide))
  obtain rfl : k = 0 := by simpa [cstr] using hk
  exact nameRam_at

theorem nameRam_layer : strAt nameRam.mem (8194 : UInt32).toNat = .ok [] :=
  strAt_eq (Nat.zero_le _) (fun _ hb => absurd hb List.not_mem_nil) (fun k hk => absurd hk (Nat.not_lt_zero k))
    (nameRam_zero (by decide) (by decide))

/-- A heap of a MiB at 3 MiB, still unused; a request for 0 bytes is granted too. -/
def freshMalloc : Malloc := fun mem n => (if n ≤ 0x100000 then 0x300000 else 0, mem)

theorem freshMalloc_serves : freshMalloc.Serves nameRam.mem 8192 8194 :=
  ⟨by decide, fun _ _ => rfl, fun _ => rfl, fun _ => rfl⟩

/-- One layer of one cell that shows the first tile. -/
def levelFile : XmlNode :=
  .elem (cstr "map") [] [.elem (cstr "layer") [(cstr "name", cstr "bg"), (cstr "width", cstr "1"), (cstr "height", cstr "1")]
    [.elem (cstr "data") [(cstr "encoding", cstr "csv")] [] (some (cstr "1"))] none] none

theorem loadTilemap_complete_iff_level :
    LoadsComplete (tmxHost (fun _ => some levelFile)) freshMalloc ⟨0, 0⟩ nameRam.mem 8192 8194 (cstr "a") [] ↔
      LoadsSafely (tmxHost (fun _ => some levelFile)).xml freshMalloc nameRam.mem (cstr "a") [] :=
  loadTilemap_complete_iff freshMalloc_serves nameRam_name nameRam_layer

/-- The size of a file that is not there is 0: the guest gets an empty block and takes it for a map. -/
theorem missing_file_loaded :
    ¬ ∀ (host : Host) (malloc : Malloc) (p : PeriCheat) (r : Ram) (filename layer : UInt32) (name layername : CStr),
      malloc.Serves r.mem filename layer → strAt r.mem filename.toNat = .ok name →
      strAt r.mem layer.toNat = .ok layername →
      LoadsComplete host malloc p r.mem filename layer name layername := by
  intro hall
  have hload : loadTilemap (tmxHost (fun _ => none)) freshMalloc ⟨0, 0⟩ nameRam.mem 8192 8194 =
      .ok ⟨0x300000, ⟨8192, 8194⟩, nameRam.mem⟩ := by
    rw [loadTilemap_eq freshMalloc_serves nameRam_name nameRam_layer]
    rfl
  obtain ⟨doc, node, w, h, hreq, -⟩ := hall _ _ _ _ _ _ _ _ freshMalloc_serves nameRam_name nameRam_layer
    _ hload (by decide)
  have hfile := hreq.file
  cases hfile

end HadBadge
