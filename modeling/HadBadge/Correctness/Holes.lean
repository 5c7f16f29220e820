import HadBadge.Emu.MapLoader
import HadBadge.Emu.Tiles

/-!
# `Correctness.Holes`: what a line of a loaded map shows where the layer is not filled in

`write_map` stores `0xffff` for an entry 0, and `gfx_render_bgnd_scanline` takes that for a tile number like
any other. This module says for which lines the two still fit together.

## Contents
- **Setup.** `LayerLoaded` (a layer that `write_map` has loaded), `HolesKept` (the renderer reads inside the
  tileset and leaves unfilled cells alone), `PixelFilled` (a pixel falls on a cell that is filled in).
- **Main result.** `holesKept_iff`.
-/

namespace HadBadge

open Lib

/-! ## Setup -/

/-- `write_map` has loaded a layer of `w × h` entries at `tm`, each entry being 0 or one of `T` tiles. -/
structure LayerLoaded (xml : LibXml) (doc : xml.Doc) (layer : xml.Node) (tm T : Nat) (m₀ m₁ : Mem)
    (ret w h : Int) : Prop where
  loads : writeMap xml doc layer (some tm) m₀ = .ok (ret, m₁)
  success : ret ≠ -1
  size : layerSize xml layer = some (w, h)
  entries : ∀ j < layerCells w h, ∀ e, layerEntry xml doc layer j = some e → 0 ≤ e ∧ e ≤ T

/-- The cell of the map that pixel `x` of line `ypos` falls on. -/
def PeriGfxBgnd.shownCell (b : PeriGfxBgnd) (ypos : Int) (x : Nat) : Nat :=
  b.cellAt (torusX b x) (torusY b ypos)

/-- The line is drawn, all tile data comes from the `64 * T` bytes at `gfx`, and a pixel on an unfilled cell of
    the layer keeps its colour. -/
def HolesKept (xml : LibXml) (doc : xml.Doc) (layer : xml.Node) (w h : Int) (gfx T fuel : Nat) (b : PeriGfxBgnd)
    (mem : Mem) (s : Scanline) (ypos : Int) : Prop :=
  ∃ out fetched, gfxRenderBgndScanline fuel s ypos b mem = .ok (out, fetched) ∧
    (∀ (x : Nat) f, fetched[x]? = some f → (gfx : Int) ≤ f.addr ∧ f.addr < gfx + 64 * T) ∧
    ∀ x : Fin 320, b.shownCell ypos x < layerCells w h →
      layerEntry xml doc layer (b.shownCell ypos x) = some 0 → out x = s x

/-- Pixel `x` falls on a cell of the layer that is filled in. (Where the size does not fit the map's header a
    pixel can fall beyond the layer's entries: on any halfword below `T`.) -/
def PixelFilled (xml : LibXml) (doc : xml.Doc) (layer : xml.Node) (w h : Int) (tm T : Nat) (b : PeriGfxBgnd)
    (mem : Mem) (ypos : Int) (x : Nat) : Prop :=
  if b.shownCell ypos x < layerCells w h then layerEntry xml doc layer (b.shownCell ypos x) ≠ some 0
  else ∃ t < T, u16At mem (tm + 4 + 2 * i32 (b.shownCell ypos x)) = .ok t

variable {xml : LibXml} {doc : xml.Doc} {layer : xml.Node} {tm T gfx : Nat} {m₀ m₁ : Mem} {ret w h : Int}
variable {b : PeriGfxBgnd} {r : Ram} {ypos : Int}

/-- The cells of a loaded layer. -/
theorem LayerLoaded.cell (hl : LayerLoaded xml doc layer tm T m₀ m₁ ret w h) {j : Nat} (hj : j < layerCells w h) :
    ∃ e, layerEntry xml doc layer j = some e ∧ 0 ≤ e ∧ e ≤ T ∧
      u16At m₁ (tm + 4 + 2 * (j : Int)) = .ok (entryTile e) := by
  obtain ⟨e, he, hcell⟩ := (writeMap_written hl.size hl.loads).cells hl.success j hj
  obtain ⟨h0, hT⟩ := hl.entries j hj e he
  exact ⟨e, he, h0, hT, hcell⟩

/-- Cells of a layer have `int` indices. -/
theorem layerCells_lt (w h : Int) : layerCells w h < 2147483648 := by
  unfold layerCells i32
  omega

/-- A halfword of a loaded cell is a tile of the tileset exactly when the entry is filled in. -/
theorem entryTile_lt_iff {e : Int} (h0 : 0 ≤ e) (hT : e ≤ T) (hT16 : T ≤ 65535) : entryTile e < T ↔ e ≠ 0 := by
  by_cases he : e = 0
  · subst he
    rw [entryTile_zero]
    omega
  · have := entryTile_pos (g := e) (by omega) (by omega)
    omega

/-- What is stored in the cell that a pixel falls on, in terms of `PixelFilled`. -/
theorem LayerLoaded.pixelFilled_iff (hl : LayerLoaded xml doc layer tm T m₀ m₁ ret w h) (hT16 : T ≤ 65535)
    (hsame : ∀ a : Int, tm ≤ a → a < tm + 4 + 2 * layerCells w h → r.mem a = m₁ a) (x : Nat) :
    PixelFilled xml doc layer w h tm T b r.mem ypos x ↔
      ∃ t < T, u16At r.mem (tm + 4 + 2 * i32 (b.shownCell ypos x)) = .ok t := by
  unfold PixelFilled
  by_cases hcell : b.shownCell ypos x < layerCells w h
  · have hlt := layerCells_lt w h
    obtain ⟨e, he, h0, hT, hstored⟩ := hl.cell hcell
    have hread : u16At r.mem (tm + 4 + 2 * i32 (b.shownCell ypos x)) = .ok (entryTile e) := by
      rw [i32_of_range (by omega) (by omega), ← hstored]
      exact u16At_congr (hsame _ (by omega) (by omega)) (hsame _ (by omega) (by omega))
    rw [if_pos hcell, he, hread]
    constructor
    · intro hne
      exact ⟨entryTile e, (entryTile_lt_iff h0 hT hT16).mpr (fun hz => hne (by rw [hz])), rfl⟩
    · rintro ⟨t, ht, heq⟩ hz
      cases heq
      exact (entryTile_lt_iff h0 hT hT16).mp ht (Option.some.inj hz)
  · rw [if_neg hcell]

/-! ## A pixel -/

/-- Texels of tile `t` are in a tileset in RAM exactly when `t` is one of its tiles. -/
theorem texelAddr_range (hgfx : b.gfxAddr.toNat = gfx) (hfit : gfx + 64 * T ≤ machRamSize) {t : Nat}
    (ht : t < 65536) (x y : Nat) :
    (gfx : Int) ≤ b.texelAddr x y t ∧ (b.texelAddr x y t < gfx + 64 * T ↔ t < T) := by
  simp only [machRamSize] at hfit
  -- a tile number is a halfword, so the address does not wrap
  have haddr : b.texelAddr x y t = gfx + 64 * t + ((y % 8 * 8 + x % 8 : Nat) : Int) := by
    unfold PeriGfxBgnd.texelAddr
    rw [hgfx, u32_of_range (by omega) (by omega)]
  omega

/-- The fetch for a pixel of an active background. -/
theorem tileFetch_shown {w h : Nat} (hb : b.ShowsMap tm w h) (ha : b.Active) (hw : w < 65536) (hh : h < 65536)
    {mem : Mem} {x : Nat} {f : TileFetch} :
    tileFetch b mem (bgndY b ypos) (bgndX b x) = .ok f ↔
      ∃ t, u16At mem (tm + 4 + 2 * i32 (b.shownCell ypos x)) = .ok t ∧
        ∃ col, u8At mem (b.texelAddr (torusX b x) (torusY b ypos) t) = .ok col ∧
          b.cellFetch (torusX b x) (torusY b ypos) t col = f := by
  obtain ⟨-, -, hh0, hw0⟩ := ha
  have hw1 : 0 < b.width.toNat := Nat.pos_of_ne_zero (fun he => hw0 (UInt32.toNat_inj.mp he))
  have hh1 : 0 < b.height.toNat := Nat.pos_of_ne_zero (fun he => hh0 (UInt32.toNat_inj.mp he))
  have hX := torusX_lt hw1 x
  have hY := torusY_lt hh1 ypos
  have hwb : b.width.toNat < 65536 := hb.width ▸ hw
  have hhb : b.height.toNat < 65536 := hb.height ▸ hh
  rw [bgndX_eq hw1 hwb, bgndY_eq hh1 hhb, tileFetch_eq hb (by omega) (by omega)]
  simp only [bind_eq_ok, Except.ok.injEq, PeriGfxBgnd.shownCell]

/-! ## A line -/

/-- A line that keeps to the tileset falls on tiles of the tileset only. -/
theorem HolesKept.tiles {w' h' : Nat} {fuel : Nat} {s : Scanline}
    (hp : HolesKept xml doc layer w h gfx T fuel b r.mem s ypos) (ha : b.Active) (hb : b.ShowsMap tm w' h')
    (hw : w' < 65536) (hh : h' < 65536) (hgfx : b.gfxAddr.toNat = gfx) (hfit : gfx + 64 * T ≤ machRamSize)
    {x : Nat} (hx : x < 320) : ∃ t < T, u16At r.mem (tm + 4 + 2 * i32 (b.shownCell ypos x)) = .ok t := by
  obtain ⟨out, fetched, hr, haddr, -⟩ := hp
  obtain ⟨f, hf⟩ := bgnd_fetched_all ha hr hx
  obtain ⟨-, -, hfetch⟩ := bgnd_fetched hr hf
  obtain ⟨t, ht, col, -, rfl⟩ := (tileFetch_shown hb ha hw hh).mp hfetch
  have hin := (haddr x _ hf).2
  exact ⟨t, (texelAddr_range hgfx hfit (u16At_lt ht) _ _).2.mp hin, ht⟩

/-- A line that falls on tiles of the tileset only is drawn from the tileset. -/
theorem renders_tiles {w' h' : Nat} {fuel : Nat} (ha : b.Active) (hb : b.ShowsMap tm w' h') (hw : w' < 65536)
    (hh : h' < 65536) (hgfx : b.gfxAddr.toNat = gfx) (hfit : gfx + 64 * T ≤ machRamSize)
    (hfuel : 4294967296 ≤ fuel)
    (htiles : ∀ x < 320, ∃ t < T, u16At r.mem (tm + 4 + 2 * i32 (b.shownCell ypos x)) = .ok t) (s : Scanline) :
    ∃ out fetched, gfxRenderBgndScanline fuel s ypos b r.mem = .ok (out, fetched) ∧
      ∀ (x : Nat) f, fetched[x]? = some f → (gfx : Int) ≤ f.addr ∧ f.addr < gfx + 64 * T := by
  have hw1 : 0 < b.width.toNat := Nat.pos_of_ne_zero (fun he => ha.2.2.2 (UInt32.toNat_inj.mp he))
  have hh1 : 0 < b.height.toNat := Nat.pos_of_ne_zero (fun he => ha.2.2.1 (UInt32.toNat_inj.mp he))
  have hread : ∀ x < 320, ∃ f, tileFetch b r.mem (bgndY b ypos) (bgndX b x) = .ok f ∧
      (gfx : Int) ≤ f.addr ∧ f.addr < gfx + 64 * T := by
    intro x hx
    obtain ⟨t, htT, ht⟩ := htiles x hx
    obtain ⟨hlo, hhi⟩ := texelAddr_range (T := T) hgfx hfit (u16At_lt ht) (torusX b x) (torusY b ypos)
    have hhi' := hhi.mpr htT
    obtain ⟨col, hcol⟩ := Option.isSome_iff_exists.mp (r.isSome_of_range (by omega) (by omega) :
      (r.mem (b.texelAddr (torusX b x) (torusY b ypos) t)).isSome)
    exact ⟨_, (tileFetch_shown hb ha hw hh).mpr ⟨t, ht, col, u8At_eq_ok.mpr hcol, rfl⟩, hlo, hhi'⟩
  choose! f hf hrange using hread
  refine ⟨_, _, bgnd_total ha ?_ ?_ hfuel hf s, ?_⟩
  · rw [timesEight_eq (hb.height ▸ hh)]; omega
  · rw [timesEight_eq (hb.width ▸ hw)]; omega
  · intro x g hg
    obtain ⟨-, hx, hfetch⟩ := bgnd_fetched (bgnd_total ha (by rw [timesEight_eq (hb.height ▸ hh)]; omega)
      (by rw [timesEight_eq (hb.width ▸ hw)]; omega) hfuel hf s) hg
    rw [hf x hx] at hfetch
    cases hfetch
    exact hrange x hx

/-- **Unfilled cells are left alone exactly when the line shows none.** For every layer that `write_map` loads,
    every tileset of at most 65535 tiles in RAM, every transparency colour, scroll position and line: the
    renderer keeps to the tileset and keeps the colour of each pixel on an unfilled cell, if and only if the
    background is off or every pixel of the line falls on a cell that is filled in. -/
theorem holesKept_iff (hl : LayerLoaded xml doc layer tm T m₀ m₁ ret w h) (hT16 : T ≤ 65535)
    (hfit : gfx + 64 * T ≤ machRamSize)
    (hsame : ∀ a : Int, tm ≤ a → a < tm + 4 + 2 * layerCells w h → r.mem a = m₁ a)
    (hb : b.ShowsMap tm (u16 w) (u16 h)) (hgfx : b.gfxAddr.toNat = gfx) {fuel : Nat}
    (hfuel : 4294967296 ≤ fuel) (s : Scanline) :
    HolesKept xml doc layer w h gfx T fuel b r.mem s ypos ↔
      (b.Active → ∀ x < 320, PixelFilled xml doc layer w h tm T b r.mem ypos x) := by
  constructor
  -- a tile outside the tileset is read from outside of it, so no drawn line shows one
  · intro hp ha x hx
    exact (hl.pixelFilled_iff hT16 hsame x).mpr (hp.tiles ha hb (u16_lt w) (u16_lt h) hgfx hfit hx)
  · intro hfilled
    -- no pixel of a filled line is on an unfilled cell, so there is no colour to keep
    by_cases ha : b.Active
    · obtain ⟨out, fetched, hr, haddr⟩ := renders_tiles ha hb (u16_lt w) (u16_lt h) hgfx hfit hfuel
        (fun x hx => (hl.pixelFilled_iff hT16 hsame x).mp (hfilled ha x hx)) s
      refine ⟨out, fetched, hr, haddr, ?_⟩
      intro x hcell hzero
      have hne := hfilled ha x x.isLt
      unfold PixelFilled at hne
      rw [if_pos hcell] at hne
      exact absurd hzero hne
    · exact ⟨s, [], bgnd_inactive ha, fun x f hf => absurd hf (by simp), fun x _ _ => rfl⟩

/-! ## A layer with a hole -/

/-- One layer of one cell that is not filled in. -/
def holeLayer : XmlNode :=
  .elem (cstr "layer") [(cstr "name", cstr "bg"), (cstr "width", cstr "1"), (cstr "height", cstr "1")]
    [.elem (cstr "data") [(cstr "encoding", cstr "csv")] [] (some (cstr "0"))] none

def holeXml : LibXml := treeXml (fun _ => some (.elem (cstr "map") [] [holeLayer] none))

/-- A background that shows the map at 8192 with tile graphics at 4096. -/
def holeBgnd : PeriGfxBgnd := ⟨8196, 4096, 1, 1, 0, 0, 0⟩

/-- `write_map` loads that layer. -/
theorem holeLayer_loaded : ∃ r : Ram,
    LayerLoaded holeXml holeLayer holeLayer 8192 1 (Ram.fill 0).mem r.mem 6 1 1 := by
  have hsize : layerSize holeXml holeLayer = some (1, 1) := by decide
  have hone : layerCells 1 1 = 1 := by decide
  have hzero : layerEntry holeXml holeLayer holeLayer 0 = some 0 := by decide
  have hram (a : Int) (h0 : 0 ≤ a) (h1 : a < 8388608) : ((Ram.fill 0).mem a).isSome :=
    (Ram.fill 0).isSome_of_range h0 h1
  have hfill : Fillable holeXml holeLayer holeLayer (Ram.fill 0).mem (8192 : Nat) (layerCells 1 1) := by
    refine fun _ _ => ⟨cstr "0", by decide, fun j hj _ => ?_⟩
    rw [hone] at hj
    exact ⟨hram _ (by omega) (by omega), hram _ (by omega) (by omega)⟩
  obtain ⟨⟨ret, m₁⟩, hm₁⟩ := (writeMap_total hsize).mpr ⟨fun k hk => hram _ (by omega) (by omega), hfill⟩
  have hw := writeMap_written hsize hm₁
  have hret : ret = 6 := by
    rcases hw.ret_eq with heq | heq
    · rw [heq]; decide
    · -- the one entry is there, so the result is not the error value
      obtain ⟨j, hj, hmissing⟩ := hw.short heq (by decide)
      obtain rfl : j = 0 := by omega
      rw [hzero] at hmissing
      cases hmissing
  subst hret
  refine ⟨⟨m₁, fun i => by rw [hw.dom, (Ram.fill 0).dom]⟩, hm₁, by decide, hsize, fun j hj e he => ?_⟩
  obtain rfl : j = 0 := by omega
  rw [hzero] at he
  cases he
  decide

theorem holesKept_iff_hole : ∃ r : Ram,
    HolesKept holeXml holeLayer holeLayer 1 1 4096 1 4294967296 holeBgnd r.mem (fun _ => 7) 0 ↔
      (holeBgnd.Active → ∀ x < 320, PixelFilled holeXml holeLayer holeLayer 1 1 8192 1 holeBgnd r.mem 0 x) := by
  obtain ⟨r, hl⟩ := holeLayer_loaded
  exact ⟨r, holesKept_iff hl (by decide) (by decide) (fun _ _ _ => rfl) ⟨rfl, rfl, rfl⟩ rfl (le_refl _) _⟩

/-- The line over that cell is drawn from tile 65535, outside of the tileset. -/
theorem hole_drawn :
    ¬ ∀ (xml : LibXml) (doc : xml.Doc) (layer : xml.Node) (tm T gfx fuel : Nat) (m₀ : Mem) (r : Ram)
      (ret w h : Int) (b : PeriGfxBgnd) (s : Scanline) (ypos : Int),
      LayerLoaded xml doc layer tm T m₀ r.mem ret w h → T ≤ 65535 → gfx + 64 * T ≤ machRamSize →
      b.ShowsMap tm (u16 w) (u16 h) → b.gfxAddr.toNat = gfx → 4294967296 ≤ fuel → 0 ≤ ypos → ypos < 240 →
      HolesKept xml doc layer w h gfx T fuel b r.mem s ypos := by
  intro hall
  obtain ⟨r, hl⟩ := holeLayer_loaded
  have hkept := hall holeXml holeLayer holeLayer 8192 1 4096 4294967296 _ r 6 1 1 holeBgnd (fun _ => 7) 0 hl
    (by decide) (by decide) ⟨rfl, rfl, rfl⟩ rfl (le_refl _) (by decide) (by decide)
  have hfilled := (hl.pixelFilled_iff (by decide) (fun _ _ _ => rfl) 0).mpr
    (hkept.tiles (x := 0) (by decide) ⟨rfl, rfl, rfl⟩ (u16_lt 1) (u16_lt 1) rfl (by decide) (by decide))
  unfold PixelFilled at hfilled
  rw [if_pos (by decide)] at hfilled
  exact hfilled (by decide)

end HadBadge
