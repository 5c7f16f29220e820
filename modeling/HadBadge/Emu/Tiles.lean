import HadBadge.Emu.Layers

/-!
# `Emu.Tiles`: which cell and which texel a background pixel shows

`gfx_render_bgnd_scanline` works on `uint32_t` registers, `int` positions and products that wrap. For a map
that fits in RAM none of that wraps: positions are natural numbers on the torus of `8w × 8h` pixels, and the
fetch for a position is plain cell and texel arithmetic.

## Contents
- **The torus.** `torusX`, `torusY` and the fetch without wraparound (`tileFetch_eq`, `tileFetch_cell`).
- **A line of a shown map.** What it fetches (`fetched_cell`) and that it is drawn (`showsMap_renders`).
-/

namespace HadBadge

open Lib

variable {b : PeriGfxBgnd} {mem : Mem} {tm w h : Nat}

/-- The registers of a background that shows the `w × h` map at `tm`. -/
structure PeriGfxBgnd.ShowsMap (b : PeriGfxBgnd) (tm w h : Nat) : Prop where
  mapAddr : b.mapAddr.toNat = tm + 4
  width : b.width.toNat = w
  height : b.height.toNat = h

theorem timesEight_eq {v : UInt32} (hv : v.toNat < 65536) : timesEight v = 8 * v.toNat := by
  unfold timesEight
  rw [show ((v.toNat : Int) * 8) = ((8 * v.toNat : Nat) : Int) by push_cast; ring, u32_natCast]
  omega

/-- Column of the torus that pixel `i` of a line shows. -/
def torusX (b : PeriGfxBgnd) (i : Nat) : Nat := (b.scrollx.toNat + i) % (8 * b.width.toNat)

/-- Row of the torus that line `ypos` shows. -/
def torusY (b : PeriGfxBgnd) (ypos : Int) : Nat := u32 (ypos + b.scrolly.toNat) % (8 * b.height.toNat)

theorem torusX_lt (hw : 0 < b.width.toNat) (i : Nat) : torusX b i < 8 * b.width.toNat :=
  Nat.mod_lt _ (by omega)

theorem torusY_lt (hh : 0 < b.height.toNat) (ypos : Int) : torusY b ypos < 8 * b.height.toNat :=
  Nat.mod_lt _ (by omega)

theorem bgndX_eq (h0 : 0 < b.width.toNat) (hw : b.width.toNat < 65536) (i : Nat) :
    bgndX b i = torusX b i := by
  have hlt := torusX_lt h0 i
  unfold bgndX
  rw [timesEight_eq hw]
  exact i32_of_range (by omega) (by unfold torusX at hlt; omega)

theorem bgndY_eq (h0 : 0 < b.height.toNat) (hh : b.height.toNat < 65536) (ypos : Int) :
    bgndY b ypos = torusY b ypos := by
  have hlt := torusY_lt h0 ypos
  unfold bgndY
  rw [timesEight_eq hh]
  exact i32_of_range (by omega) (by unfold torusY at hlt; omega)

/-- Index in `mem` of texel `(x % 8, y % 8)` of tile `t`. -/
def PeriGfxBgnd.texelAddr (b : PeriGfxBgnd) (x y t : Nat) : Int :=
  u32 (b.gfxAddr.toNat + 64 * t) + ((y % 8 * 8 + x % 8 : Nat) : Int)

/-- The cell of the map that position `(x, y)` of the torus falls on. -/
def PeriGfxBgnd.cellAt (b : PeriGfxBgnd) (x y : Nat) : Nat := y / 8 * b.width.toNat + x / 8

/-- The fetch for position `(x, y)` of the torus when its cell holds tile `t` and the texel is `col`. -/
def PeriGfxBgnd.cellFetch (b : PeriGfxBgnd) (x y t : Nat) (col : UInt8) : TileFetch :=
  ⟨i32 (b.cellAt x y), t, (x % 8 : Nat), (y % 8 : Nat), b.texelAddr x y t, col⟩

/-- The fetch for a position on the torus. The index of its cell is an `int`, and wraps as one. -/
theorem tileFetch_pos (b : PeriGfxBgnd) (mem : Mem) {x y : Nat} (hx : x < 2147483648) (hy : y < 2147483648) :
    tileFetch b mem y x =
      (u16At mem (b.mapAddr.toNat + 2 * i32 (b.cellAt x y)) >>= fun t =>
        u8At mem (b.texelAddr x y t) >>= fun col => .ok (b.cellFetch x y t col)) := by
  have hdiv (n : Nat) : ((n : Int)).tdiv 8 = ((n / 8 : Nat) : Int) := by simp [Int.tdiv_eq_ediv]
  have hmod (n : Nat) : ((n : Int)).tmod 8 = ((n % 8 : Nat) : Int) := by simp [Int.tmod_eq_emod]
  -- `tdiv` and `tmod` of positions that are not negative are division and remainder
  have hidx : (u32 ((y / 8 : Nat) : Int) : Int) * b.width.toNat + u32 ((x / 8 : Nat) : Int) = b.cellAt x y := by
    rw [u32_natCast, u32_natCast, Nat.mod_eq_of_lt (by omega), Nat.mod_eq_of_lt (by omega),
      PeriGfxBgnd.cellAt]
    push_cast
    rfl
  unfold tileFetch PeriGfxBgnd.cellFetch PeriGfxBgnd.texelAddr
  simp only [hdiv, hmod, hidx]
  push_cast
  rfl

/-- The fetch for a position of a shown map. -/
theorem tileFetch_eq (hb : b.ShowsMap tm w h) {x y : Nat} (hx : x < 2147483648) (hy : y < 2147483648) :
    tileFetch b mem y x =
      (u16At mem (tm + 4 + 2 * i32 (b.cellAt x y)) >>= fun t =>
        u8At mem (b.texelAddr x y t) >>= fun col => .ok (b.cellFetch x y t col)) := by
  rw [tileFetch_pos b mem hx hy, hb.mapAddr]
  push_cast
  rfl

theorem cellAt_lt (hb : b.ShowsMap tm w h) {x y : Nat} (hx : x < 8 * w) (hy : y < 8 * h) :
    b.cellAt x y < w * h := by
  unfold PeriGfxBgnd.cellAt
  rw [hb.width]
  exact cellIdx_lt (by omega) (by omega)

/-- What a position of a shown map needs to be fetched: its cell, then its texel. -/
theorem tileFetch_cell (hb : b.ShowsMap tm w h) (hm : TilemapAt mem tm w h) {x y : Nat} (hx : x < 8 * w)
    (hy : y < 8 * h) {f : TileFetch} :
    tileFetch b mem y x = .ok f ↔
      ∃ t, u16At mem (tm + 4 + 2 * (b.cellAt x y : Int)) = .ok t ∧
        ∃ col, u8At mem (b.texelAddr x y t) = .ok col ∧ b.cellFetch x y t col = f := by
  have hcell := cellAt_lt hb hx hy
  have hcells := hm.cells_lt
  have hw := hm.width_lt
  have hh := hm.height_lt
  rw [tileFetch_eq hb (by omega) (by omega), i32_of_range (by omega) (by omega)]
  simp only [bind_eq_ok, Except.ok.injEq]

/-! ## A line of a shown map -/

/-- Every tile the map refers to has its 64 texels in RAM. -/
def TilesInRam (mem : Mem) (gfx tm w h : Nat) : Prop :=
  ∀ k < w * h, ∀ t, u16At mem (tm + 4 + 2 * (k : Int)) = .ok t → gfx + 64 * t + 64 ≤ machRamSize

variable {r : Ram} {ypos : Int}

/-- **What the renderer fetches for a pixel** of a background that shows a map. -/
theorem fetched_cell (hb : b.ShowsMap tm w h) (hm : TilemapAt mem tm w h) {fuel : Nat} {s out : Scanline}
    {fetched : List TileFetch} (hr : gfxRenderBgndScanline fuel s ypos b mem = .ok (out, fetched))
    {x : Nat} {f : TileFetch} (hx : fetched[x]? = some f) :
    torusX b x < 8 * w ∧ torusY b ypos < 8 * h ∧
      ∃ t, u16At mem (tm + 4 + 2 * (b.cellAt (torusX b x) (torusY b ypos) : Int)) = .ok t ∧
        ∃ col, u8At mem (b.texelAddr (torusX b x) (torusY b ypos) t) = .ok col ∧
          b.cellFetch (torusX b x) (torusY b ypos) t col = f := by
  -- a background with a fetch is active, so its sizes are not zero
  obtain ⟨⟨-, -, hh0, hw0⟩, -, hf⟩ := bgnd_fetched hr hx
  have hw1 : 0 < b.width.toNat := Nat.pos_of_ne_zero (fun he => hw0 (UInt32.toNat_inj.mp he))
  have hh1 : 0 < b.height.toNat := Nat.pos_of_ne_zero (fun he => hh0 (UInt32.toNat_inj.mp he))
  have hX := torusX_lt hw1 x
  have hY := torusY_lt hh1 ypos
  rw [bgndX_eq hw1 (hb.width ▸ hm.width_lt), bgndY_eq hh1 (hb.height ▸ hm.height_lt)] at hf
  rw [hb.width] at hX
  rw [hb.height] at hY
  exact ⟨hX, hY, (tileFetch_cell hb hm hX hY).mp hf⟩

/-- **A shown map renders.** With tile graphics set and every tile in RAM, each line is drawn in full. -/
theorem showsMap_renders (hb : b.ShowsMap tm w h) (hm : TilemapAt r.mem tm w h) (hw : 1 ≤ w) (hh : 1 ≤ h)
    (hgfx : b.gfxAddr ≠ 0) (ht : TilesInRam r.mem b.gfxAddr.toNat tm w h) {fuel : Nat}
    (hfuel : 4294967296 ≤ fuel) (s : Scanline) (ypos : Int) :
    ∃ fetched : List TileFetch, fetched.length = 320 ∧
      gfxRenderBgndScanline fuel s ypos b r.mem = .ok ((bgndLayer b r.mem ypos).paint s, fetched) := by
  have hw1 : 0 < b.width.toNat := by rw [hb.width]; omega
  have hh1 : 0 < b.height.toNat := by rw [hb.height]; omega
  have hwlt : b.width.toNat < 65536 := hb.width ▸ hm.width_lt
  have hhlt : b.height.toNat < 65536 := hb.height ▸ hm.height_lt
  have hne {v : UInt32} (hv : 0 < v.toNat) : v ≠ 0 := by rintro rfl; exact absurd hv (by decide)
  have hact : b.Active := ⟨hgfx, hne (by rw [hb.mapAddr]; omega), hne hh1, hne hw1⟩
  have hread : ∀ k < 320, ∃ f, tileFetch b r.mem (bgndY b ypos) (bgndX b k) = .ok f := by
    intro k _
    have hX := torusX_lt hw1 k
    have hY := torusY_lt hh1 ypos
    rw [hb.width] at hX
    rw [hb.height] at hY
    have hcell := cellAt_lt hb hX hY
    obtain ⟨t, htile⟩ := hm.cell hcell
    have hram := ht _ hcell t htile
    simp only [machRamSize] at hram
    -- the tile is in RAM, so the product of the source does not wrap
    have haddr : b.texelAddr (torusX b k) (torusY b ypos) t
        = b.gfxAddr.toNat + 64 * t + ((torusY b ypos % 8 * 8 + torusX b k % 8 : Nat) : Int) := by
      unfold PeriGfxBgnd.texelAddr
      rw [u32_of_range (by omega) (by omega)]
    obtain ⟨col, hcol⟩ := Option.isSome_iff_exists.mp (r.isSome_of_range
      (i := b.texelAddr (torusX b k) (torusY b ypos) t) (by omega) (by simp only [machRamSize]; omega))
    rw [bgndX_eq hw1 hwlt, bgndY_eq hh1 hhlt]
    exact ⟨_, (tileFetch_cell hb hm hX hY).mpr
      ⟨t, htile, col, u8At_eq_ok.mpr hcol, rfl⟩⟩
  choose! f hf using hread
  refine ⟨(List.range 320).map f, by simp, bgnd_total hact ?_ ?_ hfuel hf s⟩
  · rw [timesEight_eq hhlt]; omega
  · rw [timesEight_eq hwlt]; omega

end HadBadge
