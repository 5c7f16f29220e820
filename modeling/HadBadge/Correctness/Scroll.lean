import HadBadge.Emu.Tiles
import HadBadge.Sdk.ExtGfx

/-!
# `Correctness.Scroll`: the renderer and `TILEMAPAT` wrap the same way

`BGNDSCROLL` takes C remainders with a sign fix, the renderer subtracts sizes from `uint32_t` sums, and
`TILEMAPAT` takes remainders of cell coordinates. All three compute positions on one torus: a screen pixel
shows the cell that `TILEMAPAT` reads for it.
-/

namespace HadBadge

open Lib

variable {r : Ram} {tm w h : Nat} {b : PeriGfxBgnd} {sx sy : Int}

/-- The registers of a background after `BGNDINIT` on a map and `BGNDSCROLL` to `(sx, sy)`. -/
structure PeriGfxBgnd.ScrolledTo (b : PeriGfxBgnd) (tm w h : Nat) (sx sy : Int) : Prop
    extends b.ShowsMap tm w h where
  scrollx : (b.scrollx.toNat : Int) = sx % (8 * w)
  scrolly : (b.scrolly.toNat : Int) = sy % (8 * h)

/-- Pixel `x` of a line is column `x + sx` of the torus. -/
theorem torusX_scrolled (hb : b.ScrolledTo tm w h sx sy) (x : Nat) :
    (torusX b x : Int) = (x + sx) % (8 * w) := by
  unfold torusX
  push_cast
  rw [hb.scrollx, hb.width, Int.emod_add_emod, Int.add_comm]

/-- Line `y` of the screen is row `y + sy` of the torus. -/
theorem torusY_scrolled (hb : b.ScrolledTo tm w h sx sy) (hh : 1 ≤ h) (hh' : h < 65536) {y : Int}
    (hy0 : 0 ≤ y) (hy1 : y < 240) : (torusY b y : Int) = (y + sy) % (8 * h) := by
  have hlt := Int.emod_lt_of_pos sy (show (0 : Int) < 8 * h by omega)
  have hge := Int.emod_nonneg sy (show (8 * (h : Int)) ≠ 0 by omega)
  unfold torusY
  push_cast
  rw [hb.scrolly, u32_of_range (by omega) (by omega), hb.height, Int.add_emod_emod]

/-- A pixel's cell on the torus is the cell that `TILEMAPAT` looks up for it. -/
theorem tilemapat_torus (hb : b.ShowsMap tm w h) (hm : TilemapAt r.guest tm w h) (hw : 1 ≤ w) (hh : 1 ≤ h)
    {X Y : Nat} {a c : Int} (hX : (X : Int) = a % (8 * w)) (hY : (Y : Int) = c % (8 * h)) :
    tilemapat r.guest tm (a / 8) (c / 8) = u16At r.guest (tm + 4 + 2 * (b.cellAt X Y : Int)) := by
  have hcol : (a / 8 % w).toNat = X / 8 := by
    rw [← emod_mul_ediv a w (by decide), ← hX]; omega
  have hrow : (c / 8 % h).toNat = Y / 8 := by
    rw [← emod_mul_ediv c h (by decide), ← hY]; omega
  -- the row stride of the lookup is the map width that `BGNDINIT` put in the register
  rw [tilemapat_eq hm hw hh, hcol, hrow, PeriGfxBgnd.cellAt, hb.width]

/-- What pixel `x` of line `y` shows of the map at `tm`, with its graphics at `gfx`, scrolled to `(sx, sy)`: `f` is
    fetched for it, and the line is `s` before it is drawn and `out` after it. -/
structure PixelShows (r : Ram) (tm : Nat) (gfx transcol : UInt32) (sx sy y : Int) (s out : Scanline) (x : Nat)
    (f : TileFetch) : Prop where
  /-- the tile number -/
  cell : tilemapat r.guest tm ((x + sx) / 8) ((y + sy) / 8) = .ok f.tileno
  tx : f.tx = (x + sx) % 8
  ty : f.ty = (y + sy) % 8
  /-- where the texel is read: the address of the tile is a sum of type `uint32_t` -/
  addr : f.addr = u32 (gfx.toNat + 64 * f.tileno) + 8 * f.ty + f.tx
  texel : u8At r.mem f.addr = .ok f.col
  pixel : ∃ hx : x < 320, out ⟨x, hx⟩ = if f.col.toNat = transcol.toNat then s ⟨x, hx⟩ else f.col

/-- **The pixel of a scrolled map shows the cell that `TILEMAPAT` reads.** -/
theorem scrolled_fetch (hb : b.ScrolledTo tm w h sx sy) (hm : TilemapAt r.guest tm w h) (hw : 1 ≤ w)
    (hh : 1 ≤ h) {fuel : Nat} {s out : Scanline} {fetched : List TileFetch} {y : Int} (hy0 : 0 ≤ y)
    (hy1 : y < 240) (hr : gfxRenderBgndScanline fuel s y b r.mem = .ok (out, fetched)) {x : Nat}
    {f : TileFetch} (hx : fetched[x]? = some f) : PixelShows r tm b.gfxAddr b.transcol sx sy y s out x f := by
  have hX := torusX_scrolled hb x
  have hY := torusY_scrolled hb hh hm.height_lt hy0 hy1
  obtain ⟨hX8, hY8, t, ht, col, hcol, hf⟩ := fetched_cell hb.toShowsMap (hm.mono r.guest_sub) hr hx
  obtain ⟨-, hx320, -⟩ := bgnd_fetched hr hx
  have hpixel := bgnd_pixel hr (x := ⟨x, hx320⟩) hx
  refine ⟨?_, ?_, ?_, ?_, ?_, hx320, ?_⟩
  · rw [tilemapat_torus hb.toShowsMap hm hw hh hX hY]
    -- the renderer reads the cell through `mem`, the guest through its own RAM: one value
    obtain ⟨t', hcell⟩ := hm.guest_cell (cellAt_lt hb.toShowsMap hX8 hY8)
    have hsame := u16At_mono r.guest_sub hcell
    rw [ht] at hsame
    rw [hcell, ← hsame, ← hf]
    rfl
  · rw [← hf, PeriGfxBgnd.cellFetch]
    push_cast
    rw [hX, Int.emod_emod_of_dvd _ ⟨w, rfl⟩]
  · rw [← hf, PeriGfxBgnd.cellFetch]
    push_cast
    rw [hY, Int.emod_emod_of_dvd _ ⟨h, rfl⟩]
  · rw [← hf, PeriGfxBgnd.cellFetch, PeriGfxBgnd.texelAddr]
    push_cast
    ring
  · rw [← hf]
    exact hcol
  · rw [hpixel, opaqueUnless, ite_not]
    split <;> rfl

/-- The registers that `BGNDINIT` leaves show the map. -/
theorem bgndinit_shows (hm : TilemapAt r.guest tm w h) (g₀ : PeriGfx) (i : Fin 3) (gfx : UInt32)
    (transcol : Int) :
    ∃ g₁, bgndinit g₀ r.guest i tm gfx transcol = .ok (.ok, g₁) ∧
      (g₁.bgnd i).ShowsMap tm w h ∧ (g₁.bgnd i).gfxAddr = gfx ∧
      (g₁.bgnd i).transcol = UInt32.ofNat (u32 transcol) := by
  have hw := hm.width_lt
  have hh := hm.height_lt
  have hfits := hm.fits
  simp only [machRamSize] at hfits
  refine ⟨_, bgndinit_fin hm g₀ i gfx transcol, ?_, ?_, ?_⟩
  · rw [PeriGfx.setBgnd_bgnd_self]
    exact ⟨UInt32.toNat_ofNat_of_lt' (by simp only [UInt32.size]; omega),
      UInt32.toNat_ofNat_of_lt' (by simp only [UInt32.size]; omega),
      UInt32.toNat_ofNat_of_lt' (by simp only [UInt32.size]; omega)⟩
  · rw [PeriGfx.setBgnd_bgnd_self]
  · rw [PeriGfx.setBgnd_bgnd_self]

/-- The scroll registers hold the non-negative remainders. -/
theorem scrolledTo_scroll (hb : b.ShowsMap tm w h) (hm : TilemapAt r.guest tm w h) (hw : 1 ≤ w) (hh : 1 ≤ h)
    (sx sy : Int) : (b.scroll sx sy).ScrolledTo tm w h sx sy := by
  -- the sign fix of `BGNDSCROLL` leaves a remainder below `8 * 65535`, which the register holds
  have hreg (a : Int) {m : Nat} (hm0 : 1 ≤ m) (hm1 : m < 65536) :
      ((UInt32.ofNat (u32 (a % (8 * m)))).toNat : Int) = a % (8 * m) := by
    have hlt := Int.emod_lt_of_pos a (show (0 : Int) < 8 * m by omega)
    have hge := Int.emod_nonneg a (show (8 * (m : Int)) ≠ 0 by omega)
    rw [UInt32.toNat_ofNat_of_lt' (u32_lt _), u32_of_range hge (by omega)]
  have hx := hreg sx hw hm.width_lt
  have hy := hreg sy hh hm.height_lt
  rw [← hb.width] at hx
  rw [← hb.height] at hy
  exact ⟨⟨hb.mapAddr, hb.width, hb.height⟩, by rw [← hb.width]; exact hx, by rw [← hb.height]; exact hy⟩

/-- `BGNDSCROLL` on a shown map succeeds. -/
theorem bgndscroll_shows {g : PeriGfx} {i : Fin 3} (hb : (g.bgnd i).ShowsMap tm w h)
    (hm : TilemapAt r.guest tm w h) (hw : 1 ≤ w) (hh : 1 ≤ h) (sx sy : Int) :
    bgndscroll g i sx sy = .ok (.ok, g.setBgnd i ((g.bgnd i).scroll sx sy)) := by
  have hw' := hm.width_lt
  have hh' := hm.height_lt
  exact bgndscroll_fin i (by rw [hb.width]; omega) (by rw [hb.width]; omega) (by rw [hb.height]; omega)
    (by rw [hb.height]; omega) sx sy

/-- Congruent arguments scroll to the same registers. -/
theorem scroll_congr (hb : b.ShowsMap tm w h) {sx' sy' : Int} (hx : sx' % (8 * w) = sx % (8 * w))
    (hy : sy' % (8 * h) = sy % (8 * h)) : b.scroll sx' sy' = b.scroll sx sy := by
  unfold PeriGfxBgnd.scroll
  rw [hb.width, hb.height, hx, hy]

/-- **The wraparounds agree.** Let `BGNDINIT` set up a background on a map in the guest's RAM and
    `BGNDSCROLL` scroll it, other registers changing in between as they may. Then every pixel of every line
    shows the tile that `TILEMAPAT` reads for it, at the texel of the non-negative remainders; every line is
    drawn in full if the graphics are there; and arguments congruent modulo the map's size in pixels leave
    the same registers, and give the same pictures. -/
theorem bgndscroll_agrees_tilemapat (hm : TilemapAt r.guest tm w h) (hw : 1 ≤ w) (hh : 1 ≤ h)
    (g₀ : PeriGfx) (i : Fin 3) (gfx : UInt32) (transcol : Int) :
    ∃ g₁, bgndinit g₀ r.guest i tm gfx transcol = .ok (.ok, g₁) ∧
      ∀ g : PeriGfx, g.bgnd i = g₁.bgnd i → ∀ sx sy : Int,
        ∃ g₂, bgndscroll g i sx sy = .ok (.ok, g₂) ∧
          (∀ fuel s y out fetched, 0 ≤ y → y < 240 →
            gfxRenderBgndScanline fuel s y (g₂.bgnd i) r.mem = .ok (out, fetched) →
            ∀ (x : Nat) f, fetched[x]? = some f →
              PixelShows r tm gfx (UInt32.ofNat (u32 transcol)) sx sy y s out x f) ∧
          (gfx ≠ 0 → TilesInRam r.mem gfx.toNat tm w h → ∀ fuel s y, 4294967296 ≤ fuel →
            ∃ out fetched, fetched.length = 320 ∧
              gfxRenderBgndScanline fuel s y (g₂.bgnd i) r.mem = .ok (out, fetched)) ∧
          ∀ sx' sy' : Int, sx' % (8 * w) = sx % (8 * w) → sy' % (8 * h) = sy % (8 * h) →
            bgndscroll g i sx' sy' = .ok (.ok, g₂) ∧ bgndscroll g₂ i sx' sy' = .ok (.ok, g₂) ∧
              ∀ g₃, bgndscroll g i sx' sy' = .ok (.ok, g₃) → ∀ fuel s y mem,
                gfxRenderBgndScanline fuel s y (g₃.bgnd i) mem = gfxRenderBgndScanline fuel s y (g₂.bgnd i) mem := by
  obtain ⟨g₁, hinit, hshows, hgfx, htrans⟩ := bgndinit_shows hm g₀ i gfx transcol
  refine ⟨g₁, hinit, ?_⟩
  intro g hg sx sy
  rw [← hg] at hshows hgfx htrans
  have hb := scrolledTo_scroll hshows hm hw hh sx sy
  refine ⟨_, bgndscroll_shows hshows hm hw hh sx sy, ?_, ?_, ?_⟩
  · intro fuel s y out fetched hy0 hy1 hr x f hx
    rw [PeriGfx.setBgnd_bgnd_self] at hr
    rw [← hgfx, ← htrans]
    exact scrolled_fetch hb hm hw hh hy0 hy1 hr hx
  · intro hne htiles fuel s y hfuel
    rw [← hgfx] at hne htiles
    obtain ⟨fetched, hlen, hr⟩ := showsMap_renders hb.toShowsMap (hm.mono r.guest_sub) hw hh hne htiles hfuel s y
    rw [PeriGfx.setBgnd_bgnd_self]
    exact ⟨_, fetched, hlen, hr⟩
  -- `BGNDSCROLL` overwrites both scroll registers, so scrolling twice is scrolling once
  · intro sx' sy' hx hy
    have hcong := scroll_congr hshows hx hy
    have hsame : bgndscroll g i sx' sy' = .ok (.ok, g.setBgnd i ((g.bgnd i).scroll sx sy)) := by
      rw [bgndscroll_shows hshows hm hw hh, hcong]
    refine ⟨hsame, ?_, ?_⟩
    · rw [bgndscroll_shows (by rw [PeriGfx.setBgnd_bgnd_self]; exact hb.toShowsMap) hm hw hh,
        PeriGfx.setBgnd_bgnd_self, PeriGfx.setBgnd_setBgnd, PeriGfxBgnd.scroll_scroll, hcong]
    · intro g₃ h₃ fuel s y mem
      rw [hsame] at h₃
      cases h₃
      rfl

/-- RAM full of ones holds a map of `257 × 257` cells at the bottom of the guest's memory. -/
theorem tilemapAt_ones : TilemapAt (Ram.fill 1).guest 4096 257 257 :=
  ⟨by decide, by decide, by decide⟩

/-- Its tiles, with the graphics at 1000000. -/
theorem tilesInRam_ones : TilesInRam (Ram.fill 1).mem 1000000 4096 257 257 := by
  intro k _ t ht
  have hlt := u16At_lt ht
  unfold machRamSize
  omega

/-- The map of ones, scrolled by a negative amount and by one that wraps around: the line is drawn with texels of
    colour 1. -/
theorem bgndscroll_agrees_tilemapat_ones :
    ∃ g₁, bgndinit periGfxInit (Ram.fill 1).guest (1 : Fin 3) 4096 1000000 0 = .ok (.ok, g₁) ∧
      ∃ g₂, bgndscroll g₁ (1 : Fin 3) (-5) 3000 = .ok (.ok, g₂) ∧ ∃ out fetched,
        gfxRenderBgndScanline 4294967296 (fun _ => 7) 9 (g₂.bgnd 1) (Ram.fill 1).mem = .ok (out, fetched) ∧
          ∀ x : Fin 320, ∃ f, fetched[(x : Nat)]? = some f ∧
            PixelShows (Ram.fill 1) 4096 1000000 0 (-5) 3000 9 (fun _ => 7) out x f ∧ out x = 1 := by
  obtain ⟨g₁, hinit, hscroll⟩ := bgndscroll_agrees_tilemapat tilemapAt_ones (by decide) (by decide)
    periGfxInit 1 1000000 0
  obtain ⟨g₂, h₂, hshows, hdrawn, -⟩ := hscroll g₁ rfl (-5) 3000
  obtain ⟨out, fetched, hlen, hr⟩ := hdrawn (by decide) tilesInRam_ones 4294967296 (fun _ => 7) 9 (le_refl _)
  refine ⟨g₁, hinit, g₂, h₂, out, fetched, hr, fun x => ?_⟩
  have hx := List.getElem?_eq_getElem (l := fetched) (i := x) (by rw [hlen]; exact x.isLt)
  have hpixel := hshows _ _ 9 out fetched (by decide) (by decide) hr x _ hx
  refine ⟨_, hx, hpixel, ?_⟩
  obtain ⟨hlt, hout⟩ := hpixel.pixel
  rw [hout, Ram.fill_value (u8At_eq_ok.mp hpixel.texel)]
  rfl

end HadBadge
