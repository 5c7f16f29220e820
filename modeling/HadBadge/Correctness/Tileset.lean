import HadBadge.Emu.Tiles
import HadBadge.Emu.TilesetLoader

/-!
# `Correctness.Tileset`: from an image to the screen

The converter linearises an image tile by tile through a moving pointer and packs its colours into bytes; the
renderer finds a pixel again by index arithmetic and unpacks the byte. Over the identity map the two are
inverse to each other.

## Contents
- **Colours.** `convpix` after `conv_to_8bit` cuts each channel (`convpix_convTo8bit`).
- **Setup.** `GdReads`, what gd is assumed to do; `ShowsTileset`, a background with an identity map, unscrolled, opaque
  and with nothing above it.
- **Main result.** `image_on_screen`.
-/

namespace HadBadge

open Lib

/-! ## Colours -/

/-- Red and green cut to their top three bits, blue to its top two, as a pixel of the screen. -/
def truncColor (r g b : UInt8) : UInt32 :=
  (r &&& 0xE0).toUInt32 <<< 16 ||| (g &&& 0xE0).toUInt32 <<< 8 ||| (b &&& 0xC0).toUInt32

theorem top3 : ∀ n < 256, ∃ i : Fin 8, UInt8.ofNat n &&& 0xE0 = UInt8.ofNat (32 * i) := by decide +kernel

theorem top2 : ∀ n < 256, ∃ i : Fin 4, UInt8.ofNat n &&& 0xC0 = UInt8.ofNat (64 * i) := by decide +kernel

theorem convpix_cut : ∀ i j : Fin 8, ∀ k : Fin 4,
    convpix (convTo8bit (UInt8.ofNat (32 * i)) (UInt8.ofNat (32 * j)) (UInt8.ofNat (64 * k))) =
      truncColor (UInt8.ofNat (32 * i)) (UInt8.ofNat (32 * j)) (UInt8.ofNat (64 * k)) := by
  decide +kernel

/-- Only the cut channels matter to either function. -/
theorem convTo8bit_cut (r g b : UInt8) :
    convTo8bit (r &&& 0xE0) (g &&& 0xE0) (b &&& 0xC0) = convTo8bit r g b := by
  simp only [convTo8bit, UInt8.and_assoc]
  rfl

theorem truncColor_cut (r g b : UInt8) :
    truncColor (r &&& 0xE0) (g &&& 0xE0) (b &&& 0xC0) = truncColor r g b := by
  simp only [truncColor, UInt8.and_assoc]
  rfl

/-- **Packing a colour and unpacking it cuts its channels.** -/
theorem convpix_convTo8bit (r g b : UInt8) : convpix (convTo8bit r g b) = truncColor r g b := by
  -- both sides depend on the cut channels only, of which there are 8, 8 and 4
  obtain ⟨i, hi⟩ := top3 r.toNat r.toNat_lt
  obtain ⟨j, hj⟩ := top3 g.toNat g.toNat_lt
  obtain ⟨k, hk⟩ := top2 b.toNat b.toNat_lt
  rw [UInt8.ofNat_toNat] at hi hj hk
  rw [← convTo8bit_cut, ← truncColor_cut, hi, hj, hk]
  exact convpix_cut i j k

/-! ## Setup -/

/-- A colour of an RGB image. -/
structure Rgb where
  red : UInt8
  green : UInt8
  blue : UInt8
  deriving DecidableEq, Repr

/-- gd has the image `px` of `W × H` pixels as `im`. -/
structure GdReads (gd : Gd) (im : gd.Image) (W H : Nat) (px : Nat → Nat → Rgb) : Prop where
  sx : gd.imageSX im = W
  sy : gd.imageSY im = H
  red : ∀ x < W, ∀ y < H, gd.trueColorGetRed (gd.imageGetTrueColorPixel im x y) = (px x y).red
  green : ∀ x < W, ∀ y < H, gd.trueColorGetGreen (gd.imageGetTrueColorPixel im x y) = (px x y).green
  blue : ∀ x < W, ∀ y < H, gd.trueColorGetBlue (gd.imageGetTrueColorPixel im x y) = (px x y).blue

/-- Background `i` shows `w × h` tiles at `gfx` through the identity map at `tm`, unscrolled and opaque, with
    nothing drawn above it. -/
structure ShowsTileset (mem : Mem) (g : PeriGfx) (i : Fin 3) (tm gfx w h : Nat) : Prop where
  shows : (g.bgnd i).ShowsMap tm w h
  map : TilemapAt mem tm w h
  identity : ∀ k < w * h, u16At mem (tm + 4 + 2 * (k : Int)) = .ok k
  gfxAddr : (g.bgnd i).gfxAddr.toNat = gfx
  gfx_ne : gfx ≠ 0
  scrollx : (g.bgnd i).scrollx = 0
  scrolly : (g.bgnd i).scrolly = 0
  drawn : ∀ k < 64 * (w * h), ∀ c, mem (gfx + (k : Int)) = some c → c.toNat ≠ (g.bgnd i).transcol.toNat
  above : ∀ j, i < j → ¬ (g.bgnd j).Active
  sprites : ¬ SpritesActive g

variable {mem : Mem} {g : PeriGfx} {i : Fin 3} {tm gfx w h : Nat}

theorem ShowsTileset.active (hs : ShowsTileset mem g i tm gfx w h) (hw : 1 ≤ w) (hh : 1 ≤ h) :
    (g.bgnd i).Active := by
  have hne {v : UInt32} (hv : 0 < v.toNat) : v ≠ 0 := by rintro rfl; exact absurd hv (by decide)
  refine ⟨hne ?_, hne ?_, hne ?_, hne ?_⟩
  · rw [hs.gfxAddr]; exact Nat.pos_of_ne_zero hs.gfx_ne
  · rw [hs.shows.mapAddr]; omega
  · rw [hs.shows.height]; exact hh
  · rw [hs.shows.width]; exact hw

/-- **Pixel `(x, y)` of the background is the texel that the identity map puts there.** -/
theorem ShowsTileset.bgndLayer (hs : ShowsTileset mem g i tm gfx w h) (hsize : gfx + 64 * (w * h) ≤ machRamSize)
    {x y : Nat} {p : Fin 320} (hp : (p : Nat) = x) (hx : x < 8 * w) (hy : y < 8 * h) {c : UInt8}
    (hc : mem (gfx + (texelIdx w (x / 8) (y / 8) (y % 8) (x % 8) : Int)) = some c) :
    bgndLayer (g.bgnd i) mem y p = some c := by
  have hw' := hs.map.width_lt
  have hh' := hs.map.height_lt
  have hcell := cellAt_lt hs.shows hx hy
  have hcells := hs.map.cells_lt
  simp only [machRamSize] at hsize
  have hX : torusX (g.bgnd i) p = x := by
    unfold torusX
    rw [hs.scrollx, hs.shows.width, hp]
    exact (congrArg (· % (8 * w)) (Nat.zero_add x)).trans (Nat.mod_eq_of_lt hx)
  have hY : torusY (g.bgnd i) y = y := by
    unfold torusY
    rw [hs.scrolly, hs.shows.height, show ((y : Int) + ((0 : UInt32).toNat : Int)) = (y : Int) from Int.add_zero _,
      u32_natCast]
    rw [Nat.mod_eq_of_lt (a := y) (by omega), Nat.mod_eq_of_lt hy]
  have haddr : (g.bgnd i).texelAddr x y ((g.bgnd i).cellAt x y)
      = gfx + (texelIdx w (x / 8) (y / 8) (y % 8) (x % 8) : Int) := by
    unfold PeriGfxBgnd.texelAddr texelIdx
    rw [hs.gfxAddr, u32_of_range (by omega) (by omega), PeriGfxBgnd.cellAt, hs.shows.width]
    push_cast
    ring
  -- the identity map: the cell number is the tile number
  have hfetch : tileFetch (g.bgnd i) mem y x
      = .ok ((g.bgnd i).cellFetch x y ((g.bgnd i).cellAt x y) c) :=
    (tileFetch_cell hs.shows hs.map hx hy).mpr
      ⟨_, hs.identity _ hcell, c, u8At_eq_ok.mpr (haddr ▸ hc), rfl⟩
  have hidx : texelIdx w (x / 8) (y / 8) (y % 8) (x % 8) < 64 * (w * h) := by
    rw [PeriGfxBgnd.cellAt, hs.shows.width] at hcell
    unfold texelIdx; omega
  have hdrawn := hs.drawn _ hidx c hc
  unfold HadBadge.bgndLayer texelLayer
  rw [if_pos (hs.active (by omega) (by omega))]
  rw [bgndX_eq (by rw [hs.shows.width]; omega) (by rw [hs.shows.width]; omega),
    bgndY_eq (by rw [hs.shows.height]; omega) (by rw [hs.shows.height]; omega), hX, hY, hfetch]
  exact if_pos hdrawn

/-- **On screen** it is that texel unpacked, whatever is drawn below. -/
theorem ShowsTileset.pixel (hs : ShowsTileset mem g i tm gfx w h) (hsize : gfx + 64 * (w * h) ≤ machRamSize)
    {fuel : Nat} {s : Scanline} {surf : Surface} {x y : Nat} {o : Rendered}
    (ho : periGfxRenderScanline fuel s surf y g mem = .ok o) {p : Fin 320} (hp : (p : Nat) = x)
    (hx : x < 8 * w) (hy : y < 8 * h) {c : UInt8}
    (hc : mem (gfx + (texelIdx w (x / 8) (y / 8) (y % 8) (x % 8) : Int)) = some c) :
    o.surf.pixel y p = convpix c := by
  obtain ⟨out, hout, ho'⟩ := bind_eq_ok.mp ho
  obtain ⟨n, hn, hpaint⟩ := renderLayers_paints hout
  cases ho'
  have hpaint' : out = (sceneLayer g mem y n).paint s := Except.ok.inj (hout.symm.trans (hpaint s))
  -- the backgrounds above are off, and this one is opaque here: what is below does not matter
  have hbgnd : Layer.stack (fun j => HadBadge.bgndLayer (g.bgnd (bgndFin j)) mem y) gfxBgndCount p = some c := by
    refine Layer.stack_of_highest (i := (i : Nat)) i.isLt ?_ ?_
    · rw [bgndFin_natCast]
      exact hs.bgndLayer hsize hp hx hy hc
    · intro j hij hj
      have hfin : bgndFin j = ⟨j, hj⟩ := bgndFin_natCast ⟨j, hj⟩
      rw [hfin, HadBadge.bgndLayer, if_neg (hs.above ⟨j, hj⟩ hij)]
      rfl
  have hscene : sceneLayer g mem y n p = some c := by
    simp only [sceneLayer, spritesLayer, hs.sprites, if_false, Layer.onTop, Layer.clear, hbgnd]
    rfl
  rw [gfxRenderFbmemScanline_pixel, hpaint', Layer.paint_of_some hscene]

/-- The tiles of the identity map are in RAM when the tileset is. -/
theorem ShowsTileset.tilesInRam (hs : ShowsTileset mem g i tm gfx w h) (hsize : gfx + 64 * (w * h) ≤ machRamSize) :
    TilesInRam mem (g.bgnd i).gfxAddr.toNat tm w h := by
  intro k hk t ht
  rw [hs.identity k hk] at ht
  cases ht
  rw [hs.gfxAddr]
  omega

/-- With the framebuffer and the other backgrounds off, every line is rendered. -/
theorem ShowsTileset.renders {r : Ram} (hs : ShowsTileset r.mem g i tm gfx w h) (hw : 1 ≤ w) (hh : 1 ≤ h)
    (hsize : gfx + 64 * (w * h) ≤ machRamSize) (hfb : g.fbBase = 0) (hoff : ∀ j, j ≠ i → ¬ (g.bgnd j).Active)
    {fuel : Nat} (hfuel : 4294967296 ≤ fuel) (s : Scanline) (surf : Surface) (y : Int) :
    ∃ o, periGfxRenderScanline fuel s surf y g r.mem = .ok o := by
  have hline (j : Fin 3) (s : Scanline) :
      ∃ rs, gfxRenderBgndScanline fuel s y (g.bgnd j) r.mem = .ok rs := by
    by_cases hj : j = i
    · subst hj
      have hne : (g.bgnd j).gfxAddr ≠ 0 := (hs.active hw hh).1
      obtain ⟨fetched, -, hr⟩ := showsMap_renders hs.shows hs.map hw hh hne (hs.tilesInRam hsize) hfuel s y
      exact ⟨_, hr⟩
    · exact ⟨_, bgnd_inactive (hoff j hj)⟩
  -- the loop over the backgrounds needs no invariant, only that no step fails
  have hbgnds : ∃ s', renderBgnds fuel y g r.mem s = .ok s' ∧ True := by
    refine forFrom_total (fun _ (_ : Scanline) => True) gfxBgndCount 0 s ?_ trivial
    intro j t _ _ _
    obtain ⟨rs, hrs⟩ := hline (bgndFin j) t
    exact ⟨rs.1, by rw [hrs]; rfl, trivial⟩
  obtain ⟨s', hs', -⟩ := hbgnds
  have hspr : gfxRenderSprites fuel s' y g r.mem = .ok s' := by
    have := hs.sprites
    unfold SpritesActive at this
    unfold gfxRenderSprites
    rw [if_pos (by tauto)]
  simp only [periGfxRenderScanline, renderLayers, gfxRenderFbScanline, hfb, if_true, ok_bind, hs', hspr]
  exact ⟨_, rfl⟩

/-! ## The round trip -/

variable {gd : Gd} {name : List UInt8} {f : gd.File} {im : gd.Image} {W H : Nat} {px : Nat → Nat → Rgb}

theorem tdiv_eight (n : Nat) : ((n : Int)).tdiv 8 = ((n / 8 : Nat) : Int) := by
  simp [Int.tdiv_eq_ediv]

/-- The converter packs the colours of the image. -/
theorem GdReads.convPixel (hgd : GdReads gd im W H px) {x y : Nat} (hx : x < W) (hy : y < H) :
    convPixel gd im x y = convTo8bit (px x y).red (px x y).green (px x y).blue := by
  simp only [HadBadge.convPixel, hgd.red x hx y hy, hgd.green x hx y hy, hgd.blue x hx y hy]

/-- The texel that the converter writes for pixel `(x, y)`. -/
theorem GdReads.tileTexel (hgd : GdReads gd im W H px) {x y : Nat} (hx : x < 8 * (W / 8))
    (hy : y < 8 * (H / 8)) :
    tileTexel gd im (W / 8) (texelIdx (W / 8) (x / 8) (y / 8) (y % 8) (x % 8))
      = convTo8bit (px x y).red (px x y).green (px x y).blue := by
  rw [tileTexel_idx (by omega) (by omega) (by omega), ← hgd.convPixel (x := x) (y := y) (by omega) (by omega)]
  congr 1 <;> omega

/-- **The image pipeline is a round trip.** Let gd read an RGB image of at least `8 × 8` pixels. Then the
    converter writes exactly the number of bytes it returns, which the size query returns too; and when those
    bytes are shown as tile graphics through the identity map, unscrolled, with no texel transparent and
    nothing above, each rendered line puts the image's pixels on screen, channels cut to three, three and two
    bits. Such lines are rendered whenever nothing else is drawn. -/
theorem image_on_screen (hf : gd.fopen name = some f) (him : gd.imageCreateFromPng f = some im)
    (hgd : GdReads gd im W H px) (hW : 8 ≤ W) (hH : 8 ≤ H) (hsize : W / 8 * (H / 8) ≤ 65535) {r₀ : Ram}
    (hfit : gfx + 64 * (W / 8 * (H / 8)) ≤ machRamSize) :
    ∃ m₁, tileLoaderGenTileset gd name none r₀.mem = .ok (((64 * (W / 8 * (H / 8)) : Nat) : Int), r₀.mem) ∧
      tileLoaderGenTileset gd name (some gfx) r₀.mem = .ok (((64 * (W / 8 * (H / 8)) : Nat) : Int), m₁) ∧
      (∀ i : Int, i < gfx ∨ ((gfx + 64 * (W / 8 * (H / 8)) : Nat) : Int) ≤ i → m₁ i = r₀.mem i) ∧
      (∀ k < 64 * (W / 8 * (H / 8)), m₁ (gfx + (k : Int)) = some (tileTexel gd im (W / 8) k)) ∧
      ∀ (r : Ram) (g : PeriGfx) (i : Fin 3) (tm : Nat),
        (∀ k < 64 * (W / 8 * (H / 8)), r.mem (gfx + (k : Int)) = m₁ (gfx + (k : Int))) →
        ShowsTileset r.mem g i tm gfx (W / 8) (H / 8) →
        (∀ fuel s surf (y : Nat) o, periGfxRenderScanline fuel s surf y g r.mem = .ok o →
          y < min 240 (8 * (H / 8)) → ∀ x : Fin 320, (x : Nat) < 8 * (W / 8) →
            o.surf.pixel y x = truncColor (px x y).red (px x y).green (px x y).blue) ∧
        (g.fbBase = 0 → (∀ j, j ≠ i → ¬ (g.bgnd j).Active) → ∀ fuel s surf y, 4294967296 ≤ fuel →
          ∃ o, periGfxRenderScanline fuel s surf y g r.mem = .ok o) := by
  have hmem : ∀ k < 64 * (W / 8 * (H / 8)), (r₀.mem ((gfx : Int) + k)).isSome := by
    intro k hk
    exact r₀.isSome_of_range (by omega) (by omega)
  have hw : (gd.imageSX im).tdiv 8 = ((W / 8 : Nat) : Int) := by rw [hgd.sx, tdiv_eight]
  have hh : (gd.imageSY im).tdiv 8 = ((H / 8 : Nat) : Int) := by rw [hgd.sy, tdiv_eight]
  obtain ⟨hquery, hwrite⟩ := genTileset_writes hf him hw hh hsize hmem
  refine ⟨_, hquery, hwrite, fun j hj => r₀.mem.overwrite_frame _ (by omega),
    fun k hk => r₀.mem.overwrite_at _ hk, ?_⟩
  intro r g i tm hsame hs
  refine ⟨?_, ?_⟩
  · intro fuel s surf y o ho hy x hx
    have hidx : texelIdx (W / 8) (x / 8) (y / 8) (y % 8) (x % 8) < 64 * (W / 8 * (H / 8)) := by
      have := cellIdx_lt (x := (x : Nat) / 8) (y := y / 8) (w := W / 8) (h := H / 8) (by omega) (by omega)
      unfold texelIdx; omega
    -- the renderer finds in RAM the texel that the converter wrote for this pixel
    have hc := (hsame _ hidx).trans (r₀.mem.overwrite_at _ hidx)
    rw [hs.pixel hfit ho rfl hx (by omega) hc, hgd.tileTexel hx (by omega), convpix_convTo8bit]
  · intro hfb hoff fuel s surf y hfuel
    exact hs.renders (by omega) (by omega) hfit hfb hoff hfuel s surf y

/-- An image of `16 × 16` pixels with a colour for each of them. -/
def gradient (x y : Nat) : Rgb := ⟨UInt8.ofNat (16 * x), UInt8.ofNat (16 * y), UInt8.ofNat (64 * x)⟩

/-- gd with that image; a pixel is the number of its position. -/
def gradientGd : Gd where
  File := Unit
  Image := Unit
  fopen := fun _ => some ()
  imageCreateFromPng := fun _ => some ()
  imageSX := fun _ => 16
  imageSY := fun _ => 16
  imageGetTrueColorPixel := fun _ x y => 16 * x + y
  trueColorGetRed := fun c => (gradient (c.toNat / 16) (c.toNat % 16)).red
  trueColorGetGreen := fun c => (gradient (c.toNat / 16) (c.toNat % 16)).green
  trueColorGetBlue := fun c => (gradient (c.toNat / 16) (c.toNat % 16)).blue

theorem gradientGd_reads : GdReads gradientGd () 16 16 gradient := by
  have hpos {x y : Nat} (hy : y < 16) :
      gradient ((16 * x + y : Int).toNat / 16) ((16 * x + y : Int).toNat % 16) = gradient x y := by
    congr 1 <;> omega
  refine ⟨rfl, rfl, ?_, ?_, ?_⟩
  · intro x _ y hy
    exact congrArg Rgb.red (hpos hy)
  · intro x _ y hy
    exact congrArg Rgb.green (hpos hy)
  · intro x _ y hy
    exact congrArg Rgb.blue (hpos hy)

/-- A `2 × 2` identity map at 8192. -/
def identityRam : Ram :=
  (((((Ram.fill 0).setByte 8192 2).setByte 8194 2).setByte 8198 1).setByte 8200 2).setByte 8202 3

theorem identityRam_cells : ∀ k : Nat, k < 4 → u16At identityRam.mem (8196 + 2 * (k : Int)) = .ok k := by decide

/-- Background 0 shows that map with the tile graphics at 4096, and 256 as the transparency colour. -/
def identityRegs : PeriGfx := periGfxInit.setBgnd ⟨0, Nat.zero_lt_succ 2⟩ ⟨8196, 4096, 2, 2, 0, 0, 256⟩

/-- The registers show whatever the tile graphics are. -/
theorem identity_shows {r : Ram} (hsame : ∀ i : Int, 8192 ≤ i → r.mem i = identityRam.mem i) :
    ShowsTileset r.mem identityRegs 0 8192 4096 2 2 := by
  have hmap (a : Int) (ha : 8192 ≤ a) : u16At r.mem a = u16At identityRam.mem a := by
    unfold u16At
    rw [Mem.load_congr (fun k _ => hsame _ (by omega))]
  refine ⟨⟨rfl, rfl, rfl⟩, ⟨(hmap 8192 (by decide)).trans (by decide), (hmap 8194 (by decide)).trans (by decide), by decide⟩,
    fun k hk => ?_, rfl, by decide, rfl, rfl, fun k _ c _ => ?_, by decide, by decide⟩
  · exact (hmap _ (by omega)).trans (identityRam_cells k hk)
  · have hlt := c.toNat_lt
    show c.toNat ≠ 256
    omega

/-- A line through the lower two tiles of the image. -/
theorem image_on_screen_gradient :
    ∃ m₁, tileLoaderGenTileset gradientGd [] (some 4096) identityRam.mem = .ok (256, m₁) ∧
      ∃ o, periGfxRenderScanline 4294967296 (fun _ => 7) gfxInitSurf 9 identityRegs m₁ = .ok o ∧
        (∀ x : Fin 320, (x : Nat) < 16 → o.surf.pixel 9 x =
          truncColor (UInt8.ofNat (16 * x)) (UInt8.ofNat (16 * 9)) (UInt8.ofNat (64 * x))) ∧
        o.surf.pixel 9 2 = 0x208080 ∧ o.surf.pixel 9 13 = 0xc08040 := by
  obtain ⟨m₁, -, hwrite, hframe, -, hscreen⟩ := @image_on_screen 4096 gradientGd [] () () 16 16 gradient rfl rfl
    gradientGd_reads (by decide) (by decide) (by decide) identityRam (by decide)
  let r : Ram := identityRam.ofDom m₁ (fun a => genTileset_dom hwrite a)
  have hshows : ShowsTileset r.mem identityRegs 0 8192 4096 2 2 :=
    identity_shows (fun i hi => hframe i (.inr (by omega)))
  obtain ⟨hpix, hok⟩ := hscreen r identityRegs 0 8192 (fun _ _ => rfl) hshows
  obtain ⟨o, ho⟩ := hok rfl (by decide) 4294967296 (fun _ => 7) gfxInitSurf 9 (le_refl _)
  have hline (x : Fin 320) (hx : (x : Nat) < 16) := hpix _ _ _ 9 o ho (by decide) x hx
  exact ⟨m₁, hwrite, o, ho, hline, (hline 2 (by decide)).trans (by decide), (hline 13 (by decide)).trans (by decide)⟩

end HadBadge
