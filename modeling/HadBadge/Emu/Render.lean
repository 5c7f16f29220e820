import HadBadge.Emu.PeriGfx
import HadBadge.Lib.Paint

/-!
# `Emu.Render`: the scanline renderers

The four renderers of `emu/peri_gfx.c`, `peri_gfx_render_scanline` and the part of `emu/sdl_glue.c` that
receives its pixels. Each takes the local 320-byte buffer as it finds it, uninitialised contents included,
and stops with a `Fault` at the first access outside `mem` or outside the buffer.

`fuel` bounds each `while` loop of a call; the `for` loops need none. `fetched` is ghost output of the
background renderer: what it read for each pixel, in pixel order.
-/

namespace HadBadge

open Lib

/-- `uint8_t scanline[320]`; `FBW` is 320 in `peri_gfx.c` and in `sdl_glue.c`. -/
abbrev Scanline := Fin 320 → UInt8

/-- `scanline[i] = c`. -/
def setPixel (s : Scanline) (i : Int) (c : UInt8) : Except Fault Scanline :=
  if h : 0 ≤ i ∧ i < 320 then .ok (Function.update s ⟨i.toNat, by omega⟩ c) else .error (.oob i)

/-- `if (col!=transcol) scanline[i]=col;`. -/
def drawTexel (s : Scanline) (i : Int) (transcol : UInt32) (col : UInt8) : Except Fault Scanline :=
  if col.toNat ≠ transcol.toNat then setPixel s i col else .ok s

/-! ## Framebuffer -/

/-- The loop variables of `gfx_render_fb_scanline`. -/
structure FbLoop where
  xpos : Int
  scanline : Scanline

/-- One iteration: `scanline[i]=p[xpos++]; if (xpos>=g->fb_pitch) xpos=0;`. -/
def fbStep (g : PeriGfx) (mem : Mem) (p : Int) (i : Nat) (s : FbLoop) : Except Fault FbLoop := do
  let col ← u8At mem (p + s.xpos)
  let scanline ← setPixel s.scanline i col
  let xpos := i32 (s.xpos + 1)
  return ⟨if g.fbPitch.toNat ≤ u32 xpos then 0 else xpos, scanline⟩

/-- `gfx_render_fb_scanline`. -/
def gfxRenderFbScanline (scanline : Scanline) (ypos : Int) (g : PeriGfx) (mem : Mem) :
    Except Fault Scanline :=
  if g.fbBase = 0 then .ok scanline
  else do
    let ypos := i32 (ypos + g.fbScrolly.toNat)
    let ypos := if g.fbHeight.toNat ≤ u32 ypos then i32 (u32 ypos - g.fbHeight.toNat) else ypos
    let p := u32 (g.fbBase.toNat + u32 ypos * g.fbPitch.toNat)
    let s ← forFrom (fbStep g mem p) 320 0 ⟨i32 g.fbScrollx.toNat, scanline⟩
    return s.scanline

/-! ## Backgrounds -/

/-- `b->height*8` and `b->width*8`, `uint32_t` products. -/
def timesEight (v : UInt32) : Nat := u32 (v.toNat * 8)

/-- `while (pos>=size) pos-=size;` for an `int` against a `uint32_t`. -/
def wrapLoop (fuel size : Nat) (pos : Int) : Except Fault Int :=
  whileFuel .fuel (fun pos => size ≤ u32 pos) (fun pos => i32 (u32 pos - size)) fuel pos

/-- What one iteration of the background loop reads. -/
structure TileFetch where
  /-- index of the map cell -/
  tileidx : Int
  /-- the tile number in it -/
  tileno : Nat
  /-- column and row of the texel in the tile -/
  tx : Int
  ty : Int
  /-- index in `mem` of the texel -/
  addr : Int
  /-- its colour -/
  col : UInt8
  deriving DecidableEq, Repr, Inhabited

/-- The reads of one iteration of `gfx_render_bgnd_scanline` at `(xpos, ypos)`. -/
def tileFetch (b : PeriGfxBgnd) (mem : Mem) (ypos xpos : Int) : Except Fault TileFetch := do
  let tileidx := i32 (u32 (ypos.tdiv 8) * b.width.toNat + u32 (xpos.tdiv 8))
  let tileno ← u16At mem (b.mapAddr.toNat + 2 * tileidx)
  let tile := u32 (b.gfxAddr.toNat + 64 * tileno)
  let addr := tile + (ypos.tmod 8 * 8 + xpos.tmod 8)
  let col ← u8At mem addr
  return ⟨tileidx, tileno, xpos.tmod 8, ypos.tmod 8, addr, col⟩

/-- `xpos++; if (xpos>=b->width*8) xpos-=b->width*8;`. -/
def bgndNextX (b : PeriGfxBgnd) (xpos : Int) : Int :=
  let xpos := i32 (xpos + 1)
  if timesEight b.width ≤ u32 xpos then i32 (u32 xpos - timesEight b.width) else xpos

/-- The loop variables of `gfx_render_bgnd_scanline`. -/
structure BgndLoop where
  xpos : Int
  scanline : Scanline
  fetched : List TileFetch

/-- One iteration of the background loop. -/
def bgndStep (b : PeriGfxBgnd) (mem : Mem) (ypos : Int) (i : Nat) (s : BgndLoop) :
    Except Fault BgndLoop := do
  let f ← tileFetch b mem ypos s.xpos
  let scanline ← drawTexel s.scanline i b.transcol f.col
  return ⟨bgndNextX b s.xpos, scanline, s.fetched ++ [f]⟩

/-- `gfx_render_bgnd_scanline`. -/
def gfxRenderBgndScanline (fuel : Nat) (scanline : Scanline) (ypos : Int) (b : PeriGfxBgnd) (mem : Mem) :
    Except Fault (Scanline × List TileFetch) :=
  if b.gfxAddr = 0 ∨ b.mapAddr = 0 then .ok (scanline, [])
  else if b.height = 0 ∨ b.width = 0 then .ok (scanline, [])
  else do
    let ypos ← wrapLoop fuel (timesEight b.height) (i32 (ypos + b.scrolly.toNat))
    let xpos ← wrapLoop fuel (timesEight b.width) (i32 b.scrollx.toNat)
    let s ← forFrom (bgndStep b mem ypos) 320 0 ⟨xpos, scanline, []⟩
    return (s.scanline, s.fetched)

/-! ## Sprites -/

/-- `sprite->xpos`, `sprite->ypos` and `sprite->tile` of the `mach_sprite_t` at `&mem[a]`. -/
def spriteXpos (mem : Mem) (a : Int) : Except Fault Int := do return i16 (← u16At mem a)
def spriteYpos (mem : Mem) (a : Int) : Except Fault Int := do return i16 (← u16At mem (a + 2))
def spriteTile (mem : Mem) (a : Int) : Except Fault Nat := u16At mem (a + 4)

/-- One column of a sprite's row: the body of the `x` loop. -/
def spritePixel (g : PeriGfx) (mem : Mem) (gfx px : Int) (x : Nat) (scanline : Scanline) :
    Except Fault Scanline :=
  if 0 ≤ px + x ∧ px + x < 320 then do
    let col ← u8At mem (gfx + x)
    drawTexel scanline (px + x) g.spriteTranscol col
  else .ok scanline

/-- The row of the sprite at `&mem[a]` that falls on line `ypos`, if any. -/
def spriteRow (g : PeriGfx) (mem : Mem) (ypos : Int) (a : Int) (scanline : Scanline) :
    Except Fault Scanline := do
  let spY := ypos - (← spriteYpos mem a)
  if 0 ≤ spY ∧ spY < 8 then
    let gfx := g.spriteTileAddr.toNat + (← spriteTile mem a) * 64 + spY * 8
    let px ← spriteXpos mem a
    forFrom (spritePixel g mem gfx px) 8 0 scanline
  else .ok scanline

/-- The list-walking loop of `gfx_render_sprites`. `spriteLimit` counts down past every entry; reaching zero
    prints a warning (`warned`) and does nothing else. -/
def spriteLoop (g : PeriGfx) (mem : Mem) (ypos : Int) :
    Nat → Int → Int → Bool → Scanline → Except Fault (Scanline × Bool)
  | 0,      _, _,           _,      _        => .error .fuel
  | fuel+1, a, spriteLimit, warned, scanline => do
    if (← spriteYpos mem a) = spriteListEndMarker then
      return (scanline, warned)
    let scanline ← spriteRow g mem ypos a scanline
    let spriteLimit := i32 (spriteLimit - 1)
    spriteLoop g mem ypos fuel (a + 8) spriteLimit (warned || spriteLimit == 0) scanline

/-- `gfx_render_sprites`. -/
def gfxRenderSprites (fuel : Nat) (scanline : Scanline) (ypos : Int) (g : PeriGfx) (mem : Mem) :
    Except Fault Scanline :=
  if g.spriteTileAddr = 0 ∨ g.spriteListAddr = 0 then .ok scanline
  else do
    let (scanline, _) ← spriteLoop g mem ypos fuel g.spriteListAddr.toNat 200 false scanline
    return scanline

/-! ## `sdl_glue.c` -/

/-- `convpix`: a colour byte as an `0xRRGGBB` pixel. -/
def convpix (col : UInt8) : UInt32 :=
  let ret : UInt32 := 0
  let ret := if col &&& 0x80 ≠ 0 then ret ||| 0x800000 else ret
  let ret := if col &&& 0x40 ≠ 0 then ret ||| 0x400000 else ret
  let ret := if col &&& 0x20 ≠ 0 then ret ||| 0x200000 else ret
  let ret := if col &&& 0x10 ≠ 0 then ret ||| 0x008000 else ret
  let ret := if col &&& 0x08 ≠ 0 then ret ||| 0x004000 else ret
  let ret := if col &&& 0x04 ≠ 0 then ret ||| 0x002000 else ret
  let ret := if col &&& 0x02 ≠ 0 then ret ||| 0x000080 else ret
  if col &&& 0x01 ≠ 0 then ret ||| 0x000040 else ret

/-- `render_surf`: its pixels, `pitch` bytes to a row. -/
structure Surface where
  pitch : Nat
  pixels : Int → UInt32

/-- `render_surf` as `gfx_init` creates it: 320 pixels of four bytes to a row. -/
def gfxInitSurf : Surface := ⟨1280, fun _ => 0⟩

/-- `gfx_clear`: the whole surface black. -/
def gfxClear (surf : Surface) : Surface := { surf with pixels := fun _ => 0 }

/-- `pixels[ypos*(render_surf->pitch/4)+x]`. -/
def Surface.pixel (surf : Surface) (ypos : Int) (x : Fin 320) : UInt32 :=
  surf.pixels (ypos * (surf.pitch / 4 : Nat) + (x : Nat))

def Surface.setPixel (surf : Surface) (ypos : Int) (x : Fin 320) (c : UInt32) : Surface :=
  { surf with pixels := Function.update surf.pixels (ypos * (surf.pitch / 4 : Nat) + (x : Nat)) c }

/-- `gfx_render_fbmem_scanline`. -/
def gfxRenderFbmemScanline (surf : Surface) (ypos : Int) (scanline : Scanline) : Surface :=
  (List.finRange 320).foldl (fun surf x => surf.setPixel ypos x (convpix (scanline x))) surf

theorem Surface.pixel_setPixel (surf : Surface) (ypos : Int) (x a : Fin 320) (c : UInt32) :
    (surf.setPixel ypos a c).pixel ypos x = if x = a then c else surf.pixel ypos x := by
  unfold Surface.pixel Surface.setPixel
  by_cases hxa : x = a
  · subst hxa
    rw [if_pos rfl]
    exact Function.update_self _ _ _
  · rw [if_neg hxa]
    exact Function.update_of_ne (fun he => hxa (Fin.ext (by dsimp only at he; omega))) _ _

/-- The loop of `gfx_render_fbmem_scanline` over the columns `l` sets the pixels of those columns. -/
theorem gfxRenderFbmem_fold (ypos : Int) (scanline : Scanline) (l : List (Fin 320)) (surf : Surface)
    (x : Fin 320) :
    (l.foldl (fun surf x => surf.setPixel ypos x (convpix (scanline x))) surf).pixel ypos x
      = if x ∈ l then convpix (scanline x) else surf.pixel ypos x := by
  -- on the columns; a column set early is not touched by the later ones
  induction l generalizing surf with
  | nil => simp
  | cons a l ih =>
      rw [List.foldl_cons, ih, Surface.pixel_setPixel]
      by_cases hxl : x ∈ l
      · rw [if_pos hxl, if_pos (List.mem_cons_of_mem a hxl)]
      · by_cases hxa : x = a
        · subst hxa
          simp
        · simp [hxl, hxa]

/-- **Column `x` of a line on screen.** -/
theorem gfxRenderFbmemScanline_pixel (surf : Surface) (ypos : Int) (scanline : Scanline) (x : Fin 320) :
    (gfxRenderFbmemScanline surf ypos scanline).pixel ypos x = convpix (scanline x) := by
  unfold gfxRenderFbmemScanline
  rw [gfxRenderFbmem_fold, if_pos (List.mem_finRange x)]

/-! ## `peri_gfx_render_scanline` -/

/-- What one call leaves behind: the pixels handed to `gfx_render_fbmem_scanline`, the surface and the
    registers. -/
structure Rendered where
  emitted : Scanline
  surf : Surface
  g : PeriGfx

/-- The `for` loop over the backgrounds. -/
def renderBgnds (fuel : Nat) (ypos : Int) (g : PeriGfx) (mem : Mem) (scanline : Scanline) :
    Except Fault Scanline :=
  forFrom (fun i scanline => do
    let (scanline, _) ← gfxRenderBgndScanline fuel scanline ypos (g.bgnd (bgndFin i)) mem
    return scanline) gfxBgndCount 0 scanline

/-- The layers of `peri_gfx_render_scanline`, drawn over the buffer as it was allocated. -/
def renderLayers (fuel : Nat) (ypos : Int) (g : PeriGfx) (mem : Mem) (scanline : Scanline) :
    Except Fault Scanline := do
  let scanline ← gfxRenderFbScanline scanline ypos g mem
  let scanline ← renderBgnds fuel ypos g mem scanline
  gfxRenderSprites fuel scanline ypos g mem

/-- `peri_gfx_render_scanline`. `scanline` is what the stack held where the local buffer lies; `gfx_flip`
    shows the surface and changes nothing here. -/
def periGfxRenderScanline (fuel : Nat) (scanline : Scanline) (surf : Surface) (ypos : Int) (g : PeriGfx)
    (mem : Mem) : Except Fault Rendered := do
  let surf := if ypos = 0 then gfxClear surf else surf
  let scanline ← renderLayers fuel ypos g mem scanline
  let surf := gfxRenderFbmemScanline surf ypos scanline
  return ⟨scanline, surf, { g with lastScanline := ypos }⟩

/-- Of the registers, a rendered line only changes the scanline counter. -/
theorem periGfxRenderScanline_g {fuel : Nat} {scanline : Scanline} {surf : Surface} {ypos : Int} {g : PeriGfx}
    {mem : Mem} {o : Rendered} (h : periGfxRenderScanline fuel scanline surf ypos g mem = .ok o) :
    o.g = { g with lastScanline := ypos } := by
  obtain ⟨s, -, ho⟩ := bind_eq_ok.mp h
  cases ho
  rfl

end HadBadge
