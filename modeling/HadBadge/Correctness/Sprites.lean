import HadBadge.Emu.Bounds

/-!
# `Correctness.Sprites`: sprites in painter's order

Each entry of the sprite list shows an 8 × 8 tile; where entries overlap, the later one is in front, and the
texels of the transparency colour show what is behind. This module says it pixel by pixel: a pixel of the line
holds the texel of the last entry that shows one there.
-/

namespace HadBadge

open Lib

variable {r : Ram} {g : PeriGfx} {mem : Mem} {ypos : Int}

/-- The entry at `&mem[a]` shows the texel `c` at pixel `p`: the one at `(p - xpos, ypos - sprite->ypos)` of
    its tile, which is not the transparency colour. -/
def SpriteShows (g : PeriGfx) (mem : Mem) (ypos a : Int) (p : Fin 320) (c : UInt8) : Prop :=
  ∃ x y tile, spriteXpos mem a = .ok x ∧ spriteYpos mem a = .ok y ∧ spriteTile mem a = .ok tile ∧
    0 ≤ (p : Int) - x ∧ (p : Int) - x < 8 ∧ 0 ≤ ypos - y ∧ ypos - y < 8 ∧
    mem (g.spriteTileAddr.toNat + tile * 64 + (ypos - y) * 8 + ((p : Int) - x)) = some c ∧
    c.toNat ≠ g.spriteTranscol.toNat

/-- The tiles of the first `n` entries lie in RAM. -/
def SpriteTilesInRam (g : PeriGfx) (mem : Mem) (n : Nat) : Prop :=
  ∀ j < n, ∀ t, spriteTile mem (g.spriteListAddr.toNat + 8 * (j : Int)) = .ok t →
    g.spriteTileAddr.toNat + 64 * t + 64 ≤ machRamSize

/-- The entry at `&mem[a]` is hidden or has no pixel on the screen. -/
def SpriteOff (mem : Mem) (a : Int) : Prop :=
  ∃ x y, spriteXpos mem a = .ok x ∧ spriteYpos mem a = .ok y ∧
    (y = spriteHide ∨ x ≤ -8 ∨ 320 ≤ x ∨ y ≤ -8 ∨ 240 ≤ y)

/-- Pixel `p` after the list's first `n` entries were drawn on `s`. -/
def PainterPixel (g : PeriGfx) (mem : Mem) (ypos : Int) (n : Nat) (s : Scanline) (p : Fin 320) (c : UInt8) : Prop :=
  (∃ j < n, SpriteShows g mem ypos (g.spriteListAddr.toNat + 8 * (j : Int)) p c ∧
    ∀ k : Nat, j < k → k < n → ∀ c', ¬ SpriteShows g mem ypos (g.spriteListAddr.toNat + 8 * (k : Int)) p c') ∨
  ((∀ j < n, ∀ c', ¬ SpriteShows g mem ypos (g.spriteListAddr.toNat + 8 * (j : Int)) p c') ∧ c = s p)

/-! ## One entry -/

/-- **The row of an entry is what the entry shows.** -/
theorem spriteRowLayer_eq_some {a : Int} {p : Fin 320} {c : UInt8} :
    spriteRowLayer g mem ypos a p = some c ↔ SpriteShows g mem ypos a p c := spriteRowLayer_eq_some_iff

/-- An entry in RAM with its tile in RAM is drawn. -/
theorem spriteRow_paints {a : Int} (h0 : 0 ≤ a) (h1 : a + 6 ≤ machRamSize)
    (ht : ∀ t, spriteTile r.mem a = .ok t → g.spriteTileAddr.toNat + 64 * t + 64 ≤ machRamSize) :
    Paints (spriteRow g r.mem ypos a) (spriteRowLayer g r.mem ypos a) := by
  have hinside : RowInside g r.mem ypos a := by
    intro px y tile _ _ htile hy0 hy8 x hx _ _
    have hram := ht tile htile
    unfold RamIndex
    omega
  -- the row succeeds on one buffer, so it paints on all
  obtain ⟨s', hs'⟩ := (spriteRow_ok_iff h0 h1 (fun _ => 0)).mpr hinside
  exact spriteRow_uniform g r.mem ypos a _ _ hs'

/-- A hidden entry, or one off the screen, shows nothing. -/
theorem SpriteOff.shows {a : Int} (h : SpriteOff mem a) (h0 : 0 ≤ ypos) (h1 : ypos < 240) (p : Fin 320) :
    spriteRowLayer g mem ypos a p = none := by
  rw [Option.eq_none_iff_forall_ne_some]
  intro c hc
  obtain ⟨x, y, hx, hy, hoff⟩ := h
  obtain ⟨_, _, _, hx', hy', -, hp0, hp8, hy0, hy8, -⟩ := spriteRowLayer_eq_some.mp hc
  rw [hx] at hx'
  rw [hy] at hy'
  cases hx'
  cases hy'
  have hp := p.isLt
  simp only [spriteHide] at hoff
  omega

/-! ## The list -/

/-- **The sprite renderer in total form.** -/
theorem sprites_total (hact : SpritesActive g) {n : Nat} (hlist : SpriteListAt r.mem g.spriteListAddr.toNat n)
    (htiles : SpriteTilesInRam g r.mem n) {fuel : Nat} (hfuel : n + 1 ≤ fuel) :
    Paints (fun s => gfxRenderSprites fuel s ypos g r.mem) (spritesLayer g r.mem ypos n) := by
  have hend := hlist.end_lt
  have hrows : RowsPaint g r.mem ypos g.spriteListAddr.toNat n := by
    intro j hj
    exact spriteRow_paints (by omega) (by omega) (htiles j hj)
  exact sprites_run hact hlist hrows hfuel

/-- What the list shows at a pixel: painter's order. -/
theorem spritesLayer_painter (hact : SpritesActive g) (n : Nat) (s : Scanline) (p : Fin 320) :
    PainterPixel g mem ypos n s p ((spritesLayer g mem ypos n).paint s p) := by
  unfold PainterPixel spritesLayer
  rw [if_pos hact]
  simp only [← spriteRowLayer_eq_some]
  generalize hl : Layer.stack (fun j : Nat => spriteRowLayer g mem ypos (g.spriteListAddr.toNat + 8 * (j : Int))) n = l
  cases hp : l p with
  | none =>
      right
      rw [Layer.paint_of_none hp]
      rw [← hl, Layer.stack_eq_none_iff] at hp
      refine ⟨?_, rfl⟩
      intro j hj c' hc'
      rw [hp j hj] at hc'
      cases hc'
  | some c =>
      left
      rw [Layer.paint_of_some hp]
      rw [← hl, Layer.stack_eq_some_iff] at hp
      obtain ⟨j, hj, hc, hclear⟩ := hp
      refine ⟨j, hj, hc, ?_⟩
      intro k hk hkn c' hc'
      rw [hclear k hk hkn] at hc'
      cases hc'

/-- **Sprites are drawn in painter's order.** For every list of `n` entries with its end marker, with list and
    tiles in RAM and both addresses set, every buffer and every line: each pixel holds the texel of the last
    entry that shows one there, or else what it held before, and an entry that is hidden or off the screen
    leaves every buffer as it is. -/
theorem sprites_painter (r : Ram) (g : PeriGfx) (hact : SpritesActive g) {n : Nat}
    (hlist : SpriteListAt r.mem g.spriteListAddr.toNat n) (htiles : SpriteTilesInRam g r.mem n) (s : Scanline)
    {ypos : Int} (h0 : 0 ≤ ypos) (h1 : ypos < 240) {fuel : Nat} (hfuel : n + 1 ≤ fuel) :
    ∃ out, gfxRenderSprites fuel s ypos g r.mem = .ok out ∧
      (∀ p, PainterPixel g r.mem ypos n s p (out p)) ∧
      ∀ j < n, SpriteOff r.mem (g.spriteListAddr.toNat + 8 * (j : Int)) →
        ∀ s, spriteRow g r.mem ypos (g.spriteListAddr.toNat + 8 * (j : Int)) s = .ok s := by
  refine ⟨(spritesLayer g r.mem ypos n).paint s, sprites_total hact hlist htiles hfuel s, ?_, ?_⟩
  · intro p
    exact spritesLayer_painter hact n s p
  · intro j hj hoff s
    have hend := hlist.end_lt
    rw [spriteRow_paints (by omega) (by omega) (htiles j hj) s]
    congr 1
    funext p
    rw [Layer.paint_of_none (hoff.shows h0 h1 p)]

/-! ## Two lists -/

/-- One sprite at the top left, tile 0; the end marker's high byte is the only byte that is not 0. -/
def oneSpriteRam : Ram := (Ram.fill 0).setByte 0x100b 0x80

theorem oneSprite_list : SpriteListAt oneSpriteRam.mem 0x1000 1 := by
  refine ⟨?_, by decide⟩
  intro j hj
  obtain rfl : j = 0 := by omega
  exact ⟨0, by decide, by decide⟩

theorem oneSpriteRam_ne_five (i : Int) : oneSpriteRam.mem i ≠ some 5 := by
  simp only [oneSpriteRam, Ram.setByte, Ram.fill]
  by_cases hi : i = 0x100b
  · subst hi
    decide
  · rw [if_neg hi]
    by_cases hr : 0 ≤ i ∧ i < (machRamSize : Int)
    · rw [if_pos hr]
      decide
    · rw [if_neg hr]
      decide

/-- The registers that show it, with its tile at `tiles`; colour 1 is transparent. -/
def oneSpriteRegs (tiles : UInt32) : PeriGfx :=
  { periGfxInit with spriteTileAddr := tiles, spriteListAddr := 0x1000, spriteTranscol := 1 }

theorem oneSprite_tiles {tiles : UInt32} (h : tiles.toNat ≤ 8192) (mem : Mem) (n : Nat) :
    SpriteTilesInRam (oneSpriteRegs tiles) mem n := by
  intro j _ t ht
  have hlt := u16At_lt ht
  show tiles.toNat + 64 * t + 64 ≤ machRamSize
  simp only [machRamSize]
  omega

/-- With the tiles at address 0 the device is off and the sprite's texel, colour 0, does not appear. -/
theorem sprites_off_at_zero :
    ¬ ∀ (r : Ram) (g : PeriGfx) (n : Nat), n ≤ 200 → SpriteListAt r.mem g.spriteListAddr.toNat n →
      SpriteTilesInRam g r.mem n → ∀ (s : Scanline) (ypos : Int), 0 ≤ ypos → ypos < 240 →
      ∃ fuel out, gfxRenderSprites fuel s ypos g r.mem = .ok out ∧
        ∀ p, PainterPixel g r.mem ypos n s p (out p) := by
  intro h
  obtain ⟨fuel, out, hout, hp⟩ := h oneSpriteRam (oneSpriteRegs 0) 1 (by decide) oneSprite_list
    (oneSprite_tiles (by decide) _ _) (fun _ => 5) 0 (by decide) (by decide)
  have hoff : gfxRenderSprites fuel (fun _ => 5) 0 (oneSpriteRegs 0) oneSpriteRam.mem = .ok (fun _ => 5) := rfl
  rw [hoff] at hout
  cases hout
  have hshown : SpriteShows (oneSpriteRegs 0) oneSpriteRam.mem 0 0x1000 0 0 :=
    ⟨0, 0, 0, by decide, by decide, by decide, by decide, by decide, by decide, by decide, by decide, by decide⟩
  rcases hp 0 with ⟨j, -, hj', -⟩ | ⟨hnone, -⟩
  · -- the pixel still is a 5, and RAM has no 5
    obtain ⟨_, _, _, -, -, -, -, -, -, -, hc, -⟩ := hj'
    exact oneSpriteRam_ne_five _ hc
  · exact hnone 0 (by decide) 0 hshown

/-- A second sprite with tile 1 at `(4, 0)`, over the first one: its first texel is 3, and the one beside it is
    transparent. -/
def twoSpritesRam : Ram :=
  ((((((Ram.fill 0).setByte 0x1008 4).setByte 0x100c 1).setByte 0x1013 0x80).setByte 0x2040 3).setByte 0x2041 1)

theorem twoSprites_list : SpriteListAt twoSpritesRam.mem 0x1000 2 := by
  refine ⟨?_, by decide⟩
  intro j hj
  obtain rfl | rfl : j = 0 ∨ j = 1 := by omega
  · exact ⟨0, by decide, by decide⟩
  · exact ⟨0, by decide, by decide⟩

/-- Two sprites over a line of 5s: pixel 4 is the second one's, pixel 5 the first one's. -/
theorem sprites_painter_two :
    ∃ out, gfxRenderSprites 3 (fun _ => 5) 0 (oneSpriteRegs 0x2000) twoSpritesRam.mem = .ok out ∧
      (out 4 = 3 ∧ out 5 = 0 ∧ out 12 = 5) ∧
      (∀ p, PainterPixel (oneSpriteRegs 0x2000) twoSpritesRam.mem 0 2 (fun _ => 5) p (out p)) ∧
      ∀ j < 2, SpriteOff twoSpritesRam.mem ((oneSpriteRegs 0x2000).spriteListAddr.toNat + 8 * (j : Nat)) →
        ∀ s, spriteRow (oneSpriteRegs 0x2000) twoSpritesRam.mem 0
          ((oneSpriteRegs 0x2000).spriteListAddr.toNat + 8 * (j : Nat)) s = .ok s := by
  have hshown : (gfxRenderSprites 3 (fun _ => 5) 0 (oneSpriteRegs 0x2000) twoSpritesRam.mem).map
      (fun out => (out 4, out 5, out 12)) = .ok (3, 0, 5) := by
    decide +kernel
  obtain ⟨out, hout, hpixels, hoff⟩ := sprites_painter twoSpritesRam (oneSpriteRegs 0x2000) (by decide) twoSprites_list
    (oneSprite_tiles (by decide) _ _) (fun _ => 5) (Int.le_refl 0) (by decide) (Nat.le_refl 3)
  refine ⟨out, hout, ?_, hpixels, hoff⟩
  rw [hout] at hshown
  simpa using Except.ok.inj hshown

end HadBadge
