import HadBadge.Emu.Layers

/-!
# `Correctness.Coverage`: which pixels of a scanline come from the drawn layers

`peri_gfx_render_scanline` draws on a local buffer that is never cleared, and every layer writes it
conditionally. A pixel that no layer draws is handed to `gfx_render_fbmem_scanline` with the value the stack
held there. This module says exactly which pixels those are, from the registers and memory alone.
-/

namespace HadBadge

open Lib

variable {g : PeriGfx} {b : PeriGfxBgnd} {mem : Mem} {ypos : Int}

/-- Background `b` shows a texel that is not transparent at pixel `p`. -/
def BgndDraws (b : PeriGfxBgnd) (mem : Mem) (ypos : Int) (p : Fin 320) : Prop :=
  b.Active ∧ ∃ f, tileFetch b mem (bgndY b ypos) (bgndX b p) = .ok f ∧ f.col.toNat ≠ b.transcol.toNat

/-- The sprite at `&mem[a]` shows a texel that is not transparent at pixel `p`. -/
def SpriteDraws (g : PeriGfx) (mem : Mem) (ypos a : Int) (p : Fin 320) : Prop :=
  ∃ y tile x col, spriteYpos mem a = .ok y ∧ spriteTile mem a = .ok tile ∧ spriteXpos mem a = .ok x ∧
    0 ≤ ypos - y ∧ ypos - y < 8 ∧ 0 ≤ (p : Int) - x ∧ (p : Int) - x < 8 ∧
    mem (g.spriteTileAddr.toNat + tile * 64 + (ypos - y) * 8 + ((p : Int) - x)) = some col ∧
    col.toNat ≠ g.spriteTranscol.toNat

/-- Entry `j` of the list at `&mem[a]` comes before its end marker. -/
def InSpriteList (mem : Mem) (a : Int) (j : Nat) : Prop :=
  ∀ k ≤ j, ∃ y, spriteYpos mem (a + 8 * k) = .ok y ∧ y ≠ spriteListEndMarker

/-- Some layer writes pixel `p` of line `ypos`. -/
def PixelDrawn (g : PeriGfx) (mem : Mem) (ypos : Int) (p : Fin 320) : Prop :=
  g.fbBase ≠ 0 ∨ (∃ i, BgndDraws (g.bgnd i) mem ypos p) ∨
  (SpritesActive g ∧ ∃ j : Nat, InSpriteList mem g.spriteListAddr.toNat j ∧
    SpriteDraws g mem ypos (g.spriteListAddr.toNat + 8 * j) p)

theorem bgndLayer_isSome_iff {p : Fin 320} : (bgndLayer b mem ypos p).isSome ↔ BgndDraws b mem ypos p := by
  unfold BgndDraws bgndLayer
  by_cases ha : b.Active
  · simp only [ha, if_true, true_and, texelLayer]
    cases hf : tileFetch b mem (bgndY b ypos) (bgndX b p) with
    | error e => simp
    | ok f => simp [opaqueUnless_isSome_iff]
  · simp [ha, Layer.clear]

theorem spriteRowLayer_isSome_iff {a : Int} {p : Fin 320} :
    (spriteRowLayer g mem ypos a p).isSome ↔ SpriteDraws g mem ypos a p := by
  unfold SpriteDraws
  rw [Option.isSome_iff_exists]
  simp only [spriteRowLayer_eq_some_iff]
  constructor
  · rintro ⟨col, x, y, tile, hx, hy, ht, hp0, hp8, hy0, hy8, hcol, hne⟩
    exact ⟨y, tile, x, col, hy, ht, hx, hy0, hy8, hp0, hp8, hcol, hne⟩
  · rintro ⟨y, tile, x, col, hy, ht, hx, hy0, hy8, hp0, hp8, hcol, hne⟩
    exact ⟨col, x, y, tile, hx, hy, ht, hp0, hp8, hy0, hy8, hcol, hne⟩

/-- The entries before the end marker of a list of `n` entries are the first `n`. -/
theorem inSpriteList_iff {a : Int} {n j : Nat} (h : SpriteListAt mem a n) : InSpriteList mem a j ↔ j < n := by
  constructor
  · intro hj
    by_contra hge
    obtain ⟨y, hy, hne⟩ := hj n (by omega)
    rw [h.2] at hy
    cases hy
    exact hne rfl
  · intro hlt k hk
    exact h.1 k (by omega)

/-- **The scene is opaque exactly at the drawn pixels.** -/
theorem sceneLayer_isSome_iff {f f' : Scanline} {n : Nat} {p : Fin 320}
    (hfb : gfxRenderFbScanline f ypos g mem = .ok f')
    (hn : SpritesActive g → SpriteListAt mem g.spriteListAddr.toNat n) :
    (sceneLayer g mem ypos n p).isSome ↔ PixelDrawn g mem ypos p := by
  -- the three kinds of layer one by one, then the union
  have hbg : (Layer.stack (fun i => bgndLayer (g.bgnd (bgndFin i)) mem ypos) gfxBgndCount p).isSome ↔
      ∃ i, BgndDraws (g.bgnd i) mem ypos p := by
    rw [Layer.stack_isSome_iff]
    constructor
    · rintro ⟨j, -, h⟩
      exact ⟨bgndFin j, bgndLayer_isSome_iff.mp h⟩
    · rintro ⟨i, h⟩
      exact ⟨i, i.isLt, by rw [bgndFin_natCast]; exact bgndLayer_isSome_iff.mpr h⟩
  have hspr : (spritesLayer g mem ypos n p).isSome ↔
      SpritesActive g ∧ ∃ j : Nat, InSpriteList mem g.spriteListAddr.toNat j ∧
        SpriteDraws g mem ypos (g.spriteListAddr.toNat + 8 * j) p := by
    by_cases ha : SpritesActive g
    · simp only [spritesLayer, ha, if_true, true_and, Layer.stack_isSome_iff, spriteRowLayer_isSome_iff,
        inSpriteList_iff (hn ha)]
    · simp [spritesLayer, ha, Layer.clear]
  rw [sceneLayer, Layer.onTop_isSome_iff, Layer.onTop_isSome_iff, hspr, hbg, fbLayer_isSome_iff hfb]
  unfold PixelDrawn
  rw [or_comm, or_comm (b := g.fbBase ≠ 0), or_assoc]

/-- **The emitted scanline is independent of the buffer exactly when every pixel is drawn.** For every
    register state, memory and line that can be rendered from some buffer: any two buffers give the same
    scanline if and only if the framebuffer is on or each pixel shows a texel that is not transparent. -/
theorem emitted_independent_iff {fuel : Nat} {s : Scanline} {surf : Surface} {o : Rendered}
    (h : periGfxRenderScanline fuel s surf ypos g mem = .ok o) :
    (∀ s₁ s₂ o₁ o₂, periGfxRenderScanline fuel s₁ surf ypos g mem = .ok o₁ →
      periGfxRenderScanline fuel s₂ surf ypos g mem = .ok o₂ → o₁.emitted = o₂.emitted) ↔
    ∀ p, PixelDrawn g mem ypos p := by
  obtain ⟨out, hout, -⟩ := bind_eq_ok.mp h
  obtain ⟨n, hn, hpaint⟩ := renderLayers_paints hout
  obtain ⟨f', hfb, -⟩ := bind_eq_ok.mp hout
  -- every buffer renders, not only the one of `h`: the layers do not read it
  have hrun : ∀ t : Scanline, ∃ r, periGfxRenderScanline fuel t surf ypos g mem = .ok r ∧
      r.emitted = (sceneLayer g mem ypos n).paint t := by
    intro t
    simp only [periGfxRenderScanline, hpaint t, ok_bind]
    exact ⟨_, rfl, rfl⟩
  have hopaque : (∀ t u : Scanline, (sceneLayer g mem ypos n).paint t = (sceneLayer g mem ypos n).paint u) ↔
      ∀ p, PixelDrawn g mem ypos p := by
    -- two different byte values are needed to see a pixel that no layer draws
    have : Nontrivial UInt8 := ⟨0, 1, by decide⟩
    rw [Layer.paint_eq_iff_opaque]
    exact forall_congr' (fun p => sceneLayer_isSome_iff hfb hn)
  rw [← hopaque]
  constructor
  · intro hall t u
    obtain ⟨r, hr, hrt⟩ := hrun t
    obtain ⟨r', hr', hru⟩ := hrun u
    rw [← hrt, ← hru]
    exact hall t u r r' hr hr'
  · intro hall s₁ s₂ o₁ o₂ h₁ h₂
    obtain ⟨r, hr, hrt⟩ := hrun s₁
    obtain ⟨r', hr', hru⟩ := hrun s₂
    rw [hr] at h₁
    rw [hr'] at h₂
    cases h₁
    cases h₂
    rw [hrt, hru]
    exact hall s₁ s₂

/-- With the registers as `peri_gfx_init` leaves them nothing is drawn: the buffer goes out as it was. -/
theorem render_reset (fuel : Nat) (s : Scanline) (surf : Surface) (ypos : Int) (mem : Mem) :
    ∃ o, periGfxRenderScanline fuel s surf ypos periGfxInit mem = .ok o ∧ o.emitted = s :=
  ⟨_, rfl, rfl⟩

/-- The equivalence at the reset registers, where no pixel is drawn. -/
theorem emitted_independent_reset :
    (∀ s₁ s₂ o₁ o₂, periGfxRenderScanline 1 s₁ gfxInitSurf 0 periGfxInit (Ram.fill 0).mem = .ok o₁ →
      periGfxRenderScanline 1 s₂ gfxInitSurf 0 periGfxInit (Ram.fill 0).mem = .ok o₂ →
      o₁.emitted = o₂.emitted) ↔
    ∀ p, PixelDrawn periGfxInit (Ram.fill 0).mem 0 p :=
  emitted_independent_iff (s := fun _ => 0) rfl

/-- At reset, line 0 shows a buffer of 255s and a buffer of 0s as they are. -/
theorem emitted_leaks_buffer :
    ¬ ∀ (g : PeriGfx) (r : Ram) (ypos : Int), 0 ≤ ypos → ypos < 240 → ∀ fuel surf s₁ s₂ o₁ o₂,
      periGfxRenderScanline fuel s₁ surf ypos g r.mem = .ok o₁ →
      periGfxRenderScanline fuel s₂ surf ypos g r.mem = .ok o₂ → o₁.emitted = o₂.emitted := by
  intro h
  obtain ⟨o₁, h₁, he₁⟩ := render_reset 0 (fun _ => 255) gfxInitSurf 0 (Ram.fill 0).mem
  obtain ⟨o₂, h₂, he₂⟩ := render_reset 0 (fun _ => 0) gfxInitSurf 0 (Ram.fill 0).mem
  have heq := h _ _ 0 (by decide) (by decide) 0 _ _ _ o₁ o₂ h₁ h₂
  rw [he₁, he₂] at heq
  exact absurd (congrFun heq 0) (by decide)

end HadBadge
