import HadBadge.Emu.Render

/-!
# `Emu.Layers`: what each renderer paints

Each renderer reads registers and memory only, never the buffer, so it paints one fixed layer. This module
names those layers and proves it: where a renderer succeeds on one buffer it succeeds on all of them and
paints its layer (`Lib.Uniform`).

## Contents
- **Framebuffer.** `fbLayer`, opaque wherever the framebuffer is enabled.
- **Backgrounds.** The loop variables in closed form (`bgndX`, `bgndY`: position on the torus, for every
  register value whose size is not zero modulo `2^32`), `bgndLayer`, and `bgnd_total`, the total form.
- **Sprites.** `spriteRowLayer` of one entry, the stack of them over a list that ends (`SpriteListAt`).
- **The scanline.** `sceneLayer` and `renderLayers_uniform`.
-/

namespace HadBadge

open Lib

/-! ## Single pixels -/

theorem setPixel_fin (s : Scanline) (i : Fin 320) (c : UInt8) :
    setPixel s i c = .ok (Function.update s i c) := by
  have hi := i.isLt
  unfold setPixel
  rw [dif_pos (by omega)]
  rfl

/-- A colour that is drawn unless it is the transparent one. -/
def opaqueUnless (transcol : UInt32) (col : UInt8) : Option UInt8 :=
  if col.toNat ≠ transcol.toNat then some col else none

theorem opaqueUnless_isSome_iff {transcol : UInt32} {col : UInt8} :
    (opaqueUnless transcol col).isSome ↔ col.toNat ≠ transcol.toNat := by
  unfold opaqueUnless; by_cases h : col.toNat ≠ transcol.toNat <;> simp [h]

/-- Drawing a texel is painting it at its pixel, unless it is transparent. -/
theorem drawTexel_fin (s : Scanline) (i : Fin 320) (transcol : UInt32) (col : UInt8) :
    drawTexel s i transcol col =
      .ok (Function.update s i ((opaqueUnless transcol col).getD (s i))) := by
  unfold drawTexel opaqueUnless
  by_cases h : col.toNat ≠ transcol.toNat
  · simp only [h, ne_eq, not_false_eq_true, if_true, Option.getD_some, setPixel_fin]
  · simp only [h, if_false, Option.getD_none, Function.update_eq_self]

/-- The buffer `s` with the pixels before `j` painted with `l`. -/
def paintedTo (l : Layer (Fin 320) UInt8) (s : Scanline) (j : Nat) : Scanline :=
  fun i => if (i : Nat) < j then l.paint s i else s i

theorem paintedTo_zero (l : Layer (Fin 320) UInt8) (s : Scanline) : paintedTo l s 0 = s := by
  funext i; simp [paintedTo]

theorem paintedTo_full (l : Layer (Fin 320) UInt8) (s : Scanline) : paintedTo l s 320 = l.paint s := by
  funext i; simp [paintedTo]

/-- Painting pixel `j` after the ones before it. -/
theorem paintedTo_succ (l : Layer (Fin 320) UInt8) (s : Scanline) (j : Fin 320) :
    Function.update (paintedTo l s j) j ((l j).getD (paintedTo l s j j)) = paintedTo l s (j + 1) := by
  funext i
  by_cases hij : i = j
  · subst hij
    simp [paintedTo, Layer.paint]
  · have hne : (i : Nat) ≠ j := fun he => hij (Fin.ext he)
    rw [Function.update_of_ne hij]
    unfold paintedTo
    by_cases hlt : (i : Nat) < j
    · rw [if_pos hlt, if_pos (by omega)]
    · rw [if_neg hlt, if_neg (by omega)]

/-! ## Framebuffer -/

/-- `xpos` before iteration `i` of the framebuffer loop. -/
def fbX (g : PeriGfx) : Nat → Int
  | 0   => i32 g.fbScrollx.toNat
  | i+1 =>
      let xpos := i32 (fbX g i + 1)
      if g.fbPitch.toNat ≤ u32 xpos then 0 else xpos

/-- The line of the framebuffer that the loop reads. -/
def fbY (g : PeriGfx) (ypos : Int) : Int :=
  let y := i32 (ypos + g.fbScrolly.toNat)
  if g.fbHeight.toNat ≤ u32 y then i32 (u32 y - g.fbHeight.toNat) else y

/-- Index in `mem` of the line's first byte. -/
def fbLine (g : PeriGfx) (ypos : Int) : Int :=
  u32 (g.fbBase.toNat + u32 (fbY g ypos) * g.fbPitch.toNat)

/-- The framebuffer line as a layer: nothing when the framebuffer is off. -/
def fbLayer (g : PeriGfx) (mem : Mem) (ypos : Int) : Layer (Fin 320) UInt8 :=
  if g.fbBase = 0 then Layer.clear else fun i => mem (fbLine g ypos + fbX g i)

variable {g : PeriGfx} {b : PeriGfxBgnd} {mem : Mem} {ypos : Int}

/-- A successful framebuffer loop has read all its pixels. -/
theorem fb_loop_reads {p : Int} {s s' : FbLoop} (hx : s.xpos = fbX g 0)
    (h : forFrom (fbStep g mem p) 320 0 s = .ok s') : ∀ k < 320, (mem (p + fbX g k)).isSome := by
  -- invariant: `xpos` is on its closed form and every earlier pixel was readable
  have hstep : ∀ j (t t' : FbLoop), 0 ≤ j → j < 0 + 320 →
      (t.xpos = fbX g j ∧ ∀ k < j, (mem (p + fbX g k)).isSome) → fbStep g mem p j t = .ok t' →
      t'.xpos = fbX g (j + 1) ∧ ∀ k < j + 1, (mem (p + fbX g k)).isSome := by
    rintro j t t' - - ⟨hxj, hk⟩ ht
    simp only [fbStep, bind_eq_ok] at ht
    obtain ⟨col, hcol, sc, -, ht'⟩ := ht
    cases ht'
    refine ⟨by rw [hxj]; rfl, ?_⟩
    intro k hkj
    rcases Nat.lt_succ_iff_lt_or_eq.mp hkj with hlt | heq
    · exact hk k hlt
    · subst heq; rw [← hxj, u8At_eq_ok.mp hcol]; rfl
  exact (forFrom_inv _ 320 0 s s' hstep ⟨hx, fun k hk => absurd hk (Nat.not_lt_zero k)⟩ h).2

/-- If every pixel can be read, the loop fills the buffer with them. -/
theorem fb_loop_total {p : Int} {l : Layer (Fin 320) UInt8} (hl : ∀ i, l i = mem (p + fbX g i))
    (h : ∀ i, (l i).isSome) (s : Scanline) :
    ∃ x, forFrom (fbStep g mem p) 320 0 ⟨fbX g 0, s⟩ = .ok ⟨x, l.paint s⟩ := by
  -- invariant: the state before iteration `j` is the buffer painted up to pixel `j`
  have hstep : ∀ j (t : FbLoop), 0 ≤ j → j < 0 + 320 → t = ⟨fbX g j, paintedTo l s j⟩ →
      ∃ t', fbStep g mem p j t = .ok t' ∧ t' = ⟨fbX g (j + 1), paintedTo l s (j + 1)⟩ := by
    rintro j t - hj rfl
    obtain ⟨col, hcol⟩ := Option.isSome_iff_exists.mp (h ⟨j, by omega⟩)
    refine ⟨_, ?_, rfl⟩
    have hread : u8At mem (p + fbX g j) = .ok col := u8At_eq_ok.mpr ((hl ⟨j, by omega⟩).symm.trans hcol)
    have hset := paintedTo_succ l s ⟨j, by omega⟩
    rw [hcol, Option.getD_some] at hset
    simp only [fbStep, hread, ok_bind]
    rw [setPixel_fin _ ⟨j, by omega⟩, hset]
    rfl
  obtain ⟨s', hs', hI⟩ := forFrom_total
    (fun j (t : FbLoop) => t = ⟨fbX g j, paintedTo l s j⟩) 320 0 ⟨fbX g 0, s⟩ hstep
    (by rw [paintedTo_zero])
  refine ⟨fbX g 320, ?_⟩
  rw [hs', hI, Nat.zero_add, paintedTo_full]

/-- What a successful call says when the framebuffer is on. -/
theorem fb_reads {f f' : Scanline} (hb : g.fbBase ≠ 0) (h : gfxRenderFbScanline f ypos g mem = .ok f')
    (i : Fin 320) : (fbLayer g mem ypos i).isSome := by
  simp only [gfxRenderFbScanline, hb, if_false, bind_eq_ok] at h
  obtain ⟨t, ht, -⟩ := h
  simp only [fbLayer, hb, if_false]
  exact fb_loop_reads (s := ⟨fbX g 0, f⟩) rfl ht i i.isLt

/-- Where every pixel can be read, the framebuffer renderer succeeds. -/
theorem fb_total (hb : g.fbBase ≠ 0) (h : ∀ i, (fbLayer g mem ypos i).isSome) (s : Scanline) :
    gfxRenderFbScanline s ypos g mem = .ok ((fbLayer g mem ypos).paint s) := by
  have hl : ∀ i : Fin 320, fbLayer g mem ypos i = mem (fbLine g ypos + fbX g i) := by
    intro i; simp only [fbLayer, hb, if_false]
  obtain ⟨x, hx⟩ := fb_loop_total hl h s
  simp only [gfxRenderFbScanline, hb, if_false]
  have : (forFrom (fbStep g mem (fbLine g ypos)) 320 0 ⟨fbX g 0, s⟩ >>= fun t => .ok t.scanline)
      = .ok ((fbLayer g mem ypos).paint s) := by rw [hx, ok_bind]
  exact this

/-- **The framebuffer renderer paints `fbLayer`.** -/
theorem fb_uniform (g : PeriGfx) (mem : Mem) (ypos : Int) :
    Uniform (fun s => gfxRenderFbScanline s ypos g mem) (fbLayer g mem ypos) := by
  intro f f' h s
  by_cases hb : g.fbBase = 0
  · simp [gfxRenderFbScanline, fbLayer, hb]
  · exact fb_total hb (fb_reads hb h) s

/-- Where it succeeds, the framebuffer covers every pixel or none. -/
theorem fbLayer_isSome_iff {f f' : Scanline} (h : gfxRenderFbScanline f ypos g mem = .ok f')
    (i : Fin 320) : (fbLayer g mem ypos i).isSome ↔ g.fbBase ≠ 0 := by
  by_cases hb : g.fbBase = 0
  · simp [fbLayer, hb, Layer.clear]
  · exact iff_of_true (fb_reads hb h i) hb

/-! ## Backgrounds -/

/-- `xpos` in iteration `i` of the background loop: the scroll position wrapped on the torus. -/
def bgndX (b : PeriGfxBgnd) (i : Nat) : Int := i32 ((b.scrollx.toNat + i) % timesEight b.width : Nat)

/-- `ypos` in the background loop. -/
def bgndY (b : PeriGfxBgnd) (ypos : Int) : Int :=
  i32 (u32 (ypos + b.scrolly.toNat) % timesEight b.height : Nat)

/-- The test that starts `gfx_render_bgnd_scanline`. -/
def PeriGfxBgnd.Active (b : PeriGfxBgnd) : Prop :=
  b.gfxAddr ≠ 0 ∧ b.mapAddr ≠ 0 ∧ b.height ≠ 0 ∧ b.width ≠ 0

instance (b : PeriGfxBgnd) : Decidable b.Active := by unfold PeriGfxBgnd.Active; infer_instance

/-- The texels of a line of background `b`, transparent ones left out. -/
def texelLayer (b : PeriGfxBgnd) (mem : Mem) (ypos : Int) : Layer (Fin 320) UInt8 := fun i =>
  match tileFetch b mem (bgndY b ypos) (bgndX b i) with
  | .ok f    => opaqueUnless b.transcol f.col
  | .error _ => none

/-- The background line as a layer: nothing when the background is not configured. -/
def bgndLayer (b : PeriGfxBgnd) (mem : Mem) (ypos : Int) : Layer (Fin 320) UInt8 :=
  if b.Active then texelLayer b mem ypos else Layer.clear

theorem timesEight_lt (v : UInt32) : timesEight v < 4294967296 := u32_lt _

theorem timesEight_dvd (v : UInt32) : timesEight v % 8 = 0 := by
  unfold timesEight u32; omega

/-- The wrap loop leaves a position reduced modulo the size. -/
theorem wrapLoop_ok {fuel size : Nat} {v t : Int} (h : wrapLoop fuel size (i32 v) = .ok t) :
    0 < size ∧ t = i32 (u32 v % size : Nat) := by
  -- subtracting `size` keeps the residue; the test keeps the subtraction from wrapping in `uint32_t`
  have hstep : ∀ s : Int, (s = i32 s ∧ u32 s % size = u32 v % size) → decide (size ≤ u32 s) = true →
      i32 (u32 s - size) = i32 (i32 (u32 s - size)) ∧ u32 (i32 (u32 s - size)) % size = u32 v % size := by
    rintro s ⟨-, hs⟩ hc
    have hle : size ≤ u32 s := by simpa using hc
    have hlt := u32_lt s
    refine ⟨by unfold i32; omega, ?_⟩
    rw [u32_i32, show ((u32 s : Int) - size) = ((u32 s - size : Nat) : Int) by omega, u32_natCast,
      Nat.mod_eq_of_lt (show u32 s - size < 4294967296 by omega), ← hs, Nat.mod_eq_sub_mod hle]
  obtain ⟨⟨ht, hmod⟩, hc⟩ := whileFuel_inv
    (fun s => s = i32 s ∧ u32 s % size = u32 v % size) hstep fuel (i32 v) t
    ⟨by unfold i32; omega, by rw [u32_i32]⟩ h
  have hlt : u32 t < size := by simpa using hc
  refine ⟨by omega, ?_⟩
  rw [← hmod, Nat.mod_eq_of_lt hlt, ht]
  unfold i32 u32; omega

/-- A size that is not zero makes the wrap loop end. -/
theorem wrapLoop_total {fuel size : Nat} (hsize : 0 < size) (v : Int) (hfuel : u32 v ≤ fuel) :
    wrapLoop fuel size (i32 v) = .ok (i32 (u32 v % size : Nat)) := by
  obtain ⟨t, ht, -, -⟩ := whileFuel_total (e := Fault.fuel) (c := fun pos => decide (size ≤ u32 pos))
    (f := fun pos => i32 (u32 pos - size)) (fun _ => True) u32
    (by
      intro s _ hc
      have hle : size ≤ u32 s := by simpa using hc
      refine ⟨trivial, ?_⟩
      rw [u32_i32]
      have hlt := u32_lt s
      rw [show ((u32 s : Int) - size) = ((u32 s - size : Nat) : Int) by omega, u32_natCast]
      omega)
    fuel (i32 v) trivial (by rw [u32_i32]; exact hfuel)
  have ht' : wrapLoop fuel size (i32 v) = .ok t := ht
  rw [ht', (wrapLoop_ok ht').2]

/-- One step of `xpos` moves one pixel along the torus. -/
theorem bgndNextX_bgndX (hw : 0 < timesEight b.width) (i : Nat) :
    bgndNextX b (bgndX b i) = bgndX b (i + 1) := by
  have hr := Nat.mod_lt (b.scrollx.toNat + i) hw
  have hm := timesEight_lt b.width
  have hsucc : (b.scrollx.toNat + (i + 1)) % timesEight b.width
      = ((b.scrollx.toNat + i) % timesEight b.width + 1) % timesEight b.width := by
    rw [Nat.mod_add_mod, Nat.add_assoc]
  -- a width below `2^32` that is a multiple of 8 leaves room for the increment, so `++` does not wrap
  have hu : u32 (i32 (bgndX b i + 1)) = (b.scrollx.toNat + i) % timesEight b.width + 1 := by
    unfold bgndX
    generalize (b.scrollx.toNat + i) % timesEight b.width = r at hr
    rw [u32_i32, u32_i32_add, show (r : Int) + 1 = ((r + 1 : Nat) : Int) by push_cast; ring, u32_natCast]
    exact Nat.mod_eq_of_lt (by
      have := timesEight_dvd b.width
      omega)
  unfold bgndNextX
  simp only [hu]
  unfold bgndX at hu ⊢
  rw [hsucc]
  generalize (b.scrollx.toNat + i) % timesEight b.width = r at hr hu ⊢
  -- the source resets `xpos` to 0 when it reaches the width, the closed form takes a remainder
  by_cases hle : timesEight b.width ≤ r + 1
  · have heq : r + 1 = timesEight b.width := by omega
    rw [if_pos hle, heq, Nat.mod_self]
    simp
  · rw [if_neg hle, Nat.mod_eq_of_lt (by omega)]
    unfold i32; omega

/-- The wrapped scroll position is where the loop starts. -/
theorem bgndX_zero (b : PeriGfxBgnd) :
    i32 (u32 b.scrollx.toNat % timesEight b.width : Nat) = bgndX b 0 := by
  have hx : b.scrollx.toNat % 4294967296 = b.scrollx.toNat := Nat.mod_eq_of_lt b.scrollx.toNat_lt
  rw [bgndX, u32_natCast, Nat.add_zero, hx]

/-- A successful background loop has fetched a texel for every pixel. -/
theorem bgnd_loop_reads (hw : 0 < timesEight b.width) {y : Int} {s s' : BgndLoop}
    (hx : s.xpos = bgndX b 0) (h : forFrom (bgndStep b mem y) 320 0 s = .ok s') :
    ∀ k < 320, ∃ f, tileFetch b mem y (bgndX b k) = .ok f := by
  have hstep : ∀ j (t t' : BgndLoop), 0 ≤ j → j < 0 + 320 →
      (t.xpos = bgndX b j ∧ ∀ k < j, ∃ f, tileFetch b mem y (bgndX b k) = .ok f) →
      bgndStep b mem y j t = .ok t' →
      t'.xpos = bgndX b (j + 1) ∧ ∀ k < j + 1, ∃ f, tileFetch b mem y (bgndX b k) = .ok f := by
    rintro j t t' - - ⟨hxj, hk⟩ ht
    simp only [bgndStep, bind_eq_ok] at ht
    obtain ⟨f, hf, sc, -, ht'⟩ := ht
    cases ht'
    refine ⟨by rw [hxj]; exact bgndNextX_bgndX hw j, ?_⟩
    intro k hkj
    rcases Nat.lt_succ_iff_lt_or_eq.mp hkj with hlt | heq
    · exact hk k hlt
    · subst heq; exact ⟨f, hxj ▸ hf⟩
  exact (forFrom_inv _ 320 0 s s' hstep ⟨hx, fun k hk => absurd hk (Nat.not_lt_zero k)⟩ h).2

/-- If every pixel's texel can be fetched, by `f`, the loop paints them and records the fetches. -/
theorem bgnd_loop_total (hw : 0 < timesEight b.width) {y : Int} {f : Nat → TileFetch}
    {l : Layer (Fin 320) UInt8} (hl : ∀ i : Fin 320, l i = opaqueUnless b.transcol (f i).col)
    (h : ∀ k < 320, tileFetch b mem y (bgndX b k) = .ok (f k)) (s : Scanline) :
    ∃ x, forFrom (bgndStep b mem y) 320 0 ⟨bgndX b 0, s, []⟩
      = .ok ⟨x, l.paint s, (List.range 320).map f⟩ := by
  have hstep : ∀ j (t : BgndLoop), 0 ≤ j → j < 0 + 320 →
      t = ⟨bgndX b j, paintedTo l s j, (List.range j).map f⟩ →
      ∃ t', bgndStep b mem y j t = .ok t' ∧
        t' = ⟨bgndX b (j + 1), paintedTo l s (j + 1), (List.range (j + 1)).map f⟩ := by
    rintro j t - hj rfl
    refine ⟨_, ?_, rfl⟩
    have hset := paintedTo_succ l s ⟨j, by omega⟩
    rw [hl] at hset
    simp only [bgndStep, h j (by omega), ok_bind]
    rw [drawTexel_fin _ ⟨j, by omega⟩, hset, ok_bind, bgndNextX_bgndX hw, List.range_succ, List.map_append]
    rfl
  obtain ⟨s', hs', hI⟩ := forFrom_total
    (fun j (t : BgndLoop) => t = ⟨bgndX b j, paintedTo l s j, (List.range j).map f⟩) 320 0
    ⟨bgndX b 0, s, []⟩ hstep (by rw [paintedTo_zero]; rfl)
  refine ⟨bgndX b 320, ?_⟩
  rw [hs', hI, Nat.zero_add, paintedTo_full]

/-- What a successful call says when the background is active: its sizes are not zero modulo `2^32` and
    every pixel's texel can be fetched. -/
theorem bgnd_reads {fuel : Nat} {s : Scanline} {r : Scanline × List TileFetch} (ha : b.Active)
    (h : gfxRenderBgndScanline fuel s ypos b mem = .ok r) :
    wrapLoop fuel (timesEight b.height) (i32 (ypos + b.scrolly.toNat)) = .ok (bgndY b ypos) ∧
    wrapLoop fuel (timesEight b.width) (i32 b.scrollx.toNat) = .ok (bgndX b 0) ∧
    0 < timesEight b.width ∧
    ∀ k < 320, ∃ f, tileFetch b mem (bgndY b ypos) (bgndX b k) = .ok f := by
  obtain ⟨hg, hm, hh, hw⟩ := ha
  simp only [gfxRenderBgndScanline, hg, hm, hh, hw, or_self, if_false, bind_eq_ok] at h
  obtain ⟨y, hy, x, hx, t, ht, -⟩ := h
  obtain ⟨-, hy'⟩ := wrapLoop_ok hy
  obtain ⟨hpos, hx'⟩ := wrapLoop_ok hx
  have hyY : y = bgndY b ypos := hy'
  have hxX : x = bgndX b 0 := hx'.trans (bgndX_zero b)
  rw [hyY] at hy ht
  rw [hxX] at hx ht
  exact ⟨hy, hx, hpos, bgnd_loop_reads hpos (s := ⟨bgndX b 0, s, []⟩) rfl ht⟩

/-- Once the wrap loops end and every texel can be fetched, a call on any buffer paints `bgndLayer` and
    fetches the same texels. -/
theorem bgnd_run {fuel : Nat} {f : Nat → TileFetch} (ha : b.Active)
    (hy : wrapLoop fuel (timesEight b.height) (i32 (ypos + b.scrolly.toNat)) = .ok (bgndY b ypos))
    (hx : wrapLoop fuel (timesEight b.width) (i32 b.scrollx.toNat) = .ok (bgndX b 0))
    (hw : 0 < timesEight b.width)
    (hf : ∀ k < 320, tileFetch b mem (bgndY b ypos) (bgndX b k) = .ok (f k)) (s : Scanline) :
    gfxRenderBgndScanline fuel s ypos b mem
      = .ok ((bgndLayer b mem ypos).paint s, (List.range 320).map f) := by
  have hl : ∀ i : Fin 320, bgndLayer b mem ypos i = opaqueUnless b.transcol (f i).col := by
    intro i; simp only [bgndLayer, ha, if_true, texelLayer, hf i i.isLt]
  obtain ⟨x, hloop⟩ := bgnd_loop_total hw hl hf s
  obtain ⟨hg, hm, hh, hwid⟩ := ha
  simp only [gfxRenderBgndScanline, hg, hm, hh, hwid, or_self, if_false, hy, hx, ok_bind, hloop]
  rfl

/-- A background that is not configured leaves the buffer as it is. -/
theorem bgnd_inactive {fuel : Nat} {s : Scanline} (ha : ¬ b.Active) :
    gfxRenderBgndScanline fuel s ypos b mem = .ok (s, []) := by
  unfold gfxRenderBgndScanline
  by_cases h1 : b.gfxAddr = 0 ∨ b.mapAddr = 0
  · rw [if_pos h1]
  · rw [if_neg h1, if_pos]
    unfold PeriGfxBgnd.Active at ha
    tauto

/-- **The background renderer paints `bgndLayer`**, whatever it fetches along the way. -/
theorem bgnd_uniform (fuel : Nat) (b : PeriGfxBgnd) (mem : Mem) (ypos : Int) :
    Uniform (fun s => do
      let (s, _) ← gfxRenderBgndScanline fuel s ypos b mem
      return s) (bgndLayer b mem ypos) := by
  intro f f' h s
  obtain ⟨r, hr, -⟩ := bind_eq_ok.mp h
  by_cases ha : b.Active
  · obtain ⟨hy, hx, hw, hread⟩ := bgnd_reads ha hr
    choose! t ht using hread
    show (gfxRenderBgndScanline fuel s ypos b mem >>= fun r => .ok r.1) = _
    rw [bgnd_run ha hy hx hw ht s, ok_bind]
  · show (gfxRenderBgndScanline fuel s ypos b mem >>= fun r => .ok r.1) = _
    rw [bgnd_inactive ha, ok_bind]
    simp [bgndLayer, ha]

/-- What the ghost output says: entry `x` is the fetch for pixel `x`. -/
theorem bgnd_fetched {fuel : Nat} {s out : Scanline} {fetched : List TileFetch}
    (h : gfxRenderBgndScanline fuel s ypos b mem = .ok (out, fetched)) {x : Nat} {f : TileFetch}
    (hx : fetched[x]? = some f) :
    b.Active ∧ x < 320 ∧ tileFetch b mem (bgndY b ypos) (bgndX b x) = .ok f := by
  -- a background that is off fetches nothing, so it has no entry `x`
  by_cases ha : b.Active
  · obtain ⟨hy, hx0, hw, hread⟩ := bgnd_reads ha h
    choose! t ht using hread
    rw [bgnd_run ha hy hx0 hw ht s] at h
    cases h
    rw [List.getElem?_map, Option.map_eq_some_iff] at hx
    obtain ⟨k, hk, hf⟩ := hx
    obtain ⟨hlt, hkx⟩ := List.getElem?_eq_some_iff.mp hk
    rw [List.getElem_range] at hkx
    rw [List.length_range] at hlt
    exact ⟨ha, hlt, by rw [ht x hlt, ← hf, hkx]⟩
  · rw [bgnd_inactive ha] at h
    cases h
    exact absurd hx (by simp)

/-- The pixel for which `f` was fetched. -/
theorem bgnd_pixel {fuel : Nat} {s out : Scanline} {fetched : List TileFetch}
    (h : gfxRenderBgndScanline fuel s ypos b mem = .ok (out, fetched)) {x : Fin 320} {f : TileFetch}
    (hx : fetched[(x : Nat)]? = some f) : out x = (opaqueUnless b.transcol f.col).getD (s x) := by
  obtain ⟨ha, -, hf⟩ := bgnd_fetched h hx
  obtain ⟨hy, hx0, hw, hread⟩ := bgnd_reads ha h
  choose! t ht using hread
  rw [bgnd_run ha hy hx0 hw ht s] at h
  cases h
  show (bgndLayer b mem ypos x).getD (s x) = _
  rw [bgndLayer, if_pos ha, texelLayer, hf]

/-- A drawn line has a fetch for every pixel. -/
theorem bgnd_fetched_all {fuel : Nat} {s out : Scanline} {fetched : List TileFetch} (ha : b.Active)
    (h : gfxRenderBgndScanline fuel s ypos b mem = .ok (out, fetched)) {x : Nat} (hx : x < 320) :
    ∃ f, fetched[x]? = some f := by
  obtain ⟨hy, hx0, hw, hread⟩ := bgnd_reads ha h
  choose! t ht using hread
  rw [bgnd_run ha hy hx0 hw ht s] at h
  cases h
  exact ⟨t x, by rw [List.getElem?_map, List.getElem?_range hx]; rfl⟩

/-- **The background renderer in total form.** With sizes that are not zero modulo `2^32`, enough fuel and
    every texel within reach, it paints `bgndLayer` and fetches `f`. -/
theorem bgnd_total {fuel : Nat} {f : Nat → TileFetch} (ha : b.Active) (hh : 0 < timesEight b.height)
    (hw : 0 < timesEight b.width) (hfuel : 4294967296 ≤ fuel)
    (hf : ∀ k < 320, tileFetch b mem (bgndY b ypos) (bgndX b k) = .ok (f k)) (s : Scanline) :
    gfxRenderBgndScanline fuel s ypos b mem
      = .ok ((bgndLayer b mem ypos).paint s, (List.range 320).map f) := by
  refine bgnd_run ha (wrapLoop_total hh _ ?_) ?_ hw hf s
  · have := u32_lt (ypos + b.scrolly.toNat)
    omega
  · have := u32_lt b.scrollx.toNat
    rw [wrapLoop_total hw _ (by omega), bgndX_zero]

/-! ## Sprites -/

/-- Column `x` of a sprite row as a layer. -/
def spritePixelLayer (g : PeriGfx) (mem : Mem) (gfx px : Int) (x : Nat) : Layer (Fin 320) UInt8 := fun p =>
  if (p : Int) = px + x then (mem (gfx + x)).bind (opaqueUnless g.spriteTranscol) else none

/-- The row of the sprite at `&mem[a]` that falls on line `ypos`, as a layer. -/
def spriteRowLayer (g : PeriGfx) (mem : Mem) (ypos a : Int) : Layer (Fin 320) UInt8 :=
  match spriteYpos mem a, spriteTile mem a, spriteXpos mem a with
  | .ok y, .ok tile, .ok px =>
      if 0 ≤ ypos - y ∧ ypos - y < 8 then
        Layer.stack (spritePixelLayer g mem (g.spriteTileAddr.toNat + tile * 64 + (ypos - y) * 8) px) 8
      else Layer.clear
  | _, _, _ => Layer.clear

theorem opaqueUnless_eq_some {transcol : UInt32} {col c : UInt8} :
    opaqueUnless transcol col = some c ↔ col = c ∧ c.toNat ≠ transcol.toNat := by
  unfold opaqueUnless
  by_cases h : col.toNat ≠ transcol.toNat
  · rw [if_pos h, Option.some.injEq]
    constructor
    · rintro rfl
      exact ⟨rfl, h⟩
    · intro hc
      exact hc.1
  · rw [if_neg h]
    constructor
    · intro hc
      cases hc
    · rintro ⟨rfl, hc⟩
      exact absurd hc h

theorem spritePixelLayer_eq_some {gfx px : Int} {x : Nat} {p : Fin 320} {c : UInt8} :
    spritePixelLayer g mem gfx px x p = some c ↔
      (p : Int) = px + x ∧ mem (gfx + x) = some c ∧ c.toNat ≠ g.spriteTranscol.toNat := by
  unfold spritePixelLayer
  by_cases hp : (p : Int) = px + x
  · simp only [hp, if_true, true_and, Option.bind_eq_some_iff, opaqueUnless_eq_some]
    constructor
    · rintro ⟨col, hcol, rfl, hne⟩
      exact ⟨hcol, hne⟩
    · rintro ⟨hcol, hne⟩
      exact ⟨c, hcol, rfl, hne⟩
  · simp [hp]

/-- The row of an entry shows a texel of its tile where that is not transparent. -/
theorem spriteRowLayer_eq_some_iff {a : Int} {p : Fin 320} {c : UInt8} :
    spriteRowLayer g mem ypos a p = some c ↔
      ∃ x y tile, spriteXpos mem a = .ok x ∧ spriteYpos mem a = .ok y ∧ spriteTile mem a = .ok tile ∧
        0 ≤ (p : Int) - x ∧ (p : Int) - x < 8 ∧ 0 ≤ ypos - y ∧ ypos - y < 8 ∧
        mem (g.spriteTileAddr.toNat + tile * 64 + (ypos - y) * 8 + ((p : Int) - x)) = some c ∧
        c.toNat ≠ g.spriteTranscol.toNat := by
  unfold spriteRowLayer
  cases hy : spriteYpos mem a with
  | error e => simp [Layer.clear]
  | ok y =>
  cases ht : spriteTile mem a with
  | error e => simp [Layer.clear]
  | ok tile =>
  cases hx : spriteXpos mem a with
  | error e => simp [Layer.clear]
  | ok px =>
      by_cases hrow : 0 ≤ ypos - y ∧ ypos - y < 8
      · simp only [hrow, and_self, if_true, Layer.stack_eq_some_iff, spritePixelLayer_eq_some, Except.ok.injEq]
        constructor
        · rintro ⟨x, hx8, ⟨hp, hcol, hne⟩, -⟩
          have hsub : (p : Int) - px = x := by omega
          exact ⟨px, y, tile, rfl, rfl, rfl, by omega, by omega, hrow.1, hrow.2, by rw [hsub]; exact hcol, hne⟩
        · rintro ⟨_, _, _, rfl, rfl, rfl, hp0, hp8, -, -, hcol, hne⟩
          -- only column `p - px` of the row falls on pixel `p`
          have hsub : ((p : Int) - px).toNat = (p : Int) - px := by omega
          refine ⟨((p : Int) - px).toNat, by omega, ⟨by omega, by rw [hsub]; exact hcol, hne⟩, ?_⟩
          intro j hj _
          unfold spritePixelLayer
          rw [if_neg (by omega)]
      · simp only [hrow, if_false, Layer.clear, reduceCtorEq, Except.ok.injEq, false_iff]
        rintro ⟨_, _, _, rfl, rfl, rfl, -, -, h0, h8, -⟩
        exact hrow ⟨h0, h8⟩

/-- The list at `&mem[a]` has `n` entries before its end marker. -/
def SpriteListAt (mem : Mem) (a : Int) (n : Nat) : Prop :=
  (∀ j < n, ∃ y, spriteYpos mem (a + 8 * j) = .ok y ∧ y ≠ spriteListEndMarker) ∧
  spriteYpos mem (a + 8 * n) = .ok spriteListEndMarker

theorem spritePixel_uniform (g : PeriGfx) (mem : Mem) (gfx px : Int) (x : Nat) :
    Uniform (spritePixel g mem gfx px x) (spritePixelLayer g mem gfx px x) := by
  intro f f' h s
  -- columns beyond either edge of the screen are skipped before any read
  by_cases hin : 0 ≤ px + x ∧ px + x < 320
  · simp only [spritePixel, hin, and_self, if_true, bind_eq_ok] at h
    simp only [spritePixel, hin, and_self, if_true]
    obtain ⟨col, hcol, -⟩ := h
    have hp : px + (x : Int) = ((⟨(px + x).toNat, by omega⟩ : Fin 320) : Nat) := by
      show px + (x : Int) = ((px + x).toNat : Int)
      omega
    rw [hcol, ok_bind, hp, drawTexel_fin]
    congr 1
    funext i
    by_cases hi : i = ⟨(px + x).toNat, by omega⟩
    · subst hi
      have hpx : ((px + x).toNat : Int) = px + x := by omega
      simp [Layer.paint, spritePixelLayer, hpx, u8At_eq_ok.mp hcol]
    · have hne : ¬ ((i : Nat) : Int) = px + x := fun he => hi (Fin.ext (by
        show (i : Nat) = (px + x).toNat
        omega))
      simp [Layer.paint, spritePixelLayer, hne, Function.update_of_ne hi]
  · simp only [spritePixel, hin, if_false]
    congr 1
    funext i
    have hi := i.isLt
    have hne : ¬ ((i : Nat) : Int) = px + x := by omega
    simp [Layer.paint, spritePixelLayer, hne]

theorem spriteRow_uniform (g : PeriGfx) (mem : Mem) (ypos a : Int) :
    Uniform (spriteRow g mem ypos a) (spriteRowLayer g mem ypos a) := by
  intro f f' h s
  simp only [spriteRow, bind_eq_ok] at h
  obtain ⟨y, hy, h⟩ := h
  simp only [spriteRow]
  -- the tile and the x position are read only on the eight lines the sprite covers
  by_cases hrow : 0 ≤ ypos - y ∧ ypos - y < 8
  · simp only [hrow, and_self, if_true, bind_eq_ok] at h
    obtain ⟨tile, htile, px, hpx, h⟩ := h
    have hpaint := Uniform.forFrom 8 (fun j _ => spritePixel_uniform g mem
      (g.spriteTileAddr.toNat + tile * 64 + (ypos - y) * 8) px j) f f' h s
    simp only [hy, ok_bind, hrow, and_self, if_true, htile, hpx, hpaint, spriteRowLayer]
  · simp only [hy, ok_bind, hrow, if_false]
    have hclear : spriteRowLayer g mem ypos a = Layer.clear := by
      unfold spriteRowLayer
      cases spriteTile mem a <;> cases spriteXpos mem a <;> simp only [hy, hrow, if_false]
    rw [hclear, Layer.paint_clear]

/-- Unfolding the list loop at one entry. -/
theorem spriteLoop_succ (g : PeriGfx) (mem : Mem) (ypos : Int) (fuel : Nat) (a limit : Int) (w : Bool)
    (s : Scanline) :
    spriteLoop g mem ypos (fuel + 1) a limit w s =
      (spriteYpos mem a >>= fun y =>
        if y = spriteListEndMarker then .ok (s, w)
        else spriteRow g mem ypos a s >>= fun s =>
          spriteLoop g mem ypos fuel (a + 8) (i32 (limit - 1)) (w || i32 (limit - 1) == 0) s) := rfl

/-- A list has one length. -/
theorem SpriteListAt.length_unique {a : Int} {m n : Nat} (hm : SpriteListAt mem a m) (hn : SpriteListAt mem a n) :
    m = n := by
  rcases Nat.lt_trichotomy m n with hlt | heq | hgt
  · obtain ⟨y, hy, hne⟩ := hn.1 m hlt
    rw [hm.2] at hy
    cases hy
    exact absurd rfl hne
  · exact heq
  · obtain ⟨y, hy, hne⟩ := hm.1 n hgt
    rw [hn.2] at hy
    cases hy
    exact absurd rfl hne

/-- The address of a list's end marker is in RAM, so all of its entries are. -/
theorem SpriteListAt.end_lt {r : Ram} {a : Int} {n : Nat} (h : SpriteListAt r.mem a n) : a + 8 * n + 4 ≤ machRamSize := by
  obtain ⟨v, hv, -⟩ := bind_eq_ok.mp h.2
  have hlast := Mem.load_isSome_iff.mp ⟨v, u16At_eq_ok.mp hv⟩ 1 (by omega)
  have := (r.dom _).mp hlast
  push_cast at this
  omega

/-- The list behind the first entry. -/
theorem SpriteListAt.tail {a : Int} {n : Nat} (h : SpriteListAt mem a (n + 1)) : SpriteListAt mem (a + 8) n := by
  have hshift (j : Nat) : a + 8 * ((j + 1 : Nat) : Int) = a + 8 + 8 * j := by push_cast; ring
  refine ⟨?_, ?_⟩
  · intro j hj
    rw [← hshift]
    exact h.1 (j + 1) (by omega)
  · rw [← hshift]
    exact h.2

theorem SpriteListAt.cons {a y : Int} {n : Nat} (hy : spriteYpos mem a = .ok y) (hne : y ≠ spriteListEndMarker)
    (h : SpriteListAt mem (a + 8) n) : SpriteListAt mem a (n + 1) := by
  have hshift (j : Nat) : a + 8 * ((j + 1 : Nat) : Int) = a + 8 + 8 * j := by push_cast; ring
  refine ⟨?_, ?_⟩
  · intro j hj
    rcases j with _ | j
    · exact ⟨y, by simpa using hy, hne⟩
    · rw [hshift]
      exact h.1 j (by omega)
  · rw [hshift]
    exact h.2

/-- The rows of the first `n` entries of the list can be drawn. -/
def RowsPaint (g : PeriGfx) (mem : Mem) (ypos a : Int) (n : Nat) : Prop :=
  ∀ j < n, Paints (spriteRow g mem ypos (a + 8 * (j : Nat))) (spriteRowLayer g mem ypos (a + 8 * (j : Nat)))

theorem RowsPaint.tail {a : Int} {n : Nat} (h : RowsPaint g mem ypos a (n + 1)) :
    RowsPaint g mem ypos (a + 8) n := by
  intro j hj
  have hshift : a + 8 * ((j + 1 : Nat) : Int) = a + 8 + 8 * j := by push_cast; ring
  rw [← hshift]
  exact h (j + 1) (by omega)

/-- A list loop that ends has found the end marker, after entries that it could draw. -/
theorem spriteLoop_rows {fuel : Nat} {a : Int} {limit : Int} {w : Bool} {s : Scanline}
    {r : Scanline × Bool} (h : spriteLoop g mem ypos fuel a limit w s = .ok r) :
    ∃ n, n + 1 ≤ fuel ∧ SpriteListAt mem a n ∧ RowsPaint g mem ypos a n := by
  -- on the fuel, one entry a step; counter and buffer are generalised because each entry changes them
  induction fuel generalizing a limit w s with
  | zero => cases h
  | succ fuel ih =>
      rw [spriteLoop_succ, bind_eq_ok] at h
      obtain ⟨y, hy, h⟩ := h
      by_cases hend : y = spriteListEndMarker
      · -- the marker is here: the list is empty
        subst hend
        exact ⟨0, by omega, ⟨fun j hj => absurd hj (Nat.not_lt_zero j), by simpa using hy⟩,
          fun j hj => absurd hj (Nat.not_lt_zero j)⟩
      · -- one entry, then the list that starts after it
        rw [if_neg hend, bind_eq_ok] at h
        obtain ⟨s₁, hrow, hrest⟩ := h
        obtain ⟨n, hn, hlist, hrows⟩ := ih hrest
        refine ⟨n + 1, by omega, hlist.cons hy hend, ?_⟩
        intro j hj
        rcases j with _ | j
        · have hzero : a + 8 * ((0 : Nat) : Int) = a := by simp
          rw [hzero]
          exact spriteRow_uniform g mem ypos a _ _ hrow
        · have hshift : a + 8 * ((j + 1 : Nat) : Int) = a + 8 + 8 * j := by push_cast; ring
          rw [hshift]
          exact hrows j (by omega)

/-- **The list loop paints the stack of the list's rows**, in list order and whatever the counter and the buffer. -/
theorem spriteLoop_total {n : Nat} {a : Int} (hlist : SpriteListAt mem a n) (hrows : RowsPaint g mem ypos a n)
    {fuel : Nat} (hfuel : n + 1 ≤ fuel) (limit : Int) (w : Bool) (s : Scanline) : ∃ w',
      spriteLoop g mem ypos fuel a limit w s
        = .ok ((Layer.stack (fun j => spriteRowLayer g mem ypos (a + 8 * j)) n).paint s, w') := by
  -- on the entries; what is left after one is the list that starts behind it
  induction n generalizing a fuel limit w s with
  | zero =>
      obtain ⟨fuel, rfl⟩ := Nat.exists_eq_add_of_le' hfuel
      have hend : spriteYpos mem a = .ok spriteListEndMarker := by simpa using hlist.2
      refine ⟨w, ?_⟩
      rw [spriteLoop_succ, hend, ok_bind, if_pos rfl]
      rfl
  | succ n ih =>
      obtain ⟨fuel, rfl⟩ := Nat.exists_eq_add_of_le' (le_trans (Nat.le_add_left 1 (n + 1)) hfuel)
      obtain ⟨y, hy, hne⟩ := hlist.1 0 (Nat.succ_pos n)
      have hrow := hrows 0 (Nat.succ_pos n) s
      have hzero : a + 8 * ((0 : Nat) : Int) = a := by simp
      rw [hzero] at hy hrow
      obtain ⟨w', hw'⟩ := ih hlist.tail hrows.tail (show n + 1 ≤ fuel by omega) (i32 (limit - 1))
        (w || i32 (limit - 1) == 0) ((spriteRowLayer g mem ypos a).paint s)
      refine ⟨w', ?_⟩
      have hshift : (fun j : Nat => spriteRowLayer g mem ypos (a + 8 + 8 * j))
          = fun j : Nat => spriteRowLayer g mem ypos (a + 8 * ((j + 1 : Nat) : Int)) := by
        funext j
        congr 1; push_cast; ring
      rw [spriteLoop_succ, hy, ok_bind, if_neg hne, hrow, ok_bind, hw', Layer.stack_succ_left, Layer.paint_onTop,
        hshift, hzero]

/-- The sprite device is on. -/
def SpritesActive (g : PeriGfx) : Prop := g.spriteTileAddr ≠ 0 ∧ g.spriteListAddr ≠ 0

instance (g : PeriGfx) : Decidable (SpritesActive g) := by unfold SpritesActive; infer_instance

/-- The first `n` rows of the sprite list as one layer: nothing when sprites are off. -/
def spritesLayer (g : PeriGfx) (mem : Mem) (ypos : Int) (n : Nat) : Layer (Fin 320) UInt8 :=
  if SpritesActive g then
    Layer.stack (fun j => spriteRowLayer g mem ypos (g.spriteListAddr.toNat + 8 * j)) n
  else Layer.clear

/-- A list that ends and rows that can be drawn are drawn. -/
theorem sprites_run (ha : SpritesActive g) {n : Nat} (hlist : SpriteListAt mem g.spriteListAddr.toNat n)
    (hrows : RowsPaint g mem ypos g.spriteListAddr.toNat n) {fuel : Nat} (hfuel : n + 1 ≤ fuel) :
    Paints (fun s => gfxRenderSprites fuel s ypos g mem) (spritesLayer g mem ypos n) := by
  intro s
  obtain ⟨w', hw'⟩ := spriteLoop_total hlist hrows hfuel 200 false s
  have hact := ha
  obtain ⟨ht, hl⟩ := ha
  simp only [gfxRenderSprites, ht, hl, or_self, if_false, hw', ok_bind, spritesLayer, hact, if_true]
  rfl

/-- Sprites that are off leave the buffer as it is. -/
theorem sprites_inactive (ha : ¬ SpritesActive g) (fuel : Nat) (s : Scanline) :
    gfxRenderSprites fuel s ypos g mem = .ok s := by
  unfold gfxRenderSprites
  rw [if_pos]
  unfold SpritesActive at ha
  tauto

/-- A call that succeeds with the device on has walked a list that ends and drawn its rows. -/
theorem sprites_rows (ha : SpritesActive g) {fuel : Nat} {s s' : Scanline}
    (h : gfxRenderSprites fuel s ypos g mem = .ok s') :
    ∃ n, n + 1 ≤ fuel ∧ SpriteListAt mem g.spriteListAddr.toNat n ∧ RowsPaint g mem ypos g.spriteListAddr.toNat n := by
  obtain ⟨ht, hl⟩ := ha
  simp only [gfxRenderSprites, ht, hl, or_self, if_false, bind_eq_ok] at h
  obtain ⟨r, hr, -⟩ := h
  exact spriteLoop_rows hr

/-- **The sprite renderer paints the rows of its list**, which ends, if sprites are on. -/
theorem sprites_paint {fuel : Nat} {s s' : Scanline} (h : gfxRenderSprites fuel s ypos g mem = .ok s') :
    ∃ n, (SpritesActive g → SpriteListAt mem g.spriteListAddr.toNat n) ∧
      Paints (fun s => gfxRenderSprites fuel s ypos g mem) (spritesLayer g mem ypos n) := by
  by_cases ha : SpritesActive g
  · obtain ⟨n, hfuel, hlist, hrows⟩ := sprites_rows ha h
    exact ⟨n, fun _ => hlist, sprites_run ha hlist hrows hfuel⟩
  · refine ⟨0, fun h => absurd h ha, ?_⟩
    intro s
    show gfxRenderSprites fuel s ypos g mem = _
    rw [sprites_inactive ha, spritesLayer, if_neg ha, Layer.paint_clear]

/-! ## The scanline -/

/-- Everything drawn on a scanline: framebuffer, backgrounds 0 to 2, `n` sprites. -/
def sceneLayer (g : PeriGfx) (mem : Mem) (ypos : Int) (n : Nat) : Layer (Fin 320) UInt8 :=
  (spritesLayer g mem ypos n).onTop
    ((Layer.stack (fun i => bgndLayer (g.bgnd (bgndFin i)) mem ypos) gfxBgndCount).onTop
      (fbLayer g mem ypos))

theorem renderBgnds_uniform (fuel : Nat) (ypos : Int) (g : PeriGfx) (mem : Mem) :
    Uniform (renderBgnds fuel ypos g mem)
      (Layer.stack (fun i => bgndLayer (g.bgnd (bgndFin i)) mem ypos) gfxBgndCount) :=
  Uniform.forFrom gfxBgndCount (fun i _ => bgnd_uniform fuel (g.bgnd (bgndFin i)) mem ypos)

/-- **One scanline paints one layer.** If the layers can be rendered over one buffer, they render over every
    buffer, to the same scene. -/
theorem renderLayers_paints {fuel : Nat} {s s' : Scanline} (h : renderLayers fuel ypos g mem s = .ok s') :
    ∃ n, (SpritesActive g → SpriteListAt mem g.spriteListAddr.toNat n) ∧
      Paints (renderLayers fuel ypos g mem) (sceneLayer g mem ypos n) := by
  obtain ⟨s₁, h₁, h'⟩ := bind_eq_ok.mp h
  obtain ⟨s₂, h₂, h₃⟩ := bind_eq_ok.mp h'
  obtain ⟨n, hn, hsprites⟩ := sprites_paint h₃
  refine ⟨n, hn, ?_⟩
  intro t
  have hfb : gfxRenderFbScanline t ypos g mem = .ok ((fbLayer g mem ypos).paint t) :=
    fb_uniform g mem ypos s s₁ h₁ t
  have hspr (t : Scanline) :
      gfxRenderSprites fuel t ypos g mem = .ok ((spritesLayer g mem ypos n).paint t) := hsprites t
  simp only [renderLayers, hfb, ok_bind, renderBgnds_uniform fuel ypos g mem s₁ s₂ h₂ _, hspr, sceneLayer,
    Layer.paint_onTop]

end HadBadge
