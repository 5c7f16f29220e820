import HadBadge.Emu.Layers

/-!
# `Correctness.Framebuffer`: the framebuffer as a torus

`gfx_render_fb_scanline` resets its column to 0 at the right edge of the framebuffer, so a line wraps as often
as it has to. Its row is reduced by one conditional subtraction only: a framebuffer of fewer lines than the
screen is left behind below its second copy.
-/

namespace HadBadge

open Lib

variable {g : PeriGfx} {r : Ram} {mem : Mem} {ypos : Int}

/-- A framebuffer in RAM, scrolled to one of its pixels. -/
structure PeriGfx.FbInRam (g : PeriGfx) : Prop where
  base : g.fbBase ≠ 0
  pitch : 1 ≤ g.fbPitch.toNat
  height : 1 ≤ g.fbHeight.toNat
  fits : g.fbBase.toNat + g.fbPitch.toNat * g.fbHeight.toNat ≤ machRamSize
  scrollx : g.fbScrollx.toNat < g.fbPitch.toNat
  scrolly : g.fbScrolly.toNat < g.fbHeight.toNat

/-- The bytes of the framebuffer. -/
def PeriGfx.FbBytes (g : PeriGfx) (i : Int) : Prop :=
  (g.fbBase.toNat : Int) ≤ i ∧ i < g.fbBase.toNat + (g.fbPitch.toNat * g.fbHeight.toNat : Nat)

instance (g : PeriGfx) : DecidablePred g.FbBytes := fun i => by unfold PeriGfx.FbBytes; infer_instance

/-- The address of column `x` of row `y`. -/
def PeriGfx.fbAddr (g : PeriGfx) (x y : Nat) : Int := g.fbBase.toNat + ((y * g.fbPitch.toNat + x : Nat) : Int)

/-- Line `ypos` shows the torus: over every buffer, and with the framebuffer's bytes alone. -/
def FbShowsTorus (g : PeriGfx) (r : Ram) (ypos : Int) : Prop :=
  ∀ s, ∃ out, gfxRenderFbScanline s ypos g (r.mem.restrict g.FbBytes) = .ok out ∧
    gfxRenderFbScanline s ypos g r.mem = .ok out ∧
    ∀ i : Fin 320, r.mem (g.fbAddr ((g.fbScrollx.toNat + i) % g.fbPitch.toNat)
      ((ypos.toNat + g.fbScrolly.toNat) % g.fbHeight.toNat)) = some (out i)

/-- Sizes of a framebuffer in RAM. -/
theorem PeriGfx.FbInRam.sizes (hg : g.FbInRam) :
    g.fbPitch.toNat ≤ 8388608 ∧ g.fbHeight.toNat ≤ 8388608 ∧ g.fbBase.toNat ≤ 8388608 := by
  have hfits := hg.fits
  simp only [machRamSize] at hfits
  have hp : g.fbPitch.toNat ≤ g.fbPitch.toNat * g.fbHeight.toNat := Nat.le_mul_of_pos_right _ hg.height
  have hh : g.fbHeight.toNat ≤ g.fbPitch.toNat * g.fbHeight.toNat := Nat.le_mul_of_pos_left _ hg.pitch
  omega

/-- The column wraps as often as it has to. -/
theorem fbX_eq (hg : g.FbInRam) (i : Nat) : fbX g i = ((g.fbScrollx.toNat + i) % g.fbPitch.toNat : Nat) := by
  obtain ⟨hp, -, -⟩ := hg.sizes
  have hsx := hg.scrollx
  -- on the pixel; a column below the pitch is an `int`, and so is its successor
  induction i with
  | zero =>
      rw [Nat.add_zero, Nat.mod_eq_of_lt hsx]
      exact i32_of_range (by omega) (by omega)
  | succ i ih =>
      have hlt := Nat.mod_lt (g.fbScrollx.toNat + i) hg.pitch
      have hsucc : (g.fbScrollx.toNat + (i + 1)) % g.fbPitch.toNat
          = ((g.fbScrollx.toNat + i) % g.fbPitch.toNat + 1) % g.fbPitch.toNat := by
        rw [Nat.mod_add_mod, Nat.add_assoc]
      simp only [fbX]
      rw [ih, hsucc]
      generalize (g.fbScrollx.toNat + i) % g.fbPitch.toNat = x at hlt
      have hu : u32 (i32 ((x : Int) + 1)) = x + 1 := by
        rw [u32_i32, show (x : Int) + 1 = ((x + 1 : Nat) : Int) by push_cast; rfl, u32_natCast]
        omega
      rw [hu]
      by_cases hle : g.fbPitch.toNat ≤ x + 1
      · have heq : x + 1 = g.fbPitch.toNat := by omega
        rw [if_pos hle, heq, Nat.mod_self]
        rfl
      · rw [if_neg hle, Nat.mod_eq_of_lt (by omega), i32_of_range (by omega) (by omega)]
        push_cast
        rfl

/-- The row that the source computes for line `ypos`. -/
def fbRow (g : PeriGfx) (ypos : Int) : Nat :=
  if g.fbHeight.toNat ≤ ypos.toNat + g.fbScrolly.toNat then ypos.toNat + g.fbScrolly.toNat - g.fbHeight.toNat
  else ypos.toNat + g.fbScrolly.toNat

theorem fbRow_lt (hg : g.FbInRam) (h0 : 0 ≤ ypos) (h1 : ypos < 240) :
    fbRow g ypos < g.fbHeight.toNat + 240 := by
  have hsy := hg.scrolly
  unfold fbRow
  by_cases hle : g.fbHeight.toNat ≤ ypos.toNat + g.fbScrolly.toNat
  · rw [if_pos hle]; omega
  · rw [if_neg hle]; omega

/-- One subtraction is enough exactly for the first two copies of the framebuffer. -/
theorem fbRow_lt_iff (hg : g.FbInRam) (ypos : Int) :
    fbRow g ypos < g.fbHeight.toNat ↔ ypos.toNat + g.fbScrolly.toNat < 2 * g.fbHeight.toNat := by
  have hsy := hg.scrolly
  unfold fbRow
  by_cases hle : g.fbHeight.toNat ≤ ypos.toNat + g.fbScrolly.toNat
  · rw [if_pos hle]; omega
  · rw [if_neg hle]; omega

theorem fbRow_eq_mod (hlt : ypos.toNat + g.fbScrolly.toNat < 2 * g.fbHeight.toNat) :
    fbRow g ypos = (ypos.toNat + g.fbScrolly.toNat) % g.fbHeight.toNat := by
  unfold fbRow
  by_cases hle : g.fbHeight.toNat ≤ ypos.toNat + g.fbScrolly.toNat
  · rw [if_pos hle, Nat.mod_eq_sub_mod hle, Nat.mod_eq_of_lt (by omega)]
  · rw [if_neg hle, Nat.mod_eq_of_lt (by omega)]

theorem fbY_eq (hg : g.FbInRam) (h0 : 0 ≤ ypos) (h1 : ypos < 240) : fbY g ypos = fbRow g ypos := by
  obtain ⟨-, hh, -⟩ := hg.sizes
  have hsy := hg.scrolly
  have hsum : i32 (ypos + g.fbScrolly.toNat) = ((ypos.toNat + g.fbScrolly.toNat : Nat) : Int) := by
    rw [i32_of_range (by omega) (by omega)]
    omega
  unfold fbY fbRow
  dsimp only
  rw [hsum, u32_natCast, Nat.mod_eq_of_lt (by omega)]
  by_cases hle : g.fbHeight.toNat ≤ ypos.toNat + g.fbScrolly.toNat
  · rw [if_pos hle, if_pos hle, i32_of_range (by omega) (by omega)]
    omega
  · rw [if_neg hle, if_neg hle]

/-- Pixel `i` of line `ypos` is read from the row that the source computes. -/
theorem fbLayer_eq (hg : g.FbInRam) (h0 : 0 ≤ ypos) (h1 : ypos < 240) (i : Fin 320) :
    fbLayer g mem ypos i = mem (g.fbAddr ((g.fbScrollx.toNat + i) % g.fbPitch.toNat) (fbRow g ypos)) := by
  obtain ⟨hp, hh, hb⟩ := hg.sizes
  have hrow := fbRow_lt hg h0 h1
  have hfits := hg.fits
  simp only [machRamSize] at hfits
  -- even a row below the framebuffer has a product that fits in `uint32_t`
  have hprod : fbRow g ypos * g.fbPitch.toNat ≤ 8388608 + 240 * 8388608 := by
    calc fbRow g ypos * g.fbPitch.toNat ≤ (g.fbHeight.toNat + 240) * g.fbPitch.toNat :=
          Nat.mul_le_mul_right _ (by omega)
      _ = g.fbPitch.toNat * g.fbHeight.toNat + 240 * g.fbPitch.toNat := by ring
      _ ≤ 8388608 + 240 * 8388608 := by omega
  have hline : fbLine g ypos = g.fbBase.toNat + ((fbRow g ypos * g.fbPitch.toNat : Nat) : Int) := by
    unfold fbLine
    rw [fbY_eq hg h0 h1, u32_natCast, Nat.mod_eq_of_lt (by omega : fbRow g ypos < 4294967296)]
    rw [show (g.fbBase.toNat : Int) + ((fbRow g ypos : Nat) : Int) * (g.fbPitch.toNat : Int)
      = ((g.fbBase.toNat + fbRow g ypos * g.fbPitch.toNat : Nat) : Int) by push_cast; ring, u32_natCast,
      Nat.mod_eq_of_lt (by omega)]
    push_cast
    rfl
  simp only [fbLayer, hg.base, if_false]
  rw [hline, fbX_eq hg, PeriGfx.fbAddr]
  congr 1
  push_cast
  ring

/-- A position is in the framebuffer exactly if its row is. -/
theorem fbAddr_mem_iff {x : Nat} (hx : x < g.fbPitch.toNat) (y : Nat) :
    g.FbBytes (g.fbAddr x y) ↔ y < g.fbHeight.toNat := by
  unfold PeriGfx.FbBytes PeriGfx.fbAddr
  constructor
  · rintro ⟨-, hlt⟩
    by_contra hge
    have : g.fbPitch.toNat * g.fbHeight.toNat ≤ y * g.fbPitch.toNat := by
      rw [Nat.mul_comm y]
      exact Nat.mul_le_mul_left _ (by omega)
    omega
  · intro hy
    have := cellIdx_lt hx hy
    constructor <;> omega

/-- Below the second copy of the framebuffer the renderer leaves it at the first pixel. -/
theorem fb_overrun (hg : g.FbInRam) (h0 : 0 ≤ ypos) (h1 : ypos < 240)
    (hge : 2 * g.fbHeight.toNat ≤ ypos.toNat + g.fbScrolly.toNat) {s out : Scanline} :
    gfxRenderFbScanline s ypos g (r.mem.restrict g.FbBytes) ≠ .ok out := by
  intro h
  have hread := fb_reads hg.base h 0
  have hrow := fbRow_lt_iff hg ypos
  have hx := Nat.mod_lt (g.fbScrollx.toNat + ((0 : Fin 320) : Nat)) hg.pitch
  rw [fbLayer_eq hg h0 h1, Mem.restrict_of_not (by rw [fbAddr_mem_iff hx]; omega)] at hread
  exact absurd hread (by decide)

/-- In the first two copies it shows the torus. -/
theorem fb_torus_of_lt (hg : g.FbInRam) (h0 : 0 ≤ ypos) (h1 : ypos < 240)
    (hlt : ypos.toNat + g.fbScrolly.toNat < 2 * g.fbHeight.toNat) : FbShowsTorus g r ypos := by
  have hrow := (fbRow_lt_iff hg ypos).mpr hlt
  have hin (i : Fin 320) :
      g.FbBytes (g.fbAddr ((g.fbScrollx.toNat + i) % g.fbPitch.toNat) (fbRow g ypos)) :=
    (fbAddr_mem_iff (Nat.mod_lt _ hg.pitch) _).mpr hrow
  have hlayer : fbLayer g (r.mem.restrict g.FbBytes) ypos = fbLayer g r.mem ypos := by
    funext i
    rw [fbLayer_eq hg h0 h1, fbLayer_eq hg h0 h1, Mem.restrict_of (hin i)]
  have hsome : ∀ i, (fbLayer g r.mem ypos i).isSome := by
    intro i
    have hfits := hg.fits
    have hi := hin i
    unfold PeriGfx.FbBytes at hi
    rw [fbLayer_eq hg h0 h1]
    exact r.isSome_of_range (by omega) (by omega)
  intro s
  refine ⟨(fbLayer g r.mem ypos).paint s, ?_, fb_total hg.base hsome s, ?_⟩
  · have htotal := @fb_total g (r.mem.restrict g.FbBytes) ypos hg.base (by rw [hlayer]; exact hsome) s
    rwa [hlayer] at htotal
  · intro i
    obtain ⟨c, hc⟩ := Option.isSome_iff_exists.mp (hsome i)
    rw [Layer.paint_of_some hc, ← hc, fbLayer_eq hg h0 h1, fbRow_eq_mod hlt]

/-- **The framebuffer renderer shows the torus exactly in the first two copies of the framebuffer.** For every
    framebuffer in RAM, scrolled to one of its pixels, and every line of the screen. -/
theorem fb_torus_iff (r : Ram) (hg : g.FbInRam) (h0 : 0 ≤ ypos) (h1 : ypos < 240) :
    FbShowsTorus g r ypos ↔ ypos.toNat + g.fbScrolly.toNat < 2 * g.fbHeight.toNat := by
  constructor
  · intro h
    by_contra hge
    obtain ⟨out, hout, -⟩ := h (fun _ => 0)
    exact fb_overrun hg h0 h1 (by omega) hout
  · intro hlt
    exact fb_torus_of_lt hg h0 h1 hlt

/-- A framebuffer of 100 lines. -/
def shortFb : PeriGfx := { periGfxInit with fbBase := 0x1000, fbPitch := 320, fbHeight := 100 }

theorem shortFb_inRam : shortFb.FbInRam := by
  constructor <;> decide

/-- Its line 150 is shown from its row 50. -/
theorem fb_torus_iff_short :
    FbShowsTorus shortFb (Ram.fill 0) 150 ↔ (150 : Int).toNat + shortFb.fbScrolly.toNat < 2 * shortFb.fbHeight.toNat :=
  fb_torus_iff (Ram.fill 0) shortFb_inRam (by decide) (by decide)

/-- On line 239 the renderer reads row 139 of its 100. -/
theorem fb_leaves_short : ¬ ∀ (g : PeriGfx) (r : Ram) (ypos : Int), g.FbInRam → 0 ≤ ypos → ypos < 240 →
    FbShowsTorus g r ypos := by
  intro h
  obtain ⟨out, hout, -⟩ := h shortFb (Ram.fill 0) 239 shortFb_inRam (by decide) (by decide) (fun _ => 0)
  exact fb_overrun shortFb_inRam (by decide) (by decide) (by decide) hout

end HadBadge
