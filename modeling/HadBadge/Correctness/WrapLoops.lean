import HadBadge.Emu.Bounds
import HadBadge.Correctness.Registers

/-!
# `Correctness.WrapLoops`: when the background renderer ends

The renderer checks that width and height are not zero, and then reduces positions modulo eight times each of
them, in 32 bits. Where the product wraps to zero it subtracts zero for ever.
-/

namespace HadBadge

open Lib

variable {b : PeriGfxBgnd} {ypos : Int} {mem : Mem}

/-- Eight times a size is zero for the multiples of `2^29`. -/
theorem timesEight_eq_zero_iff {v : UInt32} : timesEight v = 0 ↔ v.toNat % 536870912 = 0 := by
  unfold timesEight u32
  omega

/-- **The background renderer ends exactly where a size is zero or neither is a multiple of `2^29`**, whatever
    the scroll registers, the line, the buffer and memory. -/
theorem bgnd_ends_iff (b : PeriGfxBgnd) (hgfx : b.gfxAddr ≠ 0) (hmap : b.mapAddr ≠ 0) (ypos : Int) (s : Scanline)
    (mem : Mem) :
    (∃ fuel, gfxRenderBgndScanline fuel s ypos b mem ≠ .error .fuel) ↔
      b.width = 0 ∨ b.height = 0 ∨ (b.width.toNat % 536870912 ≠ 0 ∧ b.height.toNat % 536870912 ≠ 0) := by
  have hcond : ¬ b.Hangs ↔
      b.width = 0 ∨ b.height = 0 ∨ (b.width.toNat % 536870912 ≠ 0 ∧ b.height.toNat % 536870912 ≠ 0) := by
    simp only [PeriGfxBgnd.Hangs, PeriGfxBgnd.Active, timesEight_eq_zero_iff]
    tauto
  rw [← hcond]
  constructor
  · rintro ⟨fuel, h⟩ hhang
    exact h (bgnd_hangs hhang fuel s ypos mem)
  · intro hhang
    refine ⟨4294967296, fun h => ?_⟩
    obtain ⟨i, hi⟩ := bgnd_onlyOob (le_refl _) hhang s mem _ h
    cases hi

theorem bgnd_ends_iff_map :
    ∃ fuel, gfxRenderBgndScanline fuel (fun _ => 0) 17 ⟨4096, 8192, 40, 30, 4000000000, 7, 255⟩ (Ram.fill 0).mem
      ≠ .error .fuel :=
  (bgnd_ends_iff ⟨4096, 8192, 40, 30, 4000000000, 7, 255⟩ (by decide) (by decide) 17 _ _).mpr
    (.inr (.inr ⟨by decide, by decide⟩))

/-- Four writes of the guest after which line 0 is never finished: a map of `1 × 2^29` cells. -/
theorem bgnd_never_ends :
    ∃ g, runM gfxEvent periGfxInit
        [.write 0x40 4096, .write 0x44 8192, .write 0x48 1, .write 0x4c 0x20000000] = .ok g ∧
      ∀ fuel s mem, gfxRenderBgndScanline fuel s 0 (g.bgnd 0) mem = .error .fuel := by
  obtain ⟨g, hg, hb⟩ : ∃ g, runM gfxEvent periGfxInit
      [.write 0x40 4096, .write 0x44 8192, .write 0x48 1, .write 0x4c 0x20000000] = .ok g ∧
        g.bgnd 0 = ⟨4096, 8192, 1, 0x20000000, 0, 0, 0⟩ := ⟨_, rfl, by decide +kernel⟩
  refine ⟨g, hg, fun fuel s mem => ?_⟩
  rw [hb]
  exact bgnd_hangs ⟨⟨by decide, by decide, by decide, by decide⟩, .inl (timesEight_eq_zero_iff.mpr (by decide))⟩ fuel s 0 mem

end HadBadge
