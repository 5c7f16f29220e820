import HadBadge.Sdk.ExtGfx

/-!
# `Correctness.Commands`: when the background commands crash

`BGNDINIT` and `BGNDSCROLL` check the background number themselves and then call driver functions that assert it.
The two checks disagree on one number, and `BGNDSCROLL` divides by the size that it reads back, which is 0
as long as the background has no map.
-/

namespace HadBadge

open Lib

variable {g : PeriGfx} {mem : Mem} {tm w h : Nat}

/-- A command that fails without an effect when `id` is not a background, and completes when it is one. -/
def RejectsOrCompletes (g : PeriGfx) (id : Int) (o : Except Fault (MbFunc × PeriGfx)) : Prop :=
  if 0 ≤ id ∧ id < gfxBgndCount then ∃ g', o = .ok (.ok, g') else o = .ok (.err, g)

/-- A number that is not 3 is refused by the commands' own check or names a background. -/
theorem id_cases {id : Int} (h3 : id ≠ 3) :
    ((id < 0 ∨ (gfxBgndCount : Int) < id) ∧ ¬ (0 ≤ id ∧ id < gfxBgndCount)) ∨ ∃ i : Fin 3, id = i := by
  simp only [gfxBgndCount]
  by_cases hin : 0 ≤ id ∧ id < 3
  · right
    refine ⟨⟨id.toNat, by omega⟩, ?_⟩
    show id = (id.toNat : Int)
    omega
  · left
    omega

theorem rejectsOrCompletes_fin {i : Fin 3} {o : Except Fault (MbFunc × PeriGfx)} :
    RejectsOrCompletes g i o ↔ ∃ g', o = .ok (.ok, g') := by
  have hi := i.isLt
  unfold RejectsOrCompletes
  rw [if_pos (by simp only [gfxBgndCount]; omega)]

/-- Three passes the commands' check and fails the driver's. -/
theorem bgndinit_three (gfx : UInt32) (transcol : Int) : bgndinit g mem 3 tm gfx transcol = .error .abort := rfl

theorem bgndscroll_three (sx sy : Int) : bgndscroll g 3 sx sy = .error .abort := rfl

theorem not_rejectsOrCompletes_error {id : Int} {f : Fault} : ¬ RejectsOrCompletes g id (.error f) := by
  unfold RejectsOrCompletes
  by_cases hin : 0 ≤ id ∧ id < (gfxBgndCount : Int)
  · rw [if_pos hin]
    rintro ⟨g', h⟩
    cases h
  · rw [if_neg hin]
    intro h
    cases h

theorem bgndinit_iff (hw : u16At mem tm = .ok w) (hh : u16At mem (tm + 2) = .ok h) (id : Int) (gfx : UInt32)
    (transcol : Int) : RejectsOrCompletes g id (bgndinit g mem id tm gfx transcol) ↔ id ≠ 3 := by
  constructor
  · rintro hr rfl
    rw [bgndinit_three] at hr
    exact not_rejectsOrCompletes_error hr
  · intro h3
    rcases id_cases h3 with ⟨hbad, hout⟩ | ⟨i, rfl⟩
    · unfold RejectsOrCompletes bgndinit
      rw [if_neg hout, if_pos hbad]
    · have hi := i.isLt
      rw [rejectsOrCompletes_fin]
      unfold bgndinit
      rw [if_neg (by simp only [gfxBgndCount]; omega), gfxBgndSetGfx_fin, ok_bind, gfxBgndSetMap_fin hw hh, ok_bind]
      exact ⟨_, rfl⟩

/-- `BGNDSCROLL` on a background that has a size of 0 in either direction. -/
theorem bgndscroll_zero (i : Fin 3) (h0 : (g.bgnd i).width = 0 ∨ (g.bgnd i).height = 0) (sx sy : Int) :
    ∃ f, bgndscroll g i sx sy = .error f := by
  have hi := i.isLt
  have hrem (a : Int) : remI32 a (i32 (i32 (0 : UInt32).toNat * 8)) = .error .divZero := if_pos (by decide)
  unfold bgndscroll
  rw [if_neg (by simp only [gfxBgndCount]; omega), gfxBgndGetW_fin, gfxBgndGetH_fin, ok_bind]
  by_cases hw : (g.bgnd i).width = 0
  · rw [hw, hrem]
    exact ⟨_, rfl⟩
  · -- the width is divided by first; only if that succeeds is the height
    rw [h0.resolve_left hw]
    cases remI32 sx (i32 (i32 (g.bgnd i).width.toNat * 8)) with
    | error f => exact ⟨f, rfl⟩
    | ok x =>
        refine ⟨.divZero, ?_⟩
        simp only [ok_bind, hrem, error_bind]

theorem bgndscroll_iff (hg : g.Sizes16) (id sx sy : Int) :
    RejectsOrCompletes g id (bgndscroll g id sx sy) ↔
      id ≠ 3 ∧ ∀ i : Fin 3, id = i → (g.bgnd i).width ≠ 0 ∧ (g.bgnd i).height ≠ 0 := by
  have hpos {v : UInt32} (hv : v ≠ 0) : 0 < v.toNat := Nat.pos_of_ne_zero (fun he => hv (UInt32.toNat_inj.mp he))
  constructor
  · intro hr
    refine ⟨?_, ?_⟩
    · rintro rfl
      rw [bgndscroll_three] at hr
      exact not_rejectsOrCompletes_error hr
    · rintro i rfl
      by_contra hzero
      rw [not_and_or, not_not, not_not] at hzero
      obtain ⟨f, hf⟩ := bgndscroll_zero i hzero sx sy
      rw [hf] at hr
      exact not_rejectsOrCompletes_error hr
  · rintro ⟨h3, hsize⟩
    rcases id_cases h3 with ⟨hbad, hout⟩ | ⟨i, rfl⟩
    · unfold RejectsOrCompletes bgndscroll
      rw [if_neg hout, if_pos hbad]
    · obtain ⟨hw, hh⟩ := hsize i rfl
      obtain ⟨hw16, hh16⟩ := hg i
      rw [rejectsOrCompletes_fin, bgndscroll_fin i (hpos hw) hw16 (hpos hh) hh16]
      exact ⟨_, rfl⟩

/-- **When the background commands reject or complete.** In every register state that the driver leads to, with
    every map whose header can be read: `BGNDINIT` does on every number but 3, and `BGNDSCROLL` does on every
    number but 3 and those of backgrounds with a size of 0. -/
theorem bgnd_commands_iff (hg : DriverReachable g) (hw : u16At mem tm = .ok w) (hh : u16At mem (tm + 2) = .ok h)
    (id : Int) :
    (∀ gfx transcol, RejectsOrCompletes g id (bgndinit g mem id tm gfx transcol) ↔ id ≠ 3) ∧
    (∀ sx sy, RejectsOrCompletes g id (bgndscroll g id sx sy) ↔
      id ≠ 3 ∧ ∀ i : Fin 3, id = i → (g.bgnd i).width ≠ 0 ∧ (g.bgnd i).height ≠ 0) :=
  ⟨bgndinit_iff hw hh id, bgndscroll_iff hg.sizes16 id⟩

/-- A map of `3 × 2` cells at 0x2000. -/
def cellsRam : Ram := ((Ram.fill 0).setByte 0x2000 3).setByte 0x2002 2

/-- Background 0 shows the map. -/
def cellsRegs : PeriGfx :=
  periGfxInit.setBgnd (bgndFin 0) { periGfxInit.bgnd (bgndFin 0) with width := 3, height := 2, mapAddr := 0x2004 }

theorem cellsRegs_reachable : DriverReachable cellsRegs := by
  refine .call cellsRam.guest (.bgndSetMap 0 0x2000) .init ?_
  exact gfxBgndSetMap_fin (i := bgndFin 0) rfl rfl

/-- The commands on the first background, which has a map with cells: both complete. -/
theorem bgnd_commands_iff_cells :
    ((∀ gfx transcol, RejectsOrCompletes cellsRegs 0 (bgndinit cellsRegs cellsRam.guest 0 0x2000 gfx transcol) ↔
        (0 : Int) ≠ 3) ∧
      (∀ sx sy, RejectsOrCompletes cellsRegs 0 (bgndscroll cellsRegs 0 sx sy) ↔
        (0 : Int) ≠ 3 ∧ ∀ i : Fin 3, (0 : Int) = i → (cellsRegs.bgnd i).width ≠ 0 ∧ (cellsRegs.bgnd i).height ≠ 0)) ∧
    RejectsOrCompletes cellsRegs 0 (bgndscroll cellsRegs 0 25 (-1)) := by
  have h := @bgnd_commands_iff cellsRegs cellsRam.guest 0x2000 3 2 cellsRegs_reachable rfl rfl 0
  refine ⟨h, (h.2 25 (-1)).mpr ⟨by decide, ?_⟩⟩
  intro i hi
  obtain rfl : i = 0 := by omega
  decide

/-- `BGNDINIT 3` fails the driver's assertion. -/
theorem bgnd_commands_crash :
    ¬ ∀ (g : PeriGfx) (mem : Mem) (tm w h : Nat), DriverReachable g → u16At mem tm = .ok w →
      u16At mem (tm + 2) = .ok h → tm ≠ 0 → ∀ (id : Int) (gfx : UInt32), gfx ≠ 0 → ∀ transcol sx sy : Int,
      RejectsOrCompletes g id (bgndinit g mem id tm gfx transcol) ∧
      RejectsOrCompletes g id (bgndscroll g id sx sy) := by
  intro hall
  have hone := hall periGfxInit (Ram.fill 0).guest 8192 0 0 .init rfl rfl (by decide) 3 1 (by decide) 0 0 0
  rw [bgndinit_three] at hone
  exact not_rejectsOrCompletes_error hone.1

end HadBadge
