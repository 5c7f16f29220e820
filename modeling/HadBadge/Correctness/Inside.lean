import HadBadge.Emu.CheatBounds
import HadBadge.Lib.Run

/-!
# `Correctness.Inside`: the peripherals and the end of RAM

The CPU checks the range of every access. The graphics and the cheat device do not: they index `main_mem` with what
the guest wrote to their registers. This module runs both devices and the renderer under any order of register
accesses and rendered lines, RAM and the host's files changing between them as they like, and says when none of
them leaves RAM: every step has to be one that stays inside on its own.
-/

namespace HadBadge

open Lib

/-- The two devices, the screen and the memory they share. `stop` is what the emulator has stopped with, if it has:
    the first index out of RAM, for one. -/
structure Peripherals where
  g : PeriGfx
  cheat : PeriCheat
  surf : Surface
  mem : Mem
  stop : Option Fault

inductive PeriEvent where
  /-- the guest writes a register of the graphics device -/
  | gfxWrite (offset val : UInt32)
  /-- the guest writes a register of the cheat device, the files of the host being `host` -/
  | cheatWrite (host : Host) (offset val : UInt32)
  /-- the guest reads a register of the cheat device -/
  | cheatRead (host : Host) (offset : UInt32)
  /-- a line is rendered, `scanline` being what its buffer held before -/
  | renderScanline (scanline : Scanline) (ypos : Int)
  /-- the guest leaves this in RAM -/
  | guest (r : Ram)

/-- The state after a call that returns `x`. -/
def Peripherals.after {α : Type} (s : Peripherals) (x : Except Fault α) (f : α → Peripherals) : Peripherals :=
  match x with
  | .ok a    => f a
  | .error e => { s with stop := some e }

/-- One event. Nothing happens after the emulator has stopped. -/
def Peripherals.step (fuel : Nat) (s : Peripherals) (ev : PeriEvent) : Peripherals :=
  if s.stop.isSome then s
  else match ev with
  | .gfxWrite offset val => { s with g := gfxWriteFn s.g offset val }
  | .cheatWrite host offset val =>
      s.after (cheatWriteShown host s.cheat s.mem offset val) (fun o => { s with cheat := o.1, mem := o.2 })
  | .cheatRead host offset => s.after (cheatReadFn host s.cheat s.mem offset) (fun _ => s)
  | .renderScanline scanline ypos =>
      s.after (periGfxRenderScanline fuel scanline s.surf ypos s.g s.mem) (fun o => { s with g := o.g, surf := o.surf })
  | .guest r => { s with mem := r.mem }

/-- The peripherals with any registers, screen and RAM. -/
def Peripherals.start (g : PeriGfx) (cheat : PeriCheat) (surf : Surface) (r : Ram) : Peripherals :=
  ⟨g, cheat, surf, r.mem, none⟩

/-- No peripheral has used an index out of RAM. -/
def Peripherals.Inside (s : Peripherals) : Prop := ∀ i, s.stop ≠ some (.oob i)

/-- The event keeps the peripherals inside RAM. -/
def StepInside (s : Peripherals) (ev : PeriEvent) : Prop :=
  s.stop = none → match ev with
  | .gfxWrite _ _ => True
  | .cheatWrite host offset val => CheatWriteInside host s.cheat s.mem offset val
  | .cheatRead host offset => CheatReadInside host s.cheat s.mem offset
  | .renderScanline _ ypos => SceneInside s.g s.mem ypos
  | .guest _ => True

variable {fuel : Nat} {s : Peripherals}

/-- A call keeps the peripherals inside RAM exactly when it stays inside itself. -/
theorem Peripherals.after_inside {α : Type} (x : Except Fault α) {f : α → Peripherals}
    (hf : ∀ a, (f a).stop = none) : (s.after x f).Inside ↔ InBounds x := by
  cases x with
  | ok a =>
      refine iff_of_true ?_ (inBounds_ok a)
      intro i hi
      exact absurd ((hf a).symm.trans hi) (by simp)
  | error e =>
      unfold Peripherals.Inside InBounds Peripherals.after
      simp only [ne_eq, Option.some.injEq, Except.error.injEq]

/-- Memory stays RAM. -/
theorem Peripherals.step_ram (ev : PeriEvent) (h : ∃ r : Ram, s.mem = r.mem) :
    ∃ r : Ram, (s.step fuel ev).mem = r.mem := by
  obtain ⟨r, hr⟩ := h
  unfold Peripherals.step
  by_cases hstop : s.stop.isSome
  · rw [if_pos hstop]
    exact ⟨r, hr⟩
  rw [if_neg hstop]
  cases ev with
  | gfxWrite offset val => exact ⟨r, hr⟩
  | cheatWrite host offset val =>
      dsimp only
      cases hrun : cheatWriteShown host s.cheat s.mem offset val with
      | error e => exact ⟨r, hr⟩
      | ok o =>
          have hdom := cheatWriteFn_dom (cheatWriteShown_ok hrun)
          exact ⟨r.ofDom o.2 (by rw [← hr]; exact hdom), rfl⟩
  | cheatRead host offset =>
      dsimp only
      cases cheatReadFn host s.cheat s.mem offset with
      | error e => exact ⟨r, hr⟩
      | ok o => exact ⟨r, hr⟩
  | renderScanline scanline ypos =>
      dsimp only
      cases periGfxRenderScanline fuel scanline s.surf ypos s.g s.mem with
      | error e => exact ⟨r, hr⟩
      | ok o => exact ⟨r, hr⟩
  | guest r' => exact ⟨r', rfl⟩

/-- **One event** keeps the peripherals inside RAM exactly when it is one that does. -/
theorem Peripherals.step_inside (hfuel : 4294967296 ≤ fuel) (ev : PeriEvent) (hmem : ∃ r : Ram, s.mem = r.mem)
    (hin : s.Inside) : (s.step fuel ev).Inside ↔ StepInside s ev := by
  obtain ⟨r, hr⟩ := hmem
  unfold Peripherals.step StepInside
  by_cases hstop : s.stop.isSome
  · rw [if_pos hstop]
    refine iff_of_true hin ?_
    intro hnone
    rw [hnone] at hstop
    cases hstop
  have hnone : s.stop = none := Option.not_isSome_iff_eq_none.mp hstop
  have hrunning : ∀ i, s.stop ≠ some (.oob i) := hin
  rw [if_neg hstop, imp_iff_right hnone]
  cases ev with
  | gfxWrite offset val => exact iff_of_true hrunning trivial
  | cheatWrite host offset val =>
      dsimp only
      rw [Peripherals.after_inside]
      · rw [hr]
        exact cheatWriteShown_inBounds
      · intro o
        exact hnone
  | cheatRead host offset =>
      dsimp only
      rw [Peripherals.after_inside]
      · rw [hr]
        exact cheatReadFn_inBounds
      · intro o
        exact hnone
  | renderScanline scanline ypos =>
      dsimp only
      rw [Peripherals.after_inside]
      · rw [hr, ← renderLayers_inBounds hfuel scanline]
        unfold periGfxRenderScanline
        rw [inBounds_bind]
        exact ⟨fun h => h.1, fun h => ⟨h, fun a _ => inBounds_ok _⟩⟩
      · intro o
        exact hnone
  | guest r' => exact iff_of_true hrunning trivial

/-- **The peripherals stay inside RAM in exactly the runs whose every step does.** For all registers and RAM to
    start from and every sequence of events, in all states of the run no peripheral has used an index outside of
    `[0, machRamSize)` if and only if each step, in the state before it, reads and writes there only. -/
theorem peripherals_inside_iff (hfuel : 4294967296 ≤ fuel) (g : PeriGfx) (cheat : PeriCheat) (surf : Surface)
    (r : Ram) (evs : List PeriEvent) :
    Always (Peripherals.step fuel) Peripherals.Inside (Peripherals.start g cheat surf r) evs ↔
      Steps (Peripherals.step fuel) StepInside (Peripherals.start g cheat surf r) evs := by
  refine always_iff_steps (I := fun s => ∃ r : Ram, s.mem = r.mem) ?_ ?_ evs ⟨r, rfl⟩ ?_
  · intro s ev hs
    exact s.step_ram ev hs
  · intro s ev hs hin
    exact s.step_inside hfuel ev hs hin
  · intro i hi
    cases hi

/-- A run that has not stopped has been inside all along. -/
theorem Peripherals.always_of_running {evs : List PeriEvent} (h : (run (Peripherals.step fuel) s evs).stop = none) :
    Always (Peripherals.step fuel) Peripherals.Inside s evs := by
  rintro pre ⟨rest, rfl⟩ i hi
  -- once it has stopped, nothing happens any more
  have hstay : (run (Peripherals.step fuel) (run (Peripherals.step fuel) s pre) rest).stop = some (.oob i) := by
    refine run_inv_all (I := fun s : Peripherals => s.stop = some (.oob i)) (fun s ev hs => ?_) rest hi
    unfold Peripherals.step
    rw [if_pos (by rw [hs]; rfl)]
    exact hs
  rw [run_append, hstay] at h
  cases h

/-- A host with one file of three bytes, whose name is `a`. -/
def oneFileHost : Host :=
  { tmxHost (fun _ => none) with file := fun name => if name = [97] then some [1, 2, 3] else none }

/-- A map of `2 × 2` cells at 0x4000, one sprite at the top left, and the name of the file at 0x3000. -/
def sceneRam : Ram := ((Ram.fill 0).setByte 0x100b 0x80).setByte 0x3000 97

/-- Framebuffer, background 0 and sprites are on. -/
def sceneRegs : PeriGfx :=
  { periGfxInit.setBgnd (bgndFin 0) ⟨0x4000, 0x2000, 2, 2, 5, 7, 1⟩ with
    fbBase := 0x100000, fbPitch := 512, fbHeight := 256, spriteTileAddr := 0x2000, spriteListAddr := 0x1000 }

/-- The file is loaded, and then a line with everything on it is rendered. -/
def sceneRun : List PeriEvent :=
  [.cheatWrite oneFileHost cheatFnAddrReg 0x3000, .cheatRead oneFileHost cheatRawSizeReg,
    .cheatWrite oneFileHost cheatRawReadAddrReg 0x100000, .renderScanline (fun _ => 7) 0]

/-- All of that stays inside RAM: the line shows the file, behind a background and a sprite. -/
theorem peripherals_inside_scene :
    Steps (Peripherals.step 4294967296) StepInside (Peripherals.start sceneRegs ⟨0, 0⟩ gfxInitSurf sceneRam) sceneRun ∧
      (run (Peripherals.step 4294967296) (Peripherals.start sceneRegs ⟨0, 0⟩ gfxInitSurf sceneRam) sceneRun).mem
        0x100002 = some 3 := by
  have hrun : ((run (Peripherals.step 4294967296) (Peripherals.start sceneRegs ⟨0, 0⟩ gfxInitSurf sceneRam) sceneRun).stop,
      (run (Peripherals.step 4294967296) (Peripherals.start sceneRegs ⟨0, 0⟩ gfxInitSurf sceneRam) sceneRun).mem
        0x100002) = (none, some 3) := by
    decide +kernel
  obtain ⟨hstop, hmem⟩ := Prod.mk.inj hrun
  exact ⟨(peripherals_inside_iff (le_refl _) sceneRegs ⟨0, 0⟩ gfxInitSurf sceneRam sceneRun).mp
    (Peripherals.always_of_running hstop), hmem⟩

/-- With the framebuffer at the top of the address space, the first line rendered starts with a read there. -/
theorem peripherals_leave_ram :
    ¬ ∀ (fuel : Nat) (g : PeriGfx) (cheat : PeriCheat) (surf : Surface) (r : Ram) (evs : List PeriEvent),
      Always (Peripherals.step fuel) Peripherals.Inside (Peripherals.start g cheat surf r) evs := by
  intro h
  let evs : List PeriEvent := [.gfxWrite gfxFbBaseAddrReg 0xFFFFFFFF, .renderScanline (fun _ => 0) 0]
  have hrun := h 4294967296 periGfxInit ⟨0, 0⟩ gfxInitSurf (Ram.fill 0) evs evs (List.prefix_refl _)
  have hstop : (run (Peripherals.step 4294967296)
      (Peripherals.start periGfxInit ⟨0, 0⟩ gfxInitSurf (Ram.fill 0)) evs).stop = some (.oob 4294967295) := by
    decide +kernel
  exact hrun 4294967295 hstop

end HadBadge
