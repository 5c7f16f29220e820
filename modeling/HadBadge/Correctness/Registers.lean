import HadBadge.Emu.Render
import HadBadge.Lib.Run
import HadBadge.Sdk.GfxDriver

/-!
# `Correctness.Registers`: the graphics registers are a store

The two decoders of the device agree on the registers and on their offsets, and a write elsewhere changes
nothing (`gfxWriteFn_get`, `gfxReadFn_reg`). Over a run of writes and rendered lines a register therefore holds
the last value written to its offset, and through the driver the size of the last map set and the address of
the last sprite list.

## Contents
- **Events.** `GfxEvent`, `gfxEvent`, and what one event does to a register and to the scanline counter.
- **The driver.** `DriverEvent`, `driverEvent`, and what one event does to a size and to the sprite list.
- **Runs.** `registers_store`.
-/

namespace HadBadge

open Lib

/-! ## Events -/

/-- A write to the device, or the rendering of a line from what memory holds at that time. -/
inductive GfxEvent where
  | write (offset val : UInt32)
  | render (fuel : Nat) (scanline : Scanline) (surf : Surface) (ypos : Int) (mem : Mem)

/-- The registers after an event. -/
def gfxEvent (g : PeriGfx) : GfxEvent → Except Fault PeriGfx
  | .write offset val => .ok (gfxWriteFn g offset val)
  | .render fuel scanline surf ypos mem => do
      let o ← periGfxRenderScanline fuel scanline surf ypos g mem
      return o.g

/-- The value that an event writes at `offset`. -/
def GfxEvent.writeAt (offset : UInt32) : GfxEvent → Option UInt32
  | .write o v => if o = offset then some v else none
  | .render .. => none

/-- The line that an event renders. -/
def GfxEvent.line : GfxEvent → Option Int
  | .write .. => none
  | .render _ _ _ ypos _ => some ypos

variable {g g' : PeriGfx}

/-- What a rendered line leaves. -/
theorem gfxEvent_render {fuel : Nat} {scanline : Scanline} {surf : Surface} {ypos : Int} {mem : Mem}
    (h : gfxEvent g (.render fuel scanline surf ypos mem) = .ok g') : g' = { g with lastScanline := ypos } := by
  obtain ⟨o, ho, hg⟩ := bind_eq_ok.mp h
  cases hg
  exact periGfxRenderScanline_g ho

/-- An event sets a register if it writes at its offset. -/
theorem gfxEvent_get {e : GfxEvent} (h : gfxEvent g e = .ok g') (r : GfxReg) :
    g'.get r = (e.writeAt r.addr).getD (g.get r) := by
  cases e with
  | write o v =>
      cases h
      rw [gfxWriteFn_get, GfxEvent.writeAt]
      by_cases ho : o = r.addr
      · rw [if_pos ho, if_pos ho]
        rfl
      · rw [if_neg ho, if_neg ho]
        rfl
  | render fuel scanline surf ypos mem =>
      rw [gfxEvent_render h]
      cases r <;> rfl

/-- An event sets the scanline counter if it renders a line. -/
theorem gfxEvent_line {e : GfxEvent} (h : gfxEvent g e = .ok g') :
    g'.lastScanline = e.line.getD g.lastScanline := by
  cases e with
  | write o v =>
      cases h
      exact gfxWriteFn_lastScanline g o v
  | render fuel scanline surf ypos mem =>
      rw [gfxEvent_render h]
      rfl

/-! ## The driver -/

/-- What happens to the device while the driver is in use. -/
inductive DriverEvent where
  /-- a line is rendered, or the guest writes past the driver -/
  | device (e : GfxEvent)
  /-- a call of the driver, made with memory `mem` -/
  | call (mem : Mem) (c : DriverCall)

/-- The registers after an event. -/
def driverEvent (g : PeriGfx) : DriverEvent → Except Fault PeriGfx
  | .device e => gfxEvent g e
  | .call mem c => driverCall g mem c

/-- The background that a call names is one of the three. -/
def DriverCall.OnBgnd : DriverCall → Prop
  | .bgndSetMap id _ => ∃ i : Fin 3, id = i
  | .bgndSetGfx id _ _ => ∃ i : Fin 3, id = i
  | .bgndSetScroll id _ _ => ∃ i : Fin 3, id = i
  | _ => True

/-- An event that leaves the registers `rs` to the calls for them. -/
def DriverEvent.Leaves (rs : List GfxReg) : DriverEvent → Prop
  | .device e => ∀ r ∈ rs, e.writeAt r.addr = none
  | .call _ c => c.OnBgnd

/-- The size of the map that an event sets for background `i`. -/
def DriverEvent.mapSize (i : Fin 3) : DriverEvent → Option (Nat × Nat)
  | .call mem (.bgndSetMap id map) =>
      match u16At mem map, u16At mem (map + 2) with
      | .ok w, .ok h => if id = i then some (w, h) else none
      | _, _ => none
  | _ => none

/-- The sprite list that an event sets. -/
def DriverEvent.spriteList : DriverEvent → Option UInt32
  | .call _ (.spriteSetMem sprites _ _) => some sprites
  | _ => none

/-- The size that the registers of background `i` give. -/
def PeriGfx.bgndSize (g : PeriGfx) (i : Fin 3) : Nat × Nat := ((g.bgnd i).width.toNat, (g.bgnd i).height.toNat)

/-- Setting registers of another background, or others of this one, leaves its size. -/
theorem PeriGfx.bgndSize_setBgnd (g : PeriGfx) {i j : Fin 3} {b : PeriGfxBgnd}
    (h : j = i → b.width = (g.bgnd i).width ∧ b.height = (g.bgnd i).height) :
    (g.setBgnd j b).bgndSize i = g.bgndSize i := by
  by_cases hj : j = i
  · obtain ⟨hw, hh⟩ := h hj
    subst hj
    rw [PeriGfx.bgndSize, PeriGfx.setBgnd_bgnd_self, hw, hh, PeriGfx.bgndSize]
  · have hbgnd : (g.setBgnd j b).bgnd i = g.bgnd i := by
      simp only [PeriGfx.setBgnd, Function.update_of_ne (Ne.symm hj)]
    rw [PeriGfx.bgndSize, hbgnd, PeriGfx.bgndSize]

/-- A call for one of the backgrounds sets the size that its map has, or the sprite list, or neither. -/
theorem driverCall_sets {mem : Mem} {c : DriverCall} (hc : c.OnBgnd) (h : driverCall g mem c = .ok g') (i : Fin 3) :
    g'.bgndSize i = ((DriverEvent.call mem c).mapSize i).getD (g.bgndSize i) ∧
      g'.spriteListAddr = (DriverEvent.call mem c).spriteList.getD g.spriteListAddr := by
  cases c with
  | fbSetMem fbmem width height =>
      cases h
      exact ⟨rfl, rfl⟩
  | fbSetScroll scrollx scrolly =>
      cases h
      exact ⟨rfl, rfl⟩
  | spriteSetMem sprites gfx transCol =>
      cases h
      exact ⟨rfl, rfl⟩
  | bgndSetGfx id gfx transCol =>
      obtain ⟨j, rfl⟩ := hc
      rw [driverCall, gfxBgndSetGfx_fin] at h
      cases h
      exact ⟨PeriGfx.bgndSize_setBgnd g (fun hj => by rw [hj]; exact ⟨rfl, rfl⟩), rfl⟩
  | bgndSetScroll id scrollx scrolly =>
      obtain ⟨j, rfl⟩ := hc
      rw [driverCall, gfxBgndSetScroll_fin] at h
      cases h
      exact ⟨PeriGfx.bgndSize_setBgnd g (fun hj => by rw [hj]; exact ⟨rfl, rfl⟩), rfl⟩
  | bgndSetMap id map =>
      obtain ⟨j, rfl⟩ := hc
      -- the call has read both halfwords
      have hread := h
      simp only [driverCall, gfxBgndSetMap, bind_eq_ok] at hread
      obtain ⟨-, -, w, hw, v, hv, -⟩ := hread
      rw [driverCall, gfxBgndSetMap_fin hw hv] at h
      cases h
      refine ⟨?_, rfl⟩
      rw [DriverEvent.mapSize, hw, hv]
      dsimp only
      by_cases hj : j = i
      · subst hj
        have hw16 := u16At_lt hw
        have hv16 := u16At_lt hv
        rw [if_pos rfl, PeriGfx.bgndSize, PeriGfx.setBgnd_bgnd_self,
          UInt32.toNat_ofNat_of_lt' (by simp only [UInt32.size]; omega),
          UInt32.toNat_ofNat_of_lt' (by simp only [UInt32.size]; omega)]
        rfl
      · rw [if_neg (by omega)]
        exact PeriGfx.bgndSize_setBgnd g (fun h => absurd h hj)

/-- An event that leaves the size registers alone sets a background's size if it sets a map for it. -/
theorem driverEvent_bgndSize {i : Fin 3} {e : DriverEvent} (he : e.Leaves [.bgnd i .width, .bgnd i .height])
    (h : driverEvent g e = .ok g') : g'.bgndSize i = (e.mapSize i).getD (g.bgndSize i) := by
  cases e with
  | device e =>
      have hw := gfxEvent_get h (.bgnd i .width)
      have hh := gfxEvent_get h (.bgnd i .height)
      rw [he _ (by simp)] at hw hh
      simp only [PeriGfx.get, PeriGfxBgnd.get, Option.getD_none] at hw hh
      rw [PeriGfx.bgndSize, hw, hh]
      rfl
  | call mem c => exact (driverCall_sets he h i).1

/-- An event that leaves the register alone sets the sprite list if it is the call for it. -/
theorem driverEvent_spriteList {e : DriverEvent} (he : e.Leaves [.spriteListAddr])
    (h : driverEvent g e = .ok g') : g'.spriteListAddr = e.spriteList.getD g.spriteListAddr := by
  cases e with
  | device e =>
      have hs := gfxEvent_get h .spriteListAddr
      rw [he _ (by simp)] at hs
      exact hs
  | call mem c => exact (driverCall_sets he h 0).2

/-! ## Runs -/

/-- What the getters of the driver return for a size. -/
theorem gfxBgndGet_size {i : Fin 3} {w h : Nat} (hs : g.bgndSize i = (w, h)) (hw : w < 65536) (hh : h < 65536) :
    gfxBgndGetW g i = .ok w ∧ gfxBgndGetH g i = .ok h := by
  obtain ⟨hw', hh'⟩ := Prod.mk.inj hs
  rw [gfxBgndGetW_fin, gfxBgndGetH_fin, hw', hh', i32_of_range (by omega) (by omega),
    i32_of_range (by omega) (by omega)]
  exact ⟨rfl, rfl⟩

/-- The sizes of maps have 16 bits. -/
theorem DriverEvent.mapSize_lt {i : Fin 3} {e : DriverEvent} {w h : Nat} (hs : e.mapSize i = some (w, h)) :
    w < 65536 ∧ h < 65536 := by
  unfold DriverEvent.mapSize at hs
  split at hs
  · split at hs
    · rename_i w' h' hw hh
      split at hs
      · cases hs
        exact ⟨u16At_lt hw, u16At_lt hh⟩
      · cases hs
    · cases hs
  · cases hs

/-- **The register file is a store.** After any run of writes at any offsets and of rendered lines, each
    register reads as the last value written to exactly its offset, or 0; the scanline register reads as the last
    line; and a write at any other offset changes nothing. Over runs in which the driver is called for the three
    backgrounds, and whatever else writes leaves the registers in question alone, `gfx_bgnd_get_w` and
    `gfx_bgnd_get_h` return the size of the last map set, and `gfx_get_sprites` the last list. -/
theorem registers_store :
    (∀ es g, runM gfxEvent periGfxInit es = .ok g →
      (∀ r : GfxReg, gfxReadFn g r.addr = (lastSome (GfxEvent.writeAt r.addr) es).getD 0) ∧
      gfxReadFn g gfxStScanlineReg = UInt32.ofNat (u32 ((lastSome GfxEvent.line es).getD 0)) ∧
      ∀ offset val, (∀ r : GfxReg, r.addr ≠ offset) → gfxWriteFn g offset val = g) ∧
    (∀ es g, runM driverEvent periGfxInit es = .ok g →
      (∀ i : Fin 3, (∀ e ∈ es, e.Leaves [.bgnd i .width, .bgnd i .height]) →
        gfxBgndGetW g i = .ok (((lastSome (DriverEvent.mapSize i) es).getD (0, 0)).1 : Int) ∧
        gfxBgndGetH g i = .ok (((lastSome (DriverEvent.mapSize i) es).getD (0, 0)).2 : Int)) ∧
      ((∀ e ∈ es, e.Leaves [.spriteListAddr]) →
        gfxGetSprites g = (lastSome DriverEvent.spriteList es).getD 0)) := by
  constructor
  · intro es g hrun
    refine ⟨?_, ?_, fun offset val h => gfxWriteFn_other g val h⟩
    · intro r
      have h0 : periGfxInit.get r = 0 := by
        cases r with
        | bgnd i r => cases r <;> rfl
        | _ => rfl
      rw [gfxReadFn_reg, ← h0]
      exact runM_view (fun g => g.get r) _ (fun _ _ _ _ he => gfxEvent_get he r) hrun
    · rw [gfxReadFn_scanline]
      exact congrArg (fun y => UInt32.ofNat (u32 y))
        (runM_view PeriGfx.lastScanline _ (fun _ _ _ _ he => gfxEvent_line he) hrun)
  · intro es g hrun
    refine ⟨?_, ?_⟩
    · intro i hes
      have hsize := runM_view (fun g => g.bgndSize i) (DriverEvent.mapSize i)
        (fun _ e _ hmem he => driverEvent_bgndSize (hes e hmem) he) hrun
      cases hlast : lastSome (DriverEvent.mapSize i) es with
      | none =>
          rw [hlast] at hsize
          exact gfxBgndGet_size hsize (by decide) (by decide)
      | some wh =>
          rw [hlast] at hsize
          obtain ⟨e, -, he⟩ := lastSome_eq_some hlast
          obtain ⟨hw, hh⟩ := DriverEvent.mapSize_lt he
          exact gfxBgndGet_size hsize hw hh
    · intro hes
      exact runM_view PeriGfx.spriteListAddr _ (fun _ e _ hmem he => driverEvent_spriteList (hes e hmem) he) hrun

/-- A size register, a gap of the block and a map set through the driver. -/
theorem registers_store_run :
    (∃ g, runM gfxEvent periGfxInit [.write 0x48 5, .write 0x5c 7] = .ok g ∧
      gfxReadFn g (GfxReg.bgnd 0 .width).addr = 5) ∧
    ∃ g, runM driverEvent periGfxInit [.device (.write 0x5c 7), .call (fun _ => some 1) (.bgndSetMap (2 : Fin 3) 4096)]
        = .ok g ∧ gfxBgndGetW g (2 : Fin 3) = .ok 257 := by
  constructor
  · obtain ⟨g, hg⟩ : ∃ g, runM gfxEvent periGfxInit [.write 0x48 5, .write 0x5c 7] = .ok g := ⟨_, rfl⟩
    refine ⟨g, hg, ?_⟩
    rw [(registers_store.1 _ g hg).1]
    rfl
  · obtain ⟨g, hg⟩ : ∃ g, runM driverEvent periGfxInit
        [.device (.write 0x5c 7), .call (fun _ => some 1) (.bgndSetMap (2 : Fin 3) 4096)] = .ok g := ⟨_, rfl⟩
    refine ⟨g, hg, (((registers_store.2 _ g hg).1 2 ?_).1).trans rfl⟩
    intro e he
    simp only [List.mem_cons, List.not_mem_nil, or_false] at he
    rcases he with rfl | rfl
    · intro r hr
      simp only [List.mem_cons, List.not_mem_nil, or_false] at hr
      rcases hr with rfl | rfl <;> decide
    · exact ⟨2, rfl⟩

end HadBadge
