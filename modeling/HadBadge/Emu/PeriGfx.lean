import Mathlib.Tactic.FinCases
import Mathlib.Data.Fintype.Basic
import Mathlib.Logic.Function.Basic
import HadBadge.MachDefines

/-!
# `Emu.PeriGfx`: the register file of the graphics device

`peri_gfx_t` and the two device callbacks `gfx_write_fn` and `gfx_read_fn` of `emu/peri_gfx.c`. The
`printf` of the undefined-register branches is left out: it reads and changes no state.

## Contents
- **State.** `PeriGfxBgnd` (one background's seven registers) and `PeriGfx`.
- **Callbacks.** `gfxWriteFn` and `gfxReadFn`, the two if-chains of the source.
- **What one access does.** `BgndReg` names the seven registers of a background; a write to one sets that
  field of that background and a read returns it (`gfxWriteFn_bgnd`, `gfxReadFn_bgnd`). `GfxReg` names all
  registers that can be written (`gfxWriteFn_reg`).
-/

namespace HadBadge

open Lib

/-- `peri_gfx_bgnd_t`. -/
structure PeriGfxBgnd where
  mapAddr : UInt32
  gfxAddr : UInt32
  width : UInt32
  height : UInt32
  scrollx : UInt32
  scrolly : UInt32
  transcol : UInt32
  deriving DecidableEq, Repr

/-- `peri_gfx_t` without its `mem_range`. -/
structure PeriGfx where
  lastScanline : Int
  fbBase : UInt32
  fbPitch : UInt32
  fbHeight : UInt32
  fbScrollx : UInt32
  fbScrolly : UInt32
  bgnd : Fin 3 → PeriGfxBgnd
  spriteTileAddr : UInt32
  spriteListAddr : UInt32
  spriteTranscol : UInt32

/-- The registers as `calloc` in `peri_gfx_init` leaves them. -/
def periGfxInit : PeriGfx :=
  ⟨0, 0, 0, 0, 0, 0, fun _ => ⟨0, 0, 0, 0, 0, 0, 0⟩, 0, 0, 0⟩

/-- `g->bgnd[i] = b`. -/
def PeriGfx.setBgnd (g : PeriGfx) (i : Fin 3) (b : PeriGfxBgnd) : PeriGfx :=
  { g with bgnd := Function.update g.bgnd i b }

@[simp] theorem PeriGfx.setBgnd_bgnd_self (g : PeriGfx) (i : Fin 3) (b : PeriGfxBgnd) :
    (g.setBgnd i b).bgnd i = b := by
  simp [PeriGfx.setBgnd]

@[simp] theorem PeriGfx.setBgnd_setBgnd (g : PeriGfx) (i : Fin 3) (b c : PeriGfxBgnd) :
    (g.setBgnd i b).setBgnd i c = g.setBgnd i c := by
  simp [PeriGfx.setBgnd]

/-! ## The device callbacks -/

/-- `bgnd_per_idx` of both callbacks: an unsigned quotient stored in an `int`. -/
def bgndPerIdx (offset : UInt32) : Int :=
  i32 ((offset - gfxBgndOffsetBase) / gfxBgndOffsetSize).toNat

/-- An index that has passed the check against `GFX_BGND_COUNT`, as an index of `bgnd`. -/
def bgndFin (idx : Int) : Fin 3 := Fin.ofNat 3 idx.toNat

theorem bgndFin_natCast (i : Fin 3) : bgndFin i = i := by
  fin_cases i <;> rfl

/-- The inner if-chain of `gfx_write_fn`: the registers of background `idx`. -/
def bgndWrite (b : PeriGfxBgnd) (idx : Int) (offset val : UInt32) : PeriGfxBgnd :=
  if offset = gfxBgndTilemapAddrReg idx then { b with mapAddr := val }
  else if offset = gfxBgndTilegfxAddrReg idx then { b with gfxAddr := val }
  else if offset = gfxBgndWidthReg idx then { b with width := val }
  else if offset = gfxBgndHeightReg idx then { b with height := val }
  else if offset = gfxBgndScrollxReg idx then { b with scrollx := val }
  else if offset = gfxBgndScrollyReg idx then { b with scrolly := val }
  else if offset = gfxBgndTransColReg idx then { b with transcol := val }
  else b

/-- `gfx_write_fn`. -/
def gfxWriteFn (g : PeriGfx) (offset val : UInt32) : PeriGfx :=
  if offset = gfxFbBaseAddrReg then { g with fbBase := val }
  else if offset = gfxFbPitchReg then { g with fbPitch := val }
  else if offset = gfxFbHeightReg then { g with fbHeight := val }
  else if offset = gfxFbScrollxReg then { g with fbScrollx := val }
  else if offset = gfxFbScrollyReg then { g with fbScrolly := val }
  else if offset = gfxSpriteTilegfxAddrReg then { g with spriteTileAddr := val }
  else if offset = gfxSpriteListAddrReg then { g with spriteListAddr := val }
  else if offset = gfxSpriteTransColReg then { g with spriteTranscol := val }
  else if 0 ≤ bgndPerIdx offset ∧ bgndPerIdx offset < gfxBgndCount then
    g.setBgnd (bgndFin (bgndPerIdx offset))
      (bgndWrite (g.bgnd (bgndFin (bgndPerIdx offset))) (bgndPerIdx offset) offset val)
  else g

/-- The inner if-chain of `gfx_read_fn`. -/
def bgndRead (b : PeriGfxBgnd) (idx : Int) (offset : UInt32) : UInt32 :=
  if offset = gfxBgndTilemapAddrReg idx then b.mapAddr
  else if offset = gfxBgndTilegfxAddrReg idx then b.gfxAddr
  else if offset = gfxBgndWidthReg idx then b.width
  else if offset = gfxBgndHeightReg idx then b.height
  else if offset = gfxBgndScrollxReg idx then b.scrollx
  else if offset = gfxBgndScrollyReg idx then b.scrolly
  else if offset = gfxBgndTransColReg idx then b.transcol
  else 0

/-- `gfx_read_fn`. -/
def gfxReadFn (g : PeriGfx) (offset : UInt32) : UInt32 :=
  if offset = gfxStScanlineReg then UInt32.ofNat (u32 g.lastScanline)
  else if offset = gfxStFlagReg then 0
  else if offset = gfxFbBaseAddrReg then g.fbBase
  else if offset = gfxFbPitchReg then g.fbPitch
  else if offset = gfxFbHeightReg then g.fbHeight
  else if offset = gfxFbScrollxReg then g.fbScrollx
  else if offset = gfxFbScrollyReg then g.fbScrolly
  else if offset = gfxSpriteTilegfxAddrReg then g.spriteTileAddr
  else if offset = gfxSpriteListAddrReg then g.spriteListAddr
  else if offset = gfxSpriteTransColReg then g.spriteTranscol
  else if 0 ≤ bgndPerIdx offset ∧ bgndPerIdx offset < gfxBgndCount then
    bgndRead (g.bgnd (bgndFin (bgndPerIdx offset))) (bgndPerIdx offset) offset
  else 0

/-! ## What one access does -/

/-- The seven registers of a background. -/
inductive BgndReg where
  | mapAddr | gfxAddr | width | height | scrollx | scrolly | transcol
  deriving DecidableEq, Repr

/-- The offset of a register of background `i`. -/
def BgndReg.addr (i : Int) : BgndReg → UInt32
  | .mapAddr  => gfxBgndTilemapAddrReg i
  | .gfxAddr  => gfxBgndTilegfxAddrReg i
  | .width    => gfxBgndWidthReg i
  | .height   => gfxBgndHeightReg i
  | .scrollx  => gfxBgndScrollxReg i
  | .scrolly  => gfxBgndScrollyReg i
  | .transcol => gfxBgndTransColReg i

/-- The value of a register. -/
def PeriGfxBgnd.get (b : PeriGfxBgnd) : BgndReg → UInt32
  | .mapAddr  => b.mapAddr
  | .gfxAddr  => b.gfxAddr
  | .width    => b.width
  | .height   => b.height
  | .scrollx  => b.scrollx
  | .scrolly  => b.scrolly
  | .transcol => b.transcol

/-- The background with one register set. -/
def PeriGfxBgnd.set (b : PeriGfxBgnd) (v : UInt32) : BgndReg → PeriGfxBgnd
  | .mapAddr  => { b with mapAddr := v }
  | .gfxAddr  => { b with gfxAddr := v }
  | .width    => { b with width := v }
  | .height   => { b with height := v }
  | .scrollx  => { b with scrollx := v }
  | .scrolly  => { b with scrolly := v }
  | .transcol => { b with transcol := v }

theorem bgndPerIdx_addr (i : Fin 3) (r : BgndReg) : bgndPerIdx (r.addr i) = i := by
  fin_cases i <;> cases r <;> decide

/-- The registers below the background block. -/
def lowRegs : List UInt32 :=
  [gfxStScanlineReg, gfxStFlagReg, gfxFbBaseAddrReg, gfxFbPitchReg, gfxFbHeightReg, gfxFbScrollxReg,
    gfxFbScrollyReg, gfxSpriteTilegfxAddrReg, gfxSpriteListAddrReg, gfxSpriteTransColReg]

theorem BgndReg.addr_not_low (i : Fin 3) (r : BgndReg) : r.addr i ∉ lowRegs := by
  fin_cases i <;> cases r <;> decide

theorem bgndWrite_addr (b : PeriGfxBgnd) (i : Fin 3) (r : BgndReg) (v : UInt32) :
    bgndWrite b i (r.addr i) v = b.set v r := by
  fin_cases i <;> cases r <;> rfl

theorem bgndRead_addr (b : PeriGfxBgnd) (i : Fin 3) (r : BgndReg) :
    bgndRead b i (r.addr i) = b.get r := by
  fin_cases i <;> cases r <;> rfl

/-- The decoders reach the background block for the registers of a background. -/
theorem BgndReg.addr_decoded (i : Fin 3) (r : BgndReg) :
    (∀ o ∈ lowRegs, r.addr i ≠ o) ∧ 0 ≤ bgndPerIdx (r.addr i) ∧ bgndPerIdx (r.addr i) < gfxBgndCount := by
  refine ⟨fun o ho h => BgndReg.addr_not_low i r (h ▸ ho), ?_⟩
  rw [bgndPerIdx_addr]
  have := i.isLt
  simp only [gfxBgndCount]; omega

/-- A write at the offset of a background register sets that register of that background only. -/
theorem gfxWriteFn_bgnd (g : PeriGfx) (i : Fin 3) (r : BgndReg) (v : UInt32) :
    gfxWriteFn g (r.addr i) v = g.setBgnd i ((g.bgnd i).set v r) := by
  obtain ⟨hlow, hrange⟩ := BgndReg.addr_decoded i r
  simp only [lowRegs, List.forall_mem_cons] at hlow
  obtain ⟨-, -, h1, h2, h3, h4, h5, h6, h7, h8, -⟩ := hlow
  -- the chain of the source falls through all registers below the block
  rw [gfxWriteFn, if_neg h1, if_neg h2, if_neg h3, if_neg h4, if_neg h5, if_neg h6, if_neg h7,
    if_neg h8, if_pos hrange, bgndPerIdx_addr, bgndFin_natCast, bgndWrite_addr]

/-- A read at the offset of a background register returns that register. -/
theorem gfxReadFn_bgnd (g : PeriGfx) (i : Fin 3) (r : BgndReg) :
    gfxReadFn g (r.addr i) = (g.bgnd i).get r := by
  obtain ⟨hlow, hrange⟩ := BgndReg.addr_decoded i r
  simp only [lowRegs, List.forall_mem_cons] at hlow
  obtain ⟨h1, h2, h3, h4, h5, h6, h7, h8, h9, h10, -⟩ := hlow
  rw [gfxReadFn, if_neg h1, if_neg h2, if_neg h3, if_neg h4, if_neg h5, if_neg h6, if_neg h7,
    if_neg h8, if_neg h9, if_neg h10, if_pos hrange, bgndPerIdx_addr, bgndFin_natCast, bgndRead_addr]

/-- The registers that a write sets. -/
inductive GfxReg where
  | fbBase | fbPitch | fbHeight | fbScrollx | fbScrolly
  | spriteTileAddr | spriteListAddr | spriteTranscol
  | bgnd (i : Fin 3) (r : BgndReg)
  deriving DecidableEq, Repr

/-- The offset of a register. -/
def GfxReg.addr : GfxReg → UInt32
  | .fbBase         => gfxFbBaseAddrReg
  | .fbPitch        => gfxFbPitchReg
  | .fbHeight       => gfxFbHeightReg
  | .fbScrollx      => gfxFbScrollxReg
  | .fbScrolly      => gfxFbScrollyReg
  | .spriteTileAddr => gfxSpriteTilegfxAddrReg
  | .spriteListAddr => gfxSpriteListAddrReg
  | .spriteTranscol => gfxSpriteTransColReg
  | .bgnd i r       => r.addr i

/-- The register file with one register set. -/
def PeriGfx.set (g : PeriGfx) (v : UInt32) : GfxReg → PeriGfx
  | .fbBase         => { g with fbBase := v }
  | .fbPitch        => { g with fbPitch := v }
  | .fbHeight       => { g with fbHeight := v }
  | .fbScrollx      => { g with fbScrollx := v }
  | .fbScrolly      => { g with fbScrolly := v }
  | .spriteTileAddr => { g with spriteTileAddr := v }
  | .spriteListAddr => { g with spriteListAddr := v }
  | .spriteTranscol => { g with spriteTranscol := v }
  | .bgnd i r       => g.setBgnd i ((g.bgnd i).set v r)

/-- **A write sets the register that it names and no other.** -/
theorem gfxWriteFn_reg (g : PeriGfx) (r : GfxReg) (v : UInt32) : gfxWriteFn g r.addr v = g.set v r := by
  cases r with
  | bgnd i r => exact gfxWriteFn_bgnd g i r v
  | _ => rfl

/-- The value of a register. -/
def PeriGfx.get (g : PeriGfx) : GfxReg → UInt32
  | .fbBase         => g.fbBase
  | .fbPitch        => g.fbPitch
  | .fbHeight       => g.fbHeight
  | .fbScrollx      => g.fbScrollx
  | .fbScrolly      => g.fbScrolly
  | .spriteTileAddr => g.spriteTileAddr
  | .spriteListAddr => g.spriteListAddr
  | .spriteTranscol => g.spriteTranscol
  | .bgnd i r       => (g.bgnd i).get r

/-- **A read returns the register that it names.** -/
theorem gfxReadFn_reg (g : PeriGfx) (r : GfxReg) : gfxReadFn g r.addr = g.get r := by
  cases r with
  | bgnd i r => exact gfxReadFn_bgnd g i r
  | _ => rfl

theorem PeriGfxBgnd.get_set (b : PeriGfxBgnd) (v : UInt32) (r r' : BgndReg) :
    (b.set v r).get r' = if r' = r then v else b.get r' := by
  cases r <;> cases r' <;> rfl

/-- The registers are separate. -/
theorem PeriGfx.get_set (g : PeriGfx) (v : UInt32) (r r' : GfxReg) :
    (g.set v r).get r' = if r' = r then v else g.get r' := by
  cases r with
  | bgnd i r =>
      cases r' with
      | bgnd i' r' =>
          simp only [PeriGfx.get, PeriGfx.set, PeriGfx.setBgnd, GfxReg.bgnd.injEq]
          by_cases hi : i' = i
          · subst hi
            rw [Function.update_self, PeriGfxBgnd.get_set]
            simp only [true_and]
          · rw [Function.update_of_ne hi, if_neg (fun h => hi h.1)]
      | _ => rfl
  | _ => cases r' <;> rfl

/-- Two registers are at two offsets: a write to one would otherwise be read from the other. -/
theorem GfxReg.addr_inj {r r' : GfxReg} (h : r.addr = r'.addr) : r = r' := by
  by_contra hne
  have hsame : periGfxInit.set 1 r = periGfxInit.set 1 r' := by
    rw [← gfxWriteFn_reg, ← gfxWriteFn_reg, h]
  have hr : (periGfxInit.set 1 r).get r' = periGfxInit.get r' := by
    rw [PeriGfx.get_set, if_neg (Ne.symm hne)]
  rw [hsame, PeriGfx.get_set, if_pos rfl] at hr
  have hinit : periGfxInit.get r' = 0 := by
    cases r' with
    | bgnd i r' => cases r' <;> rfl
    | _ => rfl
  rw [hinit] at hr
  exact absurd hr (by decide)

/-- The inner chain of a background leaves it alone at the offsets that are none of its registers. -/
theorem bgndWrite_other (b : PeriGfxBgnd) {idx : Int} {offset : UInt32} (val : UInt32)
    (h : ∀ r : BgndReg, r.addr idx ≠ offset) : bgndWrite b idx offset val = b := by
  have h1 : offset ≠ gfxBgndTilemapAddrReg idx := (h .mapAddr).symm
  have h2 : offset ≠ gfxBgndTilegfxAddrReg idx := (h .gfxAddr).symm
  have h3 : offset ≠ gfxBgndWidthReg idx := (h .width).symm
  have h4 : offset ≠ gfxBgndHeightReg idx := (h .height).symm
  have h5 : offset ≠ gfxBgndScrollxReg idx := (h .scrollx).symm
  have h6 : offset ≠ gfxBgndScrollyReg idx := (h .scrolly).symm
  have h7 : offset ≠ gfxBgndTransColReg idx := (h .transcol).symm
  rw [bgndWrite, if_neg h1, if_neg h2, if_neg h3, if_neg h4, if_neg h5, if_neg h6, if_neg h7]

/-- **A write at any other offset changes nothing**: below the background block, in its gaps, past its end. -/
theorem gfxWriteFn_other (g : PeriGfx) {offset : UInt32} (val : UInt32) (h : ∀ r : GfxReg, r.addr ≠ offset) :
    gfxWriteFn g offset val = g := by
  have h1 : offset ≠ gfxFbBaseAddrReg := (h .fbBase).symm
  have h2 : offset ≠ gfxFbPitchReg := (h .fbPitch).symm
  have h3 : offset ≠ gfxFbHeightReg := (h .fbHeight).symm
  have h4 : offset ≠ gfxFbScrollxReg := (h .fbScrollx).symm
  have h5 : offset ≠ gfxFbScrollyReg := (h .fbScrolly).symm
  have h6 : offset ≠ gfxSpriteTilegfxAddrReg := (h .spriteTileAddr).symm
  have h7 : offset ≠ gfxSpriteListAddrReg := (h .spriteListAddr).symm
  have h8 : offset ≠ gfxSpriteTransColReg := (h .spriteTranscol).symm
  rw [gfxWriteFn, if_neg h1, if_neg h2, if_neg h3, if_neg h4, if_neg h5, if_neg h6, if_neg h7, if_neg h8]
  by_cases hrange : 0 ≤ bgndPerIdx offset ∧ bgndPerIdx offset < gfxBgndCount
  -- a slot of a background; the inner chain knows seven offsets in it
  · rw [if_pos hrange]
    obtain ⟨i, hi⟩ : ∃ i : Fin 3, bgndPerIdx offset = i := by
      obtain ⟨h0, hlt⟩ := hrange
      simp only [gfxBgndCount] at hlt
      generalize bgndPerIdx offset = p at h0 hlt
      exact ⟨⟨p.toNat, by omega⟩, (Int.toNat_of_nonneg h0).symm⟩
    have hsame := bgndWrite_other (g.bgnd i) val (fun r => h (.bgnd i r))
    rw [hi, bgndFin_natCast, hsame, PeriGfx.setBgnd, Function.update_eq_self]
  · rw [if_neg hrange]

/-- What a write does to a register. -/
theorem gfxWriteFn_get (g : PeriGfx) (offset val : UInt32) (r : GfxReg) :
    (gfxWriteFn g offset val).get r = if offset = r.addr then val else g.get r := by
  by_cases hreg : ∃ r' : GfxReg, r'.addr = offset
  · obtain ⟨r', rfl⟩ := hreg
    rw [gfxWriteFn_reg, PeriGfx.get_set]
    by_cases hr : r = r'
    · rw [if_pos hr, if_pos (by rw [hr])]
    · rw [if_neg hr, if_neg (fun h => hr (GfxReg.addr_inj h).symm)]
  · rw [not_exists] at hreg
    rw [gfxWriteFn_other g val hreg, if_neg (fun h => hreg r h.symm)]

/-- No write reaches the scanline counter. -/
@[simp] theorem gfxWriteFn_lastScanline (g : PeriGfx) (offset val : UInt32) :
    (gfxWriteFn g offset val).lastScanline = g.lastScanline := by
  -- no branch of the chain sets the counter
  generalize h : gfxWriteFn g offset val = g'
  unfold gfxWriteFn at h
  repeat' split at h
  all_goals subst h; rfl

/-- The scanline register reads the counter. -/
theorem gfxReadFn_scanline (g : PeriGfx) :
    gfxReadFn g gfxStScanlineReg = UInt32.ofNat (u32 g.lastScanline) := rfl

end HadBadge
