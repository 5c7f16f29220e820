import HadBadge.Emu.PeriGfx

/-!
# `Sdk.GfxDriver`: the guest's graphics driver

The functions of `sdk/driver/gfxdriver.c`. `GFXREG(i)` is a load or store in the device's range, so each access
is one call of `gfx_read_fn` or `gfx_write_fn`.

## Contents
- **The functions**, in the order of the source.
- **On the three backgrounds.** What the background functions do for a valid id (`gfxBgndSetMap_fin`, …).
- **Sequences of calls.** `DriverReachable`: the register states that calls of the driver lead to, ids checked by
  nothing but its asserts. There every background has a 16-bit size (`DriverReachable.sizes16`).
-/

namespace HadBadge

open Lib

/-- `assert(bgndid<GFX_BGND_COUNT)`. -/
def assertBgnd (bgndid : Int) : Except Fault Unit :=
  if bgndid < gfxBgndCount then .ok () else .error .abort

/-- `gfx_fb_set_mem`. -/
def gfxFbSetMem (g : PeriGfx) (fbmem : UInt32) (width height : Int) : PeriGfx :=
  let g := gfxWriteFn g gfxFbPitchReg (UInt32.ofNat (u32 width))
  let g := gfxWriteFn g gfxFbHeightReg (UInt32.ofNat (u32 height))
  gfxWriteFn g gfxFbBaseAddrReg fbmem

/-- `gfx_fb_set_scroll`. -/
def gfxFbSetScroll (g : PeriGfx) (scrollx scrolly : Int) : PeriGfx :=
  let g := gfxWriteFn g gfxFbScrollxReg (UInt32.ofNat (u32 scrollx))
  gfxWriteFn g gfxFbScrollyReg (UInt32.ofNat (u32 scrolly))

/-- `gfx_bgnd_set_map`, `map` being the address of the guest's `mach_tilemap_t`. -/
def gfxBgndSetMap (g : PeriGfx) (mem : Mem) (bgndid : Int) (map : Nat) : Except Fault PeriGfx := do
  assertBgnd bgndid
  let w ← u16At mem map
  let g := gfxWriteFn g (gfxBgndWidthReg bgndid) (UInt32.ofNat w)
  let h ← u16At mem (map + 2)
  let g := gfxWriteFn g (gfxBgndHeightReg bgndid) (UInt32.ofNat h)
  return gfxWriteFn g (gfxBgndTilemapAddrReg bgndid) (UInt32.ofNat (u32 (map + 4)))

/-- `gfx_bgnd_get_w`. -/
def gfxBgndGetW (g : PeriGfx) (bgndid : Int) : Except Fault Int := do
  assertBgnd bgndid
  return i32 (gfxReadFn g (gfxBgndWidthReg bgndid)).toNat

/-- `gfx_bgnd_get_h`. -/
def gfxBgndGetH (g : PeriGfx) (bgndid : Int) : Except Fault Int := do
  assertBgnd bgndid
  return i32 (gfxReadFn g (gfxBgndHeightReg bgndid)).toNat

/-- `gfx_bgnd_set_gfx`. -/
def gfxBgndSetGfx (g : PeriGfx) (bgndid : Int) (gfx : UInt32) (transCol : Int) :
    Except Fault PeriGfx := do
  assertBgnd bgndid
  let g := gfxWriteFn g (gfxBgndTilegfxAddrReg bgndid) gfx
  return gfxWriteFn g (gfxBgndTransColReg bgndid) (UInt32.ofNat (u32 transCol))

/-- `gfx_bgnd_set_scroll`. -/
def gfxBgndSetScroll (g : PeriGfx) (bgndid scrollx scrolly : Int) : PeriGfx :=
  let g := gfxWriteFn g (gfxBgndScrollxReg bgndid) (UInt32.ofNat (u32 scrollx))
  gfxWriteFn g (gfxBgndScrollyReg bgndid) (UInt32.ofNat (u32 scrolly))

/-- Where the guest is in `gfx_wait_vbl`: outside, or in one of its two polling loops. -/
inductive VblPhase where
  | idle | wait238 | wait239
  deriving DecidableEq, Repr

/-- One poll of `gfx_wait_vbl`, `v` being the value of `GFX_ST_SCANLINE_REG`. The call returns with the poll
    that ends the second loop. -/
def gfxWaitVblPoll (v : UInt32) : VblPhase → VblPhase
  | .wait238 => if v ≠ 238 then .wait238 else .wait239
  | .wait239 => if v ≠ 239 then .wait239 else .idle
  | .idle    => .idle

/-- `gfx_sprite_set_mem`. -/
def gfxSpriteSetMem (g : PeriGfx) (sprites gfx : UInt32) (transCol : Int) : PeriGfx :=
  let g := gfxWriteFn g gfxSpriteTilegfxAddrReg gfx
  let g := gfxWriteFn g gfxSpriteListAddrReg sprites
  gfxWriteFn g gfxSpriteTransColReg (UInt32.ofNat (u32 transCol))

/-- `gfx_get_sprites`. -/
def gfxGetSprites (g : PeriGfx) : UInt32 := gfxReadFn g gfxSpriteListAddrReg

/-! ## On the three backgrounds -/

variable {g : PeriGfx} {mem : Mem} {i : Fin 3}

theorem assertBgnd_fin (i : Fin 3) : assertBgnd i = .ok () := by
  have hi := i.isLt
  exact if_pos (by simp only [gfxBgndCount]; omega)

theorem gfxBgndSetMap_fin {map w h : Nat} (hw : u16At mem map = .ok w) (hh : u16At mem (map + 2) = .ok h) :
    gfxBgndSetMap g mem i map = .ok (g.setBgnd i { g.bgnd i with
      width := UInt32.ofNat w, height := UInt32.ofNat h, mapAddr := UInt32.ofNat (u32 (map + 4)) }) := by
  have h1 (g : PeriGfx) (v : UInt32) := gfxWriteFn_bgnd g i .width v
  have h2 (g : PeriGfx) (v : UInt32) := gfxWriteFn_bgnd g i .height v
  have h3 (g : PeriGfx) (v : UInt32) := gfxWriteFn_bgnd g i .mapAddr v
  simp only [BgndReg.addr, PeriGfxBgnd.set] at h1 h2 h3
  simp only [gfxBgndSetMap, assertBgnd_fin, hw, hh, ok_bind, h1, h2, h3, PeriGfx.setBgnd_bgnd_self,
    PeriGfx.setBgnd_setBgnd]
  rfl

theorem gfxBgndGetW_fin (g : PeriGfx) (i : Fin 3) :
    gfxBgndGetW g i = .ok (i32 (g.bgnd i).width.toNat) := by
  have h1 := gfxReadFn_bgnd g i .width
  simp only [BgndReg.addr, PeriGfxBgnd.get] at h1
  simp only [gfxBgndGetW, assertBgnd_fin, ok_bind, h1]
  rfl

theorem gfxBgndGetH_fin (g : PeriGfx) (i : Fin 3) :
    gfxBgndGetH g i = .ok (i32 (g.bgnd i).height.toNat) := by
  have h1 := gfxReadFn_bgnd g i .height
  simp only [BgndReg.addr, PeriGfxBgnd.get] at h1
  simp only [gfxBgndGetH, assertBgnd_fin, ok_bind, h1]
  rfl

theorem gfxBgndSetGfx_fin (g : PeriGfx) (i : Fin 3) (gfx : UInt32) (transCol : Int) :
    gfxBgndSetGfx g i gfx transCol = .ok (g.setBgnd i { g.bgnd i with
      gfxAddr := gfx, transcol := UInt32.ofNat (u32 transCol) }) := by
  have h1 (g : PeriGfx) (v : UInt32) := gfxWriteFn_bgnd g i .gfxAddr v
  have h2 (g : PeriGfx) (v : UInt32) := gfxWriteFn_bgnd g i .transcol v
  simp only [BgndReg.addr, PeriGfxBgnd.set] at h1 h2
  simp only [gfxBgndSetGfx, assertBgnd_fin, ok_bind, h1, h2, PeriGfx.setBgnd_bgnd_self,
    PeriGfx.setBgnd_setBgnd]
  rfl

theorem gfxBgndSetScroll_fin (g : PeriGfx) (i : Fin 3) (scrollx scrolly : Int) :
    gfxBgndSetScroll g i scrollx scrolly = g.setBgnd i { g.bgnd i with
      scrollx := UInt32.ofNat (u32 scrollx), scrolly := UInt32.ofNat (u32 scrolly) } := by
  have h1 (g : PeriGfx) (v : UInt32) := gfxWriteFn_bgnd g i .scrollx v
  have h2 (g : PeriGfx) (v : UInt32) := gfxWriteFn_bgnd g i .scrolly v
  simp only [BgndReg.addr, PeriGfxBgnd.set] at h1 h2
  simp only [gfxBgndSetScroll, h1, h2, PeriGfx.setBgnd_bgnd_self, PeriGfx.setBgnd_setBgnd]

/-! ## Sequences of calls -/

/-- A call of the driver that sets registers. -/
inductive DriverCall where
  | fbSetMem (fbmem : UInt32) (width height : Int)
  | fbSetScroll (scrollx scrolly : Int)
  | bgndSetMap (bgndid : Int) (map : Nat)
  | bgndSetGfx (bgndid : Int) (gfx : UInt32) (transCol : Int)
  | bgndSetScroll (bgndid scrollx scrolly : Int)
  | spriteSetMem (sprites gfx : UInt32) (transCol : Int)

/-- The registers after a call made with memory `mem`. -/
def driverCall (g : PeriGfx) (mem : Mem) : DriverCall → Except Fault PeriGfx
  | .fbSetMem fbmem width height            => .ok (gfxFbSetMem g fbmem width height)
  | .fbSetScroll scrollx scrolly            => .ok (gfxFbSetScroll g scrollx scrolly)
  | .bgndSetMap bgndid map                  => gfxBgndSetMap g mem bgndid map
  | .bgndSetGfx bgndid gfx transCol         => gfxBgndSetGfx g bgndid gfx transCol
  | .bgndSetScroll bgndid scrollx scrolly   => .ok (gfxBgndSetScroll g bgndid scrollx scrolly)
  | .spriteSetMem sprites gfx transCol      => .ok (gfxSpriteSetMem g sprites gfx transCol)

/-- The register states that calls lead to from reset, lines being rendered in between. -/
inductive DriverReachable : PeriGfx → Prop
  | init : DriverReachable periGfxInit
  | call {g g' : PeriGfx} (mem : Mem) (c : DriverCall) :
      DriverReachable g → driverCall g mem c = .ok g' → DriverReachable g'
  | line {g : PeriGfx} (ypos : Int) : DriverReachable g → DriverReachable { g with lastScanline := ypos }

/-- Every background's size is that of some map, or 0. -/
def PeriGfx.Sizes16 (g : PeriGfx) : Prop :=
  ∀ i, (g.bgnd i).width.toNat < 65536 ∧ (g.bgnd i).height.toNat < 65536

/-- The size registers of the three backgrounds. -/
def sizeRegs : List UInt32 := [0x48, 0x4c, 0x68, 0x6c, 0x88, 0x8c]

/-- Background registers sit at multiples of 32; an `int` id never turns one into another. -/
theorem gfxBgndOffset_add_mod (id : Int) {c : UInt32} (hc : c.toNat < 32) :
    (gfxBgndOffset id + c).toNat % 32 = c.toNat := by
  unfold gfxBgndOffset
  rw [UInt32.toNat_add, UInt32.toNat_ofNat', Nat.mod_eq_of_lt (u32_lt _)]
  unfold u32
  omega

theorem not_mem_sizeRegs {o : UInt32} (h8 : o.toNat % 32 ≠ 8) (hc : o.toNat % 32 ≠ 12) : o ∉ sizeRegs := by
  intro ho
  simp only [sizeRegs, List.mem_cons, List.not_mem_nil, or_false] at ho
  rcases ho with rfl | rfl | rfl | rfl | rfl | rfl <;> contradiction

theorem gfxBgndSize_mem_sizeRegs (i : Fin 3) :
    gfxBgndWidthReg i ∈ sizeRegs ∧ gfxBgndHeightReg i ∈ sizeRegs := by
  fin_cases i <;> decide

/-- A write to the size registers keeps 16-bit sizes when its value has 16 bits, any other write in any case. -/
theorem gfxWriteFn_sizes16 {o v : UInt32} (hg : g.Sizes16) (h : v.toNat < 65536 ∨ o ∉ sizeRegs) :
    (gfxWriteFn g o v).Sizes16 := by
  -- one background's registers under the inner chain
  have hinner (i : Fin 3) : (bgndWrite (g.bgnd i) i o v).width.toNat < 65536 ∧
      (bgndWrite (g.bgnd i) i o v).height.toNat < 65536 := by
    obtain ⟨hw, hh⟩ := hg i
    obtain ⟨hmw, hmh⟩ := gfxBgndSize_mem_sizeRegs i
    unfold bgndWrite
    split_ifs with h1 h2 h3 h4
    · exact ⟨hw, hh⟩
    · exact ⟨hw, hh⟩
    · exact ⟨h.resolve_right (fun hn => hn (h3 ▸ hmw)), hh⟩
    · exact ⟨hw, h.resolve_right (fun hn => hn (h4 ▸ hmh))⟩
    all_goals exact ⟨hw, hh⟩
  unfold gfxWriteFn
  split_ifs with h1 h2 h3 h4 h5 h6 h7 h8 hrange
  -- the chain of the source: eight registers below the backgrounds, then the backgrounds
  on_goal 9 =>
    intro i
    have hidx : ((bgndFin (bgndPerIdx o) : Fin 3) : Int) = bgndPerIdx o := by
      obtain ⟨h0, h3⟩ := hrange
      simp only [gfxBgndCount] at h3
      simp only [bgndFin, Fin.ofNat]
      omega
    by_cases hi : i = bgndFin (bgndPerIdx o)
    · subst hi
      rw [PeriGfx.setBgnd_bgnd_self]
      have := hinner (bgndFin (bgndPerIdx o))
      rwa [hidx] at this
    · simp only [PeriGfx.setBgnd, Function.update_of_ne hi]
      exact hg i
  all_goals exact hg

theorem driverCall_sizes16 {g' : PeriGfx} {c : DriverCall} (hg : g.Sizes16)
    (h : driverCall g mem c = .ok g') : g'.Sizes16 := by
  have hreg (id : Int) {r : UInt32} (h8 : r.toNat % 32 ≠ 8) (hc : r.toNat % 32 ≠ 12) (h32 : r.toNat < 32) :
      gfxBgndOffset id + r ∉ sizeRegs :=
    not_mem_sizeRegs (by rw [gfxBgndOffset_add_mod id h32]; omega) (by rw [gfxBgndOffset_add_mod id h32]; omega)
  cases c with
  | fbSetMem fbmem width height =>
      cases h
      exact gfxWriteFn_sizes16 (gfxWriteFn_sizes16 (gfxWriteFn_sizes16 hg (.inr (by decide)))
        (.inr (by decide))) (.inr (by decide))
  | fbSetScroll scrollx scrolly =>
      cases h
      exact gfxWriteFn_sizes16 (gfxWriteFn_sizes16 hg (.inr (by decide))) (.inr (by decide))
  | bgndSetMap bgndid map =>
      -- the only call that reaches the size registers, with halfwords of memory
      simp only [driverCall, gfxBgndSetMap, bind_eq_ok] at h
      obtain ⟨-, -, w, hw, v, hv, h⟩ := h
      cases h
      have hofNat {n : Nat} (hn : n < 65536) : (UInt32.ofNat n).toNat < 65536 := by
        rw [UInt32.toNat_ofNat']
        omega
      exact gfxWriteFn_sizes16 (gfxWriteFn_sizes16 (gfxWriteFn_sizes16 hg (.inl (hofNat (u16At_lt hw))))
        (.inl (hofNat (u16At_lt hv)))) (.inr (hreg bgndid (by decide) (by decide) (by decide)))
  | bgndSetGfx bgndid gfx transCol =>
      simp only [driverCall, gfxBgndSetGfx, bind_eq_ok] at h
      obtain ⟨-, -, h⟩ := h
      cases h
      exact gfxWriteFn_sizes16 (gfxWriteFn_sizes16 hg (.inr (hreg bgndid (by decide) (by decide) (by decide))))
        (.inr (hreg bgndid (by decide) (by decide) (by decide)))
  | bgndSetScroll bgndid scrollx scrolly =>
      cases h
      exact gfxWriteFn_sizes16 (gfxWriteFn_sizes16 hg (.inr (hreg bgndid (by decide) (by decide) (by decide))))
        (.inr (hreg bgndid (by decide) (by decide) (by decide)))
  | spriteSetMem sprites gfx transCol =>
      cases h
      exact gfxWriteFn_sizes16 (gfxWriteFn_sizes16 (gfxWriteFn_sizes16 hg (.inr (by decide)))
        (.inr (by decide))) (.inr (by decide))

/-- **Sizes have 16 bits in every register state that the driver leads to.** -/
theorem DriverReachable.sizes16 (h : DriverReachable g) : g.Sizes16 := by
  induction h with
  | init =>
      intro i
      exact ⟨Nat.zero_lt_succ _, Nat.zero_lt_succ _⟩
  | call mem c _ hc ih => exact driverCall_sizes16 ih hc
  | line ypos _ ih => exact ih

end HadBadge
