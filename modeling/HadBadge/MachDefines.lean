import HadBadge.Lib.Bytes
import HadBadge.Lib.CInt
import HadBadge.Lib.Loop

/-!
# `MachDefines`: the machine both sides agree on

The constants of `emu/mach_defines.h`, the RAM of the emulator's `main` and the ways a C function under
`src/` can stop without a result.

## Contents
- **`Fault`**: what the C code runs into where its behaviour is undefined or never ends.
- **Registers and sizes** of `mach_defines.h`.
- **`Ram`**: `main_mem`, all of `[0, machRamSize)` and nothing else; `Ram.guest` is the part the CPU maps.
-/

namespace HadBadge

open Lib

/-- Why a C function gives no result. -/
inductive Fault where
  /-- an access at a memory index that is not there -/
  | oob (i : Int)
  /-- a loop still running when its iteration bound is used up -/
  | fuel
  /-- `abort()` or a failed `assert` -/
  | abort
  /-- a null pointer handed to a string function -/
  | nullDeref
  /-- a division or remainder by zero -/
  | divZero
  deriving DecidableEq, Repr

/-! ## Checked memory access -/

/-- `mem[i]`. -/
def u8At (m : Mem) (i : Int) : Except Fault UInt8 :=
  match m i with
  | some b => .ok b
  | none   => .error (.oob i)

/-- `*(uint16_t *)&mem[i]`. -/
def u16At (m : Mem) (i : Int) : Except Fault Nat :=
  match m.load i 2 with
  | some v => .ok v
  | none   => .error (.oob i)

/-- `mem[i] = b`. -/
def setU8 (m : Mem) (i : Int) (b : UInt8) : Except Fault Mem :=
  if (m i).isSome then .ok (m.set i b) else .error (.oob i)

/-- `*(uint16_t *)&mem[i] = v`. -/
def setU16 (m : Mem) (i : Int) (v : Nat) : Except Fault Mem :=
  match m.store i 2 v with
  | some m' => .ok m'
  | none    => .error (.oob i)

theorem u8At_eq_ok {m : Mem} {i : Int} {b : UInt8} : u8At m i = .ok b ↔ m i = some b := by
  unfold u8At; cases m i <;> simp

theorem u16At_eq_ok {m : Mem} {i : Int} {v : Nat} : u16At m i = .ok v ↔ m.load i 2 = some v := by
  unfold u16At; cases m.load i 2 <;> simp

theorem setU8_eq_ok {m m' : Mem} {i : Int} {b : UInt8} :
    setU8 m i b = .ok m' ↔ (m i).isSome ∧ m.set i b = m' := by
  unfold setU8; by_cases h : (m i).isSome <;> simp [h]

/-- Storing a byte adds and removes no addresses. -/
theorem setU8_dom {m m' : Mem} {i : Int} {b : UInt8} (h : setU8 m i b = .ok m') (a : Int) :
    (m' a).isSome = (m a).isSome := by
  obtain ⟨hi, rfl⟩ := setU8_eq_ok.mp h
  rw [Mem.set_apply]
  by_cases ha : a = i
  · subst ha
    rw [if_pos rfl, hi]
    rfl
  · rw [if_neg ha]

theorem setU16_eq_ok {m m' : Mem} {i : Int} {v : Nat} :
    setU16 m i v = .ok m' ↔ m.store i 2 v = some m' := by
  unfold setU16; cases m.store i 2 v <;> simp

theorem u16At_mono {m m' : Mem} (h : m.Sub m') {i : Int} {v : Nat} (hg : u16At m i = .ok v) :
    u16At m' i = .ok v :=
  u16At_eq_ok.mpr (Mem.load_mono h (u16At_eq_ok.mp hg))

theorem u16At_lt {m : Mem} {i : Int} {v : Nat} (h : u16At m i = .ok v) : v < 65536 :=
  Mem.load_lt (u16At_eq_ok.mp h)

/-- `a % m` for C `int`s. -/
def remI32 (a m : Int) : Except Fault Int :=
  if m = 0 then .error .divZero else .ok (a.tmod m)

theorem remI32_of_pos (a : Int) {m : Int} (hm : 0 < m) : remI32 a m = .ok (a.tmod m) := by
  unfold remI32; rw [if_neg (by omega)]

/-! ## `mach_defines.h` -/

def machRamSize : Nat := 8 * 1024 * 1024

/-- The first page, which `mach_setup` does not map for the CPU. -/
def firstPageSz : Nat := 0x1000

def uartDataReg : UInt32 := 0x0
def uartFlagReg : UInt32 := 0x4
def uartFlagRxav : UInt32 := (1 : UInt32) <<< 0
def uartFlagTxdone : UInt32 := (1 : UInt32) <<< 1

def gfxStScanlineReg : UInt32 := 0x0
def gfxStFlagReg : UInt32 := 0x4
def gfxFbBaseAddrReg : UInt32 := 0x10
def gfxFbPitchReg : UInt32 := 0x14
def gfxFbHeightReg : UInt32 := 0x18
def gfxFbScrollxReg : UInt32 := 0x1C
def gfxFbScrollyReg : UInt32 := 0x20
def gfxSpriteTilegfxAddrReg : UInt32 := 0x24
def gfxSpriteListAddrReg : UInt32 := 0x28
def gfxSpriteTransColReg : UInt32 := 0x2C

def gfxBgndOffsetBase : UInt32 := 0x40
def gfxBgndOffsetSize : UInt32 := 0x20
def gfxBgndCount : Nat := 3

/-- `GFX_BGND_OFFSET(i)`, computed in `int` and compared as `uint32_t`. -/
def gfxBgndOffset (i : Int) : UInt32 := UInt32.ofNat (u32 (i * 0x20 + 0x40))

def gfxBgndTilemapAddrReg (i : Int) : UInt32 := gfxBgndOffset i + 0x0
def gfxBgndTilegfxAddrReg (i : Int) : UInt32 := gfxBgndOffset i + 0x4
def gfxBgndWidthReg (i : Int) : UInt32 := gfxBgndOffset i + 0x8
def gfxBgndHeightReg (i : Int) : UInt32 := gfxBgndOffset i + 0xC
def gfxBgndScrollxReg (i : Int) : UInt32 := gfxBgndOffset i + 0x10
def gfxBgndScrollyReg (i : Int) : UInt32 := gfxBgndOffset i + 0x14
def gfxBgndTransColReg (i : Int) : UInt32 := gfxBgndOffset i + 0x18

def spriteListEndMarker : Int := -32768
def spriteHide : Int := -32767

/-! ## RAM -/

/-- `main_mem`: the bytes `0 … machRamSize - 1`, all of them and no others. -/
structure Ram where
  mem : Mem
  dom : ∀ i, (mem i).isSome ↔ 0 ≤ i ∧ i < machRamSize

/-- RAM with the same byte everywhere, as `calloc` leaves it for `b = 0`. -/
def Ram.fill (b : UInt8) : Ram where
  mem := fun i => if 0 ≤ i ∧ i < machRamSize then some b else none
  dom := by intro i; by_cases h : 0 ≤ i ∧ i < (machRamSize : Int) <;> simp [h]

theorem Ram.fill_mem (b : UInt8) {i : Int} (h0 : 0 ≤ i) (h1 : i < machRamSize) : (Ram.fill b).mem i = some b :=
  if_pos ⟨h0, h1⟩

theorem Ram.fill_value {b c : UInt8} {i : Int} (h : (Ram.fill b).mem i = some c) : c = b := by
  have hin := ((Ram.fill b).dom i).mp (by rw [h]; rfl)
  rw [Ram.fill_mem b hin.1 hin.2] at h
  exact (Option.some.inj h).symm

/-- RAM with another byte at `i`, if that is one of its addresses. -/
def Ram.setByte (r : Ram) (i : Int) (b : UInt8) : Ram where
  mem := fun j => if j = i then (r.mem j).map (fun _ => b) else r.mem j
  dom := by
    intro j
    by_cases hj : j = i
    · rw [if_pos hj, Option.isSome_map, r.dom]
    · rw [if_neg hj, r.dom]

/-- RAM with words from `i` on, the low byte first. -/
def Ram.setWords (r : Ram) (i : Int) : List UInt32 → Ram
  | []      => r
  | w :: ws =>
      let b (k : Nat) := leByte k w.toNat
      let r := (((r.setByte i (b 0)).setByte (i + 1) (b 1)).setByte (i + 2) (b 2)).setByte (i + 3) (b 3)
      r.setWords (i + 4) ws

/-- The RAM as guest code reaches it: `mach_setup` registers it from the second page on. -/
def Ram.guest (r : Ram) : Mem := fun i => if (firstPageSz : Int) ≤ i then r.mem i else none

theorem Ram.guest_of_le (r : Ram) {i : Int} (h : (firstPageSz : Int) ≤ i) : r.guest i = r.mem i :=
  if_pos h

theorem Ram.guest_sub (r : Ram) : r.guest.Sub r.mem := by
  intro i b h
  unfold Ram.guest at h
  by_cases hi : (firstPageSz : Int) ≤ i
  · simpa [hi] using h
  · simp [hi] at h

theorem Ram.isSome_of_range (r : Ram) {i : Int} (h0 : 0 ≤ i) (h1 : i < machRamSize) :
    (r.mem i).isSome := (r.dom i).mpr ⟨h0, h1⟩

/-- A load inside RAM succeeds. -/
theorem Ram.load_of_range (r : Ram) {i : Int} {n : Nat} (h0 : 0 ≤ i) (h1 : i + n ≤ machRamSize) :
    ∃ v, r.mem.load i n = some v := by
  refine Mem.load_isSome_iff.mpr (fun k hk => r.isSome_of_range ?_ ?_)
  · omega
  · omega

/-- A store through any view that stays inside RAM gives RAM again. -/
def Ram.update (r : Ram) {i : Int} {n v : Nat} {m' : Mem} (h : r.mem.store i n v = some m') : Ram where
  mem := m'
  dom := by intro j; rw [Mem.store_dom h, r.dom]

/-- Memory with the addresses of RAM is RAM. -/
def Ram.ofDom (r : Ram) (m : Mem) (h : ∀ a, (m a).isSome = (r.mem a).isSome) : Ram where
  mem := m
  dom := by intro i; rw [h, r.dom]

/-- RAM after guest code stores the halfword `v` at `a`. Outside the RAM that the CPU maps the store traps or
    reaches a device, and RAM stays as it is. -/
def Ram.guestSetU16 (r : Ram) (a v : Nat) : Ram where
  mem := if firstPageSz ≤ a ∧ a + 2 ≤ machRamSize then r.mem.overwrite a 2 (fun k => leByte k v) else r.mem
  dom := by
    intro i
    by_cases h : firstPageSz ≤ a ∧ a + 2 ≤ machRamSize
    · rw [if_pos h, Mem.overwrite_isSome _ _ (fun k hk => r.isSome_of_range (by omega) (by omega)), r.dom]
    · rw [if_neg h, r.dom]

theorem Ram.guestSetU16_same (r : Ram) {a : Nat} (v : Nat) (h0 : firstPageSz ≤ a) (h1 : a + 2 ≤ machRamSize) :
    u16At (r.guestSetU16 a v).mem a = .ok (v % 65536) := by
  rw [u16At_eq_ok, Mem.load_eq_some_iff]
  refine ⟨fun k => leByte k v, ?_, (leVal_leByte v 2).symm⟩
  intro k hk
  simp only [Ram.guestSetU16]
  rw [if_pos ⟨h0, h1⟩]
  exact Mem.overwrite_at _ _ hk

/-- A store leaves the other halfwords alone. -/
theorem Ram.guestSetU16_frame (r : Ram) (a v : Nat) {b : Int} (hb : b + 2 ≤ a ∨ a + 2 ≤ b) :
    u16At (r.guestSetU16 a v).mem b = u16At r.mem b := by
  have hload : (r.guestSetU16 a v).mem.load b 2 = r.mem.load b 2 := by
    apply Mem.load_congr
    intro k hk
    simp only [Ram.guestSetU16]
    by_cases h : firstPageSz ≤ a ∧ a + 2 ≤ machRamSize
    · rw [if_pos h]
      exact Mem.overwrite_frame _ _ (by omega)
    · rw [if_neg h]
  unfold u16At
  rw [hload]

/-! ## Tilemaps -/

/-- A `mach_tilemap_t` of `w × h` cells at `&mem[tm]`, all of it below the end of RAM. -/
structure TilemapAt (m : Mem) (tm w h : Nat) : Prop where
  width : u16At m tm = .ok w
  height : u16At m (tm + 2) = .ok h
  fits : tm + 4 + 2 * (w * h) ≤ machRamSize

variable {r : Ram} {tm w h : Nat}

theorem TilemapAt.width_lt {m : Mem} (hm : TilemapAt m tm w h) : w < 65536 := u16At_lt hm.width

theorem TilemapAt.height_lt {m : Mem} (hm : TilemapAt m tm w h) : h < 65536 := u16At_lt hm.height

theorem TilemapAt.mono {m m' : Mem} (hs : m.Sub m') (hm : TilemapAt m tm w h) : TilemapAt m' tm w h :=
  ⟨u16At_mono hs hm.width, u16At_mono hs hm.height, hm.fits⟩

/-- A map has at most as many cells as RAM has halfwords. -/
theorem TilemapAt.cells_lt {m : Mem} (hm : TilemapAt m tm w h) : w * h < 4194304 := by
  have := hm.fits
  simp only [machRamSize] at this; omega

/-- The index of a cell of the map. -/
theorem cellIdx_lt {x y : Nat} (hx : x < w) (hy : y < h) : y * w + x < w * h := by
  calc y * w + x < y * w + w := by omega
    _ = (y + 1) * w := by ring
    _ ≤ h * w := Nat.mul_le_mul_right w hy
    _ = w * h := Nat.mul_comm h w

/-- A map that guest code can read lies above the first page. -/
theorem TilemapAt.guest_page (hm : TilemapAt r.guest tm w h) : firstPageSz ≤ tm := by
  -- reading the width touches byte `tm`
  have hread : (r.guest (tm + (0 : Nat))).isSome :=
    Mem.load_isSome_iff.mp ⟨w, u16At_eq_ok.mp hm.width⟩ 0 (by omega)
  unfold Ram.guest at hread
  by_contra hlt
  rw [if_neg (by omega)] at hread
  exact absurd hread (by simp)

/-- Guest code can read any bytes of RAM above the first page. -/
theorem Ram.guest_load_of_range (r : Ram) {i : Int} {n : Nat} (h0 : (firstPageSz : Int) ≤ i)
    (h1 : i + n ≤ machRamSize) : ∃ v, r.guest.load i n = some v := by
  apply Mem.load_isSome_iff.mpr
  intro k hk
  rw [r.guest_of_le (by omega)]
  exact r.isSome_of_range (by omega) (by omega)

/-- Every cell of a map in RAM has a tile number. -/
theorem TilemapAt.cell (hm : TilemapAt r.mem tm w h) {k : Nat} (hk : k < w * h) :
    ∃ t, u16At r.mem (tm + 4 + 2 * k) = .ok t := by
  have hfits := hm.fits
  obtain ⟨v, hv⟩ := r.load_of_range (i := tm + 4 + 2 * k) (n := 2) (by omega) (by omega)
  exact ⟨v, u16At_eq_ok.mpr hv⟩

/-- Every cell of a guest's map has a tile number that the guest can read. -/
theorem TilemapAt.guest_cell (hm : TilemapAt r.guest tm w h) {k : Nat} (hk : k < w * h) :
    ∃ t, u16At r.guest (tm + 4 + 2 * k) = .ok t := by
  have hpage := hm.guest_page
  have hfits := hm.fits
  obtain ⟨v, hv⟩ := r.guest_load_of_range (i := tm + 4 + 2 * k) (n := 2) (by omega) (by omega)
  exact ⟨v, u16At_eq_ok.mpr hv⟩

end HadBadge
