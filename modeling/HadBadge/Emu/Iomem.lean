import HadBadge.Emu.PeriCheat
import HadBadge.Emu.PeriGfx
import HadBadge.Emu.PeriUart

/-!
# `Emu.Iomem`: the memory map that `mach_setup` builds

`emu/iomem.c`, the device callbacks it is filled with and `mach_setup` of `emu/main.c` up to the CPU. Pointers
of the host are numbers; the fields for ranges that move or are disabled are left out, since nothing here does
that, and so are the dirty bits, for which `register_ram_entry` leaves a null pointer.

## Contents
- **`MainMem`**: where `main_mem` lies in the address space of the host; reading and writing through pointers.
- **Devices.** `Periphs`, `deviceRead`, `deviceWrite`.
- **The map.** `getPhysMemRange`, `machSetupMap` and the entry for each address (`getPhysMemRange_ram`,
  `getPhysMemRange_is_ram`, `getPhysMemRange_first_page`); `window_ok` for the windows of the devices.
-/

namespace HadBadge

open Lib

/-! ## Memory of the host -/

/-- The block that `main` allocates for the machine's RAM. -/
structure MainMem where
  base : Nat
  fits : base + machRamSize ≤ 18446744073709551616

/-- The index in `main_mem` that a pointer points at. -/
def MainMem.index (mm : MainMem) (ptr : Nat) : Int := u64 ((ptr : Int) - mm.base)

/-- `*(uintN_t *)ptr` for `n` bytes. -/
def hostLoad (mm : MainMem) (ram : Ram) (ptr n : Nat) : Except Fault Nat :=
  match ram.mem.load (mm.index ptr) n with
  | some v => .ok v
  | none   => .error (.oob (mm.index ptr))

/-- `*(uintN_t *)ptr = v` for `n` bytes. -/
def hostStore (mm : MainMem) (ram : Ram) (ptr n v : Nat) : Except Fault Ram :=
  match h : ram.mem.store (mm.index ptr) n v with
  | some _ => .ok (ram.update h)
  | none   => .error (.oob (mm.index ptr))

/-- A pointer to byte `a` of `main_mem`. -/
theorem MainMem.index_of_range (mm : MainMem) {ptr a : Nat} (hptr : ptr = u64 (mm.base + (a : Int)))
    (ha : a < machRamSize) : mm.index ptr = a := by
  have hfits := mm.fits
  simp only [machRamSize] at ha hfits
  subst hptr
  unfold MainMem.index u64
  omega

theorem hostLoad_eq {mm : MainMem} {ram : Ram} {ptr a n v : Nat} (hptr : mm.index ptr = a)
    (hv : ram.mem.load a n = some v) : hostLoad mm ram ptr n = .ok v := by
  unfold hostLoad
  rw [hptr, hv]

theorem hostStore_eq {mm : MainMem} {ram : Ram} {ptr a n v : Nat} {mem' : Mem} (hptr : mm.index ptr = a)
    (hv : ram.mem.store a n v = some mem') :
    ∃ ram', hostStore mm ram ptr n v = .ok ram' ∧ ram'.mem = mem' := by
  unfold hostStore
  rw [← hptr] at hv
  split
  · rename_i m hm
    exact ⟨_, rfl, Option.some.inj (hm.symm.trans hv)⟩
  · rename_i hm
    rw [hm] at hv
    cases hv

/-! ## Devices -/

inductive Dev where
  | uart | gfx | cheat | buttons
  deriving DecidableEq, Repr

/-- The host that the emulator runs on: its files, and the callbacks that `mach_setup` registers, over a state of
    the host of any type. -/
structure MachHost (σ : Type) where
  files : Host
  uartGetchar : σ → Option UInt8 × σ
  uartPutchar : σ → UInt8 → σ
  buttonsGet : σ → Int

/-- The registers of the devices, and the state of the host behind them. -/
structure Periphs (σ : Type) where
  uart : PeriUart
  gfx : PeriGfx
  cheat : PeriCheat
  host : σ

/-- The devices as their `init` functions leave them. -/
def periphsInit {σ : Type} (host : σ) : Periphs σ := ⟨periUartInit, periGfxInit, ⟨0, 0⟩, host⟩

def buttonReadReg : UInt32 := 0x0

variable {σ : Type}

/-- `pr->read_func(pr->opaque, offset, size_log2)`; no device looks at `size_log2`. -/
def deviceRead (h : MachHost σ) (p : Periphs σ) (ram : Ram) (offset : UInt32) :
    Dev → Except Fault (UInt32 × Periphs σ)
  | .uart =>
      let (v, uart, host) := uartReadFn h.uartGetchar p.uart p.host offset
      .ok (v, { p with uart := uart, host := host })
  | .gfx => .ok (gfxReadFn p.gfx offset, p)
  | .cheat => do return (← cheatReadFn h.files p.cheat ram.mem offset, p)
  | .buttons => .ok (if offset = buttonReadReg then UInt32.ofNat (u32 (h.buttonsGet p.host)) else 0, p)

/-- `pr->write_func(pr->opaque, offset, val, size_log2)`. -/
def deviceWrite (h : MachHost σ) (p : Periphs σ) (ram : Ram) (offset val : UInt32) :
    Dev → Except Fault (Ram × Periphs σ)
  | .uart =>
      let (uart, c) := uartWriteFn p.uart offset val
      .ok (ram, { p with uart := uart, host := c.elim p.host (h.uartPutchar p.host) })
  | .gfx => .ok (ram, { p with gfx := gfxWriteFn p.gfx offset val })
  | .cheat =>
      match hw : cheatWriteFn h.files p.cheat ram.mem offset val with
      | .error e => .error e
      | .ok (cheat, mem) =>
          .ok (⟨mem, fun i => by rw [cheatWriteFn_dom hw, ram.dom]⟩, { p with cheat := cheat })
  | .buttons => .ok (ram, p)

/-! ## The map -/

/-- What an address range is backed by: `is_ram` and the fields that go with it. -/
inductive RangeKind where
  | ram (physMem : Nat)
  | device (dev : Dev) (devioFlags : UInt32)
  deriving DecidableEq, Repr

structure PhysMemoryRange where
  addr : Nat
  size : Nat
  kind : RangeKind
  deriving DecidableEq, Repr

/-- The ranges in the order of their registration. -/
abbrev PhysMemoryMap := List PhysMemoryRange

/-- `get_phys_mem_range`: the first range that holds the address. -/
def getPhysMemRange (map : PhysMemoryMap) (paddr : Nat) : Option PhysMemoryRange :=
  map.find? (fun pr => pr.addr ≤ paddr ∧ paddr < pr.addr + pr.size)

def physMemRangeMax : Nat := 32
def devramPageSize : Nat := 4096
def devioSize32 : UInt32 := (1 : UInt32) <<< 2

/-- `register_ram_entry`, with the pointer that the caller then stores in `phys_mem`. -/
def registerRamEntry (map : PhysMemoryMap) (addr size physMem : Nat) : Except Fault PhysMemoryMap :=
  if map.length < physMemRangeMax ∧ size % devramPageSize = 0 ∧ size ≠ 0 then
    .ok (map ++ [⟨addr, size, .ram physMem⟩])
  else .error .abort

/-- `cpu_register_device`. -/
def cpuRegisterDevice (map : PhysMemoryMap) (addr size : Nat) (dev : Dev) (devioFlags : UInt32) :
    Except Fault PhysMemoryMap :=
  if map.length < physMemRangeMax ∧ size ≤ 0xffffffff then .ok (map ++ [⟨addr, size, .device dev devioFlags⟩])
  else .error .abort

def machRamStart : Nat := 0
def uartOffset : Nat := 0x10000000
def gfxOffset : Nat := 0x10010000
def cheatOffset : Nat := 0x10020000
def buttonOffset : Nat := 0x10030000

/-- The part of `mach_setup` that fills the memory map. -/
def machSetupMap (mm : MainMem) : Except Fault PhysMemoryMap := do
  let map ← registerRamEntry [] (machRamStart + firstPageSz) (machRamSize - firstPageSz) (mm.base + firstPageSz)
  let map ← cpuRegisterDevice map uartOffset 0x100 .uart devioSize32
  let map ← cpuRegisterDevice map gfxOffset 0x1000 .gfx devioSize32
  let map ← cpuRegisterDevice map cheatOffset 0x100 .cheat devioSize32
  cpuRegisterDevice map buttonOffset 0x100 .buttons devioSize32

/-- The range of RAM. -/
def ramRange (mm : MainMem) : PhysMemoryRange := ⟨0x1000, 0x7ff000, .ram (mm.base + 0x1000)⟩

/-- The map of the machine. -/
def machMap (mm : MainMem) : PhysMemoryMap :=
  [ramRange mm, ⟨0x10000000, 0x100, .device .uart devioSize32⟩, ⟨0x10010000, 0x1000, .device .gfx devioSize32⟩,
    ⟨0x10020000, 0x100, .device .cheat devioSize32⟩, ⟨0x10030000, 0x100, .device .buttons devioSize32⟩]

/-- No registration fails. -/
theorem machSetupMap_eq (mm : MainMem) : machSetupMap mm = .ok (machMap mm) := rfl

variable {mm : MainMem} {paddr : Nat} {pr : PhysMemoryRange}

/-- The range of an address is in the map and holds the address. -/
theorem getPhysMemRange_some {map : PhysMemoryMap} (h : getPhysMemRange map paddr = some pr) :
    pr ∈ map ∧ pr.addr ≤ paddr ∧ paddr < pr.addr + pr.size := by
  unfold getPhysMemRange at h
  have hin := List.find?_some h
  exact ⟨List.mem_of_find?_eq_some h, of_decide_eq_true hin⟩

/-- The range of RAM holds the addresses from the second page to the end of RAM. -/
theorem ramRange_holds : (ramRange mm).addr ≤ paddr ∧ paddr < (ramRange mm).addr + (ramRange mm).size ↔
    0x1000 ≤ paddr ∧ paddr < machRamSize := by
  have hsize : machRamSize = 0x1000 + 0x7ff000 := by decide
  rw [hsize]
  exact Iff.rfl

/-- Addresses from the second page to the end of RAM are RAM. -/
theorem getPhysMemRange_ram (h0 : 0x1000 ≤ paddr) (h1 : paddr < machRamSize) :
    getPhysMemRange (machMap mm) paddr = some (ramRange mm) := by
  unfold getPhysMemRange machMap
  rw [List.find?_cons_of_pos]
  exact decide_eq_true (ramRange_holds.mpr ⟨h0, h1⟩)

/-- A range that is RAM is the one range of RAM. -/
theorem getPhysMemRange_is_ram {physMem : Nat} (h : getPhysMemRange (machMap mm) paddr = some pr)
    (hram : pr.kind = .ram physMem) : pr = ramRange mm ∧ 0x1000 ≤ paddr ∧ paddr < machRamSize := by
  obtain ⟨hmem, hin⟩ := getPhysMemRange_some h
  simp only [machMap, List.mem_cons, List.not_mem_nil, or_false] at hmem
  rcases hmem with rfl | rfl | rfl | rfl | rfl
  · exact ⟨rfl, ramRange_holds.mp hin⟩
  all_goals cases hram

/-- Where the window of a device lies, and that it takes words only. -/
structure WindowOk (mm : MainMem) (pr : PhysMemoryRange) (flags : UInt32) : Prop where
  mem : pr ∈ machMap mm
  flags_eq : flags = devioSize32
  addr_mod : pr.addr % 8 = 0
  size_mod : pr.size % 8 = 0
  size_le : pr.size ≤ 4096

theorem window_ok {dev : Dev} {flags : UInt32} (hpr : getPhysMemRange (machMap mm) paddr = some pr)
    (hkind : pr.kind = .device dev flags) : WindowOk mm pr flags ∧ pr.addr ≤ paddr ∧ paddr < pr.addr + pr.size := by
  obtain ⟨hmem, hin⟩ := getPhysMemRange_some hpr
  refine ⟨?_, hin⟩
  have hcases := hmem
  simp only [machMap, List.mem_cons, List.not_mem_nil, or_false] at hcases
  rcases hcases with rfl | rfl | rfl | rfl | rfl
  · cases hkind
  all_goals
    cases hkind
    exact ⟨hmem, rfl, by decide, by decide, by decide⟩

/-- The window of the cheat device. -/
theorem window_cheat {flags : UInt32} (hpr : getPhysMemRange (machMap mm) paddr = some pr)
    (hkind : pr.kind = .device .cheat flags) : pr.addr = cheatOffset ∧ cheatOffset ≤ paddr ∧ paddr < cheatOffset + 0x100 := by
  obtain ⟨hmem, hin⟩ := getPhysMemRange_some hpr
  simp only [machMap, List.mem_cons, List.not_mem_nil, or_false] at hmem
  rcases hmem with rfl | rfl | rfl | rfl | rfl
  all_goals
    cases hkind
  exact ⟨rfl, hin⟩

/-- `paddr - pr->addr`. -/
theorem offset_toNat {paddr : UInt32} (hle : pr.addr ≤ paddr.toNat) :
    (UInt32.ofNat (u32 ((paddr.toNat : Int) - pr.addr))).toNat = paddr.toNat - pr.addr := by
  have hlt := paddr.toNat_lt
  rw [UInt32.toNat_ofNat', Nat.mod_eq_of_lt (u32_lt _)]
  unfold u32
  omega

/-- A window takes accesses of 32 bits as they are. -/
theorem devioSize32_bit {k : Nat} (hk : k ≤ 3) : (devioSize32 >>> UInt32.ofNat k) &&& 1 ≠ 0 ↔ k = 2 := by
  obtain rfl | rfl | rfl | rfl : k = 0 ∨ k = 1 ∨ k = 2 ∨ k = 3 := by omega
  all_goals decide

/-- Nothing is mapped below the second page. -/
theorem getPhysMemRange_first_page (h : paddr < 0x1000) : getPhysMemRange (machMap mm) paddr = none := by
  rw [Option.eq_none_iff_forall_ne_some]
  intro pr hpr
  obtain ⟨hmem, hin⟩ := getPhysMemRange_some hpr
  simp only [machMap, List.mem_cons, List.not_mem_nil, or_false] at hmem
  rcases hmem with rfl | rfl | rfl | rfl | rfl
  all_goals
    simp only [ramRange] at hin
    omega

end HadBadge
