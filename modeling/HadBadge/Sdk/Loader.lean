import HadBadge.Emu.PeriCheat

/-!
# `Sdk.Loader`: loading files from the guest

`load_tilemap`, `load_tilegfx` and `load_file` of `sdk/driver/loader.c`. `malloc` of the guest's C library is a
parameter; 0 is `NULL`.
-/

namespace HadBadge

open Lib

/-- `malloc`: the block it grants, and the memory after it. -/
abbrev Malloc := Mem → UInt32 → UInt32 × Mem

/-- What the loader leaves behind: the pointer it returns, the device and the memory. -/
structure Loaded where
  ret : UInt32
  cheat : PeriCheat
  mem : Mem

/-- The part that all loaders share: ask for the size, allocate, have the device fill the block in. -/
def loadInto (host : Host) (malloc : Malloc) (sizeReg readReg : UInt32) (p : PeriCheat) (mem : Mem) :
    Except Fault Loaded := do
  let size ← cheatReadFn host p mem sizeReg
  let (ret, mem) := malloc mem size
  if ret = 0 then return ⟨0, p, mem⟩
  let (p, mem) ← cheatWriteFn host p mem readReg ret
  return ⟨ret, p, mem⟩

/-- `load_tilemap`. -/
def loadTilemap (host : Host) (malloc : Malloc) (p : PeriCheat) (mem : Mem) (filename layer : UInt32) :
    Except Fault Loaded := do
  let (p, mem) ← cheatWriteFn host p mem cheatFnAddrReg filename
  let (p, mem) ← cheatWriteFn host p mem cheatLayernameAddrReg layer
  loadInto host malloc cheatTilemapSizeReg cheatTilemapReadAddrReg p mem

/-- `load_tilegfx`. -/
def loadTilegfx (host : Host) (malloc : Malloc) (p : PeriCheat) (mem : Mem) (filename : UInt32) :
    Except Fault Loaded := do
  let (p, mem) ← cheatWriteFn host p mem cheatFnAddrReg filename
  loadInto host malloc cheatTilegfxSizeReg cheatTilegfxReadAddrReg p mem

/-- `load_file`. -/
def loadFile (host : Host) (malloc : Malloc) (p : PeriCheat) (mem : Mem) (filename : UInt32) :
    Except Fault Loaded := do
  let (p, mem) ← cheatWriteFn host p mem cheatFnAddrReg filename
  loadInto host malloc cheatRawSizeReg cheatRawReadAddrReg p mem

/-! ## The two passes of `load_tilemap` -/

/-- What `malloc` does for `load_tilemap`: it has no block of 4 GiB, keeps the memory there is and leaves the
    caller's strings alone. -/
structure Malloc.Serves (malloc : Malloc) (mem : Mem) (filename layer : UInt32) : Prop where
  refuses : (malloc mem 0xffffffff).1 = 0
  dom : ∀ n a, ((malloc mem n).2 a).isSome = (mem a).isSome
  filename : ∀ n, strAt (malloc mem n).2 filename.toNat = strAt mem filename.toNat
  layer : ∀ n, strAt (malloc mem n).2 layer.toNat = strAt mem layer.toNat

variable {host : Host} {malloc : Malloc} {p : PeriCheat} {mem : Mem} {filename layer : UInt32}
variable {name layername : CStr}

/-- `load_tilemap` as its two passes over the file. -/
theorem loadTilemap_eq (hm : malloc.Serves mem filename layer) (hname : strAt mem filename.toNat = .ok name)
    (hlayer : strAt mem layer.toNat = .ok layername) :
    loadTilemap host malloc p mem filename layer = (do
      let (size, _) ← tileLoaderGenMap host.xml name layername none mem
      let (ret, mem) := malloc mem (UInt32.ofNat (u32 size))
      if ret = 0 then return ⟨0, ⟨filename, layer⟩, mem⟩
      let (_, mem) ← tileLoaderGenMap host.xml name layername (some ret.toNat) mem
      return ⟨ret, ⟨filename, layer⟩, mem⟩) := by
  unfold loadTilemap
  rw [cheatWriteFn_fnAddr, ok_bind]
  dsimp only
  rw [cheatWriteFn_layernameAddr, ok_bind]
  dsimp only
  unfold loadInto
  rw [cheatReadFn_tilemap hname hlayer]
  -- a fault of the size pass is a fault of the call
  cases hpass : tileLoaderGenMap host.xml name layername none mem with
  | error f => rfl
  | ok r =>
      simp only [ok_bind, pure_bind]
      by_cases hret : (malloc mem (UInt32.ofNat (u32 r.1))).1 = 0
      · rw [if_pos hret, if_pos hret]
      · rw [if_neg hret, if_neg hret]
        -- the strings are read again, from the memory that `malloc` leaves
        rw [cheatWriteFn_tilemap (p := ⟨filename, layer⟩) ((hm.filename _).trans hname)
          ((hm.layer _).trans hlayer)]
        cases tileLoaderGenMap host.xml name layername _ _ with
        | error f => rfl
        | ok r' => rfl

end HadBadge
