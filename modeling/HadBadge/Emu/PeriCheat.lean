import HadBadge.Emu.MapLoader
import HadBadge.Emu.TilesetLoader

/-!
# `Emu.PeriCheat`: the cheat device

`emu/peri_cheat.c`: registers through which the guest has the emulator load files of the host into its RAM. The
names are C strings in `main_mem`, read here at the start of each command, that of the layer only if the loader
looks at it. Messages are left out.

## Contents
- **`strAt`**: the C string at an index of `main_mem`.
- **Translation.** `getFileSize`, `cheatLoadFile`, `cheatWriteFn`, `cheatReadFn`.
- **Memory.** `cheatWriteFn_dom`: no memory comes or goes.
-/

namespace HadBadge

open Lib

/-- The string from `p` on, at most `n` bytes of it being looked at. -/
def strFrom : Nat → Mem → Int → Except Fault CStr
  | 0,   _,   _ => .error .fuel
  | n+1, mem, p => do
      let b ← u8At mem p
      if b = 0 then return [] else return b :: (← strFrom n mem (p + 1))

/-- The C string at `&mem[p]`. It ends within RAM or it runs into the end of RAM. -/
def strAt (mem : Mem) (p : Int) : Except Fault CStr := strFrom (machRamSize + 1) mem p

/-- A string is read where its bytes and the terminator are. -/
theorem strFrom_eq {mem : Mem} {s : CStr} {p : Int} {n : Nat} (hn : s.length < n) (hs : ∀ b ∈ s, b ≠ 0)
    (hbytes : ∀ k (hk : k < s.length), mem (p + (k : Nat)) = some (s.get ⟨k, hk⟩))
    (hend : mem (p + s.length) = some 0) : strFrom n mem p = .ok s := by
  -- on the string, one byte a step
  induction s generalizing p n with
  | nil =>
      obtain ⟨n, rfl⟩ : ∃ n', n = n' + 1 := ⟨n - 1, by simp at hn; omega⟩
      have hb : u8At mem p = .ok 0 := u8At_eq_ok.mpr (by simpa using hend)
      rw [strFrom, hb]
      rfl
  | cons b s ih =>
      obtain ⟨n, rfl⟩ : ∃ n', n = n' + 1 := ⟨n - 1, by omega⟩
      have hb : u8At mem p = .ok b := u8At_eq_ok.mpr (by simpa using hbytes 0 (by simp))
      have hrest : strFrom n mem (p + 1) = .ok s := by
        refine ih (by simpa using hn) (fun c hc => hs c (by simp [hc])) ?_ ?_
        · intro k hk
          have := hbytes (k + 1) (by simpa using hk)
          push_cast at this
          rw [add_assoc, add_comm 1]
          exact this
        · rw [add_assoc, add_comm 1]
          simpa using hend
      rw [strFrom, hb, ok_bind, if_neg (hs b (by simp)), hrest]
      rfl

theorem strAt_eq {mem : Mem} {s : CStr} {p : Int} (hlen : s.length ≤ machRamSize) (hs : ∀ b ∈ s, b ≠ 0)
    (hbytes : ∀ k (hk : k < s.length), mem (p + (k : Nat)) = some (s.get ⟨k, hk⟩))
    (hend : mem (p + s.length) = some 0) : strAt mem p = .ok s :=
  strFrom_eq (Nat.lt_succ_of_le hlen) hs hbytes hend

/-! ## The device -/

def cheatFnAddrReg : UInt32 := 0x0
def cheatTilegfxSizeReg : UInt32 := 0x4
def cheatTilegfxReadAddrReg : UInt32 := 0x8
def cheatLayernameAddrReg : UInt32 := 0xC
def cheatTilemapSizeReg : UInt32 := 0x10
def cheatTilemapReadAddrReg : UInt32 := 0x14
def cheatRawSizeReg : UInt32 := 0x18
def cheatRawReadAddrReg : UInt32 := 0x1C

/-- The libraries and the files of the host. They do not change while a file is being loaded. -/
structure Host where
  gd : Gd
  xml : LibXml
  /-- what `fopen` and `fread` get of a file -/
  file : CStr → Option (List UInt8)

/-- A host with those TMX files and no others. -/
def tmxHost (files : CStr → Option XmlNode) : Host where
  gd := {
    File := Unit, Image := Unit, fopen := fun _ => none, imageCreateFromPng := fun _ => none
    imageSX := fun _ => 0, imageSY := fun _ => 0, imageGetTrueColorPixel := fun _ _ _ => 0
    trueColorGetRed := fun _ => 0, trueColorGetGreen := fun _ => 0, trueColorGetBlue := fun _ => 0 }
  xml := treeXml files
  file := fun _ => none

/-- `peri_cheat_t` without the pointers to memory and to the address range. -/
structure PeriCheat where
  filenameAddr : UInt32
  layerAddr : UInt32
  deriving DecidableEq, Repr

/-- `get_file_size`. -/
def getFileSize (host : Host) (filename : CStr) : Int :=
  match host.file filename with
  | none       => -1
  | some bytes => i32 bytes.length

/-- The bytes of a list, stored one after the other. -/
def setBytes : Mem → Int → List UInt8 → Except Fault Mem
  | mem, _,   []      => .ok mem
  | mem, out, b :: bs => do setBytes (← setU8 mem out b) (out + 1) bs

/-- `load_file` of the device. -/
def cheatLoadFile (host : Host) (filename : CStr) (out : Int) (mem : Mem) : Except Fault Mem :=
  match host.file filename with
  | none       => .ok mem
  | some bytes => setBytes mem out (bytes.take (8 * 1024 * 1024))

/-- `tile_loader_gen_map` looks at the name of the layer once it has found an element called `layer`. -/
def looksAtLayername (xml : LibXml) (name : CStr) : Bool :=
  match xml.readFile name with
  | none => false
  | some doc =>
  match xml.docGetRootElement doc with
  | none => false
  | some root => (xml.children root).any (fun child => xml.name child = cstr "layer")

/-- The string at `layer_addr`, as far as it is looked at. -/
def layernameAt (xml : LibXml) (name : CStr) (p : PeriCheat) (mem : Mem) : Except Fault CStr :=
  if looksAtLayername xml name then strAt mem p.layerAddr.toNat else .ok []

/-- `cheat_write_fn`. The results of the loaders are dropped. -/
def cheatWriteFn (host : Host) (p : PeriCheat) (mem : Mem) (offset val : UInt32) :
    Except Fault (PeriCheat × Mem) :=
  if offset = cheatFnAddrReg then .ok ({ p with filenameAddr := val }, mem)
  else if offset = cheatLayernameAddrReg then .ok ({ p with layerAddr := val }, mem)
  else if offset = cheatTilegfxReadAddrReg then do
    let name ← strAt mem p.filenameAddr.toNat
    let (_, mem) ← tileLoaderGenTileset host.gd name (some val.toNat) mem
    return (p, mem)
  else if offset = cheatTilemapReadAddrReg then do
    let name ← strAt mem p.filenameAddr.toNat
    let layername ← layernameAt host.xml name p mem
    let (_, mem) ← tileLoaderGenMap host.xml name layername (some val.toNat) mem
    return (p, mem)
  else if offset = cheatRawReadAddrReg then do
    let name ← strAt mem p.filenameAddr.toNat
    let mem ← cheatLoadFile host name val.toNat mem
    return (p, mem)
  else .ok (p, mem)

/-- `cheat_read_fn`. -/
def cheatReadFn (host : Host) (p : PeriCheat) (mem : Mem) (offset : UInt32) : Except Fault UInt32 :=
  if offset = cheatFnAddrReg then .ok p.filenameAddr
  else if offset = cheatLayernameAddrReg then .ok p.layerAddr
  else if offset = cheatTilegfxSizeReg then do
    let name ← strAt mem p.filenameAddr.toNat
    let (ret, _) ← tileLoaderGenTileset host.gd name none mem
    return UInt32.ofNat (u32 ret)
  else if offset = cheatTilemapSizeReg then do
    let name ← strAt mem p.filenameAddr.toNat
    let layername ← layernameAt host.xml name p mem
    let (ret, _) ← tileLoaderGenMap host.xml name layername none mem
    return UInt32.ofNat (u32 ret)
  else if offset = cheatRawSizeReg then do
    let name ← strAt mem p.filenameAddr.toNat
    return UInt32.ofNat (u32 (getFileSize host name))
  else .ok 0

/-! ## The registers of a tilemap -/

variable {host : Host} {p : PeriCheat} {mem : Mem}

theorem cheatWriteFn_fnAddr (val : UInt32) :
    cheatWriteFn host p mem cheatFnAddrReg val = .ok ({ p with filenameAddr := val }, mem) := if_pos rfl

theorem cheatWriteFn_layernameAddr (val : UInt32) :
    cheatWriteFn host p mem cheatLayernameAddrReg val = .ok ({ p with layerAddr := val }, mem) := by
  unfold cheatWriteFn
  rw [if_neg (by decide), if_pos rfl]

/-- Without an element called `layer`, no name finds one. -/
theorem findLayer_none {xml : LibXml} {layername : CStr} {children : List xml.Node}
    (h : children.any (fun child => xml.name child = cstr "layer") = false) :
    findLayer xml layername children = .ok none := by
  induction children with
  | nil => rfl
  | cons child rest ih =>
      rw [List.any_cons, Bool.or_eq_false_iff] at h
      rw [findLayer, if_neg (of_decide_eq_false h.1)]
      exact ih h.2

/-- The name of the layer makes a difference only where the loader looks at it. -/
theorem genMap_layername {xml : LibXml} {name : CStr} (h : looksAtLayername xml name = false) (l l' : CStr)
    (out : Option Int) (mem : Mem) : tileLoaderGenMap xml name l out mem = tileLoaderGenMap xml name l' out mem := by
  unfold looksAtLayername at h
  unfold tileLoaderGenMap
  cases hdoc : xml.readFile name with
  | none => rfl
  | some doc =>
      rw [hdoc] at h
      dsimp only at h ⊢
      cases hroot : xml.docGetRootElement doc with
      | none => rfl
      | some root =>
          rw [hroot] at h
          dsimp only at h ⊢
          rw [findLayer_none h, findLayer_none h]

/-- The loader's pass with the layer's name as it is in memory. -/
theorem genMap_layernameAt {xml : LibXml} {name layername : CStr}
    (hlayer : strAt mem p.layerAddr.toNat = .ok layername) (out : Option Int) (m : Mem) :
    (layernameAt xml name p mem >>= fun l => tileLoaderGenMap xml name l out m)
      = tileLoaderGenMap xml name layername out m := by
  unfold layernameAt
  by_cases hlooks : looksAtLayername xml name = true
  · rw [if_pos hlooks, hlayer, ok_bind]
  · rw [if_neg hlooks, ok_bind]
    exact genMap_layername (by simpa using hlooks) _ _ _ _

/-- A write of the tilemap address loads the layer there. -/
theorem cheatWriteFn_tilemap {name layername : CStr} (hname : strAt mem p.filenameAddr.toNat = .ok name)
    (hlayer : strAt mem p.layerAddr.toNat = .ok layername) (val : UInt32) :
    cheatWriteFn host p mem cheatTilemapReadAddrReg val = (do
      let (_, mem) ← tileLoaderGenMap host.xml name layername (some val.toNat) mem
      return (p, mem)) := by
  unfold cheatWriteFn
  rw [if_neg (by decide), if_neg (by decide), if_neg (by decide), if_pos rfl, hname, ok_bind,
    ← genMap_layernameAt hlayer, bind_assoc]

/-- A read of the tilemap size is a pass over the file with nowhere to write. -/
theorem cheatReadFn_tilemap {name layername : CStr} (hname : strAt mem p.filenameAddr.toNat = .ok name)
    (hlayer : strAt mem p.layerAddr.toNat = .ok layername) :
    cheatReadFn host p mem cheatTilemapSizeReg = (do
      let (ret, _) ← tileLoaderGenMap host.xml name layername none mem
      return UInt32.ofNat (u32 ret)) := by
  unfold cheatReadFn
  rw [if_neg (by decide), if_neg (by decide), if_neg (by decide), if_pos rfl, hname, ok_bind,
    ← genMap_layernameAt hlayer, bind_assoc]

/-! ## Memory -/

theorem setBytes_dom {mem mem' : Mem} {out : Int} {bs : List UInt8} (h : setBytes mem out bs = .ok mem') (a : Int) :
    (mem' a).isSome = (mem a).isSome := by
  induction bs generalizing mem out with
  | nil => cases h; rfl
  | cons b bs ih =>
      obtain ⟨m, hm, h⟩ := bind_eq_ok.mp h
      rw [ih h, setU8_dom hm]

/-- **The device writes to memory that is there.** -/
theorem cheatWriteFn_dom {p' : PeriCheat} {mem' : Mem} {offset val : UInt32}
    (h : cheatWriteFn host p mem offset val = .ok (p', mem')) (a : Int) : (mem' a).isSome = (mem a).isSome := by
  unfold cheatWriteFn at h
  -- the if-chain of the source, register by register
  by_cases h₁ : offset = cheatFnAddrReg
  · rw [if_pos h₁] at h; cases h; rfl
  rw [if_neg h₁] at h
  by_cases h₂ : offset = cheatLayernameAddrReg
  · rw [if_pos h₂] at h; cases h; rfl
  rw [if_neg h₂] at h
  by_cases h₃ : offset = cheatTilegfxReadAddrReg
  · rw [if_pos h₃] at h
    obtain ⟨name, -, h⟩ := bind_eq_ok.mp h
    obtain ⟨⟨ret, m⟩, hgen, h⟩ := bind_eq_ok.mp h
    cases h
    exact genTileset_dom hgen a
  rw [if_neg h₃] at h
  by_cases h₄ : offset = cheatTilemapReadAddrReg
  · rw [if_pos h₄] at h
    obtain ⟨name, -, h⟩ := bind_eq_ok.mp h
    obtain ⟨layername, -, h⟩ := bind_eq_ok.mp h
    obtain ⟨⟨ret, m⟩, hgen, h⟩ := bind_eq_ok.mp h
    cases h
    exact genMap_dom hgen a
  rw [if_neg h₄] at h
  by_cases h₅ : offset = cheatRawReadAddrReg
  · rw [if_pos h₅] at h
    obtain ⟨name, -, h⟩ := bind_eq_ok.mp h
    obtain ⟨m, hload, h⟩ := bind_eq_ok.mp h
    cases h
    unfold cheatLoadFile at hload
    cases hfile : host.file name with
    | none => rw [hfile] at hload; cases hload; rfl
    | some bytes => rw [hfile] at hload; exact setBytes_dom hload a
  rw [if_neg h₅] at h
  cases h
  rfl

end HadBadge
