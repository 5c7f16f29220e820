import HadBadge.MachDefines

/-!
# `Emu.TilesetLoader`: tile graphics from an image

`tile_loader_gen_tileset` of `emu/tile_loader.c`. The image library and the file system are a parameter
(`Gd`). `out` is an index in `main_mem`, where the cheat device points it; `none` is a null pointer.

## Contents
- **Translation.** `convTo8bit`, `tilesetStep`, `tileLoaderGenTileset`.
- **What it leaves there.** `genTileset_dom`: no memory comes or goes.
- **What it writes.** `tileTexel`: byte `k` of the output is texel `k % 64` of tile `k / 64`, tiles row by row;
  `genTileset_writes` says that exactly these bytes are written.
-/

namespace HadBadge

open Lib

/-- What the loader uses of `fopen` and of the gd library. -/
structure Gd where
  File : Type
  Image : Type
  fopen : List UInt8 → Option File
  imageCreateFromPng : File → Option Image
  imageSX : Image → Int
  imageSY : Image → Int
  imageGetTrueColorPixel : Image → Int → Int → Int
  trueColorGetRed : Int → UInt8
  trueColorGetGreen : Int → UInt8
  trueColorGetBlue : Int → UInt8

/-- `conv_to_8bit`: three bits of red, three of green, two of blue. -/
def convTo8bit (r g b : UInt8) : UInt8 :=
  let ret : UInt8 := 0
  let ret := if r &&& 0x80 ≠ 0 then ret ||| 0x80 else ret
  let ret := if r &&& 0x40 ≠ 0 then ret ||| 0x40 else ret
  let ret := if r &&& 0x20 ≠ 0 then ret ||| 0x20 else ret
  let ret := if g &&& 0x80 ≠ 0 then ret ||| 0x10 else ret
  let ret := if g &&& 0x40 ≠ 0 then ret ||| 0x08 else ret
  let ret := if g &&& 0x20 ≠ 0 then ret ||| 0x04 else ret
  let ret := if b &&& 0x80 ≠ 0 then ret ||| 0x02 else ret
  if b &&& 0x40 ≠ 0 then ret ||| 0x01 else ret

/-- The colour byte for pixel `(x, y)` of the image. -/
def convPixel (gd : Gd) (im : gd.Image) (x y : Int) : UInt8 :=
  let c := gd.imageGetTrueColorPixel im x y
  convTo8bit (gd.trueColorGetRed c) (gd.trueColorGetGreen c) (gd.trueColorGetBlue c)

/-- The moving pointer and the memory it writes. -/
structure TilesetLoop where
  out : Int
  mem : Mem

/-- One iteration of the innermost loop. -/
def tilesetStep (gd : Gd) (im : gd.Image) (x y yy xx : Nat) (s : TilesetLoop) : Except Fault TilesetLoop := do
  let mem ← setU8 s.mem s.out (convPixel gd im (x * 8 + xx) (y * 8 + yy))
  return ⟨s.out + 1, mem⟩

/-- The two loops over the pixels of tile `(x, y)`. -/
def tilesetTile (gd : Gd) (im : gd.Image) (x y : Nat) (s : TilesetLoop) : Except Fault TilesetLoop :=
  forFrom (fun yy => forFrom (fun xx => tilesetStep gd im x y yy xx) 8 0) 8 0 s

/-- The two loops over the tiles. -/
def tilesetLoops (gd : Gd) (im : gd.Image) (w h : Int) (s : TilesetLoop) : Except Fault TilesetLoop :=
  forFrom (fun y => forFrom (fun x => tilesetTile gd im x y) w.toNat 0) h.toNat 0 s

/-- `tile_loader_gen_tileset`: its result, and the memory after it. -/
def tileLoaderGenTileset (gd : Gd) (name : List UInt8) (out : Option Int) (mem : Mem) :
    Except Fault (Int × Mem) :=
  match gd.fopen name with
  | none => .ok (-1, mem)
  | some f =>
  match gd.imageCreateFromPng f with
  | none => .ok (-1, mem)
  | some im =>
      let h := (gd.imageSY im).tdiv 8
      let w := (gd.imageSX im).tdiv 8
      let ret := i32 (w * h * 64)
      match out with
      | none => .ok (ret, mem)
      | some out => do
          let s ← tilesetLoops gd im w h ⟨out, mem⟩
          return (ret, s.mem)

/-! ## What it writes -/

/-- Byte `k` of the tileset of an image that is `w` tiles wide. -/
def tileTexel (gd : Gd) (im : gd.Image) (w k : Nat) : UInt8 :=
  convPixel gd im ((k / 64 % w * 8 + k % 8 : Nat) : Int) ((k / 64 / w * 8 + k / 8 % 8 : Nat) : Int)

variable {gd : Gd} {im : gd.Image} {w h : Nat} {out : Int} {mem : Mem}

/-- The state with the first `k` bytes of the tileset written. -/
def tilesetAt (gd : Gd) (im : gd.Image) (w : Nat) (out : Int) (mem : Mem) (k : Nat) : TilesetLoop :=
  ⟨out + k, mem.overwrite out k (tileTexel gd im w)⟩

/-- Index of a pixel in the tileset. -/
def texelIdx (w x y yy xx : Nat) : Nat := (((y * w + x) * 8 + yy) * 8) + xx

theorem tileTexel_idx {x y yy xx : Nat} (hx : x < w) (hyy : yy < 8) (hxx : xx < 8) :
    tileTexel gd im w (texelIdx w x y yy xx) = convPixel gd im (x * 8 + xx) (y * 8 + yy) := by
  have htile : texelIdx w x y yy xx / 64 = y * w + x := by unfold texelIdx; omega
  have hcol : (y * w + x) % w = x := by rw [Nat.mul_comm, Nat.mul_add_mod, Nat.mod_eq_of_lt hx]
  have hrow : (y * w + x) / w = y := by
    rw [Nat.mul_comm, Nat.mul_add_div (by omega), Nat.div_eq_of_lt hx, Nat.add_zero]
  have hx8 : texelIdx w x y yy xx % 8 = xx := by unfold texelIdx; omega
  have hy8 : texelIdx w x y yy xx / 8 % 8 = yy := by unfold texelIdx; omega
  unfold tileTexel
  rw [htile, hcol, hrow, hx8, hy8]
  push_cast
  rfl

/-- One iteration writes the next byte. -/
theorem tilesetStep_at {n x y yy xx : Nat} (hmem : ∀ k < n, (mem (out + k)).isSome) (hx : x < w) (hyy : yy < 8)
    (hxx : xx < 8) (hn : texelIdx w x y yy xx < n) :
    tilesetStep gd im x y yy xx (tilesetAt gd im w out mem (texelIdx w x y yy xx))
      = .ok (tilesetAt gd im w out mem (texelIdx w x y yy xx + 1)) := by
  -- bytes already written are still there to be written
  have hdom := mem.overwrite_isSome (a := out) (n := texelIdx w x y yy xx) (tileTexel gd im w)
    (fun k hk => hmem k (by omega)) (out + texelIdx w x y yy xx)
  unfold tilesetStep tilesetAt
  dsimp only
  rw [← tileTexel_idx hx hyy hxx, setU8, if_pos (hdom.trans (hmem _ hn)), Mem.overwrite_succ, ok_bind]
  push_cast
  rw [Int.add_assoc]
  rfl

/-- The four loops write the bytes of the tileset one after the other. -/
theorem tilesetLoops_at (hmem : ∀ k < 64 * (w * h), (mem (out + k)).isSome) :
    tilesetLoops gd im w h ⟨out, mem⟩ = .ok (tilesetAt gd im w out mem (64 * (w * h))) := by
  -- loop by loop, from the inside: a row of a tile, a tile, a line of tiles, the image
  have hpixel : ∀ x < w, ∀ y < h, ∀ yy < 8, ∀ xx < 8, texelIdx w x y yy xx < 64 * (w * h) := by
    intro x hx y hy yy hyy xx hxx
    have := cellIdx_lt hx hy
    unfold texelIdx; omega
  have hrow : ∀ x < w, ∀ y < h, ∀ yy < 8, forFrom (tilesetStep gd im x y yy) 8 0
      (tilesetAt gd im w out mem ((y * w + x) * 64 + yy * 8))
        = .ok (tilesetAt gd im w out mem ((y * w + x) * 64 + (yy + 1) * 8)) := by
    intro x hx y hy yy hyy
    rw [show (y * w + x) * 64 + (yy + 1) * 8 = (y * w + x) * 64 + yy * 8 + 8 * 1 by ring]
    apply forFrom_stride _ 1
    intro xx hxx
    have hidx : (y * w + x) * 64 + yy * 8 + xx * 1 = texelIdx w x y yy xx := by unfold texelIdx; ring
    rw [Nat.add_mul xx 1 1, ← Nat.add_assoc, hidx]
    exact tilesetStep_at hmem hx hyy hxx (hpixel x hx y hy yy hyy xx hxx)
  have htile : ∀ y < h, ∀ x < w, tilesetTile gd im x y (tilesetAt gd im w out mem (y * (w * 64) + x * 64))
      = .ok (tilesetAt gd im w out mem (y * (w * 64) + (x + 1) * 64)) := by
    intro y hy x hx
    rw [show y * (w * 64) + x * 64 = (y * w + x) * 64 by ring,
      show y * (w * 64) + (x + 1) * 64 = (y * w + x) * 64 + 8 * 8 by ring]
    exact forFrom_stride _ 8 (hrow x hx y hy)
  have hline : ∀ y < h, forFrom (fun x => tilesetTile gd im x y) w 0 (tilesetAt gd im w out mem (0 + y * (w * 64)))
      = .ok (tilesetAt gd im w out mem (0 + (y + 1) * (w * 64))) := by
    intro y hy
    rw [show 0 + (y + 1) * (w * 64) = y * (w * 64) + w * 64 by ring, Nat.zero_add]
    exact forFrom_stride _ 64 (htile y hy)
  have hall := forFrom_stride 0 (w * 64) hline
  rw [show 0 + h * (w * 64) = 64 * (w * h) by ring] at hall
  have hstart : tilesetAt gd im w out mem 0 = ⟨out, mem⟩ := by
    rw [tilesetAt, Mem.overwrite_zero]
    simp
  rw [hstart] at hall
  exact hall

/-- **The conversion writes exactly the bytes it returns the number of**, and the size query returns the same
    number. -/
theorem genTileset_writes {gd : Gd} {f : gd.File} {im : gd.Image} {w h : Nat} {name : List UInt8}
    (hf : gd.fopen name = some f) (him : gd.imageCreateFromPng f = some im)
    (hw : (gd.imageSX im).tdiv 8 = w) (hh : (gd.imageSY im).tdiv 8 = h) (hsize : w * h ≤ 65535)
    (hmem : ∀ k < 64 * (w * h), (mem (out + k)).isSome) :
    tileLoaderGenTileset gd name none mem = .ok (((64 * (w * h) : Nat) : Int), mem) ∧
      tileLoaderGenTileset gd name (some out) mem
        = .ok (((64 * (w * h) : Nat) : Int), mem.overwrite out (64 * (w * h)) (tileTexel gd im w)) := by
  have hret : i32 (w * h * 64) = ((64 * (w * h) : Nat) : Int) := by
    rw [← Nat.cast_mul, i32_of_range (by omega) (by omega)]
    push_cast
    ring
  unfold tileLoaderGenTileset
  simp only [hf, him, hw, hh, hret, tilesetLoops_at hmem, ok_bind]
  exact ⟨trivial, rfl⟩

/-! ## What it leaves there -/

/-- The loops write to memory that is there. -/
theorem tilesetLoops_dom {w h : Int} {s t : TilesetLoop} (ht : tilesetLoops gd im w h s = .ok t) (a : Int) :
    (t.mem a).isSome = (s.mem a).isSome := by
  -- the same invariant through all four loops
  refine forFrom_inv (fun _ t => (t.mem a).isSome = (s.mem a).isSome) _ _ s t (fun y s₁ t₁ _ _ h₁ ht₁ => ?_) rfl ht
  refine forFrom_inv (fun _ t => (t.mem a).isSome = (s.mem a).isSome) _ _ s₁ t₁ (fun x s₂ t₂ _ _ h₂ ht₂ => ?_) h₁ ht₁
  refine forFrom_inv (fun _ t => (t.mem a).isSome = (s.mem a).isSome) _ _ s₂ t₂ (fun yy s₃ t₃ _ _ h₃ ht₃ => ?_) h₂ ht₂
  refine forFrom_inv (fun _ t => (t.mem a).isSome = (s.mem a).isSome) _ _ s₃ t₃ (fun xx s₄ t₄ _ _ h₄ ht₄ => ?_) h₃ ht₃
  obtain ⟨m, hm, ht₄⟩ := bind_eq_ok.mp ht₄
  cases ht₄
  exact (setU8_dom hm a).trans h₄

theorem genTileset_dom {name : List UInt8} {out : Option Int} {ret : Int} {mem' : Mem}
    (h : tileLoaderGenTileset gd name out mem = .ok (ret, mem')) (a : Int) : (mem' a).isSome = (mem a).isSome := by
  unfold tileLoaderGenTileset at h
  cases hf : gd.fopen name with
  | none => rw [hf] at h; cases h; rfl
  | some f =>
      rw [hf] at h
      dsimp only at h
      cases him : gd.imageCreateFromPng f with
      | none => rw [him] at h; cases h; rfl
      | some im =>
          rw [him] at h
          cases out with
          | none => cases h; rfl
          | some out =>
              obtain ⟨t, ht, h⟩ := bind_eq_ok.mp h
              cases h
              exact tilesetLoops_dom ht a

end HadBadge
