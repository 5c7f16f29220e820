import HadBadge.Sdk.GfxDriver

/-!
# `Sdk.ExtGfx`: the BASIC graphics commands

The background, sprite and tilemap commands of `sdk/mybasic/ext_gfx.c`, from the point where the interpreter
has popped their arguments. `mem` is the memory as guest code reaches it; the sprite commands store into RAM, and
`calloc` of the guest's C library is a parameter of theirs.
-/

namespace HadBadge

open Lib

/-- The result of a BASIC command. -/
inductive MbFunc where
  | ok | err
  deriving DecidableEq, Repr

/-- `_bgndinit`. -/
def bgndinit (g : PeriGfx) (mem : Mem) (id : Int) (tm : Nat) (gfx : UInt32) (transcol : Int) :
    Except Fault (MbFunc × PeriGfx) :=
  if id < 0 ∨ (gfxBgndCount : Int) < id then .ok (.err, g)
  else do
    let g ← gfxBgndSetGfx g id gfx transcol
    let g ← gfxBgndSetMap g mem id tm
    return (.ok, g)

/-- `_bgndscroll`. -/
def bgndscroll (g : PeriGfx) (id scrollx scrolly : Int) : Except Fault (MbFunc × PeriGfx) :=
  if id < 0 ∨ (gfxBgndCount : Int) < id then .ok (.err, g)
  else do
    let scrollx ← remI32 scrollx (i32 ((← gfxBgndGetW g id) * 8))
    let scrolly ← remI32 scrolly (i32 ((← gfxBgndGetH g id) * 8))
    let w ← gfxBgndGetW g id
    let scrollx := if scrollx < 0 then i32 (scrollx + i32 (w * 8)) else scrollx
    let h ← gfxBgndGetH g id
    let scrolly := if scrolly < 0 then i32 (scrolly + i32 (h * 8)) else scrolly
    return (.ok, gfxBgndSetScroll g id scrollx scrolly)

/-- `calloc`: the block it grants, 0 being `NULL`, and RAM after it. -/
abbrev Calloc := Ram → (n size : UInt32) → UInt32 × Ram

/-- `&sprites[id]`, plus the offset of a field. -/
def spriteField (sprites : UInt32) (id : Int) (field : Nat) : Nat := u32 (sprites.toNat + 8 * id + field)

/-- `for (int i=0; i<count; i++) sprites[i].ypos=SPRITE_HIDE;`. -/
def hideSprites (sprites : UInt32) (count : Nat) (r : Ram) : Ram :=
  (List.range count).foldl (fun r (i : Nat) => r.guestSetU16 (spriteField sprites i 2) (u16 spriteHide)) r

/-- `_sprinit`. -/
def sprinit (calloc : Calloc) (g : PeriGfx) (r : Ram) (count : Int) (gfx : UInt32) (transcol : Int) :
    Except Fault (MbFunc × PeriGfx × Ram) :=
  let (sprites, r) := calloc r 8 (UInt32.ofNat (u32 (count + 1)))
  if sprites = 0 then .error .abort
  else
    let r := hideSprites sprites count.toNat r
    let r := r.guestSetU16 (spriteField sprites count 2) (u16 spriteListEndMarker)
    .ok (.ok, gfxSpriteSetMem g sprites gfx transcol, r)

/-- What the three setters share: a store into a field of `sprites[id]`. They always return `MB_FUNC_OK`. -/
def sprset (field : Nat) (g : PeriGfx) (r : Ram) (id v : Int) : Ram :=
  r.guestSetU16 (spriteField (gfxGetSprites g) id field) (u16 v)

/-- `_sprsettile`. -/
def sprsettile : PeriGfx → Ram → (id v : Int) → Ram := sprset 4

/-- `_sprsetx`. -/
def sprsetx : PeriGfx → Ram → (id v : Int) → Ram := sprset 0

/-- `_sprsety`. -/
def sprsety : PeriGfx → Ram → (id v : Int) → Ram := sprset 2

/-- `_tilemapat`: the value it pushes. -/
def tilemapat (mem : Mem) (tm : Nat) (x y : Int) : Except Fault Nat := do
  let w ← u16At mem tm
  let x ← remI32 x w
  let h ← u16At mem (tm + 2)
  let y ← remI32 y h
  let x := if x < 0 then i32 (x + w) else x
  let y := if y < 0 then i32 (y + h) else y
  u16At mem (u32 (tm + 4 + 2 * i32 (w * y + x)))

/-- `_tilemapset`: the memory it leaves. -/
def tilemapset (mem : Mem) (tm : Nat) (x y t : Int) : Except Fault Mem := do
  let w ← u16At mem tm
  let x ← remI32 x w
  let h ← u16At mem (tm + 2)
  let y ← remI32 y h
  let x := if x < 0 then i32 (x + w) else x
  let y := if y < 0 then i32 (y + h) else y
  setU16 mem (u32 (tm + 4 + 2 * i32 (w * y + x))) (u16 t)

/-! ## What the commands compute -/

variable {g : PeriGfx} {mem : Mem} {tm w h : Nat}

/-- The remainder idiom of the commands: it lands in `[0, m)`, so nothing in it wraps. -/
theorem rem_fix (a : Int) {m : Int} (h0 : 0 < m) (h1 : m < 2147483648) :
    (if a.tmod m < 0 then i32 (a.tmod m + m) else a.tmod m) = a % m := by
  rw [← tmod_fix a h0]
  by_cases hneg : a.tmod m < 0
  · have hlt := Int.lt_tmod_of_pos a h0
    rw [if_pos hneg, if_pos hneg, i32_of_range (by omega) (by omega)]
  · rw [if_neg hneg, if_neg hneg]

/-- `BGNDINIT` on a valid id sets every register of the background but the scroll position. -/
theorem bgndinit_fin (hm : TilemapAt mem tm w h) (g : PeriGfx) (i : Fin 3) (gfx : UInt32)
    (transcol : Int) :
    bgndinit g mem i tm gfx transcol = .ok (.ok, g.setBgnd i
      { mapAddr := UInt32.ofNat (tm + 4), gfxAddr := gfx, width := UInt32.ofNat w, height := UInt32.ofNat h,
        scrollx := (g.bgnd i).scrollx, scrolly := (g.bgnd i).scrolly,
        transcol := UInt32.ofNat (u32 transcol) }) := by
  have hi := i.isLt
  have hfits := hm.fits
  simp only [machRamSize] at hfits
  -- the map is in RAM, so the address of its cells does not wrap
  have htm : u32 ((tm : Int) + 4) = tm + 4 := by
    rw [show (tm : Int) + 4 = ((tm + 4 : Nat) : Int) by push_cast; ring, u32_natCast]
    omega
  unfold bgndinit
  rw [if_neg (by simp only [gfxBgndCount]; omega), gfxBgndSetGfx_fin, ok_bind,
    gfxBgndSetMap_fin hm.width hm.height, ok_bind, PeriGfx.setBgnd_setBgnd, PeriGfx.setBgnd_bgnd_self, htm]
  rfl

/-- A background with the scroll registers as `BGNDSCROLL` computes them. -/
def PeriGfxBgnd.scroll (b : PeriGfxBgnd) (sx sy : Int) : PeriGfxBgnd :=
  { b with
    scrollx := UInt32.ofNat (u32 (sx % (8 * b.width.toNat)))
    scrolly := UInt32.ofNat (u32 (sy % (8 * b.height.toNat))) }

@[simp] theorem PeriGfxBgnd.scroll_scroll (b : PeriGfxBgnd) (sx sy sx' sy' : Int) :
    (b.scroll sx sy).scroll sx' sy' = b.scroll sx' sy' := rfl

/-- `BGNDSCROLL` on a background with a map stores the non-negative remainders of its arguments. -/
theorem bgndscroll_fin (i : Fin 3) (hw0 : 0 < (g.bgnd i).width.toNat) (hw : (g.bgnd i).width.toNat < 65536)
    (hh0 : 0 < (g.bgnd i).height.toNat) (hh : (g.bgnd i).height.toNat < 65536) (sx sy : Int) :
    bgndscroll g i sx sy = .ok (.ok, g.setBgnd i ((g.bgnd i).scroll sx sy)) := by
  have hi := i.isLt
  -- the getters return the size as an `int`, and eight times a 16-bit size still is one
  have hsize (v : UInt32) (hv : v.toNat < 65536) : i32 (i32 v.toNat * 8) = 8 * (v.toNat : Int) := by
    rw [i32_of_range (x := v.toNat) (by omega) (by omega), i32_of_range (by omega) (by omega)]
    ring
  have hx : (0 : Int) < 8 * (g.bgnd i).width.toNat := by omega
  have hy : (0 : Int) < 8 * (g.bgnd i).height.toNat := by omega
  unfold bgndscroll
  rw [if_neg (by simp only [gfxBgndCount]; omega), gfxBgndGetW_fin, gfxBgndGetH_fin, ok_bind, hsize _ hw,
    remI32_of_pos sx hx, ok_bind, ok_bind, hsize _ hh, remI32_of_pos sy hy, ok_bind, ok_bind, ok_bind]
  dsimp only
  rw [hsize _ hw, hsize _ hh, rem_fix sx hx (by omega), rem_fix sy hy (by omega), gfxBgndSetScroll_fin]
  rfl

/-- The cell that `TILEMAPAT` and `TILEMAPSET` mean by `(x, y)`. -/
def tileCell (w h : Nat) (x y : Int) : Nat := (y % h).toNat * w + (x % w).toNat

/-- It is a cell of the map. -/
theorem tileCell_lt (hw : 1 ≤ w) (hh : 1 ≤ h) (x y : Int) : tileCell w h x y < w * h := by
  have hx := Int.emod_lt_of_pos x (show (0 : Int) < w by omega)
  have hy := Int.emod_lt_of_pos y (show (0 : Int) < h by omega)
  exact cellIdx_lt (by omega) (by omega)

/-- Two pairs of coordinates mean one cell exactly when they agree modulo the size of the map. -/
theorem tileCell_eq_iff (hw : 1 ≤ w) (hh : 1 ≤ h) {x y x' y' : Int} :
    tileCell w h x' y' = tileCell w h x y ↔ x' % w = x % w ∧ y' % h = y % h := by
  have hx0 (x : Int) := Int.emod_nonneg x (show (w : Int) ≠ 0 by omega)
  have hx1 (x : Int) := Int.emod_lt_of_pos x (show (0 : Int) < w by omega)
  have hy0 (y : Int) := Int.emod_nonneg y (show (h : Int) ≠ 0 by omega)
  -- the column is the remainder of the cell by the width, the row its quotient
  have hcol (x y : Int) : tileCell w h x y % w = (x % w).toNat := by
    have := hx0 x
    have := hx1 x
    rw [tileCell, Nat.add_comm, Nat.add_mul_mod_self_right, Nat.mod_eq_of_lt (by omega)]
  have hrow (x y : Int) : tileCell w h x y / w = (y % h).toNat := by
    have := hx0 x
    have := hx1 x
    rw [tileCell, Nat.add_comm, Nat.add_mul_div_right _ _ (by omega), Nat.div_eq_of_lt (by omega), Nat.zero_add]
  constructor
  · intro hc
    have hx : (x' % w).toNat = (x % w).toNat := by rw [← hcol x' y', hc, hcol]
    have hy : (y' % h).toNat = (y % h).toNat := by rw [← hrow x' y', hc, hrow]
    have := hx0 x
    have := hx0 x'
    have := hy0 y
    have := hy0 y'
    omega
  · rintro ⟨hx, hy⟩
    rw [tileCell, tileCell, hx, hy]

/-- Both coordinates are in range after the sign fix, so the address computed is that of a cell. -/
theorem tileAddr_eq (hm : TilemapAt mem tm w h) (hw : 1 ≤ w) (hh : 1 ≤ h) (x y : Int) :
    (u32 (tm + 4 + 2 * i32 (w * (y % h) + x % w)) : Int) = tm + 4 + 2 * (tileCell w h x y : Int) := by
  have hcells := hm.cells_lt
  have hfits := hm.fits
  simp only [machRamSize] at hfits
  have hx0 := Int.emod_nonneg x (show (w : Int) ≠ 0 by omega)
  have hy0 := Int.emod_nonneg y (show (h : Int) ≠ 0 by omega)
  have hcell := tileCell_lt hw hh x y
  have hidx : (w : Int) * (y % h) + x % w = (tileCell w h x y : Nat) := by
    rw [tileCell]
    push_cast
    rw [Int.toNat_of_nonneg hx0, Int.toNat_of_nonneg hy0]
    ring
  rw [hidx, i32_of_range (by omega) (by omega), u32_of_range (by omega) (by omega)]

/-- `TILEMAPAT` reads the cell at the coordinates taken modulo the size of the map. -/
theorem tilemapat_eq (hm : TilemapAt mem tm w h) (hw : 1 ≤ w) (hh : 1 ≤ h) (x y : Int) :
    tilemapat mem tm x y
      = u16At mem (tm + 4 + 2 * (((y % h).toNat * w + (x % w).toNat : Nat) : Int)) := by
  have hw' := hm.width_lt
  have hh' := hm.height_lt
  have haddr := tileAddr_eq hm hw hh x y
  unfold tilemapat
  rw [hm.width, ok_bind, remI32_of_pos x (by omega), ok_bind, hm.height, ok_bind, remI32_of_pos y (by omega),
    ok_bind]
  dsimp only
  rw [rem_fix x (by omega) (by omega), rem_fix y (by omega) (by omega), haddr, tileCell]

/-- `TILEMAPSET` stores into that cell. -/
theorem tilemapset_eq (hm : TilemapAt mem tm w h) (hw : 1 ≤ w) (hh : 1 ≤ h) (x y t : Int) :
    tilemapset mem tm x y t = setU16 mem (tm + 4 + 2 * (tileCell w h x y : Int)) (u16 t) := by
  have hw' := hm.width_lt
  have hh' := hm.height_lt
  have haddr := tileAddr_eq hm hw hh x y
  unfold tilemapset
  rw [hm.width, ok_bind, remI32_of_pos x (by omega), ok_bind, hm.height, ok_bind, remI32_of_pos y (by omega),
    ok_bind]
  dsimp only
  rw [rem_fix x (by omega) (by omega), rem_fix y (by omega) (by omega), haddr]

end HadBadge
