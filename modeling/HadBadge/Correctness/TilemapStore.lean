import HadBadge.Sdk.ExtGfx

/-!
# `Correctness.TilemapStore`: `TILEMAPAT` reads what `TILEMAPSET` stored

The two commands reduce their coordinates in separately written code. Both mean the cell `tileCell w h x y`
(`tilemapat_eq`, `tilemapset_eq`), and two pairs of coordinates mean one cell exactly when they agree modulo
the size of the map (`tileCell_eq_iff`), so the cells are a store indexed by the points of a torus.
-/

namespace HadBadge

open Lib

variable {m : Mem} {tm w h : Nat} {x y t : Int}

/-- A map whose cells are all there. -/
structure MapCells (m : Mem) (tm w h : Nat) : Prop extends TilemapAt m tm w h where
  cells : ∀ k : Nat, k < w * h → ∃ t, u16At m (tm + 4 + 2 * k) = .ok t

/-- The map of a guest is one. -/
theorem TilemapAt.mapCells {r : Ram} (hm : TilemapAt r.guest tm w h) : MapCells r.guest tm w h :=
  ⟨hm, fun _ hk => hm.guest_cell hk⟩

/-- The bytes of the header and of cell `c`. -/
def InCell (tm c : Nat) (i : Int) : Prop :=
  ((tm : Int) ≤ i ∧ i < tm + 4) ∨ ((tm : Int) + 4 + 2 * c ≤ i ∧ i < tm + 4 + 2 * c + 2)

instance (tm c : Nat) : DecidablePred (InCell tm c) := fun _ => inferInstanceAs (Decidable (_ ∨ _))

/-! ## One access -/

theorem u16At_restrict {P : Int → Prop} [DecidablePred P] {i : Int} (h0 : P i) (h1 : P (i + 1)) :
    u16At (m.restrict P) i = u16At m i := by
  unfold u16At
  rw [Mem.load_restrict]
  intro k hk
  rcases k with _ | _ | k
  · simpa using h0
  · exact h1
  · omega

/-- The header is still there when nothing but it and one cell is. -/
theorem TilemapAt.restrict (hm : TilemapAt m tm w h) (c : Nat) :
    TilemapAt (m.restrict (InCell tm c)) tm w h where
  width := by
    rw [u16At_restrict (.inl ⟨by omega, by omega⟩) (.inl ⟨by omega, by omega⟩)]
    exact hm.width
  height := by
    rw [u16At_restrict (.inl ⟨by omega, by omega⟩) (.inl ⟨by omega, by omega⟩)]
    exact hm.height
  fits := hm.fits

/-- `TILEMAPAT` reads the header and one cell. -/
theorem tilemapat_inCell (hm : MapCells m tm w h) (hw : 1 ≤ w) (hh : 1 ≤ h) (x y : Int) :
    ∃ v, tilemapat m tm x y = .ok v ∧
      tilemapat (m.restrict (InCell tm (tileCell w h x y))) tm x y = .ok v := by
  obtain ⟨v, hv⟩ := hm.cells _ (tileCell_lt hw hh x y)
  refine ⟨v, ?_, ?_⟩
  · rw [tilemapat_eq hm.toTilemapAt hw hh]
    exact hv
  · rw [tilemapat_eq (hm.toTilemapAt.restrict _) hw hh, ← tileCell,
      u16At_restrict (.inr ⟨by omega, by omega⟩) (.inr ⟨by omega, by omega⟩)]
    exact hv

/-- `TILEMAPSET` needs the header and one cell. -/
theorem tilemapset_inCell (hm : MapCells m tm w h) (hw : 1 ≤ w) (hh : 1 ≤ h) (x y t : Int) :
    ∃ m', m.store (tm + 4 + 2 * (tileCell w h x y : Int)) 2 (u16 t) = some m' ∧
      tilemapset m tm x y t = .ok m' ∧
      tilemapset (m.restrict (InCell tm (tileCell w h x y))) tm x y t
        = .ok (m'.restrict (InCell tm (tileCell w h x y))) := by
  obtain ⟨v, hv⟩ := hm.cells _ (tileCell_lt hw hh x y)
  obtain ⟨m', hs⟩ := Mem.store_isSome_iff (v := u16 t) |>.mpr (Mem.load_isSome_iff.mp ⟨v, u16At_eq_ok.mp hv⟩)
  refine ⟨m', hs, ?_, ?_⟩
  · rw [tilemapset_eq hm.toTilemapAt hw hh]
    exact setU16_eq_ok.mpr hs
  · rw [tilemapset_eq (hm.toTilemapAt.restrict _) hw hh]
    refine setU16_eq_ok.mpr (Mem.store_restrict ?_ hs)
    intro k hk
    exact .inr ⟨by omega, by omega⟩

/-! ## The store -/

/-- A store into a cell leaves the header and the other cells. -/
theorem MapCells.store (hm : MapCells m tm w h) {c v : Nat} {m' : Mem}
    (hs : m.store (tm + 4 + 2 * (c : Int)) 2 v = some m') : MapCells m' tm w h where
  width := by
    rw [← hm.width]
    unfold u16At
    rw [Mem.load_congr (fun k hk => Mem.store_frame hs (.inl (by omega)))]
  height := by
    rw [← hm.height]
    unfold u16At
    rw [Mem.load_congr (fun k hk => Mem.store_frame hs (.inl (by omega)))]
  fits := hm.fits
  cells := by
    intro k hk
    obtain ⟨t, ht⟩ := hm.cells k hk
    have hdom := Mem.load_isSome_iff.mp ⟨t, u16At_eq_ok.mp ht⟩
    obtain ⟨t', ht'⟩ := Mem.load_isSome_iff.mpr (fun j hj => (Mem.store_dom hs _).trans (hdom j hj))
    exact ⟨t', u16At_eq_ok.mpr ht'⟩

/-- What the cells hold after a store into one of them. -/
theorem u16At_store_cell {c v k : Nat} {m' : Mem} (hs : m.store (tm + 4 + 2 * (c : Int)) 2 v = some m') :
    u16At m' (tm + 4 + 2 * (k : Int))
      = if k = c then .ok (v % 65536) else u16At m (tm + 4 + 2 * (k : Int)) := by
  by_cases hk : k = c
  · subst hk
    rw [if_pos rfl]
    exact u16At_eq_ok.mpr (Mem.load_store_same hs)
  · rw [if_neg hk]
    unfold u16At
    rw [Mem.load_congr (fun j hj => Mem.store_frame hs (by omega))]

/-- **The cells of a tilemap are a store indexed by the torus.** `TILEMAPAT` and `TILEMAPSET` touch the
    header and one cell of the map, whatever the coordinates. After `TILEMAPSET` the size, the other cells and
    the rest of memory are as they were; `TILEMAPAT` returns the value stored, modulo 65536, at coordinates
    congruent to those stored at, and at others what it returned before. -/
theorem tilemapat_tilemapset (hm : MapCells m tm w h) (hw : 1 ≤ w) (hh : 1 ≤ h) (x y t : Int) :
    tileCell w h x y < w * h ∧
    (∃ v, tilemapat m tm x y = .ok v ∧
      tilemapat (m.restrict (InCell tm (tileCell w h x y))) tm x y = .ok v) ∧
    ∃ m', tilemapset m tm x y t = .ok m' ∧
      tilemapset (m.restrict (InCell tm (tileCell w h x y))) tm x y t
        = .ok (m'.restrict (InCell tm (tileCell w h x y))) ∧
      MapCells m' tm w h ∧
      (∀ k : Nat, k < w * h → k ≠ tileCell w h x y →
        u16At m' (tm + 4 + 2 * (k : Int)) = u16At m (tm + 4 + 2 * (k : Int))) ∧
      (∀ i : Int, i < tm + 4 + 2 * (tileCell w h x y : Int) ∨ tm + 4 + 2 * (tileCell w h x y : Int) + 2 ≤ i →
        m' i = m i) ∧
      ∀ x' y' : Int, tilemapat m' tm x' y'
        = if x' % w = x % w ∧ y' % h = y % h then .ok (t % 65536).toNat else tilemapat m tm x' y' := by
  refine ⟨tileCell_lt hw hh x y, tilemapat_inCell hm hw hh x y, ?_⟩
  obtain ⟨m', hs, hset, hset'⟩ := tilemapset_inCell hm hw hh x y t
  refine ⟨m', hset, hset', hm.store hs, ?_, ?_, ?_⟩
  · intro k _ hk
    rw [u16At_store_cell hs, if_neg hk]
  · intro i hi
    exact Mem.store_frame hs (by omega)
  · intro x' y'
    rw [tilemapat_eq (hm.store hs).toTilemapAt hw hh, tilemapat_eq hm.toTilemapAt hw hh, ← tileCell,
      u16At_store_cell hs, Nat.mod_eq_of_lt (u16_lt t)]
    simp only [tileCell_eq_iff hw hh]
    rfl

/-- A map of `257 × 257` cells at the bottom of the guest's memory. -/
theorem mapCells_ones : MapCells (Ram.fill 1).guest 4096 257 257 :=
  TilemapAt.mapCells ⟨by decide, by decide, by decide⟩

/-- A value stored at the lowest `int` is read back at its remainder. -/
theorem tilemapat_tilemapset_ones :
    ∃ m', tilemapset (Ram.fill 1).guest 4096 (-2147483648) (-1) (-2) = .ok m' ∧
      tilemapat m' 4096 ((-2147483648) % 257) 256 = .ok 65534 := by
  obtain ⟨-, -, m', hset, -, -, -, -, hget⟩ :=
    tilemapat_tilemapset mapCells_ones (by decide) (by decide) (-2147483648) (-1) (-2)
  refine ⟨m', hset, ?_⟩
  rw [hget, if_pos (by decide)]
  rfl

end HadBadge
