import HadBadge.Emu.Bounds

/-!
# `Correctness.SpriteLimit`: how far the sprite list is walked

The renderer counts 200 entries down, prints a warning at zero and goes on. So what bounds the walk is the list
alone: it ends at an end marker, and nowhere else. In particular it does not end where an entry is out of RAM, though
`Emu.Render` has no value to go on with there. Where the marker is among the first 200 entries the limit is kept, and
nothing behind them matters.

## Contents
- **The walk.** `spritesExamined`, and when it stays within `n` entries (`examined_le_iff`).
- **Locality.** What the first entries and the tiles do not show has no influence (`spriteLoop_marker`).
- **Main result.** `sprite_limit_iff`.
-/

namespace HadBadge

open Lib

variable {g : PeriGfx} {mem mem' : Mem} {ypos : Int}

/-! ## The walk -/

/-- The entry at `&mem[a]` is the end marker. -/
def EndMarkerAt (mem : Mem) (a : Int) : Prop := spriteYpos mem a = .ok spriteListEndMarker

/-- At how many entries the condition of the loop is looked at in `fuel` turns, from the entry at `&mem[a]` on. What is
    out of RAM is not an end marker. -/
def spritesExamined (mem : Mem) : Nat → Int → Nat
  | 0,      _ => 0
  | fuel+1, a =>
      match spriteYpos mem a with
      | .error _ => 1 + spritesExamined mem fuel (a + 8)
      | .ok y    => if y = spriteListEndMarker then 1 else 1 + spritesExamined mem fuel (a + 8)

theorem examined_marker {a : Int} (h : EndMarkerAt mem a) (fuel : Nat) : spritesExamined mem (fuel + 1) a = 1 := by
  unfold spritesExamined
  rw [show spriteYpos mem a = .ok spriteListEndMarker from h]
  exact if_pos rfl

theorem examined_succ {a : Int} (h : ¬ EndMarkerAt mem a) (fuel : Nat) :
    spritesExamined mem (fuel + 1) a = 1 + spritesExamined mem fuel (a + 8) := by
  unfold EndMarkerAt at h
  rw [spritesExamined]
  cases hy : spriteYpos mem a with
  | error e => rfl
  | ok y =>
      rw [hy] at h
      exact if_neg (fun hend => h (by rw [hend]))

/-- A marker among the first `n + 1` entries is the first one or among the `n` behind it. -/
theorem exists_marker_succ {a : Int} {n : Nat} :
    (∃ j < n + 1, EndMarkerAt mem (a + 8 * (j : Nat))) ↔
      EndMarkerAt mem a ∨ ∃ j < n, EndMarkerAt mem (a + 8 + 8 * (j : Nat)) := by
  have hshift (j : Nat) : a + 8 * ((j + 1 : Nat) : Int) = a + 8 + 8 * j := by push_cast; ring
  constructor
  · rintro ⟨j, hj, h⟩
    rcases j with _ | j
    · exact .inl (by simpa using h)
    · exact .inr ⟨j, by omega, by rwa [← hshift]⟩
  · rintro (h | ⟨j, hj, h⟩)
    · exact ⟨0, by omega, by simpa using h⟩
    · exact ⟨j + 1, by omega, by rwa [hshift]⟩

/-- **The walk looks at no more than `n` entries exactly when one of the first `n` is the end marker.** -/
theorem examined_le_iff (n : Nat) (a : Int) :
    (∀ fuel, spritesExamined mem fuel a ≤ n) ↔ ∃ j < n, EndMarkerAt mem (a + 8 * (j : Nat)) := by
  -- on the number of entries; behind the first one the list starts again
  induction n generalizing a with
  | zero =>
      refine iff_of_false (fun h => ?_) (by rintro ⟨j, hj, -⟩; omega)
      have h1 := h 1
      by_cases hend : EndMarkerAt mem a
      · rw [examined_marker hend] at h1
        omega
      · rw [examined_succ hend] at h1
        omega
  | succ n ih =>
      rw [exists_marker_succ]
      by_cases hend : EndMarkerAt mem a
      · refine iff_of_true (fun fuel => ?_) (.inl hend)
        rcases fuel with _ | fuel
        · exact Nat.zero_le _
        · rw [examined_marker hend]
          omega
      · rw [or_iff_right hend, ← ih (a + 8)]
        constructor
        · intro h fuel
          have := h (fuel + 1)
          rw [examined_succ hend] at this
          omega
        · intro h fuel
          rcases fuel with _ | fuel
          · exact Nat.zero_le _
          · have := h fuel
            rw [examined_succ hend]
            omega

/-! ## Locality -/

/-- The memories agree on the first `n` entries of the list at `&mem[a]` and on the tile graphics. -/
def AgreeOnEntries (g : PeriGfx) (a : Int) (n : Nat) (mem mem' : Mem) : Prop :=
  (∀ i, a ≤ i → i < a + 8 * n → mem' i = mem i) ∧
    ∀ i : Int, g.spriteTileAddr.toNat ≤ i → i < g.spriteTileAddr.toNat + 64 * 65536 → mem' i = mem i

theorem AgreeOnEntries.tail {a : Int} {n : Nat} (h : AgreeOnEntries g a (n + 1) mem mem') :
    AgreeOnEntries g (a + 8) n mem mem' :=
  ⟨fun i h0 h1 => h.1 i (by omega) (by push_cast; omega), h.2⟩

/-- The fields of the first entry are the same. -/
theorem AgreeOnEntries.field {a : Int} {n : Nat} (h : AgreeOnEntries g a (n + 1) mem mem') {d : Int} (h0 : 0 ≤ d)
    (h1 : d + 2 ≤ 8) : u16At mem' (a + d) = u16At mem (a + d) := by
  unfold u16At
  rw [Mem.load_congr (fun k hk => h.1 _ (by omega) (by push_cast; omega))]

/-- So is its row. -/
theorem spriteRow_congr {a : Int} {n : Nat} (h : AgreeOnEntries g a (n + 1) mem mem') (s : Scanline) :
    spriteRow g mem' ypos a s = spriteRow g mem ypos a s := by
  have hx : spriteXpos mem' a = spriteXpos mem a := by
    have := h.field (d := 0) (by omega) (by omega)
    rw [add_zero] at this
    rw [spriteXpos, this, spriteXpos]
  have hy : spriteYpos mem' a = spriteYpos mem a := by
    rw [spriteYpos, h.field (by omega) (by omega), spriteYpos]
  have ht : spriteTile mem' a = spriteTile mem a := h.field (by omega) (by omega)
  unfold spriteRow
  rw [hx, hy, ht]
  cases spriteYpos mem a with
  | error e => rfl
  | ok y =>
      simp only [ok_bind]
      by_cases hon : 0 ≤ ypos - y ∧ ypos - y < 8
      · rw [if_pos hon, if_pos hon]
        cases htile : spriteTile mem a with
        | error e => rfl
        | ok tile =>
            have hlt : tile < 65536 := u16At_lt htile
            simp only [ok_bind]
            cases spriteXpos mem a with
            | error e => rfl
            | ok px =>
                refine forFrom_congr 8 0 (fun x s _ hx8 => ?_) s
                unfold spritePixel u8At
                rw [h.2 _ (by omega) (by omega)]
      · rw [if_neg hon, if_neg hon]

/-- **With a marker among the first `n` entries, the walk is over after `n` turns**, and what lies behind them makes no
    difference. -/
theorem spriteLoop_marker {n : Nat} {a : Int} (h : ∃ j < n, EndMarkerAt mem (a + 8 * (j : Nat))) {fuel : Nat}
    (hfuel : n ≤ fuel) (limit : Int) (w : Bool) (s : Scanline) :
    spriteLoop g mem ypos fuel a limit w s ≠ .error .fuel ∧
      ∀ mem', AgreeOnEntries g a n mem mem' →
        spriteLoop g mem' ypos fuel a limit w s = spriteLoop g mem ypos fuel a limit w s := by
  -- on the entries; the rows are the same, and so is what is left of the list
  induction n generalizing a fuel limit w s with
  | zero =>
      obtain ⟨j, hj, -⟩ := h
      omega
  | succ n ih =>
      obtain ⟨fuel, rfl⟩ := Nat.exists_eq_add_of_le' (le_trans (Nat.le_add_left 1 n) hfuel)
      have hY {mem' : Mem} (hag : AgreeOnEntries g a (n + 1) mem mem') : spriteYpos mem' a = spriteYpos mem a := by
        rw [spriteYpos, hag.field (by omega) (by omega), spriteYpos]
      have hposOob : OnlyOob (spriteYpos mem a) := (onlyOob_u16At _ _).bind (fun v _ => onlyOob_ok _)
      have hrowOob := spriteRow_onlyOob g mem ypos a s
      rw [spriteLoop_succ g mem]
      cases hy : spriteYpos mem a with
      | error e =>
          obtain ⟨i, rfl⟩ := hposOob e hy
          refine ⟨nofun, fun mem' hag => ?_⟩
          rw [spriteLoop_succ, hY hag, hy, error_bind, error_bind]
      | ok y =>
          by_cases hend : y = spriteListEndMarker
          · simp only [ok_bind, if_pos hend]
            refine ⟨nofun, fun mem' hag => ?_⟩
            rw [spriteLoop_succ, hY hag, hy, ok_bind, if_pos hend]
          · simp only [ok_bind, if_neg hend]
            cases hrow : spriteRow g mem ypos a s with
            | error e =>
                obtain ⟨i, rfl⟩ := hrowOob e hrow
                refine ⟨nofun, fun mem' hag => ?_⟩
                rw [spriteLoop_succ, hY hag, hy, ok_bind, if_neg hend, spriteRow_congr hag, hrow, error_bind, error_bind]
            | ok s' =>
                -- the entry is not the marker, so that lies behind it
                have hgo : ¬ EndMarkerAt mem a := by
                  intro h0
                  rw [EndMarkerAt, hy] at h0
                  exact hend (Except.ok.inj h0)
                have hrest := (exists_marker_succ.mp h).resolve_left hgo
                obtain ⟨hne, hsame⟩ := ih hrest (show n ≤ fuel by omega) (i32 (limit - 1))
                  (w || i32 (limit - 1) == 0) s'
                refine ⟨hne, fun mem' hag => ?_⟩
                rw [spriteLoop_succ, hY hag, hy, ok_bind, if_neg hend, spriteRow_congr hag, hrow]
                exact hsame mem' hag.tail

/-! ## The limit -/

/-- The limit of 200 entries is kept on this line: no entry behind them is looked at, the renderer is done when it
    has walked them, and memory that agrees on them and on the tiles gives the same result. -/
structure SpriteLimitKept (g : PeriGfx) (r : Ram) (ypos : Int) (s : Scanline) : Prop where
  examined : SpritesActive g → ∀ fuel, spritesExamined r.mem fuel g.spriteListAddr.toNat ≤ 200
  ends : ∀ fuel, 200 ≤ fuel → gfxRenderSprites fuel s ypos g r.mem ≠ .error .fuel
  same : ∀ r' : Ram, AgreeOnEntries g g.spriteListAddr.toNat 200 r.mem r'.mem →
    ∀ fuel, 200 ≤ fuel → gfxRenderSprites fuel s ypos g r'.mem = gfxRenderSprites fuel s ypos g r.mem

/-- **The sprite limit is kept exactly where the list ends in time**: sprites are off, or one of the first 200 entries
    is the end marker. -/
theorem sprite_limit_iff (g : PeriGfx) (r : Ram) (ypos : Int) (s : Scanline) :
    SpriteLimitKept g r ypos s ↔
      (SpritesActive g → ∃ j < 200, EndMarkerAt r.mem (g.spriteListAddr.toNat + 8 * (j : Nat))) := by
  constructor
  · intro h ha
    exact (examined_le_iff 200 _).mp (h.examined ha)
  · intro h
    by_cases ha : SpritesActive g
    · have hmarker := h ha
      obtain ⟨ht, hl⟩ := ha
      refine ⟨fun _ => (examined_le_iff 200 _).mpr hmarker, fun fuel hfuel => ?_, fun r' hag fuel hfuel => ?_⟩
      · obtain ⟨hne, -⟩ := spriteLoop_marker hmarker hfuel 200 false s
        simp only [gfxRenderSprites, ht, hl, or_self, if_false]
        intro hc
        cases hloop : spriteLoop g r.mem ypos fuel g.spriteListAddr.toNat 200 false s with
        | error e =>
            rw [hloop, error_bind] at hc
            rw [hloop] at hne
            exact hne (by rw [Except.error.inj hc])
        | ok o =>
            rw [hloop, ok_bind] at hc
            cases hc
      · obtain ⟨-, hsame⟩ := spriteLoop_marker hmarker hfuel 200 false s
        simp only [gfxRenderSprites, ht, hl, or_self, if_false]
        rw [hsame r'.mem hag]
    · refine ⟨fun h => absurd h ha, fun fuel _ => ?_, fun r' _ fuel _ => ?_⟩
      · rw [sprites_inactive ha]
        intro hc
        cases hc
      · rw [sprites_inactive ha, sprites_inactive ha]

/-- Sprites at 0x1000 with their tiles at 0x10000. -/
def spritesOn : PeriGfx := { periGfxInit with spriteTileAddr := 0x10000, spriteListAddr := 0x1000 }

/-- In RAM full of ones no entry is the end marker: the walk does not stop at the limit. -/
theorem sprite_limit_passed :
    (∃ fuel, 200 < spritesExamined (Ram.fill 1).mem fuel 0x1000) ∧
      ¬ SpriteLimitKept spritesOn (Ram.fill 1) 0 (fun _ => 0) := by
  -- the `y` of every entry is 257
  have hy {j : Nat} (hj : j < 200) : spriteYpos (Ram.fill 1).mem (0x1000 + 8 * (j : Int)) = .ok 257 := by
    have hload : (Ram.fill 1).mem.load (0x1000 + 8 * (j : Int) + 2) 2 = some 257 := by
      refine Mem.load_eq_some_iff.mpr ⟨fun _ => 1, fun k hk => ?_, rfl⟩
      exact Ram.fill_mem 1 (by omega) (by simp only [machRamSize]; omega)
    rw [spriteYpos, u16At_eq_ok.mpr hload]
    rfl
  have hpassed : ¬ ∀ fuel, spritesExamined (Ram.fill 1).mem fuel 0x1000 ≤ 200 := by
    intro h
    obtain ⟨j, hj, hmark⟩ := (examined_le_iff 200 0x1000).mp h
    rw [EndMarkerAt, hy hj] at hmark
    exact absurd (Except.ok.inj hmark) (by decide)
  refine ⟨?_, fun h => hpassed (h.examined (by decide))⟩
  obtain ⟨fuel, hfuel⟩ := not_forall.mp hpassed
  exact ⟨fuel, Nat.lt_of_not_le hfuel⟩

/-- The sprite behind the 200th is drawn: it covers the first line, and the entry behind it is the end marker. -/
example : (gfxRenderSprites 202 (fun _ => 0) 0 spritesOn
    ((((Ram.fill 1).setByte 0x1642 0).setByte 0x1643 0).setByte 0x164a 0 |>.setByte 0x164b 0x80).mem).map (fun s => s 257) =
      .ok 1 := by
  decide +kernel

end HadBadge
