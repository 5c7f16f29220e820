import HadBadge.Emu.Layers

/-!
# `Emu.Bounds`: where the renderers read

The renderers index `main_mem` with sums and products of registers, tile numbers and positions. This module says
for each of them when all of its reads lie in RAM, in terms of the registers and of what RAM holds. A renderer that
loops forever reads nothing more, so the layers behind it are not read at all.

## Contents
- **Staying inside.** `InBounds`, `OnlyOob` and their rules; `forFrom_inBounds`, a loop over layers.
- **The renderers.** `FbInside`, `BgndInside`, `SpritesInside`, and `SceneInside` for a whole line.
-/

namespace HadBadge

open Lib

/-- The computation makes no access outside of memory. -/
def InBounds {α : Type} (x : Except Fault α) : Prop := ∀ i, x ≠ .error (.oob i)

/-- Nothing but an access outside of memory can stop the computation. -/
def OnlyOob {α : Type} (x : Except Fault α) : Prop := ∀ e, x = .error e → ∃ i, e = .oob i

/-- `i` is an index of `main_mem`. -/
def RamIndex (i : Int) : Prop := 0 ≤ i ∧ i < machRamSize

instance (i : Int) : Decidable (RamIndex i) := by unfold RamIndex; infer_instance

theorem Ram.isSome_iff (r : Ram) {i : Int} : (r.mem i).isSome ↔ RamIndex i := r.dom i

section rules

variable {α β : Type} {x : Except Fault α} {f : α → Except Fault β}

@[simp] theorem inBounds_ok (a : α) : InBounds (Except.ok a : Except Fault α) := by
  intro i h
  cases h

@[simp] theorem inBounds_fuel : InBounds (Except.error .fuel : Except Fault α) := by
  intro i h
  cases h

@[simp] theorem inBounds_nullDeref : InBounds (Except.error .nullDeref : Except Fault α) := by
  intro i h
  cases h

theorem inBounds_bind : InBounds (x >>= f) ↔ InBounds x ∧ ∀ a, x = .ok a → InBounds (f a) := by
  cases x with
  | error e =>
      constructor
      · intro h
        refine ⟨fun i hi => h i ?_, fun a ha => ?_⟩
        · cases hi
          rfl
        · cases ha
      · rintro ⟨h, -⟩ i hi
        apply h i
        cases hi
        rfl
  | ok a =>
      constructor
      · intro h
        refine ⟨inBounds_ok a, fun b hb => ?_⟩
        cases hb
        exact h
      · rintro ⟨-, h⟩
        exact h a rfl

@[simp] theorem onlyOob_ok (a : α) : OnlyOob (Except.ok a : Except Fault α) := by
  intro e h
  cases h

theorem OnlyOob.bind (hx : OnlyOob x) (hf : ∀ a, x = .ok a → OnlyOob (f a)) : OnlyOob (x >>= f) := by
  intro e he
  cases x with
  | error e' =>
      cases he
      exact hx e rfl
  | ok a => exact hf a rfl e he

/-- A computation that nothing else can stop stays inside exactly when it ends. -/
theorem OnlyOob.inBounds_iff (hx : OnlyOob x) : InBounds x ↔ ∃ a, x = .ok a := by
  cases x with
  | error e =>
      obtain ⟨i, rfl⟩ := hx e rfl
      refine iff_of_false (fun h => h i rfl) ?_
      rintro ⟨a, ha⟩
      cases ha
  | ok a => exact iff_of_true (inBounds_ok a) ⟨a, rfl⟩

theorem onlyOob_u8At (m : Mem) (i : Int) : OnlyOob (u8At m i) := by
  intro e he
  unfold u8At at he
  cases hi : m i with
  | none =>
      rw [hi] at he
      cases he
      exact ⟨i, rfl⟩
  | some b =>
      rw [hi] at he
      cases he

theorem onlyOob_u16At (m : Mem) (i : Int) : OnlyOob (u16At m i) := by
  intro e he
  unfold u16At at he
  cases hi : m.load i 2 with
  | none =>
      rw [hi] at he
      cases he
      exact ⟨i, rfl⟩
  | some b =>
      rw [hi] at he
      cases he

theorem onlyOob_setU8 (m : Mem) (i : Int) (b : UInt8) : OnlyOob (setU8 m i b) := by
  intro e he
  unfold setU8 at he
  by_cases hi : (m i).isSome
  · rw [if_pos hi] at he
    cases he
  · rw [if_neg hi] at he
    cases he
    exact ⟨i, rfl⟩

theorem onlyOob_setU16 (m : Mem) (i : Int) (v : Nat) : OnlyOob (setU16 m i v) := by
  intro e he
  unfold setU16 at he
  cases hi : m.store i 2 v with
  | none =>
      rw [hi] at he
      cases he
      exact ⟨i, rfl⟩
  | some m' =>
      rw [hi] at he
      cases he

theorem onlyOob_setPixel (s : Scanline) (i : Int) (c : UInt8) : OnlyOob (setPixel s i c) := by
  intro e he
  unfold setPixel at he
  by_cases hi : 0 ≤ i ∧ i < 320
  · rw [dif_pos hi] at he
    cases he
  · rw [dif_neg hi] at he
    cases he
    exact ⟨i, rfl⟩

theorem onlyOob_drawTexel (s : Scanline) (i : Int) (transcol : UInt32) (col : UInt8) :
    OnlyOob (drawTexel s i transcol col) := by
  unfold drawTexel
  by_cases h : col.toNat ≠ transcol.toNat
  · rw [if_pos h]
    exact onlyOob_setPixel s i col
  · rw [if_neg h]
    exact onlyOob_ok s

theorem OnlyOob.forFrom {σ : Type} {body : Nat → σ → Except Fault σ} (h : ∀ i s, OnlyOob (body i s)) (n i : Nat)
    (s : σ) : OnlyOob (forFrom body n i s) := by
  induction n generalizing i s with
  | zero => exact onlyOob_ok s
  | succ n ih => exact (h i s).bind (fun a _ => ih (i + 1) a)

end rules

/-- **A loop over layers.** Each is read unless one before it never ends; `B i` says that layer `i` stays inside and
    `H i` that it never ends. -/
theorem forFrom_inBounds {σ : Type} (body : Nat → σ → Except Fault σ) {B H : Nat → Prop}
    (hin : ∀ i s, InBounds (body i s) ↔ (¬ H i → B i)) (hok : ∀ i s, (∃ t, body i s = .ok t) ↔ ¬ H i ∧ B i)
    (n i : Nat) (s : σ) :
    InBounds (forFrom body n i s) ↔ ∀ j < n, (∀ k ≤ j, ¬ H (i + k)) → B (i + j) := by
  -- on the layers; the first either ends and leaves the rest to do, or keeps the rest from being read
  induction n generalizing i s with
  | zero => exact iff_of_true (inBounds_ok s) (fun j hj => absurd hj (Nat.not_lt_zero j))
  | succ n ih =>
      have hbind : forFrom body (n + 1) i s = (body i s >>= forFrom body n (i + 1)) := rfl
      have hshift (j : Nat) : i + (j + 1) = i + 1 + j := by omega
      rw [hbind, inBounds_bind, hin, Nat.forall_lt_succ_left]
      constructor
      · rintro ⟨hfirst, hrest⟩
        refine ⟨fun hk => hfirst (hk 0 (le_refl 0)), fun j hj hk => ?_⟩
        have hH : ¬ H i := hk 0 (Nat.zero_le _)
        obtain ⟨a, ha⟩ := (hok i s).mpr ⟨hH, hfirst hH⟩
        rw [hshift]
        refine (ih (i + 1) a).mp (hrest a ha) j hj (fun k hkj => ?_)
        rw [← hshift]
        exact hk (k + 1) (by omega)
      · rintro ⟨hfirst, hrest⟩
        refine ⟨fun hH => hfirst (fun k hk => ?_), fun a ha => (ih (i + 1) a).mpr (fun j hj hk => ?_)⟩
        · rw [Nat.le_zero.mp hk]
          exact hH
        · rw [← hshift]
          refine hrest j hj (fun k hkj => ?_)
          rcases k with _ | k
          · exact ((hok i s).mp ⟨a, ha⟩).1
          · rw [hshift]
            exact hk k (by omega)

/-- A halfword is read where both its bytes are. -/
theorem u16At_total {m : Mem} {a : Int} : (∃ v, u16At m a = .ok v) ↔ (m a).isSome ∧ (m (a + 1)).isSome := by
  simp only [u16At_eq_ok, Mem.load_isSome_iff]
  constructor
  · intro h
    exact ⟨by simpa using h 0 (by omega), h 1 (by omega)⟩
  · rintro ⟨h0, h1⟩ k hk
    obtain rfl | rfl : k = 0 ∨ k = 1 := by omega
    · simpa using h0
    · exact h1

variable {r : Ram} {mem : Mem} {g : PeriGfx} {b : PeriGfxBgnd} {ypos : Int} {fuel : Nat}

/-! ## Framebuffer -/

/-- The 320 bytes that the framebuffer shows on line `ypos` are in RAM. -/
def FbInside (g : PeriGfx) (ypos : Int) : Prop :=
  g.fbBase ≠ 0 → ∀ i : Fin 320, RamIndex (fbLine g ypos + fbX g i)

theorem fb_onlyOob (s : Scanline) (ypos : Int) (g : PeriGfx) (mem : Mem) :
    OnlyOob (gfxRenderFbScanline s ypos g mem) := by
  unfold gfxRenderFbScanline
  by_cases hb : g.fbBase = 0
  · rw [if_pos hb]
    exact onlyOob_ok s
  · rw [if_neg hb]
    refine OnlyOob.bind (OnlyOob.forFrom (fun i t => ?_) _ _ _) (fun t _ => onlyOob_ok _)
    refine (onlyOob_u8At _ _).bind (fun col _ => ?_)
    exact (onlyOob_setPixel _ _ _).bind (fun sc _ => onlyOob_ok _)

/-- **The framebuffer renderer ends exactly where it stays inside.** -/
theorem fb_ok_iff (s : Scanline) : (∃ s', gfxRenderFbScanline s ypos g r.mem = .ok s') ↔ FbInside g ypos := by
  by_cases hb : g.fbBase = 0
  · refine iff_of_true ?_ (fun h => absurd hb h)
    unfold gfxRenderFbScanline
    rw [if_pos hb]
    exact ⟨s, rfl⟩
  · have hl (i : Fin 320) : (fbLayer g r.mem ypos i).isSome ↔ RamIndex (fbLine g ypos + fbX g i) := by
      rw [fbLayer, if_neg hb, r.isSome_iff]
    constructor
    · rintro ⟨s', hs'⟩ - i
      exact (hl i).mp (fb_reads hb hs' i)
    · intro h
      exact ⟨_, fb_total hb (fun i => (hl i).mpr (h hb i)) s⟩

theorem fb_inBounds (s : Scanline) : InBounds (gfxRenderFbScanline s ypos g r.mem) ↔ FbInside g ypos := by
  rw [(fb_onlyOob s ypos g r.mem).inBounds_iff, fb_ok_iff]

/-! ## Backgrounds -/

/-- The renderer of this background never ends: it reduces a position modulo a size of zero. -/
def PeriGfxBgnd.Hangs (b : PeriGfxBgnd) : Prop :=
  b.Active ∧ (timesEight b.height = 0 ∨ timesEight b.width = 0)

/-- Index in `mem` of the cell for position `(x, y)`. -/
def PeriGfxBgnd.fetchCell (b : PeriGfxBgnd) (y x : Int) : Int :=
  b.mapAddr.toNat + 2 * i32 (u32 (y.tdiv 8) * b.width.toNat + u32 (x.tdiv 8))

/-- Index in `mem` of the texel for position `(x, y)` in tile `t`. -/
def PeriGfxBgnd.fetchTexel (b : PeriGfxBgnd) (y x : Int) (t : Nat) : Int :=
  u32 (b.gfxAddr.toNat + 64 * t) + (y.tmod 8 * 8 + x.tmod 8)

/-- The cell for position `(x, y)` is in RAM, and so is the texel of the tile in it. -/
def FetchInside (b : PeriGfxBgnd) (mem : Mem) (y x : Int) : Prop :=
  RamIndex (b.fetchCell y x) ∧ RamIndex (b.fetchCell y x + 1) ∧
    ∀ t, u16At mem (b.fetchCell y x) = .ok t → RamIndex (b.fetchTexel y x t)

/-- The cells and texels that the background shows on line `ypos` are in RAM. -/
def BgndInside (b : PeriGfxBgnd) (mem : Mem) (ypos : Int) : Prop :=
  b.Active → ∀ k < 320, FetchInside b mem (bgndY b ypos) (bgndX b k)

theorem tileFetch_ok_iff {y x : Int} : (∃ f, tileFetch b r.mem y x = .ok f) ↔ FetchInside b r.mem y x := by
  have hcell := u16At_total (m := r.mem) (a := b.fetchCell y x)
  rw [r.isSome_iff, r.isSome_iff] at hcell
  constructor
  · rintro ⟨f, hf⟩
    obtain ⟨t, ht, hf⟩ := bind_eq_ok.mp hf
    obtain ⟨col, hcol, -⟩ := bind_eq_ok.mp hf
    obtain ⟨h0, h1⟩ := hcell.mp ⟨t, ht⟩
    refine ⟨h0, h1, fun t' ht' => ?_⟩
    obtain rfl : t = t' := Except.ok.inj (ht.symm.trans ht')
    rw [← r.isSome_iff, PeriGfxBgnd.fetchTexel, u8At_eq_ok.mp hcol]
    rfl
  · rintro ⟨h0, h1, htexel⟩
    obtain ⟨t, ht⟩ := hcell.mpr ⟨h0, h1⟩
    obtain ⟨col, hcol⟩ := Option.isSome_iff_exists.mp (r.isSome_iff.mpr (htexel t ht))
    refine ⟨_, bind_eq_ok.mpr ⟨t, ht, bind_eq_ok.mpr ⟨col, u8At_eq_ok.mpr hcol, rfl⟩⟩⟩

theorem tileFetch_onlyOob (b : PeriGfxBgnd) (mem : Mem) (y x : Int) : OnlyOob (tileFetch b mem y x) := by
  refine (onlyOob_u16At _ _).bind (fun t _ => ?_)
  exact (onlyOob_u8At _ _).bind (fun col _ => onlyOob_ok _)

/-- A size of zero keeps the wrap loop going, whatever the fuel. -/
theorem wrapLoop_zero (fuel : Nat) (pos : Int) : wrapLoop fuel 0 pos = .error .fuel := by
  have htest (p : Int) : decide (0 ≤ u32 p) = true := decide_eq_true (Nat.zero_le (u32 p))
  unfold wrapLoop
  induction fuel generalizing pos with
  | zero => rw [whileFuel, if_pos (htest pos)]
  | succ fuel ih => rw [whileFuel, if_pos (htest pos), ih]

/-- A wrap loop fails only by running out of fuel. -/
theorem wrapLoop_error {fuel size : Nat} {pos : Int} {e : Fault} (h : wrapLoop fuel size pos = .error e) :
    e = .fuel := by
  unfold wrapLoop at h
  induction fuel generalizing pos with
  | zero =>
      rw [whileFuel] at h
      split at h
      · exact (Except.error.inj h).symm
      · cases h
  | succ fuel ih =>
      rw [whileFuel] at h
      split at h
      · exact ih h
      · cases h

/-- **The background renderer ends exactly where it stays inside**, unless it never ends. -/
theorem bgnd_ok_iff (hfuel : 4294967296 ≤ fuel) (s : Scanline) :
    (∃ o, gfxRenderBgndScanline fuel s ypos b r.mem = .ok o) ↔ ¬ b.Hangs ∧ BgndInside b r.mem ypos := by
  by_cases ha : b.Active
  · constructor
    · rintro ⟨o, ho⟩
      obtain ⟨hy, -, hw, hread⟩ := bgnd_reads ha ho
      refine ⟨?_, fun _ k hk => tileFetch_ok_iff.mp (hread k hk)⟩
      rintro ⟨-, h0 | h0⟩
      · rw [h0, wrapLoop_zero] at hy
        cases hy
      · omega
    · rintro ⟨hhang, hin⟩
      have hsize : 0 < timesEight b.height ∧ 0 < timesEight b.width := by
        rw [PeriGfxBgnd.Hangs] at hhang
        constructor
        · exact Nat.pos_of_ne_zero (fun h0 => hhang ⟨ha, .inl h0⟩)
        · exact Nat.pos_of_ne_zero (fun h0 => hhang ⟨ha, .inr h0⟩)
      have hread : ∀ k < 320, ∃ f, tileFetch b r.mem (bgndY b ypos) (bgndX b k) = .ok f :=
        fun k hk => tileFetch_ok_iff.mpr (hin ha k hk)
      choose! f hf using hread
      exact ⟨_, bgnd_total ha hsize.1 hsize.2 hfuel hf s⟩
  · refine iff_of_true ⟨_, bgnd_inactive ha⟩ ⟨fun h => ha h.1, fun h => absurd h ha⟩

/-- The renderer of such a background never ends, whatever the fuel: one of the two wrap loops does not. -/
theorem bgnd_hangs (hhang : b.Hangs) (fuel : Nat) (s : Scanline) (ypos : Int) (mem : Mem) :
    gfxRenderBgndScanline fuel s ypos b mem = .error .fuel := by
  obtain ⟨⟨hg, hm, hh, hw⟩, h0⟩ := hhang
  simp only [gfxRenderBgndScanline, hg, hm, hh, hw, or_self, if_false]
  by_cases h1 : timesEight b.height = 0
  · rw [h1, wrapLoop_zero]
    rfl
  -- with little fuel the first loop may give up too
  · have h2 : timesEight b.width = 0 := h0.resolve_left h1
    rw [h2, wrapLoop_zero]
    cases hy : wrapLoop fuel (timesEight b.height) (i32 (ypos + b.scrolly.toNat)) with
    | ok y => rfl
    | error e =>
        rw [wrapLoop_error hy]
        rfl

/-- The other backgrounds fail only by leaving memory. -/
theorem bgnd_onlyOob (hfuel : 4294967296 ≤ fuel) (hhang : ¬ b.Hangs) (s : Scanline) (mem : Mem) :
    OnlyOob (gfxRenderBgndScanline fuel s ypos b mem) := by
  by_cases ha : b.Active
  · have h1 : timesEight b.height ≠ 0 := fun h0 => hhang ⟨ha, .inl h0⟩
    have h2 : timesEight b.width ≠ 0 := fun h0 => hhang ⟨ha, .inr h0⟩
    obtain ⟨hg, hm, hh, hw⟩ := ha
    have hlt := u32_lt (ypos + b.scrolly.toNat)
    have hlt' := u32_lt (b.scrollx.toNat : Int)
    simp only [gfxRenderBgndScanline, hg, hm, hh, hw, or_self, if_false]
    rw [wrapLoop_total (Nat.pos_of_ne_zero h1) _ (by omega), ok_bind,
      wrapLoop_total (Nat.pos_of_ne_zero h2) _ (by omega), ok_bind]
    refine OnlyOob.bind (OnlyOob.forFrom (fun i t => ?_) _ _ _) (fun t _ => onlyOob_ok _)
    refine (tileFetch_onlyOob _ _ _ _).bind (fun f _ => ?_)
    exact (onlyOob_drawTexel _ _ _ _).bind (fun sc _ => onlyOob_ok _)
  · rw [bgnd_inactive ha]
    exact onlyOob_ok _

theorem bgnd_inBounds (hfuel : 4294967296 ≤ fuel) (s : Scanline) :
    InBounds (gfxRenderBgndScanline fuel s ypos b r.mem) ↔ (¬ b.Hangs → BgndInside b r.mem ypos) := by
  by_cases hhang : b.Hangs
  · -- nothing is read before the wrap loops
    refine iff_of_true ?_ (fun h => absurd hhang h)
    rw [bgnd_hangs hhang]
    exact inBounds_fuel
  · rw [OnlyOob.inBounds_iff (bgnd_onlyOob hfuel hhang s r.mem), bgnd_ok_iff hfuel]
    exact ⟨fun h _ => h.2, fun h => ⟨hhang, h hhang⟩⟩

/-! ## Sprites -/

/-- The texels that the sprite at `&mem[a]` has on the screen on line `ypos` are in RAM. -/
def RowInside (g : PeriGfx) (mem : Mem) (ypos a : Int) : Prop :=
  ∀ px y tile, spriteXpos mem a = .ok px → spriteYpos mem a = .ok y → spriteTile mem a = .ok tile →
    0 ≤ ypos - y → ypos - y < 8 → ∀ x : Nat, x < 8 → 0 ≤ px + x → px + x < 320 →
      RamIndex (g.spriteTileAddr.toNat + tile * 64 + (ypos - y) * 8 + x)

/-- The list ends in RAM, and so do the texels that its entries have on the screen on line `ypos`. -/
def SpritesInside (g : PeriGfx) (mem : Mem) (ypos : Int) : Prop :=
  SpritesActive g → ∃ n, SpriteListAt mem g.spriteListAddr.toNat n ∧
    ∀ j < n, RowInside g mem ypos (g.spriteListAddr.toNat + 8 * (j : Nat))

theorem spritePixel_total {gfx px : Int} {x : Nat} (s : Scanline) :
    (∃ s', spritePixel g mem gfx px x s = .ok s') ↔ (0 ≤ px + x → px + x < 320 → (mem (gfx + x)).isSome) := by
  unfold spritePixel
  by_cases hin : 0 ≤ px + x ∧ px + x < 320
  · have hp : px + (x : Int) = ((⟨(px + x).toNat, by omega⟩ : Fin 320) : Nat) := by
      show px + (x : Int) = ((px + x).toNat : Int)
      omega
    rw [if_pos hin]
    constructor
    · rintro ⟨s', hs'⟩ - -
      obtain ⟨col, hcol, -⟩ := bind_eq_ok.mp hs'
      rw [u8At_eq_ok.mp hcol]
      rfl
    · intro h
      obtain ⟨col, hcol⟩ := Option.isSome_iff_exists.mp (h hin.1 hin.2)
      rw [u8At_eq_ok.mpr hcol, ok_bind, hp, drawTexel_fin]
      exact ⟨_, rfl⟩
  · rw [if_neg hin]
    exact iff_of_true ⟨s, rfl⟩ (fun h0 h1 => absurd ⟨h0, h1⟩ hin)

theorem spritePixel_onlyOob (g : PeriGfx) (mem : Mem) (gfx px : Int) (x : Nat) (s : Scanline) :
    OnlyOob (spritePixel g mem gfx px x s) := by
  unfold spritePixel
  by_cases hin : 0 ≤ px + x ∧ px + x < 320
  · rw [if_pos hin]
    exact (onlyOob_u8At _ _).bind (fun col _ => onlyOob_drawTexel _ _ _ _)
  · rw [if_neg hin]
    exact onlyOob_ok s

/-- The `y` of the entry at `&mem[a]` can be read, and if the entry covers line `ypos`, so can its other fields
    and its texels on the screen. -/
def EntryInside (g : PeriGfx) (mem : Mem) (ypos a : Int) : Prop :=
  ∃ y, spriteYpos mem a = .ok y ∧ (0 ≤ ypos - y → ypos - y < 8 →
    ∃ px tile, spriteXpos mem a = .ok px ∧ spriteTile mem a = .ok tile ∧
      ∀ x : Nat, x < 8 → 0 ≤ px + x → px + x < 320 →
        (mem (g.spriteTileAddr.toNat + tile * 64 + (ypos - y) * 8 + x)).isSome)

/-- The row of an entry is drawn exactly where the entry is inside. -/
theorem spriteRow_total {a : Int} (s : Scanline) :
    (∃ s', spriteRow g mem ypos a s = .ok s') ↔ EntryInside g mem ypos a := by
  unfold spriteRow EntryInside
  cases hy : spriteYpos mem a with
  | error e => exact iff_of_false nofun nofun
  | ok y =>
      simp only [ok_bind, Except.ok.injEq, exists_eq_left']
      by_cases hon : 0 ≤ ypos - y ∧ ypos - y < 8
      · rw [if_pos hon]
        simp only [hon.1, hon.2, forall_true_left]
        cases ht : spriteTile mem a with
        | error e => exact iff_of_false nofun (by rintro ⟨_, _, _, h, _⟩; cases h)
        | ok tile =>
            cases hx : spriteXpos mem a with
            | error e => exact iff_of_false nofun (by rintro ⟨_, _, h, _, _⟩; cases h)
            | ok px =>
                rw [ok_bind, ok_bind, forFrom_ok_iff
                  (spritePixel g mem (g.spriteTileAddr.toNat + tile * 64 + (ypos - y) * 8) px)
                  (fun x s => spritePixel_total s)]
                simp only [Nat.zero_add, Except.ok.injEq]
                constructor
                · intro h
                  exact ⟨px, tile, rfl, rfl, h⟩
                · rintro ⟨_, _, rfl, rfl, h⟩
                  exact h
      · rw [if_neg hon]
        exact iff_of_true ⟨s, rfl⟩ (fun h0 h1 => absurd ⟨h0, h1⟩ hon)

/-- The row of an entry in RAM is drawn exactly where its texels are. -/
theorem spriteRow_ok_iff {a : Int} (h0 : 0 ≤ a) (h1 : a + 6 ≤ machRamSize) (s : Scanline) :
    (∃ s', spriteRow g r.mem ypos a s = .ok s') ↔ RowInside g r.mem ypos a := by
  obtain ⟨vx, hx⟩ := r.load_of_range (i := a) (n := 2) (by omega) (by omega)
  obtain ⟨vy, hy⟩ := r.load_of_range (i := a + 2) (n := 2) (by omega) (by omega)
  obtain ⟨t, ht⟩ := r.load_of_range (i := a + 4) (n := 2) (by omega) (by omega)
  have hX : spriteXpos r.mem a = .ok (i16 vx) := by
    unfold spriteXpos
    rw [u16At_eq_ok.mpr hx]
    rfl
  have hY : spriteYpos r.mem a = .ok (i16 vy) := by
    unfold spriteYpos
    rw [u16At_eq_ok.mpr hy]
    rfl
  have hT : spriteTile r.mem a = .ok t := u16At_eq_ok.mpr ht
  rw [spriteRow_total]
  constructor
  · rintro ⟨y, hy, hin⟩ px' y' tile' hx' hy' ht' hon0 hon8 x hx8 hp0 hp1
    obtain rfl : y = y' := Except.ok.inj (hy.symm.trans hy')
    obtain ⟨px, tile, hx, ht, htexel⟩ := hin hon0 hon8
    obtain rfl : px = px' := Except.ok.inj (hx.symm.trans hx')
    obtain rfl : tile = tile' := Except.ok.inj (ht.symm.trans ht')
    exact r.isSome_iff.mp (htexel x hx8 hp0 hp1)
  · intro hrow
    refine ⟨i16 vy, hY, fun hon0 hon8 => ⟨i16 vx, t, hX, hT, fun x hx8 hp0 hp1 => ?_⟩⟩
    exact r.isSome_iff.mpr (hrow _ _ _ hX hY hT hon0 hon8 x hx8 hp0 hp1)

theorem spriteRow_onlyOob (g : PeriGfx) (mem : Mem) (ypos a : Int) (s : Scanline) :
    OnlyOob (spriteRow g mem ypos a s) := by
  have hpos : ∀ i, OnlyOob (spriteYpos mem i) := fun i => (onlyOob_u16At _ _).bind (fun v _ => onlyOob_ok _)
  have hxpos : ∀ i, OnlyOob (spriteXpos mem i) := fun i => (onlyOob_u16At _ _).bind (fun v _ => onlyOob_ok _)
  refine (hpos a).bind (fun y _ => ?_)
  dsimp only
  split
  · refine (onlyOob_u16At _ _).bind (fun t _ => (hxpos a).bind (fun px _ => ?_))
    exact OnlyOob.forFrom (fun x s => spritePixel_onlyOob _ _ _ _ _ _) _ _ _
  · exact onlyOob_ok s

/-- A list in RAM ends, or the walk leaves RAM: it never runs out of fuel. -/
theorem spriteLoop_onlyOob {a : Int} (hfuel : 0 < fuel) (hend : (machRamSize : Int) + 8 ≤ a + 8 * fuel)
    (limit : Int) (w : Bool) (s : Scanline) : OnlyOob (spriteLoop g r.mem ypos fuel a limit w s) := by
  -- on the fuel; an entry that could be read lies in RAM, so there is fuel for the next one
  induction fuel generalizing a limit w s with
  | zero => exact absurd hfuel (Nat.lt_irrefl 0)
  | succ fuel ih =>
      rw [spriteLoop_succ]
      refine OnlyOob.bind ((onlyOob_u16At _ _).bind (fun v _ => onlyOob_ok _)) (fun y hy => ?_)
      by_cases hmark : y = spriteListEndMarker
      · rw [if_pos hmark]
        exact onlyOob_ok _
      · rw [if_neg hmark]
        refine (spriteRow_onlyOob _ _ _ _ _).bind (fun s' _ => ?_)
        obtain ⟨v, hv, -⟩ := bind_eq_ok.mp hy
        have hin := (r.dom _).mp (u16At_total.mp ⟨v, hv⟩).2
        push_cast at hend
        exact ih (by omega) (by omega) _ _ _

/-- **The sprite renderer ends exactly where it stays inside.** -/
theorem sprites_ok_iff (hfuel : 4294967296 ≤ fuel) (s : Scanline) :
    (∃ s', gfxRenderSprites fuel s ypos g r.mem = .ok s') ↔ SpritesInside g r.mem ypos := by
  by_cases ha : SpritesActive g
  · have hrow {n : Nat} (hlist : SpriteListAt r.mem g.spriteListAddr.toNat n) {j : Nat} (hj : j < n) (s : Scanline) :
        (∃ s', spriteRow g r.mem ypos (g.spriteListAddr.toNat + 8 * (j : Nat)) s = .ok s') ↔
          RowInside g r.mem ypos (g.spriteListAddr.toNat + 8 * (j : Nat)) := by
      have hend := hlist.end_lt
      exact spriteRow_ok_iff (by omega) (by omega) s
    constructor
    · rintro ⟨s', hs'⟩ -
      obtain ⟨n, -, hlist, hrows⟩ := sprites_rows ha hs'
      exact ⟨n, hlist, fun j hj => (hrow hlist hj s).mp ⟨_, hrows j hj s⟩⟩
    · intro hin
      obtain ⟨n, hlist, hrows⟩ := hin ha
      have hend := hlist.end_lt
      simp only [machRamSize] at hend
      refine ⟨_, sprites_run ha hlist ?_ (by omega) s⟩
      intro j hj
      obtain ⟨s', hs'⟩ := (hrow hlist hj s).mpr (hrows j hj)
      exact spriteRow_uniform g r.mem ypos _ _ _ hs'
  · exact iff_of_true ⟨s, sprites_inactive ha fuel s⟩ (fun h => absurd h ha)

theorem sprites_inBounds (hfuel : 4294967296 ≤ fuel) (s : Scanline) :
    InBounds (gfxRenderSprites fuel s ypos g r.mem) ↔ SpritesInside g r.mem ypos := by
  rw [OnlyOob.inBounds_iff, sprites_ok_iff hfuel]
  by_cases ha : SpritesActive g
  · obtain ⟨ht, hl⟩ := ha
    simp only [gfxRenderSprites, ht, hl, or_self, if_false]
    refine OnlyOob.bind (spriteLoop_onlyOob (by omega) ?_ _ _ _) (fun o _ => onlyOob_ok _)
    simp only [machRamSize]
    omega
  · rw [sprites_inactive ha]
    exact onlyOob_ok s

/-! ## The scanline -/

/-- All that is read for line `ypos` is in RAM. -/
def SceneInside (g : PeriGfx) (mem : Mem) (ypos : Int) : Prop :=
  FbInside g ypos ∧
    (∀ j < gfxBgndCount, (∀ k ≤ j, ¬ (g.bgnd (bgndFin k)).Hangs) → BgndInside (g.bgnd (bgndFin j)) mem ypos) ∧
    ((∀ j < gfxBgndCount, ¬ (g.bgnd (bgndFin j)).Hangs) → SpritesInside g mem ypos)

/-- A turn of the loop over the backgrounds ends where the background does. -/
theorem bgndTurn_ok_iff (hfuel : 4294967296 ≤ fuel) (j : Nat) (s : Scanline) :
    (∃ t, (gfxRenderBgndScanline fuel s ypos (g.bgnd (bgndFin j)) r.mem >>= fun o => .ok o.1) = .ok t) ↔
      ¬ (g.bgnd (bgndFin j)).Hangs ∧ BgndInside (g.bgnd (bgndFin j)) r.mem ypos := by
  rw [bind_ok_total, bgnd_ok_iff hfuel s]

theorem bgndTurn_inBounds (hfuel : 4294967296 ≤ fuel) (j : Nat) (s : Scanline) :
    InBounds (gfxRenderBgndScanline fuel s ypos (g.bgnd (bgndFin j)) r.mem >>= fun o => .ok o.1) ↔
      (¬ (g.bgnd (bgndFin j)).Hangs → BgndInside (g.bgnd (bgndFin j)) r.mem ypos) := by
  rw [inBounds_bind, bgnd_inBounds hfuel]
  exact ⟨fun h => h.1, fun h => ⟨h, fun a _ => inBounds_ok _⟩⟩

theorem renderBgnds_eq (fuel : Nat) (ypos : Int) (g : PeriGfx) (mem : Mem) (s : Scanline) :
    renderBgnds fuel ypos g mem s = forFrom
      (fun j s => gfxRenderBgndScanline fuel s ypos (g.bgnd (bgndFin j)) mem >>= fun o => .ok o.1) gfxBgndCount 0 s :=
  rfl

theorem renderBgnds_ok_iff (hfuel : 4294967296 ≤ fuel) (s : Scanline) :
    (∃ t, renderBgnds fuel ypos g r.mem s = .ok t) ↔
      ∀ j < gfxBgndCount, ¬ (g.bgnd (bgndFin j)).Hangs ∧ BgndInside (g.bgnd (bgndFin j)) r.mem ypos := by
  rw [renderBgnds_eq, forFrom_ok_iff _ (bgndTurn_ok_iff hfuel)]
  simp only [Nat.zero_add]

theorem renderBgnds_inBounds (hfuel : 4294967296 ≤ fuel) (s : Scanline) :
    InBounds (renderBgnds fuel ypos g r.mem s) ↔
      ∀ j < gfxBgndCount, (∀ k ≤ j, ¬ (g.bgnd (bgndFin k)).Hangs) → BgndInside (g.bgnd (bgndFin j)) r.mem ypos := by
  rw [renderBgnds_eq, forFrom_inBounds _ (bgndTurn_inBounds hfuel) (bgndTurn_ok_iff hfuel)]
  simp only [Nat.zero_add]

/-- **The layers stay inside exactly where `SceneInside` says so.** -/
theorem renderLayers_inBounds (hfuel : 4294967296 ≤ fuel) (s : Scanline) :
    InBounds (renderLayers fuel ypos g r.mem s) ↔ SceneInside g r.mem ypos := by
  unfold renderLayers SceneInside
  rw [inBounds_bind, fb_inBounds]
  constructor
  · rintro ⟨hfb, hrest⟩
    obtain ⟨s₁, hs₁⟩ := (fb_ok_iff s).mpr hfb
    obtain ⟨hin, hspr⟩ := inBounds_bind.mp (hrest s₁ hs₁)
    have hin' := (renderBgnds_inBounds hfuel s₁).mp hin
    refine ⟨hfb, hin', fun hH => ?_⟩
    obtain ⟨s₂, hs₂⟩ := (renderBgnds_ok_iff hfuel s₁).mpr
      (fun j hj => ⟨hH j hj, hin' j hj (fun k hk => hH k (by omega))⟩)
    exact (sprites_inBounds hfuel s₂).mp (hspr s₂ hs₂)
  · rintro ⟨hfb, hin, hspr⟩
    refine ⟨hfb, fun s₁ _ => inBounds_bind.mpr ⟨(renderBgnds_inBounds hfuel s₁).mpr hin, fun s₂ hs₂ => ?_⟩⟩
    have hok := (renderBgnds_ok_iff hfuel s₁).mp ⟨s₂, hs₂⟩
    exact (sprites_inBounds hfuel s₂).mpr (hspr (fun j hj => (hok j hj).1))

end HadBadge
