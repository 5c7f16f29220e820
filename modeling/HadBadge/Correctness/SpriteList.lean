import HadBadge.Emu.Layers
import HadBadge.Lib.Run
import HadBadge.Sdk.ExtGfx

/-!
# `Correctness.SpriteList`: what keeps the sprite list whole

`SPRINIT` allocates `count + 1` entries and marks the last one as the end of the list; the length is stored
nowhere else. The setters take any number and any value: a number outside the list stores outside its entries,
the number `count` overwrites the marker, and a y that narrows to the marker ends the list early.
-/

namespace HadBadge

open Lib

variable {calloc : Calloc} {r : Ram} {sprites : UInt32} {n : Nat}

/-- What `calloc` does for `SPRINIT`: a block it grants has the size that was asked for and lies in the RAM that
    the CPU maps. -/
def Calloc.Serves (calloc : Calloc) : Prop :=
  ∀ r n size, (calloc r n size).1 ≠ 0 →
    firstPageSz ≤ (calloc r n size).1.toNat ∧ (calloc r n size).1.toNat + n.toNat * size.toNat ≤ machRamSize

/-- A call of one of the setters. -/
inductive SprCmd where
  | setTile (id v : Int)
  | setX (id v : Int)
  | setY (id v : Int)

def SprCmd.id : SprCmd → Int
  | .setTile id _ => id
  | .setX id _    => id
  | .setY id _    => id

/-- The offset of the field that the command sets. -/
def SprCmd.field : SprCmd → Nat
  | .setTile _ _ => 4
  | .setX _ _    => 0
  | .setY _ _    => 2

def SprCmd.val : SprCmd → Int
  | .setTile _ v => v
  | .setX _ v    => v
  | .setY _ v    => v

/-- The registers, RAM, and where the setters have stored so far. -/
structure SprState where
  g : PeriGfx
  ram : Ram
  stores : List Nat

/-- RAM after a setter. -/
def sprCmd (g : PeriGfx) (r : Ram) : SprCmd → Ram
  | .setTile id v => sprsettile g r id v
  | .setX id v    => sprsetx g r id v
  | .setY id v    => sprsety g r id v

/-- One setter. -/
def sprStep (s : SprState) (c : SprCmd) : SprState :=
  ⟨s.g, sprCmd s.g s.ram c, s.stores ++ [spriteField (gfxGetSprites s.g) c.id c.field]⟩

theorem sprCmd_eq (g : PeriGfx) (r : Ram) (c : SprCmd) :
    sprCmd g r c = r.guestSetU16 (spriteField (gfxGetSprites g) c.id c.field) (u16 c.val) := by
  cases c <;> rfl

/-- The list is whole: every store was to a field of its `count` entries, and a walk from its first entry meets
    the end marker after exactly `count` of them. -/
structure SprListOk (sprites : UInt32) (count : Int) (s : SprState) : Prop where
  stores : ∀ a ∈ s.stores, sprites.toNat ≤ a ∧ (a : Int) + 2 ≤ sprites.toNat + 8 * count
  list : ∃ n : Nat, (n : Int) = count ∧ SpriteListAt s.ram.mem (gfxGetSprites s.g).toNat n

/-- The command names one of `count` sprites, and no y that reads as the end marker. Numbers that differ by
    `2^29` have the same address. -/
def SprCmd.Fits (count : Int) (c : SprCmd) : Prop :=
  c.id % 536870912 < count ∧ ∀ id v, c = .setY id v → i16 v ≠ spriteListEndMarker

/-! ## Addresses and values -/

/-- A list of `n` entries and its end marker, in the RAM that the CPU maps. -/
def ListFits (sprites : UInt32) (n : Nat) : Prop :=
  firstPageSz ≤ sprites.toNat ∧ sprites.toNat + 8 * (n + 1) ≤ machRamSize

theorem spriteField_eq (hfit : ListFits sprites n) {i : Nat} (hi : i ≤ n) {f : Nat} (hf : f ≤ 4) :
    spriteField sprites i f = sprites.toNat + 8 * i + f := by
  obtain ⟨-, hend⟩ := hfit
  simp only [machRamSize] at hend
  unfold spriteField u32
  omega

/-- Only numbers that name an entry give an address among the entries. -/
theorem spriteField_inside_iff (hfit : ListFits sprites n) (id : Int) {f : Nat} (hf : f ≤ 4) :
    (sprites.toNat ≤ spriteField sprites id f ∧
      (spriteField sprites id f : Int) + 2 ≤ sprites.toNat + 8 * (n : Int)) ↔ id % 536870912 < n := by
  obtain ⟨-, hend⟩ := hfit
  simp only [machRamSize] at hend
  unfold spriteField u32
  omega

/-- Such a number gives the address of the entry that it is modulo `2^29`. -/
theorem spriteField_mod (sprites : UInt32) (id : Int) (f : Nat) :
    spriteField sprites id f = spriteField sprites (id % 536870912).toNat f := by
  unfold spriteField u32
  omega

@[simp] theorem u16_mod (v : Int) : u16 v % 65536 = u16 v := Nat.mod_eq_of_lt (u16_lt v)

@[simp] theorem i16_u16 (v : Int) : i16 (u16 v) = i16 v := by
  unfold i16 u16
  omega

/-- The y of an entry after a store to a field of an entry. -/
theorem spriteYpos_store (hfit : ListFits sprites n) {i j f : Nat} (hi : i ≤ n) (hf : f = 0 ∨ f = 2 ∨ f = 4)
    (v : Int) : spriteYpos (r.guestSetU16 (sprites.toNat + 8 * i + f) (u16 v)).mem (sprites.toNat + 8 * (j : Int)) =
      if j = i ∧ f = 2 then .ok (i16 v) else spriteYpos r.mem (sprites.toNat + 8 * (j : Int)) := by
  obtain ⟨hpage, hend⟩ := hfit
  unfold spriteYpos
  by_cases hj : j = i ∧ f = 2
  · obtain ⟨rfl, rfl⟩ := hj
    have haddr : (sprites.toNat : Int) + 8 * (j : Int) + 2 = ((sprites.toNat + 8 * j + 2 : Nat) : Int) := by
      push_cast
      rfl
    rw [if_pos ⟨rfl, rfl⟩, haddr, r.guestSetU16_same _ (by omega) (by omega), u16_mod]
    show Except.ok (i16 (u16 v)) = _
    rw [i16_u16]
  · rw [if_neg hj, r.guestSetU16_frame _ _ (by push_cast; omega)]

/-! ## `SPRINIT` -/

/-- After the loop of `SPRINIT`, no entry ends the list. -/
theorem hideSprites_ypos (hfit : ListFits sprites n) {k : Nat} (hk : k ≤ n) (r : Ram) :
    ∀ j < k, spriteYpos (hideSprites sprites k r).mem (sprites.toNat + 8 * (j : Int)) = .ok spriteHide := by
  -- on the iterations; each hides its entry and leaves the others alone
  induction k with
  | zero =>
      intro j hj
      exact absurd hj (Nat.not_lt_zero j)
  | succ k ih =>
      intro j hj
      unfold hideSprites
      rw [List.range_succ, List.foldl_append]
      simp only [List.foldl_cons, List.foldl_nil]
      rw [spriteField_eq hfit (by omega) (by omega), spriteYpos_store hfit (by omega) (by tauto)]
      by_cases hjk : j = k
      · rw [if_pos ⟨hjk, rfl⟩]
        rfl
      · rw [if_neg (by tauto)]
        exact ih (by omega) j (by omega)

/-- What `SPRINIT` has done when it returns: a list of `n` hidden sprites, at the address in the register. -/
theorem sprinit_list (hc : calloc.Serves) {g g' : PeriGfx} {r' : Ram} {gfx : UInt32} {transcol : Int}
    (hn : n < 2147483648) (h : sprinit calloc g r n gfx transcol = .ok (.ok, g', r')) :
    ListFits (gfxGetSprites g') n ∧ SpriteListAt r'.mem (gfxGetSprites g').toNat n := by
  -- an `int` that is not negative leaves room for the marker's entry
  have hcount : u32 ((n : Int) + 1) = n + 1 := by
    unfold u32
    omega
  unfold sprinit at h
  simp only [hcount, Int.toNat_natCast] at h
  have hinRam := hc r 8 (UInt32.ofNat (n + 1))
  generalize calloc r 8 (UInt32.ofNat (n + 1)) = block at h hinRam
  obtain ⟨p, r₁⟩ := block
  by_cases hnull : p = 0
  · rw [if_pos hnull] at h
    cases h
  · rw [if_neg hnull] at h
    cases h
    have hreg : gfxGetSprites (gfxSpriteSetMem g p gfx transcol) = p := rfl
    obtain ⟨hpage, hend⟩ := hinRam hnull
    rw [UInt32.toNat_ofNat', Nat.mod_eq_of_lt (by omega), show (8 : UInt32).toNat = 8 from rfl] at hend
    have hfit : ListFits p n := ⟨hpage, hend⟩
    rw [hreg, spriteField_eq hfit (le_refl n) (by omega)]
    refine ⟨hfit, ?_, ?_⟩
    · intro j hj
      rw [spriteYpos_store hfit (le_refl n) (by tauto), if_neg (by omega)]
      exact ⟨spriteHide, hideSprites_ypos hfit (le_refl n) r₁ j hj, by decide⟩
    · rw [spriteYpos_store hfit (le_refl n) (by tauto), if_pos ⟨rfl, rfl⟩]
      rfl

/-! ## The setters -/

theorem SprCmd.field_cases (c : SprCmd) : c.field = 0 ∨ c.field = 2 ∨ c.field = 4 := by
  cases c <;> simp [SprCmd.field]

theorem SprCmd.field_le (c : SprCmd) : c.field ≤ 4 := by
  have := c.field_cases
  omega

/-- What a setter whose number names an entry makes of the `y` of entry `j`. -/
theorem sprStep_ypos {s : SprState} (hg : gfxGetSprites s.g = sprites) (hfit : ListFits sprites n) {c : SprCmd}
    (hk : c.id % 536870912 < n) (j : Nat) :
    spriteYpos (sprStep s c).ram.mem (sprites.toNat + 8 * (j : Int)) =
      if j = (c.id % 536870912).toNat ∧ c.field = 2 then .ok (i16 c.val)
      else spriteYpos s.ram.mem (sprites.toNat + 8 * (j : Int)) := by
  have hk' : (c.id % 536870912).toNat ≤ n := by omega
  show spriteYpos (sprCmd s.g s.ram c).mem _ = _
  rw [sprCmd_eq, hg, spriteField_mod, spriteField_eq hfit hk' c.field_le, spriteYpos_store hfit hk' c.field_cases]

/-- A setter that leaves the list whole fits. -/
theorem sprStep_fits {s : SprState} (hg : gfxGetSprites s.g = sprites) (hfit : ListFits sprites n) {c : SprCmd}
    (hok : SprListOk sprites n (sprStep s c)) : c.Fits n := by
  have hk : c.id % 536870912 < n := by
    rw [← spriteField_inside_iff hfit c.id c.field_le]
    apply hok.stores
    simp [sprStep, hg]
  refine ⟨hk, ?_⟩
  rintro id v rfl hv
  -- the marker would then be at an entry before the end
  obtain ⟨m, hm, hlist⟩ := hok.list
  obtain rfl : m = n := by omega
  obtain ⟨y, hy, hne⟩ := hlist.1 (id % 536870912).toNat (by
    simp only [SprCmd.id] at hk
    omega)
  have hreg : gfxGetSprites (sprStep s (.setY id v)).g = sprites := hg
  rw [hreg, sprStep_ypos hg hfit hk, if_pos ⟨rfl, rfl⟩] at hy
  cases hy
  exact hne hv

/-- A setter that fits keeps a whole list whole. -/
theorem sprStep_keeps {s : SprState} (hg : gfxGetSprites s.g = sprites) (hfit : ListFits sprites n)
    (hs : SprListOk sprites n s) {c : SprCmd} (hc : c.Fits n) : SprListOk sprites n (sprStep s c) := by
  obtain ⟨hk, hy⟩ := hc
  obtain ⟨m, hm, hlist⟩ := hs.list
  obtain rfl : m = n := by omega
  rw [hg] at hlist
  refine ⟨?_, m, rfl, ?_⟩
  · intro a ha
    simp only [sprStep, hg, List.mem_append, List.mem_singleton] at ha
    rcases ha with ha | rfl
    · exact hs.stores a ha
    · exact (spriteField_inside_iff hfit c.id c.field_le).mpr hk
  · have hreg : gfxGetSprites (sprStep s c).g = sprites := hg
    rw [hreg]
    refine ⟨?_, ?_⟩
    · intro j hj
      rw [sprStep_ypos hg hfit hk]
      by_cases hjk : j = (c.id % 536870912).toNat ∧ c.field = 2
      · rw [if_pos hjk]
        refine ⟨i16 c.val, rfl, ?_⟩
        cases c with
        | setY id v => exact hy id v rfl
        | setTile id v => exact absurd hjk.2 (by simp [SprCmd.field])
        | setX id v => exact absurd hjk.2 (by simp [SprCmd.field])
      · rw [if_neg hjk]
        exact hlist.1 j hj
    · rw [sprStep_ypos hg hfit hk, if_neg (by omega)]
      exact hlist.2

/-- A setter keeps a whole list whole exactly when its arguments fit. -/
theorem sprStep_ok_iff {s : SprState} (hg : gfxGetSprites s.g = sprites) (hfit : ListFits sprites n)
    (hs : SprListOk sprites n s) (c : SprCmd) : SprListOk sprites n (sprStep s c) ↔ c.Fits n :=
  ⟨sprStep_fits hg hfit, sprStep_keeps hg hfit hs⟩

/-- **When the sprite list stays whole.** After every `SPRINIT` that returned `MB_FUNC_OK`, for every sequence of
    setters: the list is whole in every state reached exactly if `count` is not negative and every setter fits. -/
theorem sprite_list_iff (hc : calloc.Serves) {g g' : PeriGfx} {r' : Ram} {count : Int} {gfx : UInt32}
    {transcol : Int} (hint : count < 2147483648)
    (h : sprinit calloc g r count gfx transcol = .ok (.ok, g', r')) (cmds : List SprCmd) :
    Always sprStep (SprListOk (gfxGetSprites g') count) ⟨g', r', []⟩ cmds ↔
      0 ≤ count ∧ ∀ c ∈ cmds, c.Fits count := by
  by_cases h0 : 0 ≤ count
  · obtain ⟨n, rfl⟩ := Int.eq_ofNat_of_zero_le h0
    obtain ⟨hfit, hlist⟩ := sprinit_list hc (by omega) h
    have hstart : SprListOk (gfxGetSprites g') n ⟨g', r', []⟩ := by
      refine ⟨?_, n, rfl, hlist⟩
      intro a ha
      cases ha
    have hruns : Always sprStep (SprListOk (gfxGetSprites g') n) ⟨g', r', []⟩ cmds ↔
        Steps sprStep (fun _ c => c.Fits n) ⟨g', r', []⟩ cmds :=
      @always_iff_steps _ _ sprStep (fun s => gfxGetSprites s.g = gfxGetSprites g') _ _ (fun _ _ hs => hs)
        (fun s c hs hok => sprStep_ok_iff hs hfit hok c) cmds _ rfl hstart
    rw [hruns, steps_const_iff]
    exact ⟨fun hall => ⟨h0, hall⟩, fun hall => hall.2⟩
  · refine iff_of_false ?_ (fun hall => h0 hall.1)
    intro hall
    -- a list has no negative number of entries
    obtain ⟨m, hm, -⟩ := (hall [] List.nil_prefix).list
    omega

/-! ## A list of two sprites -/

/-- A heap that grants one block, at 64 KiB, of up to 1 MiB. -/
def blockCalloc : Calloc := fun r n size =>
  if n.toNat * size.toNat ≤ 1048576 then (0x10000, r) else (0, r)

theorem blockCalloc_serves : blockCalloc.Serves := by
  intro r n size h
  unfold blockCalloc at h ⊢
  by_cases hsize : n.toNat * size.toNat ≤ 1048576
  · rw [if_pos hsize]
    refine ⟨(by decide : firstPageSz ≤ 65536), ?_⟩
    show 65536 + n.toNat * size.toNat ≤ machRamSize
    simp only [machRamSize]
    omega
  · rw [if_neg hsize] at h
    exact absurd rfl h

/-- RAM after `SPRINIT 2, gfx, 0`. -/
def twoSpriteRam : Ram :=
  (hideSprites 0x10000 2 (Ram.fill 0)).guestSetU16 (spriteField 0x10000 2 2) (u16 spriteListEndMarker)

theorem sprinit_two : sprinit blockCalloc periGfxInit (Ram.fill 0) 2 0x2000 0
    = .ok (.ok, gfxSpriteSetMem periGfxInit 0x10000 0x2000 0, twoSpriteRam) := rfl

/-- Setters of both sprites. -/
theorem sprite_list_iff_two :
    Always sprStep (SprListOk (gfxGetSprites (gfxSpriteSetMem periGfxInit 0x10000 0x2000 0)) 2)
      ⟨gfxSpriteSetMem periGfxInit 0x10000 0x2000 0, twoSpriteRam, []⟩ [.setX 0 5, .setY 1 (-40000)] ↔
    (0 : Int) ≤ 2 ∧ ∀ c ∈ [SprCmd.setX 0 5, SprCmd.setY 1 (-40000)], c.Fits 2 :=
  sprite_list_iff blockCalloc_serves (by decide) sprinit_two _

/-- `SPRSETY 2, 0` on two sprites overwrites the end marker. -/
theorem sprite_list_marker_lost :
    ¬ ∀ (calloc : Calloc) (g g' : PeriGfx) (r r' : Ram) (count : Int) (gfx : UInt32) (transcol : Int),
      calloc.Serves → -2147483648 ≤ count → count < 2147483648 →
      sprinit calloc g r count gfx transcol = .ok (.ok, g', r') → ∀ cmds : List SprCmd,
      Always sprStep (SprListOk (gfxGetSprites g') count) ⟨g', r', []⟩ cmds := by
  intro h
  have hall := h blockCalloc periGfxInit _ (Ram.fill 0) _ 2 0x2000 0 blockCalloc_serves (by decide) (by decide)
    sprinit_two [.setY 2 0]
  have hok := hall [.setY 2 0] (List.prefix_refl _)
  have hstores := hok.stores 0x10012 (List.mem_singleton.mpr rfl)
  exact absurd hstores.2 (by decide)

end HadBadge
