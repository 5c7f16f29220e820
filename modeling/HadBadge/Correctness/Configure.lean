import HadBadge.Correctness.Sprites
import HadBadge.Lib.Run
import HadBadge.Sdk.GfxDriver

/-!
# `Correctness.Configure`: lines rendered while a layer is being set up

Setting up a layer takes several register writes, and a line may be rendered after any of them. A layer stays dark
until the register that turns it on is written, so it is never seen half configured if that register comes last.
It does for the framebuffer and for the backgrounds. `gfx_sprite_set_mem` writes the transparency colour after the
list address: in between, the sprites are drawn with colour 0 transparent. This module says on which lines that can
be seen.
-/

namespace HadBadge

open Lib

/-! ## Calls of the driver, write by write -/

/-- The layers of a line. -/
inductive GfxLayer where
  | fb
  | bgnd (i : Fin 3)
  | sprites
  deriving DecidableEq

/-- The layer that a register belongs to. -/
def GfxReg.layer : GfxReg → GfxLayer
  | .fbBase | .fbPitch | .fbHeight | .fbScrollx | .fbScrolly => .fb
  | .spriteTileAddr | .spriteListAddr | .spriteTranscol      => .sprites
  | .bgnd i _                                                => .bgnd i

/-- A call that configures a layer. `w` and `h` are the size that the map at `map` has in its header. -/
inductive LayerCall where
  | fbSetMem (fbmem : UInt32) (width height : Int)
  | bgndSetGfx (i : Fin 3) (gfx : UInt32) (transCol : Int)
  | bgndSetMap (i : Fin 3) (map w h : Nat)
  | spriteSetMem (sprites gfx : UInt32) (transCol : Int)

def LayerCall.layer : LayerCall → GfxLayer
  | .fbSetMem _ _ _     => .fb
  | .bgndSetGfx i _ _   => .bgnd i
  | .bgndSetMap i _ _ _ => .bgnd i
  | .spriteSetMem _ _ _ => .sprites

/-- The register writes of a call, in the order of the source. -/
def LayerCall.writes : LayerCall → List (GfxReg × UInt32)
  | .fbSetMem fbmem width height =>
      [(.fbPitch, UInt32.ofNat (u32 width)), (.fbHeight, UInt32.ofNat (u32 height)), (.fbBase, fbmem)]
  | .bgndSetGfx i gfx transCol =>
      [(.bgnd i .gfxAddr, gfx), (.bgnd i .transcol, UInt32.ofNat (u32 transCol))]
  | .bgndSetMap i map w h =>
      [(.bgnd i .width, UInt32.ofNat w), (.bgnd i .height, UInt32.ofNat h),
        (.bgnd i .mapAddr, UInt32.ofNat (u32 (map + 4)))]
  | .spriteSetMem sprites gfx transCol =>
      [(.spriteTileAddr, gfx), (.spriteListAddr, sprites), (.spriteTranscol, UInt32.ofNat (u32 transCol))]

/-- The call as the driver makes it, with guest memory `mem`. -/
def LayerCall.run (g : PeriGfx) (mem : Mem) : LayerCall → Except Fault PeriGfx
  | .fbSetMem fbmem width height       => .ok (gfxFbSetMem g fbmem width height)
  | .bgndSetGfx i gfx transCol         => gfxBgndSetGfx g i gfx transCol
  | .bgndSetMap i map _ _              => gfxBgndSetMap g mem i map
  | .spriteSetMem sprites gfx transCol => .ok (gfxSpriteSetMem g sprites gfx transCol)

/-- The size of a `bgndSetMap` is the one in memory. -/
def LayerCall.HeaderRead (mem : Mem) : LayerCall → Prop
  | .bgndSetMap _ map w h => u16At mem map = .ok w ∧ u16At mem (map + 2) = .ok h
  | _                     => True

/-- A call is its register writes. -/
theorem LayerCall.run_eq (g : PeriGfx) {mem : Mem} {c : LayerCall} (hc : c.HeaderRead mem) :
    c.run g mem = .ok (c.writes.foldl (fun g w => gfxWriteFn g w.1.addr w.2) g) := by
  cases c with
  | fbSetMem fbmem width height => rfl
  | bgndSetGfx i gfx transCol =>
      show (assertBgnd i >>= _) = _
      rw [assertBgnd_fin]
      rfl
  | bgndSetMap i map w h =>
      show (assertBgnd i >>= _) = _
      rw [assertBgnd_fin, ok_bind, hc.1, ok_bind, hc.2, ok_bind]
      rfl
  | spriteSetMem sprites gfx transCol => rfl

/-- `b` may come after `a`: it configures another layer, or it gives a background its map after its tiles. -/
def LayerCall.Before (a b : LayerCall) : Prop :=
  a.layer ≠ b.layer ∨ ∃ i gfx transCol map w h, a = .bgndSetGfx i gfx transCol ∧ b = .bgndSetMap i map w h

/-- What happens to the registers: a write, or a line rendered with this in RAM. -/
inductive RegEvent where
  | write (r : GfxReg) (v : UInt32)
  | render (ram : Ram) (ypos : Int)

def RegEvent.written : RegEvent → Option (GfxReg × UInt32)
  | .write r v  => some (r, v)
  | .render _ _ => none

/-- The registers after an event. -/
def regStep (g : PeriGfx) : RegEvent → PeriGfx
  | .write r v     => gfxWriteFn g r.addr v
  | .render _ ypos => { g with lastScanline := ypos }

/-- The events are the writes of those calls in order, lines being rendered anywhere in between. -/
def Interleaves (calls : List LayerCall) (evs : List RegEvent) : Prop :=
  evs.filterMap RegEvent.written = calls.flatMap LayerCall.writes

/-- The event writes a register of the layer. -/
def RegEvent.On (l : GfxLayer) (ev : RegEvent) : Prop := ∃ r v, ev = .write r v ∧ r.layer = l

/-- The event writes this register. -/
def RegEvent.Sets (r : GfxReg) (ev : RegEvent) : Prop := ∃ v, ev = .write r v

/-! ## The register that comes last -/

/-- The last register of a layer that a call writes. -/
def GfxLayer.lastReg : GfxLayer → GfxReg
  | .fb      => .fbBase
  | .bgnd i  => .bgnd i .mapAddr
  | .sprites => .spriteTranscol

theorem GfxLayer.lastReg_layer (l : GfxLayer) : l.lastReg.layer = l := by cases l <;> rfl

theorem LayerCall.writes_layer {c : LayerCall} {w : GfxReg × UInt32} (hw : w ∈ c.writes) : w.1.layer = c.layer := by
  cases c with
  | _ =>
      simp only [LayerCall.writes, List.mem_cons, List.not_mem_nil, or_false] at hw
      rcases hw with rfl | rfl | rfl <;> rfl

variable {calls : List LayerCall} {evs : List RegEvent}

/-- What the calls write in order is ordered, if each call's writes are and so are those of calls in turn. -/
theorem evs_pairwise {R : GfxReg × UInt32 → GfxReg × UInt32 → Prop} (hevs : Interleaves calls evs)
    (hcalls : calls.Pairwise LayerCall.Before) (hown : ∀ c : LayerCall, c.writes.Pairwise R)
    (hcross : ∀ a b : LayerCall, a.Before b → ∀ x ∈ a.writes, ∀ y ∈ b.writes, R x y) :
    evs.Pairwise (fun a b => ∀ x, a.written = some x → ∀ y, b.written = some y → R x y) := by
  have hwrites : (calls.flatMap LayerCall.writes).Pairwise R := by
    rw [List.pairwise_flatMap]
    exact ⟨fun c _ => hown c, hcalls.imp (fun hab => hcross _ _ hab)⟩
  rw [← hevs, List.pairwise_filterMap] at hwrites
  exact hwrites

/-- **No register of a layer is written after its last one.** -/
theorem last_reg_last (hevs : Interleaves calls evs) (hcalls : calls.Pairwise LayerCall.Before) (l : GfxLayer) :
    evs.Pairwise (fun a b => a.Sets l.lastReg → ¬ b.On l) := by
  have hpair := evs_pairwise (R := fun x y => x.1 = l.lastReg → y.1.layer ≠ l) hevs hcalls ?_ ?_
  · refine hpair.imp ?_
    rintro a b hab ⟨v, rfl⟩ ⟨r, v', rfl, hr⟩
    exact hab _ rfl _ rfl rfl hr
  · intro c
    cases c with
    | fbSetMem fbmem width height => cases l <;> simp [LayerCall.writes, GfxLayer.lastReg]
    | bgndSetGfx i gfx transCol => cases l <;> simp [LayerCall.writes, GfxLayer.lastReg]
    | bgndSetMap i map w h => cases l <;> simp [LayerCall.writes, GfxLayer.lastReg]
    | spriteSetMem sprites gfx transCol => cases l <;> simp [LayerCall.writes, GfxLayer.lastReg]
  · rintro a b hab x hx y hy hlast hl
    have hxl : a.layer = l := by rw [← LayerCall.writes_layer hx, hlast, GfxLayer.lastReg_layer]
    have hyl : b.layer = l := by rw [← LayerCall.writes_layer hy, hl]
    obtain hne | ⟨i, gfx, transCol, map, w, h, rfl, rfl⟩ := hab
    · exact hne (hxl.trans hyl.symm)
    · -- the tiles of a background do not come last
      cases hxl
      simp only [LayerCall.writes, List.mem_cons, List.not_mem_nil, or_false] at hx
      rcases hx with rfl | rfl <;> cases hlast

/-- After the list address of the sprites, only the transparency colour is written. -/
theorem list_addr_late (hevs : Interleaves calls evs) (hcalls : calls.Pairwise LayerCall.Before) :
    evs.Pairwise (fun a b => a.Sets .spriteListAddr → ¬ (b.Sets .spriteTileAddr ∨ b.Sets .spriteListAddr)) := by
  have hpair := evs_pairwise
    (R := fun x y => x.1 = .spriteListAddr → y.1 ≠ .spriteTileAddr ∧ y.1 ≠ .spriteListAddr) hevs hcalls ?_ ?_
  · refine hpair.imp ?_
    rintro a b hab ⟨v, rfl⟩ (⟨v', rfl⟩ | ⟨v', rfl⟩)
    · exact (hab _ rfl _ rfl rfl).1 rfl
    · exact (hab _ rfl _ rfl rfl).2 rfl
  · intro c
    cases c with
    | _ => simp [LayerCall.writes]
  · rintro a b hab x hx y hy hlist
    have hxl : a.layer = .sprites := by rw [← LayerCall.writes_layer hx, hlist]; rfl
    have hyl : b.layer ≠ .sprites := by
      obtain hne | ⟨i, gfx, transCol, map, w, h, rfl, rfl⟩ := hab
      · exact fun hb => hne (hxl.trans hb.symm)
      · cases hxl
    have hy' := LayerCall.writes_layer hy
    constructor
    · intro he
      rw [he] at hy'
      exact hyl hy'.symm
    · intro he
      rw [he] at hy'
      exact hyl hy'.symm

/-! ## What a layer sees of the registers -/

theorem regStep_write (g : PeriGfx) (r : GfxReg) (v : UInt32) : regStep g (.write r v) = g.set v r :=
  gfxWriteFn_reg g r v

/-- What holds of every event that writes no register of a kind holds of rendered lines and of the other writes. -/
theorem regStep_frame {V : Type} (view : PeriGfx → V) {P : GfxReg → Prop}
    (hline : ∀ (g : PeriGfx) (y : Int), view { g with lastScanline := y } = view g)
    (hset : ∀ (g : PeriGfx) (r : GfxReg) (v : UInt32), ¬ P r → view (g.set v r) = view g) (g : PeriGfx)
    (ev : RegEvent) (hev : ¬ ∃ r v, ev = .write r v ∧ P r) : view (regStep g ev) = view g := by
  cases ev with
  | render ram ypos => exact hline g ypos
  | write r v =>
      rw [regStep_write]
      exact hset g r v (fun hr => hev ⟨r, v, rfl, hr⟩)

/-- The registers that the framebuffer renderer reads. -/
def fbView (g : PeriGfx) : UInt32 × UInt32 × UInt32 × UInt32 × UInt32 :=
  (g.fbBase, g.fbPitch, g.fbHeight, g.fbScrollx, g.fbScrolly)

/-- The registers that the sprite renderer reads, but for the transparency colour. -/
def spriteAddrs (g : PeriGfx) : UInt32 × UInt32 := (g.spriteTileAddr, g.spriteListAddr)

theorem set_fbView (g : PeriGfx) (r : GfxReg) (v : UInt32) (hr : r.layer ≠ .fb) : fbView (g.set v r) = fbView g := by
  cases r with
  | fbBase | fbPitch | fbHeight | fbScrollx | fbScrolly => exact absurd rfl hr
  | _ => rfl

theorem set_bgnd (g : PeriGfx) (i : Fin 3) (r : GfxReg) (v : UInt32) (hr : r.layer ≠ .bgnd i) :
    (g.set v r).bgnd i = g.bgnd i := by
  cases r with
  | bgnd j r => exact Function.update_of_ne (fun he => hr (congrArg GfxLayer.bgnd he.symm)) _ _
  | _ => rfl

theorem set_mapAddr (g : PeriGfx) (i : Fin 3) (r : GfxReg) (v : UInt32) (hr : r ≠ .bgnd i .mapAddr) :
    ((g.set v r).bgnd i).mapAddr = (g.bgnd i).mapAddr := by
  cases r with
  | bgnd j r =>
      by_cases hij : i = j
      · subst hij
        show ((g.setBgnd i ((g.bgnd i).set v r)).bgnd i).mapAddr = _
        rw [PeriGfx.setBgnd_bgnd_self]
        cases r with
        | mapAddr => exact absurd rfl hr
        | _ => rfl
      · exact congrArg PeriGfxBgnd.mapAddr (Function.update_of_ne hij _ _)
  | _ => rfl

theorem set_fbBase (g : PeriGfx) (r : GfxReg) (v : UInt32) (hr : r ≠ .fbBase) : (g.set v r).fbBase = g.fbBase := by
  cases r with
  | fbBase => exact absurd rfl hr
  | _ => rfl

theorem set_spriteAddrs (g : PeriGfx) (r : GfxReg) (v : UInt32)
    (hr : ¬ (r = .spriteTileAddr ∨ r = .spriteListAddr)) : spriteAddrs (g.set v r) = spriteAddrs g := by
  cases r with
  | spriteTileAddr => exact absurd (.inl rfl) hr
  | spriteListAddr => exact absurd (.inr rfl) hr
  | _ => rfl

theorem set_spriteListAddr (g : PeriGfx) (r : GfxReg) (v : UInt32) (hr : r ≠ .spriteListAddr) :
    (g.set v r).spriteListAddr = g.spriteListAddr := by
  cases r with
  | spriteListAddr => exact absurd rfl hr
  | _ => rfl

theorem set_spriteTranscol (g : PeriGfx) (r : GfxReg) (v : UInt32) (hr : r ≠ .spriteTranscol) :
    (g.set v r).spriteTranscol = g.spriteTranscol := by
  cases r with
  | spriteTranscol => exact absurd rfl hr
  | _ => rfl

/-! ## Sprites with two transparency colours -/

variable {g g' : PeriGfx} {mem : Mem} {ypos : Int} {r : Ram} {fuel : Nat}

/-- The renderer draws nothing, or what `final` draws. -/
def NothingOr (now final : Scanline → Except Fault Scanline) : Prop :=
  (∀ s, now s = .ok s) ∨ ∀ s, now s = final s

/-- The entry at `&mem[a]` covers pixel `p` with a texel of colour `c`, be it transparent or not. -/
def SpriteTexel (g : PeriGfx) (mem : Mem) (ypos a : Int) (p : Fin 320) (c : UInt8) : Prop :=
  ∃ x y tile, spriteXpos mem a = .ok x ∧ spriteYpos mem a = .ok y ∧ spriteTile mem a = .ok tile ∧
    0 ≤ (p : Int) - x ∧ (p : Int) - x < 8 ∧ 0 ≤ ypos - y ∧ ypos - y < 8 ∧
    mem (g.spriteTileAddr.toNat + tile * 64 + (ypos - y) * 8 + ((p : Int) - x)) = some c

theorem spriteShows_iff {a : Int} {p : Fin 320} {c : UInt8} :
    SpriteShows g mem ypos a p c ↔ SpriteTexel g mem ypos a p c ∧ c.toNat ≠ g.spriteTranscol.toNat := by
  constructor
  · rintro ⟨x, y, tile, hx, hy, ht, hp0, hp8, hy0, hy8, hc, hne⟩
    exact ⟨⟨x, y, tile, hx, hy, ht, hp0, hp8, hy0, hy8, hc⟩, hne⟩
  · rintro ⟨⟨x, y, tile, hx, hy, ht, hp0, hp8, hy0, hy8, hc⟩, hne⟩
    exact ⟨x, y, tile, hx, hy, ht, hp0, hp8, hy0, hy8, hc, hne⟩

/-- Of the first `n` entries, the last one that covers pixel `p` has colour `c` there. -/
def TopTexel (g : PeriGfx) (mem : Mem) (ypos : Int) (n : Nat) (p : Fin 320) (c : UInt8) : Prop :=
  ∃ j < n, SpriteTexel g mem ypos (g.spriteListAddr.toNat + 8 * (j : Int)) p c ∧
    ∀ k : Nat, j < k → k < n → ∀ c', ¬ SpriteTexel g mem ypos (g.spriteListAddr.toNat + 8 * (k : Int)) p c'

theorem topTexel_cases (g : PeriGfx) (mem : Mem) (ypos : Int) (n : Nat) (p : Fin 320) :
    (∀ j < n, ∀ c, ¬ SpriteTexel g mem ypos (g.spriteListAddr.toNat + 8 * (j : Int)) p c) ∨
      ∃ c, TopTexel g mem ypos n p c := by
  -- on the entries; if the last one does not cover the pixel, it is up to those before it
  induction n with
  | zero => exact .inl (fun j hj => absurd hj (Nat.not_lt_zero j))
  | succ n ih =>
      by_cases htop : ∃ c, SpriteTexel g mem ypos (g.spriteListAddr.toNat + 8 * (n : Int)) p c
      · obtain ⟨c, hc⟩ := htop
        exact .inr ⟨c, n, Nat.lt_succ_self n, hc, fun k hk hkn => absurd hkn (by omega)⟩
      · have hnone : ∀ c, ¬ SpriteTexel g mem ypos (g.spriteListAddr.toNat + 8 * (n : Int)) p c :=
          fun c hc => htop ⟨c, hc⟩
        rcases ih with hclear | ⟨c, j, hj, hc, hlater⟩
        · left
          intro j hj
          rcases Nat.lt_succ_iff_lt_or_eq.mp hj with hlt | rfl
          · exact hclear j hlt
          · exact hnone
        · right
          refine ⟨c, j, Nat.lt_succ_of_lt hj, hc, ?_⟩
          intro k hk hkn
          rcases Nat.lt_succ_iff_lt_or_eq.mp hkn with hlt | rfl
          · exact hlater k hk hlt
          · exact hnone

/-- What the rows of the first `n` entries show at a pixel. -/
theorem spritesLayer_eq_some (hact : SpritesActive g) {n : Nat} {p : Fin 320} {c : UInt8} :
    spritesLayer g mem ypos n p = some c ↔
      ∃ j < n, SpriteShows g mem ypos (g.spriteListAddr.toNat + 8 * (j : Int)) p c ∧
        ∀ k : Nat, j < k → k < n → ∀ c', ¬ SpriteShows g mem ypos (g.spriteListAddr.toNat + 8 * (k : Int)) p c' := by
  unfold spritesLayer
  rw [if_pos hact, Layer.stack_eq_some_iff]
  simp only [Option.eq_none_iff_forall_ne_some, ne_eq, spriteRowLayer_eq_some]

/-- With both addresses the same, the two register files show the same texels. -/
theorem spriteTexel_congr (haddr : spriteAddrs g = spriteAddrs g') {a : Int} {p : Fin 320} {c : UInt8} :
    SpriteTexel g mem ypos a p c ↔ SpriteTexel g' mem ypos a p c := by
  have htile : g.spriteTileAddr = g'.spriteTileAddr := congrArg Prod.fst haddr
  unfold SpriteTexel
  rw [htile]

/-- A top texel that is not the transparency colour is what the line shows. -/
theorem TopTexel.shown (hact : SpritesActive g) {n : Nat} {p : Fin 320} {c : UInt8} (h : TopTexel g mem ypos n p c)
    (hc : c.toNat ≠ g.spriteTranscol.toNat) : spritesLayer g mem ypos n p = some c := by
  obtain ⟨j, hj, htexel, hlater⟩ := h
  refine (spritesLayer_eq_some hact).mpr ⟨j, hj, spriteShows_iff.mpr ⟨htexel, hc⟩, ?_⟩
  intro k hk hkn c' hc'
  exact hlater k hk hkn c' (spriteShows_iff.mp hc').1

/-- A pixel that no entry covers shows no sprite. -/
theorem spritesLayer_uncovered (hact : SpritesActive g) {n : Nat} {p : Fin 320}
    (hclear : ∀ j < n, ∀ c, ¬ SpriteTexel g mem ypos (g.spriteListAddr.toNat + 8 * (j : Int)) p c) :
    spritesLayer g mem ypos n p = none := by
  rw [Option.eq_none_iff_forall_ne_some]
  intro c hc
  obtain ⟨j, hj, hshows, -⟩ := (spritesLayer_eq_some hact).mp hc
  exact hclear j hj c (spriteShows_iff.mp hshows).1

theorem spritesLayer_ne_transcol (hact : SpritesActive g) {n : Nat} {p : Fin 320} {c : UInt8}
    (h : spritesLayer g mem ypos n p = some c) : c.toNat ≠ g.spriteTranscol.toNat := by
  obtain ⟨j, -, hshows, -⟩ := (spritesLayer_eq_some hact).mp h
  exact (spriteShows_iff.mp hshows).2

theorem TopTexel.congr (haddr : spriteAddrs g = spriteAddrs g') {n : Nat} {p : Fin 320} {c : UInt8} :
    TopTexel g mem ypos n p c ↔ TopTexel g' mem ypos n p c := by
  have hlist : g.spriteListAddr = g'.spriteListAddr := congrArg Prod.snd haddr
  unfold TopTexel
  simp only [spriteTexel_congr haddr, hlist]

theorem spritesActive_congr (haddr : spriteAddrs g = spriteAddrs g') : SpritesActive g ↔ SpritesActive g' := by
  have htile : g.spriteTileAddr = g'.spriteTileAddr := congrArg Prod.fst haddr
  have hlist : g.spriteListAddr = g'.spriteListAddr := congrArg Prod.snd haddr
  unfold SpritesActive
  rw [htile, hlist]

/-- **Two transparency colours show the same line** if they are the same, or if no pixel has either of them as its
    top texel. -/
theorem spritesLayer_eq_iff (hact : SpritesActive g) (haddr : spriteAddrs g = spriteAddrs g') (n : Nat) :
    spritesLayer g mem ypos n = spritesLayer g' mem ypos n ↔ g.spriteTranscol = g'.spriteTranscol ∨
      ∀ p c, TopTexel g mem ypos n p c → c.toNat ≠ g.spriteTranscol.toNat ∧ c.toNat ≠ g'.spriteTranscol.toNat := by
  have hact' := (spritesActive_congr haddr).mp hact
  have hlist : g.spriteListAddr = g'.spriteListAddr := congrArg Prod.snd haddr
  constructor
  · intro heq
    by_cases ht : g.spriteTranscol = g'.spriteTranscol
    · exact .inl ht
    right
    intro p c htop
    have hne : g.spriteTranscol.toNat ≠ g'.spriteTranscol.toNat := fun h => ht (UInt32.toNat_inj.mp h)
    constructor
    · -- the other register file shows it, so this one does, and it never shows its own colour
      intro hc
      have hshown := ((TopTexel.congr haddr).mp htop).shown hact' (hc ▸ hne)
      rw [← heq] at hshown
      exact spritesLayer_ne_transcol hact hshown hc
    · intro hc
      have hshown := htop.shown hact (fun h => hne (h.symm.trans hc))
      rw [heq] at hshown
      exact spritesLayer_ne_transcol hact' hshown hc
  · rintro (ht | htop)
    · funext p
      apply Option.ext
      intro c
      rw [spritesLayer_eq_some hact, spritesLayer_eq_some hact']
      simp only [spriteShows_iff, spriteTexel_congr haddr, hlist, ht]
    · funext p
      rcases topTexel_cases g mem ypos n p with hclear | ⟨c, hc⟩
      · have hclear' : ∀ j < n, ∀ c, ¬ SpriteTexel g' mem ypos (g'.spriteListAddr.toNat + 8 * (j : Int)) p c := by
          simpa only [spriteTexel_congr haddr, hlist] using hclear
        rw [spritesLayer_uncovered hact hclear, spritesLayer_uncovered hact' hclear']
      · obtain ⟨h1, h2⟩ := htop p c hc
        rw [hc.shown hact h1, ((TopTexel.congr haddr).mp hc).shown hact' h2]

/-- The line shows no sprite if all texels on it have the transparency colour. -/
theorem spritesLayer_clear_iff (hact : SpritesActive g) (n : Nat) :
    spritesLayer g mem ypos n = Layer.clear ↔ ∀ j < n, ∀ p c,
      SpriteTexel g mem ypos (g.spriteListAddr.toNat + 8 * (j : Nat)) p c → c.toNat = g.spriteTranscol.toNat := by
  have hnone : spritesLayer g mem ypos n = Layer.clear ↔ ∀ p, ∀ j < n,
      spriteRowLayer g mem ypos (g.spriteListAddr.toNat + 8 * (j : Nat)) p = none := by
    unfold spritesLayer
    rw [if_pos hact, funext_iff]
    simp only [Layer.clear, Layer.stack_eq_none_iff]
  rw [hnone]
  simp only [Option.eq_none_iff_forall_ne_some, ne_eq, spriteRowLayer_eq_some, spriteShows_iff, not_and, not_not]
  exact ⟨fun h j hj p c => h p j hj c, fun h p j hj c => h j hj p c⟩

/-- Which texels are read does not depend on the transparency colour, nor on the buffer. -/
theorem spritePixel_failAlike (gfx px : Int) (x : Nat) (s s' : Scanline) :
    FailAlike (spritePixel g mem gfx px x s) (spritePixel g' mem gfx px x s') := by
  unfold spritePixel
  by_cases hin : 0 ≤ px + x ∧ px + x < 320
  · have hp : px + (x : Int) = ((⟨(px + x).toNat, by omega⟩ : Fin 320) : Nat) := by
      show px + (x : Int) = ((px + x).toNat : Int)
      omega
    rw [if_pos hin, if_pos hin]
    refine (FailAlike.refl _).bind (fun col col' _ _ => ?_)
    rw [hp, drawTexel_fin, drawTexel_fin]
    exact failAlike_ok _ _
  · rw [if_neg hin, if_neg hin]
    exact failAlike_ok s s'

theorem spriteRow_failAlike (haddr : spriteAddrs g = spriteAddrs g') (a : Int) (s s' : Scanline) :
    FailAlike (spriteRow g mem ypos a s) (spriteRow g' mem ypos a s') := by
  have htile : g.spriteTileAddr = g'.spriteTileAddr := congrArg Prod.fst haddr
  unfold spriteRow
  rw [htile]
  refine (FailAlike.refl (spriteYpos mem a)).bind (fun y y' hy hy' => ?_)
  obtain rfl : y = y' := Except.ok.inj (hy.symm.trans hy')
  dsimp only
  by_cases hon : 0 ≤ ypos - y ∧ ypos - y < 8
  · rw [if_pos hon, if_pos hon]
    refine (FailAlike.refl (spriteTile mem a)).bind (fun tile tile' ht ht' => ?_)
    obtain rfl : tile = tile' := Except.ok.inj (ht.symm.trans ht')
    refine (FailAlike.refl (spriteXpos mem a)).bind (fun px px' hx hx' => ?_)
    obtain rfl : px = px' := Except.ok.inj (hx.symm.trans hx')
    exact FailAlike.forFrom (fun x s s' => spritePixel_failAlike _ _ x s s') _ _ _ _
  · rw [if_neg hon, if_neg hon]
    exact failAlike_ok _ _

theorem spriteLoop_failAlike (haddr : spriteAddrs g = spriteAddrs g') (a limit : Int) (w : Bool) (s s' : Scanline) :
    FailAlike (spriteLoop g mem ypos fuel a limit w s) (spriteLoop g' mem ypos fuel a limit w s') := by
  -- on the fuel, one entry a step
  induction fuel generalizing a limit w s s' with
  | zero => exact FailAlike.refl _
  | succ fuel ih =>
      rw [spriteLoop_succ, spriteLoop_succ]
      refine (FailAlike.refl (spriteYpos mem a)).bind (fun y y' hy hy' => ?_)
      obtain rfl : y = y' := Except.ok.inj (hy.symm.trans hy')
      by_cases hend : y = spriteListEndMarker
      · rw [if_pos hend, if_pos hend]
        exact failAlike_ok _ _
      · rw [if_neg hend, if_neg hend]
        exact (spriteRow_failAlike haddr a s s').bind (fun t t' _ _ => ih _ _ _ _ _)

theorem sprites_failAlike (haddr : spriteAddrs g = spriteAddrs g') (s : Scanline) :
    FailAlike (gfxRenderSprites fuel s ypos g mem) (gfxRenderSprites fuel s ypos g' mem) := by
  have hlist : g.spriteListAddr = g'.spriteListAddr := congrArg Prod.snd haddr
  by_cases hact : SpritesActive g
  · obtain ⟨ht, hl⟩ := hact
    obtain ⟨ht', hl'⟩ := (spritesActive_congr haddr).mp ⟨ht, hl⟩
    simp only [gfxRenderSprites, ht, ht', hl', or_self, if_false, hlist]
    exact (spriteLoop_failAlike haddr _ _ _ _ _).bind (fun o o' _ _ => failAlike_ok _ _)
  · rw [sprites_inactive hact, sprites_inactive (mt (spritesActive_congr haddr).mpr hact)]
    exact FailAlike.refl _

/-- Two programs that paint layers. -/
theorem nothingOr_paints {now final : Scanline → Except Fault Scanline} {l k : Layer (Fin 320) UInt8}
    (hnow : Paints now l) (hfinal : Paints final k) : NothingOr now final ↔ l = Layer.clear ∨ l = k := by
  have : Nontrivial UInt8 := ⟨0, 1, by decide⟩
  unfold NothingOr
  refine or_congr ?_ ?_
  · constructor
    · intro h
      refine Layer.paint_injective (fun s => ?_)
      exact Except.ok.inj ((hnow s).symm.trans (h s))
    · intro h s
      rw [hnow s, h, Layer.paint_clear]
  · constructor
    · intro h
      refine Layer.paint_injective (fun s => ?_)
      exact Except.ok.inj ((hnow s).symm.trans ((h s).trans (hfinal s)))
    · intro h s
      rw [hnow s, hfinal s, h]

/-- Drawing the sprites on this line with the register's transparency colour is as good as drawing them with
    `transcol`: the two are the same, or there is nothing to draw, or no pixel has either colour as its top texel. -/
def SpritesHarmless (g : PeriGfx) (mem : Mem) (ypos : Int) (transcol : UInt32) : Prop :=
  SpritesActive g → ∀ n, SpriteListAt mem g.spriteListAddr.toNat n →
    g.spriteTranscol = transcol ∨
    (∀ j < n, ∀ p c, SpriteTexel g mem ypos (g.spriteListAddr.toNat + 8 * (j : Nat)) p c →
      c.toNat = g.spriteTranscol.toNat) ∨
    ∀ p c, TopTexel g mem ypos n p c → c.toNat ≠ g.spriteTranscol.toNat ∧ c.toNat ≠ transcol.toNat

/-- With the addresses in place, the sprites are drawn as at the end, or not at all, exactly where that is
    harmless. -/
theorem sprites_nothingOr_iff (hfuel : 4294967296 ≤ fuel) (haddr : spriteAddrs g = spriteAddrs g')
    (hin : SpritesInside g r.mem ypos) :
    NothingOr (fun s => gfxRenderSprites fuel s ypos g r.mem) (fun s => gfxRenderSprites fuel s ypos g' r.mem) ↔
      SpritesHarmless g r.mem ypos g'.spriteTranscol := by
  have hlist : g.spriteListAddr = g'.spriteListAddr := congrArg Prod.snd haddr
  by_cases hact : SpritesActive g
  · have hact' := (spritesActive_congr haddr).mp hact
    obtain ⟨o, ho⟩ := (sprites_ok_iff hfuel (fun _ => 0)).mpr hin
    obtain ⟨n, hn, hlistn, hrows⟩ := sprites_rows hact ho
    obtain ⟨o', ho'⟩ := (sprites_failAlike haddr _).succeeds ho
    obtain ⟨n', hn', hlistn', hrows'⟩ := sprites_rows hact' ho'
    rw [← hlist] at hlistn'
    obtain rfl := hlistn.length_unique hlistn'
    rw [hlist] at hlistn'
    have hnow := sprites_run hact hlistn hrows hn
    have hfinal := sprites_run hact' hlistn' hrows' hn'
    rw [nothingOr_paints hnow hfinal, spritesLayer_clear_iff hact, spritesLayer_eq_iff hact haddr]
    unfold SpritesHarmless
    constructor
    · rintro h - m hm
      obtain rfl := hlistn.length_unique hm
      tauto
    · intro h
      have := h hact n hlistn
      tauto
  · refine iff_of_true (.inl (fun s => sprites_inactive hact fuel s)) (fun h => absurd h hact)

/-! ## Lines of a run -/

/-- What one background adds to the line. -/
def bgndScanline (fuel : Nat) (ypos : Int) (b : PeriGfxBgnd) (mem : Mem) (scanline : Scanline) :
    Except Fault Scanline := do
  let (scanline, _) ← gfxRenderBgndScanline fuel scanline ypos b mem
  return scanline

/-- If a line is rendered now, each layer draws nothing on it, or what it draws with the registers `final`. -/
def LineDrawn (fuel : Nat) (final g : PeriGfx) : RegEvent → Prop
  | .write _ _ => True
  | .render ram ypos =>
      NothingOr (fun s => gfxRenderFbScanline s ypos g ram.mem) (fun s => gfxRenderFbScanline s ypos final ram.mem) ∧
      (∀ i, NothingOr (bgndScanline fuel ypos (g.bgnd i) ram.mem) (bgndScanline fuel ypos (final.bgnd i) ram.mem)) ∧
      NothingOr (fun s => gfxRenderSprites fuel s ypos g ram.mem) (fun s => gfxRenderSprites fuel s ypos final ram.mem)

/-- If a line is rendered now, the transparency colour that the calls give the sprites makes no difference on it. -/
def LineHarmless (calls : List LayerCall) (g : PeriGfx) : RegEvent → Prop
  | .write _ _ => True
  | .render ram ypos => ∀ sprites gfx transCol, .spriteSetMem sprites gfx transCol ∈ calls →
      SpritesHarmless g ram.mem ypos (UInt32.ofNat (u32 transCol))

/-- If a line is rendered now, the list of the sprites ends in RAM, and what they show on it is in RAM. -/
def LineInside (g : PeriGfx) : RegEvent → Prop
  | .write _ _       => True
  | .render ram ypos => SpritesInside g ram.mem ypos

variable {pre post : List RegEvent}

/-- The framebuffer is off, or its registers are final. -/
theorem fb_published (hevs : Interleaves calls (pre ++ post)) (hcalls : calls.Pairwise LayerCall.Before) :
    (run regStep periGfxInit pre).fbBase = 0 ∨
      fbView (run regStep periGfxInit pre) = fbView (run regStep periGfxInit (pre ++ post)) := by
  have hframe := regStep_frame fbView (P := fun r => r.layer = .fb) (fun _ _ => rfl) set_fbView
  rcases gate_or_final fbView hframe (last_reg_last hevs hcalls .fb) periGfxInit with hoff | hfinal
  · left
    refine run_frame PeriGfx.fbBase (F := RegEvent.Sets .fbBase) ?_ hoff periGfxInit
    · intro g ev hev
      refine regStep_frame PeriGfx.fbBase (P := fun r => r = .fbBase) (fun _ _ => rfl) set_fbBase g ev ?_
      rintro ⟨r, v, rfl, rfl⟩
      exact hev ⟨v, rfl⟩
  · exact .inr hfinal

/-- A background is off, or its registers are final. -/
theorem bgnd_published (hevs : Interleaves calls (pre ++ post)) (hcalls : calls.Pairwise LayerCall.Before)
    (i : Fin 3) : ((run regStep periGfxInit pre).bgnd i).mapAddr = 0 ∨
      (run regStep periGfxInit pre).bgnd i = (run regStep periGfxInit (pre ++ post)).bgnd i := by
  have hframe := regStep_frame (fun g => g.bgnd i) (P := fun r => r.layer = .bgnd i) (fun _ _ => rfl)
    (fun g r v => set_bgnd g i r v)
  rcases gate_or_final (fun g => g.bgnd i) hframe (last_reg_last hevs hcalls (.bgnd i)) periGfxInit with hoff | hfinal
  · left
    refine run_frame (fun g => (g.bgnd i).mapAddr) (F := RegEvent.Sets (.bgnd i .mapAddr)) ?_ hoff periGfxInit
    · intro g ev hev
      refine regStep_frame (fun g => (g.bgnd i).mapAddr) (P := fun r => r = .bgnd i .mapAddr) (fun _ _ => rfl)
        (fun g r v => set_mapAddr g i r v) g ev ?_
      rintro ⟨r, v, rfl, rfl⟩
      exact hev ⟨v, rfl⟩
  · exact .inr hfinal

/-- The sprites are off, or their addresses are final. -/
theorem sprites_published (hevs : Interleaves calls (pre ++ post)) (hcalls : calls.Pairwise LayerCall.Before) :
    (∀ ev ∈ pre, ¬ ev.Sets .spriteListAddr) ∨
      spriteAddrs (run regStep periGfxInit pre) = spriteAddrs (run regStep periGfxInit (pre ++ post)) := by
  refine gate_or_final spriteAddrs ?_ (list_addr_late hevs hcalls) periGfxInit
  intro g ev hev
  refine regStep_frame spriteAddrs (P := fun r => r = .spriteTileAddr ∨ r = .spriteListAddr) (fun _ _ => rfl)
    set_spriteAddrs g ev ?_
  rintro ⟨r, v, rfl, rfl | rfl⟩
  · exact hev (.inl ⟨v, rfl⟩)
  · exact hev (.inr ⟨v, rfl⟩)

/-- Sprites whose list address has not been written are off. -/
theorem sprites_off (hoff : ∀ ev ∈ pre, ¬ ev.Sets .spriteListAddr) :
    ¬ SpritesActive (run regStep periGfxInit pre) := by
  have hkept : (run regStep periGfxInit pre).spriteListAddr = 0 := by
    refine run_frame PeriGfx.spriteListAddr (F := RegEvent.Sets .spriteListAddr) ?_ hoff periGfxInit
    intro g ev hev
    refine regStep_frame PeriGfx.spriteListAddr (P := fun r => r = .spriteListAddr) (fun _ _ => rfl)
      set_spriteListAddr g ev ?_
    rintro ⟨r, v, rfl, rfl⟩
    exact hev ⟨v, rfl⟩
  rintro ⟨-, hl⟩
  exact hl hkept

/-- The register writes of a call of the run are among the events. -/
theorem write_mem (hevs : Interleaves calls evs) {c : LayerCall} (hc : c ∈ calls) {w : GfxReg × UInt32}
    (hw : w ∈ c.writes) : .write w.1 w.2 ∈ evs := by
  have hmem : w ∈ evs.filterMap RegEvent.written := by
    rw [hevs]
    exact List.mem_flatMap.mpr ⟨c, hc, hw⟩
  obtain ⟨ev, hev, hwritten⟩ := List.mem_filterMap.mp hmem
  cases ev with
  | render ram ypos => cases hwritten
  | write r v =>
      cases hwritten
      exact hev

/-- Of the calls, only `gfx_sprite_set_mem` writes a list address. -/
theorem list_addr_call (hevs : Interleaves calls evs) {ev : RegEvent} (hev : ev ∈ evs)
    (hsets : ev.Sets .spriteListAddr) : ∃ sprites gfx transCol, .spriteSetMem sprites gfx transCol ∈ calls := by
  obtain ⟨v, rfl⟩ := hsets
  have hmem : (GfxReg.spriteListAddr, v) ∈ evs.filterMap RegEvent.written := List.mem_filterMap.mpr ⟨_, hev, rfl⟩
  rw [hevs, List.mem_flatMap] at hmem
  obtain ⟨c, hc, hw⟩ := hmem
  have hl := LayerCall.writes_layer hw
  cases c with
  | spriteSetMem sprites gfx transCol => exact ⟨sprites, gfx, transCol, hc⟩
  | fbSetMem | bgndSetGfx | bgndSetMap => cases hl

/-- The transparency colour of the sprites ends up as the call has it. -/
theorem final_transcol (hevs : Interleaves calls evs) (hcalls : calls.Pairwise LayerCall.Before)
    {sprites gfx : UInt32} {transCol : Int} (hc : .spriteSetMem sprites gfx transCol ∈ calls) :
    (run regStep periGfxInit evs).spriteTranscol = UInt32.ofNat (u32 transCol) := by
  have hmem := write_mem hevs hc (w := (.spriteTranscol, UInt32.ofNat (u32 transCol))) (by simp [LayerCall.writes])
  obtain ⟨pre, post, rfl⟩ := List.append_of_mem hmem
  -- the call writes the colour last, and nothing writes it again
  have hlast := List.pairwise_cons.mp (List.pairwise_append.mp (last_reg_last hevs hcalls .sprites)).2.1
  have hpost : ∀ ev ∈ post, ¬ ev.On .sprites := fun ev hev => hlast.1 ev hev ⟨_, rfl⟩
  rw [run_append, run_cons]
  refine (run_frame PeriGfx.spriteTranscol (F := RegEvent.On .sprites) ?_ hpost _).trans ?_
  · intro g ev hev
    refine regStep_frame PeriGfx.spriteTranscol (P := fun r => r = .spriteTranscol) (fun _ _ => rfl)
      set_spriteTranscol g ev ?_
    rintro ⟨r, v, rfl, rfl⟩
    exact hev ⟨_, v, rfl, rfl⟩
  · rw [regStep_write]
    rfl

/-- The framebuffer renderer reads its own registers only. -/
theorem fb_congr (h : fbView g = fbView g') (s : Scanline) :
    gfxRenderFbScanline s ypos g mem = gfxRenderFbScanline s ypos g' mem := by
  simp only [fbView, Prod.mk.injEq] at h
  obtain ⟨h1, h2, h3, h4, h5⟩ := h
  unfold gfxRenderFbScanline fbStep
  rw [h1, h2, h3, h4, h5]

/-- **A line in the middle of a run** shows each layer not at all or as at the end exactly where the transparency
    colour of the sprites makes no difference. -/
theorem line_drawn_iff (hfuel : 4294967296 ≤ fuel) (hcalls : calls.Pairwise LayerCall.Before)
    (hevs : Interleaves calls (pre ++ post)) (ev : RegEvent) (hin : LineInside (run regStep periGfxInit pre) ev) :
    LineDrawn fuel (run regStep periGfxInit (pre ++ post)) (run regStep periGfxInit pre) ev ↔
      LineHarmless calls (run regStep periGfxInit pre) ev := by
  cases ev with
  | write r v => exact Iff.rfl
  | render ram ypos =>
      have hfb : NothingOr (fun s => gfxRenderFbScanline s ypos (run regStep periGfxInit pre) ram.mem)
          (fun s => gfxRenderFbScanline s ypos (run regStep periGfxInit (pre ++ post)) ram.mem) := by
        rcases fb_published hevs hcalls with hoff | hfinal
        · exact .inl (fun s => if_pos hoff)
        · exact .inr (fb_congr hfinal)
      have hbgnd (i : Fin 3) : NothingOr (bgndScanline fuel ypos ((run regStep periGfxInit pre).bgnd i) ram.mem)
          (bgndScanline fuel ypos ((run regStep periGfxInit (pre ++ post)).bgnd i) ram.mem) := by
        rcases bgnd_published hevs hcalls i with hoff | hfinal
        · left
          intro s
          unfold bgndScanline
          rw [bgnd_inactive (fun hact => hact.2.1 hoff), ok_bind]
          rfl
        · right
          intro s
          rw [hfinal]
      show _ ∧ _ ∧ _ ↔ _
      rw [and_iff_right hfb, and_iff_right hbgnd]
      rcases sprites_published hevs hcalls with hoff | haddr
      · have hact := sprites_off hoff
        refine iff_of_true (.inl (fun s => sprites_inactive hact fuel s)) ?_
        intro sprites gfx transCol _ ha
        exact absurd ha hact
      · rw [sprites_nothingOr_iff hfuel haddr hin]
        constructor
        · intro h sprites gfx transCol hc
          rw [← final_transcol hevs hcalls hc]
          exact h
        · intro h hact
          -- sprites that are on have their list address from a call
          by_cases hsets : ∃ ev ∈ pre, ev.Sets .spriteListAddr
          · obtain ⟨ev, hev, hsets⟩ := hsets
            obtain ⟨sprites, gfx, transCol, hc⟩ := list_addr_call hevs (List.mem_append_left post hev) hsets
            rw [final_transcol hevs hcalls hc]
            exact h sprites gfx transCol hc hact
          · exact absurd hact (sprites_off (fun ev hev hs => hsets ⟨ev, hev, hs⟩))

/-- **Lines rendered while layers are being configured.** For calls that configure each layer once, each background
    with its tiles before its map, and lines rendered anywhere between their register writes, whatever is in RAM by
    then as long as the sprites stay inside: every layer of every line is drawn not at all or as the completed
    configuration draws it if and only if on every line the transparency colour of the sprites makes no difference. -/
theorem configured_lines_iff (hfuel : 4294967296 ≤ fuel) (hcalls : calls.Pairwise LayerCall.Before)
    (hevs : Interleaves calls evs) (hin : Steps regStep LineInside periGfxInit evs) :
    Steps regStep (LineDrawn fuel (run regStep periGfxInit evs)) periGfxInit evs ↔
      Steps regStep (LineHarmless calls) periGfxInit evs := by
  refine forall_congr' (fun pre => forall₂_congr (fun ev hpre => ?_))
  obtain ⟨post, rfl⟩ := (List.prefix_append pre [ev]).trans hpre
  exact line_drawn_iff hfuel hcalls hevs ev (hin pre ev hpre)

/-! ## One sprite -/

/-- One sprite at the top left, its first texel of colour 1. -/
def colourSpriteRam : Ram := oneSpriteRam.setByte 0x2000 1

/-- The call that shows it. -/
def colourSpriteCall (transCol : Int) : LayerCall := .spriteSetMem 0x1000 0x2000 transCol

/-- Its register writes, the first line being rendered before the last of them. -/
def colourSpriteRun (transCol : Int) : List RegEvent :=
  [.write .spriteTileAddr 0x2000, .write .spriteListAddr 0x1000, .render colourSpriteRam 0,
    .write .spriteTranscol (UInt32.ofNat (u32 transCol))]

theorem colourSprite_list : SpriteListAt colourSpriteRam.mem 0x1000 1 := by
  refine ⟨?_, by decide⟩
  intro j hj
  obtain rfl : j = 0 := by omega
  exact ⟨0, by decide, by decide⟩

theorem colourSprite_row {g : PeriGfx} (htiles : g.spriteTileAddr = 0x2000) :
    RowInside g colourSpriteRam.mem 0 0x1000 := by
  intro px y tile _ hy ht h0 h1 x hx _ _
  have hlt := u16At_lt ht
  rw [htiles, show ((0x2000 : UInt32).toNat : Int) = 0x2000 from rfl]
  unfold RamIndex machRamSize
  omega

/-- With colour 0 transparent, the register is right all along. -/
theorem configured_lines_iff_zero :
    Steps regStep (LineDrawn 4294967296 (run regStep periGfxInit (colourSpriteRun 0))) periGfxInit
      (colourSpriteRun 0) := by
  have hevs : Interleaves [colourSpriteCall 0] (colourSpriteRun 0) := rfl
  have hin : Steps regStep LineInside periGfxInit (colourSpriteRun 0) := by
    simp only [colourSpriteRun, steps_cons, steps_nil, and_true]
    refine ⟨trivial, trivial, ?_, trivial⟩
    rintro -
    refine ⟨1, colourSprite_list, fun j hj => ?_⟩
    obtain rfl : j = 0 := by omega
    exact colourSprite_row rfl
  refine (configured_lines_iff (le_refl _) (List.pairwise_singleton _ _) hevs hin).mpr ?_
  simp only [colourSpriteRun, steps_cons, steps_nil, and_true]
  refine ⟨trivial, trivial, ?_, trivial⟩
  intro sprites gfx transCol hc
  obtain ⟨rfl, rfl, rfl⟩ := LayerCall.spriteSetMem.inj (List.mem_singleton.mp hc)
  intro _ n _
  exact .inl (by decide)

/-- With colour 1 transparent, the line in between shows a texel that the completed configuration leaves out. -/
theorem configured_lines_half :
    ¬ ∀ (fuel : Nat) (calls : List LayerCall) (evs : List RegEvent), calls.Pairwise LayerCall.Before →
      Interleaves calls evs → Steps regStep (LineDrawn fuel (run regStep periGfxInit evs)) periGfxInit evs := by
  intro h
  have hsteps := h 2 [colourSpriteCall 1] (colourSpriteRun 1) (List.pairwise_singleton _ _) rfl
  simp only [colourSpriteRun, steps_cons] at hsteps
  obtain ⟨-, -, ⟨-, -, hdrawn⟩, -⟩ := hsteps
  -- pixel 0 of a line of 5s: the sprite's texel now, the 5 at the end
  have hnow : (gfxRenderSprites 2 (fun _ => 5) 0 (regStep (regStep periGfxInit (.write .spriteTileAddr 0x2000))
      (.write .spriteListAddr 0x1000)) colourSpriteRam.mem).map (fun s => s 0) = .ok 1 := by
    decide +kernel
  have hfinal : (gfxRenderSprites 2 (fun _ => 5) 0 (run regStep periGfxInit (colourSpriteRun 1))
      colourSpriteRam.mem).map (fun s => s 0) = .ok 5 := by
    decide +kernel
  rcases hdrawn with hnone | hsame
  · have hpixel := congrArg (Except.map (fun s : Scanline => s 0)) (hnone (fun _ => 5))
    dsimp only at hpixel
    rw [hnow] at hpixel
    cases hpixel
  · have hpixel := congrArg (Except.map (fun s : Scanline => s 0)) (hsame (fun _ => 5))
    dsimp only at hpixel
    rw [hnow] at hpixel
    cases hpixel.trans hfinal

end HadBadge
