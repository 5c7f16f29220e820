import HadBadge.Lib.Post
import HadBadge.Lib.Run
import HadBadge.Sdk.Handles

/-!
# `Correctness.Handles`: loads and frees do not balance

`mybasicext_gfx_install` registers the loading handlers under the freeing names. A freeing command therefore runs
a loader, which asks for a string, finds a handle and fails: nothing is ever freed. The books balance exactly as
long as nobody frees anything.
-/

namespace HadBadge

open Lib

variable {env : GuestEnv}

/-- A call of one of the four commands. -/
inductive HandleCmd where
  | tilemapload (filename layername : UInt32)
  | tilegfxload (filename : UInt32)
  | tilemapfree (handle : UInt32)
  | tilegfxfree (handle : UInt32)
  deriving DecidableEq, Repr

def HandleCmd.name : HandleCmd → GfxName
  | .tilemapload _ _ => .TILEMAPLOAD
  | .tilegfxload _   => .TILEGFXLOAD
  | .tilemapfree _   => .TILEMAPFREE
  | .tilegfxfree _   => .TILEGFXFREE

def HandleCmd.args : HandleCmd → List MbValue
  | .tilemapload filename layername => [.string filename, .string layername]
  | .tilegfxload filename           => [.string filename]
  | .tilemapfree handle             => [.usertype handle]
  | .tilegfxfree handle             => [.usertype handle]

/-- The command frees. -/
def HandleCmd.IsFree : HandleCmd → Prop
  | .tilemapload _ _ => False
  | .tilegfxload _   => False
  | .tilemapfree _   => True
  | .tilegfxfree _   => True

/-- A program that loads and frees: the machine, and the program's own books. `maps` and `gfxs` are the handles
    that it has loaded and not freed, `freed` says whether every free has succeeded. -/
structure HandleRun where
  state : HandleState
  maps : List UInt32
  gfxs : List UInt32
  freed : Bool

/-- A handle that a loading command has returned. -/
def MbResult.handle (o : MbResult) : List UInt32 :=
  match o.ret, o.pushed with
  | .ok, some (.usertype h) => [h]
  | _,   _                  => []

/-- The program's books after a command. -/
def HandleRun.enter (s : HandleRun) (o : MbResult) : HandleCmd → HandleRun
  | .tilemapload _ _ => { s with state := o.state, maps := o.handle ++ s.maps }
  | .tilegfxload _   => { s with state := o.state, gfxs := o.handle ++ s.gfxs }
  | .tilemapfree h   => { s with state := o.state, maps := s.maps.erase h, freed := s.freed && o.ret == .ok }
  | .tilegfxfree h   => { s with state := o.state, gfxs := s.gfxs.erase h, freed := s.freed && o.ret == .ok }

/-- One command, by its name. -/
def handleStep (env : GuestEnv) (s : HandleRun) (c : HandleCmd) : Except Fault HandleRun := do
  let o ← mbCall env (mybasicextGfxInstall []) c.name c.args s.state
  return s.enter o c

/-- A run of commands, as far as the emulator survives it. -/
def handleRun (env : GuestEnv) (s : HandleRun) (cmds : List HandleCmd) : Except Fault HandleRun :=
  run (fun s c => s >>= fun s => handleStep env s c) (.ok s) cmds

/-- Every free gets a handle that a load of its kind has returned and that is not freed yet. -/
def FreesLoaded (env : GuestEnv) (s : HandleRun) (cmds : List HandleCmd) : Prop :=
  ∀ pre c, pre ++ [c] <+: cmds → ∀ t, handleRun env s pre = .ok t →
    (∀ h, c = .tilemapfree h → h ∈ t.maps) ∧ (∀ h, c = .tilegfxfree h → h ∈ t.gfxs)

/-- The books balance: every free succeeded, and the blocks that the commands hold are the handles loaded and not
    yet freed. -/
def HandleRun.Balanced (s : HandleRun) : Prop :=
  s.freed = true ∧ ∀ h, h ∈ s.state.live ↔ h ∈ s.maps ∨ h ∈ s.gfxs

/-- Before the first command. -/
def HandleRun.start (cheat : PeriCheat) (mem : Mem) : HandleRun := ⟨⟨cheat, mem, []⟩, [], [], true⟩

/-! ## One command -/

/-- A freeing command fails and leaves the machine as it is: its name runs a loader. -/
theorem mbCall_free {c : HandleCmd} (hc : c.IsFree) (s : HandleState) :
    mbCall env (mybasicextGfxInstall []) c.name c.args s = .ok ⟨.err, none, s⟩ := by
  cases c with
  | tilemapload filename layername => exact hc.elim
  | tilegfxload filename => exact hc.elim
  | tilemapfree handle => rfl
  | tilegfxfree handle => rfl

theorem mbCall_tilemapload (filename layername : UInt32) (s : HandleState) :
    mbCall env (mybasicextGfxInstall []) .TILEMAPLOAD [.string filename, .string layername] s
      = (do
        let o ← loadTilemap env.host env.malloc s.cheat s.mem filename layername
        return pushLoaded s o) := rfl

theorem mbCall_tilegfxload (filename : UInt32) (s : HandleState) :
    mbCall env (mybasicextGfxInstall []) .TILEGFXLOAD [.string filename] s
      = (do
        let o ← loadTilegfx env.host env.malloc s.cheat s.mem filename
        return pushLoaded s o) := rfl

/-- A load that returns a handle holds its block, and one that does not holds none. -/
theorem pushLoaded_live (s : HandleState) (o : Loaded) :
    (pushLoaded s o).state.live = (pushLoaded s o).handle ++ s.live := by
  unfold pushLoaded MbResult.handle
  by_cases h0 : o.ret = 0
  · simp only [h0, if_true, List.nil_append]
  · simp only [h0, if_false, List.singleton_append]

theorem handleStep_free {s t : HandleRun} {c : HandleCmd} (hc : c.IsFree) (h : handleStep env s c = .ok t) :
    t.freed = false := by
  unfold handleStep at h
  rw [mbCall_free hc, ok_bind] at h
  cases h
  cases c with
  | tilemapload filename layername => exact hc.elim
  | tilegfxload filename => exact hc.elim
  | tilemapfree handle => exact Bool.and_false _
  | tilegfxfree handle => exact Bool.and_false _

/-- A load pushes what the loader has returned. -/
theorem mbCall_load {s : HandleState} {c : HandleCmd} (hc : ¬ c.IsFree) {o : MbResult}
    (h : mbCall env (mybasicextGfxInstall []) c.name c.args s = .ok o) : ∃ l, o = pushLoaded s l := by
  cases c with
  | tilemapload filename layername =>
      simp only [HandleCmd.name, HandleCmd.args] at h
      rw [mbCall_tilemapload] at h
      obtain ⟨l, -, h⟩ := bind_eq_ok.mp h
      exact ⟨l, (Except.ok.inj h).symm⟩
  | tilegfxload filename =>
      simp only [HandleCmd.name, HandleCmd.args] at h
      rw [mbCall_tilegfxload] at h
      obtain ⟨l, -, h⟩ := bind_eq_ok.mp h
      exact ⟨l, (Except.ok.inj h).symm⟩
  | tilemapfree handle => exact absurd trivial hc
  | tilegfxfree handle => exact absurd trivial hc

/-- A load keeps the books balanced. -/
theorem handleStep_load {s t : HandleRun} {c : HandleCmd} (hc : ¬ c.IsFree) (h : handleStep env s c = .ok t)
    (hs : s.Balanced) : t.Balanced := by
  obtain ⟨hfreed, hlive⟩ := hs
  unfold handleStep at h
  obtain ⟨o, ho, h⟩ := bind_eq_ok.mp h
  obtain ⟨l, rfl⟩ := mbCall_load hc ho
  cases h
  cases c with
  | tilemapload filename layername =>
      refine ⟨hfreed, fun a => ?_⟩
      simp only [HandleRun.enter, pushLoaded_live, List.mem_append, hlive]
      tauto
  | tilegfxload filename =>
      refine ⟨hfreed, fun a => ?_⟩
      simp only [HandleRun.enter, pushLoaded_live, List.mem_append, hlive]
      tauto
  | tilemapfree handle => exact absurd trivial hc
  | tilegfxfree handle => exact absurd trivial hc

/-! ## Runs -/

theorem handleRun_append (s : HandleRun) (as bs : List HandleCmd) :
    handleRun env s (as ++ bs) = (handleRun env s as >>= fun t => handleRun env t bs) := by
  unfold handleRun
  rw [run_append]
  cases run (fun s c => s >>= fun s => handleStep env s c) (.ok s) as with
  | ok t => rfl
  | error f =>
      -- after a fault no command does anything
      rw [error_bind]
      induction bs with
      | nil => rfl
      | cons c bs ih => exact ih

theorem handleRun_snoc (s : HandleRun) (as : List HandleCmd) (c : HandleCmd) :
    handleRun env s (as ++ [c]) = (handleRun env s as >>= fun t => handleStep env t c) :=
  handleRun_append s as [c]

/-- Loads keep the books balanced. -/
theorem handleRun_loads {s t : HandleRun} {cmds : List HandleCmd} (hc : ∀ c ∈ cmds, ¬ c.IsFree)
    (h : handleRun env s cmds = .ok t) (hs : s.Balanced) : t.Balanced := by
  -- on the commands, from the last one
  induction cmds using List.reverseRecOn generalizing t with
  | nil =>
      cases h
      exact hs
  | append_singleton cmds c ih =>
      rw [handleRun_snoc] at h
      obtain ⟨u, hu, h⟩ := bind_eq_ok.mp h
      have hbal := ih (fun c hc' => hc c (List.mem_append_left _ hc')) hu
      exact handleStep_load (hc c (List.mem_append_right _ (List.mem_singleton_self c))) h hbal

/-- **Loads and frees balance exactly in runs that free nothing.** For every host, every heap and every sequence of
    the four commands that the emulator survives. -/
theorem loads_balance_iff (env : GuestEnv) (cheat : PeriCheat) (mem : Mem) {cmds : List HandleCmd} {u : HandleRun}
    (hrun : handleRun env (.start cheat mem) cmds = .ok u) :
    (∀ pre t, pre <+: cmds → handleRun env (.start cheat mem) pre = .ok t → t.Balanced) ↔
      ∀ c ∈ cmds, ¬ c.IsFree := by
  constructor
  · intro hall c hc hfree
    obtain ⟨as, bs, rfl⟩ := List.append_of_mem hc
    -- the run gets past this free, which has failed by then
    rw [show as ++ c :: bs = (as ++ [c]) ++ bs by simp, handleRun_append] at hrun
    obtain ⟨t, ht, -⟩ := bind_eq_ok.mp hrun
    have hbal := hall (as ++ [c]) t ⟨bs, by simp⟩ ht
    rw [handleRun_snoc] at ht
    obtain ⟨s, -, hstep⟩ := bind_eq_ok.mp ht
    have hfailed := handleStep_free hfree hstep
    rw [hbal.1] at hfailed
    cases hfailed
  · intro hloads pre t hpre ht
    refine handleRun_loads (fun c hc => hloads c (hpre.subset hc)) ht ?_
    refine ⟨rfl, ?_⟩
    intro h
    simp [HandleRun.start]

/-! ## Two pictures -/

/-- A host with a red gradient of one tile, whatever the name. -/
def tileHost : Host where
  gd := {
    File := Unit, Image := Unit, fopen := fun _ => some (), imageCreateFromPng := fun _ => some ()
    imageSX := fun _ => 8, imageSY := fun _ => 8, imageGetTrueColorPixel := fun _ x y => x + y
    trueColorGetRed := fun c => UInt8.ofNat (16 * c.toNat), trueColorGetGreen := fun _ => 0
    trueColorGetBlue := fun _ => 0 }
  xml := treeXml (fun _ => none)
  file := fun _ => none

/-- A heap with two blocks, at 3 and at 4 MiB. The byte before the first one is 0 while it is free. -/
def tileMalloc : Malloc := fun mem n =>
  if 0x80000 < n then (0, mem)
  else if mem 0x2fffff = some 0 then (0x300000, mem.set 0x2fffff 1)
  else (0x400000, mem)

def tileEnv : GuestEnv where
  host := tileHost
  malloc := tileMalloc
  free := fun mem _ => mem
  other := fun _ s => mbFail s

/-- The machine that loads pictures. -/
def tileStart : HandleRun := .start ⟨0, 0⟩ (Ram.fill 0).mem

theorem tileStart_load : ∃ u, handleRun tileEnv tileStart [.tilegfxload 0x2000] = .ok u ∧
    u.gfxs = [0x300000] :=
  ok_of_map (f := fun u : HandleRun => u.gfxs) (by decide +kernel)

theorem tileStart_free : ∃ u, handleRun tileEnv tileStart [.tilegfxload 0x2000, .tilegfxfree 0x300000] = .ok u ∧
    u.freed = false :=
  ok_of_map (f := fun u : HandleRun => u.freed) (by decide +kernel)

/-- The picture loaded twice: two blocks, both of them handles. -/
theorem loads_balance_iff_tiles : ∃ u, handleRun tileEnv tileStart [.tilegfxload 0x2000, .tilegfxload 0x2000] = .ok u ∧
    (u.state.live, u.gfxs) = ([0x400000, 0x300000], [0x400000, 0x300000]) ∧
    ((∀ pre t, pre <+: [HandleCmd.tilegfxload 0x2000, .tilegfxload 0x2000] →
        handleRun tileEnv tileStart pre = .ok t → t.Balanced) ↔
      ∀ c ∈ [HandleCmd.tilegfxload 0x2000, .tilegfxload 0x2000], ¬ c.IsFree) := by
  obtain ⟨u, hrun, hblocks⟩ := @ok_of_map _ _ _ (handleRun tileEnv tileStart [.tilegfxload 0x2000, .tilegfxload 0x2000])
    (fun u : HandleRun => (u.state.live, u.gfxs)) ([0x400000, 0x300000], [0x400000, 0x300000]) (by decide +kernel)
  exact ⟨u, hrun, hblocks, loads_balance_iff tileEnv ⟨0, 0⟩ (Ram.fill 0).mem hrun⟩

/-- Freeing the picture that was just loaded fails. -/
theorem free_of_loaded_fails :
    ¬ ∀ (env : GuestEnv) (cheat : PeriCheat) (mem : Mem) (cmds : List HandleCmd) (u : HandleRun),
      handleRun env (.start cheat mem) cmds = .ok u → FreesLoaded env (.start cheat mem) cmds →
      ∀ pre t, pre <+: cmds → handleRun env (.start cheat mem) pre = .ok t → t.Balanced := by
  intro hall
  obtain ⟨u₁, hload, hgfxs⟩ := tileStart_load
  obtain ⟨u₂, hfree, hfailed⟩ := tileStart_free
  have hvalid : FreesLoaded tileEnv tileStart [.tilegfxload 0x2000, .tilegfxfree 0x300000] := by
    intro pre c hpre t ht
    obtain ⟨suf, hsuf⟩ := hpre
    rcases pre with _ | ⟨a, _ | ⟨b, pre⟩⟩
    · -- the first command is the load
      cases hsuf
      refine ⟨?_, ?_⟩
      · intro h hc
        cases hc
      · intro h hc
        cases hc
    · cases hsuf
      rw [hload] at ht
      cases ht
      refine ⟨?_, ?_⟩
      · intro h hc
        cases hc
      · intro h hc
        cases hc
        rw [hgfxs]
        exact List.mem_singleton_self _
    · have hlen := congrArg List.length hsuf
      simp only [List.length_append, List.length_cons, List.length_nil] at hlen
      omega
  have hbal := hall tileEnv ⟨0, 0⟩ (Ram.fill 0).mem _ _ hfree hvalid _ _ (List.prefix_refl _) hfree
  exact Bool.false_ne_true (hfailed.symm.trans hbal.1)

end HadBadge
