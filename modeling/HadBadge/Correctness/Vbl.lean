import Mathlib.Data.List.Chain
import HadBadge.Emu.Render
import HadBadge.Lib.Run
import HadBadge.Sdk.GfxDriver

/-!
# `Correctness.Vbl`: `gfx_wait_vbl` counts frames

The emulator renders lines 0 to 239 over and over, each line setting the counter that the guest polls. The
two interleave in any order. Time is the number of lines rendered so far, so line `y` of a frame is current
at the times congruent to `y + 1` modulo 240.

## Contents
- **The machine.** `VblState`, `vblStep`.
- **Invariant.** The counter is the time's line; the polls of a call in progress are ordered around the
  current line (`VblInv`, `VblInv.step`).
- **Main result.** `wait_vbl_counts_frames`.
-/

namespace HadBadge

open Lib

/-! ## The machine -/

/-- A call of `gfx_wait_vbl`: the times of its start, of its polls and of its return. -/
structure VblCall where
  start : Nat
  polls : List Nat
  ret : Nat
  deriving DecidableEq, Repr

/-- The graphics device, the emulator's next line and the guest. -/
structure VblState where
  g : PeriGfx
  /-- the line that the loop of `mach_setup` renders next -/
  y : Nat
  /-- lines rendered so far -/
  now : Nat
  phase : VblPhase
  /-- start of the call in progress -/
  start : Nat
  /-- polls of the call in progress, oldest first -/
  polls : List Nat
  /-- calls that have returned, oldest first -/
  calls : List VblCall

/-- The start of the emulator, the guest being outside `gfx_wait_vbl`. -/
def vblStart : VblState := ⟨periGfxInit, 0, 0, .idle, 0, [], []⟩

/-- What the emulator and the guest do. -/
inductive VblEvent where
  /-- the next line is rendered -/
  | render
  /-- the guest calls `gfx_wait_vbl` -/
  | call
  /-- the guest reads `GFX_ST_SCANLINE_REG` -/
  | poll
  /-- the guest writes a graphics register -/
  | write (offset val : UInt32)

/-- One event. A call while one is in progress, or a poll outside of a call, means nothing here. -/
def vblStep (s : VblState) : VblEvent → VblState
  | .render =>
      { s with
        g := { s.g with lastScanline := s.y }
        y := if s.y + 1 = 240 then 0 else s.y + 1
        now := s.now + 1 }
  | .call =>
      if s.phase = .idle then { s with phase := .wait238, start := s.now, polls := [] } else s
  | .poll =>
      if s.phase = .idle then s
      else
        let phase := gfxWaitVblPoll (gfxReadFn s.g gfxStScanlineReg) s.phase
        let polls := s.polls ++ [s.now]
        if phase = .idle then { s with phase := phase, calls := s.calls ++ [⟨s.start, polls, s.now⟩] }
        else { s with phase := phase, polls := polls }
  | .write offset val => { s with g := gfxWriteFn s.g offset val }

/-- A `render` event leaves the registers that `peri_gfx_render_scanline` leaves. -/
theorem vblStep_render {s : VblState} {fuel : Nat} {scanline : Scanline} {surf : Surface} {mem : Mem}
    {o : Rendered} (h : periGfxRenderScanline fuel scanline surf s.y s.g mem = .ok o) :
    (vblStep s .render).g = o.g :=
  (periGfxRenderScanline_g h).symm

/-! ## Invariant -/

/-- The counter at time `t`: the line rendered last, 0 before the first. -/
def lineAt (t : Nat) : Nat := if t = 0 then 0 else (t - 1) % 240

theorem lineAt_eq_238 {t : Nat} : lineAt t = 238 ↔ t % 240 = 239 := by
  unfold lineAt; split <;> omega

theorem lineAt_eq_239 {t : Nat} : lineAt t = 239 ↔ 0 < t ∧ t % 240 = 0 := by
  unfold lineAt; split <;> omega

theorem lineAt_lt (t : Nat) : lineAt t < 240 := by
  unfold lineAt; split <;> omega

/-- Two calls in a row return a positive number of whole frames apart. -/
def FramesApart (a b : VblCall) : Prop := ∃ k, 0 < k ∧ b.ret = a.ret + 240 * k

/-- A call that starts in time and polls on lines 238 and 239 of the next frame returns in that frame. -/
def PromptAfter (a b : VblCall) : Prop :=
  b.start < a.ret + 240 → a.ret + 239 ∈ b.polls → a.ret + 240 ∈ b.polls → b.ret = a.ret + 240

/-- The polls of a call in progress: none on line 239 after one on line 238, and none on line 238 at all
    while the first loop runs. -/
structure Waiting (s : VblState) : Prop where
  past : ∀ p ∈ s.polls, p ≤ s.now
  after238 : ∀ q ∈ s.polls, ∀ p ∈ s.polls, q % 240 = 239 → p % 240 = 0 → p ≤ q
  first : s.phase = .wait238 → ∀ q ∈ s.polls, q % 240 ≠ 239

/-- The invariant of the machine. -/
structure VblInv (s : VblState) : Prop where
  line : s.y = s.now % 240
  counter : s.g.lastScanline = lineAt s.now
  waiting : s.phase ≠ .idle → Waiting s
  /-- the last return is on line 239, and past once the second loop runs -/
  last : ∀ a ∈ s.calls.getLast?, 0 < a.ret ∧ a.ret % 240 = 0 ∧ a.ret ≤ s.now ∧
    (s.phase = .wait239 → a.ret < s.now)
  chain : s.calls.IsChain (fun a b => FramesApart a b ∧ PromptAfter a b)

variable {s : VblState}

/-- The value that a poll reads. -/
theorem poll_reads (h : VblInv s) : gfxReadFn s.g gfxStScanlineReg = UInt32.ofNat (lineAt s.now) := by
  have hlt := lineAt_lt s.now
  rw [gfxReadFn_scanline, h.counter, u32_natCast, Nat.mod_eq_of_lt (by omega)]

theorem reads_eq_iff {t n : Nat} (hn : n < 4294967296) : UInt32.ofNat (lineAt t) = UInt32.ofNat n ↔ lineAt t = n := by
  have hlt := lineAt_lt t
  rw [← UInt32.toNat_inj, UInt32.toNat_ofNat_of_lt' (by simp only [UInt32.size]; omega),
    UInt32.toNat_ofNat_of_lt' hn]

theorem vblInv_render (h : VblInv s) : VblInv (vblStep s .render) := by
  -- time moves on, so bounds by `now` only get weaker
  refine ⟨?_, ?_, ?_, ?_, h.chain⟩
  · have := h.line
    simp only [vblStep]
    split <;> omega
  · simp only [vblStep, lineAt, h.line]
    simp
  · intro hp
    obtain ⟨hpast, hafter, hfirst⟩ := h.waiting hp
    exact ⟨fun p hp => Nat.le_succ_of_le (hpast p hp), hafter, hfirst⟩
  · intro a ha
    obtain ⟨h0, h1, h2, -⟩ := h.last a ha
    exact ⟨h0, h1, Nat.le_succ_of_le h2, fun _ => Nat.lt_succ_of_le h2⟩

theorem vblInv_call (h : VblInv s) : VblInv (vblStep s .call) := by
  unfold vblStep
  by_cases hp : s.phase = .idle
  · simp only [hp, if_true]
    refine ⟨h.line, h.counter, ?_, ?_, h.chain⟩
    · intro _
      refine ⟨?_, ?_, ?_⟩ <;> simp
    · intro a ha
      obtain ⟨h0, h1, h2, -⟩ := h.last a ha
      exact ⟨h0, h1, h2, fun he => by cases he⟩
  · simp only [hp, if_false]
    exact h

theorem vblInv_write (h : VblInv s) (offset val : UInt32) : VblInv (vblStep s (.write offset val)) :=
  ⟨h.line, (gfxWriteFn_lastScanline s.g offset val).trans h.counter,
    fun hp => ⟨(h.waiting hp).past, (h.waiting hp).after238, (h.waiting hp).first⟩, h.last, h.chain⟩

/-- One poll of each loop, in terms of the time. -/
theorem poll_wait238 (h : VblInv s) : gfxWaitVblPoll (gfxReadFn s.g gfxStScanlineReg) .wait238
    = if s.now % 240 = 239 then .wait239 else .wait238 := by
  have hread : UInt32.ofNat (lineAt s.now) = 238 ↔ s.now % 240 = 239 :=
    (reads_eq_iff (n := 238) (by decide)).trans lineAt_eq_238
  rw [poll_reads h, gfxWaitVblPoll]
  by_cases hline : s.now % 240 = 239
  · rw [if_pos hline, if_neg (not_not.mpr (hread.mpr hline))]
  · rw [if_neg hline, if_pos (fun he => hline (hread.mp he))]

theorem poll_wait239 (h : VblInv s) : gfxWaitVblPoll (gfxReadFn s.g gfxStScanlineReg) .wait239
    = if 0 < s.now ∧ s.now % 240 = 0 then .idle else .wait239 := by
  have hread : UInt32.ofNat (lineAt s.now) = 239 ↔ 0 < s.now ∧ s.now % 240 = 0 :=
    (reads_eq_iff (n := 239) (by decide)).trans lineAt_eq_239
  rw [poll_reads h, gfxWaitVblPoll]
  by_cases hline : 0 < s.now ∧ s.now % 240 = 0
  · rw [if_pos hline, if_neg (not_not.mpr (hread.mpr hline))]
  · rw [if_neg hline, if_pos (fun he => hline (hread.mp he))]

/-- A poll that does not end the call keeps the order of the polls. -/
theorem waiting_poll (hw : Waiting s) (hpast : s.phase = .wait238 ∨ ¬ (0 < s.now ∧ s.now % 240 = 0))
    {phase : VblPhase} (hphase : phase = .wait238 → s.phase = .wait238 ∧ s.now % 240 ≠ 239) :
    Waiting { s with phase := phase, polls := s.polls ++ [s.now] } := by
  obtain ⟨hle, hafter, hfirst⟩ := hw
  refine ⟨?_, ?_, ?_⟩
  · intro p hp
    rcases List.mem_append.mp hp with hp | hp
    · exact hle p hp
    · exact le_of_eq (List.mem_singleton.mp hp)
  · intro q hq p hp hq239 hp0
    rcases List.mem_append.mp hp with hpo | hpn
    · rcases List.mem_append.mp hq with hqo | hqn
      · exact hafter q hqo p hpo hq239 hp0
      · rw [List.mem_singleton.mp hqn]
        exact hle p hpo
    · obtain rfl := List.mem_singleton.mp hpn
      rcases List.mem_append.mp hq with hqo | hqn
      · -- an earlier poll on line 238 ended the first loop, and this poll does not end the second
        rcases hpast with hp238 | hno
        · exact absurd hq239 (hfirst hp238 q hqo)
        · omega
      · exact le_of_eq (List.mem_singleton.mp hqn).symm
  · intro h238 q hq
    obtain ⟨hs238, hne⟩ := hphase h238
    rcases List.mem_append.mp hq with hqo | hqn
    · exact hfirst hs238 q hqo
    · rw [List.mem_singleton.mp hqn]
      exact hne

/-- The call that returns now is whole frames after the one before, and prompt. -/
theorem returns_after (hw : Waiting s) {a : VblCall} (ha0 : a.ret % 240 = 0) (hlt : a.ret < s.now)
    (hnow : s.now % 240 = 0) :
    FramesApart a ⟨s.start, s.polls ++ [s.now], s.now⟩ ∧ PromptAfter a ⟨s.start, s.polls ++ [s.now], s.now⟩ := by
  refine ⟨⟨(s.now - a.ret) / 240, by omega, by dsimp only; omega⟩, ?_⟩
  intro _ h238 h239
  -- had line 239 been polled before, the call would have returned then: the poll is this one
  rcases List.mem_append.mp h239 with h239 | h239
  · rcases List.mem_append.mp h238 with h238 | h238
    · have := hw.after238 _ h238 _ h239 (by omega) (by omega)
      omega
    · have := List.mem_singleton.mp h238
      omega
  · exact (List.mem_singleton.mp h239).symm

theorem vblInv_poll (h : VblInv s) : VblInv (vblStep s .poll) := by
  -- outside of a call, in the first loop, in the second loop
  rcases hp : s.phase with _ | _ | _
  · simp only [vblStep, hp, if_true]
    exact h
  · have hw := h.waiting (by rw [hp]; simp)
    simp only [vblStep, poll_wait238 h, hp, reduceCtorEq, if_false]
    by_cases hline : s.now % 240 = 239
    · simp only [hline, if_true, reduceCtorEq, if_false]
      refine ⟨h.line, h.counter, fun _ => waiting_poll hw (.inl hp) (fun he => by cases he), ?_, h.chain⟩
      intro a ha
      obtain ⟨h0, h1, h2, -⟩ := h.last a ha
      exact ⟨h0, h1, h2, fun _ => by dsimp only; omega⟩
    · simp only [hline, if_false, reduceCtorEq]
      refine ⟨h.line, h.counter, fun _ => waiting_poll hw (.inl hp) (fun _ => ⟨hp, hline⟩), ?_, h.chain⟩
      intro a ha
      obtain ⟨h0, h1, h2, -⟩ := h.last a ha
      exact ⟨h0, h1, h2, fun he => by cases he⟩
  · have hw := h.waiting (by rw [hp]; simp)
    simp only [vblStep, poll_wait239 h, hp, reduceCtorEq, if_false]
    by_cases hline : 0 < s.now ∧ s.now % 240 = 0
    · simp only [hline, and_self, if_true]
      refine ⟨h.line, h.counter, fun he => absurd rfl he, ?_, ?_⟩
      -- the call that returns is the last one now
      · intro a ha
        rw [List.getLast?_concat, Option.mem_some_iff] at ha
        subst ha
        exact ⟨hline.1, hline.2, le_refl _, fun he => by cases he⟩
      · refine List.isChain_append.mpr ⟨h.chain, List.isChain_singleton _, ?_⟩
        intro a ha b hb
        obtain ⟨-, h1, -, h3⟩ := h.last a ha
        obtain rfl := Option.mem_some_iff.mp hb
        exact returns_after hw h1 (h3 hp) hline.2
    · simp only [hline, if_false, reduceCtorEq]
      refine ⟨h.line, h.counter, fun _ => waiting_poll hw (.inr hline) (fun he => by cases he), ?_, h.chain⟩
      intro a ha
      obtain ⟨h0, h1, h2, h3⟩ := h.last a ha
      exact ⟨h0, h1, h2, fun _ => h3 hp⟩

/-- **One event keeps the invariant.** -/
theorem VblInv.step (s : VblState) (e : VblEvent) (h : VblInv s) : VblInv (vblStep s e) := by
  cases e with
  | render => exact vblInv_render h
  | call => exact vblInv_call h
  | poll => exact vblInv_poll h
  | write offset val => exact vblInv_write h offset val

theorem vblInv_start : VblInv vblStart :=
  ⟨rfl, rfl, fun hp => absurd rfl hp, fun _ ha => absurd ha (by simp [vblStart]), List.isChain_nil⟩

/-- **`gfx_wait_vbl` counts frames.** In every interleaving of renders, polls, calls and register writes: two
    calls that return one after the other do so a positive number of whole frames apart; it is exactly one
    frame when the second starts before line 238 of the next frame stops being current and polls at least
    once on that line and at least once on line 239; a call that has polled on both is not still waiting, and
    nor is any call, the first one too, that has polled on line 238 and later on line 239. -/
theorem wait_vbl_counts_frames (evs : List VblEvent) :
    (run vblStep vblStart evs).calls.IsChain (fun a b =>
      (∃ k, 0 < k ∧ b.ret = a.ret + 240 * k) ∧
      (b.start < a.ret + 240 → a.ret + 239 ∈ b.polls → a.ret + 240 ∈ b.polls → b.ret = a.ret + 240)) ∧
    ((run vblStep vblStart evs).phase ≠ .idle → ∀ a ∈ (run vblStep vblStart evs).calls.getLast?,
      ¬ (a.ret + 239 ∈ (run vblStep vblStart evs).polls ∧ a.ret + 240 ∈ (run vblStep vblStart evs).polls)) ∧
    ((run vblStep vblStart evs).phase ≠ .idle → ∀ q ∈ (run vblStep vblStart evs).polls,
      ∀ p ∈ (run vblStep vblStart evs).polls, lineAt q = 238 → lineAt p = 239 → ¬ q < p) := by
  have h := run_inv_all VblInv.step evs vblInv_start
  refine ⟨h.chain, ?_, ?_⟩
  · rintro hp a ha ⟨h238, h239⟩
    obtain ⟨-, h0, -, -⟩ := h.last a ha
    -- a call that still waits has no poll on line 239 after one on line 238
    have := (h.waiting hp).after238 _ h238 _ h239 (by omega) (by omega)
    omega
  · intro hp q hq p hpolled h238 h239
    have hle := (h.waiting hp).after238 q hq p hpolled (lineAt_eq_238.mp h238) (lineAt_eq_239.mp h239).2
    exact Nat.not_lt.mpr hle

/-- The guest polls on lines 238 and 239 of two frames, and returns from both calls. -/
example : ((run vblStep vblStart (List.replicate 239 .render ++ [.call, .poll, .render, .poll, .call] ++
    List.replicate 239 .render ++ [.poll, .render, .poll])).calls.map VblCall.ret) = [240, 480] := by
  decide +kernel

end HadBadge
