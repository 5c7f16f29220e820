import HadBadge.Emu.SdlGlue

/-!
# `Correctness.Buttons`: the button word and the keys

The word that `gfx_get_buttons` should return is a function of the events so far (`heldWord`), one bit for each
arrow key. An event of an arrow key moves the word of the code as it moves this one. An event of any other key
merges the undetermined local into it (`tracks_step`), so the word follows the keys exactly as long as no such
local changes a bit.

## Contents
- **What the word should be.** `latest`, `Tracks`, `heldWord`, and that these say the same (`tracks_iff`).
- **One event.** `heldWord_append`, `Harmless`, `tracks_step`.
- **Runs.** `buttons_track_iff`.
-/

namespace HadBadge

open Lib

/-! ## What the word should be -/

/-- Whether an event presses or releases the key `k`. -/
def SdlEvent.edge (k : SdlKeycode) : SdlEvent → Option Bool
  | .keydown sym => if sym = k then some true else none
  | .keyup sym => if sym = k then some false else none
  | _ => none

/-- What the latest event of the key `k` was. -/
def latest (k : SdlKeycode) (es : List SdlEvent) : Option Bool := lastSome (SdlEvent.edge k) es

@[simp] theorem latest_append (k : SdlKeycode) (es : List SdlEvent) (e : SdlEvent) :
    latest k (es ++ [e]) = (e.edge k).or (latest k es) :=
  lastSome_append_singleton (SdlEvent.edge k) es e

/-- The word has the bits of the arrow keys whose latest event was a press, and no others. -/
structure Tracks (word : Int) (es : List SdlEvent) : Prop where
  up : BitVec.ofInt 32 word &&& buttonUp ≠ 0 ↔ latest .up es = some true
  down : BitVec.ofInt 32 word &&& buttonDown ≠ 0 ↔ latest .down es = some true
  left : BitVec.ofInt 32 word &&& buttonLeft ≠ 0 ↔ latest .left es = some true
  right : BitVec.ofInt 32 word &&& buttonRight ≠ 0 ↔ latest .right es = some true
  rest : BitVec.ofInt 32 word &&& ~~~ (buttonUp ||| buttonDown ||| buttonLeft ||| buttonRight) = 0

/-- The word of four keys. -/
def arrowWord (u d l r : Bool) : BitVec 32 :=
  (if u then buttonUp else 0) ||| (if d then buttonDown else 0) ||| (if l then buttonLeft else 0) |||
    (if r then buttonRight else 0)

/-- The word of the arrow keys that are held. -/
def heldWord (es : List SdlEvent) : BitVec 32 :=
  arrowWord (latest .up es = some true) (latest .down es = some true) (latest .left es = some true)
    (latest .right es = some true)

/-- A word has a bit or not. -/
theorem and_button_ne_iff (b : BitVec 32) {i : Nat} (hi : i < 32) :
    b &&& BitVec.twoPow 32 i ≠ 0 ↔ b.getLsbD i = true := by
  have hne : BitVec.twoPow 32 i ≠ 0 := by
    intro h0
    have hbit := congrArg (fun v => v.getLsbD i) h0
    simp [hi] at hbit
  rw [BitVec.and_twoPow]
  by_cases hb : b.getLsbD i = true
  · rw [if_pos hb]
    exact iff_of_true hne hb
  · rw [if_neg hb]
    exact iff_of_false (fun h => h rfl) hb

theorem getLsbD_of_iff {b : BitVec 32} {i : Nat} {P : Prop} [Decidable P] (hi : i < 32)
    (h : b &&& BitVec.twoPow 32 i ≠ 0 ↔ P) : b.getLsbD i = decide P := by
  rw [Bool.eq_iff_iff, decide_eq_true_iff, ← h]
  exact (and_button_ne_iff b hi).symm

/-- A word without other bits is that of the four keys it has the bits of. -/
theorem eq_arrowWord {b : BitVec 32}
    (hrest : b &&& ~~~ (buttonUp ||| buttonDown ||| buttonLeft ||| buttonRight) = 0) :
    b = arrowWord (b.getLsbD 0) (b.getLsbD 1) (b.getLsbD 2) (b.getLsbD 3) := by
  have hsplit : b = (b &&& buttonUp) ||| (b &&& buttonDown) ||| (b &&& buttonLeft) ||| (b &&& buttonRight) |||
      (b &&& ~~~ (buttonUp ||| buttonDown ||| buttonLeft ||| buttonRight)) := by
    generalize buttonUp = u, buttonDown = d, buttonLeft = l, buttonRight = r
    ext i hi
    simp only [BitVec.getElem_or, BitVec.getElem_and, BitVec.getElem_not]
    cases b[i] <;> cases u[i] <;> cases d[i] <;> cases l[i] <;> cases r[i] <;> rfl
  rw [hrest, show (0 : BitVec 32) = 0#32 from rfl, BitVec.or_zero] at hsplit
  rw [arrowWord, show buttonUp = BitVec.twoPow 32 0 from rfl, show buttonDown = BitVec.twoPow 32 1 from rfl,
    show buttonLeft = BitVec.twoPow 32 2 from rfl, show buttonRight = BitVec.twoPow 32 3 from rfl,
    show (0 : BitVec 32) = 0#32 from rfl, ← BitVec.and_twoPow b 0, ← BitVec.and_twoPow b 1,
    ← BitVec.and_twoPow b 2, ← BitVec.and_twoPow b 3]
  exact hsplit

/-- The bits of the word of four keys. -/
theorem arrowWord_bits (u d l r : Bool) :
    (arrowWord u d l r &&& buttonUp ≠ 0 ↔ u = true) ∧ (arrowWord u d l r &&& buttonDown ≠ 0 ↔ d = true) ∧
      (arrowWord u d l r &&& buttonLeft ≠ 0 ↔ l = true) ∧ (arrowWord u d l r &&& buttonRight ≠ 0 ↔ r = true) ∧
      arrowWord u d l r &&& ~~~ (buttonUp ||| buttonDown ||| buttonLeft ||| buttonRight) = 0 := by
  cases u <;> cases d <;> cases l <;> cases r <;> decide

/-- The word that `gfx_get_buttons` should return. -/
theorem tracks_iff {b : BitVec 32} {es : List SdlEvent} : Tracks (gfxGetButtons b) es ↔ b = heldWord es := by
  have hb : BitVec.ofInt 32 (gfxGetButtons b) = b := BitVec.ofInt_toInt
  constructor
  · intro ht
    have hup := ht.up
    have hdown := ht.down
    have hleft := ht.left
    have hright := ht.right
    have hrest := ht.rest
    rw [hb] at hup hdown hleft hright hrest
    have h0 := getLsbD_of_iff (by decide) hup
    have h1 := getLsbD_of_iff (by decide) hdown
    have h2 := getLsbD_of_iff (by decide) hleft
    have h3 := getLsbD_of_iff (by decide) hright
    rw [heldWord, ← h0, ← h1, ← h2, ← h3]
    exact eq_arrowWord hrest
  · intro h
    obtain ⟨hup, hdown, hleft, hright, hrest⟩ := arrowWord_bits (latest .up es = some true)
      (latest .down es = some true) (latest .left es = some true) (latest .right es = some true)
    rw [decide_eq_true_eq] at hup hdown hleft hright
    rw [← heldWord, ← h] at hup hdown hleft hright hrest
    exact ⟨by rwa [hb], by rwa [hb], by rwa [hb], by rwa [hb], by rwa [hb]⟩

/-! ## One event -/

/-- The keys that `gfx_poll_event` assigns a mask for. -/
def SdlKeycode.IsArrow (sym : SdlKeycode) : Prop := sym = .up ∨ sym = .down ∨ sym = .left ∨ sym = .right

/-- The undetermined mask of an event changes nothing in the word. -/
def Harmless (buttons : BitVec 32) (p : Polled) : Prop :=
  match p.event with
  | .keydown sym => sym.IsArrow ∨ buttons ||| p.mask = buttons
  | .keyup sym => sym.IsArrow ∨ buttons &&& ~~~ p.mask = buttons
  | _ => True

/-- Pressing one of four keys. -/
theorem arrowWord_or (u d l r : Bool) :
    arrowWord u d l r ||| buttonUp = arrowWord true d l r ∧
      arrowWord u d l r ||| buttonDown = arrowWord u true l r ∧
      arrowWord u d l r ||| buttonLeft = arrowWord u d true r ∧
      arrowWord u d l r ||| buttonRight = arrowWord u d l true := by
  cases u <;> cases d <;> cases l <;> cases r <;> decide

/-- Releasing one of four keys. -/
theorem arrowWord_andNot (u d l r : Bool) :
    arrowWord u d l r &&& ~~~ buttonUp = arrowWord false d l r ∧
      arrowWord u d l r &&& ~~~ buttonDown = arrowWord u false l r ∧
      arrowWord u d l r &&& ~~~ buttonLeft = arrowWord u d false r ∧
      arrowWord u d l r &&& ~~~ buttonRight = arrowWord u d l false := by
  cases u <;> cases d <;> cases l <;> cases r <;> decide

/-- The word after an event of an arrow key. -/
theorem heldWord_arrow {sym : SdlKeycode} (hs : sym.IsArrow) (es : List SdlEvent) (mask : BitVec 32) :
    heldWord (es ++ [.keydown sym]) = heldWord es ||| keyMask sym mask ∧
      heldWord (es ++ [.keyup sym]) = heldWord es &&& ~~~ keyMask sym mask := by
  obtain ⟨ou, od, ol, or⟩ := arrowWord_or (latest .up es = some true) (latest .down es = some true)
    (latest .left es = some true) (latest .right es = some true)
  obtain ⟨nu, nd, nl, nr⟩ := arrowWord_andNot (latest .up es = some true) (latest .down es = some true)
    (latest .left es = some true) (latest .right es = some true)
  rcases hs with rfl | rfl | rfl | rfl
  · exact ⟨by simpa [heldWord, SdlEvent.edge, keyMask] using ou.symm,
      by simpa [heldWord, SdlEvent.edge, keyMask] using nu.symm⟩
  · exact ⟨by simpa [heldWord, SdlEvent.edge, keyMask] using od.symm,
      by simpa [heldWord, SdlEvent.edge, keyMask] using nd.symm⟩
  · exact ⟨by simpa [heldWord, SdlEvent.edge, keyMask] using ol.symm,
      by simpa [heldWord, SdlEvent.edge, keyMask] using nl.symm⟩
  · exact ⟨by simpa [heldWord, SdlEvent.edge, keyMask] using or.symm,
      by simpa [heldWord, SdlEvent.edge, keyMask] using nr.symm⟩

/-- Events of other keys leave the word of the arrow keys alone. -/
theorem heldWord_other {e : SdlEvent} (he : ∀ sym : SdlKeycode, sym.IsArrow → e.edge sym = none)
    (es : List SdlEvent) : heldWord (es ++ [e]) = heldWord es := by
  unfold heldWord
  rw [latest_append, latest_append, latest_append, latest_append, he .up (.inl rfl), he .down (.inr (.inl rfl)),
    he .left (.inr (.inr (.inl rfl))), he .right (.inr (.inr (.inr rfl)))]
  rfl

theorem keyMask_of_not_arrow {sym : SdlKeycode} (hs : ¬ sym.IsArrow) (mask : BitVec 32) :
    keyMask sym mask = mask := by
  unfold keyMask
  dsimp only
  rw [if_neg (fun h => hs (.inl h)), if_neg (fun h => hs (.inr (.inl h))),
    if_neg (fun h => hs (.inr (.inr (.inl h)))), if_neg (fun h => hs (.inr (.inr (.inr h))))]

/-- **One event keeps the word right exactly when its undetermined mask is harmless.** -/
theorem tracks_step {b : BitVec 32} {es : List SdlEvent} (ht : Tracks (gfxGetButtons b) es) (p : Polled) :
    Tracks (gfxGetButtons (keyStep b p)) (es ++ [p.event]) ↔ Harmless b p := by
  rw [tracks_iff] at ht ⊢
  unfold Harmless keyStep
  cases hp : p.event with
  | quit =>
      rw [heldWord_other (fun _ _ => rfl)]
      exact iff_of_true ht trivial
  | other type =>
      rw [heldWord_other (fun _ _ => rfl)]
      exact iff_of_true ht trivial
  | keydown sym =>
      by_cases hs : sym.IsArrow
      · refine iff_of_true ?_ (.inl hs)
        rw [(heldWord_arrow hs es p.mask).1, ht]
      -- the mask is what the local held; the word should not move
      · rw [heldWord_other (e := .keydown sym) (fun k hk => if_neg (fun h : sym = k => hs (h ▸ hk))), ← ht]
        simp only [keyMask_of_not_arrow hs, hs, false_or]
  | keyup sym =>
      by_cases hs : sym.IsArrow
      · refine iff_of_true ?_ (.inl hs)
        rw [(heldWord_arrow hs es p.mask).2, ht]
      · rw [heldWord_other (e := .keyup sym) (fun k hk => if_neg (fun h : sym = k => hs (h ▸ hk))), ← ht]
        simp only [keyMask_of_not_arrow hs, hs, false_or]

/-! ## Runs -/

/-- Before any event no button is held. -/
theorem tracks_nil : Tracks (gfxGetButtons 0) [] := tracks_iff.mpr rfl

/-- The word beside the events it comes from. -/
def trackStep (s : BitVec 32 × List SdlEvent) (p : Polled) : BitVec 32 × List SdlEvent :=
  (keyStep s.1 p, s.2 ++ [p.event])

theorem run_trackStep (ps : List Polled) (b : BitVec 32) (es : List SdlEvent) :
    run trackStep (b, es) ps = (run keyStep b ps, es ++ ps.map Polled.event) := by
  induction ps generalizing b es with
  | nil => simp
  | cons p ps ih =>
      rw [run_cons, trackStep, ih, run_cons, List.map_cons, List.append_assoc, List.singleton_append]

/-- The word is right after every event exactly when every undetermined mask is harmless where it is used. -/
theorem tracks_always_iff (ps : List Polled) :
    (∀ pre, pre <+: ps → Tracks (gfxGetButtons (run keyStep 0 pre)) (pre.map Polled.event)) ↔
      Steps keyStep Harmless 0 ps := by
  have h : Always trackStep (fun s => Tracks (gfxGetButtons s.1) s.2) (0, []) ps ↔
      Steps trackStep (fun s => Harmless s.1) (0, []) ps :=
    always_iff_steps (I := fun _ => True) (fun _ _ _ => trivial) (fun s p _ hs => tracks_step hs p) ps trivial
      tracks_nil
  simpa only [Always, Steps, run_trackStep, List.nil_append] using h

/-- **The button word tracks the keys exactly when every event is of an arrow key or none, or meets a local that
    changes nothing.** The events, none of which quits, may be spread over the calls in any way. -/
theorem buttons_track_iff (ps : List Polled) (hq : ∀ p ∈ ps, ¬ p.event.Quits) :
    (∀ calls : List (List Polled), calls.flatten = ps → ∀ pre, pre <+: calls →
      Tracks (gfxGetButtons (pollCalls 0 pre)) (pre.flatten.map Polled.event)) ↔
        Steps keyStep Harmless 0 ps := by
  rw [← tracks_always_iff]
  constructor
  -- the events may arrive in two calls, the first of which ends after any of them
  · rintro h pre ⟨post, rfl⟩
    have hpre := h [pre, post] (by simp) [pre] ⟨[post], rfl⟩
    rwa [pollCalls_eq (by simpa using fun p hp => hq p (List.mem_append_left post hp)), List.flatten_singleton] at hpre
  · rintro h calls rfl pre ⟨post, rfl⟩
    rw [List.flatten_append] at h hq
    rw [pollCalls_eq (fun p hp => hq p (List.mem_append_left _ hp))]
    exact h _ (List.prefix_append _ _)

/-- Releasing and pressing arrow keys around an event that is no key's. -/
theorem buttons_track_iff_arrows :
    Tracks (gfxGetButtons (pollCalls 0 [[⟨.keydown .up, 7⟩, ⟨.other 3, 9⟩], [⟨.keydown .left, 0⟩, ⟨.keyup .up, 5⟩]]))
      [.keydown .up, .other 3, .keydown .left, .keyup .up] := by
  have hsteps : Steps keyStep Harmless 0
      [⟨.keydown .up, 7⟩, ⟨.other 3, 9⟩, ⟨.keydown .left, 0⟩, ⟨.keyup .up, 5⟩] := by
    rw [steps_cons, steps_cons, steps_cons, steps_cons]
    exact ⟨.inl (.inl rfl), trivial, .inl (.inr (.inr (.inl rfl))), .inl (.inl rfl), steps_nil⟩
  exact (buttons_track_iff _ (by simp [SdlEvent.Quits])).mpr hsteps
    [[⟨.keydown .up, 7⟩, ⟨.other 3, 9⟩], [⟨.keydown .left, 0⟩, ⟨.keyup .up, 5⟩]] rfl _ (List.prefix_refl _)

/-- Pressing another key while the local happens to hold 1 reports UP as held. -/
theorem buttons_track_junk :
    ¬ Tracks (gfxGetButtons (pollCalls 0 [[⟨.keydown (.other 97), 1⟩]])) [.keydown (.other 97)] := by
  intro h
  exact absurd (h.up.mp (by decide)) (by decide)

end HadBadge
