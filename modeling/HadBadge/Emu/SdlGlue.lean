import HadBadge.Emu.Iomem
import HadBadge.Lib.Run

/-!
# `Emu.SdlGlue`: key events of the host

`gfx_poll_event` and `gfx_get_buttons` of `emu/sdl_glue.c`, the callback behind the button device. The local
`mask` of `gfx_poll_event` is assigned for the arrow keys only; what it holds otherwise is not determined, so
every event comes with a value for it.

## Contents
- **Events.** `SdlEvent`, and `Polled`, an event with the value of the local.
- **The word.** `keyMask`, `keyStep`, `gfxPollEvent`, `gfxGetButtons`.
- **Runs.** A call without a quit is a run of `keyStep` (`gfxPollEvent_eq`), and so are several
  (`pollCalls_eq`).
-/

namespace HadBadge

open Lib

def buttonUp : BitVec 32 := 1 <<< 0
def buttonDown : BitVec 32 := 1 <<< 1
def buttonLeft : BitVec 32 := 1 <<< 2
def buttonRight : BitVec 32 := 1 <<< 3

/-- `e.key.keysym.sym`. -/
inductive SdlKeycode where
  | escape | up | down | left | right
  | other (sym : Nat)
  deriving DecidableEq, Repr

/-- `SDL_Event`. -/
inductive SdlEvent where
  | quit
  | keydown (sym : SdlKeycode)
  | keyup (sym : SdlKeycode)
  | other (type : Nat)
  deriving DecidableEq, Repr

/-- An event that `SDL_PollEvent` delivers, and what the local `mask` holds before it is assigned. -/
structure Polled where
  event : SdlEvent
  mask : BitVec 32
  deriving DecidableEq, Repr

/-- The four conditional assignments of `mask`. -/
def keyMask (sym : SdlKeycode) (mask : BitVec 32) : BitVec 32 :=
  let mask := if sym = .up then buttonUp else mask
  let mask := if sym = .down then buttonDown else mask
  let mask := if sym = .left then buttonLeft else mask
  if sym = .right then buttonRight else mask

/-- `buttons` after an event that does not quit. -/
def keyStep (buttons : BitVec 32) (p : Polled) : BitVec 32 :=
  match p.event with
  | .keydown sym => buttons ||| keyMask sym p.mask
  | .keyup sym => buttons &&& ~~~ keyMask sym p.mask
  | _ => buttons

/-- `gfx_poll_event` on the events that are waiting: its result, `buttons`, and what is still waiting. -/
def gfxPollEvent : List Polled → BitVec 32 → Int × BitVec 32 × List Polled
  | [], buttons => (0, buttons, [])
  | p :: queue, buttons =>
      if p.event = .quit then (1, buttons, queue)
      else if p.event = .keydown .escape then (1, buttons, queue)
      else gfxPollEvent queue (keyStep buttons p)

/-- `gfx_get_buttons`. -/
def gfxGetButtons (buttons : BitVec 32) : Int := buttons.toInt

/-- The events that make `gfx_poll_event` return 1. -/
def SdlEvent.Quits (e : SdlEvent) : Prop := e = .quit ∨ e = .keydown .escape

/-- `buttons` after one call of `gfx_poll_event` for each list of waiting events. -/
def pollCalls (buttons : BitVec 32) (calls : List (List Polled)) : BitVec 32 :=
  run (fun buttons queue => (gfxPollEvent queue buttons).2.1) buttons calls

/-! ## Runs -/

/-- Without a quit, a call handles every event that is waiting. -/
theorem gfxPollEvent_eq {queue : List Polled} (hq : ∀ p ∈ queue, ¬ p.event.Quits) (buttons : BitVec 32) :
    gfxPollEvent queue buttons = (0, run keyStep buttons queue, []) := by
  induction queue generalizing buttons with
  | nil => rfl
  | cons p queue ih =>
      have hp := hq p List.mem_cons_self
      unfold gfxPollEvent
      rw [if_neg (fun h => hp (.inl h)), if_neg (fun h => hp (.inr h)),
        ih (fun q hmem => hq q (List.mem_cons_of_mem p hmem)), run_cons]

/-- How the events are spread over the calls makes no difference to the word. -/
theorem pollCalls_eq {calls : List (List Polled)} (hq : ∀ p ∈ calls.flatten, ¬ p.event.Quits)
    (buttons : BitVec 32) : pollCalls buttons calls = run keyStep buttons calls.flatten := by
  induction calls generalizing buttons with
  | nil => rfl
  | cons queue calls ih =>
      rw [List.flatten_cons] at hq
      have hhead := gfxPollEvent_eq (fun p hp => hq p (List.mem_append_left _ hp)) buttons
      rw [List.flatten_cons, run_append, ← ih (fun p hp => hq p (List.mem_append_right _ hp)), pollCalls,
        run_cons, hhead, ← pollCalls]

/-- The guest reads the word that the host's callback returns. -/
theorem buttonRead_word {σ : Type} {h : MachHost σ} {p : Periphs σ} {buttons : BitVec 32}
    (hget : h.buttonsGet p.host = gfxGetButtons buttons) (ram : Ram) :
    deviceRead h p ram buttonReadReg .buttons = .ok (UInt32.ofBitVec buttons, p) := by
  have hword : UInt32.ofNat (u32 buttons.toInt) = UInt32.ofBitVec buttons := by
    apply UInt32.toNat_inj.mp
    have hlt := buttons.isLt
    rw [UInt32.toNat_ofNat_of_lt' (u32_lt _), UInt32.toNat_ofBitVec, u32, BitVec.toInt_eq_toNat_cond]
    split <;> omega
  rw [deviceRead, if_pos rfl, hget, gfxGetButtons, hword]

end HadBadge
