import HadBadge.Lib.Loop

/-!
# `Lib.Post`: postconditions of programs that may fail

`Ends E P x`: the program `x` returns something with `P`, or fails with an error that `E` allows. Errors that `E`
does not allow are ruled out, so with `E` false this is total correctness, and with `E` true partial correctness.

## Contents
- **The rules.** `Ends.bind`, `Ends.mono`, `Ends.weaken`, `Ends.of_ok`.
- **Loops with a bound on their iterations.** `andThen`, one after the other; `Settles`: a loop ends with `Ends`,
  unless its bound is too small. `ok_of_map` and `returns_of_map`, for runs that are evaluated.
-/

namespace Lib

variable {ε α β : Type} {E E' : ε → Prop} {P : α → Prop} {Q : β → Prop}

/-- `x` returns something with `P`, or fails with an error that `E` allows. -/
def Ends (E : ε → Prop) (P : α → Prop) : Except ε α → Prop
  | .ok a    => P a
  | .error e => E e

/-- What comes after `x`, which may go by what `x` has returned. -/
theorem Ends.bind_of {x : Except ε α} {f : α → Except ε β} (hx : Ends E P x)
    (hf : ∀ a, x = .ok a → P a → Ends E Q (f a)) : Ends E Q (x >>= f) := by
  cases x with
  | error e => exact hx
  | ok a    => exact hf a rfl hx

theorem Ends.bind {x : Except ε α} {f : α → Except ε β} (hx : Ends E P x) (hf : ∀ a, P a → Ends E Q (f a)) :
    Ends E Q (x >>= f) := hx.bind_of (fun a _ ha => hf a ha)

theorem Ends.mono {P' : α → Prop} {x : Except ε α} (hx : Ends E P x) (h : ∀ a, P a → P' a) : Ends E P' x := by
  cases x with
  | error e => exact hx
  | ok a    => exact h a hx

/-- More errors are allowed. -/
theorem Ends.weaken {x : Except ε α} (hx : Ends E P x) (h : ∀ e, E e → E' e) : Ends E' P x := by
  cases x with
  | error e => exact h e hx
  | ok a    => exact hx

/-- A program that is known to return. -/
theorem Ends.of_ok {x : Except ε α} {a : α} (hx : x = .ok a) (ha : P a) : Ends E P x := by
  subst hx
  exact ha

/-! ## Loops with a bound on their iterations -/

/-- What comes after a loop, `none` being a loop that has used up its bound. -/
def andThen (x : Option (Except ε α)) (f : α → Option (Except ε β)) : Option (Except ε β) :=
  match x with
  | none            => none
  | some (.error e) => some (.error e)
  | some (.ok a)    => f a

/-- What comes out of the loop `Ends`, and the bound is used up only if it is one of those that are too `short`. -/
def Settles (short : Prop) (E : ε → Prop) (P : α → Prop) : Option (Except ε α) → Prop
  | none   => short
  | some x => Ends E P x

theorem Settles.mono {short short' : Prop} {P' : α → Prop} {x : Option (Except ε α)} (hx : Settles short E P x)
    (hshort : short → short') (herror : ∀ e, E e → E' e) (h : ∀ a, P a → P' a) : Settles short' E' P' x := by
  cases x with
  | none   => exact hshort hx
  | some x => exact (Ends.mono hx h).weaken herror

theorem Settles.andThen {short short' : Prop} {x : Option (Except ε α)} {f : α → Option (Except ε β)}
    (hx : Settles short E P x) (hshort : short → short')
    (hf : ∀ a, x = some (.ok a) → P a → Settles short' E Q (f a)) : Settles short' E Q (andThen x f) := by
  cases x with
  | none => exact hshort hx
  | some x =>
      cases x with
      | error e => exact hx
      | ok a    => exact hf a rfl hx

/-- A loop whose bound is not too small ends, with a result or with an error. -/
theorem Settles.ends {short : Prop} {x : Option (Except ε α)} (hx : Settles short E P x) (hlong : ¬ short) :
    (∃ a, x = some (.ok a) ∧ P a) ∨ ∃ e, x = some (.error e) ∧ E e := by
  cases x with
  | none => exact absurd hx hlong
  | some x =>
      cases x with
      | ok a    => exact .inl ⟨a, rfl, hx⟩
      | error e => exact .inr ⟨e, rfl, hx⟩

/-- What a loop has returned within any bound. -/
theorem Settles.of_ok {short : Prop} {x : Option (Except ε α)} {a : α} (hx : Settles short E P x)
    (ha : x = some (.ok a)) : P a := by
  subst ha
  exact hx

/-- A computation that succeeds, with something known of what it returns. -/
theorem ok_of_map {x : Except ε α} {f : α → β} {b : β} (h : x.toOption.map f = some b) : ∃ a, x = .ok a ∧ f a = b := by
  cases x with
  | error e => cases h
  | ok a => exact ⟨a, rfl, Option.some.inj h⟩

/-- A loop that returns, with something known of what it returns. -/
theorem returns_of_map {x : Option (Except ε α)} {f : α → β} {b : β}
    (h : x.map (fun r => r.toOption.map f) = some (some b)) : ∃ a, x = some (.ok a) ∧ f a = b := by
  cases x with
  | none => cases h
  | some r =>
    obtain ⟨a, rfl, ha⟩ := ok_of_map (Option.some.inj h)
    exact ⟨a, rfl, ha⟩

end Lib
