import Mathlib.Logic.Relation

/-!
# `Lib.History`: runs with the states that they have gone through

A property of a run that looks back, such as what was true when a cache was filled, needs the states of the run and not
only the last one. A history is the list of them, the last one first.

## Contents
- **Histories.** `History`; every run has one, and a state of a history is one of a run.
- **Looking back.** `Since K P`: `P` was true once, and `K` ever since.
-/

namespace Lib

open Relation

variable {α : Type*} {init : α → Prop} {step : α → α → Prop} {K P P' : α → Prop} {a b : α} {as : List α}

/-- The states of a run of `step` from a state of `init`, the last one first. -/
inductive History (init : α → Prop) (step : α → α → Prop) : List α → Prop where
  | init {a : α} : init a → History init step [a]
  | step {a b : α} {as : List α} : History init step (a :: as) → step a b → History init step (b :: a :: as)

/-- Every run has a history. -/
theorem exists_history (ha : init a) (h : ReflTransGen step a b) : ∃ as, History init step (b :: as) := by
  induction h with
  | refl => exact ⟨[], .init ha⟩
  | tail _ hstep ih =>
      obtain ⟨as, has⟩ := ih
      exact ⟨_, has.step hstep⟩

/-- The last state of a history is reached by a run. -/
theorem History.run (h : History init step (b :: as)) : ∃ a, init a ∧ ReflTransGen step a b := by
  generalize hl : b :: as = l at h
  induction h generalizing b as with
  | init ha =>
      cases hl
      exact ⟨_, ha, .refl⟩
  | step _ hstep ih =>
      cases hl
      obtain ⟨a, ha, hrun⟩ := ih rfl
      exact ⟨a, ha, hrun.tail hstep⟩

/-- `P` was true in one of the states, and `K` has been in all after it. -/
inductive Since (K P : α → Prop) : List α → Prop where
  | now {a : α} {as : List α} : P a → Since K P (a :: as)
  | before {a : α} {as : List α} : K a → Since K P as → Since K P (a :: as)

theorem Since.mono (h : Since K P as) (hP : ∀ a, P a → P' a) : Since K P' as := by
  induction h with
  | now ha => exact .now (hP _ ha)
  | before ha _ ih => exact .before ha ih

theorem Since.exists (h : Since K P as) : ∃ a, P a := by
  induction h with
  | now ha => exact ⟨_, ha⟩
  | before _ _ ih => exact ih

end Lib
