import Mathlib.Data.List.Induction
import Mathlib.Data.List.Infix

/-!
# `Lib.Run`: runs of a machine over a list of events

A machine is a total step function; an event that means nothing in a state leaves it as it is. What a
machine does under every order of events is then a statement about `run` over every list of events.

## Contents
- **Runs.** `run` and its append laws.
- **Invariants.** `run_inv` (events from a class `P`), `run_inv_all`.
- **What came last.** `lastSome`, and runs that may fail (`runM`): a view that every event sets or leaves alone
  shows what the last event set (`runM_view`).
- **Publishing.** A view that nothing changes once a gate event has happened (`gate_or_final`).
- **Every state reached.** `Always G s as` (all states of the run are good), `Steps C s as` (every step meets
  `C`), and when the one is the other (`always_iff_steps`).
-/

namespace Lib

variable {σ α : Type*} {step : σ → α → σ}

/-- The state after the events `as`. -/
def run (step : σ → α → σ) (s : σ) (as : List α) : σ := as.foldl step s

@[simp] theorem run_nil (s : σ) : run step s [] = s := rfl

@[simp] theorem run_cons (s : σ) (a : α) (as : List α) : run step s (a :: as) = run step (step s a) as := rfl

@[simp] theorem run_append (s : σ) (as bs : List α) :
    run step s (as ++ bs) = run step (run step s as) bs := by
  simp [run, List.foldl_append]

/-! ## Invariants -/

/-- What every step with an event from `P` keeps, a run of such events keeps. -/
theorem run_inv {P : α → Prop} {I : σ → Prop} (hstep : ∀ s a, P a → I s → I (step s a)) {as : List α}
    (hP : ∀ a ∈ as, P a) {s : σ} (hs : I s) : I (run step s as) := by
  induction as generalizing s with
  | nil => exact hs
  | cons a as ih =>
      refine ih (fun b hb => hP b (List.mem_cons_of_mem a hb)) ?_
      exact hstep s a (hP a List.mem_cons_self) hs

/-- What every step keeps, every run keeps. -/
theorem run_inv_all {I : σ → Prop} (hstep : ∀ s a, I s → I (step s a)) (as : List α) {s : σ} (hs : I s) :
    I (run step s as) :=
  run_inv (P := fun _ => True) (fun s a _ => hstep s a) (fun _ _ => trivial) hs

/-! ## Every state reached -/

/-- Every state of the run is in `G`, the first and the last included. -/
def Always (step : σ → α → σ) (G : σ → Prop) (s : σ) (as : List α) : Prop :=
  ∀ pre, pre <+: as → G (run step s pre)

/-- Every step of the run meets `C`, a condition on the state before the step and on its event. -/
def Steps (step : σ → α → σ) (C : σ → α → Prop) (s : σ) (as : List α) : Prop :=
  ∀ pre a, pre ++ [a] <+: as → C (run step s pre) a

theorem always_cons {G : σ → Prop} {s : σ} {a : α} {as : List α} :
    Always step G s (a :: as) ↔ G s ∧ Always step G (step s a) as := by
  constructor
  · intro h
    refine ⟨h [] List.nil_prefix, ?_⟩
    intro pre hpre
    exact h (a :: pre) (List.cons_prefix_cons.mpr ⟨rfl, hpre⟩)
  · rintro ⟨h0, h⟩ pre hpre
    rcases pre with _ | ⟨b, pre⟩
    · exact h0
    · obtain ⟨rfl, htail⟩ := List.cons_prefix_cons.mp hpre
      exact h pre htail

theorem steps_cons {C : σ → α → Prop} {s : σ} {a : α} {as : List α} :
    Steps step C s (a :: as) ↔ C s a ∧ Steps step C (step s a) as := by
  constructor
  · intro h
    refine ⟨h [] a (List.cons_prefix_cons.mpr ⟨rfl, List.nil_prefix⟩), ?_⟩
    intro pre b hpre
    exact h (a :: pre) b (List.cons_prefix_cons.mpr ⟨rfl, hpre⟩)
  · rintro ⟨h0, h⟩ pre b hpre
    rcases pre with _ | ⟨c, pre⟩
    · obtain ⟨rfl, -⟩ := List.cons_prefix_cons.mp hpre
      exact h0
    · obtain ⟨rfl, htail⟩ := List.cons_prefix_cons.mp hpre
      exact h pre b htail

@[simp] theorem steps_nil {C : σ → α → Prop} {s : σ} : Steps step C s [] := by
  intro pre a hpre
  exact absurd (List.prefix_nil.mp hpre) (by simp)

/-- A condition on the events alone. -/
theorem steps_const_iff {C : α → Prop} {s : σ} {as : List α} :
    Steps step (fun _ a => C a) s as ↔ ∀ a ∈ as, C a := by
  induction as generalizing s with
  | nil =>
      refine iff_of_true steps_nil ?_
      intro a ha
      cases ha
  | cons a as ih => rw [steps_cons, ih, List.forall_mem_cons]

/-- **When a good state stays good exactly under `C`, a run stays good exactly when its steps meet `C`.** -/
theorem always_iff_steps {I G : σ → Prop} {C : σ → α → Prop} (hI : ∀ s a, I s → I (step s a))
    (hG : ∀ s a, I s → G s → (G (step s a) ↔ C s a)) (as : List α) {s : σ} (hs : I s) (hg : G s) :
    Always step G s as ↔ Steps step C s as := by
  -- on the events; the first step ties goodness to `C`, the rest is the run from the next state
  induction as generalizing s with
  | nil =>
      refine iff_of_true ?_ steps_nil
      intro pre hpre
      rw [List.prefix_nil.mp hpre]
      exact hg
  | cons a as ih =>
      rw [always_cons, steps_cons, ← hG s a hs hg]
      constructor
      · rintro ⟨-, h⟩
        have hga : G (step s a) := h [] List.nil_prefix
        exact ⟨hga, (ih (hI s a hs) hga).mp h⟩
      · rintro ⟨hga, h⟩
        exact ⟨hg, (ih (hI s a hs) hga).mpr h⟩

/-! ## What came last -/

/-- What the last event has that has something. -/
def lastSome {β : Type*} (f : α → Option β) (as : List α) : Option β := as.reverse.findSome? f

@[simp] theorem lastSome_nil {β : Type*} (f : α → Option β) : lastSome f [] = none := rfl

@[simp] theorem lastSome_append_singleton {β : Type*} (f : α → Option β) (as : List α) (a : α) :
    lastSome f (as ++ [a]) = (f a).or (lastSome f as) := by
  unfold lastSome
  rw [List.reverse_append, List.reverse_singleton, List.singleton_append, List.findSome?_cons]
  cases f a <;> rfl

theorem lastSome_eq_some {β : Type*} {f : α → Option β} {as : List α} {b : β} (h : lastSome f as = some b) :
    ∃ a ∈ as, f a = some b := by
  obtain ⟨a, ha, hf⟩ := List.exists_of_findSome?_eq_some h
  exact ⟨a, List.mem_reverse.mp ha, hf⟩

section Fallible

variable {ε ρ β : Type} {stepM : ρ → α → Except ε ρ}

/-- The state after the events `as`, if none of them fails. -/
def runM (stepM : ρ → α → Except ε ρ) (s : ρ) (as : List α) : Except ε ρ := as.foldlM stepM s

@[simp] theorem runM_nil (s : ρ) : runM stepM s [] = .ok s := rfl

theorem runM_append_singleton_ok {s s' : ρ} {as : List α} {a : α} :
    runM stepM s (as ++ [a]) = .ok s' ↔ ∃ t, runM stepM s as = .ok t ∧ stepM t a = .ok s' := by
  unfold runM
  rw [List.foldlM_append]
  cases hrun : List.foldlM stepM s as with
  | error e => exact iff_of_false nofun (fun ⟨_, h, _⟩ => nomatch h)
  | ok t =>
      have hlast : List.foldlM stepM t [a] = stepM t a := by
        rw [List.foldlM_cons]
        cases stepM t a <;> rfl
      constructor
      · intro h
        exact ⟨t, rfl, hlast.symm.trans h⟩
      · rintro ⟨_, ⟨⟩, h⟩
        exact hlast.trans h

/-- What every step that does not fail keeps, every run that does not fail keeps. -/
theorem runM_inv {P : α → Prop} {I : ρ → Prop} (hstep : ∀ s a s', P a → I s → stepM s a = .ok s' → I s') {as : List α}
    (hP : ∀ a ∈ as, P a) {s s' : ρ} (hs : I s) (hrun : runM stepM s as = .ok s') : I s' := by
  induction as using List.reverseRecOn generalizing s' with
  | nil =>
      cases hrun
      exact hs
  | append_singleton as a ih =>
      obtain ⟨t, ht, ha⟩ := runM_append_singleton_ok.mp hrun
      exact hstep t a s' (hP a (by simp)) (ih (fun b hb => hP b (List.mem_append_left [a] hb)) ht) ha

/-- **A view that every event sets or leaves alone shows what the last event set.** -/
theorem runM_view (view : ρ → β) (f : α → Option β) {as : List α}
    (hstep : ∀ s a s', a ∈ as → stepM s a = .ok s' → view s' = (f a).getD (view s)) {s s' : ρ}
    (hrun : runM stepM s as = .ok s') : view s' = (lastSome f as).getD (view s) := by
  -- on the events, the last one first
  induction as using List.reverseRecOn generalizing s' with
  | nil =>
      cases hrun
      rfl
  | append_singleton as a ih =>
      obtain ⟨t, ht, ha⟩ := runM_append_singleton_ok.mp hrun
      have hview := ih (fun s b s' hb => hstep s b s' (List.mem_append_left [a] hb)) ht
      rw [lastSome_append_singleton, hstep t a s' (by simp) ha, hview]
      cases f a <;> rfl

end Fallible

/-! ## Publishing -/

section Publishing

variable {V : Type*} (view : σ → V) {F gate : α → Prop}

/-- Events outside of `F` do not change what is seen. -/
theorem run_frame (hframe : ∀ s a, ¬ F a → view (step s a) = view s) {as : List α} (has : ∀ a ∈ as, ¬ F a) (s : σ) :
    view (run step s as) = view s := by
  induction as generalizing s with
  | nil => rfl
  | cons a as ih =>
      rw [run_cons, ih (fun b hb => has b (List.mem_cons_of_mem a hb)), hframe s a (has a List.mem_cons_self)]

/-- **What is published last is never seen half done.** If nothing that is seen changes after a gate event, then
    in the middle of the run either no gate event has happened yet or what is seen is what the end shows. -/
theorem gate_or_final (hframe : ∀ s a, ¬ F a → view (step s a) = view s) {pre post : List α}
    (hlast : (pre ++ post).Pairwise (fun a b => gate a → ¬ F b)) (s : σ) :
    (∀ a ∈ pre, ¬ gate a) ∨ view (run step s pre) = view (run step s (pre ++ post)) := by
  by_cases hgate : ∃ a ∈ pre, gate a
  · right
    obtain ⟨a, ha, hg⟩ := hgate
    have hpost : ∀ b ∈ post, ¬ F b := by
      intro b hb
      exact (List.pairwise_append.mp hlast).2.2 a ha b hb hg
    rw [run_append, run_frame view hframe hpost]
  · left
    intro a ha hg
    exact hgate ⟨a, ha, hg⟩

end Publishing

end Lib
