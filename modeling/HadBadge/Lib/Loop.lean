import Mathlib.Logic.Basic

/-!
# `Lib.Loop`: C loops as total functions, with their invariant rules

## Contents
- **`whileFuel`**: `while (c) s = f(s);` with an iteration bound. `whileFuel_total` (a decreasing measure
  makes enough fuel finish) and `whileFuel_inv` (what a finished loop says).
- **`forFrom`**: `for (i = i₀; i < i₀ + n; i++) s = body(i, s);` where the body may fail.
  `forFrom_total` is total correctness (`forFrom_stride` when the states are known, `forFrom_ok_iff` when the state
  does not matter), `forFrom_inv` partial correctness (`forFrom_count` when each turn adds to a count).
- **`FailAlike`**: two programs that fail for the same reasons.
-/

namespace Lib

variable {ε σ : Type}

/-! ## Sequencing fallible steps -/

@[simp] theorem ok_bind {α β : Type} (a : α) (f : α → Except ε β) : (Except.ok a >>= f) = f a := rfl

@[simp] theorem error_bind {α β : Type} (e : ε) (f : α → Except ε β) :
    ((Except.error e : Except ε α) >>= f) = .error e := rfl

/-- A sequence succeeds when its first part does and the rest succeeds on the result. -/
theorem bind_eq_ok {α β : Type} {x : Except ε α} {f : α → Except ε β} {b : β} :
    (x >>= f) = .ok b ↔ ∃ a, x = .ok a ∧ f a = .ok b := by
  cases x with
  | error e => simp
  | ok a => simp

/-- A last step that cannot fail. -/
theorem bind_ok_total {α β : Type} {x : Except ε α} {f : α → β} :
    (∃ b, (x >>= fun a => .ok (f a)) = .ok b) ↔ ∃ a, x = .ok a := by
  cases x with
  | error e => simp
  | ok a => simp

/-! ## `while` -/

/-- `while (c s) s = f s;`, giving up with `e` after `fuel` iterations. -/
def whileFuel (e : ε) (c : σ → Bool) (f : σ → σ) : Nat → σ → Except ε σ
  | 0,   s => if c s then .error e else .ok s
  | k+1, s => if c s then whileFuel e c f k (f s) else .ok s

/-- If an invariant makes a measure decrease on every iteration, fuel covering the measure finishes the
    loop, with the invariant true and the condition false. -/
theorem whileFuel_total {e : ε} {c : σ → Bool} {f : σ → σ} (I : σ → Prop) (meas : σ → Nat)
    (hstep : ∀ s, I s → c s = true → I (f s) ∧ meas (f s) < meas s) :
    ∀ (fuel : Nat) (s : σ), I s → meas s ≤ fuel →
      ∃ t, whileFuel e c f fuel s = .ok t ∧ I t ∧ c t = false := by
  intro fuel
  induction fuel with
  | zero =>
      intro s hI hs
      by_cases hc : c s = true
      -- no fuel left: the measure is 0, so it cannot decrease and the loop is over
      · have hlt := (hstep s hI hc).2
        omega
      · exact ⟨s, by simp [whileFuel, hc], hI, by simpa using hc⟩
  | succ k ih =>
      intro s hI hs
      by_cases hc : c s = true
      · obtain ⟨hI', hlt⟩ := hstep s hI hc
        obtain ⟨t, ht, hIt, hct⟩ := ih (f s) hI' (by omega)
        exact ⟨t, by simp [whileFuel, hc, ht], hIt, hct⟩
      · exact ⟨s, by simp [whileFuel, hc], hI, by simpa using hc⟩

/-- A finished loop leaves its invariant true and its condition false. -/
theorem whileFuel_inv {e : ε} {c : σ → Bool} {f : σ → σ} (I : σ → Prop)
    (hstep : ∀ s, I s → c s = true → I (f s)) :
    ∀ (fuel : Nat) (s t : σ), I s → whileFuel e c f fuel s = .ok t → I t ∧ c t = false := by
  intro fuel
  induction fuel with
  | zero =>
      intro s t hI ht
      by_cases hc : c s = true
      · simp [whileFuel, hc] at ht
      · simp only [whileFuel, hc, Bool.false_eq_true, if_false, Except.ok.injEq] at ht
        subst ht
        exact ⟨hI, by simpa using hc⟩
  | succ k ih =>
      intro s t hI ht
      by_cases hc : c s = true
      · simp only [whileFuel, hc, if_true] at ht
        exact ih (f s) t (hstep s hI hc) ht
      · simp only [whileFuel, hc, Bool.false_eq_true, if_false, Except.ok.injEq] at ht
        subst ht
        exact ⟨hI, by simpa using hc⟩

/-! ## `for` -/

/-- `for (i = i₀; i < i₀ + n; i++) s = body i s;`, stopping at the first error. -/
def forFrom (body : Nat → σ → Except ε σ) : (n i₀ : Nat) → σ → Except ε σ
  | 0,   _, s => .ok s
  | n+1, i, s => body i s >>= forFrom body n (i + 1)

/-- Bodies that agree on the indices of the loop. -/
theorem forFrom_congr {body body' : Nat → σ → Except ε σ} (n i : Nat)
    (h : ∀ j s, i ≤ j → j < i + n → body' j s = body j s) (s : σ) : forFrom body' n i s = forFrom body n i s := by
  induction n generalizing i s with
  | zero => rfl
  | succ n ih =>
      rw [forFrom, forFrom, h i s (Nat.le_refl i) (by omega)]
      congr 1
      funext t
      exact ih (i + 1) (fun j s h0 h1 => h j s (by omega) (by omega)) t

/-- **Total correctness of `for`.** If every iteration succeeds from a state satisfying the invariant and
    re-establishes it for the next index, the loop succeeds. -/
theorem forFrom_total {body : Nat → σ → Except ε σ} (I : Nat → σ → Prop) :
    ∀ (n i : Nat) (s : σ),
      (∀ j s, i ≤ j → j < i + n → I j s → ∃ s', body j s = .ok s' ∧ I (j + 1) s') →
      I i s → ∃ s', forFrom body n i s = .ok s' ∧ I (i + n) s' := by
  intro n
  induction n with
  | zero => intro i s _ hI; exact ⟨s, rfl, hI⟩
  | succ n ih =>
      intro i s hbody hI
      obtain ⟨s₁, h₁, hI₁⟩ := hbody i s (Nat.le_refl i) (by omega) hI
      obtain ⟨s₂, h₂, hI₂⟩ := ih (i + 1) s₁
        (fun j s hj hj' => hbody j s (by omega) (by omega)) hI₁
      refine ⟨s₂, ?_, ?_⟩
      · show (body i s >>= forFrom body n (i + 1)) = .ok s₂
        rw [h₁]; exact h₂
      · rw [show i + (n + 1) = i + 1 + n by omega]; exact hI₂

/-- A loop ends exactly where all its iterations do, if the state does not matter to that. -/
theorem forFrom_ok_iff (body : Nat → σ → Except ε σ) {Q : Nat → Prop}
    (hok : ∀ i s, (∃ t, body i s = .ok t) ↔ Q i) (n i : Nat) (s : σ) :
    (∃ t, forFrom body n i s = .ok t) ↔ ∀ j < n, Q (i + j) := by
  induction n generalizing i s with
  | zero => exact iff_of_true ⟨s, rfl⟩ (fun j hj => absurd hj (Nat.not_lt_zero j))
  | succ n ih =>
      have hbind : forFrom body (n + 1) i s = (body i s >>= forFrom body n (i + 1)) := rfl
      have hrest : (∀ j < n, Q (i + (j + 1))) ↔ ∀ j < n, Q (i + 1 + j) :=
        forall₂_congr (fun j _ => by rw [Nat.add_right_comm, Nat.add_assoc])
      have hfirst : Q (i + 0) ↔ ∃ t, body i s = .ok t := (hok i s).symm
      rw [hbind, Nat.forall_lt_succ_left, hrest, hfirst]
      simp only [bind_eq_ok]
      constructor
      · rintro ⟨t, a, ha, ht⟩
        exact ⟨⟨a, ha⟩, (ih (i + 1) a).mp ⟨t, ht⟩⟩
      · rintro ⟨⟨a, ha⟩, h⟩
        obtain ⟨t, ht⟩ := (ih (i + 1) a).mpr h
        exact ⟨t, a, ha, ht⟩

/-- A loop whose iterations each take `c` steps along the states `st` takes `n * c` steps. -/
theorem forFrom_stride {body : Nat → σ → Except ε σ} {st : Nat → σ} {n : Nat} (b c : Nat)
    (h : ∀ j < n, body j (st (b + j * c)) = .ok (st (b + (j + 1) * c))) :
    forFrom body n 0 (st b) = .ok (st (b + n * c)) := by
  obtain ⟨s, hs, hI⟩ := forFrom_total (fun j s => s = st (b + j * c)) n 0 (st b)
    (fun j s _ hj hI => ⟨st (b + (j + 1) * c), by rw [hI]; exact h j (by omega), rfl⟩)
    (by rw [Nat.zero_mul, Nat.add_zero])
  rw [hs, hI, Nat.zero_add]

/-- **Partial correctness of `for`.** What every successful iteration preserves, a successful loop does. -/
theorem forFrom_inv {body : Nat → σ → Except ε σ} (I : Nat → σ → Prop) :
    ∀ (n i : Nat) (s t : σ),
      (∀ j s s', i ≤ j → j < i + n → I j s → body j s = .ok s' → I (j + 1) s') →
      I i s → forFrom body n i s = .ok t → I (i + n) t := by
  intro n
  induction n with
  | zero => intro i s t _ hI ht; cases ht; exact hI
  | succ n ih =>
      intro i s t hbody hI ht
      have ht' : (body i s >>= forFrom body n (i + 1)) = .ok t := ht
      cases h₁ : body i s with
      | error e => rw [h₁] at ht'; cases ht'
      | ok s₁ =>
          rw [h₁] at ht'
          have hI₁ := hbody i s s₁ (Nat.le_refl i) (by omega) hI h₁
          have := ih (i + 1) s₁ t (fun j s s' hj hj' => hbody j s s' (by omega) (by omega)) hI₁ ht'
          rw [show i + (n + 1) = i + 1 + n by omega]; exact this

/-- What one turn of a loop adds to a count, the loop adds once per turn. -/
theorem forFrom_count {body : Nat → σ → Except ε σ} {I : Nat → σ → Prop} (c : Nat)
    (hbody : ∀ j s t k, I k s → body j s = .ok t → I (k + c) t) (n i : Nat) {s t : σ} {k : Nat} (hs : I k s)
    (ht : forFrom body n i s = .ok t) : I (k + n * c) t := by
  have hstep : ∀ j s t, i ≤ j → j < i + n → I (k + (j - i) * c) s → body j s = .ok t →
      I (k + (j + 1 - i) * c) t := by
    intro j s t hj _ hI hst
    have hnext := hbody j s t _ hI hst
    rw [show j + 1 - i = j - i + 1 by omega, Nat.add_mul, Nat.one_mul, ← Nat.add_assoc]
    exact hnext
  have hstart : I (k + (i - i) * c) s := by
    rw [Nat.sub_self, Nat.zero_mul, Nat.add_zero]
    exact hs
  have hend := forFrom_inv (fun j s => I (k + (j - i) * c) s) n i s t hstep hstart ht
  rw [show i + n - i = n by omega] at hend
  exact hend

/-! ## Two programs that fail alike -/

/-- The two fail for the same reasons, or both succeed. -/
def FailAlike {α β : Type} (x : Except ε α) (y : Except ε β) : Prop := ∀ e, x = .error e ↔ y = .error e

theorem FailAlike.refl {α : Type} (x : Except ε α) : FailAlike x x := fun _ => Iff.rfl

theorem failAlike_ok {α β : Type} (a : α) (b : β) : FailAlike (.ok a : Except ε α) (.ok b : Except ε β) := by
  intro e
  simp

theorem FailAlike.bind {α α' β β' : Type} {x : Except ε α} {y : Except ε α'} {f : α → Except ε β}
    {g : α' → Except ε β'} (h : FailAlike x y) (hfg : ∀ a b, x = .ok a → y = .ok b → FailAlike (f a) (g b)) :
    FailAlike (x >>= f) (y >>= g) := by
  cases x with
  | error e =>
      rw [(h e).mp rfl]
      intro e'
      simp
  | ok a =>
      cases y with
      | error e => exact absurd ((h e).mpr rfl) (by simp)
      | ok b => exact hfg a b rfl rfl

/-- If one of the two succeeds, so does the other. -/
theorem FailAlike.succeeds {α β : Type} {x : Except ε α} {y : Except ε β} (h : FailAlike x y) {a : α}
    (hx : x = .ok a) : ∃ b, y = .ok b := by
  cases y with
  | ok b => exact ⟨b, rfl⟩
  | error e =>
      rw [(h e).mpr rfl] at hx
      cases hx

theorem FailAlike.forFrom {τ : Type} {body : Nat → σ → Except ε σ} {body' : Nat → τ → Except ε τ}
    (h : ∀ i s t, FailAlike (body i s) (body' i t)) (n i : Nat) (s : σ) (t : τ) :
    FailAlike (forFrom body n i s) (forFrom body' n i t) := by
  induction n generalizing i s t with
  | zero => exact failAlike_ok s t
  | succ n ih => exact (h i s t).bind (fun a b _ _ => ih (i + 1) a b)

end Lib
