import HadBadge.Lib.Loop

/-!
# `Lib.Logged`: computations with the calls they make

A computation that may fail, beside the list of what it has called. The list is there when the computation fails,
with the calls up to the failure.

## Contents
- **The monad.** `Logged`, `lift`, `call`; its result is the computation without the list (`result_bind`).
- **The list.** `Logged.All P`: every call satisfies `P`, with its rule for `bind`; `log_bind`.
-/

namespace Lib

/-- A computation: what it has called, and how it ends. -/
structure Logged (ι ε α : Type) where
  log : List ι
  result : Except ε α

namespace Logged

variable {ι ε α β : Type}

/-- A computation that calls nothing. -/
def lift (x : Except ε α) : Logged ι ε α := ⟨[], x⟩

/-- One call, with how it ends. -/
def call (c : ι) (x : Except ε α) : Logged ι ε α := ⟨[c], x⟩

/-- The second computation follows where the first ends without a failure. -/
def bind (x : Logged ι ε α) (f : α → Logged ι ε β) : Logged ι ε β :=
  match x.result with
  | .error e => ⟨x.log, .error e⟩
  | .ok a    => ⟨x.log ++ (f a).log, (f a).result⟩

instance : Monad (Logged ι ε) where
  pure a := lift (.ok a)
  bind := bind

@[simp] theorem log_lift (x : Except ε α) : (lift x : Logged ι ε α).log = [] := rfl

@[simp] theorem log_call (c : ι) (x : Except ε α) : (call c x).log = [c] := rfl

@[simp] theorem log_pure (a : α) : (pure a : Logged ι ε α).log = [] := rfl

@[simp] theorem result_lift (x : Except ε α) : (lift x : Logged ι ε α).result = x := rfl

@[simp] theorem result_call (c : ι) (x : Except ε α) : (call c x).result = x := rfl

@[simp] theorem result_pure (a : α) : (pure a : Logged ι ε α).result = .ok a := rfl

/-- Without the list, computations follow each other as before. -/
theorem result_bind (x : Logged ι ε α) (f : α → Logged ι ε β) :
    (x >>= f).result = x.result >>= fun a => (f a).result := by
  show (bind x f).result = _
  unfold bind
  cases x.result with
  | error e => rfl
  | ok a => rfl

/-- The same with the parts already compared. -/
theorem result_bind_eq {x : Logged ι ε α} {y : Except ε α} {f : α → Logged ι ε β} {g : α → Except ε β}
    (hx : x.result = y) (hf : ∀ a, (f a).result = g a) : (x >>= f).result = y >>= g := by
  rw [result_bind, hx]
  exact congrArg (y >>= ·) (funext hf)

theorem log_bind_ok {x : Logged ι ε α} {a : α} (hx : x.result = .ok a) (f : α → Logged ι ε β) :
    (x >>= f).log = x.log ++ (f a).log := by
  show (bind x f).log = _
  unfold bind
  rw [hx]

theorem log_bind_error {x : Logged ι ε α} {e : ε} (hx : x.result = .error e) (f : α → Logged ι ε β) :
    (x >>= f).log = x.log := by
  show (bind x f).log = _
  unfold bind
  rw [hx]

/-- Nothing is called before `f` by what calls nothing. -/
theorem log_lift_bind {x : Except ε α} {a : α} (hx : x = .ok a) (f : α → Logged ι ε β) :
    (lift x >>= f).log = (f a).log := by
  rw [log_bind_ok ((result_lift x).trans hx), log_lift, List.nil_append]

/-- Nothing is called after `x` by what calls nothing. -/
theorem log_bind_nil (x : Logged ι ε α) {f : α → Logged ι ε β} (hf : ∀ a, (f a).log = []) : (x >>= f).log = x.log := by
  cases hres : x.result with
  | error e => exact log_bind_error hres f
  | ok a => rw [log_bind_ok hres, hf, List.append_nil]

/-! ## What is called -/

/-- Every call satisfies `P`. -/
def All (P : ι → Prop) (x : Logged ι ε α) : Prop := ∀ c ∈ x.log, P c

variable {P Q : ι → Prop}

theorem all_lift (x : Except ε α) : All P (lift x : Logged ι ε α) := by
  intro c hc
  cases hc

theorem all_pure (a : α) : All P (pure a : Logged ι ε α) := all_lift _

theorem all_call {c : ι} (hc : P c) (x : Except ε α) : All P (call c x) := by
  intro d hd
  rw [log_call, List.mem_singleton] at hd
  rwa [hd]

theorem All.bind {x : Logged ι ε α} {f : α → Logged ι ε β} (hx : All P x) (hf : ∀ a, x.result = .ok a → All P (f a)) :
    All P (x >>= f) := by
  cases hres : x.result with
  | error e =>
      unfold All
      rw [log_bind_error hres]
      exact hx
  | ok a =>
      unfold All
      rw [log_bind_ok hres]
      intro c hc
      rcases List.mem_append.mp hc with hc | hc
      · exact hx c hc
      · exact hf a hres c hc

theorem All.mono {x : Logged ι ε α} (hx : All P x) (hPQ : ∀ c, P c → Q c) : All Q x := fun c hc => hPQ c (hx c hc)

end Logged

end Lib
