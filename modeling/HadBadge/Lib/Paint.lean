import Mathlib.Logic.Nontrivial.Basic
import HadBadge.Lib.Loop

/-!
# `Lib.Paint`: layers with transparent points

A `Layer` is a partial picture: `none` is a transparent point. Painting a layer over a picture keeps the
picture where the layer is transparent, so a program that draws on a buffer can be described by the one
layer it paints, whatever the buffer held before.

## Contents
- **Algebra.** `paint`, `clear`, `onTop` and `stack` (a finite pile of layers, the last one on top).
- **Independence.** A layer hides what was below it exactly when it has no transparent point
  (`paint_eq_iff_opaque`).
- **Programs.** `Paints F l`: the fallible buffer program `F` paints `l`. `Uniform F l`: whether `F` fails
  does not depend on the buffer, and where it succeeds it paints `l`; a `for` loop keeps both.
-/

namespace Lib

variable {α β ε : Type}

/-- A picture with transparent points. -/
abbrev Layer (α β : Type) := α → Option β

namespace Layer

/-- The layer over a picture. -/
def paint (l : Layer α β) (f : α → β) : α → β := fun a => (l a).getD (f a)

/-- The layer that is transparent everywhere. -/
def clear : Layer α β := fun _ => none

/-- `top` over `bottom`. -/
def onTop (top bottom : Layer α β) : Layer α β := fun a => (top a).or (bottom a)

/-- The layers `l 0, …, l (n-1)`, each over the ones before it. -/
def stack (l : Nat → Layer α β) : Nat → Layer α β
  | 0   => clear
  | n+1 => (l n).onTop (stack l n)

@[simp] theorem paint_clear (f : α → β) : (clear : Layer α β).paint f = f := rfl

theorem paint_of_some {l : Layer α β} {a : α} {b : β} (h : l a = some b) (f : α → β) :
    l.paint f a = b := by simp [paint, h]

theorem paint_of_none {l : Layer α β} {a : α} (h : l a = none) (f : α → β) :
    l.paint f a = f a := by simp [paint, h]

/-- Painting `top` over `bottom` is painting `bottom` first. -/
theorem paint_onTop (top bottom : Layer α β) (f : α → β) :
    (top.onTop bottom).paint f = top.paint (bottom.paint f) := by
  funext a
  cases h : top a <;> simp [paint, onTop, h]

theorem onTop_isSome_iff {top bottom : Layer α β} {a : α} :
    (top.onTop bottom a).isSome ↔ (top a).isSome ∨ (bottom a).isSome := by
  cases h : top a <;> simp [onTop, h]

theorem stack_isSome_iff {l : Nat → Layer α β} {n : Nat} {a : α} :
    (stack l n a).isSome ↔ ∃ j < n, (l j a).isSome := by
  induction n with
  | zero => simp [stack, clear]
  | succ n ih =>
      rw [stack, onTop_isSome_iff, ih]
      constructor
      · rintro (h | ⟨j, hj, h⟩)
        · exact ⟨n, by omega, h⟩
        · exact ⟨j, by omega, h⟩
      · rintro ⟨j, hj, h⟩
        rcases Nat.lt_succ_iff_lt_or_eq.mp hj with hlt | heq
        · exact Or.inr ⟨j, hlt, h⟩
        · exact Or.inl (heq ▸ h)

theorem onTop_assoc (k l m : Layer α β) : (k.onTop l).onTop m = k.onTop (l.onTop m) := by
  funext a
  cases h : k a <;> simp [onTop, h]

/-- The bottom layer of a stack can be split off. -/
theorem stack_succ_left (l : Nat → Layer α β) (n : Nat) :
    stack l (n + 1) = (stack (fun j => l (j + 1)) n).onTop (l 0) := by
  induction n with
  | zero =>
      funext a
      cases h : l 0 a <;> simp [stack, onTop, clear, h]
  | succ n ih => rw [stack, ih, ← onTop_assoc]; rfl

/-- A point of a stack shows the highest layer that is opaque there. -/
theorem stack_of_highest {l : Nat → Layer α β} {n i : Nat} {a : α} {b : β} (hi : i < n) (hb : l i a = some b)
    (hclear : ∀ j, i < j → j < n → l j a = none) : stack l n a = some b := by
  induction n with
  | zero => exact absurd hi (Nat.not_lt_zero i)
  | succ n ih =>
      rcases Nat.lt_succ_iff_lt_or_eq.mp hi with hlt | heq
      · have htop : l n a = none := hclear n hlt (Nat.lt_succ_self n)
        simp only [stack, onTop, htop]
        exact ih hlt (fun j hj hjn => hclear j hj (Nat.lt_succ_of_lt hjn))
      · subst heq
        simp only [stack, onTop, hb]
        rfl

/-- What a stack shows at a point: the highest layer that is opaque there. -/
theorem stack_eq_some_iff {l : Nat → Layer α β} {n : Nat} {a : α} {b : β} :
    stack l n a = some b ↔ ∃ i < n, l i a = some b ∧ ∀ j, i < j → j < n → l j a = none := by
  constructor
  · intro h
    induction n with
    | zero => cases h
    | succ n ih =>
        cases htop : l n a with
        | some c =>
            simp only [stack, onTop, htop, Option.some_or] at h
            refine ⟨n, Nat.lt_succ_self n, ?_, ?_⟩
            · rw [htop, h]
            · intro j hj hjn
              omega
        | none =>
            simp only [stack, onTop, htop, Option.none_or] at h
            obtain ⟨i, hi, hb, hclear⟩ := ih h
            refine ⟨i, Nat.lt_succ_of_lt hi, hb, ?_⟩
            intro j hj hjn
            rcases Nat.lt_succ_iff_lt_or_eq.mp hjn with hlt | heq
            · exact hclear j hj hlt
            · exact heq ▸ htop
  · rintro ⟨i, hi, hb, hclear⟩
    exact stack_of_highest hi hb hclear

/-- A stack is transparent where all its layers are. -/
theorem stack_eq_none_iff {l : Nat → Layer α β} {n : Nat} {a : α} :
    stack l n a = none ↔ ∀ j < n, l j a = none := by
  rw [← Option.not_isSome_iff_eq_none, stack_isSome_iff]
  simp only [not_exists, not_and, Option.not_isSome_iff_eq_none]

/-- **A layer hides everything below it exactly when it is opaque.** -/
theorem paint_eq_iff_opaque [Nontrivial β] {l : Layer α β} :
    (∀ f g : α → β, l.paint f = l.paint g) ↔ ∀ a, (l a).isSome := by
  constructor
  · intro h a
    obtain ⟨b, c, hbc⟩ := exists_pair_ne β
    by_contra hn
    have hnone : l a = none := by simpa using hn
    have := congrFun (h (fun _ => b) (fun _ => c)) a
    rw [paint_of_none hnone, paint_of_none hnone] at this
    exact hbc this
  · intro h f g
    funext a
    obtain ⟨b, hb⟩ := Option.isSome_iff_exists.mp (h a)
    rw [paint_of_some hb, paint_of_some hb]

/-- A layer is known by what it paints. -/
theorem paint_injective [Nontrivial β] {l k : Layer α β} (h : ∀ f : α → β, l.paint f = k.paint f) : l = k := by
  funext a
  obtain ⟨b, c, hbc⟩ := exists_pair_ne β
  have hb := congrFun (h (fun _ => b)) a
  have hc := congrFun (h (fun _ => c)) a
  unfold paint at hb hc
  cases hl : l a with
  | none =>
      cases hk : k a with
      | none => rfl
      | some x =>
          rw [hl, hk] at hb hc
          exact absurd (hb.trans hc.symm) hbc
  | some y =>
      cases hk : k a with
      | none =>
          rw [hl, hk] at hb hc
          exact absurd (hb.symm.trans hc) hbc
      | some x =>
          rw [hl, hk] at hb
          exact congrArg some hb

end Layer

/-! ## Programs that paint -/

/-- The buffer program `F` succeeds on every buffer, painting `l` over it. -/
def Paints (F : (α → β) → Except ε (α → β)) (l : Layer α β) : Prop := ∀ f, F f = .ok (l.paint f)

/-- A `for` loop whose iterations paint layers paints their stack. -/
theorem Paints.forFrom {body : Nat → (α → β) → Except ε (α → β)} {l : Nat → Layer α β} (n : Nat)
    (h : ∀ j < n, Paints (body j) (l j)) : Paints (forFrom body n 0) (Layer.stack l n) := by
  intro f
  have hstep : ∀ j g, 0 ≤ j → j < 0 + n → g = (Layer.stack l j).paint f →
      ∃ g', body j g = .ok g' ∧ g' = (Layer.stack l (j + 1)).paint f := by
    rintro j g - hj rfl
    refine ⟨_, h j (by omega) _, ?_⟩
    rw [Layer.stack, Layer.paint_onTop]
  obtain ⟨f', hf', hI⟩ :=
    forFrom_total (fun j g => g = (Layer.stack l j).paint f) n 0 f hstep rfl
  rw [hf', hI, Nat.zero_add]

/-- If `F` succeeds on one buffer, it paints `l` over every buffer. -/
def Uniform (F : (α → β) → Except ε (α → β)) (l : Layer α β) : Prop :=
  ∀ f f', F f = .ok f' → Paints F l

theorem Uniform.forFrom {body : Nat → (α → β) → Except ε (α → β)} {l : Nat → Layer α β} (n : Nat)
    (h : ∀ j < n, Uniform (body j) (l j)) : Uniform (forFrom body n 0) (Layer.stack l n) := by
  intro f f' hf
  have hall : ∀ k < 0 + n, Paints (body k) (l k) :=
    -- what a successful run has shown about the iterations so far
    forFrom_inv (fun j _ => ∀ k < j, Paints (body k) (l k)) n 0 f f'
      (by
        intro j g g' _ hj ih hg k hk
        rcases Nat.lt_succ_iff_lt_or_eq.mp hk with hlt | heq
        · exact ih k hlt
        · subst heq; exact h k (by omega) g g' hg)
      (fun k hk => absurd hk (Nat.not_lt_zero k)) hf
  exact Paints.forFrom n (fun j hj => hall j (by omega))

end Lib
