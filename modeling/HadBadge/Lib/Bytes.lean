import Mathlib.Tactic.Ring
import Mathlib.Tactic.Linarith

/-!
# `Lib.Bytes`: partial byte memories with little-endian access

A `Mem` maps the addresses that exist to bytes, so the bytes an access may touch are exactly the domain it
succeeds on: running a program on a memory that has only the bytes of a region shows that it stays inside
the region.

## Contents
- **Bytes of a number.** `leByte k v` is the `k`-th little-endian byte of `v`, `leVal f n` the number whose
  first `n` bytes are `f`.
- **Access.** `load` and `store` of `n` little-endian bytes, characterised by `load_eq_some_iff` and
  `store_eq_some_iff`; splitting (`load_add`), framing (`store_frame`) and read-over-write
  (`load_store_same`).
- **Order.** `Mem.Sub m m'`: `m'` has at least the bytes of `m` (`load_mono`).
- **Regions.** `m.restrict P`: the bytes of `m` in the region `P` and no others (`load_restrict`).
-/

namespace Lib

/-- A byte memory: `none` where there is nothing to access. -/
abbrev Mem := Int → Option UInt8

/-! ## Bytes of a number -/

/-- Byte `k` of `v`, least significant first. -/
def leByte (k v : Nat) : UInt8 := UInt8.ofNat (v / 256 ^ k)

/-- The number whose `n` lowest bytes are `f 0, …, f (n-1)`. -/
def leVal (f : Nat → UInt8) : Nat → Nat
  | 0   => 0
  | n+1 => (f 0).toNat + 256 * leVal (fun k => f (k + 1)) n

theorem leVal_lt (f : Nat → UInt8) (n : Nat) : leVal f n < 256 ^ n := by
  induction n generalizing f with
  | zero => simp [leVal]
  | succ n ih =>
      have h0 := (f 0).toNat_lt
      have h1 := ih (fun k => f (k + 1))
      simp only [leVal, pow_succ]
      omega

theorem leVal_congr {f g : Nat → UInt8} {n : Nat} (h : ∀ k < n, f k = g k) : leVal f n = leVal g n := by
  induction n generalizing f g with
  | zero => rfl
  | succ n ih =>
      simp only [leVal]
      rw [h 0 (by omega), ih (fun k hk => h (k + 1) (by omega))]

/-- The bytes of `v` give back `v`, as far as `n` bytes reach. -/
theorem leVal_leByte (v n : Nat) : leVal (fun k => leByte k v) n = v % 256 ^ n := by
  induction n generalizing v with
  | zero => simp [leVal, Nat.mod_one]
  | succ n ih =>
      have hshift : (fun k => leByte (k + 1) v) = fun k => leByte k (v / 256) := by
        funext k
        simp only [leByte, pow_succ', Nat.div_div_eq_div_mul]
      have h0 : (leByte 0 v).toNat = v % 256 := by simp [leByte]
      simp only [leVal]
      rw [hshift, ih, h0, pow_succ', Nat.mod_mul]

/-- The bytes of a number of bytes. -/
theorem leByte_leVal (f : Nat → UInt8) {n k : Nat} (hk : k < n) : leByte k (leVal f n) = f k := by
  have h0 := (f 0).toNat_lt
  induction n generalizing f k with
  | zero => omega
  | succ n ih =>
      unfold leByte leVal
      cases k with
      | zero =>
          rw [pow_zero, Nat.div_one, UInt8.ofNat_add, UInt8.ofNat_mul, UInt8.ofNat_toNat]
          show f 0 + 0 * _ = f 0
          rw [UInt8.zero_mul, UInt8.add_zero]
      | succ k =>
          have hdiv : ((f 0).toNat + 256 * leVal (fun k => f (k + 1)) n) / 256 = leVal (fun k => f (k + 1)) n := by omega
          rw [pow_succ', ← Nat.div_div_eq_div_mul, hdiv]
          exact ih (fun k => f (k + 1)) (by omega) (UInt8.toNat_lt _)

/-- `m` bytes, then `n` more. -/
theorem leVal_add (f : Nat → UInt8) (m n : Nat) :
    leVal f (m + n) = leVal f m + 256 ^ m * leVal (fun k => f (m + k)) n := by
  induction m generalizing f with
  | zero => simp [leVal]
  | succ m ih =>
      rw [show m + 1 + n = (m + n) + 1 by omega]
      simp only [leVal, ih, pow_succ]
      have hshift : (fun k => f (m + k + 1)) = fun k => f (m + 1 + k) := by
        funext k; rw [show m + k + 1 = m + 1 + k by omega]
      rw [hshift]; ring

/-! ## Access -/

/-- The `n` bytes at `i`, little-endian, if they are all there. -/
def Mem.load (m : Mem) (i : Int) : Nat → Option Nat
  | 0   => some 0
  | n+1 => do
      let b ← m i
      let r ← Mem.load m (i + 1) n
      return b.toNat + 256 * r

/-- `m` with byte `b` at `i`. -/
def Mem.set (m : Mem) (i : Int) (b : UInt8) : Mem := fun j => if j = i then some b else m j

/-- `m` with the `n` low bytes of `v` at `i`, if those addresses are there. -/
def Mem.store (m : Mem) (i : Int) : (n v : Nat) → Option Mem
  | 0,   _ => some m
  | n+1, v => if (m i).isSome then Mem.store (m.set i (leByte 0 v)) (i + 1) n (v / 256) else none

/-- A store of one byte. -/
theorem Mem.store_one {m : Mem} {i : Int} (h : (m i).isSome) (v : Nat) :
    m.store i 1 v = some (m.set i (leByte 0 v)) := if_pos h

/-- A load succeeds with the value of the bytes it covers. -/
theorem Mem.load_eq_some_iff {m : Mem} {i : Int} {n v : Nat} :
    m.load i n = some v ↔ ∃ f : Nat → UInt8, (∀ k < n, m (i + k) = some (f k)) ∧ v = leVal f n := by
  induction n generalizing i v with
  | zero =>
      constructor
      · intro h; cases h
        exact ⟨fun _ => 0, by omega, rfl⟩
      · rintro ⟨f, -, rfl⟩; rfl
  | succ n ih =>
      constructor
      · intro h
        simp only [Mem.load, Option.bind_eq_bind, Option.bind_eq_some_iff] at h
        obtain ⟨b, hb, r, hr, hv⟩ := h
        obtain ⟨f, hf, rfl⟩ := ih.mp hr
        -- the first byte read, then those of the rest
        refine ⟨fun k => if k = 0 then b else f (k - 1), ?_, ?_⟩
        · intro k hk
          rcases k with _ | k
          · simpa using hb
          · have := hf k (by omega)
            simp only [Nat.add_one_ne_zero, if_false, Nat.add_sub_cancel]
            rw [← this]; congr 1; push_cast; ring
        · have hv' : b.toNat + 256 * leVal f n = v := by simpa using hv
          rw [← hv']; simp [leVal]
      · rintro ⟨f, hf, rfl⟩
        have h0 : m i = some (f 0) := by simpa using hf 0 (by omega)
        have hr : m.load (i + 1) n = some (leVal (fun k => f (k + 1)) n) := by
          refine ih.mpr ⟨fun k => f (k + 1), ?_, rfl⟩
          intro k hk
          rw [← hf (k + 1) (by omega)]; congr 1; push_cast; ring
        simp [Mem.load, h0, hr, leVal]

theorem Mem.load_lt {m : Mem} {i : Int} {n v : Nat} (h : m.load i n = some v) : v < 256 ^ n := by
  obtain ⟨f, -, rfl⟩ := Mem.load_eq_some_iff.mp h
  exact leVal_lt f n

/-- A load succeeds exactly where all its bytes are. -/
theorem Mem.load_isSome_iff {m : Mem} {i : Int} {n : Nat} :
    (∃ v, m.load i n = some v) ↔ ∀ k < n, (m (i + k)).isSome := by
  constructor
  · rintro ⟨v, hv⟩ k hk
    obtain ⟨f, hf, -⟩ := Mem.load_eq_some_iff.mp hv
    simp [hf k hk]
  · intro h
    refine ⟨_, Mem.load_eq_some_iff.mpr ⟨fun k => (m (i + k)).getD 0, ?_, rfl⟩⟩
    intro k hk
    obtain ⟨b, hb⟩ := Option.isSome_iff_exists.mp (h k hk)
    simp [hb]

/-- Loads agree on memories that agree on the bytes loaded. -/
theorem Mem.load_congr {m m' : Mem} {i : Int} {n : Nat} (h : ∀ k < n, m (i + k) = m' (i + k)) :
    m.load i n = m'.load i n := by
  induction n generalizing i with
  | zero => rfl
  | succ n ih =>
      have h0 : m i = m' i := by simpa using h 0 (by omega)
      have hr : m.load (i + 1) n = m'.load (i + 1) n := by
        apply ih
        intro k hk
        have := h (k + 1) (by omega)
        rw [show i + 1 + (k : Int) = i + ((k + 1 : Nat) : Int) by push_cast; ring]
        exact this
      simp only [Mem.load, h0, hr]

/-- Loading `a` bytes and the next `b` bytes is loading `a + b` bytes. -/
theorem Mem.load_add {m : Mem} {i : Int} {a b u v : Nat} (hu : m.load i a = some u)
    (hv : m.load (i + a) b = some v) : m.load i (a + b) = some (u + 256 ^ a * v) := by
  obtain ⟨f, hf, rfl⟩ := Mem.load_eq_some_iff.mp hu
  obtain ⟨g, hg, rfl⟩ := Mem.load_eq_some_iff.mp hv
  refine Mem.load_eq_some_iff.mpr ⟨fun k => if k < a then f k else g (k - a), ?_, ?_⟩
  · intro k hk
    by_cases hka : k < a
    · simp only [hka, if_true]; exact hf k hka
    · simp only [hka, if_false]
      rw [← hg (k - a) (by omega)]; congr 1
      have : ((k - a : Nat) : Int) = k - a := by omega
      rw [this]; ring
  · rw [leVal_add]
    congr 1
    · exact leVal_congr (fun k hk => by simp [hk])
    · congr 1
      exact leVal_congr (fun k _ => by simp)

theorem Mem.set_apply (m : Mem) (i j : Int) (b : UInt8) :
    m.set i b j = if j = i then some b else m j := rfl

/-- A store succeeds where all its bytes are, and changes exactly them. -/
theorem Mem.store_eq_some_iff {m m' : Mem} {i : Int} {n v : Nat} :
    m.store i n v = some m' ↔
      (∀ k < n, (m (i + k)).isSome) ∧
      m' = fun j => if i ≤ j ∧ j < i + n then some (leByte (j - i).toNat v) else m j := by
  induction n generalizing m i v with
  | zero =>
      have : (fun j => if i ≤ j ∧ j < i + (0 : Nat) then some (leByte (j - i).toNat v) else m j) = m := by
        funext j
        rw [if_neg (by omega)]
      rw [this]
      simp only [Mem.store, Option.some.injEq]
      exact ⟨fun h => ⟨by omega, h.symm⟩, fun h => h.2.symm⟩
  | succ n ih =>
      have hstep : ∀ k : Nat, ((m.set i (leByte 0 v)) (i + 1 + k)).isSome
          = (m (i + ((k + 1 : Nat) : Int))).isSome := by
        intro k
        rw [Mem.set_apply, if_neg (by omega)]
        congr 2; push_cast; ring
      -- the run of bytes from `i` is byte `i` and the run from `i + 1`
      have hfun : (fun j => if i + 1 ≤ j ∧ j < i + 1 + (n : Int)
            then some (leByte (j - (i + 1)).toNat (v / 256)) else m.set i (leByte 0 v) j)
          = fun j => if i ≤ j ∧ j < i + ((n + 1 : Nat) : Int)
            then some (leByte (j - i).toNat v) else m j := by
        funext j
        by_cases hj : j = i
        · subst hj
          rw [if_neg (by omega), if_pos (by omega), Mem.set_apply, if_pos rfl]
          simp
        · by_cases hj' : i + 1 ≤ j ∧ j < i + 1 + (n : Int)
          · rw [if_pos hj', if_pos (by omega)]
            have hk : (j - i).toNat = (j - (i + 1)).toNat + 1 := by omega
            rw [hk]
            simp only [leByte, pow_succ', Nat.div_div_eq_div_mul]
          · rw [if_neg hj', if_neg (by push_cast; omega), Mem.set_apply, if_neg hj]
      by_cases h0 : (m i).isSome
      · simp only [Mem.store, h0, if_true]
        rw [ih, hfun]
        constructor
        · rintro ⟨hk, rfl⟩
          refine ⟨?_, rfl⟩
          intro k hk'
          rcases k with _ | k
          · simpa using h0
          · rw [← hstep]; exact hk k (by omega)
        · rintro ⟨hk, rfl⟩
          exact ⟨fun k hk' => by rw [hstep]; exact hk (k + 1) (by omega), rfl⟩
      · simp only [Mem.store, h0, Bool.false_eq_true, if_false, reduceCtorEq, false_iff, not_and]
        intro hk
        exact absurd (by simpa using hk 0 (by omega)) h0

theorem Mem.store_isSome_iff {m : Mem} {i : Int} {n v : Nat} :
    (∃ m', m.store i n v = some m') ↔ ∀ k < n, (m (i + k)).isSome :=
  ⟨fun ⟨_, h⟩ => (Mem.store_eq_some_iff.mp h).1, fun h => ⟨_, Mem.store_eq_some_iff.mpr ⟨h, rfl⟩⟩⟩

/-- A store adds and removes no addresses. -/
theorem Mem.store_dom {m m' : Mem} {i : Int} {n v : Nat} (h : m.store i n v = some m') (j : Int) :
    (m' j).isSome = (m j).isSome := by
  obtain ⟨hd, rfl⟩ := Mem.store_eq_some_iff.mp h
  by_cases hj : i ≤ j ∧ j < i + n
  · have := hd (j - i).toNat (by omega)
    rw [show i + ((j - i).toNat : Int) = j by omega] at this
    simp [hj, this]
  · simp [hj]

/-- A store leaves the bytes outside it alone. -/
theorem Mem.store_frame {m m' : Mem} {i : Int} {n v : Nat} (h : m.store i n v = some m') {j : Int}
    (hj : j < i ∨ i + n ≤ j) : m' j = m j := by
  obtain ⟨-, rfl⟩ := Mem.store_eq_some_iff.mp h
  show (if i ≤ j ∧ j < i + n then _ else m j) = m j
  rw [if_neg (by omega)]

/-- A load of the bytes just stored reads the value back. -/
theorem Mem.load_store_same {m m' : Mem} {i : Int} {n v : Nat} (h : m.store i n v = some m') :
    m'.load i n = some (v % 256 ^ n) := by
  obtain ⟨-, rfl⟩ := Mem.store_eq_some_iff.mp h
  rw [Mem.load_eq_some_iff]
  refine ⟨fun k => leByte k v, ?_, (leVal_leByte v n).symm⟩
  intro k hk
  show (if i ≤ i + (k : Int) ∧ i + (k : Int) < i + n then _ else m (i + k)) = _
  rw [if_pos (by omega)]
  simp

/-! ## Runs of bytes -/

/-- `m` with the bytes `v 0, …, v (n-1)` from `a` on. -/
def Mem.overwrite (m : Mem) (a : Int) (n : Nat) (v : Nat → UInt8) : Mem := fun i =>
  if a ≤ i ∧ i < a + n then some (v (i - a).toNat) else m i

theorem Mem.overwrite_zero (m : Mem) (a : Int) (v : Nat → UInt8) : m.overwrite a 0 v = m := by
  funext i
  exact if_neg (by omega)

/-- Writing the next byte of a run. -/
theorem Mem.overwrite_succ (m : Mem) (a : Int) (n : Nat) (v : Nat → UInt8) :
    (m.overwrite a n v).set (a + n) (v n) = m.overwrite a (n + 1) v := by
  funext i
  unfold Mem.set Mem.overwrite
  by_cases hi : i = a + n
  · subst hi
    rw [if_pos rfl, if_pos (by omega), show (a + (n : Int) - a).toNat = n by omega]
  · rw [if_neg hi]
    by_cases hin : a ≤ i ∧ i < a + n
    · rw [if_pos hin, if_pos (by omega)]
    · rw [if_neg hin, if_neg (by omega)]

theorem Mem.overwrite_at (m : Mem) {a : Int} {n k : Nat} (v : Nat → UInt8) (hk : k < n) :
    m.overwrite a n v (a + k) = some (v k) := by
  unfold Mem.overwrite
  rw [if_pos (by omega), show (a + (k : Int) - a).toNat = k by omega]

theorem Mem.overwrite_frame (m : Mem) {a : Int} {n : Nat} (v : Nat → UInt8) {i : Int}
    (hi : i < a ∨ a + n ≤ i) : m.overwrite a n v i = m i :=
  if_neg (by omega)

theorem Mem.overwrite_isSome (m : Mem) {a : Int} {n : Nat} (v : Nat → UInt8)
    (h : ∀ k < n, (m (a + k)).isSome) (i : Int) : (m.overwrite a n v i).isSome = (m i).isSome := by
  unfold Mem.overwrite
  by_cases hi : a ≤ i ∧ i < a + n
  · have hk := h (i - a).toNat (by omega)
    rw [show a + ((i - a).toNat : Int) = i by omega] at hk
    rw [if_pos hi, hk]
    rfl
  · rw [if_neg hi]

/-! ## Order -/

/-- Every byte of `m` is in `m'`. -/
def Mem.Sub (m m' : Mem) : Prop := ∀ i b, m i = some b → m' i = some b

theorem Mem.load_mono {m m' : Mem} (h : m.Sub m') {i : Int} {n v : Nat} (hl : m.load i n = some v) :
    m'.load i n = some v := by
  obtain ⟨f, hf, hv⟩ := Mem.load_eq_some_iff.mp hl
  exact Mem.load_eq_some_iff.mpr ⟨f, fun k hk => h _ _ (hf k hk), hv⟩

/-! ## Regions -/

/-- The bytes of `m` whose addresses are in `P`. -/
def Mem.restrict (m : Mem) (P : Int → Prop) [DecidablePred P] : Mem := fun i => if P i then m i else none

section Restrict

variable {m : Mem} {P : Int → Prop} [DecidablePred P]

theorem Mem.restrict_of {i : Int} (h : P i) : m.restrict P i = m i := if_pos h

theorem Mem.restrict_of_not {i : Int} (h : ¬ P i) : m.restrict P i = none := if_neg h

theorem Mem.restrict_sub : (m.restrict P).Sub m := by
  intro i b hb
  by_cases hi : P i
  · rwa [Mem.restrict_of hi] at hb
  · rw [Mem.restrict_of_not hi] at hb
    cases hb

/-- A load inside the region reads what is there. -/
theorem Mem.load_restrict {i : Int} {n : Nat} (h : ∀ k < n, P (i + (k : Nat))) :
    (m.restrict P).load i n = m.load i n := by
  apply Mem.load_congr
  intro k hk
  exact Mem.restrict_of (h k hk)

/-- A store inside the region needs no byte outside it. -/
theorem Mem.store_restrict {m' : Mem} {i : Int} {n v : Nat} (h : ∀ k < n, P (i + (k : Nat)))
    (hs : m.store i n v = some m') : (m.restrict P).store i n v = some (m'.restrict P) := by
  obtain ⟨hd, rfl⟩ := Mem.store_eq_some_iff.mp hs
  refine Mem.store_eq_some_iff.mpr ⟨?_, ?_⟩
  · intro k hk
    rw [Mem.restrict_of (h k hk)]
    exact hd k hk
  · funext j
    unfold Mem.restrict
    by_cases hj : i ≤ j ∧ j < i + n
    · have hP := h (j - i).toNat (by omega)
      rw [show i + ((j - i).toNat : Int) = j by omega] at hP
      simp only [if_pos hP, if_pos hj]
    · simp only [if_neg hj]

end Restrict

end Lib
