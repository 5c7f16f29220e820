import HadBadge.Correctness.CpuMemory
import HadBadge.Emu.Paging
import HadBadge.Lib.Masks
import HadBadge.Lib.Sv32
import Mathlib.Tactic.IntervalCases

/-!
# `Correctness.Translation`: `get_phys_addr` is Sv32

Where translation is on, an address is translated as the page tables in RAM say. The accessed and dirty bits of the
leaf are all that a translation changes. The code, and `Lib.Sv32` with it, is looser than the RISC-V manual: it takes
misaligned large pages, lets the supervisor fetch from pages of the user when `SUM` is set, and cuts physical
addresses to 32 bits.

## Contents
- **Words and bits.** `and_bit_iff`; the fields of addresses and entries.
- **Entries.** `pteAt`, `physReadU32_pteAt`, `physWriteU32_pteAt`, `pteAllows_iff`.
- **Translation.** `effPriv`, `Translated`; `pageWalk_leaf` for the end of a walk and `getPhysAddr_translated`.
- **Again.** `getPhysAddr_congr`, `getPhysAddr_page` and `getPhysAddr_repeat`.
-/

namespace HadBadge

open Lib

variable {mm : MainMem} {ram ram' : Ram} {cpu cpu' : Cpu} {vaddr vaddr' paddr : UInt32} {access : Access} {priv : Nat}

/-! ## Words and bits -/

/-- A flag of a register. -/
theorem and_bit_iff (x : UInt32) {i : Nat} (hi : i < 32) :
    x &&& (1 : UInt32) <<< UInt32.ofNat i ≠ 0 ↔ x.toNat.testBit i = true := by
  have hmask : ((1 : UInt32) <<< UInt32.ofNat i).toNat = 2 ^ i := by
    interval_cases i <;> decide
  rw [Ne, ← UInt32.toNat_inj, UInt32.toNat_and, hmask, UInt32.toNat_zero]
  rw [Nat.and_two_pow]
  cases x.toNat.testBit i with
  | true => simp
  | false => simp

/-- `x << 12` in a word. -/
theorem shl12_toNat (x : UInt32) : (x <<< 12).toNat = x.toNat * 2 ^ 12 % 2 ^ 32 := by
  rw [UInt32.toNat_shiftLeft]
  show x.toNat <<< 12 % 2 ^ 32 = _
  rw [Nat.shiftLeft_eq]

theorem shr_toNat (x : UInt32) {n : Nat} (hn : n < 32) : (x >>> UInt32.ofNat n).toNat = x.toNat / 2 ^ n := by
  have hmod : n % 2 ^ 32 % 32 = n := by omega
  rw [UInt32.toNat_shiftRight, UInt32.toNat_ofNat', hmod, Nat.shiftRight_eq_div_pow]

/-- The address of an entry: the table is at page `x`. -/
theorem entry_toNat (x vaddr : UInt32) {n : Nat} (hn : n ≤ 1) :
    (x <<< 12 + (((vaddr >>> UInt32.ofNat (12 + 10 * n)) &&& 0x3ff) <<< 2)).toNat =
      Sv32.entryAddr x.toNat (vaddr.toNat / 2 ^ (12 + 10 * n) % 2 ^ 10) % 2 ^ 32 := by
  have hidx : ((vaddr >>> UInt32.ofNat (12 + 10 * n)) &&& 0x3ff).toNat = vaddr.toNat / 2 ^ (12 + 10 * n) % 2 ^ 10 := by
    rw [UInt32.toNat_and, shr_toNat _ (by omega)]
    exact Nat.and_two_pow_sub_one_eq_mod _ 10
  have hshl (y : UInt32) : (y <<< 2).toNat = y.toNat * 4 % 2 ^ 32 := by
    rw [UInt32.toNat_shiftLeft]
    show y.toNat <<< 2 % 2 ^ 32 = _
    rw [Nat.shiftLeft_eq]
  rw [UInt32.toNat_add, shl12_toNat, hshl, hidx]
  unfold Sv32.entryAddr
  omega

/-- The physical address from a leaf. -/
theorem join_toNat (vaddr pte : UInt32) {n : Nat} (hn : n = 12 ∨ n = 22) :
    ((vaddr &&& ((1 : UInt32) <<< UInt32.ofNat n - (1 : UInt32))) |||
      (((pte >>> 10) <<< 12) &&& ~~~((1 : UInt32) <<< UInt32.ofNat n - (1 : UInt32)))).toNat =
      Sv32.Leaf.physical ⟨0, pte.toNat, n⟩ vaddr.toNat % 2 ^ 32 := by
  have hlow : ((1 : UInt32) <<< UInt32.ofNat n - 1).toNat = 2 ^ n - 1 := by
    rcases hn with rfl | rfl <;> decide
  have hhigh : (~~~((1 : UInt32) <<< UInt32.ofNat n - 1)).toNat = 2 ^ 32 - 2 ^ n := by
    rcases hn with rfl | rfl <;> decide
  have hle : n ≤ 32 := by omega
  have hppn : (pte >>> 10).toNat = pte.toNat / 2 ^ 10 := shr_toNat pte (by decide)
  rw [UInt32.toNat_or, UInt32.toNat_and, UInt32.toNat_and, hlow, hhigh, Nat.and_two_pow_sub_one_eq_mod,
    and_high (UInt32.toNat_lt _) hle, Nat.or_comm, Nat.mul_comm,
    ← Nat.two_pow_add_eq_or_of_lt (Nat.mod_lt _ (by positivity)), shl12_toNat, hppn]
  unfold Sv32.Leaf.physical Sv32.ppn
  rcases hn with rfl | rfl <;> dsimp only <;> omega

/-! ## Entries -/

/-- The entry at a physical address, of which the machine has 32 bits. -/
def pteAt (ram : Ram) (a : Nat) : Option Nat := ram.guest.load (a % 2 ^ 32 : Nat) 4

/-- What is in RAM for the CPU. -/
theorem pteAt_isSome {a v : Nat} (h : pteAt ram a = some v) : 0x1000 ≤ a % 2 ^ 32 ∧ a % 2 ^ 32 + 4 ≤ machRamSize ∧
    ram.mem.load (a % 2 ^ 32 : Nat) 4 = some v ∧ v < 2 ^ 32 := by
  have hmem := Mem.load_mono ram.guest_sub h
  have hbytes := Mem.load_isSome_iff.mp ⟨v, h⟩
  have hfirst := hbytes 0 (by decide)
  have hlast := hbytes 3 (by decide)
  unfold Ram.guest at hfirst hlast
  have hlo : 0x1000 ≤ a % 2 ^ 32 := by
    by_contra hlt
    rw [if_neg (by unfold firstPageSz; omega)] at hfirst
    cases hfirst
  rw [if_pos (by unfold firstPageSz; omega), ram.dom] at hlast
  exact ⟨hlo, by omega, hmem, Mem.load_lt hmem⟩

theorem pteAt_eq {addr : UInt32} (h0 : 0x1000 ≤ addr.toNat) : pteAt ram addr.toNat = ram.mem.load addr.toNat 4 := by
  unfold pteAt
  rw [Nat.mod_eq_of_lt addr.toNat_lt]
  exact Mem.load_congr (fun k _ => ram.guest_of_le (by unfold firstPageSz; omega))

/-- `phys_read_u32`: 0 where there is no RAM. -/
theorem physReadU32_pteAt (mm : MainMem) (ram : Ram) {addr : UInt32} (haddr : addr.toNat % 4 = 0) :
    physReadU32 mm ram addr = .ok (UInt32.ofNat ((pteAt ram addr.toNat).getD 0)) := by
  by_cases hin : 0x1000 ≤ addr.toNat ∧ addr.toNat < machRamSize
  · obtain ⟨h0, h1⟩ := hin
    have hfits : addr.toNat + 4 ≤ machRamSize := by simp only [machRamSize] at h1 ⊢; omega
    obtain ⟨v, hv⟩ := ram.load_of_range (i := (addr.toNat : Int)) (n := 4) (by omega) (by omega)
    unfold physReadU32
    rw [getPhysMemRange_ram h0 h1, pteAt_eq h0, hv]
    show (do return UInt32.ofNat (← hostLoad mm ram (ramPtr (mm.base + 0x1000) 0x1000 addr) 4)) = _
    rw [hostLoad_eq (index_ramPtr mm h1) hv, ok_bind]
    rfl
  · have hnone : pteAt ram addr.toNat = none := by
      cases h : pteAt ram addr.toNat with
      | none => rfl
      | some v =>
        obtain ⟨h0, h1, -⟩ := pteAt_isSome h
        rw [Nat.mod_eq_of_lt addr.toNat_lt] at h0 h1
        exact absurd ⟨h0, by omega⟩ hin
    rw [hnone]
    unfold physReadU32
    cases hpr : getPhysMemRange (machMap mm) addr.toNat with
    | none => rfl
    | some pr =>
      obtain ⟨a, size, kind⟩ := pr
      cases kind with
      | device dev flags => rfl
      | ram physMem => exact absurd (getPhysMemRange_is_ram hpr rfl).2 hin

/-- Memory in which the entry at `a` has become `v`, and nothing else has changed. -/
structure EntrySet (ram : Ram) (a v : Nat) (ram' : Ram) : Prop where
  entry : pteAt ram' a = some v
  frame : ∀ i : Int, (i < (a % 2 ^ 32 : Nat) ∨ ((a % 2 ^ 32 : Nat) : Int) + 4 ≤ i) → ram'.mem i = ram.mem i

theorem EntrySet.self {a v : Nat} (h : pteAt ram a = some v) : EntrySet ram a v ram := ⟨h, fun _ _ => rfl⟩

/-- There is one such memory. -/
theorem EntrySet.unique {a v : Nat} {ram₁ ram₂ : Ram} (h₁ : EntrySet ram a v ram₁) (h₂ : EntrySet ram a v ram₂) :
    ram₁ = ram₂ := by
  obtain ⟨-, -, hl₁, -⟩ := pteAt_isSome h₁.entry
  obtain ⟨-, -, hl₂, -⟩ := pteAt_isSome h₂.entry
  obtain ⟨f₁, hf₁, rfl⟩ := Mem.load_eq_some_iff.mp hl₁
  obtain ⟨f₂, hf₂, hval⟩ := Mem.load_eq_some_iff.mp hl₂
  have hmem : ram₁.mem = ram₂.mem := by
    funext i
    by_cases hi : i < (a % 2 ^ 32 : Nat) ∨ ((a % 2 ^ 32 : Nat) : Int) + 4 ≤ i
    · rw [h₁.frame i hi, h₂.frame i hi]
    · -- a byte of the entry
      obtain ⟨k, hk, rfl⟩ : ∃ k : Nat, k < 4 ∧ i = (a % 2 ^ 32 : Nat) + (k : Int) :=
        ⟨(i - (a % 2 ^ 32 : Nat)).toNat, by omega, by omega⟩
      rw [hf₁ k hk, hf₂ k hk, ← leByte_leVal f₁ hk, hval, leByte_leVal f₂ hk]
  cases ram₁
  cases ram₂
  cases hmem
  rfl

/-- `phys_write_u32` to an entry. -/
theorem physWriteU32_pteAt (mm : MainMem) {addr : UInt32} (val : UInt32) {v : Nat} (haddr : addr.toNat % 4 = 0)
    (h : pteAt ram addr.toNat = some v) :
    ∃ ram', physWriteU32 mm ram addr val = .ok ram' ∧ EntrySet ram addr.toNat val.toNat ram' := by
  obtain ⟨h0, hfits, -, -⟩ := pteAt_isSome h
  rw [Nat.mod_eq_of_lt addr.toNat_lt] at h0 hfits
  have h1 : addr.toNat < machRamSize := by omega
  obtain ⟨mem', hmem⟩ : ∃ mem', ram.mem.store (addr.toNat : Int) 4 val.toNat = some mem' :=
    Mem.store_isSome_iff.mpr (fun i hi => ram.isSome_of_range (by omega) (by omega))
  obtain ⟨ram', hram, rfl⟩ := hostStore_eq (index_ramPtr mm h1) hmem
  refine ⟨ram', ?_, ?_, ?_⟩
  · unfold physWriteU32
    rw [getPhysMemRange_ram h0 h1]
    exact hram
  · rw [pteAt_eq h0, Mem.load_store_same hmem]
    exact congrArg some (Nat.mod_eq_of_lt val.toNat_lt)
  · intro i hi
    rw [Nat.mod_eq_of_lt addr.toNat_lt] at hi
    exact Mem.store_frame hmem hi

/-! ### Permissions -/

def Access.sv32 : Access → Sv32.Access
  | .read => .read
  | .write => .write
  | .code => .fetch

/-- What permissions go by. Every privilege but the supervisor's is the user's: the machine's is not translated. -/
def pteContext (mstatus : UInt32) (priv : Nat) : Sv32.Context where
  user := priv ≠ prvS
  sum := mstatus.toNat.testBit 18
  mxr := mstatus.toNat.testBit 19

/-- The bits `R`, `W` and `X` as the code takes them out. -/
theorem xwr_toNat (pte : UInt32) : ((pte >>> 1) &&& 7).toNat = pte.toNat / 2 % 8 := by
  have hshr : (pte >>> 1).toNat = pte.toNat / 2 ^ 1 := shr_toNat pte (by decide)
  rw [UInt32.toNat_and, hshr]
  exact Nat.and_two_pow_sub_one_eq_mod _ 3

theorem xwr_bit (pte : UInt32) {i : Nat} (hi : i < 3) :
    ((pte >>> 1) &&& 7).toNat.testBit i = pte.toNat.testBit (i + 1) := by
  have hdiv : (pte.toNat / 2 ^ 1).testBit i = pte.toNat.testBit (i + 1) := Nat.testBit_div_two_pow _ _
  rw [xwr_toNat, show 8 = 2 ^ 3 from rfl, Nat.testBit_mod_two_pow, decide_eq_true hi, Bool.true_and]
  exact hdiv

theorem isLeaf_iff (pte : UInt32) : Sv32.IsLeaf pte.toNat ↔ (pte >>> 1) &&& 7 ≠ 0 := by
  unfold Sv32.IsLeaf
  rw [← xwr_bit pte (i := 0) (by decide), ← xwr_bit pte (i := 1) (by decide), ← xwr_bit pte (i := 2) (by decide), Ne,
    ← UInt32.toNat_inj, UInt32.toNat_zero]
  have hlt : ((pte >>> 1) &&& 7).toNat < 8 := xwr_toNat pte ▸ Nat.mod_lt _ (by decide)
  generalize ((pte >>> 1) &&& 7).toNat = x at hlt
  interval_cases x <;> decide

theorem valid_iff (pte : UInt32) : Sv32.Valid pte.toNat ↔ pte &&& pteVMask ≠ 0 := (and_bit_iff pte (by decide)).symm

/-- What is writable is readable, for the bits `R`, `W` and `X` in a number. -/
theorem readable_iff {n : Nat} (hn : n < 8) :
    (UInt32.ofNat n ≠ 2 ∧ UInt32.ofNat n ≠ 6) ↔ (n.testBit 1 = true → n.testBit 0 = true) := by
  interval_cases n <;> decide

/-- The protection check, for the bits `R`, `W` and `X` in a number. -/
theorem protection_iff {mxr : Prop} [Decidable mxr] {b : Bool} (hb : mxr ↔ b = true) (access : Access) {n : Nat}
    (hn : n < 8) :
    ((if mxr then UInt32.ofNat n ||| (UInt32.ofNat n >>> 2) else UInt32.ofNat n) >>> access.toU32) &&& 1 ≠ 0 ↔
      match access.sv32 with
      | .read  => n.testBit 0 = true ∨ (b = true ∧ n.testBit 2 = true)
      | .write => n.testBit 1 = true
      | .fetch => n.testBit 2 = true := by
  cases b with
  | true =>
    rw [if_pos (hb.mpr rfl)]
    cases access <;> simp only [Access.sv32] <;> interval_cases n <;> decide
  | false =>
    rw [if_neg (fun h => Bool.false_ne_true (hb.mp h))]
    cases access <;> simp only [Access.sv32] <;> interval_cases n <;> decide

/-- **The checks on a leaf are those of the architecture.** -/
theorem pteAllows_iff (mstatus : UInt32) (priv : Nat) (access : Access) (pte : UInt32) :
    pteAllows mstatus priv access pte ((pte >>> 1) &&& 7) = true ↔
      Sv32.Permits (pteContext mstatus priv) access.sv32 pte.toNat := by
  have hu : pte &&& pteUMask ≠ 0 ↔ pte.toNat.testBit 4 = true := and_bit_iff pte (by decide)
  have hsum : mstatus &&& mstatusSum ≠ 0 ↔ mstatus.toNat.testBit 18 = true := and_bit_iff mstatus (by decide)
  have hmxr : mstatus &&& mstatusMxr ≠ 0 ↔ mstatus.toNat.testBit 19 = true := and_bit_iff mstatus (by decide)
  have huser : (if priv = prvS then ¬ (pte &&& pteUMask ≠ 0 ∧ mstatus &&& mstatusSum = 0) else pte &&& pteUMask ≠ 0) ↔
      (if decide (priv ≠ prvS) = true then pte.toNat.testBit 4 = true
        else pte.toNat.testBit 4 = true → mstatus.toNat.testBit 18 = true) := by
    by_cases hpriv : priv = prvS
    · rw [if_pos hpriv, if_neg (by simpa using hpriv), hu, ← hsum]
      tauto
    · rw [if_neg hpriv, if_pos (by simpa using hpriv), hu]
  have hlt : ((pte >>> 1) &&& 7).toNat < 8 := xwr_toNat pte ▸ Nat.mod_lt _ (by decide)
  have hread := readable_iff hlt
  have hprot := protection_iff hmxr access hlt
  rw [UInt32.ofNat_toNat, xwr_bit pte (by decide), xwr_bit pte (by decide)] at hread
  rw [UInt32.ofNat_toNat, xwr_bit pte (by decide), xwr_bit pte (by decide), xwr_bit pte (by decide)] at hprot
  unfold pteAllows Sv32.Permits pteContext
  dsimp only
  rw [decide_eq_true_iff]
  exact and_congr hread (and_congr huser hprot)

/-! ## Translation -/

theorem pteAt_mod (ram : Ram) (a : Nat) : pteAt ram (a % 2 ^ 32) = pteAt ram a := by
  unfold pteAt
  rw [Nat.mod_mod]

/-- The bits that a walk sets in a leaf. -/
theorem mark_toNat (pte : UInt32) (access : Access) :
    (if access = .write then pte ||| pteAMask ||| pteDMask else pte ||| pteAMask).toNat =
      Sv32.mark access.sv32 pte.toNat := by
  unfold Sv32.mark
  cases access
  · exact (Nat.or_zero _).symm
  · rfl
  · exact (Nat.or_zero _).symm

section Walk

variable {mstatus : UInt32} {n a e : Nat} {x : UInt32}

/-- Entries are aligned words. -/
theorem entry_aligned (x vaddr : UInt32) (hn : n ≤ 1) :
    (x <<< 12 + (((vaddr >>> UInt32.ofNat (12 + 10 * n)) &&& 0x3ff) <<< 2)).toNat % 4 = 0 := by
  obtain ⟨c, hc⟩ := Sv32.entryAddr_aligned x.toNat (vaddr.toNat / 2 ^ (12 + 10 * n) % 2 ^ 10)
  rw [entry_toNat x vaddr hn, hc]
  omega

/-- The entry that a level of a walk reads. -/
theorem entry_read (mm : MainMem) (hn : n ≤ 1) (ha : a = Sv32.entryAddr x.toNat (vaddr.toNat / 2 ^ (12 + 10 * n) % 2 ^ 10)) :
    physReadU32 mm ram (x <<< 12 + (((vaddr >>> UInt32.ofNat (12 + 10 * n)) &&& 0x3ff) <<< 2)) =
      .ok (UInt32.ofNat ((pteAt ram a).getD 0)) := by
  rw [physReadU32_pteAt mm ram (entry_aligned x vaddr hn), entry_toNat x vaddr hn, ← ha, pteAt_mod]

/-- An entry as a word. -/
theorem pte_toNat (h : pteAt ram a = some e) : (UInt32.ofNat e).toNat = e :=
  UInt32.toNat_ofNat_of_lt' (pteAt_isSome h).2.2.2

theorem pageWalk_invalid (hn : n ≤ 1) (ha : a = Sv32.entryAddr x.toNat (vaddr.toNat / 2 ^ (12 + 10 * n) % 2 ^ 10))
    (h : ∀ e, pteAt ram a = some e → ¬ Sv32.Valid e) :
    pageWalk mm mstatus priv vaddr access (n + 1) (x <<< 12) ram = .ok (none, ram) := by
  have hzero : UInt32.ofNat ((pteAt ram a).getD 0) &&& pteVMask = 0 := by
    cases hpte : pteAt ram a with
    | none => rfl
    | some e =>
      have hnot := h e hpte
      rw [← pte_toNat hpte, valid_iff, not_not] at hnot
      exact hnot
  unfold pageWalk
  dsimp only
  rw [entry_read mm hn ha, ok_bind, if_pos hzero]
  rfl

theorem pageWalk_table (hn : n ≤ 1) (ha : a = Sv32.entryAddr x.toNat (vaddr.toNat / 2 ^ (12 + 10 * n) % 2 ^ 10))
    (h : pteAt ram a = some e) (hvalid : Sv32.Valid e) (hleaf : ¬ Sv32.IsLeaf e) :
    pageWalk mm mstatus priv vaddr access (n + 1) (x <<< 12) ram =
      pageWalk mm mstatus priv vaddr access n ((UInt32.ofNat e >>> 10) <<< 12) ram := by
  rw [← pte_toNat h] at hvalid hleaf
  rw [isLeaf_iff, not_not] at hleaf
  conv_lhs => unfold pageWalk
  dsimp only
  rw [entry_read mm hn ha, ok_bind, h, Option.getD_some, if_neg ((valid_iff _).mp hvalid), if_pos hleaf]

theorem pageWalk_denied (hn : n ≤ 1) (ha : a = Sv32.entryAddr x.toNat (vaddr.toNat / 2 ^ (12 + 10 * n) % 2 ^ 10))
    (h : pteAt ram a = some e) (hvalid : Sv32.Valid e) (hleaf : Sv32.IsLeaf e)
    (hdenied : ¬ Sv32.Permits (pteContext mstatus priv) access.sv32 e) :
    pageWalk mm mstatus priv vaddr access (n + 1) (x <<< 12) ram = .ok (none, ram) := by
  rw [← pte_toNat h] at hvalid hleaf hdenied
  rw [← pteAllows_iff] at hdenied
  unfold pageWalk
  dsimp only
  rw [entry_read mm hn ha, ok_bind, h, Option.getD_some, if_neg ((valid_iff _).mp hvalid),
    if_neg ((isLeaf_iff _).mp hleaf), if_neg hdenied]
  rfl

/-- The end of a walk. -/
theorem pageWalk_leaf (mm : MainMem) (hn : n ≤ 1)
    (ha : a = Sv32.entryAddr x.toNat (vaddr.toNat / 2 ^ (12 + 10 * n) % 2 ^ 10))
    (h : pteAt ram a = some e) (hvalid : Sv32.Valid e) (hleaf : Sv32.IsLeaf e)
    (hpermits : Sv32.Permits (pteContext mstatus priv) access.sv32 e) :
    ∃ paddr ram', pageWalk mm mstatus priv vaddr access (n + 1) (x <<< 12) ram = .ok (some paddr, ram') ∧
      paddr.toNat = Sv32.Leaf.physical ⟨a, e, 12 + 10 * n⟩ vaddr.toNat % 2 ^ 32 ∧
      EntrySet ram a (Sv32.mark access.sv32 e) ram' := by
  obtain ⟨pte, rfl⟩ : ∃ pte : UInt32, e = pte.toNat := ⟨UInt32.ofNat e, (pte_toNat h).symm⟩
  have hentry := entry_toNat x vaddr hn
  rw [← ha] at hentry
  have hat : pteAt ram (x <<< 12 + (((vaddr >>> UInt32.ofNat (12 + 10 * n)) &&& 0x3ff) <<< 2)).toNat = some pte.toNat := by
    rw [hentry, pteAt_mod, h]
  have hA : pte &&& pteAMask ≠ 0 ↔ pte.toNat.testBit 6 = true := and_bit_iff pte (by decide)
  have hD : pte &&& pteDMask ≠ 0 ↔ pte.toNat.testBit 7 = true := and_bit_iff pte (by decide)
  obtain ⟨ram₁, hram₁, hset⟩ := physWriteU32_pteAt mm
    (if access = .write then pte ||| pteAMask ||| pteDMask else pte ||| pteAMask) (entry_aligned x vaddr hn) hat
  rw [mark_toNat, hentry] at hset
  have hpaddr := join_toNat vaddr pte (n := 12 + 10 * n) (by omega)
  unfold pageWalk
  dsimp only
  rw [entry_read mm hn ha, ok_bind, h, Option.getD_some, UInt32.ofNat_toNat, if_neg ((valid_iff _).mp hvalid),
    if_neg ((isLeaf_iff _).mp hleaf), if_pos ((pteAllows_iff _ _ _ _).mpr hpermits)]
  split
  -- the bits are written back
  · refine ⟨_, ram₁, by rw [hram₁, ok_bind]; rfl, hpaddr, ?_, fun i hi => hset.frame i (by rwa [Nat.mod_mod])⟩
    rw [← pteAt_mod]
    exact hset.entry
  -- they are set already
  · next hdone =>
    rw [not_or, not_and] at hdone
    refine ⟨_, ram, rfl, hpaddr, .self ?_⟩
    rw [h, Sv32.mark_eq_self (hA.mp hdone.1)]
    intro hw
    have haccess : access = .write := by cases access <;> first | rfl | cases hw
    exact hD.mp (fun h0 => hdone.2 h0 haccess)

/-- The last level of a walk. -/
theorem pageWalk_last (mm : MainMem) (ha : a = Sv32.entryAddr x.toNat (vaddr.toNat / 2 ^ (12 + 10 * 0) % 2 ^ 10)) :
    (∃ e paddr ram', pteAt ram a = some e ∧ Sv32.Valid e ∧ Sv32.IsLeaf e ∧
      Sv32.Permits (pteContext mstatus priv) access.sv32 e ∧
      pageWalk mm mstatus priv vaddr access (0 + 1) (x <<< 12) ram = .ok (some paddr, ram') ∧
      paddr.toNat = Sv32.Leaf.physical ⟨a, e, 12⟩ vaddr.toNat % 2 ^ 32 ∧
      EntrySet ram a (Sv32.mark access.sv32 e) ram') ∨
    (∀ e, pteAt ram a = some e → Sv32.Valid e → Sv32.IsLeaf e →
        ¬ Sv32.Permits (pteContext mstatus priv) access.sv32 e) ∧
      pageWalk mm mstatus priv vaddr access (0 + 1) (x <<< 12) ram = .ok (none, ram) := by
  by_cases hentry : ∃ e, pteAt ram a = some e ∧ Sv32.Valid e
  swap
  · exact .inr ⟨fun e he hv => absurd ⟨e, he, hv⟩ hentry,
      pageWalk_invalid (Nat.zero_le 1) ha (fun e he hv => hentry ⟨e, he, hv⟩)⟩
  obtain ⟨e, he, hvalid⟩ := hentry
  by_cases hleaf : Sv32.IsLeaf e
  swap
  · refine .inr ⟨fun e' he' _ hleaf' => ?_, pageWalk_table (Nat.zero_le 1) ha he hvalid hleaf⟩
    exact absurd (Option.some.inj (he'.symm.trans he) ▸ hleaf') hleaf
  by_cases hpermits : Sv32.Permits (pteContext mstatus priv) access.sv32 e
  · obtain ⟨paddr, ram', hr, hpaddr, hset⟩ := pageWalk_leaf mm (Nat.zero_le 1) ha he hvalid hleaf hpermits
    exact .inl ⟨e, paddr, ram', he, hvalid, hleaf, hpermits, hr, hpaddr, hset⟩
  · refine .inr ⟨fun e' he' _ _ => ?_, pageWalk_denied (Nat.zero_le 1) ha he hvalid hleaf hpermits⟩
    rwa [Option.some.inj (he'.symm.trans he)]

end Walk

/-- The privilege that an access is made with. -/
def effPriv (cpu : Cpu) (access : Access) : Nat :=
  if cpu.mstatus &&& mstatusMprv ≠ 0 ∧ access ≠ .code then ((cpu.mstatus >>> mstatusMppShift) &&& 3).toNat else cpu.priv

/-- Translation is on for an access. -/
def Translating (cpu : Cpu) (access : Access) : Prop := effPriv cpu access ≠ prvM ∧ cpu.satp >>> 31 ≠ 0

theorem getPhysAddr_identity (h : ¬ Translating cpu access) (mm : MainMem) (ram : Ram) (vaddr : UInt32) :
    getPhysAddr mm cpu ram vaddr access = .ok (some vaddr, ram) := by
  show (if effPriv cpu access = prvM then _ else if cpu.satp >>> 31 = 0 then _ else _) = _
  split
  · rfl
  · next hpriv =>
    rw [if_pos (by_contra (fun hmode => h ⟨hpriv, hmode⟩))]

/-- The leaf for an address. -/
abbrev FindsLeaf (cpu : Cpu) (ram : Ram) (vaddr : UInt32) : Sv32.Leaf → Prop :=
  Sv32.Finds (pteAt ram) (cpu.satp.toNat % 2 ^ 22) vaddr.toNat

/-- A leaf permits an access. -/
abbrev LeafPermits (cpu : Cpu) (access : Access) (l : Sv32.Leaf) : Prop :=
  Sv32.Permits (pteContext cpu.mstatus (effPriv cpu access)) access.sv32 l.entry

/-- **What a translation comes to**: the physical address, and memory with the bits that it sets in the leaf. -/
structure Translated (cpu : Cpu) (access : Access) (vaddr : UInt32) (ram : Ram) (l : Sv32.Leaf) (paddr : UInt32)
    (ram' : Ram) : Prop where
  finds : FindsLeaf cpu ram vaddr l
  permits : LeafPermits cpu access l
  paddr : paddr.toNat = l.physical vaddr.toNat % 2 ^ 32
  ram : EntrySet ram l.addr (Sv32.mark access.sv32 l.entry) ram'

/-- A translation comes to one thing only. -/
theorem Translated.unique {l l' : Sv32.Leaf} {paddr' : UInt32} {ram₁ ram₂ : Ram}
    (h : Translated cpu access vaddr ram l paddr ram₁) (h' : Translated cpu access vaddr ram l' paddr' ram₂) :
    paddr' = paddr ∧ ram₂ = ram₁ := by
  obtain rfl := h.finds.unique h'.finds
  exact ⟨UInt32.toNat_inj.mp (h'.paddr.trans h.paddr.symm), h'.ram.unique h.ram⟩

/-- **A walk comes to a leaf that permits the access, or it fails and changes nothing.** -/
theorem getPhysAddr_translated (ht : Translating cpu access) (mm : MainMem) (ram : Ram) (vaddr : UInt32) :
    (∃ l paddr ram', Translated cpu access vaddr ram l paddr ram' ∧
        getPhysAddr mm cpu ram vaddr access = .ok (some paddr, ram')) ∨
      (∀ l, FindsLeaf cpu ram vaddr l → ¬ LeafPermits cpu access l) ∧
        getPhysAddr mm cpu ram vaddr access = .ok (none, ram) := by
  have hwalk : getPhysAddr mm cpu ram vaddr access = pageWalk mm cpu.mstatus (effPriv cpu access) vaddr access (1 + 1)
      ((cpu.satp &&& ((1 : UInt32) <<< 22 - 1)) <<< 12) ram := by
    show (if effPriv cpu access = prvM then _ else if cpu.satp >>> 31 = 0 then _ else _) = _
    rw [if_neg ht.1, if_neg ht.2]
    rfl
  have hroot : (cpu.satp &&& ((1 : UInt32) <<< 22 - 1)).toNat = cpu.satp.toNat % 2 ^ 22 := by
    rw [UInt32.toNat_and]
    exact Nat.and_two_pow_sub_one_eq_mod cpu.satp.toNat 22
  rw [hwalk]
  generalize cpu.satp &&& ((1 : UInt32) <<< 22 - 1) = root at hroot
  have ha₁ : Sv32.entryAddr (cpu.satp.toNat % 2 ^ 22) (vaddr.toNat / 2 ^ 22 % 2 ^ 10) =
      Sv32.entryAddr root.toNat (vaddr.toNat / 2 ^ (12 + 10 * 1) % 2 ^ 10) := by rw [hroot]
  -- the table of the root
  by_cases hdir : ∃ e, pteAt ram (Sv32.entryAddr (cpu.satp.toNat % 2 ^ 22) (vaddr.toNat / 2 ^ 22 % 2 ^ 10)) = some e ∧
      Sv32.Valid e
  swap
  · refine .inr ⟨fun l hl => ?_, pageWalk_invalid (le_refl 1) ha₁ (fun e he hv => hdir ⟨e, he, hv⟩)⟩
    cases hl with
    | mega he hv => exact absurd ⟨_, he, hv⟩ hdir
    | page hd hv => exact absurd ⟨_, hd, hv⟩ hdir
  obtain ⟨d, hd, hdvalid⟩ := hdir
  by_cases hdleaf : Sv32.IsLeaf d
  · by_cases hpermits : Sv32.Permits (pteContext cpu.mstatus (effPriv cpu access)) access.sv32 d
    · obtain ⟨paddr, ram', hr, hpaddr, hset⟩ := pageWalk_leaf mm (le_refl 1) ha₁ hd hdvalid hdleaf hpermits
      exact .inl ⟨_, paddr, ram', ⟨.mega hd hdvalid hdleaf, hpermits, hpaddr, hset⟩, hr⟩
    · refine .inr ⟨fun l hl => ?_, pageWalk_denied (le_refl 1) ha₁ hd hdvalid hdleaf hpermits⟩
      obtain rfl := Sv32.Finds.unique (.mega hd hdvalid hdleaf) hl
      exact hpermits
  -- the table that it points to
  rw [pageWalk_table (le_refl 1) ha₁ hd hdvalid hdleaf]
  have hppn : (UInt32.ofNat d >>> 10).toNat = Sv32.ppn d := by
    have hshr : (UInt32.ofNat d >>> 10).toNat = (UInt32.ofNat d).toNat / 2 ^ 10 := shr_toNat _ (by decide)
    rw [hshr, pte_toNat hd, Sv32.ppn]
  have ha₀ : Sv32.entryAddr (Sv32.ppn d) (vaddr.toNat / 2 ^ 12 % 2 ^ 10) =
      Sv32.entryAddr (UInt32.ofNat d >>> 10).toNat (vaddr.toNat / 2 ^ (12 + 10 * 0) % 2 ^ 10) := by rw [hppn]
  rcases pageWalk_last mm ha₀ with ⟨e, paddr, ram', he, hvalid, hleaf, hpermits, hr, hpaddr, hset⟩ | ⟨hnone, hr⟩
  · exact .inl ⟨_, paddr, ram', ⟨.page hd hdvalid hdleaf he hvalid hleaf, hpermits, hpaddr, hset⟩, hr⟩
  · refine .inr ⟨fun l hl => ?_, hr⟩
    cases hl with
    | mega he _ hleaf => exact absurd (Option.some.inj (he.symm.trans hd) ▸ hleaf) hdleaf
    | page hd' _ _ he hvalid hleaf =>
      obtain rfl := Option.some.inj (hd'.symm.trans hd)
      exact hnone _ he hvalid hleaf

/-- A translation that has come to an address. -/
theorem getPhysAddr_some (ht : Translating cpu access)
    (h : getPhysAddr mm cpu ram vaddr access = .ok (some paddr, ram')) :
    ∃ l, Translated cpu access vaddr ram l paddr ram' := by
  rcases getPhysAddr_translated ht mm ram vaddr with ⟨l, _, _, htr, hr⟩ | ⟨-, hr⟩
  · cases h.symm.trans hr
    exact ⟨l, htr⟩
  · cases h.symm.trans hr

theorem Translated.getPhysAddr {l : Sv32.Leaf} (ht : Translating cpu access)
    (h : Translated cpu access vaddr ram l paddr ram') (mm : MainMem) :
    getPhysAddr mm cpu ram vaddr access = .ok (some paddr, ram') := by
  rcases getPhysAddr_translated ht mm ram vaddr with ⟨_, _, _, htr, hr⟩ | ⟨hnone, -⟩
  · obtain ⟨rfl, rfl⟩ := h.unique htr
    exact hr
  · exact absurd h.permits (hnone l h.finds)

/-- **`get_phys_addr` translates as Sv32 does**, up to the differences named above. Where translation is off, an
    address is its own. -/
theorem getPhysAddr_sv32 (mm : MainMem) (cpu : Cpu) (ram : Ram) (vaddr : UInt32) (access : Access) :
    (¬ Translating cpu access → getPhysAddr mm cpu ram vaddr access = .ok (some vaddr, ram)) ∧
    (Translating cpu access →
      (∀ paddr ram', getPhysAddr mm cpu ram vaddr access = .ok (some paddr, ram') ↔
        ∃ l, Translated cpu access vaddr ram l paddr ram') ∧
      (getPhysAddr mm cpu ram vaddr access = .ok (none, ram) ↔
        ∀ l, FindsLeaf cpu ram vaddr l → ¬ LeafPermits cpu access l)) := by
  refine ⟨fun h => getPhysAddr_identity h mm ram vaddr, fun ht => ⟨fun paddr ram' => ⟨getPhysAddr_some ht, ?_⟩, ?_⟩⟩
  · rintro ⟨l, h⟩
    exact h.getPhysAddr ht mm
  · rcases getPhysAddr_translated ht mm ram vaddr with ⟨l, paddr, ram', htr, hr⟩ | ⟨hnone, hr⟩
    · rw [hr]
      exact ⟨fun h => (by cases h), fun h => absurd htr.permits (h l htr.finds)⟩
    · exact ⟨fun _ => hnone, fun _ => hr⟩

/-! ## Again -/

/-- The registers that a translation for an access goes by have not changed. -/
structure SameTranslation (access : Access) (cpu cpu' : Cpu) : Prop where
  priv : effPriv cpu' access = effPriv cpu access
  satp : cpu'.satp = cpu.satp
  fields : cpu'.mstatus &&& (mstatusSum ||| mstatusMxr) = cpu.mstatus &&& (mstatusSum ||| mstatusMxr)

theorem SameTranslation.context (h : SameTranslation access cpu cpu') (priv : Nat) :
    pteContext cpu'.mstatus priv = pteContext cpu.mstatus priv := by
  have hbit (i : Nat) (hi : i = 18 ∨ i = 19) : cpu'.mstatus.toNat.testBit i = cpu.mstatus.toNat.testBit i := by
    have hf := congrArg (fun x : UInt32 => x.toNat.testBit i) h.fields
    have hmask : (mstatusSum ||| mstatusMxr).toNat.testBit i = true := by rcases hi with rfl | rfl <;> decide
    simpa only [UInt32.toNat_and, Nat.testBit_and, hmask, Bool.and_true] using hf
  unfold pteContext
  rw [hbit 18 (.inl rfl), hbit 19 (.inr rfl)]

/-- **The same registers translate in the same way.** -/
theorem getPhysAddr_congr (h : SameTranslation access cpu cpu') (mm : MainMem) (ram : Ram) (vaddr : UInt32) :
    getPhysAddr mm cpu' ram vaddr access = getPhysAddr mm cpu ram vaddr access := by
  have hsame : Translating cpu' access ↔ Translating cpu access := by
    unfold Translating
    rw [h.priv, h.satp]
  by_cases ht : Translating cpu access
  · have hpermits (l : Sv32.Leaf) : LeafPermits cpu' access l ↔ LeafPermits cpu access l := by
      unfold LeafPermits
      rw [h.priv, h.context]
    rcases getPhysAddr_translated (hsame.mpr ht) mm ram vaddr with ⟨l, paddr, ram', htr, hr⟩ | ⟨hnone, hr⟩
    · have htr' : Translated cpu access vaddr ram l paddr ram' :=
        ⟨by have hf := htr.finds; rwa [FindsLeaf, h.satp] at hf, (hpermits l).mp htr.permits, htr.paddr, htr.ram⟩
      rw [hr, htr'.getPhysAddr ht]
    · rcases getPhysAddr_translated ht mm ram vaddr with ⟨l, paddr, ram', htr, -⟩ | ⟨-, hr'⟩
      · refine absurd ((hpermits l).mpr htr.permits) (hnone l ?_)
        rw [FindsLeaf, h.satp]
        exact htr.finds
      · rw [hr, hr']
  · rw [getPhysAddr_identity ht, getPhysAddr_identity (fun ht' => ht (hsame.mp ht'))]

/-- **A page is translated as a whole.** -/
theorem getPhysAddr_page (h : getPhysAddr mm cpu ram vaddr access = .ok (some paddr, ram'))
    (hpage : vaddr'.toNat / 4096 = vaddr.toNat / 4096) :
    ∃ paddr', getPhysAddr mm cpu ram vaddr' access = .ok (some paddr', ram') ∧
      paddr'.toNat / 4096 = paddr.toNat / 4096 := by
  by_cases ht : Translating cpu access
  · obtain ⟨l, htr⟩ := getPhysAddr_some ht h
    have hphys := Sv32.Leaf.physical_of_page htr.finds.bits hpage
    obtain ⟨paddr', hpaddr'⟩ : ∃ paddr' : UInt32, paddr'.toNat = l.physical vaddr'.toNat % 2 ^ 32 :=
      ⟨UInt32.ofNat (l.physical vaddr'.toNat), UInt32.toNat_ofNat'⟩
    refine ⟨paddr', Translated.getPhysAddr ht ⟨htr.finds.of_page hpage, htr.permits, hpaddr', htr.ram⟩ mm, ?_⟩
    rw [hpaddr', htr.paddr]
    omega
  · rw [getPhysAddr_identity ht] at h
    cases h
    exact ⟨vaddr', getPhysAddr_identity ht mm ram vaddr', hpage⟩

/-- A word in memory in which an entry has been set. -/
theorem EntrySet.other {a v e : Nat} (h : EntrySet ram a v ram') (he : pteAt ram a = some e) (ha : 4 ∣ a) {b : Nat}
    (hb : 4 ∣ b) : pteAt ram' b = pteAt ram b ∨ pteAt ram b = some e ∧ pteAt ram' b = some v := by
  by_cases hsame : b % 2 ^ 32 = a % 2 ^ 32
  · right
    rw [← pteAt_mod, hsame, pteAt_mod, he, ← pteAt_mod ram' b, hsame, pteAt_mod, h.entry]
    exact ⟨rfl, rfl⟩
  · left
    unfold pteAt
    apply Mem.load_congr
    intro k hk
    unfold Ram.guest
    split
    · exact h.frame _ (by omega)
    · rfl

/-- **A translation can be repeated.** The bits it sets neither change its outcome nor are they set again. -/
theorem getPhysAddr_repeat (h : getPhysAddr mm cpu ram vaddr access = .ok (some paddr, ram')) :
    getPhysAddr mm cpu ram' vaddr access = .ok (some paddr, ram') := by
  by_cases ht : Translating cpu access
  · obtain ⟨l, htr⟩ := getPhysAddr_some ht h
    have hfinds := htr.finds.mark htr.ram.entry
      (fun b hb => (htr.ram.other htr.finds.load_eq htr.finds.aligned hb).imp id And.left)
    refine Translated.getPhysAddr ht ⟨hfinds, Sv32.permits_mark.mpr htr.permits, ?_, ?_⟩ mm
    · rw [htr.paddr, Sv32.Leaf.physical, Sv32.Leaf.physical, Sv32.ppn_mark]
    · show EntrySet ram' l.addr (Sv32.mark access.sv32 (Sv32.mark access.sv32 l.entry)) ram'
      rw [Sv32.mark_mark]
      exact .self htr.ram.entry
  · rw [getPhysAddr_identity ht] at h
    cases h
    exact getPhysAddr_identity ht mm ram vaddr

/-- **A translation lasts.** After it, the addresses of its page are translated to the same page, and memory does not
    change any more. -/
theorem translation_stable (h : getPhysAddr mm cpu ram vaddr access = .ok (some paddr, ram'))
    (hpage : vaddr'.toNat / 4096 = vaddr.toNat / 4096) :
    ∃ paddr', getPhysAddr mm cpu ram' vaddr' access = .ok (some paddr', ram') ∧
      paddr'.toNat = paddr.toNat / 4096 * 4096 + vaddr'.toNat % 4096 := by
  obtain ⟨paddr', h', hsame⟩ := getPhysAddr_page (getPhysAddr_repeat h) hpage
  have hoff := getPhysAddr_offset h'
  exact ⟨paddr', h', by omega⟩

/-- A supervisor whose page table, at 0x1000, maps the first 4 MiB to themselves. -/
def megaCpu : Cpu := { riscvCpuInit with priv := prvS, satp := 0x80000001 }

theorem translation_stable_mega : ∃ ram',
    getPhysAddr someMainMem megaCpu ((Ram.fill 0).setByte 0x1000 7) 0x2004 .write = .ok (some 0x2004, ram') ∧
      (0x2abc : UInt32).toNat / 4096 = (0x2004 : UInt32).toNat / 4096 ∧
      ∃ paddr', getPhysAddr someMainMem megaCpu ram' 0x2abc .write = .ok (some paddr', ram') ∧
        paddr'.toNat = (0x2004 : UInt32).toNat / 4096 * 4096 + (0x2abc : UInt32).toNat % 4096 := by
  have hok : (getPhysAddr someMainMem megaCpu ((Ram.fill 0).setByte 0x1000 7) 0x2004 .write).toOption.map (·.1) =
      some (some 0x2004) := by decide +kernel
  cases hx : getPhysAddr someMainMem megaCpu ((Ram.fill 0).setByte 0x1000 7) 0x2004 .write with
  | error e => rw [hx] at hok; cases hok
  | ok r =>
    obtain ⟨paddr, ram'⟩ := r
    rw [hx] at hok
    obtain rfl : paddr = some 0x2004 := Option.some.inj hok
    exact ⟨ram', rfl, by decide, translation_stable hx (by decide)⟩

end HadBadge
