import HadBadge.Emu.Paging
import HadBadge.Lib.Logged

/-!
# `Emu.Callbacks`: the calls of device callbacks that an access makes

The access functions of `Emu.RiscvCpu` once more, with the calls of `pr->read_func` and `pr->write_func` noted: which
device, and the `offset` and `size_log2` it is handed. Branches that cannot come to a device are taken over from
there. `targetReadLog_result` and `targetWriteLog_result`: with the notes left out these are the same functions.

## Contents
- **Calls.** `DevCall`, `readFunc`, `writeFunc`.
- **Loads and stores.** `targetReadLog`, `targetWriteLog` and their parts.
- **Erasure.** One lemma for each part.
-/

namespace HadBadge

open Lib

variable {σ : Type}

/-! ## Calls -/

inductive DevFunc where
  | readFunc | writeFunc
  deriving DecidableEq, Repr

/-- A call of a callback. -/
structure DevCall where
  func : DevFunc
  dev : Dev
  offset : UInt32
  sizeLog2 : Nat
  deriving DecidableEq, Repr

/-- Calls, and a result or a failure. -/
abbrev Calls (α : Type) := Logged DevCall Fault α

/-- `pr->read_func(pr->opaque, offset, size_log2)`. -/
def readFunc (h : MachHost σ) (m : Mach σ) (dev : Dev) (offset : UInt32) (sizeLog2 : Nat) : Calls (Nat × Mach σ) :=
  .call ⟨.readFunc, dev, offset, sizeLog2⟩ (m.devRead h dev offset)

/-- `pr->write_func(pr->opaque, offset, val, size_log2)`. -/
def writeFunc (h : MachHost σ) (m : Mach σ) (dev : Dev) (offset val : UInt32) (sizeLog2 : Nat) : Calls (Mach σ) :=
  .call ⟨.writeFunc, dev, offset, sizeLog2⟩ (m.devWrite h dev offset val)

/-! ## Loads -/

/-- `targetReadRange`. -/
def targetReadRangeLog (mm : MainMem) (h : MachHost σ) (m : Mach σ) (addr paddr : UInt32) (sizeLog2 : Nat)
    (pr : PhysMemoryRange) : Calls (SlowRead × Mach σ) :=
  match pr.kind with
  | .ram _ => .lift (targetReadRange mm h m addr paddr sizeLog2 pr)
  | .device dev devioFlags => do
      let offset := UInt32.ofNat (u32 ((paddr.toNat : Int) - pr.addr))
      if (devioFlags >>> UInt32.ofNat sizeLog2) &&& 1 ≠ 0 then
        let (v, m) ← readFunc h m dev offset sizeLog2
        return (.val v, m)
      else if devioFlags &&& devioSize32 ≠ 0 ∧ sizeLog2 = 3 then
        let (lo, m) ← readFunc h m dev offset 2
        let (hi, m) ← readFunc h m dev (offset + 4) 2
        return (.val (lo ||| hi <<< 32), m)
      else return (.val 0, m)

/-- `targetReadAligned`. -/
def targetReadAlignedLog (mm : MainMem) (h : MachHost σ) (m : Mach σ) (addr : UInt32) (sizeLog2 : Nat) :
    Calls (SlowRead × Mach σ) := do
  match ← .lift (getPhysAddr mm m.cpu m.ram addr .read) with
  | (none, ram) => return (.fault, { m with ram := ram }.pend causeLoadPageFault addr)
  | (some paddr, ram) =>
      match getPhysMemRange (machMap mm) paddr.toNat with
      | none    => return (.unset, { m with ram := ram })
      | some pr => targetReadRangeLog mm h { m with ram := ram } addr paddr sizeLog2 pr

/-- `targetReadVia`. -/
def targetReadViaLog (mm : MainMem) (slow : Mach σ → UInt32 → Nat → Calls (SlowRead × Mach σ)) (junk : UInt32 → Nat)
    (m : Mach σ) (addr : UInt32) (sizeLog2 : Nat) : Calls (Option Nat × Mach σ) :=
  let e := m.cpu.tlbRead (tlbIdx addr)
  if e.vaddr = tlbTag addr sizeLog2 then do
    return (some (← .lift (hostLoad mm m.ram (e.ptr addr) (2 ^ sizeLog2))), m)
  else do
    match ← slow m addr sizeLog2 with
    | (.fault, m) => return (none, m)
    | (.unset, m) => return (some (junk addr % 2 ^ (8 * 2 ^ sizeLog2)), m)
    | (.val v, m) => return (some (v % 2 ^ (8 * 2 ^ sizeLog2)), m)

/-- `targetReadTwo`. -/
def targetReadTwoLog (mm : MainMem) (h : MachHost σ) (junk : UInt32 → Nat) (m : Mach σ) (addr₀ addr₁ : UInt32)
    (sizeLog2 : Nat) (join : Nat → Nat → Nat) : Calls (SlowRead × Mach σ) := do
  match ← targetReadViaLog mm (targetReadAlignedLog mm h) junk m addr₀ sizeLog2 with
  | (none, m) => return (.fault, m)
  | (some v₀, m) =>
      match ← targetReadViaLog mm (targetReadAlignedLog mm h) junk m addr₁ sizeLog2 with
      | (none, m)    => return (.fault, m)
      | (some v₁, m) => return (.val (join v₀ v₁), m)

/-- `targetReadSlow`. -/
def targetReadSlowLog (mm : MainMem) (h : MachHost σ) (junk : UInt32 → Nat) (m : Mach σ) (addr : UInt32)
    (sizeLog2 : Nat) : Calls (SlowRead × Mach σ) :=
  let al := addr &&& ((1 : UInt32) <<< UInt32.ofNat sizeLog2 - 1)
  if al ≠ 0 then
    match sizeLog2 with
    | 1 => targetReadTwoLog mm h junk m addr (addr + 1) 0 (fun v0 v1 => v0 ||| v1 <<< 8)
    | 2 => targetReadTwoLog mm h junk m (addr - al) (addr - al + 4) 2
        (fun v0 v1 => v0 >>> (al.toNat * 8) ||| v1 <<< (32 - al.toNat * 8) % 2 ^ 32)
    | 3 => targetReadTwoLog mm h junk m (addr - al) (addr - al + 8) 3
        (fun v0 v1 => v0 >>> (al.toNat * 8) ||| v1 <<< (64 - al.toNat * 8) % 2 ^ 64)
    | _ => .lift (.error .abort)
  else targetReadAlignedLog mm h m addr sizeLog2

/-- `targetRead`. -/
def targetReadLog (mm : MainMem) (h : MachHost σ) (junk : UInt32 → Nat) (m : Mach σ) (addr : UInt32)
    (sizeLog2 : Nat) : Calls (Option Nat × Mach σ) :=
  targetReadViaLog mm (targetReadSlowLog mm h junk) junk m addr sizeLog2

/-! ## Stores -/

/-- `targetWriteRange`. -/
def targetWriteRangeLog (mm : MainMem) (h : MachHost σ) (m : Mach σ) (addr paddr : UInt32) (val sizeLog2 : Nat)
    (pr : PhysMemoryRange) : Calls (Mach σ) :=
  match pr.kind with
  | .ram _ => .lift (targetWriteRange mm h m addr paddr val sizeLog2 pr)
  | .device dev devioFlags => do
      let offset := UInt32.ofNat (u32 ((paddr.toNat : Int) - pr.addr))
      if (devioFlags >>> UInt32.ofNat sizeLog2) &&& 1 ≠ 0 then writeFunc h m dev offset (UInt32.ofNat val) sizeLog2
      else if devioFlags &&& devioSize32 ≠ 0 ∧ sizeLog2 = 3 then
        let m ← writeFunc h m dev offset (UInt32.ofNat val) 2
        writeFunc h m dev (offset + 4) (UInt32.ofNat (val >>> 32)) 2
      else return m

/-- `targetWriteAligned`. -/
def targetWriteAlignedLog (mm : MainMem) (h : MachHost σ) (m : Mach σ) (addr : UInt32) (val sizeLog2 : Nat) :
    Calls (Bool × Mach σ) := do
  match ← .lift (getPhysAddr mm m.cpu m.ram addr .write) with
  | (none, ram) => return (false, { m with ram := ram }.pend causeStorePageFault addr)
  | (some paddr, ram) =>
      match getPhysMemRange (machMap mm) paddr.toNat with
      | none    => return (true, { m with ram := ram })
      | some pr => return (true, ← targetWriteRangeLog mm h { m with ram := ram } addr paddr val sizeLog2 pr)

/-- `targetWriteVia`. -/
def targetWriteViaLog (mm : MainMem) (slow : Mach σ → UInt32 → Nat → Nat → Calls (Bool × Mach σ))
    (m : Mach σ) (addr : UInt32) (val sizeLog2 : Nat) : Calls (Bool × Mach σ) :=
  let e := m.cpu.tlbWrite (tlbIdx addr)
  if e.vaddr = tlbTag addr sizeLog2 then do
    return (true, { m with ram := ← .lift (hostStore mm m.ram (e.ptr addr) (2 ^ sizeLog2) val) })
  else slow m addr val sizeLog2

/-- `targetWriteBytes`. -/
def targetWriteBytesLog (mm : MainMem) (h : MachHost σ) (addr : UInt32) (val : Nat) :
    (n i : Nat) → Mach σ → Calls (Bool × Mach σ)
  | 0,   _, m => pure (true, m)
  | n+1, i, m => do
      match ← targetWriteViaLog mm (targetWriteAlignedLog mm h) m (addr + UInt32.ofNat i)
        ((val >>> (8 * i)) &&& 0xff) 0 with
      | (false, m) => return (false, m)
      | (true, m)  => targetWriteBytesLog mm h addr val n (i + 1) m

/-- `targetWriteSlow`. -/
def targetWriteSlowLog (mm : MainMem) (h : MachHost σ) (m : Mach σ) (addr : UInt32) (val sizeLog2 : Nat) :
    Calls (Bool × Mach σ) :=
  if addr &&& ((1 : UInt32) <<< UInt32.ofNat sizeLog2 - 1) ≠ 0 then
    targetWriteBytesLog mm h addr val (2 ^ sizeLog2) 0 m
  else targetWriteAlignedLog mm h m addr val sizeLog2

/-- `targetWrite`. -/
def targetWriteLog (mm : MainMem) (h : MachHost σ) (m : Mach σ) (addr : UInt32) (val sizeLog2 : Nat) :
    Calls (Bool × Mach σ) :=
  targetWriteViaLog mm (targetWriteSlowLog mm h) m addr val sizeLog2

/-! ## Erasure -/

variable {mm : MainMem} {h : MachHost σ} {m : Mach σ} {addr paddr : UInt32} {k val : Nat} {pr : PhysMemoryRange}

theorem targetReadRangeLog_result :
    (targetReadRangeLog mm h m addr paddr k pr).result = targetReadRange mm h m addr paddr k pr := by
  unfold targetReadRangeLog
  cases hkind : pr.kind with
  | ram physMem => rfl
  | device dev devioFlags =>
      unfold targetReadRange
      rw [hkind]
      dsimp only
      split
      · exact Logged.result_bind_eq rfl (fun _ => rfl)
      · split
        · exact Logged.result_bind_eq rfl (fun _ => Logged.result_bind_eq rfl (fun _ => rfl))
        · rfl

theorem targetReadAlignedLog_result :
    (targetReadAlignedLog mm h m addr k).result = targetReadAligned mm h m addr k := by
  unfold targetReadAlignedLog targetReadAligned
  refine Logged.result_bind_eq rfl ?_
  rintro ⟨paddr, ram⟩
  cases paddr with
  | none => rfl
  | some paddr =>
      dsimp only
      cases getPhysMemRange (machMap mm) paddr.toNat with
      | none => rfl
      | some pr => exact targetReadRangeLog_result

theorem targetReadViaLog_result {junk : UInt32 → Nat} {slow : Mach σ → UInt32 → Nat → Except Fault (SlowRead × Mach σ)}
    {slowLog : Mach σ → UInt32 → Nat → Calls (SlowRead × Mach σ)}
    (hslow : (slowLog m addr k).result = slow m addr k) :
    (targetReadViaLog mm slowLog junk m addr k).result = targetReadVia mm slow junk m addr k := by
  unfold targetReadViaLog targetReadVia
  dsimp only
  split
  · exact Logged.result_bind_eq rfl (fun _ => rfl)
  · refine Logged.result_bind_eq hslow ?_
    rintro ⟨r, m₁⟩
    cases r with
    | fault => rfl
    | unset => rfl
    | val v => rfl

theorem targetReadTwoLog_result {junk : UInt32 → Nat} {addr₀ addr₁ : UInt32} {join : Nat → Nat → Nat} :
    (targetReadTwoLog mm h junk m addr₀ addr₁ k join).result = targetReadTwo mm h junk m addr₀ addr₁ k join := by
  unfold targetReadTwoLog targetReadTwo
  refine Logged.result_bind_eq (targetReadViaLog_result targetReadAlignedLog_result) ?_
  rintro ⟨v₀, m₀⟩
  cases v₀ with
  | none => rfl
  | some v₀ =>
      refine Logged.result_bind_eq (targetReadViaLog_result targetReadAlignedLog_result) ?_
      rintro ⟨v₁, m₁⟩
      cases v₁ with
      | none => rfl
      | some v₁ => rfl

/-- **With its calls left out, a load is what it was.** -/
theorem targetReadLog_result {junk : UInt32 → Nat} :
    (targetReadLog mm h junk m addr k).result = targetRead mm h junk m addr k := by
  refine targetReadViaLog_result ?_
  unfold targetReadSlowLog targetReadSlow
  dsimp only
  by_cases hal : addr &&& ((1 : UInt32) <<< UInt32.ofNat k - 1) = 0
  · rw [if_neg (not_not_intro hal), if_neg (not_not_intro hal)]
    exact targetReadAlignedLog_result
  · rw [if_pos hal, if_pos hal]
    -- only 16, 32 and 64 bits can be unaligned
    rcases k with _ | _ | _ | _ | k
    · rfl
    · exact targetReadTwoLog_result
    · exact targetReadTwoLog_result
    · exact targetReadTwoLog_result
    · rfl

theorem targetWriteRangeLog_result :
    (targetWriteRangeLog mm h m addr paddr val k pr).result = targetWriteRange mm h m addr paddr val k pr := by
  unfold targetWriteRangeLog
  cases hkind : pr.kind with
  | ram physMem => rfl
  | device dev devioFlags =>
      unfold targetWriteRange
      rw [hkind]
      dsimp only
      split
      · rfl
      · split
        · exact Logged.result_bind_eq rfl (fun _ => rfl)
        · rfl

theorem targetWriteAlignedLog_result :
    (targetWriteAlignedLog mm h m addr val k).result = targetWriteAligned mm h m addr val k := by
  unfold targetWriteAlignedLog targetWriteAligned
  refine Logged.result_bind_eq rfl ?_
  rintro ⟨paddr, ram⟩
  cases paddr with
  | none => rfl
  | some paddr =>
      dsimp only
      cases getPhysMemRange (machMap mm) paddr.toNat with
      | none => rfl
      | some pr => exact Logged.result_bind_eq targetWriteRangeLog_result (fun _ => rfl)

theorem targetWriteViaLog_result {slow : Mach σ → UInt32 → Nat → Nat → Except Fault (Bool × Mach σ)}
    {slowLog : Mach σ → UInt32 → Nat → Nat → Calls (Bool × Mach σ)}
    (hslow : (slowLog m addr val k).result = slow m addr val k) :
    (targetWriteViaLog mm slowLog m addr val k).result = targetWriteVia mm slow m addr val k := by
  unfold targetWriteViaLog targetWriteVia
  dsimp only
  split
  · exact Logged.result_bind_eq rfl (fun _ => rfl)
  · exact hslow

theorem targetWriteBytesLog_result (n i : Nat) :
    (targetWriteBytesLog mm h addr val n i m).result = targetWriteBytes mm h addr val n i m := by
  -- on the bytes that are left
  induction n generalizing i m with
  | zero => rfl
  | succ n ih =>
      unfold targetWriteBytesLog targetWriteBytes
      refine Logged.result_bind_eq (targetWriteViaLog_result targetWriteAlignedLog_result) ?_
      rintro ⟨ok, m₁⟩
      cases ok with
      | false => rfl
      | true => exact ih (i + 1)

/-- **With its calls left out, a store is what it was.** -/
theorem targetWriteLog_result : (targetWriteLog mm h m addr val k).result = targetWrite mm h m addr val k := by
  refine targetWriteViaLog_result ?_
  unfold targetWriteSlowLog targetWriteSlow
  split
  · exact targetWriteBytesLog_result _ 0
  · exact targetWriteAlignedLog_result

end HadBadge
