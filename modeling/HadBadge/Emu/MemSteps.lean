import HadBadge.Emu.Mach
import Mathlib.Logic.Relation

/-!
# `Emu.MemSteps`: what an access of memory is made of

However many translations, devices and bytes an access of the CPU comes to, it is a sequence of a few kinds of steps:
what holds of each of them holds of every load, every store and every fetch.

## Contents
- **Steps.** `MemStep`: page walks, TLB fills, stores that hit, devices. `MemSteps`, sequences of them, which keep the
  registers of the MMU.
- **Loads, stores and fetches.** `targetRead_steps`, `targetWrite_steps`, `fetchInsn_steps`.
-/

namespace HadBadge

open Lib Relation

variable {σ : Type} {mm : MainMem} {h : MachHost σ} {m m' m₁ : Mach σ} {addr paddr : UInt32} {k val : Nat}

/-! ## Steps -/

/-- The pointer that a page walk for `access` comes to in the state `m`, and memory after it. -/
def Walked (mm : MainMem) (m : Mach σ) (access : Access) (addr : UInt32) (ptr : Nat) (ram : Ram) : Prop :=
  ∃ paddr base size physMem, getPhysAddr mm m.cpu m.ram addr access = .ok (some paddr, ram) ∧
    getPhysMemRange (machMap mm) paddr.toNat = some ⟨base, size, .ram physMem⟩ ∧ ptr = ramPtr physMem base paddr

/-- A call of one of the two functions of a device. -/
inductive DevAccess (h : MachHost σ) (dev : Dev) : Mach σ → Mach σ → Prop where
  | read {m m' : Mach σ} {offset : UInt32} {v : Nat} : m.devRead h dev offset = .ok (v, m') → DevAccess h dev m m'
  | write {m m' : Mach σ} {offset v : UInt32} : m.devWrite h dev offset v = .ok m' → DevAccess h dev m m'

/-- A step of an access. -/
inductive MemStep (mm : MainMem) (h : MachHost σ) : Mach σ → Mach σ → Prop where
  | pend (m : Mach σ) (cause : Int) (tval : UInt32) : MemStep mm h m (m.pend cause tval)
  | code (m : Mach σ) (code : Code) : MemStep mm h m { m with code := code }
  /-- a page walk, and the bits that it sets -/
  | walk {m : Mach σ} {access : Access} {addr : UInt32} {r : Option UInt32} {ram : Ram} :
      getPhysAddr mm m.cpu m.ram addr access = .ok (r, ram) → MemStep mm h m { m with ram := ram }
  /-- a page walk to a device, and what is done with it -/
  | device {m m' : Mach σ} {access : Access} {addr paddr : UInt32} {ram : Ram} {base size : Nat} {dev : Dev}
      {devioFlags : UInt32} :
      getPhysAddr mm m.cpu m.ram addr access = .ok (some paddr, ram) →
      getPhysMemRange (machMap mm) paddr.toNat = some ⟨base, size, .device dev devioFlags⟩ →
      ReflTransGen (DevAccess h dev) { m with ram := ram } m' → MemStep mm h m m'
  /-- a store that hits -/
  | store {m : Mach σ} {addr : UInt32} {k val : Nat} {ram : Ram} :
      k ≤ 3 → (m.cpu.tlbWrite (tlbIdx addr)).vaddr = tlbTag addr k →
      hostStore mm m.ram ((m.cpu.tlbWrite (tlbIdx addr)).ptr addr) (2 ^ k) val = .ok ram →
      MemStep mm h m { m with ram := ram }
  | fillRead {m : Mach σ} {addr : UInt32} {ptr : Nat} {ram : Ram} :
      Walked mm m .read addr ptr ram → MemStep mm h m ({ m with ram := ram }.fillRead addr ptr)
  | fillWrite {m : Mach σ} {addr : UInt32} {ptr : Nat} {ram : Ram} :
      Walked mm m .write addr ptr ram → MemStep mm h m ({ m with ram := ram }.fillWrite addr ptr)
  | fillCode {m : Mach σ} {addr : UInt32} {ptr : Nat} {ram : Ram} :
      Walked mm m .code addr ptr ram → MemStep mm h m ({ m with ram := ram }.fillCode addr ptr)

/-- Any number of steps. -/
abbrev MemSteps (mm : MainMem) (h : MachHost σ) : Mach σ → Mach σ → Prop := ReflTransGen (MemStep mm h)

/-- The registers that translation goes by. -/
structure SameMmu (c c' : Cpu) : Prop where
  priv : c'.priv = c.priv
  mstatus : c'.mstatus = c.mstatus
  satp : c'.satp = c.satp

theorem DevAccess.cpu {dev : Dev} (hd : DevAccess h dev m m') : m'.cpu = m.cpu := by
  cases hd with
  | read hr =>
      obtain ⟨⟨v, periphs⟩, -, hr⟩ := bind_eq_ok.mp hr
      cases hr
      rfl
  | write hr =>
      obtain ⟨⟨ram, periphs⟩, -, hr⟩ := bind_eq_ok.mp hr
      cases hr
      rfl

/-- Devices do not change the CPU. -/
theorem devAccesses_cpu {dev : Dev} (hd : ReflTransGen (DevAccess h dev) m m') : m'.cpu = m.cpu := by
  induction hd with
  | refl => rfl
  | tail _ hstep ih => exact hstep.cpu.trans ih

theorem MemStep.sameMmu (hs : MemStep mm h m m') : SameMmu m.cpu m'.cpu := by
  cases hs with
  | device _ _ hd =>
      rw [devAccesses_cpu hd]
      exact ⟨rfl, rfl, rfl⟩
  | _ => exact ⟨rfl, rfl, rfl⟩

/-- **An access does not change what translation goes by.** -/
theorem MemSteps.sameMmu (hs : MemSteps mm h m m') : SameMmu m.cpu m'.cpu := by
  induction hs with
  | refl => exact ⟨rfl, rfl, rfl⟩
  | tail _ hstep ih =>
      have h' := hstep.sameMmu
      exact ⟨h'.priv.trans ih.priv, h'.mstatus.trans ih.mstatus, h'.satp.trans ih.satp⟩

/-! ## Loads -/

/-- A load from a range, whose translation has left `ram`. -/
theorem targetReadRange_steps {ram : Ram} (hwalk : getPhysAddr mm m.cpu m.ram addr .read = .ok (some paddr, ram))
    {pr : PhysMemoryRange} (hpr : getPhysMemRange (machMap mm) paddr.toNat = some pr) {r : SlowRead}
    (hr : targetReadRange mm h { m with ram := ram } addr paddr k pr = .ok (r, m')) : MemSteps mm h m m' := by
  obtain ⟨base, size, kind⟩ := pr
  unfold targetReadRange at hr
  cases kind with
  | ram physMem =>
      dsimp only at hr
      split at hr
      · obtain ⟨v, -, hr⟩ := bind_eq_ok.mp hr
        cases hr
        exact .single (.fillRead ⟨paddr, base, size, physMem, hwalk, hpr, rfl⟩)
      · cases hr
  | device dev devioFlags =>
      have hstep {m' : Mach σ} (hd : ReflTransGen (DevAccess h dev) { m with ram := ram } m') : MemSteps mm h m m' :=
        .single (.device hwalk hpr hd)
      dsimp only at hr
      split at hr
      · obtain ⟨⟨v, m₁⟩, hdev, hr⟩ := bind_eq_ok.mp hr
        cases hr
        exact hstep (.single (.read hdev))
      · split at hr
        · obtain ⟨⟨lo, m₁⟩, hlo, hr⟩ := bind_eq_ok.mp hr
          obtain ⟨⟨hi, m₂⟩, hhi, hr⟩ := bind_eq_ok.mp hr
          cases hr
          exact hstep ((ReflTransGen.single (.read hlo)).tail (.read hhi))
        · cases hr
          exact hstep .refl

theorem targetReadAligned_steps {r : SlowRead} (hr : targetReadAligned mm h m addr k = .ok (r, m')) :
    MemSteps mm h m m' := by
  obtain ⟨⟨paddr, ram⟩, hwalk, hr⟩ := bind_eq_ok.mp hr
  cases paddr with
  | none =>
      cases hr
      exact (ReflTransGen.single (.walk hwalk)).tail (.pend _ _ _)
  | some paddr =>
      dsimp only at hr
      split at hr
      · cases hr
        exact .single (.walk hwalk)
      · next pr hpr => exact targetReadRange_steps hwalk hpr hr

/-- A load over a slow path. -/
theorem targetReadVia_steps {slow : Mach σ → UInt32 → Nat → Except Fault (SlowRead × Mach σ)} {junk : UInt32 → Nat}
    (hslow : ∀ r m', slow m addr k = .ok (r, m') → MemSteps mm h m m') {v : Option Nat}
    (hr : targetReadVia mm slow junk m addr k = .ok (v, m')) : MemSteps mm h m m' := by
  unfold targetReadVia at hr
  dsimp only at hr
  split at hr
  · obtain ⟨v', -, hr⟩ := bind_eq_ok.mp hr
    cases hr
    exact .refl
  · obtain ⟨⟨r, m₁⟩, hs, hr⟩ := bind_eq_ok.mp hr
    cases r <;> cases hr <;> exact hslow _ _ hs

theorem targetReadTwo_steps {junk : UInt32 → Nat} {addr₀ addr₁ : UInt32} {join : Nat → Nat → Nat} {r : SlowRead}
    (hr : targetReadTwo mm h junk m addr₀ addr₁ k join = .ok (r, m')) : MemSteps mm h m m' := by
  obtain ⟨⟨v₀, m₁⟩, h₀, hr⟩ := bind_eq_ok.mp hr
  have hs₀ := targetReadVia_steps (fun _ _ hs => targetReadAligned_steps hs) h₀
  cases v₀ with
  | none =>
      cases hr
      exact hs₀
  | some v₀ =>
      obtain ⟨⟨v₁, m₂⟩, h₁, hr⟩ := bind_eq_ok.mp hr
      have hs₁ := targetReadVia_steps (fun _ _ hs => targetReadAligned_steps hs) h₁
      cases v₁ <;> cases hr <;> exact hs₀.trans hs₁

theorem targetReadSlow_steps {junk : UInt32 → Nat} {r : SlowRead}
    (hr : targetReadSlow mm h junk m addr k = .ok (r, m')) : MemSteps mm h m m' := by
  unfold targetReadSlow at hr
  dsimp only at hr
  split at hr
  · split at hr
    · exact targetReadTwo_steps hr
    · exact targetReadTwo_steps hr
    · exact targetReadTwo_steps hr
    · cases hr
  · exact targetReadAligned_steps hr

/-- **A load.** -/
theorem targetRead_steps {junk : UInt32 → Nat} {v : Option Nat} (hr : targetRead mm h junk m addr k = .ok (v, m')) :
    MemSteps mm h m m' := targetReadVia_steps (fun _ _ hs => targetReadSlow_steps hs) hr

/-! ## Stores -/

/-- The tag of an aligned access is its page. -/
theorem tlbTag_aligned (hk : k ≤ 3) (hal : addr &&& ((1 : UInt32) <<< UInt32.ofNat k - 1) = 0) :
    tlbTag addr k = pageOf addr := by
  rw [align_eq_zero hk] at hal
  rw [← UInt32.toNat_inj, tlbTag_toNat addr hk, pageOf_toNat, hal, Nat.add_zero]

/-- The pointer of an entry for the address that it was filled for. -/
theorem tlbEntry_ptr {ptr : Nat} (hptr : ptr < 2 ^ 64) : (tlbEntry addr ptr).ptr addr = ptr := by
  show u64 ((u64 ((ptr : Int) - addr.toNat) : Nat) + (addr.toNat : Int)) = ptr
  unfold u64
  omega

/-- A store to a range, whose translation has left `ram`. -/
theorem targetWriteRange_steps {ram : Ram} (hwalk : getPhysAddr mm m.cpu m.ram addr .write = .ok (some paddr, ram))
    {pr : PhysMemoryRange} (hpr : getPhysMemRange (machMap mm) paddr.toNat = some pr)
    (hal : addr &&& ((1 : UInt32) <<< UInt32.ofNat k - 1) = 0)
    (hr : targetWriteRange mm h { m with ram := ram } addr paddr val k pr = .ok m') : MemSteps mm h m m' := by
  obtain ⟨base, size, kind⟩ := pr
  unfold targetWriteRange at hr
  cases kind with
  | ram physMem =>
      dsimp only at hr
      split at hr
      · next hk =>
        obtain ⟨ram', hstore, hr⟩ := bind_eq_ok.mp hr
        cases hr
        refine (ReflTransGen.single (.fillWrite ⟨paddr, base, size, physMem, hwalk, hpr, rfl⟩)).tail ?_
        -- the store hits the entry just filled
        have hentry : (({ m with ram := ram } : Mach σ).fillWrite addr (ramPtr physMem base paddr)).cpu.tlbWrite (tlbIdx addr) =
            tlbEntry addr (ramPtr physMem base paddr) := Function.update_self ..
        refine @MemStep.store _ _ _ _ addr k val ram' hk ?_ ?_
        · rw [hentry, tlbTag_aligned hk hal]
          rfl
        · rw [hentry, tlbEntry_ptr (by unfold ramPtr u64; omega)]
          exact hstore
      · cases hr
  | device dev devioFlags =>
      have hstep {m' : Mach σ} (hd : ReflTransGen (DevAccess h dev) { m with ram := ram } m') : MemSteps mm h m m' :=
        .single (.device hwalk hpr hd)
      dsimp only at hr
      split at hr
      · exact hstep (.single (.write hr))
      · split at hr
        · obtain ⟨m₁, hlo, hr⟩ := bind_eq_ok.mp hr
          exact hstep ((ReflTransGen.single (.write hlo)).tail (.write hr))
        · cases hr
          exact hstep .refl

theorem targetWriteAligned_steps {ok : Bool} (hal : addr &&& ((1 : UInt32) <<< UInt32.ofNat k - 1) = 0)
    (hr : targetWriteAligned mm h m addr val k = .ok (ok, m')) : MemSteps mm h m m' := by
  obtain ⟨⟨paddr, ram⟩, hwalk, hr⟩ := bind_eq_ok.mp hr
  cases paddr with
  | none =>
      cases hr
      exact (ReflTransGen.single (.walk hwalk)).tail (.pend _ _ _)
  | some paddr =>
      dsimp only at hr
      split at hr
      · cases hr
        exact .single (.walk hwalk)
      · next pr hpr =>
        obtain ⟨m₁, hw, hr⟩ := bind_eq_ok.mp hr
        cases hr
        exact targetWriteRange_steps hwalk hpr hal hw

theorem targetWriteVia_steps {slow : Mach σ → UInt32 → Nat → Nat → Except Fault (Bool × Mach σ)} (hk : k ≤ 3)
    (hslow : ∀ ok m', slow m addr val k = .ok (ok, m') → MemSteps mm h m m') {ok : Bool}
    (hr : targetWriteVia mm slow m addr val k = .ok (ok, m')) : MemSteps mm h m m' := by
  unfold targetWriteVia at hr
  dsimp only at hr
  split at hr
  · next hhit =>
    obtain ⟨ram, hstore, hr⟩ := bind_eq_ok.mp hr
    cases hr
    exact .single (.store hk hhit hstore)
  · exact hslow ok m' hr

theorem targetWriteBytes_steps {n i : Nat} {ok : Bool} (hr : targetWriteBytes mm h addr val n i m = .ok (ok, m')) :
    MemSteps mm h m m' := by
  -- on the bytes that are left
  induction n generalizing i m with
  | zero =>
      cases hr
      exact .refl
  | succ n ih =>
      obtain ⟨⟨ok₁, m₁⟩, hw, hr⟩ := bind_eq_ok.mp hr
      have hal : (addr + UInt32.ofNat i) &&& ((1 : UInt32) <<< UInt32.ofNat 0 - 1) = 0 :=
        (align_eq_zero (Nat.zero_le 3)).mpr (Nat.mod_one _)
      have hs := targetWriteVia_steps (Nat.zero_le 3) (fun _ _ hs => targetWriteAligned_steps hal hs) hw
      cases ok₁ with
      | false =>
          cases hr
          exact hs
      | true => exact hs.trans (ih hr)

/-- **A store.** -/
theorem targetWrite_steps (hk : k ≤ 3) {ok : Bool} (hr : targetWrite mm h m addr val k = .ok (ok, m')) :
    MemSteps mm h m m' := by
  refine targetWriteVia_steps hk (fun ok m' hs => ?_) hr
  unfold targetWriteSlow at hs
  split at hs
  · exact targetWriteBytes_steps hs
  · next hal => exact targetWriteAligned_steps (not_not.mp hal) hs

/-! ## Fetches -/

theorem targetInsnPtr_steps (h : MachHost σ) {ptr : Option Nat} (hr : targetInsnPtr mm m addr = .ok (ptr, m')) :
    MemSteps mm h m m' := by
  unfold targetInsnPtr at hr
  dsimp only at hr
  split at hr
  · cases hr
    exact .refl
  obtain ⟨⟨paddr, ram⟩, hwalk, hr⟩ := bind_eq_ok.mp hr
  cases paddr with
  | none =>
      cases hr
      exact (ReflTransGen.single (.walk hwalk)).tail (.pend _ _ _)
  | some paddr =>
      dsimp only at hr
      split at hr
      · next base size physMem hpr =>
        cases hr
        exact .single (.fillCode ⟨paddr, base, size, physMem, hwalk, hpr, rfl⟩)
      · cases hr
        exact (ReflTransGen.single (.walk hwalk)).tail (.pend _ _ _)

theorem targetReadInsnU16_steps (h : MachHost σ) {v : Option Nat} (hr : targetReadInsnU16 mm m addr = .ok (v, m')) :
    MemSteps mm h m m' := by
  obtain ⟨⟨ptr, m₁⟩, hptr, hr⟩ := bind_eq_ok.mp hr
  have hs := targetInsnPtr_steps h hptr
  cases ptr with
  | none =>
      cases hr
      exact hs
  | some ptr =>
      obtain ⟨v', -, hr⟩ := bind_eq_ok.mp hr
      cases hr
      exact hs

/-- **The fetch of an instruction.** -/
theorem fetchInsn_steps (h : MachHost σ) {v : Option Nat} (hr : fetchInsn mm m = .ok (v, m')) : MemSteps mm h m m' := by
  unfold fetchInsn at hr
  split at hr
  · obtain ⟨⟨ptr, m₁⟩, hptr, hr⟩ := bind_eq_ok.mp hr
    have hs := targetInsnPtr_steps h hptr
    cases ptr with
    | none =>
        cases hr
        exact hs
    | some ptr =>
        have hs' := hs.tail (.code m₁ (codeAt m.code.pc ptr))
        dsimp only at hr
        split at hr
        · -- at the end of a page, the rest may be in the next one
          obtain ⟨insn, -, hr⟩ := bind_eq_ok.mp hr
          split at hr
          · obtain ⟨⟨high, m₂⟩, hhigh, hr⟩ := bind_eq_ok.mp hr
            have hs'' := hs'.trans (targetReadInsnU16_steps h hhigh)
            cases high <;> cases hr <;> exact hs''
          · cases hr
            exact hs'
        · obtain ⟨insn, -, hr⟩ := bind_eq_ok.mp hr
          cases hr
          exact hs'
  · obtain ⟨insn, -, hr⟩ := bind_eq_ok.mp hr
    cases hr
    exact .refl

end HadBadge
