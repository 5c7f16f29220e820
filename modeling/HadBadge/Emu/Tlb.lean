import HadBadge.Emu.RiscvCpu

/-!
# `Emu.Tlb`: what the entries of the TLBs say while translation is off

## Contents
- **Tags.** `tlbTag_toNat`, `pageOf_eq`.
- **Entries.** `TlbEntryOk`: an entry is invalid, or it is for a page of RAM with `main_mem` as its addend.
  `tlbEntry_ok` (filling) and `TlbEntryOk.hit` (what a hit means).
- **Bare mode.** `CpuOk`, `getPhysAddr_bare`, and the slow paths without translation.
-/

namespace HadBadge

open Lib

variable {σ : Type} {mm : MainMem} {h : MachHost σ} {m m' : Mach σ} {addr : UInt32} {k : Nat}

/-! ## Tags -/

theorem tlbTag_toNat (addr : UInt32) (hk : k ≤ 3) :
    (tlbTag addr k).toNat = addr.toNat / 4096 * 4096 + addr.toNat % 2 ^ k := and_pageMask addr hk

/-- The tag of a byte access is its page. -/
theorem pageOf_eq (addr : UInt32) : pageOf addr = tlbTag addr 0 := by
  unfold pageOf tlbTag
  rw [show ~~~(0xfff &&& ~~~((1 : UInt32) <<< UInt32.ofNat 0 - 1)) = ~~~0xfff by decide]

theorem pageOf_toNat (addr : UInt32) : (pageOf addr).toNat = addr.toNat / 4096 * 4096 := by
  rw [pageOf_eq, tlbTag_toNat addr (by omega), pow_zero, Nat.mod_one, Nat.add_zero]

/-- `addr & (size - 1)`. -/
theorem align_toNat (addr : UInt32) (hk : k ≤ 3) :
    (addr &&& ((1 : UInt32) <<< UInt32.ofNat k - 1)).toNat = addr.toNat % 2 ^ k := by
  have hmask : ((1 : UInt32) <<< UInt32.ofNat k - 1).toNat = 2 ^ k - 1 := by
    obtain rfl | rfl | rfl | rfl : k = 0 ∨ k = 1 ∨ k = 2 ∨ k = 3 := by omega
    all_goals decide
  rw [UInt32.toNat_and, hmask, Nat.and_two_pow_sub_one_eq_mod]

theorem align_eq_zero (hk : k ≤ 3) :
    addr &&& ((1 : UInt32) <<< UInt32.ofNat k - 1) = 0 ↔ addr.toNat % 2 ^ k = 0 := by
  rw [← UInt32.toNat_inj, align_toNat addr hk]
  rfl

/-- The sizes of accesses divide the size of a page. -/
theorem size_dvd (hk : k ≤ 3) : 2 ^ k ∣ 8 := pow_dvd_pow 2 hk

/-! ## Entries -/

/-- An entry is invalid, or it is for a page of RAM and its addend is `main_mem`. -/
def TlbEntryOk (mm : MainMem) (e : TLBEntry) : Prop :=
  e.vaddr = 0xffffffff ∨
    (e.vaddr.toNat % 4096 = 0 ∧ 0x1000 ≤ e.vaddr.toNat ∧ e.vaddr.toNat < machRamSize ∧ e.memAddend = mm.base)

/-- The pointer that the slow paths compute for an address in RAM. -/
theorem index_ramPtr (mm : MainMem) (ha : addr.toNat < machRamSize) :
    mm.index (ramPtr (mm.base + 0x1000) 0x1000 addr) = addr.toNat := by
  refine mm.index_of_range (a := addr.toNat) ?_ ha
  unfold ramPtr
  congr 1
  push_cast
  ring

/-- Filling an entry for an address in RAM. -/
theorem tlbEntry_ok (h0 : 0x1000 ≤ addr.toNat) (h1 : addr.toNat < machRamSize) :
    TlbEntryOk mm (tlbEntry addr (ramPtr (mm.base + 0x1000) 0x1000 addr)) := by
  have hfits := mm.fits
  refine .inr ⟨?_, ?_, ?_, ?_⟩
  · show (pageOf addr).toNat % 4096 = 0
    rw [pageOf_toNat]
    omega
  · show 0x1000 ≤ (pageOf addr).toNat
    rw [pageOf_toNat]
    omega
  · show (pageOf addr).toNat < machRamSize
    rw [pageOf_toNat]
    omega
  -- the range is registered one page up with a pointer one page up: the addend is the base again
  · show u64 ((ramPtr (mm.base + 0x1000) 0x1000 addr : Int) - addr.toNat) = mm.base
    simp only [machRamSize] at h1 hfits
    unfold ramPtr u64
    push_cast
    omega

/-- **What a hit means.** The access is aligned and in RAM, and the pointer is the one for its address. -/
theorem TlbEntryOk.hit {e : TLBEntry} (he : TlbEntryOk mm e) (hk : k ≤ 3) (hhit : e.vaddr = tlbTag addr k) :
    addr.toNat % 2 ^ k = 0 ∧ 0x1000 ≤ addr.toNat ∧ addr.toNat < machRamSize ∧ mm.index (e.ptr addr) = addr.toNat := by
  have htag := tlbTag_toNat addr hk
  have hlt := addr.toNat_lt
  -- the tag is the page plus the misalignment, and an entry's tag is a page: the access is aligned
  have hmod : addr.toNat % 2 ^ k < 8 :=
    (Nat.mod_lt _ (by positivity)).trans_le (Nat.le_of_dvd (by decide) (size_dvd hk))
  rw [← hhit] at htag
  rcases he with hinv | ⟨hpage, h0, h1, haddend⟩
  · -- the tag of an access has zeros between the offset bits and the page
    rw [hinv] at htag
    have : (0xffffffff : UInt32).toNat = 4294967295 := by decide
    omega
  · have hram : addr.toNat < machRamSize := by
      simp only [machRamSize] at h1 ⊢
      omega
    refine ⟨by omega, by omega, hram, mm.index_of_range ?_ hram⟩
    unfold TLBEntry.ptr
    rw [haddend]

/-! ## Bare mode -/

/-- Translation is off, and all entries are right. -/
structure CpuOk (mm : MainMem) (cpu : Cpu) : Prop where
  bare : cpu.satp >>> 31 = 0
  read : ∀ i, TlbEntryOk mm (cpu.tlbRead i)
  write : ∀ i, TlbEntryOk mm (cpu.tlbWrite i)
  code : ∀ i, TlbEntryOk mm (cpu.tlbCode i)

/-- Without translation every address is its own. -/
theorem getPhysAddr_bare {cpu : Cpu} (hbare : cpu.satp >>> 31 = 0) (ram : Ram) (vaddr : UInt32) (access : Access) :
    getPhysAddr mm cpu ram vaddr access = .ok (some vaddr, ram) := by
  unfold getPhysAddr
  dsimp only
  rw [if_pos hbare, ite_self]

theorem targetReadAligned_bare (hbare : m.cpu.satp >>> 31 = 0) :
    targetReadAligned mm h m addr k = match getPhysMemRange (machMap mm) addr.toNat with
      | none    => .ok (.unset, m)
      | some pr => targetReadRange mm h m addr addr k pr := by
  unfold targetReadAligned
  rw [getPhysAddr_bare hbare, ok_bind]
  rfl

theorem targetWriteAligned_bare (hbare : m.cpu.satp >>> 31 = 0) (val : Nat) :
    targetWriteAligned mm h m addr val k = match getPhysMemRange (machMap mm) addr.toNat with
      | none    => .ok (true, m)
      | some pr => do return (true, ← targetWriteRange mm h m addr addr val k pr) := by
  unfold targetWriteAligned
  rw [getPhysAddr_bare hbare, ok_bind]
  rfl

theorem targetReadInsnSlow_bare (hbare : m.cpu.satp >>> 31 = 0) :
    targetReadInsnSlow mm m addr = match getPhysMemRange (machMap mm) addr.toNat with
      | some ⟨base, _, .ram physMem⟩ => .ok (some (ramPtr physMem base addr), m.fillCode addr (ramPtr physMem base addr))
      | _ => .ok (none, m.pend causeFaultFetch addr) := by
  unfold targetReadInsnSlow
  rw [getPhysAddr_bare hbare, ok_bind]
  rfl

/-! ## Entries stay right -/

/-- A TLB with one more entry for an address in RAM. -/
theorem tlb_update_ok {tlb : Fin 256 → TLBEntry} (htlb : ∀ i, TlbEntryOk mm (tlb i)) (h0 : 0x1000 ≤ addr.toNat)
    (h1 : addr.toNat < machRamSize) (i : Fin 256) :
    TlbEntryOk mm (Function.update tlb (tlbIdx addr)
      (tlbEntry addr (ramPtr (mm.base + 0x1000) 0x1000 addr)) i) := by
  -- the new entry is right, the others were
  by_cases hi : i = tlbIdx addr
  · subst hi
    rw [Function.update_self]
    exact tlbEntry_ok h0 h1
  · rw [Function.update_of_ne hi]
    exact htlb i

theorem CpuOk.fillRead (hm : CpuOk mm m.cpu) (h0 : 0x1000 ≤ addr.toNat) (h1 : addr.toNat < machRamSize) :
    CpuOk mm (m.fillRead addr (ramPtr (mm.base + 0x1000) 0x1000 addr)).cpu :=
  ⟨hm.bare, tlb_update_ok hm.read h0 h1, hm.write, hm.code⟩

theorem CpuOk.fillWrite (hm : CpuOk mm m.cpu) (h0 : 0x1000 ≤ addr.toNat) (h1 : addr.toNat < machRamSize) :
    CpuOk mm (m.fillWrite addr (ramPtr (mm.base + 0x1000) 0x1000 addr)).cpu :=
  ⟨hm.bare, hm.read, tlb_update_ok hm.write h0 h1, hm.code⟩

theorem CpuOk.fillCode (hm : CpuOk mm m.cpu) (h0 : 0x1000 ≤ addr.toNat) (h1 : addr.toNat < machRamSize) :
    CpuOk mm (m.fillCode addr (ramPtr (mm.base + 0x1000) 0x1000 addr)).cpu :=
  ⟨hm.bare, hm.read, hm.write, tlb_update_ok hm.code h0 h1⟩

end HadBadge
