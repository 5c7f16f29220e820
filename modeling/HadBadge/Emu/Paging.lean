import HadBadge.Emu.Mach
import HadBadge.Lib.Post

/-!
# `Emu.Paging`: accesses of memory with translation on

The invariant of `Emu.Tlb` is about a machine without translation. Here is what holds with any page table: an entry
maps a page of virtual addresses to a page of RAM. So an access of memory by the CPU stays inside of RAM, and only a
device that it reaches can fail, which is the cheat device.

## Contents
- **Failures.** `CheatWalk`, an access that comes to the cheat device; `ReadFails`, `LoadFails` and `StoreFails`, one
  whose function there fails.
- **Entries.** `TlbMaps`, with `TlbMaps.hit` and `tlbMaps_fill`.
- **Translation.** `getPhysAddr_ends`: never a failure, and the offset in the page is kept.
- **Accesses.** `MemInv`, and that it is kept by `targetRead`, `targetWrite` and `fetchInsn`.
-/

namespace HadBadge

open Lib

variable {σ : Type} {mm : MainMem} {h : MachHost σ} {m m' : Mach σ} {addr : UInt32} {k : Nat}

/-! ## Failures -/

/-- Translation takes an access at `addr` to the register `offset` of the cheat device, and leaves `ram`. -/
def CheatWalk (mm : MainMem) (m : Mach σ) (access : Access) (addr offset : UInt32) (ram : Ram) : Prop :=
  ∃ paddr, getPhysAddr mm m.cpu m.ram addr access = .ok (some paddr, ram) ∧ offset.toNat < 0x100 ∧
    paddr.toNat = cheatOffset + offset.toNat

/-- An aligned load of `2 ^ k` bytes at `addr` reads a register of the cheat device, whose function fails with `e` on
    the registers and the memory that it finds. -/
inductive ReadFails (mm : MainMem) (h : MachHost σ) (m : Mach σ) (addr : UInt32) (k : Nat) (e : Fault) : Prop where
  | word {offset : UInt32} {ram : Ram} :
      k = 2 ∨ k = 3 → CheatWalk mm m .read addr offset ram →
      cheatReadFn h.files m.periphs.cheat ram.mem offset = .error e → ReadFails mm h m addr k e
  | second {offset : UInt32} {ram : Ram} :
      k = 3 → CheatWalk mm m .read addr offset ram →
      cheatReadFn h.files m.periphs.cheat ram.mem (offset + 4) = .error e → ReadFails mm h m addr k e

/-- An aligned store of `val`, likewise. Its second word finds what the first one has left. -/
inductive StoreFails (mm : MainMem) (h : MachHost σ) (m : Mach σ) (addr : UInt32) (val k : Nat) (e : Fault) : Prop where
  | word {offset : UInt32} {ram : Ram} :
      k = 2 ∨ k = 3 → CheatWalk mm m .write addr offset ram →
      cheatWriteFn h.files m.periphs.cheat ram.mem offset (UInt32.ofNat val) = .error e →
      StoreFails mm h m addr val k e
  | second {offset : UInt32} {ram : Ram} {cheat : PeriCheat} {mem : Mem} :
      k = 3 → CheatWalk mm m .write addr offset ram →
      cheatWriteFn h.files m.periphs.cheat ram.mem offset (UInt32.ofNat val) = .ok (cheat, mem) →
      cheatWriteFn h.files cheat mem (offset + 4) (UInt32.ofNat (val >>> 32)) = .error e →
      StoreFails mm h m addr val k e

/-- `addr - al`, where the first of the two loads is that an unaligned one is split into. -/
def alignDown (addr : UInt32) (k : Nat) : UInt32 := addr - (addr &&& ((1 : UInt32) <<< UInt32.ofNat k - 1))

/-- A load of `2 ^ k` bytes fails so: an aligned one, or the second of the two that it is split into. -/
inductive LoadFails (mm : MainMem) (h : MachHost σ) (m : Mach σ) (addr : UInt32) (k : Nat) (e : Fault) : Prop where
  | first : ReadFails mm h m (alignDown addr k) k e → LoadFails mm h m addr k e
  | second {junk : UInt32 → Nat} {v : Nat} {m₁ : Mach σ} :
      addr.toNat % 2 ^ k ≠ 0 →
      targetReadVia mm (targetReadAligned mm h) junk m (alignDown addr k) k = .ok (some v, m₁) →
      ReadFails mm h m₁ (alignDown addr k + UInt32.ofNat (2 ^ k)) k e → LoadFails mm h m addr k e

/-- Of the devices, only the cheat device looks at memory. -/
theorem devRead_error {dev : Dev} {offset : UInt32} {e : Fault} (he : m.devRead h dev offset = .error e) :
    dev = .cheat ∧ cheatReadFn h.files m.periphs.cheat m.ram.mem offset = .error e := by
  unfold Mach.devRead at he
  cases dev with
  | cheat =>
      refine ⟨rfl, ?_⟩
      unfold deviceRead at he
      cases hread : cheatReadFn h.files m.periphs.cheat m.ram.mem offset with
      | error e' =>
          rw [hread] at he
          cases he
          rfl
      | ok v =>
          rw [hread] at he
          cases he
  | _ => cases he

/-- A read of it changes nothing. -/
theorem devRead_cheat {offset : UInt32} {v : Nat} (hr : m.devRead h .cheat offset = .ok (v, m')) : m' = m := by
  obtain ⟨⟨v', periphs⟩, hdev, hr⟩ := bind_eq_ok.mp hr
  obtain ⟨v'', -, hdev⟩ := bind_eq_ok.mp hdev
  cases hdev
  cases hr
  rfl

theorem devWrite_error {dev : Dev} {offset val : UInt32} {e : Fault} (he : m.devWrite h dev offset val = .error e) :
    dev = .cheat ∧ cheatWriteFn h.files m.periphs.cheat m.ram.mem offset val = .error e := by
  unfold Mach.devWrite at he
  cases dev with
  | cheat =>
      refine ⟨rfl, ?_⟩
      unfold deviceWrite at he
      dsimp only at he
      split at he
      · next e' hwrite =>
        cases he
        exact hwrite
      · cases he
  | _ => cases he

/-- A write of it changes its registers and RAM. -/
theorem devWrite_cheat {offset val : UInt32} (hr : m.devWrite h .cheat offset val = .ok m') :
    cheatWriteFn h.files m.periphs.cheat m.ram.mem offset val = .ok (m'.periphs.cheat, m'.ram.mem) := by
  obtain ⟨⟨ram, periphs⟩, hdev, hr⟩ := bind_eq_ok.mp hr
  cases hr
  unfold deviceWrite at hdev
  dsimp only at hdev
  split at hdev
  · cases hdev
  · next cheat mem hwrite =>
    cases hdev
    exact hwrite

/-- The register that an access in the window of the cheat device goes to. -/
theorem cheatWalk_of {access : Access} {paddr : UInt32} {ram : Ram} {pr : PhysMemoryRange} {flags : UInt32}
    (hwalk : getPhysAddr mm m.cpu m.ram addr access = .ok (some paddr, ram))
    (hpr : getPhysMemRange (machMap mm) paddr.toNat = some pr) (hkind : pr.kind = .device .cheat flags) :
    CheatWalk mm m access addr (UInt32.ofNat (u32 ((paddr.toNat : Int) - pr.addr))) ram := by
  obtain ⟨hbase, hlo, hhi⟩ := window_cheat hpr hkind
  refine ⟨paddr, hwalk, ?_, ?_⟩
  · rw [offset_toNat (by omega)]
    omega
  · rw [offset_toNat (by omega)]
    omega

/-! ## Entries -/

/-- An entry is invalid, or it maps its page to a page of RAM. -/
def TlbMaps (mm : MainMem) (e : TLBEntry) : Prop :=
  e.vaddr = 0xffffffff ∨
    (e.vaddr.toNat % 4096 = 0 ∧ ∃ page, page % 4096 = 0 ∧ 0x1000 ≤ page ∧ page < machRamSize ∧
      e.memAddend = u64 ((mm.base + page : Nat) - (e.vaddr.toNat : Int)))

/-- **What a hit means.** The access is aligned, and the pointer is one into RAM at the same offset of a page. -/
theorem TlbMaps.hit {e : TLBEntry} (he : TlbMaps mm e) (hk : k ≤ 3) (hhit : e.vaddr = tlbTag addr k) :
    ∃ a, 0x1000 ≤ a ∧ a + 2 ^ k ≤ machRamSize ∧ a % 4096 = addr.toNat % 4096 ∧ e.ptr addr = mm.base + a := by
  have hfits := mm.fits
  have htag := tlbTag_toNat addr hk
  have hlt := addr.toNat_lt
  have hmod : addr.toNat % 2 ^ k < 8 :=
    (Nat.mod_lt _ (by positivity)).trans_le (Nat.le_of_dvd (by decide) (size_dvd hk))
  rw [← hhit] at htag
  rcases he with hinv | ⟨hpage, page, hal, h0, h1, haddend⟩
  · -- the tag of an access has zeros between the offset bits and the page
    rw [hinv] at htag
    have : (0xffffffff : UInt32).toNat = 4294967295 := by decide
    omega
  · -- the offset is a multiple of the size, and so is the page
    obtain ⟨c, hc⟩ : 2 ^ k ∣ 4096 := (size_dvd hk).trans (by decide)
    have hzero : addr.toNat % 2 ^ k = 0 := by omega
    have hoff : addr.toNat % 4096 + 2 ^ k ≤ 4096 := by
      have hdvd : 2 ^ k ∣ 4096 - addr.toNat % 4096 :=
        Nat.dvd_sub ⟨c, hc⟩ ((Nat.dvd_mod_iff ⟨c, hc⟩).mpr (Nat.dvd_of_mod_eq_zero hzero))
      have := Nat.le_of_dvd (by omega) hdvd
      omega
    refine ⟨page + addr.toNat % 4096, by omega, ?_, by omega, ?_⟩
    · simp only [machRamSize] at h1 ⊢
      omega
    · unfold TLBEntry.ptr
      rw [haddend]
      simp only [machRamSize] at h1 hfits
      unfold u64
      push_cast
      omega

/-- Filling an entry with a page of RAM. -/
theorem tlbMaps_fill {paddr : UInt32} (h0 : 0x1000 ≤ paddr.toNat) (h1 : paddr.toNat < machRamSize)
    (hoff : paddr.toNat % 4096 = addr.toNat % 4096) :
    TlbMaps mm (tlbEntry addr (ramPtr (mm.base + 0x1000) 0x1000 paddr)) := by
  have hfits := mm.fits
  have hpage := pageOf_toNat addr
  refine .inr ⟨?_, paddr.toNat / 4096 * 4096, by omega, by omega, ?_, ?_⟩
  · show (pageOf addr).toNat % 4096 = 0
    omega
  · simp only [machRamSize] at h1 ⊢
    omega
  · show u64 ((ramPtr (mm.base + 0x1000) 0x1000 paddr : Int) - addr.toNat) = u64 (_ - ((pageOf addr).toNat : Int))
    rw [ramPtr_eq h1, hpage]
    congr 1
    push_cast
    omega

theorem tlb_update_maps {tlb : Fin 256 → TLBEntry} (htlb : ∀ i, TlbMaps mm (tlb i)) {j : Fin 256} {e : TLBEntry}
    (he : TlbMaps mm e) (i : Fin 256) : TlbMaps mm (Function.update tlb j e i) := by
  by_cases hi : i = j
  · subst hi
    rw [Function.update_self]
    exact he
  · rw [Function.update_of_ne hi]
    exact htlb i

/-! ## Translation -/

/-- The host's address of byte `a` of RAM. -/
theorem index_base_add (mm : MainMem) {a : Nat} (ha : a < machRamSize) : mm.index (mm.base + a) = a := by
  have hfits := mm.fits
  refine mm.index_of_range ?_ ha
  simp only [machRamSize] at ha hfits
  unfold u64
  omega

/-- A load from RAM. -/
theorem hostLoad_ram (mm : MainMem) (ram : Ram) {a n : Nat} (hn : 0 < n) (ha : a + n ≤ machRamSize) :
    ∃ v, hostLoad mm ram (mm.base + a) n = .ok v := by
  obtain ⟨v, hv⟩ := ram.load_of_range (i := a) (n := n) (by omega) (by omega)
  exact ⟨v, hostLoad_eq (index_base_add mm (by omega)) hv⟩

/-- A store to RAM. -/
theorem hostStore_ram (mm : MainMem) (ram : Ram) {a n : Nat} (hn : 0 < n) (ha : a + n ≤ machRamSize) (v : Nat) :
    ∃ ram', hostStore mm ram (mm.base + a) n v = .ok ram' := by
  obtain ⟨mem', hmem⟩ : ∃ mem', ram.mem.store (a : Int) n v = some mem' :=
    Mem.store_isSome_iff.mpr (fun i hi => ram.isSome_of_range (by omega) (by omega))
  obtain ⟨ram', hram, -⟩ := hostStore_eq (index_base_add mm (by omega)) hmem
  exact ⟨ram', hram⟩

/-- An aligned word of a range of RAM is in RAM. -/
theorem ramWord_fits {base size physMem : Nat} (haddr : addr.toNat % 4 = 0)
    (hpr : getPhysMemRange (machMap mm) addr.toNat = some ⟨base, size, .ram physMem⟩) :
    ramPtr physMem base addr = mm.base + addr.toNat ∧ addr.toNat + 4 ≤ machRamSize := by
  obtain ⟨heq, h0, h1⟩ := getPhysMemRange_is_ram hpr rfl
  cases heq
  refine ⟨ramPtr_eq h1, ?_⟩
  simp only [machRamSize] at h1 ⊢
  omega

theorem physReadU32_ok (mm : MainMem) (ram : Ram) (haddr : addr.toNat % 4 = 0) : ∃ v, physReadU32 mm ram addr = .ok v := by
  unfold physReadU32
  cases hpr : getPhysMemRange (machMap mm) addr.toNat with
  | none => exact ⟨0, rfl⟩
  | some pr =>
      obtain ⟨a, size, kind⟩ := pr
      cases kind with
      | device dev flags => exact ⟨0, rfl⟩
      | ram physMem =>
          obtain ⟨hptr, hin⟩ := ramWord_fits haddr hpr
          obtain ⟨v, hv⟩ := hostLoad_ram mm ram (by decide : 0 < 4) hin
          refine ⟨UInt32.ofNat v, ?_⟩
          dsimp only
          rw [hptr, hv, ok_bind]
          rfl

theorem physWriteU32_ok (mm : MainMem) (ram : Ram) (haddr : addr.toNat % 4 = 0) (val : UInt32) :
    ∃ ram', physWriteU32 mm ram addr val = .ok ram' := by
  unfold physWriteU32
  cases hpr : getPhysMemRange (machMap mm) addr.toNat with
  | none => exact ⟨ram, rfl⟩
  | some pr =>
      obtain ⟨a, size, kind⟩ := pr
      cases kind with
      | device dev flags => exact ⟨ram, rfl⟩
      | ram physMem =>
          obtain ⟨hptr, hin⟩ := ramWord_fits haddr hpr
          dsimp only
          rw [hptr]
          exact hostStore_ram mm ram (by decide) hin val.toNat

/-- The low bits of one address and the high bits of another. -/
theorem join_mod_page (vaddr paddr : UInt32) {n : Nat} (hn : n = 12 ∨ n = 22) :
    ((vaddr &&& ((1 : UInt32) <<< UInt32.ofNat n - 1)) |||
      (paddr &&& ~~~((1 : UInt32) <<< UInt32.ofNat n - 1))).toNat % 4096 = vaddr.toNat % 4096 := by
  have hlow : ((1 : UInt32) <<< UInt32.ofNat n - 1).toNat = 2 ^ n - 1 := by
    rcases hn with rfl | rfl
    all_goals decide
  have hhigh : (~~~((1 : UInt32) <<< UInt32.ofNat n - 1)).toNat = 2 ^ 32 - 2 ^ n := by
    rcases hn with rfl | rfl
    all_goals decide
  have hle : n ≤ 32 := by omega
  rw [UInt32.toNat_or, UInt32.toNat_and, UInt32.toNat_and, hlow, hhigh, Nat.and_two_pow_sub_one_eq_mod,
    and_high paddr.toNat_lt hle, Nat.or_comm, Nat.mul_comm,
    ← Nat.two_pow_add_eq_or_of_lt (Nat.mod_lt _ (by positivity))]
  rcases hn with rfl | rfl
  all_goals omega

variable {E : Fault → Prop}

/-- **Translation never fails**, and keeps the offset in the page. -/
theorem pageWalk_ends {mstatus vaddr : UInt32} {priv : Nat} {access : Access} {n : Nat} (hn : n ≤ 2)
    {pteAddr : UInt32} (hpte : pteAddr.toNat % 4 = 0) (ram : Ram) :
    Ends E (fun r => ∀ paddr, r.1 = some paddr → paddr.toNat % 4096 = vaddr.toNat % 4096)
      (pageWalk mm mstatus priv vaddr access n pteAddr ram) := by
  -- on the levels that are left
  induction n generalizing pteAddr ram with
  | zero =>
      intro paddr hp
      cases hp
  | succ n ih =>
      have hentry : (pteAddr + (((vaddr >>> UInt32.ofNat (12 + 10 * n)) &&& 0x3ff) <<< 2)).toNat % 4 = 0 := by
        have hshift := shiftLeft_mod ((vaddr >>> UInt32.ofNat (12 + 10 * n)) &&& 0x3ff) (le_refl 2) (by decide)
        have hlit : UInt32.ofNat 2 = 2 := rfl
        rw [hlit] at hshift
        rw [UInt32.toNat_add]
        omega
      unfold pageWalk
      obtain ⟨pte, hpteval⟩ := physReadU32_ok mm ram hentry
      dsimp only
      rw [hpteval, ok_bind]
      by_cases hvalid : pte &&& pteVMask = 0
      · rw [if_pos hvalid]
        intro paddr hp
        cases hp
      rw [if_neg hvalid]
      by_cases hleaf : (pte >>> 1) &&& 7 = 0
      · rw [if_pos hleaf]
        exact ih (by omega) (shiftLeft_mod (pte >>> 10) (n := 12) (k := 2) (by decide) (by decide)) ram
      rw [if_neg hleaf]
      split
      · -- a leaf: its bits may be written back first
        split
        · obtain ⟨ram', hram⟩ := physWriteU32_ok mm ram hentry _
          rw [hram, ok_bind]
          intro paddr hp
          cases hp
          exact join_mod_page vaddr _ (by omega)
        · intro paddr hp
          cases hp
          exact join_mod_page vaddr _ (by omega)
      · intro paddr hp
        cases hp

theorem getPhysAddr_ends (cpu : Cpu) (ram : Ram) (vaddr : UInt32) (access : Access) :
    Ends E (fun r => ∀ paddr, r.1 = some paddr → paddr.toNat % 4096 = vaddr.toNat % 4096)
      (getPhysAddr mm cpu ram vaddr access) := by
  have hself : ∀ paddr, (some vaddr, ram).1 = some paddr → paddr.toNat % 4096 = vaddr.toNat % 4096 := by
    rintro paddr hp
    cases hp
    rfl
  unfold getPhysAddr
  dsimp only
  generalize (if cpu.mstatus &&& mstatusMprv ≠ 0 ∧ access ≠ .code then _ else cpu.priv) = priv
  by_cases hpriv : priv = prvM
  · rw [if_pos hpriv]
    exact hself
  · rw [if_neg hpriv]
    by_cases hbare : cpu.satp >>> 31 = 0
    · rw [if_pos hbare]
      exact hself
    · rw [if_neg hbare]
      exact pageWalk_ends (le_refl 2) (shiftLeft_mod _ (n := 12) (k := 2) (by decide) (by decide)) ram

/-- Translation keeps the offset in the page. -/
theorem getPhysAddr_offset {cpu : Cpu} {ram ram' : Ram} {vaddr paddr : UInt32} {access : Access}
    (hp : getPhysAddr mm cpu ram vaddr access = .ok (some paddr, ram')) :
    paddr.toNat % 4096 = vaddr.toNat % 4096 := by
  have hends : Ends (fun _ => True) (fun r => ∀ paddr, r.1 = some paddr → paddr.toNat % 4096 = vaddr.toNat % 4096)
      (getPhysAddr mm cpu ram vaddr access) := getPhysAddr_ends cpu ram vaddr access
  rw [hp] at hends
  exact hends paddr rfl

/-! ## Accesses -/

/-- **The invariant of the memory system**: the TLBs map to RAM. -/
structure MemInv (mm : MainMem) (m : Mach σ) : Prop where
  read : ∀ i, TlbMaps mm (m.cpu.tlbRead i)
  write : ∀ i, TlbMaps mm (m.cpu.tlbWrite i)
  code : ∀ i, TlbMaps mm (m.cpu.tlbCode i)

/-- What an access leaves: the invariant, and the pointers of the fetch loop. -/
structure Follows (mm : MainMem) (m m' : Mach σ) : Prop where
  inv : MemInv mm m'
  code : m'.code = m.code

theorem Follows.trans {m₁ m₂ : Mach σ} (h₁ : Follows mm m m₁) (h₂ : Follows mm m₁ m₂) : Follows mm m m₂ :=
  ⟨h₂.inv, h₂.code.trans h₁.code⟩

/-- After the page walk of an access. -/
theorem Follows.walk {ram : Ram} (hf : Follows mm { m with ram := ram } m') : Follows mm m m' := ⟨hf.inv, hf.code⟩

theorem devRead_ends (hm : MemInv mm m) (dev : Dev) (offset : UInt32) :
    Ends (fun e => dev = .cheat ∧ cheatReadFn h.files m.periphs.cheat m.ram.mem offset = .error e)
      (fun r => Follows mm m r.2) (m.devRead h dev offset) := by
  cases hr : m.devRead h dev offset with
  | error e => exact devRead_error hr
  | ok r =>
      obtain ⟨⟨v, periphs⟩, -, hr⟩ := bind_eq_ok.mp hr
      cases hr
      exact ⟨⟨hm.read, hm.write, hm.code⟩, rfl⟩

theorem devWrite_ends (hm : MemInv mm m) (dev : Dev) (offset val : UInt32) :
    Ends (fun e => dev = .cheat ∧ cheatWriteFn h.files m.periphs.cheat m.ram.mem offset val = .error e)
      (fun m' => Follows mm m m') (m.devWrite h dev offset val) := by
  cases hr : m.devWrite h dev offset val with
  | error e => exact devWrite_error hr
  | ok m' =>
      obtain ⟨⟨ram, periphs⟩, -, hr⟩ := bind_eq_ok.mp hr
      cases hr
      exact ⟨⟨hm.read, hm.write, hm.code⟩, rfl⟩

/-- The physical address of an aligned access is aligned, so all of the access is in RAM if its start is. -/
theorem aligned_fits {paddr : UInt32} (hk : k ≤ 3) (hal : addr.toNat % 2 ^ k = 0)
    (hoff : paddr.toNat % 4096 = addr.toNat % 4096) (h1 : paddr.toNat < machRamSize) :
    paddr.toNat + 2 ^ k ≤ machRamSize := by
  obtain ⟨c, hc⟩ : 2 ^ k ∣ machRamSize := (size_dvd hk).trans (by decide)
  have hpage : 2 ^ k ∣ 4096 := (size_dvd hk).trans (by decide)
  have hdvd : 2 ^ k ∣ paddr.toNat := by
    rw [← Nat.dvd_mod_iff hpage, hoff, Nat.dvd_mod_iff hpage]
    exact Nat.dvd_of_mod_eq_zero hal
  have := Nat.le_of_dvd (by omega) (Nat.dvd_sub ⟨c, hc⟩ hdvd)
  omega

/-- A load from a range, whose translation has left `ram`. -/
theorem targetReadRange_ends (hm : MemInv mm m) (hk : k ≤ 3) (hal : addr.toNat % 2 ^ k = 0) {paddr : UInt32} {ram : Ram}
    (hwalk : getPhysAddr mm m.cpu m.ram addr .read = .ok (some paddr, ram)) {pr : PhysMemoryRange}
    (hpr : getPhysMemRange (machMap mm) paddr.toNat = some pr) :
    Ends (ReadFails mm h m addr k) (fun r => Follows mm m r.2)
      (targetReadRange mm h { m with ram := ram } addr paddr k pr) := by
  have hm' : MemInv mm { m with ram := ram } := ⟨hm.read, hm.write, hm.code⟩
  have hoff := getPhysAddr_offset hwalk
  unfold targetReadRange
  cases hkind : pr.kind with
  | ram physMem =>
      obtain ⟨rfl, h0, h1⟩ := getPhysMemRange_is_ram hpr hkind
      cases hkind
      dsimp only [ramRange]
      rw [if_pos hk, ramPtr_eq h1]
      obtain ⟨v, hv⟩ := hostLoad_ram mm ram (by positivity : 0 < 2 ^ k)
        (aligned_fits hk hal hoff h1)
      rw [Mach.fillRead_ram, hv, ok_bind]
      refine ⟨⟨tlb_update_maps hm.read ?_, hm.write, hm.code⟩, rfl⟩
      rw [← ramPtr_eq h1]
      exact tlbMaps_fill h0 h1 hoff
  | device dev devioFlags =>
      dsimp only
      rw [(window_ok hpr hkind).1.flags_eq]
      by_cases h2 : k = 2
      · rw [if_pos ((devioSize32_bit hk).mpr h2)]
        refine ((devRead_ends hm' dev _).weaken ?_).bind (fun r hr => hr.walk)
        rintro e ⟨rfl, he⟩
        exact .word (.inl h2) (cheatWalk_of hwalk hpr hkind) he
      rw [if_neg (mt (devioSize32_bit hk).mp h2)]
      by_cases h3 : k = 3
      · rw [if_pos ⟨by decide, h3⟩]
        refine ((devRead_ends hm' dev _).weaken ?_).bind_of ?_
        · rintro e ⟨rfl, he⟩
          exact .word (.inr h3) (cheatWalk_of hwalk hpr hkind) he
        rintro ⟨lo, m₁⟩ hlo h₁
        refine ((devRead_ends h₁.inv dev _).weaken ?_).bind (fun r hr => h₁.walk.trans hr)
        rintro e ⟨rfl, he⟩
        cases devRead_cheat hlo
        exact .second h3 (cheatWalk_of hwalk hpr hkind) he
      · rw [if_neg (fun hc => h3 hc.2)]
        exact ⟨hm', rfl⟩

theorem targetReadAligned_ends (hm : MemInv mm m) (hk : k ≤ 3) (hal : addr.toNat % 2 ^ k = 0) :
    Ends (ReadFails mm h m addr k) (fun r => Follows mm m r.2) (targetReadAligned mm h m addr k) := by
  unfold targetReadAligned
  refine (getPhysAddr_ends m.cpu m.ram addr .read).bind_of ?_
  rintro ⟨paddr, ram⟩ hwalk -
  cases paddr with
  | none => exact ⟨⟨hm.read, hm.write, hm.code⟩, rfl⟩
  | some paddr =>
      dsimp only
      cases hpr : getPhysMemRange (machMap mm) paddr.toNat with
      | none => exact ⟨⟨hm.read, hm.write, hm.code⟩, rfl⟩
      | some pr => exact targetReadRange_ends hm hk hal hwalk hpr

/-- A load over a slow path. -/
theorem targetReadVia_ends {slow : Mach σ → UInt32 → Nat → Except Fault (SlowRead × Mach σ)} {junk : UInt32 → Nat}
    (hm : MemInv mm m) (hk : k ≤ 3) (hslow : Ends E (fun r => Follows mm m r.2) (slow m addr k)) :
    Ends E (fun r => Follows mm m r.2) (targetReadVia mm slow junk m addr k) := by
  unfold targetReadVia
  dsimp only
  by_cases hhit : (m.cpu.tlbRead (tlbIdx addr)).vaddr = tlbTag addr k
  · rw [if_pos hhit]
    obtain ⟨a, h0, h1, -, hptr⟩ := (hm.read _).hit hk hhit
    obtain ⟨v, hv⟩ := hostLoad_ram mm m.ram (by positivity : 0 < 2 ^ k) h1
    rw [hptr, hv, ok_bind]
    exact ⟨hm, rfl⟩
  · rw [if_neg hhit]
    refine hslow.bind ?_
    rintro ⟨r, m₁⟩ hr
    cases r with
    | fault => exact hr
    | unset => exact hr
    | val v => exact hr

/-- Two aligned loads, of which the second starts where the first has come to. -/
theorem targetReadTwo_ends {junk : UInt32 → Nat} (hm : MemInv mm m) (hk : k ≤ 3) {addr₀ addr₁ : UInt32}
    (hal₀ : addr₀.toNat % 2 ^ k = 0) (hal₁ : addr₁.toNat % 2 ^ k = 0) (join : Nat → Nat → Nat)
    (hfirst : ∀ e, ReadFails mm h m addr₀ k e → E e)
    (hsecond : ∀ v m₁ e, targetReadVia mm (targetReadAligned mm h) junk m addr₀ k = .ok (some v, m₁) →
      ReadFails mm h m₁ addr₁ k e → E e) :
    Ends E (fun r => Follows mm m r.2) (targetReadTwo mm h junk m addr₀ addr₁ k join) := by
  unfold targetReadTwo
  refine ((targetReadVia_ends hm hk (targetReadAligned_ends hm hk hal₀)).weaken hfirst).bind_of ?_
  rintro ⟨v₀, m₀⟩ hread h₀
  cases v₀ with
  | none => exact h₀
  | some v₀ =>
      have hnext : Ends (ReadFails mm h m₀ addr₁ k) (fun r => Follows mm m₀ r.2)
          (targetReadVia mm (targetReadAligned mm h) junk m₀ addr₁ k) :=
        targetReadVia_ends h₀.inv hk (targetReadAligned_ends h₀.inv hk hal₁)
      refine (hnext.weaken (fun e => hsecond v₀ m₀ e hread)).bind ?_
      rintro ⟨v₁, m₁⟩ h₁
      cases v₁ with
      | none => exact h₀.trans h₁
      | some v₁ => exact h₀.trans h₁

/-- `addr - (addr & (size - 1))` and the address one size further. -/
theorem sub_align (addr : UInt32) (hk : k ≤ 3) (step : UInt32) (hstep : step.toNat % 2 ^ k = 0) :
    (addr - (addr &&& ((1 : UInt32) <<< UInt32.ofNat k - 1)) + step).toNat % 2 ^ k = 0 := by
  have hal := align_toNat addr hk
  have hle : (addr &&& ((1 : UInt32) <<< UInt32.ofNat k - 1)).toNat ≤ addr.toNat := by
    rw [hal]
    exact Nat.mod_le _ _
  have hdvd : 2 ^ k ∣ 2 ^ 32 := pow_dvd_pow 2 (by omega)
  rw [UInt32.toNat_add, Nat.mod_mod_of_dvd _ hdvd, UInt32.toNat_sub_of_le _ _ (UInt32.le_iff_toNat_le.mpr hle), hal,
    Nat.add_mod, hstep, Nat.sub_mod_eq_zero_of_mod_eq (Nat.mod_mod _ _).symm]
  rfl

theorem sub_align_self (addr : UInt32) (hk : k ≤ 3) :
    (addr - (addr &&& ((1 : UInt32) <<< UInt32.ofNat k - 1))).toNat % 2 ^ k = 0 := by
  have hzero := sub_align addr hk 0 (Nat.zero_mod _)
  rwa [UInt32.add_zero] at hzero

/-- Bytes do not go to a device. -/
theorem not_readFails_byte {e : Fault} : ¬ ReadFails mm h m addr 0 e := by
  intro hf
  cases hf with
  | word hk => omega
  | second hk => omega

theorem not_storeFails_byte {val : Nat} {e : Fault} : ¬ StoreFails mm h m addr val 0 e := by
  intro hf
  cases hf with
  | word hk => omega
  | second hk => omega

/-- **A load keeps the invariant**, and only the cheat device can fail. -/
theorem targetRead_ends (junk : UInt32 → Nat) (hm : MemInv mm m) (hk : k ≤ 3) (addr : UInt32) :
    Ends (LoadFails mm h m addr k) (fun r => Follows mm m r.2) (targetRead mm h junk m addr k) := by
  refine targetReadVia_ends hm hk ?_
  unfold targetReadSlow
  dsimp only
  by_cases hal : addr &&& ((1 : UInt32) <<< UInt32.ofNat k - 1) = 0
  · rw [if_neg (not_not_intro hal)]
    refine (targetReadAligned_ends hm hk ((align_eq_zero hk).mp hal)).weaken (fun e he => .first ?_)
    unfold alignDown
    rw [hal, UInt32.sub_zero]
    exact he
  · rw [if_pos hal]
    have hmod : addr.toNat % 2 ^ k ≠ 0 := mt (align_eq_zero hk).mpr hal
    -- the aligned accesses that an unaligned one is split into
    have hfirst := sub_align_self addr hk
    obtain rfl | rfl | rfl | rfl : k = 0 ∨ k = 1 ∨ k = 2 ∨ k = 3 := by omega
    · exact absurd ((align_eq_zero (by decide)).mpr (Nat.mod_one _)) hal
    · exact targetReadTwo_ends hm (by decide) (Nat.mod_one _) (Nat.mod_one _) _
        (fun e he => absurd he not_readFails_byte) (fun v m₁ e _ he => absurd he not_readFails_byte)
    · exact targetReadTwo_ends hm hk hfirst (sub_align addr hk 4 (by decide)) _ (fun e he => .first he)
        (fun v m₁ e hv he => .second hmod hv he)
    · exact targetReadTwo_ends hm hk hfirst (sub_align addr hk 8 (by decide)) _ (fun e he => .first he)
        (fun v m₁ e hv he => .second hmod hv he)

/-- A store to a range, whose translation has left `ram`. -/
theorem targetWriteRange_ends (hm : MemInv mm m) (hk : k ≤ 3) (hal : addr.toNat % 2 ^ k = 0) {paddr : UInt32} {ram : Ram}
    (hwalk : getPhysAddr mm m.cpu m.ram addr .write = .ok (some paddr, ram)) {pr : PhysMemoryRange}
    (hpr : getPhysMemRange (machMap mm) paddr.toNat = some pr) (val : Nat) :
    Ends (StoreFails mm h m addr val k) (fun m' => Follows mm m m')
      (targetWriteRange mm h { m with ram := ram } addr paddr val k pr) := by
  have hm' : MemInv mm { m with ram := ram } := ⟨hm.read, hm.write, hm.code⟩
  have hoff := getPhysAddr_offset hwalk
  unfold targetWriteRange
  cases hkind : pr.kind with
  | ram physMem =>
      obtain ⟨rfl, h0, h1⟩ := getPhysMemRange_is_ram hpr hkind
      cases hkind
      dsimp only [ramRange]
      rw [if_pos hk, ramPtr_eq h1]
      obtain ⟨ram', hram⟩ := hostStore_ram mm ram (by positivity : 0 < 2 ^ k)
        (aligned_fits hk hal hoff h1) val
      rw [Mach.fillWrite_ram, hram, ok_bind]
      refine ⟨⟨hm.read, tlb_update_maps hm.write ?_, hm.code⟩, rfl⟩
      rw [← ramPtr_eq h1]
      exact tlbMaps_fill h0 h1 hoff
  | device dev devioFlags =>
      dsimp only
      rw [(window_ok hpr hkind).1.flags_eq]
      by_cases h2 : k = 2
      · rw [if_pos ((devioSize32_bit hk).mpr h2)]
        refine ((devWrite_ends hm' dev _ _).weaken ?_).mono (fun m₁ h₁ => h₁.walk)
        rintro e ⟨rfl, he⟩
        exact .word (.inl h2) (cheatWalk_of hwalk hpr hkind) he
      rw [if_neg (mt (devioSize32_bit hk).mp h2)]
      by_cases h3 : k = 3
      · rw [if_pos ⟨by decide, h3⟩]
        refine ((devWrite_ends hm' dev _ _).weaken ?_).bind_of ?_
        · rintro e ⟨rfl, he⟩
          exact .word (.inr h3) (cheatWalk_of hwalk hpr hkind) he
        rintro m₁ hlo h₁
        refine ((devWrite_ends h₁.inv dev _ _).weaken ?_).mono (fun m₂ h₂ => h₁.walk.trans h₂)
        rintro e ⟨rfl, he⟩
        exact .second h3 (cheatWalk_of hwalk hpr hkind) (devWrite_cheat hlo) he
      · rw [if_neg (fun hc => h3 hc.2)]
        exact ⟨hm', rfl⟩

theorem targetWriteAligned_ends (hm : MemInv mm m) (hk : k ≤ 3) (hal : addr.toNat % 2 ^ k = 0) (val : Nat) :
    Ends (StoreFails mm h m addr val k) (fun r => Follows mm m r.2) (targetWriteAligned mm h m addr val k) := by
  unfold targetWriteAligned
  refine (getPhysAddr_ends m.cpu m.ram addr .write).bind_of ?_
  rintro ⟨paddr, ram⟩ hwalk -
  cases paddr with
  | none => exact ⟨⟨hm.read, hm.write, hm.code⟩, rfl⟩
  | some paddr =>
      dsimp only
      cases hpr : getPhysMemRange (machMap mm) paddr.toNat with
      | none => exact ⟨⟨hm.read, hm.write, hm.code⟩, rfl⟩
      | some pr => exact (targetWriteRange_ends hm hk hal hwalk hpr val).bind (fun m₁ h₁ => h₁)

/-- A store over a slow path. -/
theorem targetWriteVia_ends {slow : Mach σ → UInt32 → Nat → Nat → Except Fault (Bool × Mach σ)} {val : Nat}
    (hm : MemInv mm m) (hk : k ≤ 3) (hslow : Ends E (fun r => Follows mm m r.2) (slow m addr val k)) :
    Ends E (fun r => Follows mm m r.2) (targetWriteVia mm slow m addr val k) := by
  unfold targetWriteVia
  dsimp only
  by_cases hhit : (m.cpu.tlbWrite (tlbIdx addr)).vaddr = tlbTag addr k
  · rw [if_pos hhit]
    obtain ⟨a, h0, h1, -, hptr⟩ := (hm.write _).hit hk hhit
    obtain ⟨ram', hram⟩ := hostStore_ram mm m.ram (by positivity : 0 < 2 ^ k) h1 val
    rw [hptr, hram, ok_bind]
    exact ⟨⟨hm.read, hm.write, hm.code⟩, rfl⟩
  · rw [if_neg hhit]
    exact hslow

/-- Stores of bytes do not fail. -/
theorem targetWriteBytes_ends (hm : MemInv mm m) (val n i : Nat) :
    Ends E (fun r => Follows mm m r.2) (targetWriteBytes mm h addr val n i m) := by
  -- on the bytes that are left
  induction n generalizing i m with
  | zero => exact ⟨hm, rfl⟩
  | succ n ih =>
      unfold targetWriteBytes
      have hbyte : Ends E (fun r => Follows mm m r.2)
          (targetWriteAligned mm h m (addr + UInt32.ofNat i) ((val >>> (8 * i)) &&& 0xff) 0) :=
        (targetWriteAligned_ends hm (Nat.zero_le 3) (Nat.mod_one _) _).weaken
          (fun e he => absurd he not_storeFails_byte)
      refine (targetWriteVia_ends hm (Nat.zero_le 3) hbyte).bind ?_
      rintro ⟨ok, m₁⟩ h₁
      cases ok with
      | false => exact h₁
      | true => exact (ih h₁.inv (i + 1)).mono (fun r hr => h₁.trans hr)

/-- **A store keeps the invariant**, and only the cheat device can fail. -/
theorem targetWrite_ends (hm : MemInv mm m) (hk : k ≤ 3) (addr : UInt32) (val : Nat) :
    Ends (StoreFails mm h m addr val k) (fun r => Follows mm m r.2) (targetWrite mm h m addr val k) := by
  refine targetWriteVia_ends hm hk ?_
  unfold targetWriteSlow
  by_cases hal : addr &&& ((1 : UInt32) <<< UInt32.ofNat k - 1) = 0
  · rw [if_neg (not_not_intro hal)]
    exact targetWriteAligned_ends hm hk ((align_eq_zero hk).mp hal) val
  · rw [if_pos hal]
    exact targetWriteBytes_ends hm val _ 0

/-! ## Instruction fetch -/

/-- The fetch loop is at an even address, and while `code_ptr` is below `code_end` it points to a halfword of a page of
    RAM, of which `code_end` leaves out the last one. -/
structure CodeIn (mm : MainMem) (c : Code) : Prop where
  even : c.pc.toNat % 2 = 0
  inPage : c.codePtr < c.codeEnd → ∃ page half, page + 4096 ≤ machRamSize ∧
    c.codePtr = mm.base + page + 2 * half ∧ c.codeEnd = mm.base + page + 4094

theorem codeIn_jump {pc : UInt32} (hpc : pc.toNat % 2 = 0) : CodeIn mm (Code.jump pc) := by
  have heven := (codeOk_jump hpc : CodeOk mm _).even
  exact ⟨heven, fun hlt => absurd hlt (Nat.lt_irrefl 0)⟩

theorem codeIn_next {c : Code} (hc : CodeIn mm c) {len : Nat} (hlen : len % 2 = 0) : CodeIn mm (c.next len) := by
  refine ⟨?_, ?_⟩
  · have heven := hc.even
    rw [pc_toNat] at heven ⊢
    simp only [Code.next, u32] at heven ⊢
    omega
  -- below the end after the step means below it before
  · intro hlt
    simp only [Code.next] at hlt ⊢
    obtain ⟨page, half, h1, hptr, hhi⟩ := hc.inPage (by omega)
    exact ⟨page, half + len / 2, h1, by omega, hhi⟩

/-- The loop is never more than a page away from its end. -/
theorem CodeIn.left_le {c : Code} (hc : CodeIn mm c) : c.codeEnd ≤ c.codePtr + 4094 := by
  by_cases hlt : c.codePtr < c.codeEnd
  · obtain ⟨page, half, -, hptr, hhi⟩ := hc.inPage hlt
    omega
  · omega

/-- The loop after a fetch at an even address, which a page of RAM is behind. -/
theorem codeIn_codeAt (heven : addr.toNat % 2 = 0) {a : Nat} (ha : a < machRamSize)
    (hoff : a % 4096 = addr.toNat % 4096) : CodeIn mm (codeAt addr (mm.base + a)) := by
  have hlt := addr.toNat_lt
  refine ⟨?_, fun _ => ⟨a / 4096 * 4096, a % 4096 / 2, ?_, ?_, ?_⟩⟩
  · rw [pc_toNat]
    have hadd : (codeAt addr (mm.base + a)).codeToPcAddend.toNat = u32 ((addr.toNat : Int) - (mm.base + a : Nat)) := by
      show (UInt32.ofNat (u32 ((addr.toNat : Int) - ((mm.base + a : Nat) : Int)))).toNat = _
      rw [UInt32.toNat_ofNat', Nat.mod_eq_of_lt (u32_lt _)]
    rw [hadd]
    simp only [codeAt, u32]
    push_cast
    omega
  · simp only [machRamSize] at ha ⊢
    omega
  · simp only [codeAt]
    omega
  · simp only [codeAt, pageOffset_toNat, u32]
    omega

/-- The pointer to an instruction is one into RAM, at the same offset of a page. -/
theorem targetInsnPtr_ends (hm : MemInv mm m) (addr : UInt32) :
    Ends E (fun r => Follows mm m r.2 ∧ ∀ ptr, r.1 = some ptr →
      ∃ a, a < machRamSize ∧ a % 4096 = addr.toNat % 4096 ∧ ptr = mm.base + a) (targetInsnPtr mm m addr) := by
  unfold targetInsnPtr
  dsimp only
  by_cases hhit : (m.cpu.tlbCode (tlbIdx addr)).vaddr = pageOf addr
  · rw [if_pos hhit]
    refine ⟨⟨hm, rfl⟩, ?_⟩
    rintro ptr hp
    cases hp
    obtain ⟨a, h0, h1, hoff, hptr⟩ := (hm.code _).hit (by decide) (hhit.trans (pageOf_eq addr))
    exact ⟨a, by omega, hoff, hptr⟩
  · rw [if_neg hhit]
    unfold targetReadInsnSlow
    refine (getPhysAddr_ends m.cpu m.ram addr .code).bind ?_
    rintro ⟨paddr, ram⟩ hoff
    have hfault (c : Int) : Follows mm m ({ m with ram := ram }.pend c addr) :=
      ⟨⟨hm.read, hm.write, hm.code⟩, rfl⟩
    cases paddr with
    | none => exact ⟨hfault _, fun ptr hp => by cases hp⟩
    | some paddr =>
        dsimp only
        cases hpr : getPhysMemRange (machMap mm) paddr.toNat with
        | none => exact ⟨hfault _, fun ptr hp => by cases hp⟩
        | some pr =>
            obtain ⟨base, size, kind⟩ := pr
            cases kind with
            | device dev flags => exact ⟨hfault _, fun ptr hp => by cases hp⟩
            | ram physMem =>
                obtain ⟨heq, h0, h1⟩ := getPhysMemRange_is_ram hpr rfl
                cases heq
                have hsame := hoff paddr rfl
                refine ⟨⟨⟨hm.read, hm.write, tlb_update_maps hm.code (tlbMaps_fill h0 h1 hsame)⟩, rfl⟩, ?_⟩
                rintro ptr hp
                cases hp
                exact ⟨paddr.toNat, h1, hsame, ramPtr_eq h1⟩

/-- The second halfword of an instruction across two pages. -/
theorem targetReadInsnU16_ends (hm : MemInv mm m) (heven : addr.toNat % 2 = 0) :
    Ends E (fun r => Follows mm m r.2) (targetReadInsnU16 mm m addr) := by
  unfold targetReadInsnU16
  refine (targetInsnPtr_ends hm addr).bind ?_
  rintro ⟨ptr, m₁⟩ ⟨hfollows, hptr⟩
  cases ptr with
  | none => exact hfollows
  | some ptr =>
      obtain ⟨a, ha, hoff, rfl⟩ := hptr ptr rfl
      obtain ⟨v, hv⟩ := hostLoad_ram mm m₁.ram (by decide : 0 < 2) (a := a)
        (by simp only [machRamSize] at ha ⊢; omega)
      dsimp only
      rw [hv, ok_bind]
      exact hfollows

/-- What a fetch leaves: the invariant, the loop in a page of RAM, and not moved if it was in one already. -/
structure Fetched (mm : MainMem) (m m' : Mach σ) : Prop where
  inv : MemInv mm m'
  code : CodeIn mm m'.code
  same : m.code.codePtr < m.code.codeEnd → m'.code = m.code

/-- **A fetch never fails.** -/
theorem fetchInsn_ends (hm : MemInv mm m) (hc : CodeIn mm m.code) :
    Ends E (fun r => Fetched mm m r.2) (fetchInsn mm m) := by
  unfold fetchInsn
  by_cases hrefill : m.code.codeEnd ≤ m.code.codePtr
  · have hnot : ¬ m.code.codePtr < m.code.codeEnd := by omega
    rw [if_pos hrefill]
    dsimp only
    refine (targetInsnPtr_ends hm m.code.pc).bind ?_
    rintro ⟨ptr, m₁⟩ ⟨hfollows, hptr⟩
    cases ptr with
    | none => exact ⟨hfollows.inv, by rw [hfollows.code]; exact hc, fun hlt => absurd hlt hnot⟩
    | some ptr =>
        obtain ⟨a, ha, hoff, rfl⟩ := hptr ptr rfl
        have hcode : CodeIn mm (codeAt m.code.pc (mm.base + a)) := codeIn_codeAt hc.even ha hoff
        have hinv : MemInv mm { m₁ with code := codeAt m.code.pc (mm.base + a) } :=
          ⟨hfollows.inv.read, hfollows.inv.write, hfollows.inv.code⟩
        have heven := hc.even
        have hfetched (m₂ : Mach σ) (h₂ : Follows mm { m₁ with code := codeAt m.code.pc (mm.base + a) } m₂) :
            Fetched mm m m₂ := ⟨h₂.inv, by rw [h₂.code]; exact hcode, fun hlt => absurd hlt hnot⟩
        dsimp only
        split
        · -- the last halfword of the page
          obtain ⟨v, hv⟩ := hostLoad_ram mm m₁.ram (by decide : 0 < 2) (a := a)
            (by simp only [machRamSize] at ha ⊢; omega)
          rw [hv, ok_bind]
          split
          · refine (targetReadInsnU16_ends hinv (by rw [UInt32.toNat_add]; simp; omega)).bind ?_
            rintro ⟨high, m₂⟩ h₂
            cases high with
            | none => exact hfetched m₂ h₂
            | some high => exact hfetched m₂ h₂
          · exact hfetched _ ⟨hinv, rfl⟩
        · rename_i hend
          -- before the last halfword, four bytes are in the page
          have hfits : a + 4 ≤ machRamSize := by
            obtain ⟨page, half, h1, hlo, hhi⟩ := hcode.inPage (by omega)
            simp only [codeAt] at hlo hhi hend
            omega
          obtain ⟨v, hv⟩ := hostLoad_ram mm m₁.ram (by decide : 0 < 4) hfits
          rw [hv, ok_bind]
          exact hfetched _ ⟨hinv, rfl⟩
  · rw [if_neg hrefill]
    obtain ⟨page, half, h1, hlo, hhi⟩ := hc.inPage (by omega)
    obtain ⟨v, hv⟩ := hostLoad_ram mm m.ram (by decide : 0 < 4) (a := m.code.codePtr - mm.base)
      (by omega)
    rw [show mm.base + (m.code.codePtr - mm.base) = m.code.codePtr by omega] at hv
    rw [hv, ok_bind]
    exact ⟨hm, hc, fun _ => rfl⟩

end HadBadge
