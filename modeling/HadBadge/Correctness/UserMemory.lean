import HadBadge.Correctness.TlbSound

/-!
# `Correctness.UserMemory`: what a program in user mode can do to memory

A program that runs in user mode changes memory by its stores, and page walks on its behalf change the page tables.
Where the tables keep their entries and the devices out of reach, the stores stay within the pages that they make
writable, and the walks set accessed and dirty bits; so the tables remain the ones that the program was started with.
The TLB for stores has a part in this: it is flushed when user mode is entered, and what is filled in later is right.

## Contents
- **Reach.** `Reaches`, `Protects`, and `RamConfined` for what may have become of memory.
- **Steps.** The invariant `Confined`: walks, stores and all steps of an access keep it, `MemStep.confined`.
- **Runs.** `OwnEvent`; `user_memory`.
-/

namespace HadBadge

open Lib Relation

variable {σ : Type} {env : InterpEnv σ} {mm : MainMem} {h : MachHost σ} {m m' : Mach σ} {s s' s₀ t u : RISCVCPUState σ}
  {access : Access} {c : Cpu} {ram₀ ram : Ram} {addr paddr vaddr : UInt32}

/-! ## Reach -/

/-- The tables of `c` translate `vaddr` to `paddr`, and permit the access. -/
def Reaches (c : Cpu) (ram : Ram) (access : Access) (vaddr paddr : UInt32) : Prop :=
  ∃ l, FindsLeaf c ram vaddr l ∧ LeafPermits c access l ∧ paddr.toNat = l.physical vaddr.toNat % 2 ^ 32

/-- A byte of the page tables of `c`. -/
def InTables (c : Cpu) (ram : Ram) (paddr : UInt32) : Prop :=
  ∃ a, Sv32.IsEntry (pteAt ram) (c.satp.toNat % 2 ^ 22) a ∧ a % 2 ^ 32 ≤ paddr.toNat ∧ paddr.toNat < a % 2 ^ 32 + 4

/-- **The tables keep what they protect out of reach**: themselves, and the devices. -/
structure Protects (mm : MainMem) (c : Cpu) (ram : Ram) : Prop where
  translating : ∀ access, Translating c access
  tables : ∀ {vaddr paddr}, Reaches c ram .write vaddr paddr → ¬ InTables c ram paddr
  devices : ∀ {access vaddr paddr base size dev devioFlags}, Reaches c ram access vaddr paddr →
    getPhysMemRange (machMap mm) paddr.toNat ≠ some ⟨base, size, .device dev devioFlags⟩

/-- **What may have become of memory**: the tables are the same but for accessed and dirty bits, and what else has
    changed was within reach of stores. -/
structure RamConfined (c : Cpu) (ram₀ ram : Ram) : Prop where
  tables : Sv32.SameTables (pteAt ram₀) (pteAt ram) (c.satp.toNat % 2 ^ 22)
  frame : ∀ paddr : UInt32, ram.mem paddr.toNat ≠ ram₀.mem paddr.toNat →
    (∃ vaddr, Reaches c ram₀ .write vaddr paddr) ∨ InTables c ram₀ paddr

theorem RamConfined.refl (c : Cpu) (ram : Ram) : RamConfined c ram ram where
  tables := by
    intro a _
    cases pteAt ram a with
    | none => exact .none
    | some e => exact .some (.refl e)
  frame := fun _ hne => absurd rfl hne

theorem Reaches.page {vaddr' paddr' : UInt32} (hr : Reaches c ram access vaddr paddr)
    (hpage : vaddr'.toNat / 4096 = vaddr.toNat / 4096) (hpaddr : paddr'.toNat / 4096 = paddr.toNat / 4096)
    (hoff : paddr'.toNat % 4096 = vaddr'.toNat % 4096) : Reaches c ram access vaddr' paddr' := by
  obtain ⟨l, hfinds, hpermits, heq⟩ := hr
  refine ⟨l, hfinds.of_page hpage, hpermits, ?_⟩
  have hsame := Sv32.Leaf.physical_of_page hfinds.bits hpage
  have hphys : l.physical vaddr'.toNat % 2 ^ 12 = vaddr'.toNat % 2 ^ 12 := by
    unfold Sv32.Leaf.physical
    rcases hfinds.bits with h | h <;> rw [h] <;> omega
  omega

theorem Reaches.offset (hr : Reaches c ram access vaddr paddr) : paddr.toNat % 4096 = vaddr.toNat % 4096 := by
  obtain ⟨l, hfinds, -, heq⟩ := hr
  rw [heq]
  unfold Sv32.Leaf.physical
  rcases hfinds.bits with h | h <;> rw [h] <;> omega

/-! ## Walks -/

/-- **A page walk** on confined memory comes to what was within reach at first, and confines memory. -/
theorem RamConfined.walk (hc : RamConfined c ram₀ ram) (ht : Translating c access) {r : Option UInt32} {ram' : Ram}
    (hwalk : getPhysAddr mm c ram vaddr access = .ok (r, ram')) :
    RamConfined c ram₀ ram' ∧ ∀ paddr, r = some paddr → Reaches c ram₀ access vaddr paddr := by
  rcases getPhysAddr_translated ht mm ram vaddr with ⟨l, paddr, ram₁, htr, hr⟩ | ⟨-, hr⟩
  · cases hwalk.symm.trans hr
    obtain ⟨l₀, hfinds, haddr, halike, hphys⟩ := hc.tables.finds htr.finds
    refine ⟨⟨fun a ha => ?_, fun x hx => ?_⟩, fun p hp => ?_⟩
    -- an entry is as it was, or it is the one that the walk has marked
    · have hrel := hc.tables a ha
      rcases htr.ram.other htr.finds.load_eq htr.finds.aligned ha.aligned with hsame | ⟨hentry, hmarked⟩
      · rw [hsame]
        exact hrel
      · rw [hentry] at hrel
        rw [hmarked]
        cases hload : pteAt ram₀ a with
        | none =>
          rw [hload] at hrel
          cases hrel
        | some e =>
          rw [hload] at hrel
          cases hrel with
          | some he => exact .some (he.trans (Sv32.alike_mark _ _))
    · by_cases hin : l.addr % 2 ^ 32 ≤ x.toNat ∧ x.toNat < l.addr % 2 ^ 32 + 4
      · exact .inr ⟨l.addr, haddr ▸ hfinds.isEntry, hin⟩
      · rw [htr.ram.frame _ (by omega)] at hx
        exact hc.frame x hx
    · cases hp
      exact ⟨l₀, hfinds, halike.permits.mp htr.permits, hphys ▸ htr.paddr⟩
  · cases hwalk.symm.trans hr
    exact ⟨hc, fun p hp => by cases hp⟩

/-! ## Stores -/

/-- What a store to RAM leaves as it is. -/
theorem hostStore_frame {a n v : Nat} {ram' : Ram} (hs : hostStore mm ram (mm.base + a) n v = .ok ram')
    (ha : a < machRamSize) {i : Int} (hi : i < a ∨ (a : Int) + n ≤ i) : ram'.mem i = ram.mem i := by
  unfold hostStore at hs
  split at hs
  · next mem' hmem =>
    cases hs
    rw [index_base_add mm ha] at hmem
    exact Mem.store_frame hmem hi
  · cases hs

/-- **A store within reach** confines memory: it does not touch the tables. -/
theorem RamConfined.store (hc : RamConfined c ram₀ ram) (hp : Protects mm c ram₀) {k val : Nat} {ram' : Ram} (hk : k ≤ 3)
    (hal : vaddr.toNat % 2 ^ k = 0) (hin : InRam paddr) (hr : Reaches c ram₀ .write vaddr paddr)
    (hs : hostStore mm ram (mm.base + paddr.toNat) (2 ^ k) val = .ok ram') : RamConfined c ram₀ ram' := by
  have hoff := hr.offset
  have hdvd : 2 ^ k ∣ 4096 := pow_dvd_pow 2 (by omega : k ≤ 12)
  have hroom : paddr.toNat % 4096 + 2 ^ k ≤ 4096 := by
    obtain ⟨q, hq⟩ := hdvd
    have hmod : vaddr.toNat % 4096 % 2 ^ k = 0 := by rw [hq, Nat.mod_mul_right_mod, hal]
    obtain ⟨i, hi⟩ := Nat.dvd_of_mod_eq_zero hmod
    have hlt : vaddr.toNat % 4096 < 4096 := Nat.mod_lt _ (by decide)
    have hiq : i < q := by
      rw [hi] at hlt
      exact Nat.lt_of_mul_lt_mul_left (hlt.trans_eq hq)
    calc paddr.toNat % 4096 + 2 ^ k = 2 ^ k * (i + 1) := by rw [hoff, hi]; ring
      _ ≤ 2 ^ k * q := Nat.mul_le_mul_left _ hiq
      _ = 4096 := hq.symm
  generalize 2 ^ k = n at hs hroom
  -- the bytes that are stored to
  have hbyte (x : UInt32) (h0 : paddr.toNat ≤ x.toNat) (h1 : x.toNat < paddr.toNat + n) :
      ∃ v, Reaches c ram₀ .write v x := by
    have hlt := vaddr.toNat_lt
    refine ⟨UInt32.ofNat (vaddr.toNat + (x.toNat - paddr.toNat)), hr.page ?_ (by omega) ?_⟩
    all_goals
      rw [UInt32.toNat_ofNat_of_lt' (by unfold UInt32.size; omega)]
      omega
  refine ⟨fun a ha => ?_, fun x hx => ?_⟩
  · have hsame : pteAt ram' a = pteAt ram a := by
      unfold pteAt
      apply Mem.load_congr
      intro j hj
      unfold Ram.guest
      split
      · refine hostStore_frame hs hin.2 ?_
        by_contra hno
        have hram := hin.2
        simp only [machRamSize] at hram
        have hlt : a % 2 ^ 32 + j < UInt32.size := by unfold UInt32.size; omega
        obtain ⟨v, hv⟩ := hbyte (UInt32.ofNat (a % 2 ^ 32 + j))
          (by rw [UInt32.toNat_ofNat_of_lt' hlt]; omega) (by rw [UInt32.toNat_ofNat_of_lt' hlt]; omega)
        exact hp.tables hv ⟨a, ha, by rw [UInt32.toNat_ofNat_of_lt' hlt]; omega⟩
      · rfl
    rw [hsame]
    exact hc.tables a ha
  · by_cases hx' : paddr.toNat ≤ x.toNat ∧ x.toNat < paddr.toNat + n
    · exact .inl (hbyte x hx'.1 hx'.2)
    · rw [hostStore_frame hs hin.2 (by omega)] at hx
      exact hc.frame x hx

/-! ## Steps -/

/-- **The invariant of user mode**: memory is confined, and the TLB for stores is right for the tables as they were at
    first. -/
structure Confined (mm : MainMem) (c : Cpu) (ram₀ : Ram) (m : Mach σ) : Prop where
  same : ∀ access, SameTranslation access c m.cpu
  ram : RamConfined c ram₀ m.ram
  tlb : ∀ i, (m.cpu.tlbWrite i).vaddr = 0xffffffff ∨ ∃ vaddr paddr, InRam paddr ∧
    m.cpu.tlbWrite i = tlbEntry vaddr (ramPtr (mm.base + 0x1000) 0x1000 paddr) ∧ Reaches c ram₀ .write vaddr paddr

theorem SameTranslation.mmu {c' : Cpu} (hs : SameTranslation access c m.cpu) (hm : SameMmu m.cpu c') :
    SameTranslation access c c' := by
  obtain ⟨hpriv, hsatp, hfields⟩ := hs
  unfold effPriv at hpriv
  refine ⟨?_, hm.satp.trans hsatp, by rw [hm.mstatus, hfields]⟩
  unfold effPriv
  rw [hm.mstatus, hm.priv]
  exact hpriv

/-- A walk, in a confined state. -/
theorem Confined.walk (hc : Confined mm c ram₀ m) (hp : Protects mm c ram₀) {r : Option UInt32}
    (hwalk : getPhysAddr mm m.cpu m.ram vaddr access = .ok (r, ram)) :
    RamConfined c ram₀ ram ∧ ∀ paddr, r = some paddr → Reaches c ram₀ access vaddr paddr := by
  rw [getPhysAddr_congr (hc.same access)] at hwalk
  exact hc.ram.walk (hp.translating access) hwalk

/-- **All steps of an access** keep user mode confined. -/
theorem MemStep.confined (hstep : MemStep mm h m m') (hc : Confined mm c ram₀ m) (hp : Protects mm c ram₀) :
    Confined mm c ram₀ m' := by
  have hsame (access : Access) : SameTranslation access c m'.cpu := (hc.same access).mmu hstep.sameMmu
  cases hstep with
  | pend cause tval => exact ⟨hsame, hc.ram, hc.tlb⟩
  | code code => exact ⟨hsame, hc.ram, hc.tlb⟩
  | walk hwalk => exact ⟨hsame, (hc.walk hp hwalk).1, hc.tlb⟩
  | device hwalk hrange _ => exact absurd hrange (hp.devices ((hc.walk hp hwalk).2 _ rfl))
  | @store addr k val ram hk hhit hs =>
    refine ⟨hsame, ?_, hc.tlb⟩
    rcases hc.tlb (tlbIdx addr) with hinv | ⟨vaddr, paddr, hin, he, hr⟩
    · exact absurd (hhit.symm.trans hinv) (tlbTag_ne_invalid addr hk)
    · rw [he] at hhit hs
      obtain ⟨hpage, hal, paddr', hpaddr', hin', hptr⟩ := tlbEntry_hit hk hin hr.offset hhit
      rw [hptr] at hs
      have hoff := hr.offset
      exact hc.ram.store hp hk hal hin' (hr.page hpage (by omega) (by omega)) hs
  | fillRead hw =>
    obtain ⟨_, _, _, _, hwalk, -, -⟩ := hw
    exact ⟨hsame, (hc.walk hp hwalk).1, hc.tlb⟩
  | @fillWrite addr ptr ram hw =>
    obtain ⟨paddr, base, size, physMem, hwalk, hrange, rfl⟩ := hw
    obtain ⟨hram, hreach⟩ := hc.walk hp hwalk
    refine ⟨hsame, hram, fun i => ?_⟩
    rcases @update_entry m.cpu.tlbWrite i (tlbIdx addr) (tlbEntry addr (ramPtr physMem base paddr)) with heq | ⟨-, he⟩
    · have hold := hc.tlb i
      rw [← heq] at hold
      exact hold
    · obtain ⟨hrange', h0, h1⟩ := getPhysMemRange_is_ram hrange rfl
      cases hrange'
      exact .inr ⟨_, paddr, ⟨h0, h1⟩, he, hreach paddr rfl⟩
  | fillCode hw =>
    obtain ⟨_, _, _, _, hwalk, -, -⟩ := hw
    exact ⟨hsame, (hc.walk hp hwalk).1, hc.tlb⟩

/-! ## Runs -/

/-- What holds in user mode from `s` on. -/
structure UserConfined (env : InterpEnv σ) (s t : RISCVCPUState σ) : Prop where
  kept : UserKept s t
  mem : Confined env.mm s.cpu s.ram t.toMach

theorem InsnStep.userConfined (hstep : InsnStep env t u) (hpriv : s.cpu.priv = prvU) (hp : Protects env.mm s.cpu s.ram)
    (ht : UserConfined env s t) : UserConfined env s u := by
  have htpriv : t.cpu.priv = prvU := ht.kept.priv.trans hpriv
  refine ⟨ht.kept.trans (hstep.userKept htpriv), ?_⟩
  cases hstep with
  | mem hm => exact hm.confined ht.mem hp
  | data heq _ =>
    rw [heq]
    exact ht.mem
  | csr hr hw =>
    rw [(csrWrite_userKept htpriv hr hw).1]
    exact ht.mem
  | sret h => exact absurd h (by rw [htpriv]; decide)
  | mret h => exact absurd h (by rw [htpriv]; decide)
  | fence h => exact absurd htpriv h
  | wfi h => exact absurd htpriv h

/-- What happens to the CPU while nothing else writes to RAM. -/
inductive OwnEvent (env : InterpEnv σ) : RISCVCPUState σ → RISCVCPUState σ → Prop where
  | call {s s' : RISCVCPUState σ} {fuel : Nat} {nCycles : Int} :
      interpX env fuel nCycles s = some (.ok s') → OwnEvent env s s'
  | outside (s : RISCVCPUState σ) (periphs : Periphs σ) : OwnEvent env s { s with periphs := periphs }
  | setMip (s : RISCVCPUState σ) (mask : UInt32) : OwnEvent env s (riscvCpuSetMip s mask)
  | resetMip (s : RISCVCPUState σ) (mask : UInt32) : OwnEvent env s (riscvCpuResetMip s mask)

abbrev OwnRun (env : InterpEnv σ) : RISCVCPUState σ → RISCVCPUState σ → Prop := ReflTransGen (OwnEvent env)

/-- A trap does not write to RAM. -/
theorem raiseException2_ram (s : RISCVCPUState σ) (cause tval : UInt32) : (raiseException2 s cause tval).ram = s.ram := by
  have hset (u : RISCVCPUState σ) (priv : Nat) : (setPriv u priv).ram = u.ram := by
    unfold setPriv
    split <;> rfl
  rw [raiseException2_eq]
  split
  · exact hset (toS s cause tval) prvS
  · exact hset (toM s cause tval) prvM

/-- **A program in user mode is confined to its memory.** User mode is entered with tables that protect themselves and
    the devices. Then memory is confined by these tables as long as the program runs, and still after the trap with which
    it ends. -/
theorem user_memory (hentry : CpuStep env s₀ s) (hfrom : s₀.cpu.priv ≠ prvU) (hpriv : s.cpu.priv = prvU)
    (hp : Protects env.mm s.cpu s.ram) (hrun : OwnRun env s s') :
    (UserKept s s' ∧ RamConfined s.cpu s.ram s'.ram) ∨
      ∃ t u, OwnRun env s t ∧ UserKept s t ∧ OwnEvent env t u ∧ UserTrapped s u ∧
        RamConfined s.cpu s.ram u.ram ∧ OwnRun env u s' := by
  have hflushed : Flushed s.cpu := hentry.entered (by rw [hpriv]; exact hfrom.symm)
  have hlines {t : RISCVCPUState σ} (mip : UInt32) (powerDown : Bool) (ht : UserConfined env s t) :
      UserConfined env s { t with mip := mip, powerDownFlag := powerDown } :=
    ⟨ht.kept.trans ⟨rfl, fun h => ⟨h, rfl, rfl, rfl⟩⟩, ht.mem⟩
  have hE {t u : RISCVCPUState σ} (he : OwnEvent env t u) :
      (∃ fuel nCycles, interpX env fuel nCycles t = some (.ok u)) ∨ (UserConfined env s t → UserConfined env s u) := by
    cases he with
    | call hr => exact .inl ⟨_, _, hr⟩
    | outside periphs =>
      exact .inr (fun ht => ⟨ht.kept.trans ⟨rfl, fun h => ⟨h, rfl, rfl, rfl⟩⟩, ht.mem.same, ht.mem.ram, ht.mem.tlb⟩)
    | setMip mask =>
      obtain ⟨mip, powerDown, heq⟩ := riscvCpuSetMip_eq t mask
      rw [heq]
      exact .inr (hlines mip powerDown)
    | resetMip mask => exact .inr (hlines _ t.powerDownFlag)
  have hstart : UserConfined env s s :=
    ⟨.refl, fun _ => ⟨rfl, rfl, rfl⟩, .refl _ _, fun i => .inl (hflushed .write i)⟩
  have hres := run_confined (K := UserConfined env s) (X := fun u => UserTrapped s u ∧ RamConfined s.cpu s.ram u.ram)
    hE (fun ht hstep => hstep.userConfined hpriv hp ht) ?_ hstart hrun
  · rcases hres with hk | ⟨t, u, hst, ht, htu, ⟨htrap, hram⟩, hus⟩
    · exact .inl ⟨hk.kept, hk.mem.ram⟩
    · exact .inr ⟨t, u, hst, ht.kept, htu, htrap, hram, hus⟩
  · intro t cause tval counter ht
    refine .inr ⟨userTrapped ht.kept cause tval counter, ?_⟩
    show RamConfined s.cpu s.ram (raiseException2 t cause tval).ram
    rw [raiseException2_ram]
    exact ht.mem.ram

/-! ### A program -/

/-- A page table at 0x1000, which maps 4 MiB at 0x400000 to themselves, and there the program `sw x1, 16(x1)`. -/
def userRam : Ram :=
  let table := ((Ram.fill 0).setByte 0x1004 0xdf).setByte 0x1006 0x10
  ((table.setByte 0x400000 0x23).setByte 0x400001 0xa8).setByte 0x400002 0x10

/-- The machine is about to start the program. -/
def userBoot : RISCVCPUState Unit :=
  { riscvStateInit userRam () with
    cpu := { riscvCpuInit with satp := 0x80000001 }
    mepc := 0x400000
    reg := fun r => if r = 1 then 0x400000 else 0 }

def userStart : RISCVCPUState Unit := handleMret userBoot

/-- The root of the page tables. -/
theorem userRam_root {i : Nat} (hi : i < 2 ^ 10) :
    pteAt userRam (Sv32.entryAddr 1 i) = some (if i = 1 then 0x1000df else 0) := by
  unfold Sv32.entryAddr
  split
  · next h =>
    subst h
    decide +kernel
  · next h =>
    unfold pteAt
    refine Mem.load_eq_some_iff.mpr ⟨fun _ => 0, fun k hk => ?_, rfl⟩
    have hmod : (1 * 2 ^ 12 + i * 4) % 2 ^ 32 = 4096 + i * 4 := by omega
    rw [hmod, Ram.guest_of_le _ (by unfold firstPageSz; omega)]
    unfold userRam Ram.setByte
    dsimp only
    iterate 5 rw [if_neg (by push_cast; omega)]
    exact Ram.fill_mem 0 (by omega) (by unfold machRamSize; omega)

/-- Its one leaf is for the 4 MiB. -/
theorem userRam_finds {vaddr : Nat} {l : Sv32.Leaf} (hf : Sv32.Finds (pteAt userRam) 1 vaddr l) :
    l = ⟨0x1004, 0x1000df, 22⟩ := by
  have hidx (n : Nat) : n % 2 ^ 10 < 2 ^ 10 := Nat.mod_lt _ (by decide)
  cases hf with
  | mega he hvalid _ =>
    rw [userRam_root (hidx _)] at he
    split at he
    · next h =>
      cases he
      rw [h]
      rfl
    · cases he
      cases hvalid
  | page hd hvalid hnot =>
    rw [userRam_root (hidx _)] at hd
    split at hd
    · cases hd
      exact absurd (.inl rfl) hnot
    · cases hd
      cases hvalid

theorem userStart_protects : Protects someMainMem userStart.cpu userStart.ram := by
  have hroot : userStart.cpu.satp.toNat % 2 ^ 22 = 1 := rfl
  have hphys {access : Access} {vaddr paddr : UInt32} (hr : Reaches userStart.cpu userStart.ram access vaddr paddr) :
      0x400000 ≤ paddr.toNat ∧ paddr.toNat < machRamSize := by
    obtain ⟨l, hf, -, hp⟩ := hr
    rw [FindsLeaf, hroot] at hf
    rw [userRam_finds hf] at hp
    have heq : Sv32.Leaf.physical ⟨0x1004, 0x1000df, 22⟩ vaddr.toNat = 0x400000 + vaddr.toNat % 2 ^ 22 := rfl
    rw [heq] at hp
    unfold machRamSize
    omega
  refine ⟨fun access => ?_, fun hr htab => ?_, fun hr hrange => ?_⟩
  · cases access <;> exact ⟨by decide, by decide⟩
  · obtain ⟨a, ha, h0, h1⟩ := htab
    rw [hroot] at ha
    cases ha with
    | @root i hi =>
      unfold Sv32.entryAddr at h0 h1
      have := (hphys hr).1
      omega
    | table hi hd hvalid hnot =>
      rw [show userStart.ram = userRam from rfl, userRam_root hi] at hd
      split at hd
      · cases hd
        exact absurd (.inl rfl) hnot
      · cases hd
        cases hvalid
  · obtain ⟨h0, h1⟩ := hphys hr
    rw [getPhysMemRange_ram (by omega) h1] at hrange
    cases hrange

/-- The program stores its word and then comes to an illegal instruction. -/
theorem user_memory_store : CpuStep quietEnv userBoot userStart ∧ userBoot.cpu.priv ≠ prvU ∧ userStart.cpu.priv = prvU ∧
    Protects someMainMem userStart.cpu userStart.ram ∧
    ∃ s', interpX quietEnv 8 3 userStart = some (.ok s') ∧ s'.ram.mem.load 0x400010 4 = some 0x400000 ∧
      ((UserKept userStart s' ∧ RamConfined userStart.cpu userStart.ram s'.ram) ∨
        ∃ t u, OwnRun quietEnv userStart t ∧ UserKept userStart t ∧ OwnEvent quietEnv t u ∧ UserTrapped userStart u ∧
          RamConfined userStart.cpu userStart.ram u.ram ∧ OwnRun quietEnv u s') := by
  have hentry : CpuStep quietEnv userBoot userStart := .insn (.mret (le_refl _))
  have hok : (interpX quietEnv 8 3 userStart).map (fun r => r.toOption.map (fun s => s.ram.mem.load 0x400010 4)) =
      some (some (some 0x400000)) := by decide +kernel
  obtain ⟨s', hx, hload⟩ := returns_of_map hok
  exact ⟨hentry, by decide, rfl, userStart_protects, s', hx, hload,
    user_memory hentry (by decide) rfl userStart_protects (.single (.call hx))⟩

end HadBadge
