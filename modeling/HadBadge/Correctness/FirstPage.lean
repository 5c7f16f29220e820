import HadBadge.Correctness.CpuMemory

/-!
# `Correctness.FirstPage`: what traps below 0x1000

`mach_setup` leaves the first page out of the memory map so that reads, writes and execution there end in an
error. Only one of the three slow paths treats an address without a range as one.

## Contents
- **Setup.** `CpuAccess`, `Traps`.
- **What happens instead.** `targetRead_first_page`, `targetWrite_first_page`.
- **Main result.** `first_page_traps_iff`.
-/

namespace HadBadge

open Lib

variable {σ : Type} {mm : MainMem} {h : MachHost σ} {m m' : Mach σ} {addr : UInt32} {k : Nat}

/-! ## Setup -/

/-- An access of the CPU: the fetch of the next instruction, a load or a store. -/
inductive CpuAccess where
  | fetch
  | load (junk : UInt32 → Nat) (addr : UInt32) (sizeLog2 : Nat)
  | store (addr : UInt32) (val sizeLog2 : Nat)

/-- The address of an access. -/
def CpuAccess.start (m : Mach σ) : CpuAccess → UInt32
  | .fetch          => m.code.pc
  | .load _ addr _  => addr
  | .store addr _ _ => addr

/-- The number of bytes of an access, for a fetch the most that it looks at. -/
def CpuAccess.size : CpuAccess → Nat
  | .fetch              => 4
  | .load _ _ sizeLog2  => 2 ^ sizeLog2
  | .store _ _ sizeLog2 => 2 ^ sizeLog2

/-- How an access ends: whether its result is non-zero, what the destination receives, and the machine. -/
structure Outcome (σ : Type) where
  raised : Bool
  dest : Option Nat
  mach : Mach σ

/-- The access. -/
def CpuAccess.perform (mm : MainMem) (h : MachHost σ) (m : Mach σ) : CpuAccess → Except Fault (Outcome σ)
  | .fetch => do
      let (insn, m) ← fetchInsn mm m
      return ⟨insn.isNone, insn, m⟩
  | .load junk addr sizeLog2 => do
      let (v, m) ← targetRead mm h junk m addr sizeLog2
      return ⟨v.isNone, v, m⟩
  | .store addr val sizeLog2 => do
      let (ok, m) ← targetWrite mm h m addr val sizeLog2
      return ⟨!ok, none, m⟩

/-- The access touches an address below 0x1000. -/
def CpuAccess.TouchesFirstPage (m : Mach σ) (a : CpuAccess) : Prop :=
  ∃ i < a.size, (a.start m + UInt32.ofNat i).toNat < 0x1000

/-- The access raises an exception for its address, no destination receives a value, and memory and devices stay
    as they are. -/
def Traps (mm : MainMem) (h : MachHost σ) (m : Mach σ) (a : CpuAccess) : Prop :=
  ∃ o, a.perform mm h m = .ok o ∧ o.raised = true ∧ o.dest = none ∧ 0 ≤ o.mach.cpu.pendingException ∧
    o.mach.cpu.pendingTval = a.start m ∧ o.mach.ram = m.ram ∧ o.mach.periphs = m.periphs

/-! ## What happens instead -/

/-- An aligned load from the first page succeeds, with what the local `val` happened to hold. -/
theorem targetRead_first_page (hm : CpuOk mm m.cpu) (hk : k ≤ 3) (hal : addr.toNat % 2 ^ k = 0)
    (hlow : addr.toNat < 0x1000) (junk : UInt32 → Nat) :
    targetRead mm h junk m addr k = .ok (some (junk addr % 2 ^ (8 * 2 ^ k)), m) := by
  -- no TLB entry has an address of the first page, so every access takes the slow path
  have hmiss : (m.cpu.tlbRead (tlbIdx addr)).vaddr ≠ tlbTag addr k := fun hhit => by
    have := ((hm.read _).hit hk hhit).2.1
    omega
  have hslow : targetReadSlow mm h junk m addr k = .ok (.unset, m) := by
    unfold targetReadSlow
    dsimp only
    rw [if_neg (not_not.mpr ((align_eq_zero hk).mpr hal)), targetReadAligned_bare hm.bare,
      getPhysMemRange_first_page hlow]
  unfold targetRead targetReadVia
  dsimp only
  rw [if_neg hmiss, hslow]
  rfl

/-- An aligned store to the first page succeeds, and nothing has changed. -/
theorem targetWrite_first_page (hm : CpuOk mm m.cpu) (hk : k ≤ 3) (hal : addr.toNat % 2 ^ k = 0)
    (hlow : addr.toNat < 0x1000) (val : Nat) : targetWrite mm h m addr val k = .ok (true, m) := by
  have hmiss : (m.cpu.tlbWrite (tlbIdx addr)).vaddr ≠ tlbTag addr k := fun hhit => by
    have := ((hm.write _).hit hk hhit).2.1
    omega
  unfold targetWrite targetWriteVia
  dsimp only
  rw [if_neg hmiss]
  unfold targetWriteSlow
  rw [if_neg (not_not.mpr ((align_eq_zero hk).mpr hal)), targetWriteAligned_bare hm.bare,
    getPhysMemRange_first_page hlow]

/-! ## What traps -/

/-- A fetch that touches the first page is not at an address of RAM. -/
theorem not_inRam_of_touches (ht : CpuAccess.fetch.TouchesFirstPage m) : ¬ InRam m.code.pc := by
  rintro ⟨h0, h1⟩
  obtain ⟨i, hi, hlow⟩ := ht
  simp only [CpuAccess.size, CpuAccess.start] at hi hlow
  simp only [machRamSize] at h1
  -- the fetch may start below `2^32` and wrap around to the first page
  rw [UInt32.toNat_add, UInt32.toNat_ofNat'] at hlow
  omega

/-- A fetch outside of RAM raises an exception and changes nothing else. -/
theorem fetchInsn_outside (hm : MachOk mm m) (hin : ¬ InRam m.code.pc) :
    fetchInsn mm m = .ok (none, m.pend causeFaultFetch m.code.pc) := by
  -- outside of RAM there is no code left in the window, so the fetch looks the page up
  have hrefill : m.code.codeEnd ≤ m.code.codePtr := by
    by_contra hlt
    exact hin (hm.code.pc_inRam (by omega))
  have hptr : targetInsnPtr mm m m.code.pc = .ok (none, m.pend causeFaultFetch m.code.pc) := by
    rcases targetInsnPtr_spec hm.cpu m.code.pc with ⟨hyes, -⟩ | ⟨-, heq⟩
    · exact absurd hyes hin
    · exact heq
  unfold fetchInsn
  rw [if_pos hrefill]
  dsimp only
  rw [hptr]
  rfl

/-- **Of the accesses that touch the first page, exactly the instruction fetches trap.** In every state that a
    run without translation reaches, and for every access of any width and alignment with a byte below 0x1000:
    it raises an exception, writes no register and changes nothing, if and only if it is a fetch. -/
theorem first_page_traps_iff (hm : Reachable mm h m) {a : CpuAccess} (ht : a.TouchesFirstPage m) :
    Traps mm h m a ↔ a = .fetch := by
  have hok := hm.ok
  constructor
  -- loads and stores never raise in a run without translation
  · rintro ⟨o, ho, hraised, -⟩
    cases a with
    | fetch => rfl
    | load junk addr sizeLog2 =>
        obtain ⟨⟨v, m'⟩, hr, ho⟩ := bind_eq_ok.mp ho
        cases ho
        exact absurd (Option.isNone_iff_eq_none.mp hraised) (targetRead_kept hok.cpu hr).2
    | store addr val sizeLog2 =>
        obtain ⟨⟨ok, m'⟩, hw, ho⟩ := bind_eq_ok.mp ho
        cases ho
        obtain rfl := (targetWrite_kept hok.cpu hw).2
        cases hraised
  · rintro rfl
    refine ⟨⟨true, none, m.pend causeFaultFetch m.code.pc⟩, ?_, rfl, rfl, show 0 ≤ causeFaultFetch by decide,
      rfl, rfl, rfl⟩
    unfold CpuAccess.perform
    rw [fetchInsn_outside hok (not_inRam_of_touches ht)]
    rfl

/-- The machine as `mach_setup` starts it. -/
theorem machInit_reachable {ram : Ram} {host : σ} : Reachable mm h (machInit ram host) :=
  ⟨ram, host, [], fun _ hop => absurd hop List.not_mem_nil, rfl⟩

/-- A jump through a null pointer traps, as the one access that does. -/
theorem first_page_traps_iff_null : ∃ m, Reachable someMainMem quietHost m ∧ m.code.pc = 0 ∧
    (Traps someMainMem quietHost m .fetch ↔ CpuAccess.fetch = .fetch) := by
  have hm : Reachable someMainMem quietHost { machInit (Ram.fill 0) () with code := Code.jump 0 } :=
    ⟨Ram.fill 0, (), [.jump ⟨0, by decide⟩], fun op hop => by rw [List.mem_singleton.mp hop]; trivial, rfl⟩
  exact ⟨_, hm, by decide, first_page_traps_iff hm ⟨0, by decide, by decide⟩⟩

/-- A load through a null pointer succeeds. -/
theorem null_load_succeeds :
    ¬ ∀ (mm : MainMem) (h : MachHost Unit) (m : Mach Unit) (a : CpuAccess), Reachable mm h m → a.TouchesFirstPage m →
      Traps mm h m a := by
  intro hall
  obtain ⟨o, ho, hraised, -⟩ := hall someMainMem quietHost (machInit (Ram.fill 0) ()) (.load (fun _ => 0) 0 2)
    machInit_reachable ⟨0, by decide, by decide⟩
  obtain ⟨r, hr, ho⟩ := bind_eq_ok.mp ho
  rw [targetRead_first_page (machInit_ok _ _).cpu (by decide) (by decide) (by decide)] at hr
  cases hr
  cases ho
  cases hraised

end HadBadge
