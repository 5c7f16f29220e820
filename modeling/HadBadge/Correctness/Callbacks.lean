import HadBadge.Correctness.CpuMemory
import HadBadge.Correctness.Slice
import HadBadge.Emu.Callbacks

/-!
# `Correctness.Callbacks`: device callbacks see whole aligned words only

The register decoders of the devices compare offsets for equality and never look at the size they are handed. They
rely on the access functions: an unaligned load is split into two aligned ones, an unaligned store into bytes, a 64-bit
access of a device into two words, and the TLBs must not cover a device.

## Contents
- **Setup.** `VmReachable`, `GoesToDevice`, `DevCall.WholeWord`; `CallsOk`, the property of one access.
- **Runs.** `VmOk`, its step lemma `machStep_vmOk`, and `VmReachable.ok`.
- **Windows.** What the map of the machine says about devices.
- **Calls.** Every call of a load or a store is for a whole word, and an aligned word makes one.
- **Main result.** `callbacks_whole_words`.
-/

namespace HadBadge

open Lib

variable {σ : Type}

/-! ## Setup -/

/-- The access, if it is one, is of 8, 16, 32 or 64 bits. -/
def MachOp.Sized : MachOp σ → Prop
  | .read _ _ sizeLog2 => sizeLog2 ≤ 3
  | .write _ _ sizeLog2 => sizeLog2 ≤ 3
  | _ => True

/-- A state that a run of the machine reaches, whatever is done to the registers that translation goes by. -/
def VmReachable (mm : MainMem) (h : MachHost σ) (m : Mach σ) : Prop :=
  ∃ ram host ops, (∀ op ∈ ops, MachOp.Sized op) ∧ runM (machStep mm h) (machInit ram host) ops = .ok m

/-- The physical address that an access goes to: the byte that its TLB entry `e` points at, or what the page tables
    say. RAM starts at address 0. -/
def accessPaddr (mm : MainMem) (m : Mach σ) (e : TLBEntry) (addr : UInt32) (sizeLog2 : Nat) (access : Access) :
    Option UInt32 :=
  if e.vaddr = tlbTag addr sizeLog2 then some (UInt32.ofNat (mm.index (e.ptr addr)).toNat)
  else match getPhysAddr mm m.cpu m.ram addr access with
    | .ok (paddr, _) => paddr
    | .error _       => none

/-- The access goes to `offset` in the window of `dev`. -/
def GoesToDevice (mm : MainMem) (m : Mach σ) (e : TLBEntry) (addr : UInt32) (sizeLog2 : Nat) (access : Access)
    (dev : Dev) (offset : UInt32) : Prop :=
  ∃ paddr pr flags, accessPaddr mm m e addr sizeLog2 access = some paddr ∧
    getPhysMemRange (machMap mm) paddr.toNat = some pr ∧ pr.kind = .device dev flags ∧
    paddr.toNat = pr.addr + offset.toNat

/-- A call for an aligned word in the window of the device. -/
structure DevCall.WholeWord (mm : MainMem) (c : DevCall) : Prop where
  size : c.sizeLog2 = 2
  aligned : c.offset.toNat % 4 = 0
  inWindow : ∃ pr ∈ machMap mm, ∃ flags, pr.kind = .device c.dev flags ∧ c.offset.toNat < pr.size

/-- What an access makes of the callbacks, `log` being its calls and `e` the TLB entry it looks at. -/
structure CallsOk (mm : MainMem) (m : Mach σ) (e : TLBEntry) (addr : UInt32) (sizeLog2 : Nat) (access : Access)
    (func : DevFunc) (log : List DevCall) : Prop where
  words : ∀ c ∈ log, c.WholeWord mm
  narrow : sizeLog2 ≤ 1 → log = []
  once : sizeLog2 = 2 → addr.toNat % 4 = 0 → ∀ dev offset, GoesToDevice mm m e addr sizeLog2 access dev offset →
    log = [⟨func, dev, offset, 2⟩]
  /-- what an entry answers is RAM -/
  hit : e.vaddr = tlbTag addr sizeLog2 → log = [] ∧
    ∃ a, 0x1000 ≤ a ∧ a + 2 ^ sizeLog2 ≤ machRamSize ∧ e.ptr addr = mm.base + a
  noHit : ∀ dev offset, GoesToDevice mm m e addr sizeLog2 access dev offset → e.vaddr ≠ tlbTag addr sizeLog2

variable {mm : MainMem} {h : MachHost σ} {m m' : Mach σ} {addr paddr : UInt32} {k : Nat}
variable {pr : PhysMemoryRange}

/-! ## Runs -/

/-- **The invariant of the machine** with any page tables. -/
structure VmOk (mm : MainMem) (m : Mach σ) : Prop where
  mem : MemInv mm m
  code : CodeIn mm m.code

theorem Follows.vmOk (hm : VmOk mm m) (hf : Follows mm m m') : VmOk mm m' := ⟨hf.inv, hf.code ▸ hm.code⟩

/-- **One operation keeps the invariant.** -/
theorem machStep_vmOk {op : MachOp σ} (hsized : op.Sized) (hm : VmOk mm m) (hstep : machStep mm h m op = .ok m') :
    VmOk mm m' := by
  cases op with
  | read junk addr sizeLog2 =>
      obtain ⟨r, hr, hstep⟩ := bind_eq_ok.mp hstep
      cases hstep
      have hends := targetRead_ends (h := h) junk hm.mem hsized addr
      rw [hr] at hends
      exact Follows.vmOk hm hends
  | write addr val sizeLog2 =>
      obtain ⟨r, hr, hstep⟩ := bind_eq_ok.mp hstep
      cases hstep
      have hends := targetWrite_ends (h := h) hm.mem hsized addr val
      rw [hr] at hends
      exact Follows.vmOk hm hends
  | fetch =>
      obtain ⟨r, hr, hstep⟩ := bind_eq_ok.mp hstep
      cases hstep
      have hends : Ends (fun _ => True) (fun r => Fetched mm m r.2) (fetchInsn mm m) :=
        fetchInsn_ends hm.mem hm.code
      rw [hr] at hends
      exact ⟨hends.inv, hends.code⟩
  | next compressed =>
      cases hstep
      refine ⟨⟨hm.mem.read, hm.mem.write, hm.mem.code⟩, codeIn_next hm.code ?_⟩
      cases compressed with
      | true => rfl
      | false => rfl
  | jump pc =>
      cases hstep
      exact ⟨⟨hm.mem.read, hm.mem.write, hm.mem.code⟩, codeIn_jump pc.2⟩
  | mmu priv mstatus satp =>
      cases hstep
      exact ⟨⟨hm.mem.read, hm.mem.write, hm.mem.code⟩, hm.code⟩
  | pending cause tval =>
      cases hstep
      exact ⟨⟨hm.mem.read, hm.mem.write, hm.mem.code⟩, hm.code⟩
  | flushAll =>
      cases hstep
      exact ⟨⟨fun _ => .inl rfl, fun _ => .inl rfl, fun _ => .inl rfl⟩, hm.code⟩
  | flushWriteRange ramPtr ramSize =>
      cases hstep
      -- a flush can only turn entries into invalid ones
      refine ⟨⟨hm.mem.read, fun i => ?_, hm.mem.code⟩, hm.code⟩
      show TlbMaps mm (if _ then _ else _)
      split
      · exact .inl rfl
      · exact hm.mem.write i
  | outside change =>
      cases hstep
      exact ⟨⟨hm.mem.read, hm.mem.write, hm.mem.code⟩, hm.code⟩

theorem machInit_vmOk (ram : Ram) (host : σ) : VmOk mm (machInit ram host) :=
  ⟨⟨fun _ => .inl rfl, fun _ => .inl rfl, fun _ => .inl rfl⟩, codeIn_jump (by decide)⟩

/-- **Every reachable state satisfies the invariant.** -/
theorem VmReachable.ok (hm : VmReachable mm h m) : VmOk mm m := by
  obtain ⟨ram, host, ops, hsized, hrun⟩ := hm
  exact runM_inv (fun _ _ _ hop hok hstep => machStep_vmOk hop hok hstep) hsized (machInit_vmOk ram host) hrun

/-! ## Windows -/

/-- The word at an aligned address of a window, and with 64 bits the one behind it. -/
theorem wholeWord_of_range {dev : Dev} {flags : UInt32} (hpr : getPhysMemRange (machMap mm) paddr.toNat = some pr)
    (hkind : pr.kind = .device dev flags) (func : DevFunc) (hal : paddr.toNat % 4 = 0) :
    DevCall.WholeWord mm ⟨func, dev, UInt32.ofNat (u32 ((paddr.toNat : Int) - pr.addr)), 2⟩ ∧
      (paddr.toNat % 8 = 0 →
        DevCall.WholeWord mm ⟨func, dev, UInt32.ofNat (u32 ((paddr.toNat : Int) - pr.addr)) + 4, 2⟩) := by
  obtain ⟨hw, hlo, hhi⟩ := window_ok hpr hkind
  have hoff := offset_toNat hlo
  have haddr := hw.addr_mod
  have hsize := hw.size_mod
  have hle := hw.size_le
  have hnext : (UInt32.ofNat (u32 ((paddr.toNat : Int) - pr.addr)) + 4).toNat = paddr.toNat - pr.addr + 4 := by
    rw [UInt32.toNat_add, hoff, show (4 : UInt32).toNat = 4 from rfl]
    omega
  refine ⟨⟨rfl, ?_, pr, hw.mem, flags, hkind, ?_⟩, fun hal8 => ⟨rfl, ?_, pr, hw.mem, flags, hkind, ?_⟩⟩
  · show (UInt32.ofNat _).toNat % 4 = 0
    omega
  · show (UInt32.ofNat _).toNat < pr.size
    omega
  · show (UInt32.ofNat _ + 4).toNat % 4 = 0
    omega
  -- the window ends at a multiple of 8, so the second word is in it with the first
  · show (UInt32.ofNat _ + 4).toNat < pr.size
    omega

/-- The physical address of an aligned access is aligned. -/
theorem aligned_of_offset (hk : k ≤ 3) (hal : addr.toNat % 2 ^ k = 0) (hoff : paddr.toNat % 4096 = addr.toNat % 4096) :
    paddr.toNat % 2 ^ k = 0 := by
  have hpage : 2 ^ k ∣ 4096 := (size_dvd hk).trans (by decide)
  refine Nat.mod_eq_zero_of_dvd ?_
  rw [← Nat.dvd_mod_iff hpage, hoff, Nat.dvd_mod_iff hpage]
  exact Nat.dvd_of_mod_eq_zero hal

/-! ## Calls -/

/-- A call that an access of `2 ^ k` bytes may make. -/
def MayCall (mm : MainMem) (k : Nat) (c : DevCall) : Prop := c.WholeWord mm ∧ 2 ≤ k

theorem targetReadRangeLog_calls (hk : k ≤ 3) (hal : addr.toNat % 2 ^ k = 0)
    (hoff : paddr.toNat % 4096 = addr.toNat % 4096) (hpr : getPhysMemRange (machMap mm) paddr.toNat = some pr) :
    (targetReadRangeLog mm h m addr paddr k pr).All (MayCall mm k) := by
  have halp := aligned_of_offset hk hal hoff
  unfold targetReadRangeLog
  cases hkind : pr.kind with
  | ram physMem => exact Logged.all_lift _
  | device dev flags =>
      obtain ⟨hw, -, -⟩ := window_ok hpr hkind
      rw [hw.flags_eq]
      dsimp only
      by_cases h2 : k = 2
      · rw [if_pos ((devioSize32_bit hk).mpr h2)]
        subst h2
        exact (Logged.all_call ⟨(wholeWord_of_range hpr hkind .readFunc halp).1, le_refl 2⟩ _).bind
          (fun _ _ => Logged.all_pure _)
      · rw [if_neg (mt (devioSize32_bit hk).mp h2)]
        by_cases h3 : k = 3
        · subst h3
          obtain ⟨hlow, hhigh⟩ := wholeWord_of_range hpr hkind .readFunc (by omega)
          rw [if_pos ⟨by decide, rfl⟩]
          refine (Logged.all_call ⟨hlow, by omega⟩ _).bind (fun _ _ => ?_)
          exact (Logged.all_call ⟨hhigh halp, by omega⟩ _).bind (fun _ _ => Logged.all_pure _)
        · rw [if_neg (fun hc => h3 hc.2)]
          exact Logged.all_pure _

theorem targetReadAlignedLog_calls (hk : k ≤ 3) (hal : addr.toNat % 2 ^ k = 0) :
    (targetReadAlignedLog mm h m addr k).All (MayCall mm k) := by
  unfold targetReadAlignedLog
  refine (Logged.all_lift _).bind ?_
  rintro ⟨paddr, ram⟩ hp
  cases paddr with
  | none => exact Logged.all_pure _
  | some paddr =>
      dsimp only
      cases hpr : getPhysMemRange (machMap mm) paddr.toNat with
      | none => exact Logged.all_pure _
      | some pr => exact targetReadRangeLog_calls hk hal (getPhysAddr_offset hp) hpr

/-- A load over a slow path makes the calls of the slow path, or none. -/
theorem targetReadViaLog_calls {junk : UInt32 → Nat} {slow : Mach σ → UInt32 → Nat → Calls (SlowRead × Mach σ)}
    {P : DevCall → Prop} (hslow : (slow m addr k).All P) : (targetReadViaLog mm slow junk m addr k).All P := by
  unfold targetReadViaLog
  dsimp only
  split
  · exact (Logged.all_lift _).bind (fun _ _ => Logged.all_pure _)
  · refine hslow.bind ?_
    rintro ⟨r, m₁⟩ -
    cases r with
    | fault => exact Logged.all_pure _
    | unset => exact Logged.all_pure _
    | val v => exact Logged.all_pure _

theorem targetReadTwoLog_calls {junk : UInt32 → Nat} (hk : k ≤ 3) {addr₀ addr₁ : UInt32}
    (hal₀ : addr₀.toNat % 2 ^ k = 0) (hal₁ : addr₁.toNat % 2 ^ k = 0) (join : Nat → Nat → Nat) :
    (targetReadTwoLog mm h junk m addr₀ addr₁ k join).All (MayCall mm k) := by
  unfold targetReadTwoLog
  refine (targetReadViaLog_calls (targetReadAlignedLog_calls hk hal₀)).bind ?_
  rintro ⟨v₀, m₀⟩ -
  cases v₀ with
  | none => exact Logged.all_pure _
  | some v₀ =>
      refine (targetReadViaLog_calls (targetReadAlignedLog_calls hk hal₁)).bind ?_
      rintro ⟨v₁, m₁⟩ -
      cases v₁ with
      | none => exact Logged.all_pure _
      | some v₁ => exact Logged.all_pure _

/-- **Every call of a load is for a whole word**, and bytes and halfwords make none. -/
theorem targetReadLog_calls (junk : UInt32 → Nat) (hk : k ≤ 3) (addr : UInt32) :
    (targetReadLog mm h junk m addr k).All (MayCall mm k) := by
  refine targetReadViaLog_calls ?_
  unfold targetReadSlowLog
  dsimp only
  by_cases hal : addr &&& ((1 : UInt32) <<< UInt32.ofNat k - 1) = 0
  · rw [if_neg (not_not_intro hal)]
    exact targetReadAlignedLog_calls hk ((align_eq_zero hk).mp hal)
  · rw [if_pos hal]
    -- the aligned accesses that an unaligned one is split into
    have hfirst := sub_align_self addr hk
    obtain rfl | rfl | rfl | rfl : k = 0 ∨ k = 1 ∨ k = 2 ∨ k = 3 := by omega
    · exact absurd ((align_eq_zero (by decide)).mpr (Nat.mod_one _)) hal
    · exact (targetReadTwoLog_calls (by decide) (Nat.mod_one _) (Nat.mod_one _) _).mono
        (fun c hc => absurd hc.2 (by decide))
    · exact targetReadTwoLog_calls hk hfirst (sub_align addr hk 4 (by decide)) _
    · exact targetReadTwoLog_calls hk hfirst (sub_align addr hk 8 (by decide)) _

theorem targetWriteRangeLog_calls (hk : k ≤ 3) (hal : addr.toNat % 2 ^ k = 0)
    (hoff : paddr.toNat % 4096 = addr.toNat % 4096) (hpr : getPhysMemRange (machMap mm) paddr.toNat = some pr)
    (val : Nat) : (targetWriteRangeLog mm h m addr paddr val k pr).All (MayCall mm k) := by
  have halp := aligned_of_offset hk hal hoff
  unfold targetWriteRangeLog
  cases hkind : pr.kind with
  | ram physMem => exact Logged.all_lift _
  | device dev flags =>
      obtain ⟨hw, -, -⟩ := window_ok hpr hkind
      rw [hw.flags_eq]
      dsimp only
      by_cases h2 : k = 2
      · rw [if_pos ((devioSize32_bit hk).mpr h2)]
        subst h2
        exact Logged.all_call ⟨(wholeWord_of_range hpr hkind .writeFunc halp).1, le_refl 2⟩ _
      · rw [if_neg (mt (devioSize32_bit hk).mp h2)]
        by_cases h3 : k = 3
        · subst h3
          obtain ⟨hlow, hhigh⟩ := wholeWord_of_range hpr hkind .writeFunc (by omega)
          rw [if_pos ⟨by decide, rfl⟩]
          exact (Logged.all_call ⟨hlow, by omega⟩ _).bind (fun _ _ => Logged.all_call ⟨hhigh halp, by omega⟩ _)
        · rw [if_neg (fun hc => h3 hc.2)]
          exact Logged.all_pure _

theorem targetWriteAlignedLog_calls (hk : k ≤ 3) (hal : addr.toNat % 2 ^ k = 0) (val : Nat) :
    (targetWriteAlignedLog mm h m addr val k).All (MayCall mm k) := by
  unfold targetWriteAlignedLog
  refine (Logged.all_lift _).bind ?_
  rintro ⟨paddr, ram⟩ hp
  cases paddr with
  | none => exact Logged.all_pure _
  | some paddr =>
      dsimp only
      cases hpr : getPhysMemRange (machMap mm) paddr.toNat with
      | none => exact Logged.all_pure _
      | some pr =>
          exact (targetWriteRangeLog_calls hk hal (getPhysAddr_offset hp) hpr val).bind (fun _ _ => Logged.all_pure _)

/-- A store over a slow path makes the calls of the slow path, or none. -/
theorem targetWriteViaLog_calls {slow : Mach σ → UInt32 → Nat → Nat → Calls (Bool × Mach σ)} {val : Nat}
    {P : DevCall → Prop} (hslow : (slow m addr val k).All P) : (targetWriteViaLog mm slow m addr val k).All P := by
  unfold targetWriteViaLog
  dsimp only
  split
  · exact (Logged.all_lift _).bind (fun _ _ => Logged.all_pure _)
  · exact hslow

/-- The bytes of an unaligned store make no calls. -/
theorem targetWriteBytesLog_calls (val n i : Nat) :
    (targetWriteBytesLog mm h addr val n i m).All (MayCall mm 0) := by
  -- on the bytes that are left
  induction n generalizing i m with
  | zero => exact Logged.all_pure _
  | succ n ih =>
      unfold targetWriteBytesLog
      refine (targetWriteViaLog_calls (targetWriteAlignedLog_calls (by decide) (Nat.mod_one _) _)).bind ?_
      rintro ⟨ok, m₁⟩ -
      cases ok with
      | false => exact Logged.all_pure _
      | true => exact ih (i + 1)

/-- **Every call of a store is for a whole word**, and bytes and halfwords make none. -/
theorem targetWriteLog_calls (hk : k ≤ 3) (addr : UInt32) (val : Nat) :
    (targetWriteLog mm h m addr val k).All (MayCall mm k) := by
  refine targetWriteViaLog_calls ?_
  unfold targetWriteSlowLog
  by_cases hal : addr &&& ((1 : UInt32) <<< UInt32.ofNat k - 1) = 0
  · rw [if_neg (not_not_intro hal)]
    exact targetWriteAlignedLog_calls hk ((align_eq_zero hk).mp hal) val
  · rw [if_pos hal]
    exact (targetWriteBytesLog_calls val _ 0).mono (fun c hc => absurd hc.2 (by decide))

/-! ## One call for a word -/

variable {e : TLBEntry} {access : Access} {dev : Dev} {offset : UInt32}

/-- An access that goes to a device has no TLB entry. -/
theorem GoesToDevice.miss (he : TlbMaps mm e) (hk : k ≤ 3) (hgo : GoesToDevice mm m e addr k access dev offset) :
    e.vaddr ≠ tlbTag addr k := by
  intro hhit
  obtain ⟨paddr, pr, flags, hp, hpr, hkind, -⟩ := hgo
  obtain ⟨a, h0, h1, -, hptr⟩ := he.hit hk hhit
  have hpos : 0 < 2 ^ k := by positivity
  -- the entry points into RAM, and the range of an address in RAM is RAM
  rw [accessPaddr, if_pos hhit, hptr, index_base_add mm (by omega), Int.toNat_natCast] at hp
  have hpaddr : paddr.toNat = a := by
    rw [← Option.some.inj hp, UInt32.toNat_ofNat']
    simp only [machRamSize] at h1
    omega
  rw [hpaddr, getPhysMemRange_ram h0 (by omega)] at hpr
  cases hpr
  cases hkind

/-- Where it goes is what the page tables say. -/
theorem GoesToDevice.walk (hgo : GoesToDevice mm m e addr k access dev offset) (hmiss : e.vaddr ≠ tlbTag addr k) :
    ∃ paddr ram pr flags, getPhysAddr mm m.cpu m.ram addr access = .ok (some paddr, ram) ∧
      getPhysMemRange (machMap mm) paddr.toNat = some pr ∧ pr.kind = .device dev flags ∧
      UInt32.ofNat (u32 ((paddr.toNat : Int) - pr.addr)) = offset := by
  obtain ⟨paddr, pr, flags, hp, hpr, hkind, hoff⟩ := hgo
  rw [accessPaddr, if_neg hmiss] at hp
  cases hwalk : getPhysAddr mm m.cpu m.ram addr access with
  | error err =>
      rw [hwalk] at hp
      cases hp
  | ok r =>
      obtain ⟨found, ram⟩ := r
      rw [hwalk] at hp
      obtain rfl : found = some paddr := hp
      refine ⟨paddr, ram, pr, flags, rfl, hpr, hkind, ?_⟩
      rw [← UInt32.toNat_inj, offset_toNat (by omega)]
      omega

/-- An aligned load of a word of a device is one call. -/
theorem targetReadLog_once (junk : UInt32 → Nat) (hal : addr.toNat % 4 = 0)
    (hmiss : (m.cpu.tlbRead (tlbIdx addr)).vaddr ≠ tlbTag addr 2)
    (hgo : GoesToDevice mm m (m.cpu.tlbRead (tlbIdx addr)) addr 2 .read dev offset) :
    (targetReadLog mm h junk m addr 2).log = [⟨.readFunc, dev, offset, 2⟩] := by
  obtain ⟨paddr, ram, pr, flags, hwalk, hpr, hkind, rfl⟩ := hgo.walk hmiss
  have hslow : (targetReadSlowLog mm h junk m addr 2).log
      = (targetReadRangeLog mm h { m with ram := ram } addr paddr 2 pr).log := by
    unfold targetReadSlowLog
    dsimp only
    rw [if_neg (not_not_intro ((align_eq_zero (by decide)).mpr hal)), targetReadAlignedLog, Logged.log_lift_bind hwalk]
    dsimp only
    rw [hpr]
  unfold targetReadLog targetReadViaLog
  dsimp only
  rw [if_neg hmiss, Logged.log_bind_nil, hslow]
  · unfold targetReadRangeLog
    rw [hkind]
    dsimp only
    rw [(window_ok hpr hkind).1.flags_eq, if_pos ((devioSize32_bit (by decide)).mpr rfl),
      Logged.log_bind_nil _ (fun _ => rfl)]
    rfl
  · rintro ⟨r, m₁⟩
    cases r with
    | fault => rfl
    | unset => rfl
    | val v => rfl

/-- An aligned store of a word of a device is one call. -/
theorem targetWriteLog_once (val : Nat) (hal : addr.toNat % 4 = 0)
    (hmiss : (m.cpu.tlbWrite (tlbIdx addr)).vaddr ≠ tlbTag addr 2)
    (hgo : GoesToDevice mm m (m.cpu.tlbWrite (tlbIdx addr)) addr 2 .write dev offset) :
    (targetWriteLog mm h m addr val 2).log = [⟨.writeFunc, dev, offset, 2⟩] := by
  obtain ⟨paddr, ram, pr, flags, hwalk, hpr, hkind, rfl⟩ := hgo.walk hmiss
  unfold targetWriteLog targetWriteViaLog
  dsimp only
  rw [if_neg hmiss]
  unfold targetWriteSlowLog
  rw [if_neg (not_not_intro ((align_eq_zero (by decide)).mpr hal)), targetWriteAlignedLog, Logged.log_lift_bind hwalk]
  dsimp only
  rw [hpr]
  dsimp only
  rw [Logged.log_bind_nil _ (fun _ => rfl)]
  unfold targetWriteRangeLog
  rw [hkind]
  dsimp only
  rw [(window_ok hpr hkind).1.flags_eq, if_pos ((devioSize32_bit (by decide)).mpr rfl)]
  rfl

/-! ## Main result -/

/-- The property of one access, from what its calls may be, what it does on a hit and what it does on a miss. -/
theorem callsOk_of {func : DevFunc} {log : List DevCall} (he : TlbMaps mm e) (hk : k ≤ 3)
    (hcalls : ∀ c ∈ log, MayCall mm k c) (hhit : e.vaddr = tlbTag addr k → log = [])
    (honce : k = 2 → addr.toNat % 4 = 0 → e.vaddr ≠ tlbTag addr k → ∀ dev offset,
      GoesToDevice mm m e addr k access dev offset → log = [⟨func, dev, offset, 2⟩]) :
    CallsOk mm m e addr k access func log := by
  refine ⟨fun c hc => (hcalls c hc).1, fun hk1 => ?_, fun h2 hal dev offset hgo => ?_, fun htag => ⟨hhit htag, ?_⟩,
    fun dev offset hgo => hgo.miss he hk⟩
  · exact List.eq_nil_iff_forall_not_mem.mpr (fun c hc => absurd (hcalls c hc).2 (by omega))
  · exact honce h2 hal (hgo.miss he hk) dev offset hgo
  · obtain ⟨a, h0, h1, -, hptr⟩ := he.hit hk htag
    exact ⟨a, h0, h1, hptr⟩

theorem callsOk_read (hm : MemInv mm m) (junk : UInt32 → Nat) (hk : k ≤ 3) (addr : UInt32) :
    CallsOk mm m (m.cpu.tlbRead (tlbIdx addr)) addr k .read .readFunc (targetReadLog mm h junk m addr k).log := by
  refine callsOk_of (hm.read _) hk (targetReadLog_calls junk hk addr) (fun hhit => ?_) ?_
  · unfold targetReadLog targetReadViaLog
    dsimp only
    rw [if_pos hhit, Logged.log_bind_nil _ (fun _ => rfl)]
    rfl
  · rintro rfl hal hmiss dev offset hgo
    exact targetReadLog_once junk hal hmiss hgo

theorem callsOk_write (hm : MemInv mm m) (hk : k ≤ 3) (addr : UInt32) (val : Nat) :
    CallsOk mm m (m.cpu.tlbWrite (tlbIdx addr)) addr k .write .writeFunc (targetWriteLog mm h m addr val k).log := by
  refine callsOk_of (hm.write _) hk (targetWriteLog_calls hk addr val) (fun hhit => ?_) ?_
  · unfold targetWriteLog targetWriteViaLog
    dsimp only
    rw [if_pos hhit, Logged.log_bind_nil _ (fun _ => rfl)]
    rfl
  · rintro rfl hal hmiss dev offset hgo
    exact targetWriteLog_once val hal hmiss hgo

/-- **Device callbacks see whole aligned words only.** In every state of the machine, for every load and store of
    8, 16, 32 or 64 bits at any address: with the calls left out it is what `Emu.RiscvCpu` says, and the calls are as
    in `CallsOk`. -/
theorem callbacks_whole_words (hm : VmReachable mm h m) (junk : UInt32 → Nat) (addr : UInt32) (val : Nat)
    (hk : k ≤ 3) :
    ((targetReadLog mm h junk m addr k).result = targetRead mm h junk m addr k ∧
      CallsOk mm m (m.cpu.tlbRead (tlbIdx addr)) addr k .read .readFunc (targetReadLog mm h junk m addr k).log) ∧
    (targetWriteLog mm h m addr val k).result = targetWrite mm h m addr val k ∧
      CallsOk mm m (m.cpu.tlbWrite (tlbIdx addr)) addr k .write .writeFunc (targetWriteLog mm h m addr val k).log :=
  ⟨⟨targetReadLog_result, callsOk_read hm.ok.mem junk hk addr⟩,
    targetWriteLog_result, callsOk_write hm.ok.mem hk addr val⟩

/-- The machine as it starts, with a load and a store of the first word of the UART. -/
theorem callbacks_whole_words_uart :
    (targetReadLog someMainMem quietHost (fun _ => 0) (machInit (Ram.fill 0) ()) 0x10000000 2).log
        = [⟨.readFunc, .uart, 0, 2⟩] ∧
      (targetWriteLog someMainMem quietHost (machInit (Ram.fill 0) ()) 0x10000000 65 2).log
        = [⟨.writeFunc, .uart, 0, 2⟩] := by
  have hstart : VmReachable someMainMem quietHost (machInit (Ram.fill 0) ()) :=
    ⟨Ram.fill 0, (), [], fun _ hop => absurd hop List.not_mem_nil, rfl⟩
  have hmiss : (0xffffffff : UInt32) ≠ tlbTag 0x10000000 2 := by decide
  have hbare : (machInit (Ram.fill 0) ()).cpu.satp >>> 31 = 0 := by decide
  have hrange : getPhysMemRange (machMap someMainMem) (0x10000000 : UInt32).toNat
      = some ⟨0x10000000, 0x100, .device .uart devioSize32⟩ := by decide
  have hgo (access : Access) : GoesToDevice someMainMem (machInit (Ram.fill 0) ()) ⟨0xffffffff, 0⟩ 0x10000000 2
      access .uart 0 := by
    refine ⟨0x10000000, _, devioSize32, ?_, hrange, rfl, rfl⟩
    rw [accessPaddr, if_neg hmiss, getPhysAddr_bare hbare]
  obtain ⟨⟨-, hread⟩, -, hwrite⟩ := callbacks_whole_words hstart (fun _ => 0) 0x10000000 65 (k := 2) (by decide)
  exact ⟨hread.once rfl (by decide) _ _ (hgo _), hwrite.once rfl (by decide) _ _ (hgo _)⟩

/-- The same between the calls of the interpreter. -/
theorem CpuReachable.callsOk {env : InterpEnv σ} {s : RISCVCPUState σ} (hs : CpuReachable env s)
    (junk : UInt32 → Nat) (addr : UInt32) (val : Nat) (hk : k ≤ 3) :
    CallsOk env.mm s.toMach (s.cpu.tlbRead (tlbIdx addr)) addr k .read .readFunc
        (targetReadLog env.mm env.host junk s.toMach addr k).log ∧
      CallsOk env.mm s.toMach (s.cpu.tlbWrite (tlbIdx addr)) addr k .write .writeFunc
        (targetWriteLog env.mm env.host s.toMach addr val k).log :=
  ⟨callsOk_read hs.inv.mem junk hk addr, callsOk_write hs.inv.mem hk addr val⟩

end HadBadge
