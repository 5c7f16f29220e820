import HadBadge.Emu.Mach

/-!
# `Correctness.CpuMemory`: CPU and peripherals see one memory

In every run without translation, loads and stores of the CPU in RAM go to the bytes of `main_mem` that the
peripherals know by the same number, whatever the TLBs hold: from the TLB or by the slow path, aligned or not.

## Contents
- **Setup.** `Unchanged` and `Stored`: what an access leaves of the rest of the machine.
- **Loads.** `targetReadAligned_ram`, `targetReadTwo_ram`, `targetReadSlow_ram`, `targetRead_ram`.
- **Stores.** `targetWriteAligned_ram`, `targetWriteBytes_ram`, `targetWriteSlow_ram`, `targetWrite_ram`.
- **Main result.** `cpu_sees_main_mem`.
-/

namespace HadBadge

open Lib

variable {σ : Type} {mm : MainMem} {h : MachHost σ} {m m' m₁ m₂ : Mach σ} {addr : UInt32} {k : Nat}

/-! ## Setup -/

/-- Memory and devices are as they were, and the TLBs are right. -/
structure Unchanged (mm : MainMem) (m m' : Mach σ) : Prop where
  cpu : CpuOk mm m'.cpu
  ram : m'.ram = m.ram
  periphs : m'.periphs = m.periphs

/-- Memory is `mem`, the devices are as they were, and the TLBs are right. -/
structure Stored (mm : MainMem) (m m' : Mach σ) (mem : Mem) : Prop where
  cpu : CpuOk mm m'.cpu
  mem_eq : m'.ram.mem = mem
  periphs : m'.periphs = m.periphs

theorem Unchanged.trans (h₁ : Unchanged mm m m₁) (h₂ : Unchanged mm m₁ m₂) : Unchanged mm m m₂ :=
  ⟨h₂.cpu, h₂.ram.trans h₁.ram, h₂.periphs.trans h₁.periphs⟩

/-- Loads and stores of that size at that address go to `main_mem`. -/
structure CpuSees (mm : MainMem) (h : MachHost σ) (m : Mach σ) (addr : UInt32) (k : Nat) : Prop where
  /-- A load gives the little-endian value of the bytes there, from the TLB or not. -/
  read : ∀ junk, ∃ v m₁ m₂, m.ram.mem.load addr.toNat (2 ^ k) = some v ∧
    targetRead mm h junk m addr k = .ok (some v, m₁) ∧ Unchanged mm m m₁ ∧
    targetReadSlow mm h junk m addr k = .ok (.val v, m₂) ∧ Unchanged mm m m₂
  /-- A store changes exactly the bytes there, from the TLB or not. -/
  write : ∀ val, ∃ mem m₁ m₂, m.ram.mem.store addr.toNat (2 ^ k) val = some mem ∧
    targetWrite mm h m addr val k = .ok (true, m₁) ∧ Stored mm m m₁ mem ∧
    targetWriteSlow mm h m addr val k = .ok (true, m₂) ∧ Stored mm m m₂ mem

/-! ## Loads -/

theorem targetReadAligned_ram (hm : CpuOk mm m.cpu) (hk : k ≤ 3) (hin : InRam addr) {v : Nat}
    (hv : m.ram.mem.load addr.toNat (2 ^ k) = some v) :
    ∃ m', targetReadAligned mm h m addr k = .ok (.val v, m') ∧ Unchanged mm m m' := by
  -- the slow path fills the TLB first and then loads through the pointer it has just computed
  refine ⟨m.fillRead addr (ramPtr (mm.base + 0x1000) 0x1000 addr), ?_, hm.fillRead hin.1 hin.2, rfl, rfl⟩
  have hload : hostLoad mm m.ram (ramPtr (mm.base + 0x1000) 0x1000 addr) (2 ^ k) = .ok v :=
    hostLoad_eq (index_ramPtr mm hin.2) hv
  rw [targetReadAligned_bare hm.bare, getPhysMemRange_ram hin.1 hin.2]
  unfold targetReadRange
  dsimp only [ramRange]
  rw [if_pos hk, Mach.fillRead_ram, hload]
  rfl

/-- A load over a slow path that finds the value finds it from the TLB too. -/
theorem targetReadVia_ram {slow : Mach σ → UInt32 → Nat → Except Fault (SlowRead × Mach σ)} (junk : UInt32 → Nat)
    (hm : CpuOk mm m.cpu) (hk : k ≤ 3) {v : Nat} (hv : m.ram.mem.load addr.toNat (2 ^ k) = some v)
    (hslow : ∃ m', slow m addr k = .ok (.val v, m') ∧ Unchanged mm m m') :
    ∃ m', targetReadVia mm slow junk m addr k = .ok (some v, m') ∧ Unchanged mm m m' := by
  unfold targetReadVia
  dsimp only
  -- a hit loads through the addend of the entry, a miss asks the slow path
  by_cases hhit : (m.cpu.tlbRead (tlbIdx addr)).vaddr = tlbTag addr k
  · obtain ⟨-, -, -, hidx⟩ := (hm.read _).hit hk hhit
    rw [if_pos hhit, hostLoad_eq hidx hv]
    exact ⟨m, rfl, hm, rfl, rfl⟩
  · obtain ⟨m', hs, hun⟩ := hslow
    -- the slow path returns 64 bits; the caller keeps the low ones
    have hlt : v < 2 ^ (8 * 2 ^ k) := by
      have := Mem.load_lt hv
      rwa [show 256 = 2 ^ 8 from rfl, ← pow_mul] at this
    rw [if_neg hhit, hs, ok_bind]
    dsimp only
    rw [Nat.mod_eq_of_lt hlt]
    exact ⟨m', rfl, hun⟩

/-- Two aligned loads in RAM. -/
theorem targetReadTwo_ram (junk : UInt32 → Nat) (hm : CpuOk mm m.cpu) (hk : k ≤ 3) {addr₀ addr₁ : UInt32}
    (h₀ : InRam addr₀) (h₁ : InRam addr₁) {v₀ v₁ : Nat} (hv₀ : m.ram.mem.load addr₀.toNat (2 ^ k) = some v₀)
    (hv₁ : m.ram.mem.load addr₁.toNat (2 ^ k) = some v₁) (join : Nat → Nat → Nat) :
    ∃ m', targetReadTwo mm h junk m addr₀ addr₁ k join = .ok (.val (join v₀ v₁), m') ∧ Unchanged mm m m' := by
  obtain ⟨m₁, hr₁, hun₁⟩ := targetReadVia_ram junk hm hk hv₀ (targetReadAligned_ram (h := h) hm hk h₀ hv₀)
  -- the first load may refill the TLB but leaves RAM as it was for the second
  rw [← hun₁.ram] at hv₁
  obtain ⟨m₂, hr₂, hun₂⟩ :=
    targetReadVia_ram junk hun₁.cpu hk hv₁ (targetReadAligned_ram (h := h) hun₁.cpu hk h₁ hv₁)
  refine ⟨m₂, ?_, hun₁.trans hun₂⟩
  unfold targetReadTwo
  rw [hr₁, ok_bind]
  dsimp only
  rw [hr₂]
  rfl

/-- Bytes of RAM have a value. -/
theorem load_in_ram (ram : Ram) {a n : Nat} (h1 : a + n ≤ machRamSize) : ∃ v, ram.mem.load (a : Int) n = some v :=
  ram.load_of_range (by omega) (by omega)

/-- The two aligned blocks that an unaligned access in RAM lies in. -/
theorem unaligned_around (hk : k ≤ 3) (hal : addr.toNat % 2 ^ k ≠ 0) (h0 : 0x1000 ≤ addr.toNat)
    (h1 : addr.toNat + 2 ^ k ≤ machRamSize) :
    0x1000 ≤ addr.toNat - addr.toNat % 2 ^ k ∧ addr.toNat - addr.toNat % 2 ^ k + 2 ^ k + 2 ^ k ≤ machRamSize := by
  simp only [machRamSize] at h1 ⊢
  obtain rfl | rfl | rfl | rfl : k = 0 ∨ k = 1 ∨ k = 2 ∨ k = 3 := by omega
  all_goals omega

/-- The two aligned loads that an unaligned one is made of, put together. -/
theorem targetReadTwo_unaligned (junk : UInt32 → Nat) (hm : CpuOk mm m.cpu) (hk : k ≤ 3)
    (hal : addr.toNat % 2 ^ k ≠ 0) (h0 : 0x1000 ≤ addr.toNat) (h1 : addr.toNat + 2 ^ k ≤ machRamSize) {v : Nat}
    (hv : m.ram.mem.load addr.toNat (2 ^ k) = some v) {al : UInt32} (hal' : al.toNat = addr.toNat % 2 ^ k) :
    ∃ m', targetReadTwo mm h junk m (addr - al) (addr - al + UInt32.ofNat (2 ^ k)) k
      (fun v0 v1 => v0 >>> (al.toNat * 8) ||| v1 <<< (2 ^ k * 8 - al.toNat * 8) % 2 ^ (2 ^ k * 8)) = .ok (.val v, m') ∧
      Unchanged mm m m' := by
  obtain ⟨hlo, hhi⟩ := unaligned_around hk hal h0 h1
  have hmod : addr.toNat % 2 ^ k ≤ addr.toNat := Nat.mod_le _ _
  have hlt : addr.toNat % 2 ^ k < 2 ^ k := Nat.mod_lt _ (by positivity)
  have hsize : 2 ^ k ≤ 8 := Nat.le_of_dvd (by decide) (size_dvd hk)
  simp only [machRamSize] at hhi
  -- neither address wraps: both blocks lie in RAM
  have ha₀ : (addr - al).toNat = addr.toNat - addr.toNat % 2 ^ k := by
    rw [UInt32.toNat_sub_of_le _ _ (UInt32.le_iff_toNat_le.mpr (by omega)), hal']
  have ha₁ : (addr - al + UInt32.ofNat (2 ^ k)).toNat = addr.toNat - addr.toNat % 2 ^ k + 2 ^ k := by
    rw [UInt32.toNat_add, ha₀, UInt32.toNat_ofNat']
    omega
  obtain ⟨v₀, hv₀⟩ := load_in_ram m.ram (a := (addr - al).toNat) (n := 2 ^ k) (by simp only [machRamSize]; omega)
  obtain ⟨v₁, hv₁⟩ := load_in_ram m.ram (a := (addr - al + UInt32.ofNat (2 ^ k)).toNat) (n := 2 ^ k)
    (by simp only [machRamSize]; omega)
  -- shifting and joining the two blocks is the little-endian value across them
  have hjoin : m.ram.mem.load addr.toNat (2 ^ k) =
      some (v₀ >>> (al.toNat * 8) ||| v₁ <<< (2 ^ k * 8 - al.toNat * 8) % 2 ^ (2 ^ k * 8)) := by
    rw [← Mem.load_unaligned (i := (addr - al).toNat) (n := 2 ^ k) (d := al.toNat) (by omega) hv₀
      (by rw [← hv₁, ha₁, ha₀]; push_cast; rfl)]
    congr 1
    omega
  obtain rfl := Option.some.inj (hv.symm.trans hjoin)
  exact targetReadTwo_ram junk hm hk ⟨by omega, by simp only [machRamSize]; omega⟩
    ⟨by omega, by simp only [machRamSize]; omega⟩ hv₀ hv₁ _

/-- The two byte loads that an unaligned load of a halfword is made of. -/
theorem targetReadTwo_bytes (junk : UInt32 → Nat) (hm : CpuOk mm m.cpu) (h0 : 0x1000 ≤ addr.toNat)
    (h1 : addr.toNat + 2 ≤ machRamSize) {v : Nat} (hv : m.ram.mem.load addr.toNat 2 = some v) :
    ∃ m', targetReadTwo mm h junk m addr (addr + 1) 0 (fun v0 v1 => v0 ||| v1 <<< 8) = .ok (.val v, m') ∧
      Unchanged mm m m' := by
  simp only [machRamSize] at h1
  have ha₁ : (addr + 1).toNat = addr.toNat + 1 := by
    rw [UInt32.toNat_add]
    show (addr.toNat + 1) % 2 ^ 32 = _
    omega
  obtain ⟨v₀, hv₀⟩ := load_in_ram m.ram (a := addr.toNat) (n := 2 ^ 0) (by simp only [machRamSize]; omega)
  obtain ⟨v₁, hv₁⟩ := load_in_ram m.ram (a := (addr + 1).toNat) (n := 2 ^ 0) (by simp only [machRamSize]; omega)
  have hjoin : m.ram.mem.load addr.toNat 2 = some (v₀ + 256 ^ 1 * v₁) :=
    Mem.load_add hv₀ (by rw [← hv₁, ha₁]; push_cast; rfl)
  have hor : v₀ ||| v₁ <<< 8 = v₀ + 256 ^ 1 * v₁ := by
    rw [Nat.shiftLeft_eq, Nat.mul_comm v₁, Nat.or_comm, ← Nat.two_pow_add_eq_or_of_lt (Mem.load_lt hv₀)]
    omega
  obtain rfl := Option.some.inj (hv.symm.trans hjoin)
  rw [← hor]
  exact targetReadTwo_ram junk hm (by omega) ⟨h0, by simp only [machRamSize]; omega⟩
    ⟨by omega, by simp only [machRamSize]; omega⟩ hv₀ hv₁ (fun v0 v1 => v0 ||| v1 <<< 8)

theorem targetReadSlow_ram (junk : UInt32 → Nat) (hm : CpuOk mm m.cpu) (hk : k ≤ 3) (h0 : 0x1000 ≤ addr.toNat)
    (h1 : addr.toNat + 2 ^ k ≤ machRamSize) {v : Nat} (hv : m.ram.mem.load addr.toNat (2 ^ k) = some v) :
    ∃ m', targetReadSlow mm h junk m addr k = .ok (.val v, m') ∧ Unchanged mm m m' := by
  unfold targetReadSlow
  dsimp only
  by_cases hal : addr.toNat % 2 ^ k = 0
  · rw [if_neg (not_not.mpr ((align_eq_zero hk).mpr hal))]
    exact targetReadAligned_ram hm hk ⟨h0, by have := Nat.two_pow_pos k; omega⟩ hv
  · rw [if_pos (fun hz => hal ((align_eq_zero hk).mp hz))]
    -- the source has one case a size: no byte is unaligned, halfwords go by bytes, the rest by blocks
    obtain rfl | rfl | rfl | rfl : k = 0 ∨ k = 1 ∨ k = 2 ∨ k = 3 := by omega
    · exact absurd (Nat.mod_one _) hal
    · exact targetReadTwo_bytes junk hm h0 h1 hv
    · exact targetReadTwo_unaligned junk hm hk hal h0 h1 hv (align_toNat addr hk)
    · exact targetReadTwo_unaligned junk hm hk hal h0 h1 hv (align_toNat addr hk)

/-- **A load in RAM.** -/
theorem targetRead_ram (junk : UInt32 → Nat) (hm : CpuOk mm m.cpu) (hk : k ≤ 3) (h0 : 0x1000 ≤ addr.toNat)
    (h1 : addr.toNat + 2 ^ k ≤ machRamSize) {v : Nat} (hv : m.ram.mem.load addr.toNat (2 ^ k) = some v) :
    ∃ m', targetRead mm h junk m addr k = .ok (some v, m') ∧ Unchanged mm m m' :=
  targetReadVia_ram junk hm hk hv (targetReadSlow_ram junk hm hk h0 h1 hv)

/-! ## Stores -/

theorem targetWriteAligned_ram (hm : CpuOk mm m.cpu) (hk : k ≤ 3) (hin : InRam addr) {val : Nat} {mem : Mem}
    (hv : m.ram.mem.store addr.toNat (2 ^ k) val = some mem) :
    ∃ m', targetWriteAligned mm h m addr val k = .ok (true, m') ∧ Stored mm m m' mem := by
  obtain ⟨ram, hstore, hmem⟩ := hostStore_eq (index_ramPtr mm hin.2) hv
  refine ⟨{ m.fillWrite addr (ramPtr (mm.base + 0x1000) 0x1000 addr) with ram := ram }, ?_,
    hm.fillWrite hin.1 hin.2, hmem, rfl⟩
  rw [targetWriteAligned_bare hm.bare, getPhysMemRange_ram hin.1 hin.2]
  unfold targetWriteRange
  dsimp only [ramRange]
  rw [if_pos hk, Mach.fillWrite_ram, hstore]
  rfl

theorem targetWriteVia_ram {slow : Mach σ → UInt32 → Nat → Nat → Except Fault (Bool × Mach σ)}
    (hm : CpuOk mm m.cpu) (hk : k ≤ 3) {val : Nat} {mem : Mem}
    (hv : m.ram.mem.store addr.toNat (2 ^ k) val = some mem)
    (hslow : ∃ m', slow m addr val k = .ok (true, m') ∧ Stored mm m m' mem) :
    ∃ m', targetWriteVia mm slow m addr val k = .ok (true, m') ∧ Stored mm m m' mem := by
  unfold targetWriteVia
  dsimp only
  by_cases hhit : (m.cpu.tlbWrite (tlbIdx addr)).vaddr = tlbTag addr k
  · obtain ⟨-, -, -, hidx⟩ := (hm.write _).hit hk hhit
    obtain ⟨ram, hstore, hmem⟩ := hostStore_eq hidx hv
    rw [if_pos hhit, hstore]
    exact ⟨_, rfl, hm, hmem, rfl⟩
  · rw [if_neg hhit]
    exact hslow

/-- The byte that iteration `i` of the loop stores. -/
theorem loopByte_eq (val i : Nat) : leByte 0 ((val >>> (8 * i)) &&& 0xff) = leByte 0 (val / 256 ^ i) := by
  rw [Nat.shiftRight_eq_div_pow, pow_mul]
  show leByte 0 (val / 256 ^ i &&& (2 ^ 8 - 1)) = _
  rw [Nat.and_two_pow_sub_one_eq_mod]
  unfold leByte
  rw [← UInt8.toNat_inj, UInt8.toNat_ofNat', UInt8.toNat_ofNat']
  omega

theorem targetWriteBytes_ram {val : Nat} (n : Nat) {i : Nat} {mem : Mem} (hm : CpuOk mm m.cpu)
    (h0 : 0x1000 ≤ addr.toNat) (h1 : addr.toNat + (i + n) ≤ machRamSize)
    (hv : m.ram.mem.store (addr.toNat + (i : Nat) : Int) n (val / 256 ^ i) = some mem) :
    ∃ m', targetWriteBytes mm h addr val n i m = .ok (true, m') ∧ Stored mm m m' mem := by
  -- on the bytes left; byte `i` goes through the TLB, so the invariant is needed again at each byte
  induction n generalizing i m with
  | zero =>
      obtain rfl : m.ram.mem = mem := Option.some.inj hv
      exact ⟨m, rfl, hm, rfl, rfl⟩
  | succ n ih =>
      simp only [machRamSize] at h1
      have ha : (addr + UInt32.ofNat i).toNat = addr.toNat + i := by
        rw [UInt32.toNat_add, UInt32.toNat_ofNat']
        omega
      have hin : InRam (addr + UInt32.ofNat i) := ⟨by omega, by simp only [machRamSize]; omega⟩
      have hsome : (m.ram.mem (addr.toNat + (i : Nat) : Int)).isSome := by
        by_contra hnone
        rw [Mem.store, if_neg hnone] at hv
        cases hv
      have hbyte : m.ram.mem.store ((addr + UInt32.ofNat i).toNat : Int) (2 ^ 0) ((val >>> (8 * i)) &&& 0xff) =
          some (m.ram.mem.set (addr.toNat + (i : Nat) : Int) (leByte 0 (val / 256 ^ i))) := by
        rw [ha, Nat.cast_add, pow_zero, Mem.store_one hsome, loopByte_eq]
      obtain ⟨m₁, hw, hst⟩ := targetWriteVia_ram hm (by omega) hbyte
        (targetWriteAligned_ram (h := h) hm (by omega) hin hbyte)
      rw [Mem.store, if_pos hsome, ← hst.mem_eq, Nat.div_div_eq_div_mul, ← pow_succ,
        show (addr.toNat + (i : Nat) : Int) + 1 = addr.toNat + ((i + 1 : Nat) : Int) by push_cast; ring] at hv
      obtain ⟨m₂, hloop, hst₂⟩ := ih hst.cpu (by simp only [machRamSize]; omega) hv
      refine ⟨m₂, ?_, hst₂.cpu, hst₂.mem_eq, hst₂.periphs.trans hst.periphs⟩
      unfold targetWriteBytes
      rw [hw, ok_bind]
      exact hloop

theorem targetWriteSlow_ram (hm : CpuOk mm m.cpu) (hk : k ≤ 3) (h0 : 0x1000 ≤ addr.toNat)
    (h1 : addr.toNat + 2 ^ k ≤ machRamSize) {val : Nat} {mem : Mem}
    (hv : m.ram.mem.store addr.toNat (2 ^ k) val = some mem) :
    ∃ m', targetWriteSlow mm h m addr val k = .ok (true, m') ∧ Stored mm m m' mem := by
  unfold targetWriteSlow
  -- unaligned: byte by byte
  split
  · refine targetWriteBytes_ram (2 ^ k) hm h0 (by omega) ?_
    rw [Nat.cast_zero, add_zero, pow_zero, Nat.div_one]
    exact hv
  · exact targetWriteAligned_ram hm hk ⟨h0, by have := Nat.two_pow_pos k; omega⟩ hv

/-- **A store in RAM.** -/
theorem targetWrite_ram (hm : CpuOk mm m.cpu) (hk : k ≤ 3) (h0 : 0x1000 ≤ addr.toNat)
    (h1 : addr.toNat + 2 ^ k ≤ machRamSize) {val : Nat} {mem : Mem}
    (hv : m.ram.mem.store addr.toNat (2 ^ k) val = some mem) :
    ∃ m', targetWrite mm h m addr val k = .ok (true, m') ∧ Stored mm m m' mem :=
  targetWriteVia_ram hm hk hv (targetWriteSlow_ram hm hk h0 h1 hv)

/-! ## One memory -/

/-- **CPU and peripherals see one memory.** In every state that a run without translation reaches: all entries
    of the three TLBs are invalid or for a page of RAM with `main_mem` as their addend, and every load or store
    of 8, 16, 32 or 64 bits in `[0x1000, 8 MiB)`, aligned or not, reads or changes exactly the bytes of
    `main_mem` at its address, from the TLB as by the slow path. -/
theorem cpu_sees_main_mem (hm : Reachable mm h m) (hk : k ≤ 3) (h0 : 0x1000 ≤ addr.toNat)
    (h1 : addr.toNat + 2 ^ k ≤ machRamSize) : CpuOk mm m.cpu ∧ CpuSees mm h m addr k := by
  have hok := hm.ok.cpu
  refine ⟨hok, ?_, ?_⟩
  · intro junk
    obtain ⟨v, hv⟩ := load_in_ram m.ram h1
    obtain ⟨m₁, hr, hun⟩ := targetRead_ram (h := h) junk hok hk h0 h1 hv
    obtain ⟨m₂, hs, hun₂⟩ := targetReadSlow_ram (h := h) junk hok hk h0 h1 hv
    exact ⟨v, m₁, m₂, hv, hr, hun, hs, hun₂⟩
  · intro val
    obtain ⟨mem, hv⟩ : ∃ mem, m.ram.mem.store addr.toNat (2 ^ k) val = some mem :=
      Mem.store_isSome_iff.mpr (fun i hi => m.ram.isSome_of_range (by omega) (by omega))
    obtain ⟨m₁, hw, hst⟩ := targetWrite_ram (h := h) hok hk h0 h1 hv
    obtain ⟨m₂, hs, hst₂⟩ := targetWriteSlow_ram (h := h) hok hk h0 h1 hv
    exact ⟨mem, m₁, m₂, hv, hw, hst, hs, hst₂⟩

/-- A host without files, input or buttons. -/
def quietHost : MachHost Unit := ⟨tmxHost (fun _ => none), fun s => (none, s), fun s _ => s, fun _ => 0⟩

/-- `main_mem` somewhere in the address space of the host. -/
def someMainMem : MainMem := ⟨0x7f0000000000, by decide⟩

/-- A state whose read TLB holds the page of 0x2000. -/
theorem loaded_reachable : ∃ m v, Reachable someMainMem quietHost m ∧
    targetRead someMainMem quietHost (fun _ => 0) (machInit (Ram.fill 0) ()) 0x2000 2 = .ok (some v, m) := by
  have hinit : CpuOk someMainMem (machInit (Ram.fill 0) ()).cpu := (machInit_ok _ _).cpu
  obtain ⟨v, hv⟩ := load_in_ram (Ram.fill 0) (a := (0x2000 : UInt32).toNat) (n := 2 ^ 2) (by decide)
  obtain ⟨m, hr, -⟩ := targetRead_ram (h := quietHost) (fun _ => 0) hinit (k := 2) (by decide) (by decide)
    (by decide) hv
  refine ⟨m, v, ⟨Ram.fill 0, (), [.read (fun _ => 0) 0x2000 2], fun op hop => ?_, ?_⟩, hr⟩
  · obtain rfl := List.mem_singleton.mp hop
    trivial
  · show (do return (← targetRead someMainMem quietHost (fun _ => 0) (machInit (Ram.fill 0) ()) 0x2000 2).2) = _
    rw [hr]
    rfl

theorem cpu_sees_main_mem_unaligned : ∃ m, CpuOk someMainMem m.cpu ∧ CpuSees someMainMem quietHost m 0x2ffe 2 := by
  obtain ⟨m, v, hm, -⟩ := loaded_reachable
  exact ⟨m, cpu_sees_main_mem hm (by decide) (by decide) (by decide)⟩

end HadBadge
