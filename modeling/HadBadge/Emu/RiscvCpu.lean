import HadBadge.Emu.Iomem
import HadBadge.Lib.Bits

/-!
# `Emu.RiscvCpu`: how the CPU accesses memory

The access functions of `emu/riscv_cpu_priv.h` and `emu/riscv_cpu.c` and the instruction fetch of
`emu/riscv_cpu_template.h`, as built for the machine: `MAX_XLEN` and `cur_xlen` 32, `MLEN` 64, pointers of 64
bits. Messages are left out. A result `none` or `false` is the non-zero result for an exception.

## Contents
- **State.** `Cpu` (the fields that an access reads or writes), `Code` (the pointers of the fetch loop), `Mach`.
- **Translation of addresses.** `getPhysAddr` with its page walk.
- **Loads and stores.** `targetReadSlow`, `targetRead`, `targetWriteSlow`, `targetWrite`. The accesses that the
  slow paths split an unaligned one into are aligned ones (`targetRead_aligned`), so there is no recursion.
- **Instruction fetch.** `targetReadInsnSlow`, `targetReadInsnU16`, `fetchInsn`.
-/

namespace HadBadge

open Lib

/-! ## State -/

structure TLBEntry where
  vaddr : UInt32
  memAddend : Nat
  deriving DecidableEq, Repr

/-- The fields of `RISCVCPUState` that memory accesses go by. -/
structure Cpu where
  priv : Nat
  pendingException : Int
  pendingTval : UInt32
  mstatus : UInt32
  satp : UInt32
  tlbRead : Fin 256 → TLBEntry
  tlbWrite : Fin 256 → TLBEntry
  tlbCode : Fin 256 → TLBEntry

/-- `code_ptr`, `code_end` and `code_to_pc_addend` of the interpreter loop. -/
structure Code where
  codePtr : Nat
  codeEnd : Nat
  codeToPcAddend : UInt32
  deriving DecidableEq, Repr

/-- The machine. -/
structure Mach (σ : Type) where
  cpu : Cpu
  code : Code
  ram : Ram
  periphs : Periphs σ

variable {σ : Type}

/-- `(addr >> PG_SHIFT) & (TLB_SIZE - 1)`. -/
def tlbIdx (addr : UInt32) : Fin 256 := Fin.ofNat 256 (addr >>> 12).toNat

/-- `addr & ~PG_MASK`. -/
def pageOf (addr : UInt32) : UInt32 := addr &&& ~~~0xfff

/-- `addr & ~(PG_MASK & ~((size / 8) - 1))`, which an entry's `vaddr` is compared with. -/
def tlbTag (addr : UInt32) (sizeLog2 : Nat) : UInt32 :=
  addr &&& ~~~(0xfff &&& ~~~((1 : UInt32) <<< UInt32.ofNat sizeLog2 - 1))

/-- The entry for the page of `addr`, `ptr` being the pointer for `addr`. -/
def tlbEntry (addr : UInt32) (ptr : Nat) : TLBEntry := ⟨pageOf addr, u64 ((ptr : Int) - addr.toNat)⟩

/-- `mem_addend + (uintptr_t)addr`. -/
def TLBEntry.ptr (e : TLBEntry) (addr : UInt32) : Nat := u64 ((e.memAddend : Int) + addr.toNat)

/-! ## Translation of addresses -/

inductive Access where
  | read | write | code
  deriving DecidableEq, Repr

/-- `ACCESS_READ`, `ACCESS_WRITE`, `ACCESS_CODE`. -/
def Access.toU32 : Access → UInt32
  | .read => 0
  | .write => 1
  | .code => 2

def prvS : Nat := 1
def prvM : Nat := 3
def mstatusMprv : UInt32 := (1 : UInt32) <<< 17
def mstatusSum : UInt32 := (1 : UInt32) <<< 18
def mstatusMxr : UInt32 := (1 : UInt32) <<< 19
def mstatusMppShift : UInt32 := 11
def pteVMask : UInt32 := (1 : UInt32) <<< 0
def pteUMask : UInt32 := (1 : UInt32) <<< 4
def pteAMask : UInt32 := (1 : UInt32) <<< 6
def pteDMask : UInt32 := (1 : UInt32) <<< 7

def causeFaultFetch : Int := 0x1
def causeFetchPageFault : Int := 0xc
def causeLoadPageFault : Int := 0xd
def causeStorePageFault : Int := 0xf

/-- The pointer for `paddr` in a range of RAM that starts at `addr`. -/
def ramPtr (physMem addr : Nat) (paddr : UInt32) : Nat := u64 ((physMem : Int) + ((paddr.toNat : Int) - addr))

/-- `phys_read_u32`. -/
def physReadU32 (mm : MainMem) (ram : Ram) (addr : UInt32) : Except Fault UInt32 :=
  match getPhysMemRange (machMap mm) addr.toNat with
  | some ⟨a, _, .ram physMem⟩ => do return UInt32.ofNat (← hostLoad mm ram (ramPtr physMem a addr) 4)
  | _ => .ok 0

/-- `phys_write_u32`. -/
def physWriteU32 (mm : MainMem) (ram : Ram) (addr val : UInt32) : Except Fault Ram :=
  match getPhysMemRange (machMap mm) addr.toNat with
  | some ⟨a, _, .ram physMem⟩ => hostStore mm ram (ramPtr physMem a addr) 4 val.toNat
  | _ => .ok ram

/-- The privilege and protection checks on a leaf entry. -/
def pteAllows (mstatus : UInt32) (priv : Nat) (access : Access) (pte xwr : UInt32) : Bool :=
  let xwr' := if mstatus &&& mstatusMxr ≠ 0 then xwr ||| (xwr >>> 2) else xwr
  (xwr ≠ 2 ∧ xwr ≠ 6) ∧
    (if priv = prvS then ¬ (pte &&& pteUMask ≠ 0 ∧ mstatus &&& mstatusSum = 0) else pte &&& pteUMask ≠ 0) ∧
    (xwr' >>> access.toU32) &&& 1 ≠ 0

/-- The loop of `get_phys_addr` over the levels of the page table, `n` levels being left. -/
def pageWalk (mm : MainMem) (mstatus : UInt32) (priv : Nat) (vaddr : UInt32) (access : Access) :
    (n : Nat) → (pteAddr : UInt32) → Ram → Except Fault (Option UInt32 × Ram)
  | 0,   _,       ram => .ok (none, ram)
  | n+1, pteAddr, ram => do
      let vaddrShift := UInt32.ofNat (12 + 10 * n)
      let pteAddr := pteAddr + (((vaddr >>> vaddrShift) &&& 0x3ff) <<< 2)
      let pte ← physReadU32 mm ram pteAddr
      let paddr := (pte >>> 10) <<< 12
      let xwr := (pte >>> 1) &&& 7
      if pte &&& pteVMask = 0 then return (none, ram)
      else if xwr = 0 then pageWalk mm mstatus priv vaddr access n paddr ram
      else if pteAllows mstatus priv access pte xwr then
        let needWrite := pte &&& pteAMask = 0 ∨ (pte &&& pteDMask = 0 ∧ access = .write)
        let pte := pte ||| pteAMask
        let pte := if access = .write then pte ||| pteDMask else pte
        let ram ← if needWrite then physWriteU32 mm ram pteAddr pte else .ok ram
        let vaddrMask := (1 : UInt32) <<< vaddrShift - 1
        return (some ((vaddr &&& vaddrMask) ||| (paddr &&& ~~~vaddrMask)), ram)
      else return (none, ram)

/-- `get_phys_addr`: the physical address, and the memory with the bits that a page walk sets. -/
def getPhysAddr (mm : MainMem) (cpu : Cpu) (ram : Ram) (vaddr : UInt32) (access : Access) :
    Except Fault (Option UInt32 × Ram) :=
  let priv :=
    if cpu.mstatus &&& mstatusMprv ≠ 0 ∧ access ≠ .code then ((cpu.mstatus >>> mstatusMppShift) &&& 3).toNat
    else cpu.priv
  if priv = prvM then .ok (some vaddr, ram)
  else if cpu.satp >>> 31 = 0 then .ok (some vaddr, ram)
  else pageWalk mm cpu.mstatus priv vaddr access 2 ((cpu.satp &&& ((1 : UInt32) <<< 22 - 1)) <<< 12) ram

/-! ## Loads -/

/-- What `target_read_slow` does: it raises an exception, or returns 0 with `*pval` set or not. -/
inductive SlowRead where
  | fault
  | unset
  | val (v : Nat)
  deriving DecidableEq, Repr

/-- The machine with an exception pending. -/
def Mach.pend (m : Mach σ) (cause : Int) (tval : UInt32) : Mach σ :=
  { m with cpu := { m.cpu with pendingTval := tval, pendingException := cause } }

def Mach.fillRead (m : Mach σ) (addr : UInt32) (ptr : Nat) : Mach σ :=
  { m with cpu := { m.cpu with tlbRead := Function.update m.cpu.tlbRead (tlbIdx addr) (tlbEntry addr ptr) } }

def Mach.fillWrite (m : Mach σ) (addr : UInt32) (ptr : Nat) : Mach σ :=
  { m with cpu := { m.cpu with tlbWrite := Function.update m.cpu.tlbWrite (tlbIdx addr) (tlbEntry addr ptr) } }

def Mach.fillCode (m : Mach σ) (addr : UInt32) (ptr : Nat) : Mach σ :=
  { m with cpu := { m.cpu with tlbCode := Function.update m.cpu.tlbCode (tlbIdx addr) (tlbEntry addr ptr) } }

@[simp] theorem Mach.fillRead_ram (m : Mach σ) (addr : UInt32) (ptr : Nat) : (m.fillRead addr ptr).ram = m.ram := rfl

@[simp] theorem Mach.fillWrite_ram (m : Mach σ) (addr : UInt32) (ptr : Nat) : (m.fillWrite addr ptr).ram = m.ram := rfl

/-- A device read by the CPU. -/
def Mach.devRead (h : MachHost σ) (m : Mach σ) (dev : Dev) (offset : UInt32) : Except Fault (Nat × Mach σ) := do
  let (v, periphs) ← deviceRead h m.periphs m.ram offset dev
  return (v.toNat, { m with periphs := periphs })

/-- A device write by the CPU. -/
def Mach.devWrite (h : MachHost σ) (m : Mach σ) (dev : Dev) (offset val : UInt32) : Except Fault (Mach σ) := do
  let (ram, periphs) ← deviceWrite h m.periphs m.ram offset val dev
  return { m with ram := ram, periphs := periphs }

/-- `target_read_slow` on a range: the branches of `pr->is_ram`. -/
def targetReadRange (mm : MainMem) (h : MachHost σ) (m : Mach σ) (addr paddr : UInt32) (sizeLog2 : Nat)
    (pr : PhysMemoryRange) : Except Fault (SlowRead × Mach σ) :=
  match pr.kind with
  | .ram physMem => do
      let ptr := ramPtr physMem pr.addr paddr
      let m := m.fillRead addr ptr
      if sizeLog2 ≤ 3 then return (.val (← hostLoad mm m.ram ptr (2 ^ sizeLog2)), m) else .error .abort
  | .device dev devioFlags => do
      let offset := UInt32.ofNat (u32 ((paddr.toNat : Int) - pr.addr))
      if (devioFlags >>> UInt32.ofNat sizeLog2) &&& 1 ≠ 0 then
        let (v, m) ← m.devRead h dev offset
        return (.val v, m)
      else if devioFlags &&& devioSize32 ≠ 0 ∧ sizeLog2 = 3 then
        let (lo, m) ← m.devRead h dev offset
        let (hi, m) ← m.devRead h dev (offset + 4)
        return (.val (lo ||| hi <<< 32), m)
      else return (.val 0, m)

/-- `target_read_slow` from the translation of the address on. -/
def targetReadAligned (mm : MainMem) (h : MachHost σ) (m : Mach σ) (addr : UInt32) (sizeLog2 : Nat) :
    Except Fault (SlowRead × Mach σ) := do
  match ← getPhysAddr mm m.cpu m.ram addr .read with
  | (none, ram) => return (.fault, { m with ram := ram }.pend causeLoadPageFault addr)
  | (some paddr, ram) =>
      match getPhysMemRange (machMap mm) paddr.toNat with
      | none    => return (.unset, { m with ram := ram })
      | some pr => targetReadRange mm h { m with ram := ram } addr paddr sizeLog2 pr

/-- `target_read_u8` … `target_read_u64` over their slow path. `junk` is what the local `val` holds at first. -/
def targetReadVia (mm : MainMem) (slow : Mach σ → UInt32 → Nat → Except Fault (SlowRead × Mach σ))
    (junk : UInt32 → Nat) (m : Mach σ) (addr : UInt32) (sizeLog2 : Nat) : Except Fault (Option Nat × Mach σ) :=
  let e := m.cpu.tlbRead (tlbIdx addr)
  if e.vaddr = tlbTag addr sizeLog2 then do
    return (some (← hostLoad mm m.ram (e.ptr addr) (2 ^ sizeLog2)), m)
  else do
    match ← slow m addr sizeLog2 with
    | (.fault, m) => return (none, m)
    | (.unset, m) => return (some (junk addr % 2 ^ (8 * 2 ^ sizeLog2)), m)
    | (.val v, m) => return (some (v % 2 ^ (8 * 2 ^ sizeLog2)), m)

/-- Two aligned accesses of one size, put together. -/
def targetReadTwo (mm : MainMem) (h : MachHost σ) (junk : UInt32 → Nat) (m : Mach σ) (addr₀ addr₁ : UInt32)
    (sizeLog2 : Nat) (join : Nat → Nat → Nat) : Except Fault (SlowRead × Mach σ) := do
  match ← targetReadVia mm (targetReadAligned mm h) junk m addr₀ sizeLog2 with
  | (none, m) => return (.fault, m)
  | (some v₀, m) =>
      match ← targetReadVia mm (targetReadAligned mm h) junk m addr₁ sizeLog2 with
      | (none, m)    => return (.fault, m)
      | (some v₁, m) => return (.val (join v₀ v₁), m)

/-- `target_read_slow`. -/
def targetReadSlow (mm : MainMem) (h : MachHost σ) (junk : UInt32 → Nat) (m : Mach σ) (addr : UInt32)
    (sizeLog2 : Nat) : Except Fault (SlowRead × Mach σ) :=
  let al := addr &&& ((1 : UInt32) <<< UInt32.ofNat sizeLog2 - 1)
  if al ≠ 0 then
    match sizeLog2 with
    | 1 => targetReadTwo mm h junk m addr (addr + 1) 0 (fun v0 v1 => v0 ||| v1 <<< 8)
    | 2 => targetReadTwo mm h junk m (addr - al) (addr - al + 4) 2
        (fun v0 v1 => v0 >>> (al.toNat * 8) ||| v1 <<< (32 - al.toNat * 8) % 2 ^ 32)
    | 3 => targetReadTwo mm h junk m (addr - al) (addr - al + 8) 3
        (fun v0 v1 => v0 >>> (al.toNat * 8) ||| v1 <<< (64 - al.toNat * 8) % 2 ^ 64)
    | _ => .error .abort
  else targetReadAligned mm h m addr sizeLog2

/-- `target_read_u8` … `target_read_u64`. -/
def targetRead (mm : MainMem) (h : MachHost σ) (junk : UInt32 → Nat) (m : Mach σ) (addr : UInt32)
    (sizeLog2 : Nat) : Except Fault (Option Nat × Mach σ) :=
  targetReadVia mm (targetReadSlow mm h junk) junk m addr sizeLog2

/-! ## Stores -/

/-- `target_write_slow` on a range: the branches of `pr->is_ram`. -/
def targetWriteRange (mm : MainMem) (h : MachHost σ) (m : Mach σ) (addr paddr : UInt32) (val sizeLog2 : Nat)
    (pr : PhysMemoryRange) : Except Fault (Mach σ) :=
  match pr.kind with
  | .ram physMem => do
      let ptr := ramPtr physMem pr.addr paddr
      let m := m.fillWrite addr ptr
      if sizeLog2 ≤ 3 then return { m with ram := ← hostStore mm m.ram ptr (2 ^ sizeLog2) val }
      else .error .abort
  | .device dev devioFlags => do
      let offset := UInt32.ofNat (u32 ((paddr.toNat : Int) - pr.addr))
      if (devioFlags >>> UInt32.ofNat sizeLog2) &&& 1 ≠ 0 then m.devWrite h dev offset (UInt32.ofNat val)
      else if devioFlags &&& devioSize32 ≠ 0 ∧ sizeLog2 = 3 then
        let m ← m.devWrite h dev offset (UInt32.ofNat val)
        m.devWrite h dev (offset + 4) (UInt32.ofNat (val >>> 32))
      else return m

/-- `target_write_slow` from the translation of the address on. -/
def targetWriteAligned (mm : MainMem) (h : MachHost σ) (m : Mach σ) (addr : UInt32) (val sizeLog2 : Nat) :
    Except Fault (Bool × Mach σ) := do
  match ← getPhysAddr mm m.cpu m.ram addr .write with
  | (none, ram) => return (false, { m with ram := ram }.pend causeStorePageFault addr)
  | (some paddr, ram) =>
      match getPhysMemRange (machMap mm) paddr.toNat with
      | none    => return (true, { m with ram := ram })
      | some pr => return (true, ← targetWriteRange mm h { m with ram := ram } addr paddr val sizeLog2 pr)

/-- `target_write_u8` … `target_write_u64` over their slow path. -/
def targetWriteVia (mm : MainMem) (slow : Mach σ → UInt32 → Nat → Nat → Except Fault (Bool × Mach σ))
    (m : Mach σ) (addr : UInt32) (val sizeLog2 : Nat) : Except Fault (Bool × Mach σ) :=
  let e := m.cpu.tlbWrite (tlbIdx addr)
  if e.vaddr = tlbTag addr sizeLog2 then do
    return (true, { m with ram := ← hostStore mm m.ram (e.ptr addr) (2 ^ sizeLog2) val })
  else slow m addr val sizeLog2

/-- The loop of `target_write_slow` over the bytes of an unaligned access, from byte `i` on. -/
def targetWriteBytes (mm : MainMem) (h : MachHost σ) (addr : UInt32) (val : Nat) :
    (n i : Nat) → Mach σ → Except Fault (Bool × Mach σ)
  | 0,   _, m => .ok (true, m)
  | n+1, i, m => do
      match ← targetWriteVia mm (targetWriteAligned mm h) m (addr + UInt32.ofNat i) ((val >>> (8 * i)) &&& 0xff) 0 with
      | (false, m) => return (false, m)
      | (true, m)  => targetWriteBytes mm h addr val n (i + 1) m

/-- `target_write_slow`. -/
def targetWriteSlow (mm : MainMem) (h : MachHost σ) (m : Mach σ) (addr : UInt32) (val sizeLog2 : Nat) :
    Except Fault (Bool × Mach σ) :=
  if addr &&& ((1 : UInt32) <<< UInt32.ofNat sizeLog2 - 1) ≠ 0 then
    targetWriteBytes mm h addr val (2 ^ sizeLog2) 0 m
  else targetWriteAligned mm h m addr val sizeLog2

/-- `target_write_u8` … `target_write_u64`. -/
def targetWrite (mm : MainMem) (h : MachHost σ) (m : Mach σ) (addr : UInt32) (val sizeLog2 : Nat) :
    Except Fault (Bool × Mach σ) :=
  targetWriteVia mm (targetWriteSlow mm h) m addr val sizeLog2

/-! ## Instruction fetch -/

/-- `target_read_insn_slow`: the pointer to the instruction. -/
def targetReadInsnSlow (mm : MainMem) (m : Mach σ) (addr : UInt32) : Except Fault (Option Nat × Mach σ) := do
  match ← getPhysAddr mm m.cpu m.ram addr .code with
  | (none, ram) => return (none, { m with ram := ram }.pend causeFetchPageFault addr)
  | (some paddr, ram) =>
      match getPhysMemRange (machMap mm) paddr.toNat with
      | some ⟨base, _, .ram physMem⟩ =>
          let ptr := ramPtr physMem base paddr
          return (some ptr, { m with ram := ram }.fillCode addr ptr)
      | _ => return (none, { m with ram := ram }.pend causeFaultFetch addr)

/-- The pointer to the instruction at `addr`, from the TLB if it is there. -/
def targetInsnPtr (mm : MainMem) (m : Mach σ) (addr : UInt32) : Except Fault (Option Nat × Mach σ) :=
  let e := m.cpu.tlbCode (tlbIdx addr)
  if e.vaddr = pageOf addr then .ok (some (e.ptr addr), m) else targetReadInsnSlow mm m addr

/-- `target_read_insn_u16`. -/
def targetReadInsnU16 (mm : MainMem) (m : Mach σ) (addr : UInt32) : Except Fault (Option Nat × Mach σ) := do
  match ← targetInsnPtr mm m addr with
  | (none, m)     => return (none, m)
  | (some ptr, m) => return (some (← hostLoad mm m.ram ptr 2), m)

/-- `GET_PC()`. -/
def Code.pc (c : Code) : UInt32 := UInt32.ofNat (u32 ((c.codePtr : Int) + c.codeToPcAddend.toNat))

/-- The pointers of the fetch loop after a fetch at `addr`. -/
def codeAt (addr : UInt32) (ptr : Nat) : Code where
  codePtr := ptr
  codeEnd := ptr + u32 (4095 - 1 - (addr &&& 0xfff).toNat)
  codeToPcAddend := UInt32.ofNat (u32 ((addr.toNat : Int) - ptr))

/-- The start of an iteration of `riscv_cpu_interp`: the next instruction. -/
def fetchInsn (mm : MainMem) (m : Mach σ) : Except Fault (Option Nat × Mach σ) :=
  if m.code.codeEnd ≤ m.code.codePtr then do
    let addr := m.code.pc
    match ← targetInsnPtr mm m addr with
    | (none, m)     => return (none, m)
    | (some ptr, m) =>
        let m := { m with code := codeAt addr ptr }
        if m.code.codeEnd ≤ m.code.codePtr then
          -- the instruction may go on in the next page
          let insn ← hostLoad mm m.ram ptr 2
          if insn &&& 3 = 3 then
            match ← targetReadInsnU16 mm m (addr + 2) with
            | (none, m)          => return (none, m)
            | (some insnHigh, m) => return (some (insn ||| insnHigh <<< 16), m)
          else return (some insn, m)
        else return (some (← hostLoad mm m.ram ptr 4), m)
  else do
    return (some (← hostLoad mm m.ram m.code.codePtr 4), m)

end HadBadge
