import HadBadge.Emu.Mach

/-!
# `Emu.Csr`: the state of the CPU, its CSRs, exceptions and interrupts

The functions of `emu/riscv_cpu.c` that the interpreter calls besides the accesses of memory, as built for the
machine: `cur_xlen` 32 and `FLEN` 64. Messages are left out.

## Contents
- **State.** `RISCVCPUState`, over the fields that memory accesses go by.
- **CSRs.** `getMstatus`, `setMstatus`, `csrRead`, `csrWrite`. A result `none` is -1.
- **Traps.** `setPriv`, `raiseException2`, `handleSret`, `handleMret`, `raiseInterrupt`.
- **Seen from outside.** `riscvCpuSetMip`, `riscvCpuResetMip`, `riscvStateInit`.
-/

namespace HadBadge

open Lib

variable {σ : Type}

/-! ## State -/

/-- `RISCVCPUState`, with the machine around it. -/
structure RISCVCPUState (σ : Type) extends Mach σ where
  pc : UInt32
  reg : Fin 32 → UInt32
  fpReg : Fin 32 → UInt64
  fflags : UInt32
  frm : UInt32
  fs : UInt32
  mxl : UInt32
  insnCounter : UInt64
  powerDownFlag : Bool
  mtvec : UInt32
  mscratch : UInt32
  mepc : UInt32
  mcause : UInt32
  mtval : UInt32
  mhartid : UInt32
  misa : UInt32
  mie : UInt32
  mip : UInt32
  medeleg : UInt32
  mideleg : UInt32
  mcounteren : UInt32
  stvec : UInt32
  sscratch : UInt32
  sepc : UInt32
  scause : UInt32
  stval : UInt32
  scounteren : UInt32
  loadRes : UInt32

/-- Registers are numbered from 0. -/
instance registers_ne_zero : NeZero 32 := ⟨by decide⟩

/-- `s->reg[rd] = val`. -/
def RISCVCPUState.setReg (s : RISCVCPUState σ) (rd : Fin 32) (val : UInt32) : RISCVCPUState σ :=
  { s with reg := Function.update s.reg rd val }

/-- `if (rd != 0) s->reg[rd] = val`. -/
def RISCVCPUState.setRd (s : RISCVCPUState σ) (rd : Fin 32) (val : UInt32) : RISCVCPUState σ :=
  if rd ≠ 0 then s.setReg rd val else s

/-- `s->fp_reg[rd] = val`. -/
def RISCVCPUState.setFpReg (s : RISCVCPUState σ) (rd : Fin 32) (val : UInt64) : RISCVCPUState σ :=
  { s with fpReg := Function.update s.fpReg rd val }

/-- `s->pending_exception = cause`. -/
def RISCVCPUState.pending (s : RISCVCPUState σ) (cause : Int) : RISCVCPUState σ :=
  { s with cpu := { s.cpu with pendingException := cause } }

/-- `tlb_flush_all`; `tlb_flush_vaddr` does the same. -/
def RISCVCPUState.flushTlb (s : RISCVCPUState σ) : RISCVCPUState σ := { s with cpu := tlbFlushAll s.cpu }

/-! ## CSRs -/

def prvU : Nat := 0

def mstatusUie : UInt32 := (1 : UInt32) <<< 0
def mstatusSie : UInt32 := (1 : UInt32) <<< 1
def mstatusMie : UInt32 := (1 : UInt32) <<< 3
def mstatusUpie : UInt32 := (1 : UInt32) <<< 4
def mstatusSpie : UInt32 := (1 : UInt32) <<< 5
def mstatusMpie : UInt32 := (1 : UInt32) <<< 7
def mstatusSpp : UInt32 := (1 : UInt32) <<< 8
def mstatusMpp : UInt32 := (3 : UInt32) <<< mstatusMppShift
def mstatusFs : UInt32 := (3 : UInt32) <<< 13
def mstatusXs : UInt32 := (3 : UInt32) <<< 15

def sstatusMask : UInt32 :=
  mstatusUie ||| mstatusSie ||| mstatusUpie ||| mstatusSpie ||| mstatusSpp ||| mstatusFs ||| mstatusXs |||
    mstatusSum ||| mstatusMxr

def mstatusMask : UInt32 :=
  mstatusUie ||| mstatusSie ||| mstatusMie ||| mstatusUpie ||| mstatusSpie ||| mstatusMpie ||| mstatusSpp |||
    mstatusMpp ||| mstatusFs ||| mstatusMprv ||| mstatusSum ||| mstatusMxr

def counterenMask : UInt32 := (1 : UInt32) <<< 0 ||| (1 : UInt32) <<< 2

def mipSsip : UInt32 := (1 : UInt32) <<< 1
def mipMsip : UInt32 := (1 : UInt32) <<< 3
def mipStip : UInt32 := (1 : UInt32) <<< 5
def mipMtip : UInt32 := (1 : UInt32) <<< 7
def mipSeip : UInt32 := (1 : UInt32) <<< 9

/-- `get_mstatus`. -/
def getMstatus (s : RISCVCPUState σ) (mask : UInt32) : UInt32 :=
  let val := (s.cpu.mstatus ||| (s.fs <<< 13)) &&& mask
  if val &&& mstatusFs = mstatusFs ∨ val &&& mstatusXs = mstatusXs then val ||| (1 : UInt32) <<< 31 else val

/-- `set_mstatus`. -/
def setMstatus (s : RISCVCPUState σ) (val : UInt32) : RISCVCPUState σ :=
  let mod := s.cpu.mstatus ^^^ val
  let s' :=
    if mod &&& (mstatusMprv ||| mstatusSum ||| mstatusMxr) ≠ 0 ∨
        (s.cpu.mstatus &&& mstatusMprv ≠ 0 ∧ mod &&& mstatusMpp ≠ 0) then s.flushTlb
    else s
  let mask := mstatusMask &&& ~~~mstatusFs
  { s' with
    fs := (val >>> 13) &&& 3
    cpu := { s'.cpu with mstatus := (s'.cpu.mstatus &&& ~~~mask) ||| (val &&& mask) } }

/-- The test of `csr_read` on `mcounteren` or `scounteren`. -/
def counterEnabled (s : RISCVCPUState σ) (csr : UInt32) : Bool :=
  let counteren := if s.cpu.priv < prvS then s.scounteren else s.mcounteren
  prvM ≤ s.cpu.priv ∨ (counteren >>> (csr &&& 0x1f)) &&& 1 ≠ 0

/-- `csr_read`. -/
def csrRead (s : RISCVCPUState σ) (csr : UInt32) (willWrite : Bool) : Option UInt32 :=
  if csr &&& 0xc00 = 0xc00 ∧ willWrite = true then none
  else if s.cpu.priv < ((csr >>> 8) &&& 3).toNat then none
  else
    match csr.toNat with
    | 0x001 => if s.fs = 0 then none else some s.fflags
    | 0x002 => if s.fs = 0 then none else some s.frm
    | 0x003 => if s.fs = 0 then none else some (s.fflags ||| (s.frm <<< 5))
    | 0xc00 => if counterEnabled s csr then some s.insnCounter.toUInt32 else none
    | 0xc02 => if counterEnabled s csr then some s.insnCounter.toUInt32 else none
    | 0xc80 => if counterEnabled s csr then some (s.insnCounter >>> 32).toUInt32 else none
    | 0xc82 => if counterEnabled s csr then some (s.insnCounter >>> 32).toUInt32 else none
    | 0x100 => some (getMstatus s sstatusMask)
    | 0x104 => some (s.mie &&& s.mideleg)
    | 0x105 => some s.stvec
    | 0x106 => some s.scounteren
    | 0x140 => some s.sscratch
    | 0x141 => some s.sepc
    | 0x142 => some s.scause
    | 0x143 => some s.stval
    | 0x144 => some (s.mip &&& s.mideleg)
    | 0x180 => some s.cpu.satp
    | 0x300 => some (getMstatus s 0xffffffff)
    | 0x301 => some (s.misa ||| (s.mxl <<< 30))
    | 0x302 => some s.medeleg
    | 0x303 => some s.mideleg
    | 0x304 => some s.mie
    | 0x305 => some s.mtvec
    | 0x306 => some s.mcounteren
    | 0x340 => some s.mscratch
    | 0x341 => some s.mepc
    | 0x342 => some s.mcause
    | 0x343 => some s.mtval
    | 0x344 => some s.mip
    | 0xb00 => some s.insnCounter.toUInt32
    | 0xb02 => some s.insnCounter.toUInt32
    | 0xb80 => some (s.insnCounter >>> 32).toUInt32
    | 0xb82 => some (s.insnCounter >>> 32).toUInt32
    | 0xf14 => some s.mhartid
    | _ => none

/-- `set_frm`. -/
def setFrm (s : RISCVCPUState σ) (val : UInt32) : RISCVCPUState σ := { s with frm := if 5 ≤ val then 0 else val }

/-- `get_insn_rm`. -/
def getInsnRm (s : RISCVCPUState σ) (rm : UInt32) : Option UInt32 :=
  if rm = 7 then some s.frm else if 5 ≤ rm then none else some rm

/-- `(old & ~mask) | (val & mask)`. -/
def setMasked (old val mask : UInt32) : UInt32 := (old &&& ~~~mask) ||| (val &&& mask)

/-- `csr_write`: whether the TLBs have been flushed (2) or not (0), and the state. -/
def csrWrite (s : RISCVCPUState σ) (csr val : UInt32) : Option (Nat × RISCVCPUState σ) :=
  match csr.toNat with
  | 0x001 => some (0, { s with fflags := val &&& 0x1f, fs := 3 })
  | 0x002 => some (0, { setFrm s (val &&& 7) with fs := 3 })
  | 0x003 => some (0, { setFrm s ((val >>> 5) &&& 7) with fflags := val &&& 0x1f, fs := 3 })
  | 0x100 => some (0, setMstatus s ((s.cpu.mstatus &&& ~~~sstatusMask) ||| (val &&& sstatusMask)))
  | 0x104 => some (0, { s with mie := setMasked s.mie val s.mideleg })
  | 0x105 => some (0, { s with stvec := val &&& ~~~3 })
  | 0x106 => some (0, { s with scounteren := val &&& counterenMask })
  | 0x140 => some (0, { s with sscratch := val })
  | 0x141 => some (0, { s with sepc := val &&& ~~~1 })
  | 0x142 => some (0, { s with scause := val })
  | 0x143 => some (0, { s with stval := val })
  | 0x144 => some (0, { s with mip := setMasked s.mip val s.mideleg })
  | 0x180 =>
      let newMode := (val >>> 31) &&& 1
      let ppn : UInt32 := val &&& ((1 : UInt32) <<< 22 - 1)
      some (2, { s with cpu := tlbFlushAll { s.cpu with satp := ppn ||| (newMode <<< 31) } })
  | 0x300 => some (0, setMstatus s val)
  | 0x301 => some (0, s)
  | 0x302 => some (0, { s with medeleg := setMasked s.medeleg val ((1 : UInt32) <<< 16 - 1) })
  | 0x303 => some (0, { s with mideleg := setMasked s.mideleg val (mipSsip ||| mipStip ||| mipSeip) })
  | 0x304 =>
      some (0, { s with mie := setMasked s.mie val (mipMsip ||| mipMtip ||| mipSsip ||| mipStip ||| mipSeip) })
  | 0x305 => some (0, { s with mtvec := val &&& ~~~3 })
  | 0x306 => some (0, { s with mcounteren := val &&& counterenMask })
  | 0x340 => some (0, { s with mscratch := val })
  | 0x341 => some (0, { s with mepc := val &&& ~~~1 })
  | 0x342 => some (0, { s with mcause := val })
  | 0x343 => some (0, { s with mtval := val })
  | 0x344 => some (0, { s with mip := setMasked s.mip val (mipSsip ||| mipStip) })
  | _ => none

/-! ## Traps -/

def causeIllegalInstruction : Int := 0x2
def causeBreakpoint : Int := 0x3
def causeUserEcall : Int := 0x8
def causeInterrupt : UInt32 := (1 : UInt32) <<< 31

/-- `set_priv`. -/
def setPriv (s : RISCVCPUState σ) (priv : Nat) : RISCVCPUState σ :=
  if s.cpu.priv ≠ priv then { s with cpu := { tlbFlushAll s.cpu with priv := priv } } else s

/-- The assignments that `raise_exception2` makes to `mstatus`: the old interrupt enable goes to bit `pieShift`, the
    old privilege to the field `pp` at `ppShift`, and `ie` is cleared. -/
def trapMstatus (mstatus : UInt32) (priv : Nat) (pieShift ppShift pp ie : UInt32) : UInt32 :=
  let prv := UInt32.ofNat priv
  let mstatus := (mstatus &&& ~~~((1 : UInt32) <<< pieShift)) ||| (((mstatus >>> prv) &&& 1) <<< pieShift)
  let mstatus := (mstatus &&& ~~~pp) ||| (prv <<< ppShift)
  mstatus &&& ~~~ie

/-- `raise_exception2`. -/
def raiseException2 (s : RISCVCPUState σ) (cause tval : UInt32) : RISCVCPUState σ :=
  let deleg : Bool :=
    if s.cpu.priv ≤ prvS then
      if cause &&& causeInterrupt ≠ 0 then (s.mideleg >>> (cause &&& 31)) &&& 1 ≠ 0
      else (s.medeleg >>> cause) &&& 1 ≠ 0
    else false
  let causel := cause &&& 0x7fffffff
  let causel := if cause &&& causeInterrupt ≠ 0 then causel ||| (1 : UInt32) <<< 31 else causel
  if deleg then
    let mstatus := trapMstatus s.cpu.mstatus s.cpu.priv 5 8 mstatusSpp mstatusSie
    let s := { s with scause := causel, sepc := s.pc, stval := tval, cpu := { s.cpu with mstatus := mstatus } }
    let s := setPriv s prvS
    { s with pc := s.stvec }
  else
    let mstatus := trapMstatus s.cpu.mstatus s.cpu.priv 7 mstatusMppShift mstatusMpp mstatusMie
    let s := { s with mcause := causel, mepc := s.pc, mtval := tval, cpu := { s.cpu with mstatus := mstatus } }
    let s := setPriv s prvM
    { s with pc := s.mtvec }

/-- The assignments that `handle_sret` and `handle_mret` make to `mstatus`: the interrupt enable at bit `pp` is
    taken from bit `pieShift`, which is then set, and the field `ppMask` is cleared. -/
def retMstatus (mstatus pp pieShift ppMask : UInt32) : UInt32 :=
  let pie := (mstatus >>> pieShift) &&& 1
  let mstatus := (mstatus &&& ~~~((1 : UInt32) <<< pp)) ||| (pie <<< pp)
  (mstatus ||| (1 : UInt32) <<< pieShift) &&& ~~~ppMask

/-- `handle_sret`. -/
def handleSret (s : RISCVCPUState σ) : RISCVCPUState σ :=
  let spp := (s.cpu.mstatus >>> 8) &&& 1
  let s := { s with cpu := { s.cpu with mstatus := retMstatus s.cpu.mstatus spp 5 mstatusSpp } }
  let s := setPriv s spp.toNat
  { s with pc := s.sepc }

/-- `handle_mret`. -/
def handleMret (s : RISCVCPUState σ) : RISCVCPUState σ :=
  let mpp := (s.cpu.mstatus >>> mstatusMppShift) &&& 3
  let s := { s with cpu := { s.cpu with mstatus := retMstatus s.cpu.mstatus mpp 7 mstatusMpp } }
  let s := setPriv s mpp.toNat
  { s with pc := s.mepc }

/-- `get_pending_irq_mask`. -/
def getPendingIrqMask (s : RISCVCPUState σ) : UInt32 :=
  let pendingInts := s.mip &&& s.mie
  let enabledInts :=
    if s.cpu.priv = prvM then if s.cpu.mstatus &&& mstatusMie ≠ 0 then ~~~s.mideleg else 0
    else if s.cpu.priv = prvS then
      if s.cpu.mstatus &&& mstatusSie ≠ 0 then ~~~s.mideleg ||| s.mideleg else ~~~s.mideleg
    else 0xffffffff
  if pendingInts = 0 then 0 else pendingInts &&& enabledInts

/-- `ctz32`. -/
def ctz32 (a : UInt32) : Nat :=
  ((List.range 32).find? (fun i => (a >>> UInt32.ofNat i) &&& 1 ≠ 0)).getD 32

/-- `raise_interrupt`: the state with the interrupt taken, if one is. -/
def raiseInterrupt (s : RISCVCPUState σ) : Option (RISCVCPUState σ) :=
  let mask := getPendingIrqMask s
  if mask = 0 then none
  else some (raiseException2 s (UInt32.ofNat (ctz32 mask) ||| causeInterrupt) 0)

/-! ## Seen from outside -/

/-- `riscv_cpu_set_mip`. -/
def riscvCpuSetMip (s : RISCVCPUState σ) (mask : UInt32) : RISCVCPUState σ :=
  let s := { s with mip := s.mip ||| mask }
  if s.powerDownFlag = true ∧ s.mip &&& s.mie ≠ 0 then { s with powerDownFlag := false } else s

/-- `riscv_cpu_reset_mip`. -/
def riscvCpuResetMip (s : RISCVCPUState σ) (mask : UInt32) : RISCVCPUState σ := { s with mip := s.mip &&& ~~~mask }

/-- `MCPUID_x` for the extensions S, U, I, M, A, F, D and C. -/
def misaInit : UInt32 :=
  (1 : UInt32) <<< 18 ||| (1 : UInt32) <<< 20 ||| (1 : UInt32) <<< 8 ||| (1 : UInt32) <<< 12 |||
    (1 : UInt32) <<< 0 ||| (1 : UInt32) <<< 5 ||| (1 : UInt32) <<< 3 ||| (1 : UInt32) <<< 2

/-- The machine after `riscv_cpu_init`. -/
def riscvStateInit (ram : Ram) (host : σ) : RISCVCPUState σ where
  toMach := machInit ram host
  pc := 0x1000
  reg := fun _ => 0
  fpReg := fun _ => 0
  fflags := 0
  frm := 0
  fs := 0
  mxl := 1
  insnCounter := 0
  powerDownFlag := false
  mtvec := 0
  mscratch := 0
  mepc := 0
  mcause := 0
  mtval := 0
  mhartid := 0
  misa := misaInit
  mie := 0
  mip := 0
  medeleg := 0
  mideleg := 0
  mcounteren := 0
  stvec := 0
  sscratch := 0
  sepc := 0
  scause := 0
  stval := 0
  scounteren := 0
  loadRes := 0

end HadBadge
