import HadBadge.Emu.Csr

/-!
# `Emu.Exec`: the instructions

The `switch` over the opcode in `riscv_cpu_interp_x` of `emu/riscv_cpu_template.h`, with `XLEN` 32, `FLEN` 64 and
the compressed instructions, one definition for each group of cases. The arithmetic of `emu/softfp.c` is a
parameter.

## Contents
- **Surroundings.** `SoftFp`, `InterpEnv`; `Exit`, how an instruction leaves the `switch`.
- **Fields.** `sext`, `getField1`, and the fields of an instruction.
- **Memory.** `loadInsn`, `storeInsn` and the variants for floating point registers.
- **Compressed instructions.** `execC0`, `execC1`, `execC2`.
- **Integer instructions.** `execBranch` … `execAmo`.
- **Floating point.** `execFma`, `execFp`.
- **The `switch`.** `exec`.
-/

namespace HadBadge

open Lib

variable {σ : Type}

/-! ## Surroundings -/

/-- The functions of `softfp.h` for one format. Those that take `&s->fflags` return it as well. -/
structure SoftFp (α : Type) where
  add : α → α → UInt32 → UInt32 → α × UInt32
  sub : α → α → UInt32 → UInt32 → α × UInt32
  mul : α → α → UInt32 → UInt32 → α × UInt32
  div : α → α → UInt32 → UInt32 → α × UInt32
  sqrt : α → UInt32 → UInt32 → α × UInt32
  fma : α → α → α → UInt32 → UInt32 → α × UInt32
  min : α → α → UInt32 → α × UInt32
  max : α → α → UInt32 → α × UInt32
  eqQuiet : α → α → UInt32 → UInt32 × UInt32
  le : α → α → UInt32 → UInt32 × UInt32
  lt : α → α → UInt32 → UInt32 × UInt32
  fclass : α → UInt32
  cvtI32 : α → UInt32 → UInt32 → UInt32 × UInt32
  cvtU32 : α → UInt32 → UInt32 → UInt32 × UInt32
  ofI32 : UInt32 → UInt32 → UInt32 → α × UInt32
  ofU32 : UInt32 → UInt32 → UInt32 → α × UInt32

/-- What the interpreter runs on. `junk` is what an uninitialised local holds in a state. -/
structure InterpEnv (σ : Type) where
  mm : MainMem
  host : MachHost σ
  junk : RISCVCPUState σ → UInt32 → Nat
  sf32 : SoftFp UInt32
  sf64 : SoftFp UInt64
  cvtSf32Sf64 : UInt32 → UInt32 → UInt64 × UInt32
  cvtSf64Sf32 : UInt64 → UInt32 → UInt32 → UInt32 × UInt32

/-- How an instruction leaves the `switch`: `NEXT_INSN`, `C_NEXT_INSN`, `JUMP_INSN`, or a `goto`. -/
inductive Exit where
  | next | cNext | jump | illegalInsn
  /-- `mmu_exception` and `exception` -/
  | exception
  | doneInterp
  deriving DecidableEq, Repr

/-- An instruction that has been executed. -/
abbrev Executed (σ : Type) := Except Fault (Exit × RISCVCPUState σ)

/-- `GET_PC()`. -/
def RISCVCPUState.getPc (s : RISCVCPUState σ) : UInt32 := s.code.pc

/-- `s->pc = pc; JUMP_INSN`. -/
def jumpInsn (s : RISCVCPUState σ) (pc : UInt32) : Exit × RISCVCPUState σ := (.jump, { s with pc := pc })

/-! ## Fields -/

/-- `x >> n` for a signed `x`. -/
def sar (x : UInt32) (n : Nat) : UInt32 := ⟨x.toBitVec.sshiftRight n⟩

/-- The value of a signed `x`. -/
def sval (x : UInt32) : Int := x.toBitVec.toInt

/-- `sext`. -/
def sext (val : UInt32) (n : Nat) : UInt32 := sar (val <<< UInt32.ofNat (32 - n)) (32 - n)

/-- `get_field1`. -/
def getField1 (val : UInt32) (srcPos dstPos dstPosMax : Nat) : UInt32 :=
  let mask : UInt32 := ((1 : UInt32) <<< UInt32.ofNat (dstPosMax - dstPos + 1) - 1) <<< UInt32.ofNat dstPos
  if srcPos ≤ dstPos then (val <<< UInt32.ofNat (dstPos - srcPos)) &&& mask
  else (val >>> UInt32.ofNat (srcPos - dstPos)) &&& mask

/-- `(insn >> pos) & mask`. -/
def bits (insn : UInt32) (pos : Nat) (mask : UInt32) : UInt32 := (insn >>> UInt32.ofNat pos) &&& mask

/-- `(insn >> pos) & 0x1f`, the number of a register. -/
def regAt (insn : UInt32) (pos : Nat) : Fin 32 := Fin.ofNat 32 (bits insn pos 0x1f).toNat

/-- `((insn >> pos) & 7) | 8`, the number of a register of a compressed instruction. -/
def cRegAt (insn : UInt32) (pos : Nat) : Fin 32 := Fin.ofNat 32 (bits insn pos 7 ||| 8).toNat

/-- `(insn >> 12) & 7`. -/
def funct3 (insn : UInt32) : UInt32 := bits insn 12 7

/-- The immediate of an instruction that stores. -/
def storeImm (insn : UInt32) : UInt32 := sext (bits insn 7 0x1f ||| bits insn 20 0xfe0) 12

/-- The immediate of `jal`. -/
def jalImm (insn : UInt32) : UInt32 :=
  sext (bits insn 11 0x100000 ||| bits insn 20 0x7fe ||| bits insn 9 0x800 ||| (insn &&& 0xff000)) 21

/-- The immediate of a branch. -/
def branchImm (insn : UInt32) : UInt32 :=
  sext (bits insn 19 0x1000 ||| bits insn 20 0x7e0 ||| bits insn 7 0x1e |||
    ((insn <<< (4 : UInt32)) &&& 0x800)) 13

/-- The six-bit immediate of a compressed instruction. -/
def cImm6 (insn : UInt32) : UInt32 := getField1 insn 12 5 5 ||| getField1 insn 2 0 4

/-- The offset of `c.lw`, `c.flw`, `c.sw` and `c.fsw`. -/
def cWordOffset (insn : UInt32) : UInt32 :=
  getField1 insn 10 3 5 ||| getField1 insn 6 2 2 ||| getField1 insn 5 6 6

/-- The offset of `c.fld` and `c.fsd`. -/
def cDoubleOffset (insn : UInt32) : UInt32 := getField1 insn 10 3 5 ||| getField1 insn 5 6 7

/-- The offset of `c.jal` and `c.j`. -/
def cJumpImm (insn : UInt32) : UInt32 :=
  sext (getField1 insn 12 11 11 ||| getField1 insn 11 4 4 ||| getField1 insn 9 8 9 ||| getField1 insn 8 10 10 |||
    getField1 insn 7 6 6 ||| getField1 insn 6 7 7 ||| getField1 insn 3 1 3 ||| getField1 insn 2 5 5) 12

/-- The offset of `c.beqz` and `c.bnez`. -/
def cBranchImm (insn : UInt32) : UInt32 :=
  sext (getField1 insn 12 8 8 ||| getField1 insn 10 3 4 ||| getField1 insn 5 6 7 ||| getField1 insn 3 1 2 |||
    getField1 insn 2 5 5) 9

/-! ## Memory -/

/-- A load; on an exception the instruction ends, else `next` goes on with the value. -/
def loadInsn (env : InterpEnv σ) (s : RISCVCPUState σ) (addr : UInt32) (sizeLog2 : Nat)
    (next : Nat → RISCVCPUState σ → Executed σ) : Except Fault (Exit × RISCVCPUState σ) := do
  match ← targetRead env.mm env.host (env.junk s) s.toMach addr sizeLog2 with
  | (none, m)   => return (.exception, { s with toMach := m })
  | (some v, m) => next v { s with toMach := m }

/-- A store of the low bytes of `val`; on an exception the instruction ends, else it leaves with `exit`. -/
def storeInsn (env : InterpEnv σ) (s : RISCVCPUState σ) (addr : UInt32) (val sizeLog2 : Nat)
    (next : RISCVCPUState σ → Exit × RISCVCPUState σ) : Except Fault (Exit × RISCVCPUState σ) := do
  match ← targetWrite env.mm env.host s.toMach addr (val % 2 ^ (8 * 2 ^ sizeLog2)) sizeLog2 with
  | (false, m) => return (.exception, { s with toMach := m })
  | (true, m)  => return next { s with toMach := m }

/-- `F32_HIGH` and `F64_HIGH`. -/
def fHigh (sizeLog2 : Nat) : UInt64 := if sizeLog2 = 2 then 0xffffffff00000000 else 0

/-- A load of a floating point register. -/
def fpLoadInsn (env : InterpEnv σ) (s : RISCVCPUState σ) (rd : Fin 32) (addr : UInt32) (sizeLog2 : Nat)
    (exit : Exit) : Executed σ :=
  if s.fs = 0 then .ok (.illegalInsn, s)
  else
    loadInsn env s addr sizeLog2 (fun v s =>
      .ok (exit, { s.setFpReg rd (UInt64.ofNat v ||| fHigh sizeLog2) with fs := 3 }))

/-- A store of a floating point register. -/
def fpStoreInsn (env : InterpEnv σ) (s : RISCVCPUState σ) (rs2 : Fin 32) (addr : UInt32) (sizeLog2 : Nat)
    (exit : Exit) : Executed σ :=
  if s.fs = 0 then .ok (.illegalInsn, s)
  else storeInsn env s addr (s.fpReg rs2).toNat sizeLog2 (fun s => (exit, s))

/-! ## Compressed instructions -/

/-- `C_QUADRANT(0)`. -/
def execC0 (env : InterpEnv σ) (s : RISCVCPUState σ) (insn : UInt32) : Executed σ :=
  let rd := cRegAt insn 2
  let rs1 := cRegAt insn 7
  match (bits insn 13 7).toNat with
  | 0 =>
      let imm := getField1 insn 11 4 5 ||| getField1 insn 7 6 9 ||| getField1 insn 6 2 2 ||| getField1 insn 5 3 3
      if imm = 0 then .ok (.illegalInsn, s) else .ok (.cNext, s.setReg rd (s.reg 2 + imm))
  | 1 => fpLoadInsn env s rd (s.reg rs1 + cDoubleOffset insn) 3 .cNext
  | 2 =>
      loadInsn env s (s.reg rs1 + cWordOffset insn) 2 (fun v s => .ok (.cNext, s.setReg rd (UInt32.ofNat v)))
  | 3 => fpLoadInsn env s rd (s.reg rs1 + cWordOffset insn) 2 .cNext
  | 5 => fpStoreInsn env s rd (s.reg rs1 + cDoubleOffset insn) 3 .cNext
  | 6 => storeInsn env s (s.reg rs1 + cWordOffset insn) (s.reg rd).toNat 2 (fun s => (.cNext, s))
  | 7 => fpStoreInsn env s rd (s.reg rs1 + cWordOffset insn) 2 .cNext
  | _ => .ok (.illegalInsn, s)

/-- `C_QUADRANT(1)`, `funct3` 4. -/
def execCArith (s : RISCVCPUState σ) (insn : UInt32) : Exit × RISCVCPUState σ :=
  let rd := cRegAt insn 7
  let rs2 := cRegAt insn 2
  let imm := cImm6 insn
  match (bits insn 10 3).toNat with
  | 0 => if imm &&& 0x20 ≠ 0 then (.illegalInsn, s) else (.cNext, s.setReg rd (s.reg rd >>> imm))
  | 1 => if imm &&& 0x20 ≠ 0 then (.illegalInsn, s) else (.cNext, s.setReg rd (sar (s.reg rd) imm.toNat))
  | 2 => (.cNext, s.setReg rd (s.reg rd &&& sext imm 6))
  | _ =>
      match (bits insn 5 3 ||| bits insn 10 4).toNat with
      | 0 => (.cNext, s.setReg rd (s.reg rd - s.reg rs2))
      | 1 => (.cNext, s.setReg rd (s.reg rd ^^^ s.reg rs2))
      | 2 => (.cNext, s.setReg rd (s.reg rd ||| s.reg rs2))
      | 3 => (.cNext, s.setReg rd (s.reg rd &&& s.reg rs2))
      | _ => (.illegalInsn, s)

/-- `C_QUADRANT(1)`. -/
def execC1 (s : RISCVCPUState σ) (insn : UInt32) : Exit × RISCVCPUState σ :=
  let rd := regAt insn 7
  let rs1 := cRegAt insn 7
  match (bits insn 13 7).toNat with
  | 0 => (.cNext, s.setRd rd (s.reg rd + sext (cImm6 insn) 6))
  | 1 => jumpInsn (s.setReg 1 (s.getPc + 2)) (s.getPc + cJumpImm insn)
  | 2 => (.cNext, s.setRd rd (sext (cImm6 insn) 6))
  | 3 =>
      if rd = 2 then
        let imm := sext (getField1 insn 12 9 9 ||| getField1 insn 6 4 4 ||| getField1 insn 5 6 6 |||
          getField1 insn 3 7 8 ||| getField1 insn 2 5 5) 10
        if imm = 0 then (.illegalInsn, s) else (.cNext, s.setReg 2 (s.reg 2 + imm))
      else (.cNext, s.setRd rd (sext (getField1 insn 12 17 17 ||| getField1 insn 2 12 16) 18))
  | 4 => execCArith s insn
  | 5 => jumpInsn s (s.getPc + cJumpImm insn)
  | 6 => if s.reg rs1 = 0 then jumpInsn s (s.getPc + cBranchImm insn) else (.cNext, s)
  | _ => if s.reg rs1 ≠ 0 then jumpInsn s (s.getPc + cBranchImm insn) else (.cNext, s)

/-- `C_QUADRANT(2)`, `funct3` 4: `c.jr`, `c.mv`, `c.ebreak`, `c.jalr` and `c.add`. -/
def execCJump (s : RISCVCPUState σ) (insn : UInt32) : Exit × RISCVCPUState σ :=
  let rd := regAt insn 7
  let rs2 := regAt insn 2
  if bits insn 12 1 = 0 then
    if rs2 = 0 then
      if rd = 0 then (.illegalInsn, s) else jumpInsn s (s.reg rd &&& ~~~1)
    else (.cNext, s.setRd rd (s.reg rs2))
  else if rs2 = 0 then
    if rd = 0 then (.exception, s.pending causeBreakpoint)
    else jumpInsn (s.setReg 1 (s.getPc + 2)) (s.reg rd &&& ~~~1)
  else (.cNext, s.setRd rd (s.reg rd + s.reg rs2))

/-- `C_QUADRANT(2)`. -/
def execC2 (env : InterpEnv σ) (s : RISCVCPUState σ) (insn : UInt32) : Executed σ :=
  let rd := regAt insn 7
  let rs2 := regAt insn 2
  let rs2' := bits insn 2 0x1f
  let wordOffset := getField1 insn 12 5 5 ||| (rs2' &&& 0x1c) ||| getField1 insn 2 6 7
  let storeOffset := getField1 insn 9 2 5 ||| getField1 insn 7 6 7
  match (bits insn 13 7).toNat with
  | 0 =>
      let imm := getField1 insn 12 5 5 ||| rs2'
      if imm &&& 0x20 ≠ 0 then .ok (.illegalInsn, s) else .ok (.cNext, s.setRd rd (s.reg rd <<< imm))
  | 1 =>
      let imm := getField1 insn 12 5 5 ||| (rs2' &&& 0x18) ||| getField1 insn 2 6 8
      fpLoadInsn env s rd (s.reg 2 + imm) 3 .cNext
  | 2 => loadInsn env s (s.reg 2 + wordOffset) 2 (fun v s => .ok (.cNext, s.setRd rd (UInt32.ofNat v)))
  | 3 => fpLoadInsn env s rd (s.reg 2 + wordOffset) 2 .cNext
  | 4 => .ok (execCJump s insn)
  | 5 => fpStoreInsn env s rs2 (s.reg 2 + (getField1 insn 10 3 5 ||| getField1 insn 7 6 8)) 3 .cNext
  | 6 => storeInsn env s (s.reg 2 + storeOffset) (s.reg rs2).toNat 2 (fun s => (.cNext, s))
  | _ => fpStoreInsn env s rs2 (s.reg 2 + storeOffset) 2 .cNext

/-! ## Integer instructions -/

/-- The condition of a branch, `none` for an illegal one. -/
def branchCond (f a b : UInt32) : Option Bool :=
  let negate : Bool := f &&& 1 ≠ 0
  match (f >>> 1).toNat with
  | 0 => some ((a = b) ^^ negate)
  | 2 => some ((sval a < sval b) ^^ negate)
  | 3 => some ((a < b) ^^ negate)
  | _ => none

/-- Opcode 0x63. -/
def execBranch (s : RISCVCPUState σ) (insn : UInt32) : Exit × RISCVCPUState σ :=
  match branchCond (funct3 insn) (s.reg (regAt insn 15)) (s.reg (regAt insn 20)) with
  | none      => (.illegalInsn, s)
  | some cond => if cond = true then jumpInsn s (s.getPc + branchImm insn) else (.next, s)

/-- Opcode 0x03. -/
def execLoad (env : InterpEnv σ) (s : RISCVCPUState σ) (insn : UInt32) : Executed σ :=
  let rd := regAt insn 7
  let addr := s.reg (regAt insn 15) + sar insn 20
  match (funct3 insn).toNat with
  | 0 => loadInsn env s addr 0 (fun v s => .ok (.next, s.setRd rd (sext (UInt32.ofNat v) 8)))
  | 1 => loadInsn env s addr 1 (fun v s => .ok (.next, s.setRd rd (sext (UInt32.ofNat v) 16)))
  | 2 => loadInsn env s addr 2 (fun v s => .ok (.next, s.setRd rd (UInt32.ofNat v)))
  | 4 => loadInsn env s addr 0 (fun v s => .ok (.next, s.setRd rd (UInt32.ofNat v)))
  | 5 => loadInsn env s addr 1 (fun v s => .ok (.next, s.setRd rd (UInt32.ofNat v)))
  | _ => .ok (.illegalInsn, s)

/-- Opcode 0x23. -/
def execStore (env : InterpEnv σ) (s : RISCVCPUState σ) (insn : UInt32) : Executed σ :=
  let addr := s.reg (regAt insn 15) + storeImm insn
  let val := (s.reg (regAt insn 20)).toNat
  if (funct3 insn).toNat ≤ 2 then storeInsn env s addr val (funct3 insn).toNat (fun s => (.next, s))
  else .ok (.illegalInsn, s)

/-- The instructions with an immediate, `none` for an illegal one. -/
def opImm (f : Nat) (a imm : UInt32) : Option UInt32 :=
  match f with
  | 0 => some (a + imm)
  | 1 => if imm &&& ~~~31 ≠ 0 then none else some (a <<< (imm &&& 31))
  | 2 => some (if sval a < sval imm then 1 else 0)
  | 3 => some (if a < imm then 1 else 0)
  | 4 => some (a ^^^ imm)
  | 5 =>
      if imm &&& ~~~(31 ||| 0x400) ≠ 0 then none
      else if imm &&& 0x400 ≠ 0 then some (sar a (imm &&& 31).toNat)
      else some (a >>> (imm &&& 31))
  | 6 => some (a ||| imm)
  | _ => some (a &&& imm)

/-- Opcode 0x13. -/
def execOpImm (s : RISCVCPUState σ) (insn : UInt32) : Exit × RISCVCPUState σ :=
  match opImm (funct3 insn).toNat (s.reg (regAt insn 15)) (sar insn 20) with
  | none     => (.illegalInsn, s)
  | some val => (.next, s.setRd (regAt insn 7) val)

/-- `div32`. -/
def div32 (a b : UInt32) : UInt32 :=
  if b = 0 then 0xffffffff else if a = 0x80000000 ∧ b = 0xffffffff then a
  else UInt32.ofInt ((sval a).tdiv (sval b))

/-- `divu32`. -/
def divu32 (a b : UInt32) : UInt32 := if b = 0 then 0xffffffff else a / b

/-- `rem32`. -/
def rem32 (a b : UInt32) : UInt32 :=
  if b = 0 then a else if a = 0x80000000 ∧ b = 0xffffffff then 0
  else UInt32.ofInt ((sval a).tmod (sval b))

/-- `remu32`. -/
def remu32 (a b : UInt32) : UInt32 := if b = 0 then a else a % b

/-- `mulh32`, `mulhsu32` and `mulhu32`: the upper half of the product, which is the same whether or not the 64 bits
    of it wrap. -/
def mulHigh (a b : Int) : UInt32 := UInt32.ofInt (a * b / 4294967296)

/-- The instructions of extension M. -/
def mulDiv (f : Nat) (a b : UInt32) : UInt32 :=
  match f with
  | 0 => a * b
  | 1 => mulHigh (sval a) (sval b)
  | 2 => mulHigh (sval a) b.toNat
  | 3 => mulHigh a.toNat b.toNat
  | 4 => div32 a b
  | 5 => divu32 a b
  | 6 => rem32 a b
  | _ => remu32 a b

/-- The instructions on two registers, `none` for an illegal one. -/
def op (insn a b : UInt32) : Option UInt32 :=
  let imm := insn >>> 25
  if imm = 1 then some (mulDiv (funct3 insn).toNat a b)
  else if imm &&& ~~~0x20 ≠ 0 then none
  else
    match (funct3 insn ||| bits insn 27 8).toNat with
    | 0  => some (a + b)
    | 8  => some (a - b)
    | 1  => some (a <<< (b &&& 31))
    | 2  => some (if sval a < sval b then 1 else 0)
    | 3  => some (if a < b then 1 else 0)
    | 4  => some (a ^^^ b)
    | 5  => some (a >>> (b &&& 31))
    | 13 => some (sar a (b &&& 31).toNat)
    | 6  => some (a ||| b)
    | 7  => some (a &&& b)
    | _  => none

/-- Opcode 0x33. -/
def execOp (s : RISCVCPUState σ) (insn : UInt32) : Exit × RISCVCPUState σ :=
  match op insn (s.reg (regAt insn 15)) (s.reg (regAt insn 20)) with
  | none     => (.illegalInsn, s)
  | some val => (.next, s.setRd (regAt insn 7) val)

/-- The end of `csrrw`, `csrrs` and `csrrc`: `val2` is what the CSR held, `err` what `csr_write` has returned. -/
def csrDone (rd : Fin 32) (val2 : UInt32) (err : Nat) (s : RISCVCPUState σ) : Exit × RISCVCPUState σ :=
  let s := s.setRd rd val2
  if err = 0 then (.next, s) else if err = 2 then jumpInsn s (s.getPc + 4) else (.doneInterp, { s with pc := s.getPc + 4 })

/-- `csrrw`, `csrrs` and `csrrc`, `counter` being `GET_INSN_COUNTER()`. -/
def execCsr (s : RISCVCPUState σ) (insn : UInt32) (counter : UInt64) : Exit × RISCVCPUState σ :=
  let csr := insn >>> 20
  let rd := regAt insn 7
  let rs1 := regAt insn 15
  let f := (funct3 insn &&& 3).toNat
  let val := if funct3 insn &&& 4 ≠ 0 then UInt32.ofNat rs1 else s.reg rs1
  let s := { s with insnCounter := counter }
  match csrRead s csr (f = 1 ∨ rs1 ≠ 0) with
  | none      => (.illegalInsn, s)
  | some val2 =>
      if f ≠ 1 ∧ rs1 = 0 then csrDone rd val2 0 s
      else
        let val := if f = 1 then val else if f = 2 then val2 ||| val else val2 &&& ~~~val
        match csrWrite s csr val with
        | none          => (.illegalInsn, s)
        | some (err, s) => csrDone rd val2 err s

/-- Opcode 0x73 with `funct3 & 3` 0: `ecall`, `ebreak`, `sret`, `mret`, `wfi` and `sfence.vma`. -/
def execPriv (s : RISCVCPUState σ) (insn : UInt32) : Exit × RISCVCPUState σ :=
  let imm := insn >>> 20
  match imm.toNat with
  | 0x000 =>
      if insn &&& 0x000fff80 ≠ 0 then (.illegalInsn, s) else (.exception, s.pending (causeUserEcall + s.cpu.priv))
  | 0x001 => if insn &&& 0x000fff80 ≠ 0 then (.illegalInsn, s) else (.exception, s.pending causeBreakpoint)
  | 0x102 =>
      if insn &&& 0x000fff80 ≠ 0 then (.illegalInsn, s)
      else if s.cpu.priv < prvS then (.illegalInsn, s)
      else (.doneInterp, handleSret { s with pc := s.getPc })
  | 0x302 =>
      if insn &&& 0x000fff80 ≠ 0 then (.illegalInsn, s)
      else if s.cpu.priv < prvM then (.illegalInsn, s)
      else (.doneInterp, handleMret { s with pc := s.getPc })
  | 0x105 =>
      if insn &&& 0x00007f80 ≠ 0 then (.illegalInsn, s)
      else if s.cpu.priv = prvU then (.illegalInsn, s)
      else if s.mip &&& s.mie = 0 then (.doneInterp, { s with powerDownFlag := true, pc := s.getPc + 4 })
      else (.next, s)
  | _ =>
      if imm >>> 5 = 0x09 then
        if insn &&& 0x00007f80 ≠ 0 then (.illegalInsn, s)
        else if s.cpu.priv = prvU then (.illegalInsn, s)
        else jumpInsn s.flushTlb (s.getPc + 4)
      else (.illegalInsn, s)

/-- Opcode 0x73. -/
def execSystem (s : RISCVCPUState σ) (insn : UInt32) (counter : UInt64) : Exit × RISCVCPUState σ :=
  if funct3 insn &&& 3 = 0 then execPriv s insn else execCsr s insn counter

/-- Opcode 0x0f. -/
def execMiscMem (s : RISCVCPUState σ) (insn : UInt32) : Exit × RISCVCPUState σ :=
  match (funct3 insn).toNat with
  | 0 => if insn &&& 0xf00fff80 ≠ 0 then (.illegalInsn, s) else (.next, s)
  | 1 => if insn ≠ 0x0000100f then (.illegalInsn, s) else (.next, s)
  | _ => (.illegalInsn, s)

/-- The value that an atomic operation stores. -/
def amoVal (f : Nat) (val val2 : UInt32) : Option UInt32 :=
  match f with
  | 0x01 => some val2
  | 0x00 => some (val + val2)
  | 0x04 => some (val ^^^ val2)
  | 0x0c => some (val &&& val2)
  | 0x08 => some (val ||| val2)
  | 0x10 => some (if sval val < sval val2 then val else val2)
  | 0x14 => some (if sval val2 < sval val then val else val2)
  | 0x18 => some (if val < val2 then val else val2)
  | 0x1c => some (if val2 < val then val else val2)
  | _    => none

/-- Opcode 0x2f, `OP_A(32)`. -/
def execAmo (env : InterpEnv σ) (s : RISCVCPUState σ) (insn : UInt32) : Executed σ :=
  let rd := regAt insn 7
  let rs2 := regAt insn 20
  let addr := s.reg (regAt insn 15)
  let f := (insn >>> 27).toNat
  if funct3 insn ≠ 2 then .ok (.illegalInsn, s)
  else if f = 2 then
    if rs2 ≠ 0 then .ok (.illegalInsn, s)
    else loadInsn env s addr 2 (fun v s => .ok (.next, { s with loadRes := addr }.setRd rd (UInt32.ofNat v)))
  else if f = 3 then
    if s.loadRes = addr then storeInsn env s addr (s.reg rs2).toNat 2 (fun s => (.next, s.setRd rd 0))
    else .ok (.next, s.setRd rd 1)
  else if (amoVal f 0 0).isNone then .ok (.illegalInsn, s)
  else
    loadInsn env s addr 2 (fun v s =>
      match amoVal f (UInt32.ofNat v) (s.reg rs2) with
      | none      => .ok (.illegalInsn, s)
      | some val2 => storeInsn env s addr val2.toNat 2 (fun s => (.next, s.setRd rd (UInt32.ofNat v))))

/-! ## Floating point -/

/-- What `riscv_cpu_fp_template.h` is included with. -/
structure FSize (α : Type) where
  lib : SoftFp α
  ofReg : UInt64 → α
  /-- the value with `F_HIGH` -/
  toReg : α → UInt64
  fsignMask : UInt64
  /-- the format that `fcvt` converts from: its number, and the conversion -/
  cvtFrom : Fin 32
  cvt : UInt64 → UInt32 → UInt32 → UInt64 × UInt32
  /-- `F_SIZE <= XLEN` -/
  moves : Bool

/-- `F_SIZE` 32. `FSIGN_MASK32` is an `int`, and extended by its sign where it meets a register. -/
def fSize32 (env : InterpEnv σ) : FSize UInt32 where
  lib := env.sf32
  ofReg := UInt64.toUInt32
  toReg := fun x => x.toUInt64 ||| fHigh 2
  fsignMask := 0xffffffff80000000
  cvtFrom := 1
  cvt := fun a rm fl => let (x, fl) := env.cvtSf64Sf32 a rm fl; (x.toUInt64 ||| fHigh 2, fl)
  moves := true

/-- `F_SIZE` 64. -/
def fSize64 (env : InterpEnv σ) : FSize UInt64 where
  lib := env.sf64
  ofReg := id
  toReg := id
  fsignMask := (1 : UInt64) <<< 63
  cvtFrom := 0
  cvt := fun a _ fl => env.cvtSf32Sf64 a.toUInt32 fl
  moves := false

/-- A result for a floating point register. -/
def fpDone (s : RISCVCPUState σ) (rd : Fin 32) (r : UInt64 × UInt32) : Exit × RISCVCPUState σ :=
  (.next, { s.setFpReg rd r.1 with fflags := r.2, fs := 3 })

/-- A result for an integer register. -/
def fpDoneInt (s : RISCVCPUState σ) (rd : Fin 32) (r : UInt32 × UInt32) : Exit × RISCVCPUState σ :=
  (.next, { s.setRd rd r.1 with fflags := r.2 })

/-- An operation that needs a rounding mode. -/
def withRm (s : RISCVCPUState σ) (rm : UInt32) (f : UInt32 → Exit × RISCVCPUState σ) : Exit × RISCVCPUState σ :=
  match getInsnRm s rm with
  | none    => (.illegalInsn, s)
  | some rm => f rm

/-- `riscv_cpu_fp_template.h`. -/
def fpTemplate {α : Type} (F : FSize α) (s : RISCVCPUState σ) (insn : UInt32) : Exit × RISCVCPUState σ :=
  let rd := regAt insn 7
  let rs2 := regAt insn 20
  let rm := funct3 insn
  let a := s.fpReg (regAt insn 15)
  let b := s.fpReg rs2
  let x := s.reg (regAt insn 15)
  let reg (r : α × UInt32) : UInt64 × UInt32 := (F.toReg r.1, r.2)
  match (insn >>> 27).toNat with
  | 0x00 => withRm s rm (fun rm => fpDone s rd (reg (F.lib.add (F.ofReg a) (F.ofReg b) rm s.fflags)))
  | 0x01 => withRm s rm (fun rm => fpDone s rd (reg (F.lib.sub (F.ofReg a) (F.ofReg b) rm s.fflags)))
  | 0x02 => withRm s rm (fun rm => fpDone s rd (reg (F.lib.mul (F.ofReg a) (F.ofReg b) rm s.fflags)))
  | 0x03 => withRm s rm (fun rm => fpDone s rd (reg (F.lib.div (F.ofReg a) (F.ofReg b) rm s.fflags)))
  | 0x0b =>
      withRm s rm (fun rm =>
        if rs2 ≠ 0 then (.illegalInsn, s) else fpDone s rd (reg (F.lib.sqrt (F.ofReg a) rm s.fflags)))
  | 0x04 =>
      match rm.toNat with
      | 0 => fpDone s rd ((a &&& ~~~F.fsignMask) ||| (b &&& F.fsignMask), s.fflags)
      | 1 => fpDone s rd ((a &&& ~~~F.fsignMask) ||| ((b &&& F.fsignMask) ^^^ F.fsignMask), s.fflags)
      | 2 => fpDone s rd (a ^^^ (b &&& F.fsignMask), s.fflags)
      | _ => (.illegalInsn, s)
  | 0x05 =>
      match rm.toNat with
      | 0 => fpDone s rd (reg (F.lib.min (F.ofReg a) (F.ofReg b) s.fflags))
      | 1 => fpDone s rd (reg (F.lib.max (F.ofReg a) (F.ofReg b) s.fflags))
      | _ => (.illegalInsn, s)
  | 0x18 =>
      withRm s rm (fun rm =>
        match rs2 with
        | 0 => fpDoneInt s rd (F.lib.cvtI32 (F.ofReg a) rm s.fflags)
        | 1 => fpDoneInt s rd (F.lib.cvtU32 (F.ofReg a) rm s.fflags)
        | _ => (.illegalInsn, s))
  | 0x14 =>
      match rm.toNat with
      | 0 => fpDoneInt s rd (F.lib.le (F.ofReg a) (F.ofReg b) s.fflags)
      | 1 => fpDoneInt s rd (F.lib.lt (F.ofReg a) (F.ofReg b) s.fflags)
      | 2 => fpDoneInt s rd (F.lib.eqQuiet (F.ofReg a) (F.ofReg b) s.fflags)
      | _ => (.illegalInsn, s)
  | 0x1a =>
      withRm s rm (fun rm =>
        match rs2 with
        | 0 => fpDone s rd (reg (F.lib.ofI32 x rm s.fflags))
        | 1 => fpDone s rd (reg (F.lib.ofU32 x rm s.fflags))
        | _ => (.illegalInsn, s))
  | 0x08 =>
      withRm s rm (fun rm => if rs2 = F.cvtFrom then fpDone s rd (F.cvt a rm s.fflags) else (.illegalInsn, s))
  | 0x1c =>
      if rs2 ≠ 0 then (.illegalInsn, s)
      else if rm = 0 ∧ F.moves = true then fpDoneInt s rd (a.toUInt32, s.fflags)
      else if rm = 1 then fpDoneInt s rd (F.lib.fclass (F.ofReg a), s.fflags)
      else (.illegalInsn, s)
  | 0x1e =>
      if F.moves = true ∧ rs2 = 0 ∧ rm = 0 then fpDone s rd (UInt64.ofInt (sval x), s.fflags)
      else (.illegalInsn, s)
  | _ => (.illegalInsn, s)

/-- Opcode 0x53. -/
def execFp (env : InterpEnv σ) (s : RISCVCPUState σ) (insn : UInt32) : Exit × RISCVCPUState σ :=
  if s.fs = 0 then (.illegalInsn, s)
  else
    match (bits insn 25 3).toNat with
    | 0 => fpTemplate (fSize32 env) s insn
    | 1 => fpTemplate (fSize64 env) s insn
    | _ => (.illegalInsn, s)

/-- A fused multiplication of one format, with the signs of the product's first factor and of the summand changed
    or not. -/
def fmaTemplate {α : Type} (F : FSize α) (s : RISCVCPUState σ) (insn rm : UInt32) (neg1 neg3 : Bool) :
    Exit × RISCVCPUState σ :=
  let signed (neg : Bool) (x : UInt64) := F.ofReg (if neg = true then x ^^^ F.fsignMask else x)
  let a := signed neg1 (s.fpReg (regAt insn 15))
  let c := signed neg3 (s.fpReg (regAt insn 27))
  let r := F.lib.fma a (F.ofReg (s.fpReg (regAt insn 20))) c rm s.fflags
  fpDone s (regAt insn 7) (F.toReg r.1, r.2)

/-- `fmadd`, `fmsub`, `fnmsub` and `fnmadd`. -/
def execFma (env : InterpEnv σ) (s : RISCVCPUState σ) (insn : UInt32) (neg1 neg3 : Bool) : Exit × RISCVCPUState σ :=
  if s.fs = 0 then (.illegalInsn, s)
  else
    withRm s (funct3 insn) (fun rm =>
      match (bits insn 25 3).toNat with
      | 0 => fmaTemplate (fSize32 env) s insn rm neg1 neg3
      | 1 => fmaTemplate (fSize64 env) s insn rm neg1 neg3
      | _ => (.illegalInsn, s))

/-- Opcode 0x07. -/
def execFpLoad (env : InterpEnv σ) (s : RISCVCPUState σ) (insn : UInt32) : Executed σ :=
  let addr := s.reg (regAt insn 15) + sar insn 20
  match (funct3 insn).toNat with
  | 2 => fpLoadInsn env s (regAt insn 7) addr 2 .next
  | 3 => fpLoadInsn env s (regAt insn 7) addr 3 .next
  | _ => .ok (.illegalInsn, s)

/-- Opcode 0x27. -/
def execFpStore (env : InterpEnv σ) (s : RISCVCPUState σ) (insn : UInt32) : Executed σ :=
  let addr := s.reg (regAt insn 15) + storeImm insn
  match (funct3 insn).toNat with
  | 2 => fpStoreInsn env s (regAt insn 20) addr 2 .next
  | 3 => fpStoreInsn env s (regAt insn 20) addr 3 .next
  | _ => .ok (.illegalInsn, s)

/-! ## The `switch` -/

/-- The instructions of 32 bits. -/
def exec32 (env : InterpEnv σ) (s : RISCVCPUState σ) (insn : UInt32) (counter : UInt64) : Executed σ :=
  let rd := regAt insn 7
  match (insn &&& 0x7f).toNat with
  | 0x37 => .ok (.next, s.setRd rd (insn &&& 0xfffff000))
  | 0x17 => .ok (.next, s.setRd rd (s.getPc + (insn &&& 0xfffff000)))
  | 0x6f => .ok (jumpInsn (s.setRd rd (s.getPc + 4)) (s.getPc + jalImm insn))
  | 0x67 =>
      .ok (jumpInsn (s.setRd rd (s.getPc + 4)) ((s.reg (regAt insn 15) + sar insn 20) &&& ~~~1))
  | 0x63 => .ok (execBranch s insn)
  | 0x03 => execLoad env s insn
  | 0x23 => execStore env s insn
  | 0x13 => .ok (execOpImm s insn)
  | 0x33 => .ok (execOp s insn)
  | 0x73 => .ok (execSystem s insn counter)
  | 0x0f => .ok (execMiscMem s insn)
  | 0x2f => execAmo env s insn
  | 0x07 => execFpLoad env s insn
  | 0x27 => execFpStore env s insn
  | 0x43 => .ok (execFma env s insn false false)
  | 0x47 => .ok (execFma env s insn false true)
  | 0x4b => .ok (execFma env s insn true false)
  | 0x4f => .ok (execFma env s insn true true)
  | 0x53 => .ok (execFp env s insn)
  | _    => .ok (.illegalInsn, s)

/-- `switch(opcode)`, `counter` being `GET_INSN_COUNTER()`. -/
def exec (env : InterpEnv σ) (s : RISCVCPUState σ) (insn : UInt32) (counter : UInt64) : Executed σ :=
  match (insn &&& 3).toNat with
  | 0 => execC0 env s insn
  | 1 => .ok (execC1 s insn)
  | 2 => execC2 env s insn
  | _ => exec32 env s insn counter

end HadBadge
