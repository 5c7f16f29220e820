import HadBadge.Emu.Exec
import HadBadge.Lib.Post

/-!
# `Emu.Interp`: the interpreter loop

`riscv_cpu_interp_x` of `emu/riscv_cpu_template.h` and `riscv_cpu_interp` of `emu/riscv_cpu.c`. `cur_xlen` is 32
throughout. The loops take a bound on their iterations; a result `none` is a loop still running when it is used up.

## Contents
- **One iteration.** `interpFetch`, `interpIter`, `Iter`.
- **The loops.** `interpLoop`, `interpX`, `interpCalls`, `riscvCpuInterp`.
- **Runs.** `CpuReachable`: what the machine is in between calls.
-/

namespace HadBadge

open Lib

variable {σ : Type}

/-! ## One iteration -/

/-- An iteration goes on with another one, or has left the loop through `the_end`. -/
inductive Iter (σ : Type) where
  | again (nCycles : Int) (s : RISCVCPUState σ)
  | done (s : RISCVCPUState σ)

/-- `GET_INSN_COUNTER()`. -/
def getInsnCounter (insnCounterAddend : UInt64) (nCycles : Int) : UInt64 := insnCounterAddend - UInt64.ofInt nCycles

/-- `the_end`. -/
def theEnd (insnCounterAddend : UInt64) (nCycles : Int) (s : RISCVCPUState σ) : RISCVCPUState σ :=
  { s with insnCounter := getInsnCounter insnCounterAddend nCycles }

/-- `exception`, up to `done_interp`. -/
def takeException (s : RISCVCPUState σ) : RISCVCPUState σ :=
  let s := { s with pc := s.getPc }
  if 0 ≤ s.cpu.pendingException then
    raiseException2 s (UInt32.ofNat (u32 s.cpu.pendingException)) s.cpu.pendingTval
  else s

/-- `illegal_insn`, up to `exception`. -/
def illegalInsn (s : RISCVCPUState σ) (insn : UInt32) : RISCVCPUState σ :=
  { s with cpu := { s.cpu with pendingException := causeIllegalInstruction, pendingTval := insn } }

/-- The rest of an iteration after the `switch` has been left. -/
def afterExec (addend : UInt64) (nCycles : Int) (insn : UInt32) : Exit × RISCVCPUState σ → Iter σ
  | (.next, s)        => .again nCycles { s with code := s.code.next 4 }
  | (.cNext, s)       => .again nCycles { s with code := s.code.next 2 }
  | (.jump, s)        => .again nCycles { s with code := Code.jump s.pc }
  | (.illegalInsn, s) => .done (theEnd addend (nCycles - 1) (takeException (illegalInsn s insn)))
  | (.exception, s)   => .done (theEnd addend (nCycles - 1) (takeException s))
  | (.doneInterp, s)  => .done (theEnd addend (nCycles - 1) s)

/-- The fetch of an instruction, and what it does. -/
def interpFetch (env : InterpEnv σ) (addend : UInt64) (nCycles : Int) (s : RISCVCPUState σ) :
    Except Fault (Iter σ) := do
  match ← fetchInsn env.mm s.toMach with
  | (none, m)      => return .done (theEnd addend (nCycles - 1) (takeException { s with toMach := m }))
  | (some insn, m) =>
      let insn := UInt32.ofNat insn
      let r ← exec env { s with toMach := m } insn (getInsnCounter addend nCycles)
      return afterExec addend nCycles insn r

/-- The test for interrupts, with the trap if one is taken. -/
def checkInterrupts (s : RISCVCPUState σ) : Option (RISCVCPUState σ) :=
  if s.mip &&& s.mie ≠ 0 then raiseInterrupt s else none

/-- The body of the loop. -/
def interpIter (env : InterpEnv σ) (addend : UInt64) (nCycles : Int) (s : RISCVCPUState σ) : Except Fault (Iter σ) :=
  let nCycles := nCycles - 1
  if s.code.codeEnd ≤ s.code.codePtr then
    let s := { s with pc := s.getPc }
    if nCycles ≤ 0 then .ok (.done (theEnd addend nCycles s))
    else
      match checkInterrupts s with
      | some s => .ok (.done (theEnd addend nCycles s))
      | none   => interpFetch env addend nCycles s
  else interpFetch env addend nCycles s

/-! ## The loops -/

/-- `for(;;)`. -/
def interpLoop (env : InterpEnv σ) (addend : UInt64) :
    (fuel : Nat) → (nCycles : Int) → RISCVCPUState σ → Option (Except Fault (RISCVCPUState σ))
  | 0,      _,       _ => none
  | fuel+1, nCycles, s =>
      match interpIter env addend nCycles s with
      | .error e             => some (.error e)
      | .ok (.done s)        => some (.ok s)
      | .ok (.again nCycles s) => interpLoop env addend fuel nCycles s

/-- `riscv_cpu_interp_x`. -/
def interpX (env : InterpEnv σ) (fuel : Nat) (nCycles : Int) (s : RISCVCPUState σ) :
    Option (Except Fault (RISCVCPUState σ)) :=
  if nCycles = 0 then some (.ok s)
  else
    let addend := s.insnCounter + UInt64.ofInt nCycles
    match checkInterrupts s with
    | some s => some (.ok (theEnd addend (nCycles - 1) s))
    | none   => interpLoop env addend fuel (nCycles + 1) { s.pending (-1) with code := Code.jump s.pc }

/-- `(int)(timeout - s->insn_counter)`. -/
def cyclesLeft (timeout : UInt64) (s : RISCVCPUState σ) : Int := i32 (timeout - s.insnCounter).toNat

/-- The loop of `riscv_cpu_interp` over the calls of `riscv_cpu_interp_x32`. -/
def interpCalls (env : InterpEnv σ) (timeout : UInt64) :
    (fuel : Nat) → RISCVCPUState σ → Option (Except Fault (RISCVCPUState σ))
  | 0,      _ => none
  | fuel+1, s =>
      if s.powerDownFlag = false ∧ 0 < cyclesLeft timeout s then
        andThen (interpX env fuel (cyclesLeft timeout s) s) (fun s => interpCalls env timeout fuel s)
      else some (.ok s)

/-- `riscv_cpu_interp`. -/
def riscvCpuInterp (env : InterpEnv σ) (fuel : Nat) (s : RISCVCPUState σ) (nCycles : Int) :
    Option (Except Fault (RISCVCPUState σ)) :=
  interpCalls env (s.insnCounter + UInt64.ofInt nCycles) fuel s

/-! ## Runs -/

/-- The states between the calls of `riscv_cpu_interp_x32`, whatever the rest of the emulator does to memory, the
    devices, the host and the interrupt lines in the meantime. -/
inductive CpuReachable (env : InterpEnv σ) : RISCVCPUState σ → Prop where
  | init (ram : Ram) (host : σ) : CpuReachable env (riscvStateInit ram host)
  | call {s s' : RISCVCPUState σ} (fuel : Nat) (nCycles : Int) :
      CpuReachable env s → 0 < nCycles → nCycles < 2147483647 → interpX env fuel nCycles s = some (.ok s') →
      CpuReachable env s'
  | outside {s : RISCVCPUState σ} (ram : Ram) (periphs : Periphs σ) :
      CpuReachable env s → CpuReachable env { s with ram := ram, periphs := periphs }
  | setMip {s : RISCVCPUState σ} (mask : UInt32) : CpuReachable env s → CpuReachable env (riscvCpuSetMip s mask)
  | resetMip {s : RISCVCPUState σ} (mask : UInt32) : CpuReachable env s → CpuReachable env (riscvCpuResetMip s mask)

end HadBadge
