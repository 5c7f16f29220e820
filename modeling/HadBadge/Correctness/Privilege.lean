import HadBadge.Correctness.Slice
import HadBadge.Emu.CpuSteps
import HadBadge.Lib.Masks
import Mathlib.Tactic.IntervalCases

/-!
# `Correctness.Privilege`: what a privilege level can do

The control registers hold legal values in every state. And code of a lower privilege has no way to the registers of a
higher one but through a trap, which goes on at a vector that the higher one has set.

## Contents
- **Legal values.** `LegalControl`, `Legal`, and `CpuSteps.legal` for runs.
- **Isolation.** `UserKept` and `MachineKept`, what code in user mode and below machine mode leaves as it is;
  `user_confined` and `machine_isolated`.
-/

namespace HadBadge

open Lib Relation

variable {σ : Type} {env : InterpEnv σ} {s s' s₁ t : RISCVCPUState σ}

/-! ## Legal values -/

/-- The bits of `mstatus` that the CPU has, but for `fs`, which is a field of its own. Bit 2, `MSTATUS_HIE`, is not in
    `MSTATUS_MASK`: `mret` sets it when `MPP` is 2 and `MPIE` is 1. -/
def mstatusLegal : UInt32 := (mstatusMask &&& ~~~mstatusFs) ||| (1 : UInt32) <<< 2

/-- The interrupts that the CPU has. -/
def mieLegal : UInt32 := mipMsip ||| mipMtip ||| mipSsip ||| mipStip ||| mipSeip

/-- **The control registers hold legal values.** -/
structure LegalControl (c : Control) : Prop where
  priv : c.priv ≤ prvM
  mstatus : c.mstatus &&& ~~~mstatusLegal = 0
  satp : c.satp &&& 0x7fc00000 = 0
  frm : c.frm < 5
  mxl : c.mxl = 1
  mtvec : c.mtvec &&& 3 = 0
  mhartid : c.mhartid = 0
  misa : c.misa = misaInit
  mie : c.mie &&& ~~~mieLegal = 0
  medeleg : c.medeleg &&& 0xffff0000 = 0
  mideleg : c.mideleg &&& ~~~(mipSsip ||| mipStip ||| mipSeip) = 0
  mcounteren : c.mcounteren &&& ~~~counterenMask = 0
  stvec : c.stvec &&& 3 = 0
  scounteren : c.scounteren &&& ~~~counterenMask = 0

/-- The registers hold legal values: register 0 is 0, too. -/
structure Legal (s : RISCVCPUState σ) : Prop where
  zero : s.reg 0 = 0
  fs : s.fs ≤ 3
  control : LegalControl s.control

theorem legal_init (ram : Ram) (host : σ) : Legal (riscvStateInit ram host) where
  zero := rfl
  fs := by show (0 : UInt32) ≤ 3; decide
  control :=
    { priv := le_refl _
      mstatus := UInt32.zero_and
      satp := UInt32.zero_and
      frm := by show (0 : UInt32) < 5; decide
      mxl := rfl
      mtvec := UInt32.zero_and
      mhartid := rfl
      misa := rfl
      mie := UInt32.zero_and
      medeleg := UInt32.zero_and
      mideleg := UInt32.zero_and
      mcounteren := UInt32.zero_and
      stvec := UInt32.zero_and
      scounteren := UInt32.zero_and }

theorem Plain.legal (hp : Plain env s s') (hs : Legal s) : Legal s' where
  zero := hp.zero.trans hs.zero
  fs := by
    rcases hp.fs with h | ⟨-, h⟩
    · exact h ▸ hs.fs
    · rw [h]
      decide
  control := hp.control ▸ hs.control

/-! ### `mstatus` -/

theorem setMasked_keeps (old val : UInt32) {mask m : UInt32} (h : mask &&& m = 0) : setMasked old val mask &&& m = old &&& m :=
  keep_insert old h (and_disjoint val h)

theorem setMstatus_control (s : RISCVCPUState σ) (val : UInt32) :
    (setMstatus s val).control = { s.control with mstatus := setMasked s.cpu.mstatus val (mstatusMask &&& ~~~mstatusFs) } := by
  unfold setMstatus
  dsimp only
  split <;> rfl

/-- A trap changes the fields of `mstatus` that it is for. -/
theorem trapMstatus_keeps (mstatus : UInt32) (priv : Nat) {pieShift ppShift pp ie m : UInt32}
    (hpie : (1 : UInt32) <<< pieShift &&& m = 0) (hpp : pp &&& m = 0) (hprv : UInt32.ofNat priv <<< ppShift &&& m = 0)
    (hie : ie &&& m = 0) : trapMstatus mstatus priv pieShift ppShift pp ie &&& m = mstatus &&& m := by
  unfold trapMstatus
  dsimp only
  rw [keep_clear _ hie, keep_insert _ hpp hprv, keep_insert _ hpie (bit_disjoint _ hpie)]

/-- A return from a trap changes the fields of `mstatus` that it is for. -/
theorem retMstatus_keeps (mstatus : UInt32) {pp pieShift ppMask m : UInt32} (hpp : (1 : UInt32) <<< pp &&& m = 0)
    (hpie : (1 : UInt32) <<< pieShift &&& m = 0) (hmask : ppMask &&& m = 0) :
    retMstatus mstatus pp pieShift ppMask &&& m = mstatus &&& m := by
  unfold retMstatus
  dsimp only
  rw [keep_clear _ hmask, keep_or _ hpie, keep_insert _ hpp (bit_disjoint _ hpp)]

/-! ### Traps and returns -/

/-- The registers that are no control registers. -/
structure SameData (s s' : RISCVCPUState σ) : Prop where
  reg : s'.reg = s.reg
  fs : s'.fs = s.fs
  fpReg : s'.fpReg = s.fpReg
  fflags : s'.fflags = s.fflags

/-- The end of a trap or a return: the privilege is changed, and execution goes on at `pc`. -/
theorem setPriv_spec (s : RISCVCPUState σ) (priv : Nat) (pc : UInt32) :
    SameData s { setPriv s priv with pc := pc } ∧
      ({ setPriv s priv with pc := pc } : RISCVCPUState σ).control = { s.control with priv := priv } := by
  unfold setPriv
  split
  · exact ⟨⟨rfl, rfl, rfl, rfl⟩, rfl⟩
  · next h =>
    rw [not_not] at h
    subst h
    exact ⟨⟨rfl, rfl, rfl, rfl⟩, rfl⟩

/-- A trap goes to supervisor mode. -/
def delegated (s : RISCVCPUState σ) (cause : UInt32) : Bool :=
  if s.cpu.priv ≤ prvS then
    if cause &&& causeInterrupt ≠ 0 then (s.mideleg >>> (cause &&& 31)) &&& 1 ≠ 0
    else (s.medeleg >>> cause) &&& 1 ≠ 0
  else false

/-- The cause as it is put into `scause` or `mcause`. -/
def trapCause (cause : UInt32) : UInt32 :=
  let causel := cause &&& 0x7fffffff
  if cause &&& causeInterrupt ≠ 0 then causel ||| (1 : UInt32) <<< 31 else causel

/-- The control registers after a trap to supervisor mode. -/
def trappedToS (s : RISCVCPUState σ) (cause tval : UInt32) : Control :=
  { s.control with
    priv := prvS, mstatus := trapMstatus s.cpu.mstatus s.cpu.priv 5 8 mstatusSpp mstatusSie
    scause := trapCause cause, sepc := s.pc, stval := tval }

/-- The control registers after a trap to machine mode. -/
def trappedToM (s : RISCVCPUState σ) (cause tval : UInt32) : Control :=
  { s.control with
    priv := prvM, mstatus := trapMstatus s.cpu.mstatus s.cpu.priv 7 mstatusMppShift mstatusMpp mstatusMie
    mcause := trapCause cause, mepc := s.pc, mtval := tval }

/-- A trap to supervisor mode, before the change of privilege. -/
def toS (s : RISCVCPUState σ) (cause tval : UInt32) : RISCVCPUState σ :=
  { s with
    scause := trapCause cause, sepc := s.pc, stval := tval
    cpu := { s.cpu with mstatus := trapMstatus s.cpu.mstatus s.cpu.priv 5 8 mstatusSpp mstatusSie } }

/-- A trap to machine mode, before the change of privilege. -/
def toM (s : RISCVCPUState σ) (cause tval : UInt32) : RISCVCPUState σ :=
  { s with
    mcause := trapCause cause, mepc := s.pc, mtval := tval
    cpu := { s.cpu with mstatus := trapMstatus s.cpu.mstatus s.cpu.priv 7 mstatusMppShift mstatusMpp mstatusMie } }

theorem raiseException2_eq (s : RISCVCPUState σ) (cause tval : UInt32) : raiseException2 s cause tval =
    if delegated s cause = true then { setPriv (toS s cause tval) prvS with pc := (setPriv (toS s cause tval) prvS).stvec }
    else { setPriv (toM s cause tval) prvM with pc := (setPriv (toM s cause tval) prvM).mtvec } := rfl

/-- **A trap** goes to the vector of machine mode, or, if it is delegated, to the one of supervisor mode. -/
theorem raiseException2_spec (s : RISCVCPUState σ) (cause tval : UInt32) :
    SameData s (raiseException2 s cause tval) ∧
      (raiseException2 s cause tval).control =
        (if delegated s cause = true then trappedToS s cause tval else trappedToM s cause tval) ∧
      (raiseException2 s cause tval).pc = (if delegated s cause = true then s.stvec else s.mtvec) := by
  have hvec (u : RISCVCPUState σ) (priv : Nat) : (setPriv u priv).stvec = u.stvec ∧ (setPriv u priv).mtvec = u.mtvec := by
    unfold setPriv
    split <;> exact ⟨rfl, rfl⟩
  rw [raiseException2_eq]
  by_cases hdeleg : delegated s cause = true
  · rw [if_pos hdeleg, if_pos hdeleg, if_pos hdeleg]
    obtain ⟨hdata, hctl⟩ := setPriv_spec (toS s cause tval) prvS (setPriv (toS s cause tval) prvS).stvec
    exact ⟨⟨hdata.reg, hdata.fs, hdata.fpReg, hdata.fflags⟩, hctl, (hvec _ _).1⟩
  · rw [if_neg hdeleg, if_neg hdeleg, if_neg hdeleg]
    obtain ⟨hdata, hctl⟩ := setPriv_spec (toM s cause tval) prvM (setPriv (toM s cause tval) prvM).mtvec
    exact ⟨⟨hdata.reg, hdata.fs, hdata.fpReg, hdata.fflags⟩, hctl, (hvec _ _).2⟩

/-- Only traps from below machine mode are delegated. -/
theorem delegated_priv {cause : UInt32} (h : delegated s cause = true) : s.cpu.priv ≤ prvS := by
  unfold delegated at h
  split at h
  · next hpriv => exact hpriv
  · cases h

theorem handleSret_spec (s : RISCVCPUState σ) :
    SameData s (handleSret s) ∧ (handleSret s).control = { s.control with
      priv := ((s.cpu.mstatus >>> 8) &&& 1).toNat
      mstatus := retMstatus s.cpu.mstatus ((s.cpu.mstatus >>> 8) &&& 1) 5 mstatusSpp } := by
  let u : RISCVCPUState σ := { s with
    cpu := { s.cpu with mstatus := retMstatus s.cpu.mstatus ((s.cpu.mstatus >>> 8) &&& 1) 5 mstatusSpp } }
  let priv := ((s.cpu.mstatus >>> 8) &&& 1).toNat
  have heq : handleSret s = { setPriv u priv with pc := (setPriv u priv).sepc } := rfl
  obtain ⟨hdata, hctl⟩ := setPriv_spec u priv (setPriv u priv).sepc
  rw [heq]
  exact ⟨⟨hdata.reg, hdata.fs, hdata.fpReg, hdata.fflags⟩, hctl⟩

theorem handleMret_spec (s : RISCVCPUState σ) :
    SameData s (handleMret s) ∧ (handleMret s).control = { s.control with
      priv := ((s.cpu.mstatus >>> mstatusMppShift) &&& 3).toNat
      mstatus := retMstatus s.cpu.mstatus ((s.cpu.mstatus >>> mstatusMppShift) &&& 3) 7 mstatusMpp } := by
  let u : RISCVCPUState σ := { s with
    cpu := { s.cpu with mstatus := retMstatus s.cpu.mstatus ((s.cpu.mstatus >>> mstatusMppShift) &&& 3) 7 mstatusMpp } }
  let priv := ((s.cpu.mstatus >>> mstatusMppShift) &&& 3).toNat
  have heq : handleMret s = { setPriv u priv with pc := (setPriv u priv).mepc } := rfl
  obtain ⟨hdata, hctl⟩ := setPriv_spec u priv (setPriv u priv).mepc
  rw [heq]
  exact ⟨⟨hdata.reg, hdata.fs, hdata.fpReg, hdata.fflags⟩, hctl⟩

/-! ### All steps -/

theorem SameData.legal (hd : SameData s s') (hs : Legal s) (hc : LegalControl s'.control) : Legal s' :=
  ⟨by rw [hd.reg]; exact hs.zero, by rw [hd.fs]; exact hs.fs, hc⟩

theorem setMstatus_legal (hs : Legal s) (val : UInt32) : Legal (setMstatus s val) where
  zero := by
    unfold setMstatus
    dsimp only
    split <;> exact hs.zero
  fs := by
    have hfs : (setMstatus s val).fs = (val >>> 13) &&& 3 := by
      unfold setMstatus
      dsimp only
    rw [hfs, UInt32.le_iff_toNat_le, UInt32.toNat_and]
    exact Nat.and_le_right
  control := by
    rw [setMstatus_control]
    refine { hs.control with mstatus := ?_ }
    show setMasked s.cpu.mstatus val (mstatusMask &&& ~~~mstatusFs) &&& ~~~mstatusLegal = 0
    rw [setMasked_keeps _ _ (by decide)]
    exact hs.control.mstatus

theorem csrWrite_legal (hs : Legal s) {csr val : UInt32} {err : Nat} (hw : csrWrite s csr val = some (err, s')) :
    Legal s' := by
  have hfrm (val : UInt32) : (if 5 ≤ val then 0 else val) < 5 := by
    split
    · decide
    · next h => exact UInt32.not_le.mp h
  have h3 : (3 : UInt32) ≤ 3 := le_refl 3
  have hc := hs.control
  unfold csrWrite at hw
  split at hw
  -- `fflags`, `frm` and `fcsr`
  case h_1 => cases hw; exact ⟨hs.zero, h3, { hc with }⟩
  case h_2 => cases hw; exact ⟨hs.zero, h3, { hc with frm := hfrm _ }⟩
  case h_3 => cases hw; exact ⟨hs.zero, h3, { hc with frm := hfrm _ }⟩
  -- `sstatus` and `mstatus`
  case h_4 => cases hw; exact setMstatus_legal hs _
  case h_14 => cases hw; exact setMstatus_legal hs _
  -- `sie`, `stvec`, `scounteren` and `satp`
  case h_5 =>
    cases hw
    refine ⟨hs.zero, hs.fs, { hc with mie := ?_ }⟩
    have hmask : s.mideleg &&& ~~~mieLegal = 0 := and_mono hc.mideleg (by decide)
    exact (setMasked_keeps s.mie val hmask).trans hc.mie
  case h_6 => cases hw; exact ⟨hs.zero, hs.fs, { hc with stvec := and_disjoint val (by decide) }⟩
  case h_7 => cases hw; exact ⟨hs.zero, hs.fs, { hc with scounteren := and_disjoint val (by decide) }⟩
  case h_13 =>
    cases hw
    refine ⟨hs.zero, hs.fs, { hc with satp := ?_ }⟩
    exact (keep_or _ (bit_disjoint _ (by decide))).trans (and_disjoint val (by decide))
  -- `medeleg`, `mideleg`, `mie`, `mtvec` and `mcounteren`
  case h_16 => cases hw; exact ⟨hs.zero, hs.fs, { hc with medeleg := (setMasked_keeps _ val (by decide)).trans hc.medeleg }⟩
  case h_17 => cases hw; exact ⟨hs.zero, hs.fs, { hc with mideleg := (setMasked_keeps _ val (by decide)).trans hc.mideleg }⟩
  case h_18 => cases hw; exact ⟨hs.zero, hs.fs, { hc with mie := (setMasked_keeps _ val (by decide)).trans hc.mie }⟩
  case h_19 => cases hw; exact ⟨hs.zero, hs.fs, { hc with mtvec := and_disjoint val (by decide) }⟩
  case h_20 => cases hw; exact ⟨hs.zero, hs.fs, { hc with mcounteren := and_disjoint val (by decide) }⟩
  case h_26 => cases hw
  -- registers without illegal values
  all_goals
    cases hw
    exact ⟨hs.zero, hs.fs, { hc with }⟩

theorem raiseException2_legal (hs : Legal s) (cause tval : UInt32) : Legal (raiseException2 s cause tval) := by
  have hc := hs.control
  have hpriv : s.cpu.priv ≤ 3 := hc.priv
  obtain ⟨hdata, hctl, -⟩ := raiseException2_spec s cause tval
  refine hdata.legal hs ?_
  rw [hctl]
  split
  · next hdeleg =>
    refine { hc with priv := (by decide : prvS ≤ prvM), mstatus := ?_ }
    have hprv : UInt32.ofNat s.cpu.priv <<< (8 : UInt32) &&& ~~~mstatusLegal = 0 := by
      have hle := delegated_priv hdeleg
      unfold prvS at hle
      interval_cases s.cpu.priv <;> decide
    exact (trapMstatus_keeps _ _ (by decide) (by decide) hprv (by decide)).trans hc.mstatus
  · refine { hc with priv := le_refl prvM, mstatus := ?_ }
    have hprv : UInt32.ofNat s.cpu.priv <<< mstatusMppShift &&& ~~~mstatusLegal = 0 := by
      interval_cases s.cpu.priv <;> decide
    exact (trapMstatus_keeps _ _ (by decide) (by decide) hprv (by decide)).trans hc.mstatus

/-- The two lowest bits. -/
theorem two_bits_cases (x : UInt32) : x &&& 3 = 0 ∨ x &&& 3 = 1 ∨ x &&& 3 = 2 ∨ x &&& 3 = 3 := by
  have hmod : (x &&& 3).toNat = x.toNat % 2 ^ 2 := by
    rw [UInt32.toNat_and]
    exact Nat.and_two_pow_sub_one_eq_mod x.toNat 2
  have hlt : x.toNat % 2 ^ 2 < 4 := Nat.mod_lt _ (by decide)
  simp only [← UInt32.toNat_inj, hmod]
  show _ = 0 ∨ _ = 1 ∨ _ = 2 ∨ _ = 3
  omega

theorem handleSret_legal (hs : Legal s) : Legal (handleSret s) := by
  have hc := hs.control
  obtain ⟨hdata, hctl⟩ := handleSret_spec s
  refine hdata.legal hs ?_
  rw [hctl]
  have hfield : ((s.cpu.mstatus >>> 8) &&& 1).toNat ≤ prvM ∧
      (1 : UInt32) <<< ((s.cpu.mstatus >>> 8) &&& 1) &&& ~~~mstatusLegal = 0 := by
    rcases bit_cases (s.cpu.mstatus >>> 8) with h | h <;> rw [h] <;> decide
  exact { hc with
    priv := hfield.1
    mstatus := (retMstatus_keeps _ hfield.2 (by decide) (by decide)).trans hc.mstatus }

theorem handleMret_legal (hs : Legal s) : Legal (handleMret s) := by
  have hc := hs.control
  obtain ⟨hdata, hctl⟩ := handleMret_spec s
  refine hdata.legal hs ?_
  rw [hctl]
  have hfield : ((s.cpu.mstatus >>> mstatusMppShift) &&& 3).toNat ≤ prvM ∧
      (1 : UInt32) <<< ((s.cpu.mstatus >>> mstatusMppShift) &&& 3) &&& ~~~mstatusLegal = 0 := by
    rcases two_bits_cases (s.cpu.mstatus >>> mstatusMppShift) with h | h | h | h <;> rw [h] <;> decide
  exact { hc with
    priv := hfield.1
    mstatus := (retMstatus_keeps _ hfield.2 (by decide) (by decide)).trans hc.mstatus }

theorem InsnStep.legal (hstep : InsnStep env s s') (hs : Legal s) : Legal s' := by
  cases hstep with
  | mem hm => exact hm.plain.legal hs
  | data _ hp => exact hp.legal hs
  | csr _ hw => exact csrWrite_legal hs hw
  | sret _ => exact handleSret_legal hs
  | mret _ => exact handleMret_legal hs
  | fence _ => exact ⟨hs.zero, hs.fs, { hs.control with }⟩
  | wfi _ => exact ⟨hs.zero, hs.fs, { hs.control with }⟩

theorem CpuStep.legal (hstep : CpuStep env s s') (hs : Legal s) : Legal s' := by
  cases hstep with
  | insn h => exact h.legal hs
  | trap cause tval => exact raiseException2_legal hs cause tval
  | lines mip powerDown => exact ⟨hs.zero, hs.fs, { hs.control with }⟩
  | outside ram periphs => exact ⟨hs.zero, hs.fs, hs.control⟩

theorem CpuSteps.legal (hsteps : CpuSteps env s s') (hs : Legal s) : Legal s' := by
  induction hsteps with
  | refl => exact hs
  | tail _ hstep ih => exact hstep.legal ih

/-- **The registers are legal in every state that the CPU reaches.** Of `mstatus` that is the bits of `MSTATUS_MASK`,
    and bit 2. -/
theorem registers_legal (hs : CpuReachable env s) : Legal s := by
  obtain ⟨ram, host, hrun⟩ := hs.run
  exact hrun.cpuSteps.legal (legal_init ram host)

/-- A machine without a program, at a privilege level. -/
def resetAt (priv : Nat) : RISCVCPUState Unit :=
  { riscvStateInit (Ram.fill 0) () with cpu := { (machInit (Ram.fill 0) ()).cpu with priv := priv } }

/-- Its first instruction is illegal, and the call returns. -/
theorem resetAt_returns (priv : Nat) (h : priv < 4) : ∃ s', interpX quietEnv 8 3 (resetAt priv) = some (.ok s') := by
  have hok : (interpX quietEnv 8 3 (resetAt priv)).map (fun r => r.toOption.map (fun _ => ())) = some (some ()) := by
    interval_cases priv <;> decide +kernel
  obtain ⟨s', hx, -⟩ := returns_of_map hok
  exact ⟨s', hx⟩

theorem registers_legal_call : ∃ s', interpX quietEnv 8 3 (resetAt prvM) = some (.ok s') ∧ Legal s' := by
  obtain ⟨s', hx⟩ := resetAt_returns prvM (by decide)
  exact ⟨s', hx, registers_legal (.call 8 3 (.init (Ram.fill 0) ()) (by decide) (by decide) hx)⟩

/-! ## Isolation -/

/-- A CSR is read, and written after that, from its own privilege level or a higher one. -/
theorem csrRead_priv {csr old : UInt32} {willWrite : Bool} (hr : csrRead s csr willWrite = some old) :
    csr.toNat / 256 % 4 ≤ s.cpu.priv := by
  have hfield : ((csr >>> 8) &&& 3).toNat = csr.toNat / 256 % 4 := by
    rw [UInt32.toNat_and, UInt32.toNat_shiftRight]
    show csr.toNat >>> 8 &&& 3 = csr.toNat / 256 % 4
    rw [Nat.shiftRight_eq_div_pow]
    exact Nat.and_two_pow_sub_one_eq_mod (csr.toNat / 2 ^ 8) 2
  unfold csrRead at hr
  split at hr
  · cases hr
  · split at hr
    · cases hr
    · next hpriv => exact hfield ▸ not_lt.mp hpriv

/-- What code in user mode leaves as it is: all control registers but the rounding mode, and the floating point unit
    while it is off. The interrupt lines and the power are those from outside. -/
structure UserKept (s s' : RISCVCPUState σ) : Prop where
  control : s'.control = { s.control with frm := s'.frm, mip := s'.mip, powerDownFlag := s'.powerDownFlag }
  fpu : s.fs = 0 → s'.fs = 0 ∧ s'.fpReg = s.fpReg ∧ s'.fflags = s.fflags ∧ s'.frm = s.frm

theorem UserKept.refl : UserKept s s := ⟨rfl, fun h => ⟨h, rfl, rfl, rfl⟩⟩

theorem UserKept.trans (h₁ : UserKept s s₁) (h₂ : UserKept s₁ s') : UserKept s s' where
  control := by rw [h₂.control, h₁.control]
  fpu := by
    intro h0
    obtain ⟨hfs, hreg, hfl, hfrm⟩ := h₁.fpu h0
    obtain ⟨hfs', hreg', hfl', hfrm'⟩ := h₂.fpu hfs
    exact ⟨hfs', hreg'.trans hreg, hfl'.trans hfl, hfrm'.trans hfrm⟩

theorem UserKept.priv (h : UserKept s s') : s'.cpu.priv = s.cpu.priv := congrArg Control.priv h.control

theorem Plain.userKept (hp : Plain env s s') : UserKept s s' where
  control := by
    have hc := hp.control
    have hfrm : s'.frm = s.frm := congrArg Control.frm hc
    have hmip : s'.mip = s.mip := congrArg Control.mip hc
    have hpower : s'.powerDownFlag = s.powerDownFlag := congrArg Control.powerDownFlag hc
    rw [hc, hfrm, hmip, hpower]
    rfl
  fpu := by
    intro h0
    have hfs : s'.fs = 0 := by
      rcases hp.fs with h | ⟨h, -⟩
      · exact h.trans h0
      · exact absurd h0 h
    exact ⟨hfs, (hp.fpu h0).1, (hp.fpu h0).2, congrArg Control.frm hp.control⟩

/-- The CSRs of user mode are those of the floating point unit, and it has them while the unit is on. -/
theorem csrWrite_userKept (hpriv : s.cpu.priv = prvU) {csr old val : UInt32} {err : Nat}
    (hr : csrRead s csr true = some old) (hw : csrWrite s csr val = some (err, s')) :
    s'.toMach = s.toMach ∧ UserKept s s' := by
  have hlevel : csr.toNat / 256 % 4 = 0 := Nat.le_zero.mp ((csrRead_priv hr).trans_eq hpriv)
  have hon : csr.toNat < 256 → s.fs ≠ 0 := by
    intro hlt h0
    unfold csrRead at hr
    split at hr
    · cases hr
    · split at hr
      · cases hr
      · split at hr
        all_goals first | omega | cases hr
  unfold csrWrite at hw
  split at hw
  case h_1 => cases hw; exact ⟨rfl, rfl, fun h0 => absurd h0 (hon (by omega))⟩
  case h_2 => cases hw; exact ⟨rfl, rfl, fun h0 => absurd h0 (hon (by omega))⟩
  case h_3 => cases hw; exact ⟨rfl, rfl, fun h0 => absurd h0 (hon (by omega))⟩
  -- the others are of a higher level
  all_goals first | omega | cases hw

theorem InsnStep.userKept (hstep : InsnStep env s s') (hpriv : s.cpu.priv = prvU) : UserKept s s' := by
  cases hstep with
  | mem hm => exact hm.plain.userKept
  | data _ hp => exact hp.userKept
  | csr hr hw => exact (csrWrite_userKept hpriv hr hw).2
  | sret h => exact absurd h (by rw [hpriv]; decide)
  | mret h => exact absurd h (by rw [hpriv]; decide)
  | fence h => exact absurd hpriv h
  | wfi h => exact absurd hpriv h

/-- The control registers that only machine mode sets: not those of supervisor mode, the fields of `mstatus` and the
    interrupts that it has, the rounding mode, the interrupt lines and the power. -/
def Control.machine (c : Control) : Control :=
  { c with
    priv := 0, mstatus := c.mstatus &&& ~~~sstatusMask, satp := 0, frm := 0, powerDownFlag := false
    mie := c.mie &&& ~~~c.mideleg, mip := 0, stvec := 0, sscratch := 0, sepc := 0, scause := 0, stval := 0
    scounteren := 0 }

/-- What code below machine mode leaves as it is, as long as it stays there. -/
structure MachineKept (s s' : RISCVCPUState σ) : Prop where
  priv : s'.cpu.priv ≤ prvS
  machine : s'.control.machine = s.control.machine

theorem Plain.machineKept (hp : Plain env s s') (hpriv : s.cpu.priv ≤ prvS) : MachineKept s s' where
  priv := (congrArg Control.priv hp.control).trans_le hpriv
  machine := congrArg Control.machine hp.control

/-- A write to `sstatus`. -/
theorem sstatus_keeps (old val : UInt32) :
    setMasked old ((old &&& ~~~sstatusMask) ||| (val &&& sstatusMask)) (mstatusMask &&& ~~~mstatusFs) &&& ~~~sstatusMask =
      old &&& ~~~sstatusMask := by
  apply word_ext
  intro i hi
  unfold setMasked
  simp only [UInt32.toNat_and, UInt32.toNat_or, Nat.testBit_and, Nat.testBit_or, testBit_not _ hi]
  cases old.toNat.testBit i <;> cases val.toNat.testBit i <;> cases sstatusMask.toNat.testBit i <;>
    cases mstatusMask.toNat.testBit i <;> simp

theorem csrWrite_machineKept (hpriv : s.cpu.priv ≤ prvS) {csr old val : UInt32} {err : Nat}
    (hr : csrRead s csr true = some old) (hw : csrWrite s csr val = some (err, s')) : MachineKept s s' := by
  have hlevel : csr.toNat / 256 % 4 ≤ 1 := (csrRead_priv hr).trans hpriv
  unfold csrWrite at hw
  split at hw
  -- `sstatus`
  case h_4 =>
    cases hw
    have hctl := setMstatus_control s ((s.cpu.mstatus &&& ~~~sstatusMask) ||| (val &&& sstatusMask))
    refine ⟨(congrArg Control.priv hctl).trans_le hpriv, ?_⟩
    rw [hctl]
    unfold Control.machine
    dsimp only
    rw [sstatus_keeps]
    rfl
  -- `sie`
  case h_5 =>
    cases hw
    refine ⟨hpriv, ?_⟩
    have hmie : setMasked s.mie val s.mideleg &&& ~~~s.control.mideleg = s.control.mie &&& ~~~s.control.mideleg :=
      setMasked_keeps s.mie val UInt32.and_not_self
    show ({ s.control with mie := setMasked s.mie val s.mideleg } : Control).machine = _
    unfold Control.machine
    dsimp only
    rw [hmie]
  all_goals first | omega | (cases hw; exact ⟨hpriv, rfl⟩) | cases hw

theorem InsnStep.machineKept (hstep : InsnStep env s s') (hpriv : s.cpu.priv ≤ prvS) : MachineKept s s' := by
  cases hstep with
  | mem hm => exact hm.plain.machineKept hpriv
  | data _ hp => exact hp.machineKept hpriv
  | csr hr hw => exact csrWrite_machineKept hpriv hr hw
  | sret _ =>
    obtain ⟨-, hctl⟩ := handleSret_spec s
    have hfield : ((s.cpu.mstatus >>> 8) &&& 1).toNat ≤ prvS ∧
        (1 : UInt32) <<< ((s.cpu.mstatus >>> 8) &&& 1) &&& ~~~sstatusMask = 0 := by
      rcases bit_cases (s.cpu.mstatus >>> 8) with h | h <;> rw [h] <;> decide
    refine ⟨(congrArg Control.priv hctl).trans_le hfield.1, ?_⟩
    rw [hctl]
    unfold Control.machine
    dsimp only
    rw [retMstatus_keeps _ hfield.2 (by decide) (by decide)]
    rfl
  | mret h => exact absurd (h.trans hpriv) (by decide)
  | fence _ => exact ⟨hpriv, rfl⟩
  | wfi _ => exact ⟨hpriv, rfl⟩

theorem MachineKept.trans (h₁ : MachineKept s s₁) (h₂ : MachineKept s₁ s') : MachineKept s s' :=
  ⟨h₂.priv, h₂.machine.trans h₁.machine⟩

/-- A trap that is delegated stays below machine mode. -/
theorem delegated_machineKept {cause : UInt32} (h : delegated s cause = true) (tval : UInt32) :
    MachineKept s (raiseException2 s cause tval) := by
  obtain ⟨-, hctl, -⟩ := raiseException2_spec s cause tval
  rw [if_pos h] at hctl
  have hprv : UInt32.ofNat s.cpu.priv <<< (8 : UInt32) &&& ~~~sstatusMask = 0 := by
    have hle : s.cpu.priv ≤ 1 := delegated_priv h
    interval_cases s.cpu.priv <;> decide
  refine ⟨(congrArg Control.priv hctl).le, ?_⟩
  rw [hctl]
  unfold trappedToS Control.machine
  dsimp only
  rw [trapMstatus_keeps _ _ (by decide) (by decide) hprv (by decide)]
  rfl

/-! ### Runs -/

/-- **A run up to its first trap that leads out of `K`.** What all instructions keep, and all events that are no calls of
    the interpreter, holds to the end of a run of such events, or a call of the interpreter ends with a trap. -/
theorem run_confined {K X : RISCVCPUState σ → Prop} {E : RISCVCPUState σ → RISCVCPUState σ → Prop}
    (hE : ∀ {t u}, E t u → (∃ fuel nCycles, interpX env fuel nCycles t = some (.ok u)) ∨ (K t → K u))
    (hinsn : ∀ {t u}, K t → InsnStep env t u → K u)
    (htrap : ∀ {t} cause tval counter, K t →
      K { raiseException2 t cause tval with insnCounter := counter } ∨
        X { raiseException2 t cause tval with insnCounter := counter })
    (hs : K s) (hrun : ReflTransGen E s s') :
    K s' ∨ ∃ t u, ReflTransGen E s t ∧ K t ∧ E t u ∧ X u ∧ ReflTransGen E u s' := by
  have hinsns {t u : RISCVCPUState σ} (ht : K t) (hsteps : InsnSteps env t u) : K u := by
    induction hsteps with
    | refl => exact ht
    | tail _ hstep ih => exact hinsn ih hstep
  induction hrun with
  | refl => exact .inl hs
  | @tail t u hpre hevent ih =>
    rcases ih with ht | ⟨v, w, hv, hkv, hvw, hxw, hwt⟩
    · rcases hE hevent with ⟨fuel, nCycles, hr⟩ | hkeeps
      · rcases interpX_ran hr with hsteps | ⟨v, cause, tval, counter, hsteps, rfl⟩
        · exact .inl (hinsns ht hsteps)
        · rcases htrap cause tval counter (hinsns ht hsteps) with hk | hx
          · exact .inl hk
          · exact .inr ⟨t, _, hpre, ht, hevent, hx, .refl⟩
      · exact .inl (hkeeps ht)
    · exact .inr ⟨v, w, hv, hkv, hvw, hxw, hwt.tail hevent⟩

/-- An event is a call of the interpreter, or it keeps what neither the interrupt lines nor memory and the devices
    matter to. -/
theorem CpuEvent.call_or {K : RISCVCPUState σ → Prop}
    (hlines : ∀ {t : RISCVCPUState σ} mip powerDown, K t → K { t with mip := mip, powerDownFlag := powerDown })
    (houtside : ∀ {t : RISCVCPUState σ} ram periphs, K t → K { t with ram := ram, periphs := periphs })
    (hevent : CpuEvent env s s') : (∃ fuel nCycles, interpX env fuel nCycles s = some (.ok s')) ∨ (K s → K s') := by
  cases hevent with
  | call hr => exact .inl ⟨_, _, hr⟩
  | outside ram periphs => exact .inr (houtside ram periphs)
  | setMip mask =>
    obtain ⟨mip, powerDown, heq⟩ := riscvCpuSetMip_eq s mask
    rw [heq]
    exact .inr (hlines mip powerDown)
  | resetMip mask => exact .inr (hlines _ s.powerDownFlag)

/-- A trap has just been taken from user mode: it is the only change to the control registers since `s`, and execution
    goes on at a vector that was set in `s`. -/
def UserTrapped (s u : RISCVCPUState σ) : Prop :=
  ∃ t cause tval, UserKept s t ∧
    if delegated t cause = true then u.control = trappedToS t cause tval ∧ u.pc = s.stvec
    else u.control = trappedToM t cause tval ∧ u.pc = s.mtvec

/-- The trap of a program in user mode. -/
theorem userTrapped (ht : UserKept s t) (cause tval : UInt32) (counter : UInt64) :
    UserTrapped s { raiseException2 t cause tval with insnCounter := counter } := by
  obtain ⟨-, hctl, hpc⟩ := raiseException2_spec t cause tval
  refine ⟨t, cause, tval, ht, ?_⟩
  split
  · next hdeleg =>
    rw [if_pos hdeleg] at hctl hpc
    exact ⟨hctl, hpc.trans (congrArg Control.stvec ht.control)⟩
  · next hdeleg =>
    rw [if_neg hdeleg] at hctl hpc
    exact ⟨hctl, hpc.trans (congrArg Control.mtvec ht.control)⟩

/-- **User mode is confined.** In a run from user mode the control registers stay as they are, up to a trap, which
    goes on at the vector that the higher privilege has set. -/
theorem user_confined (hpriv : s.cpu.priv = prvU) (hrun : CpuRun env s s') :
    UserKept s s' ∨
      ∃ t u, CpuRun env s t ∧ UserKept s t ∧ CpuEvent env t u ∧ UserTrapped s u ∧ CpuRun env u s' :=
  run_confined (fun he => he.call_or (fun _ _ ht => ht.trans ⟨rfl, fun h => ⟨h, rfl, rfl, rfl⟩⟩)
      (fun _ _ ht => ht.trans ⟨rfl, fun h => ⟨h, rfl, rfl, rfl⟩⟩))
    (fun ht hstep => ht.trans (hstep.userKept (ht.priv.trans hpriv)))
    (fun cause tval counter ht => .inr (userTrapped ht cause tval counter)) UserKept.refl hrun

theorem user_confined_call : (resetAt prvU).cpu.priv = prvU ∧ ∃ s', interpX quietEnv 8 3 (resetAt prvU) = some (.ok s') ∧
    (UserKept (resetAt prvU) s' ∨ ∃ t u, CpuRun quietEnv (resetAt prvU) t ∧ UserKept (resetAt prvU) t ∧
      CpuEvent quietEnv t u ∧ UserTrapped (resetAt prvU) u ∧ CpuRun quietEnv u s') := by
  obtain ⟨s', hx⟩ := resetAt_returns prvU (by decide)
  exact ⟨rfl, s', hx, user_confined rfl (.single (.call hx))⟩

/-- A trap to machine mode has just been taken, which machine mode has not delegated, and execution goes on at the vector
    that it has set. -/
def MachineTrapped (s u : RISCVCPUState σ) : Prop :=
  ∃ t cause tval, MachineKept s t ∧ delegated t cause = false ∧ u.control = trappedToM t cause tval ∧ u.pc = s.mtvec

/-- **Machine mode is isolated.** In a run from below machine mode its registers stay as they are, up to a trap that it
    has not delegated. -/
theorem machine_isolated (hpriv : s.cpu.priv ≤ prvS) (hrun : CpuRun env s s') :
    MachineKept s s' ∨
      ∃ t u, CpuRun env s t ∧ MachineKept s t ∧ CpuEvent env t u ∧ MachineTrapped s u ∧ CpuRun env u s' := by
  refine run_confined (fun he => he.call_or (fun _ _ ht => ht.trans ⟨ht.priv, rfl⟩)
      (fun _ _ ht => ht.trans ⟨ht.priv, rfl⟩))
    (fun ht hstep => ht.trans (hstep.machineKept ht.priv)) ?_ ⟨hpriv, rfl⟩ hrun
  intro t cause tval counter ht
  cases hdeleg : delegated t cause with
  | true =>
    obtain ⟨hp, hm⟩ := ht.trans (delegated_machineKept hdeleg tval)
    exact .inl ⟨hp, hm⟩
  | false =>
    obtain ⟨-, hctl, hpc⟩ := raiseException2_spec t cause tval
    rw [if_neg (Bool.eq_false_iff.mp hdeleg)] at hctl hpc
    exact .inr ⟨t, cause, tval, ht, hdeleg, hctl, hpc.trans (congrArg Control.mtvec ht.machine)⟩

theorem machine_isolated_call : (resetAt prvS).cpu.priv ≤ prvS ∧
    ∃ s', interpX quietEnv 8 3 (resetAt prvS) = some (.ok s') ∧
      (MachineKept (resetAt prvS) s' ∨ ∃ t u, CpuRun quietEnv (resetAt prvS) t ∧ MachineKept (resetAt prvS) t ∧
        CpuEvent quietEnv t u ∧ MachineTrapped (resetAt prvS) u ∧ CpuRun quietEnv u s') := by
  obtain ⟨s', hx⟩ := resetAt_returns prvS (by decide)
  exact ⟨le_refl _, s', hx, machine_isolated (le_refl _) (.single (.call hx))⟩

end HadBadge
