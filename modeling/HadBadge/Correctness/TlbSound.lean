import HadBadge.Correctness.Privilege
import HadBadge.Correctness.Translation
import HadBadge.Lib.History

/-!
# `Correctness.TlbSound`: the TLBs are right

A TLB is filled by walks of the page tables and asked in place of them. Between the two the registers may change and
the tables may, and only some of these changes flush. What a hit says is still what a walk has found for the address
since the last flush, and the walk was made with the registers as they are now.

There is one exception, which the theorems leave out: data accesses in machine mode with `MPRV` set go by the
privilege in `mstatus`, and a trap or an `mret` that stays in machine mode changes that without a flush.

## Contents
- **Entries.** `tlbOf`; what a step of an access does to an entry, `MemStep.entry`.
- **Flushes.** `KeptTranslation`, `TlbTrusted`; a step flushes or keeps both, `CpuStep.kept`. A change of privilege
  flushes, `CpuStep.entered`.
- **Runs.** `CpuHistory`, `Filled`; the invariant `CpuHistory.sound` and `tlb_sound`.
-/

namespace HadBadge

open Lib Relation

variable {σ : Type} {env : InterpEnv σ} {mm : MainMem} {h : MachHost σ} {m m' : Mach σ} {s s' : RISCVCPUState σ}
  {ss : List (RISCVCPUState σ)} {access : Access} {c c' : Cpu}

/-! ## Entries -/

/-- The TLB for an access. -/
def tlbOf (c : Cpu) : Access → Fin 256 → TLBEntry
  | .read => c.tlbRead
  | .write => c.tlbWrite
  | .code => c.tlbCode

theorem update_entry {tlb : Fin 256 → TLBEntry} {i j : Fin 256} {e : TLBEntry} :
    Function.update tlb j e i = tlb i ∨ i = j ∧ Function.update tlb j e i = e := by
  by_cases h : i = j
  · subst h
    exact .inr ⟨rfl, Function.update_self ..⟩
  · exact .inl (Function.update_of_ne h e tlb)

/-- A page walk has filled entry `i`: memory is now as the walk has left it. -/
def FilledBy (mm : MainMem) (m m' : Mach σ) (access : Access) (i : Fin 256) : Prop :=
  ∃ addr ptr, Walked mm m access addr ptr m'.ram ∧ i = tlbIdx addr ∧ tlbOf m'.cpu access i = tlbEntry addr ptr

theorem MemStep.entry (hstep : MemStep mm h m m') (access : Access) (i : Fin 256) :
    tlbOf m'.cpu access i = tlbOf m.cpu access i ∨ FilledBy mm m m' access i := by
  cases hstep with
  | pend => cases access <;> exact .inl rfl
  | code => exact .inl rfl
  | walk => exact .inl rfl
  | device _ _ hd => exact .inl (by rw [devAccesses_cpu hd])
  | store => exact .inl rfl
  | fillRead hw =>
    cases access with
    | read => exact update_entry.imp id (fun h => ⟨_, _, hw, h.1, h.2⟩)
    | write => exact .inl rfl
    | code => exact .inl rfl
  | fillWrite hw =>
    cases access with
    | read => exact .inl rfl
    | write => exact update_entry.imp id (fun h => ⟨_, _, hw, h.1, h.2⟩)
    | code => exact .inl rfl
  | fillCode hw =>
    cases access with
    | read => exact .inl rfl
    | write => exact .inl rfl
    | code => exact update_entry.imp id (fun h => ⟨_, _, hw, h.1, h.2⟩)

/-! ## Flushes -/

/-- All entries are invalid. -/
def Flushed (c : Cpu) : Prop := ∀ access i, (tlbOf c access i).vaddr = 0xffffffff

theorem tlbFlushAll_flushed (c : Cpu) : Flushed (tlbFlushAll c) := by
  intro access i
  cases access <;> rfl

/-- What an access goes by is as it was: the privilege, `satp`, and of `mstatus` the fields for translation. -/
structure KeptTranslation (access : Access) (c c' : Cpu) : Prop where
  priv : c'.priv = c.priv
  satp : c'.satp = c.satp
  fields : c'.mstatus &&& (mstatusMprv ||| mstatusSum ||| mstatusMxr) = c.mstatus &&& (mstatusMprv ||| mstatusSum ||| mstatusMxr)
  mpp : access = .code ∨ c.mstatus &&& mstatusMprv = 0 ∨ c'.mstatus &&& mstatusMpp = c.mstatus &&& mstatusMpp

theorem KeptTranslation.mprv (h : KeptTranslation access c c') : c'.mstatus &&& mstatusMprv = c.mstatus &&& mstatusMprv :=
  agree_mono h.fields (by decide)

theorem KeptTranslation.same (h : KeptTranslation access c c') : SameTranslation access c c' where
  priv := by
    have hfield (hmpp : c'.mstatus &&& mstatusMpp = c.mstatus &&& mstatusMpp) :
        (c'.mstatus >>> mstatusMppShift) &&& 3 = (c.mstatus >>> mstatusMppShift) &&& 3 := field_eq hmpp (by decide)
    unfold effPriv
    rw [h.mprv, h.priv]
    split
    · next hdata =>
      rcases h.mpp with hcode | hoff | hmpp
      · exact absurd hcode hdata.2
      · exact absurd hoff hdata.1
      · rw [hfield hmpp]
    · rfl
  satp := h.satp
  fields := agree_mono h.fields (by decide)

/-- The registers are as they were. -/
theorem KeptTranslation.of_eq (hpriv : c'.priv = c.priv) (hsatp : c'.satp = c.satp) (hmstatus : c'.mstatus = c.mstatus) :
    KeptTranslation access c c' :=
  ⟨hpriv, hsatp, by rw [hmstatus], .inr (.inr (by rw [hmstatus]))⟩

/-- No data accesses of machine mode with the privilege in `mstatus`. -/
def TlbTrusted (access : Access) (c : Cpu) : Prop := access = .code ∨ c.mstatus &&& mstatusMprv = 0 ∨ c.priv ≤ prvS

theorem KeptTranslation.trusted (h : KeptTranslation access c c') (ht : TlbTrusted access c') : TlbTrusted access c := by
  unfold TlbTrusted at ht ⊢
  rwa [h.mprv, h.priv] at ht

/-- In machine mode, the privilege in `mstatus` does not matter. -/
theorem TlbTrusted.machine (ht : TlbTrusted access c') (hpriv : c'.priv = prvM) :
    access = .code ∨ c'.mstatus &&& mstatusMprv = 0 := by
  rcases ht with h | h | h
  · exact .inl h
  · exact .inr h
  · rw [hpriv] at h
    exact absurd h (by decide)

/-- A step flushes the TLBs, or it keeps them and what they go by. -/
def FlushedOrKept (access : Access) (c c' : Cpu) : Prop :=
  Flushed c' ∨ (tlbOf c' access = tlbOf c access ∧ KeptTranslation access c c')

theorem FlushedOrKept.refl (c : Cpu) : FlushedOrKept access c c := .inr ⟨rfl, .of_eq rfl rfl rfl⟩

/-! ### `mstatus`, traps and returns -/

/-- What `set_mstatus` flushes for. -/
def MstatusFlushes (mstatus val : UInt32) : Prop :=
  (mstatus ^^^ val) &&& (mstatusMprv ||| mstatusSum ||| mstatusMxr) ≠ 0 ∨
    (mstatus &&& mstatusMprv ≠ 0 ∧ (mstatus ^^^ val) &&& mstatusMpp ≠ 0)

instance (mstatus val : UInt32) : Decidable (MstatusFlushes mstatus val) := by unfold MstatusFlushes; infer_instance

theorem setMstatus_cpu (s : RISCVCPUState σ) (val : UInt32) :
    (setMstatus s val).cpu =
      let cpu := if MstatusFlushes s.cpu.mstatus val then tlbFlushAll s.cpu else s.cpu
      { cpu with mstatus := setMasked cpu.mstatus val (mstatusMask &&& ~~~mstatusFs) } := by
  have hcpu : (if MstatusFlushes s.cpu.mstatus val then s.flushTlb else s).cpu =
      if MstatusFlushes s.cpu.mstatus val then tlbFlushAll s.cpu else s.cpu := by split <;> rfl
  rw [← hcpu]
  rfl

theorem setMstatus_kept (s : RISCVCPUState σ) (val : UInt32) (access : Access) :
    FlushedOrKept access s.cpu (setMstatus s val).cpu := by
  rw [setMstatus_cpu]
  by_cases hflush : MstatusFlushes s.cpu.mstatus val
  · rw [if_pos hflush]
    left
    intro access i
    cases access <;> rfl
  · rw [if_neg hflush]
    unfold MstatusFlushes at hflush
    rw [not_or, not_not, not_and, not_not] at hflush
    refine .inr ⟨by cases access <;> rfl, rfl, rfl, ?_, ?_⟩
    · exact (insert_within _ _ (by decide)).trans (and_eq_of_xor hflush.1)
    · by_cases hmprv : s.cpu.mstatus &&& mstatusMprv = 0
      · exact .inr (.inl hmprv)
      · exact .inr (.inr ((insert_within _ _ (by decide)).trans (and_eq_of_xor (hflush.2 hmprv))))

/-- The end of a trap or a return. -/
theorem setPriv_cpu (s : RISCVCPUState σ) (priv : Nat) :
    Flushed (setPriv s priv).cpu ∨ ((setPriv s priv).cpu = s.cpu ∧ s.cpu.priv = priv) := by
  unfold setPriv
  split
  · left
    intro access i
    cases access <;> rfl
  · next h => exact .inr ⟨rfl, not_not.mp h⟩

theorem raiseException2_cpu (s : RISCVCPUState σ) (cause tval : UInt32) :
    Flushed (raiseException2 s cause tval).cpu ∨
      if delegated s cause = true then s.cpu.priv = prvS ∧ (raiseException2 s cause tval).cpu =
          { s.cpu with mstatus := trapMstatus s.cpu.mstatus s.cpu.priv 5 8 mstatusSpp mstatusSie }
      else s.cpu.priv = prvM ∧ (raiseException2 s cause tval).cpu =
          { s.cpu with mstatus := trapMstatus s.cpu.mstatus s.cpu.priv 7 mstatusMppShift mstatusMpp mstatusMie } := by
  rw [raiseException2_eq]
  by_cases hdeleg : delegated s cause = true
  · rw [if_pos hdeleg, if_pos hdeleg]
    exact (setPriv_cpu (toS s cause tval) prvS).imp id (fun h => ⟨h.2, h.1⟩)
  · rw [if_neg hdeleg, if_neg hdeleg]
    exact (setPriv_cpu (toM s cause tval) prvM).imp id (fun h => ⟨h.2, h.1⟩)

theorem raiseException2_kept (s : RISCVCPUState σ) (cause tval : UInt32)
    (ht : TlbTrusted access (raiseException2 s cause tval).cpu) :
    FlushedOrKept access s.cpu (raiseException2 s cause tval).cpu := by
  rcases raiseException2_cpu s cause tval with hflush | hcpu
  · exact .inl hflush
  right
  split at hcpu
  -- from supervisor mode to itself
  · obtain ⟨hpriv, hcpu⟩ := hcpu
    rw [hcpu, hpriv]
    refine ⟨by cases access <;> rfl, hpriv.symm ▸ rfl, rfl, ?_, .inr (.inr ?_)⟩
    · exact trapMstatus_keeps _ _ (by decide) (by decide) (by decide) (by decide)
    · exact trapMstatus_keeps _ _ (by decide) (by decide) (by decide) (by decide)
  -- from machine mode to itself
  · obtain ⟨hpriv, hcpu⟩ := hcpu
    have hfields : (raiseException2 s cause tval).cpu.mstatus &&& (mstatusMprv ||| mstatusSum ||| mstatusMxr) =
        s.cpu.mstatus &&& (mstatusMprv ||| mstatusSum ||| mstatusMxr) := by
      rw [hcpu, hpriv]
      exact trapMstatus_keeps _ _ (by decide) (by decide) (by decide) (by decide)
    refine ⟨by rw [hcpu]; cases access <;> rfl, by rw [hcpu], by rw [hcpu], hfields, ?_⟩
    rcases ht.machine (by rw [hcpu]; exact hpriv) with hcode | hoff
    · exact .inl hcode
    · exact .inr (.inl ((agree_mono hfields (by decide)).symm.trans hoff))

theorem handleSret_kept (s : RISCVCPUState σ) (access : Access) : FlushedOrKept access s.cpu (handleSret s).cpu := by
  let u : RISCVCPUState σ := { s with
    cpu := { s.cpu with mstatus := retMstatus s.cpu.mstatus ((s.cpu.mstatus >>> 8) &&& 1) 5 mstatusSpp } }
  rcases setPriv_cpu u ((s.cpu.mstatus >>> 8) &&& 1).toNat with hflush | ⟨hcpu, hpriv⟩
  · exact .inl hflush
  · have heq : (handleSret s).cpu = u.cpu := hcpu
    rw [heq]
    have hkeeps (m : UInt32) (h0 : (1 : UInt32) <<< 0 &&& m = 0) (h1 : (1 : UInt32) <<< 1 &&& m = 0)
        (h5 : (1 : UInt32) <<< 5 &&& m = 0) (h8 : mstatusSpp &&& m = 0) : u.cpu.mstatus &&& m = s.cpu.mstatus &&& m := by
      have hpp : (1 : UInt32) <<< ((s.cpu.mstatus >>> 8) &&& 1) &&& m = 0 := by
        rcases bit_cases (s.cpu.mstatus >>> 8) with h | h <;> rw [h] <;> assumption
      exact retMstatus_keeps _ hpp h5 h8
    exact .inr ⟨by cases access <;> rfl, rfl, rfl, hkeeps _ (by decide) (by decide) (by decide) (by decide),
      .inr (.inr (hkeeps _ (by decide) (by decide) (by decide) (by decide)))⟩

theorem handleMret_kept (hpriv : s.cpu.priv = prvM) (ht : TlbTrusted access (handleMret s).cpu) :
    FlushedOrKept access s.cpu (handleMret s).cpu := by
  let u : RISCVCPUState σ := { s with
    cpu := { s.cpu with mstatus := retMstatus s.cpu.mstatus ((s.cpu.mstatus >>> mstatusMppShift) &&& 3) 7 mstatusMpp } }
  rcases setPriv_cpu u ((s.cpu.mstatus >>> mstatusMppShift) &&& 3).toNat with hflush | ⟨hcpu, -⟩
  · exact .inl hflush
  · have heq : (handleMret s).cpu = u.cpu := hcpu
    rw [heq] at ht ⊢
    have hfields : u.cpu.mstatus &&& (mstatusMprv ||| mstatusSum ||| mstatusMxr) =
        s.cpu.mstatus &&& (mstatusMprv ||| mstatusSum ||| mstatusMxr) := by
      refine retMstatus_keeps _ ?_ (by decide) (by decide)
      rcases two_bits_cases (s.cpu.mstatus >>> mstatusMppShift) with h | h | h | h <;> rw [h] <;> decide
    refine .inr ⟨by cases access <;> rfl, rfl, rfl, hfields, ?_⟩
    rcases ht.machine hpriv with hcode | hoff
    · exact .inl hcode
    · exact .inr (.inl ((agree_mono hfields (by decide)).symm.trans hoff))

theorem csrWrite_kept {csr val : UInt32} {err : Nat} (hw : csrWrite s csr val = some (err, s')) (access : Access) :
    FlushedOrKept access s.cpu s'.cpu := by
  unfold csrWrite at hw
  split at hw
  -- `sstatus`, `satp` and `mstatus`
  case h_4 => cases hw; exact setMstatus_kept s _ access
  case h_13 => cases hw; exact .inl (tlbFlushAll_flushed _)
  case h_14 => cases hw; exact setMstatus_kept s _ access
  case h_26 => cases hw
  all_goals
    cases hw
    exact .refl _

theorem Plain.kept (hp : Plain env s s') : KeptTranslation access s.cpu s'.cpu := by
  have h := hp.mem.sameMmu
  exact .of_eq h.priv h.satp h.mstatus

/-- **A step flushes the TLBs, or it keeps what they go by**, and what is in them came there by a page walk. -/
theorem CpuStep.kept (hstep : CpuStep env s s') (hpriv : s.cpu.priv ≤ prvM) (ht : TlbTrusted access s'.cpu) :
    Flushed s'.cpu ∨ KeptTranslation access s.cpu s'.cpu ∧
      ∀ i, tlbOf s'.cpu access i = tlbOf s.cpu access i ∨ FilledBy env.mm s.toMach s'.toMach access i := by
  have hkept (h : FlushedOrKept access s.cpu s'.cpu) : Flushed s'.cpu ∨ KeptTranslation access s.cpu s'.cpu ∧
      ∀ i, tlbOf s'.cpu access i = tlbOf s.cpu access i ∨ FilledBy env.mm s.toMach s'.toMach access i :=
    h.imp id (fun ⟨htlb, hk⟩ => ⟨hk, fun i => .inl (congrFun htlb i)⟩)
  cases hstep with
  | insn h =>
    cases h with
    | mem hm => exact .inr ⟨hm.plain.kept, hm.entry access⟩
    | data heq hp => exact .inr ⟨hp.kept, fun i => .inl (by rw [heq])⟩
    | csr _ hw => exact hkept (csrWrite_kept hw access)
    | sret _ => exact hkept (handleSret_kept s access)
    | mret h => exact hkept (handleMret_kept (le_antisymm hpriv h) ht)
    | fence _ => exact .inl (tlbFlushAll_flushed _)
    | wfi _ => exact hkept (.refl _)
  | trap cause tval => exact hkept (raiseException2_kept s cause tval ht)
  | lines mip powerDown => exact hkept (.refl _)
  | outside ram periphs => exact hkept (.refl _)

theorem csrWrite_priv {csr val : UInt32} {err : Nat} (hw : csrWrite s csr val = some (err, s')) :
    s'.cpu.priv = s.cpu.priv := by
  have hset (val : UInt32) : (setMstatus s val).cpu.priv = s.cpu.priv := congrArg Control.priv (setMstatus_control s val)
  unfold csrWrite at hw
  split at hw
  case h_4 => cases hw; exact hset _
  case h_14 => cases hw; exact hset _
  case h_26 => cases hw
  all_goals
    cases hw
    rfl

/-- **A change of privilege** flushes. -/
theorem CpuStep.entered (hstep : CpuStep env s s') (hne : s'.cpu.priv ≠ s.cpu.priv) : Flushed s'.cpu := by
  have hset (u : RISCVCPUState σ) (priv : Nat) (hu : u.cpu.priv = s.cpu.priv) (hne : (setPriv u priv).cpu.priv ≠ s.cpu.priv) :
      Flushed (setPriv u priv).cpu := by
    rcases setPriv_cpu u priv with hflush | ⟨hcpu, -⟩
    · exact hflush
    · rw [hcpu] at hne
      exact absurd hu hne
  cases hstep with
  | insn h =>
    cases h with
    | mem hm => exact absurd (congrArg Control.priv hm.plain.control) hne
    | data _ hp => exact absurd (congrArg Control.priv hp.control) hne
    | csr _ hw => exact absurd (csrWrite_priv hw) hne
    | sret _ => exact hset { s with cpu := { s.cpu with mstatus := _ } } _ rfl hne
    | mret _ => exact hset { s with cpu := { s.cpu with mstatus := _ } } _ rfl hne
    | fence _ => exact tlbFlushAll_flushed _
    | wfi _ => exact absurd rfl hne
  | trap cause tval =>
    rw [raiseException2_eq] at hne ⊢
    split at hne
    · next hdeleg =>
      rw [if_pos hdeleg]
      exact hset (toS s cause tval) prvS rfl hne
    · next hdeleg =>
      rw [if_neg hdeleg]
      exact hset (toM s cause tval) prvM rfl hne
  | lines mip powerDown => exact absurd rfl hne
  | outside ram periphs => exact absurd rfl hne

/-! ## Runs -/

/-- A history of the CPU: the states from reset on, the last one first. Between two of them there is one step of an
    access of memory, or a step that does not access memory. -/
abbrev CpuHistory (env : InterpEnv σ) : List (RISCVCPUState σ) → Prop :=
  History (fun s => ∃ ram host, s = riscvStateInit ram host) (CpuStep env)

/-- Every state that the CPU reaches has a history. -/
theorem CpuReachable.history (hs : CpuReachable env s) : ∃ ss, CpuHistory env (s :: ss) := by
  obtain ⟨ram, host, hrun⟩ := hs.run
  exact exists_history ⟨ram, host, rfl⟩ hrun.cpuSteps

theorem CpuHistory.legal (h : CpuHistory env (s :: ss)) : Legal s := by
  obtain ⟨_, ⟨ram, host, rfl⟩, hrun⟩ := History.run h
  exact CpuSteps.legal hrun (legal_init ram host)

/-- With the registers of `c`, a walk translates `addr` to `paddr` on the memory of `t`, and changes nothing. -/
def Maps (mm : MainMem) (c : Cpu) (access : Access) (addr paddr : UInt32) (t : RISCVCPUState σ) : Prop :=
  getPhysAddr mm c t.ram addr access = .ok (some paddr, t.ram)

/-- With the registers as they are now, a walk has translated `addr` to `paddr` since the last flush. -/
def MappedSince (mm : MainMem) (access : Access) (addr paddr : UInt32) (s : RISCVCPUState σ)
    (ss : List (RISCVCPUState σ)) : Prop :=
  Since (fun t => ¬ Flushed t.cpu) (Maps mm s.cpu access addr paddr) (s :: ss)

/-- Entry `i` is for a page of RAM, to which a walk has translated its address since the last flush. -/
def Filled (mm : MainMem) (access : Access) (i : Fin 256) (s : RISCVCPUState σ) (ss : List (RISCVCPUState σ)) : Prop :=
  ∃ addr paddr, i = tlbIdx addr ∧ InRam paddr ∧
    tlbOf s.cpu access i = tlbEntry addr (ramPtr (mm.base + 0x1000) 0x1000 paddr) ∧ MappedSince mm access addr paddr s ss

/-- **The entries of trusted TLBs are invalid, or have been filled with no flush since.** -/
theorem CpuHistory.sound (hh : CpuHistory env (s :: ss)) (access : Access) (ht : TlbTrusted access s.cpu) (i : Fin 256) :
    (tlbOf s.cpu access i).vaddr = 0xffffffff ∨ Filled env.mm access i s ss := by
  -- on the history
  generalize hl : s :: ss = l at hh
  induction hh generalizing s ss with
  | init ha =>
    cases hl
    obtain ⟨ram, host, rfl⟩ := ha
    left
    cases access <;> rfl
  | @step s₀ s' ss₀ hpre hstep ih =>
    cases hl
    rcases hstep.kept (CpuHistory.legal hpre).control.priv ht with hflush | ⟨hkept, hentry⟩
    · exact .inl (hflush access i)
    have hsame := hkept.same
    rcases hentry i with heq | ⟨addr, ptr, ⟨paddr, base, size, physMem, hwalk, hpr, rfl⟩, hi, he⟩
    · rw [heq]
      rcases ih (hkept.trusted ht) rfl with hinv | ⟨addr, paddr, hi, hin, he, hsince⟩
      · exact .inl hinv
      · by_cases hflush : Flushed s'.cpu
        · exact .inl (heq ▸ hflush access i)
        · refine .inr ⟨addr, paddr, hi, hin, heq.trans he, .before hflush (hsince.mono (fun t hmaps => ?_))⟩
          show getPhysAddr env.mm s'.cpu t.ram addr access = _
          rw [getPhysAddr_congr hsame]
          exact hmaps
    -- the walk can be repeated on the memory that it has left
    · obtain ⟨hrange, h0, h1⟩ := getPhysMemRange_is_ram hpr rfl
      cases hrange
      refine .inr ⟨addr, paddr, hi, ⟨h0, h1⟩, he, .now ?_⟩
      show getPhysAddr env.mm s'.cpu s'.ram addr access = _
      rw [getPhysAddr_congr hsame]
      exact getPhysAddr_repeat hwalk

/-- The other addresses of the page have been translated with it. -/
theorem MappedSince.page {addr addr' paddr paddr' : UInt32} (hm : MappedSince mm access addr paddr s ss)
    (hpage : addr'.toNat / 4096 = addr.toNat / 4096) (hpaddr : paddr'.toNat / 4096 = paddr.toNat / 4096)
    (hoff : paddr'.toNat % 4096 = addr'.toNat % 4096) : MappedSince mm access addr' paddr' s ss := by
  refine Since.mono hm (fun t hmaps => ?_)
  obtain ⟨p, hwalk, hsame⟩ := getPhysAddr_page hmaps hpage
  have hp : p = paddr' := by
    have h := getPhysAddr_offset hwalk
    rw [← UInt32.toNat_inj]
    omega
  rw [← hp]
  exact hwalk

/-- The tag of an access is not the one of an invalid entry. -/
theorem tlbTag_ne_invalid (addr : UInt32) {k : Nat} (hk : k ≤ 3) : tlbTag addr k ≠ 0xffffffff := by
  intro h
  -- it has zeros between the offset bits and the page
  have htag := tlbTag_toNat addr hk
  have hmod : addr.toNat % 2 ^ k < 8 :=
    (Nat.mod_lt _ (by positivity)).trans_le (Nat.le_of_dvd (by decide) (size_dvd hk))
  rw [h, show (0xffffffff : UInt32).toNat = 4294967295 by decide] at htag
  omega

/-- **A hit** is for an aligned address of the page that the entry was filled for. -/
theorem tlbEntry_hit {addr₀ paddr₀ addr : UInt32} {k : Nat} (hk : k ≤ 3) (hin : InRam paddr₀)
    (hoff : paddr₀.toNat % 4096 = addr₀.toNat % 4096)
    (hhit : (tlbEntry addr₀ (ramPtr (mm.base + 0x1000) 0x1000 paddr₀)).vaddr = tlbTag addr k) :
    addr.toNat / 4096 = addr₀.toNat / 4096 ∧ addr.toNat % 2 ^ k = 0 ∧
      ∃ paddr : UInt32, paddr.toNat = paddr₀.toNat / 4096 * 4096 + addr.toNat % 4096 ∧ InRam paddr ∧
        (tlbEntry addr₀ (ramPtr (mm.base + 0x1000) 0x1000 paddr₀)).ptr addr = mm.base + paddr.toNat := by
  have htag := tlbTag_toNat addr hk
  have hmod : addr.toNat % 2 ^ k < 8 :=
    (Nat.mod_lt _ (by positivity)).trans_le (Nat.le_of_dvd (by decide) (size_dvd hk))
  have hvaddr : (pageOf addr₀).toNat = (tlbTag addr k).toNat := congrArg UInt32.toNat hhit
  rw [pageOf_toNat, htag] at hvaddr
  obtain ⟨h0, h1⟩ := hin
  simp only [machRamSize] at h1
  refine ⟨by omega, by omega, UInt32.ofNat (paddr₀.toNat / 4096 * 4096 + addr.toNat % 4096), ?_⟩
  have hpaddr : (UInt32.ofNat (paddr₀.toNat / 4096 * 4096 + addr.toNat % 4096)).toNat =
      paddr₀.toNat / 4096 * 4096 + addr.toNat % 4096 :=
    UInt32.toNat_ofNat_of_lt' (by unfold UInt32.size; omega)
  refine ⟨hpaddr, ?_, ?_⟩
  · unfold InRam
    simp only [machRamSize]
    omega
  · have hfits := mm.fits
    show u64 ((u64 ((ramPtr (mm.base + 0x1000) 0x1000 paddr₀ : Nat) - (addr₀.toNat : Int)) : Nat) + (addr.toNat : Int)) = _
    rw [ramPtr_eq h1, hpaddr]
    simp only [machRamSize] at hfits
    unfold u64
    push_cast
    omega

/-- **What a hit says** is what a walk has said since the last flush. -/
theorem CpuHistory.hit (hh : CpuHistory env (s :: ss)) (ht : TlbTrusted access s.cpu) {k : Nat} (hk : k ≤ 3) {addr : UInt32}
    (hhit : (tlbOf s.cpu access (tlbIdx addr)).vaddr = tlbTag addr k) :
    ∃ paddr, MappedSince env.mm access addr paddr s ss ∧ InRam paddr ∧ addr.toNat % 2 ^ k = 0 ∧
      (tlbOf s.cpu access (tlbIdx addr)).ptr addr = env.mm.base + paddr.toNat := by
  rcases CpuHistory.sound hh access ht (tlbIdx addr) with hinv | ⟨addr₀, paddr₀, -, hin, he, hmapped⟩
  · exact absurd (hhit.symm.trans hinv) (tlbTag_ne_invalid addr hk)
  have hoff : paddr₀.toNat % 4096 = addr₀.toNat % 4096 := by
    obtain ⟨t, hmaps⟩ := hmapped.exists
    exact getPhysAddr_offset hmaps
  rw [he] at hhit ⊢
  obtain ⟨hpage, hal, paddr, hpaddr, hin', hptr⟩ := tlbEntry_hit hk hin hoff hhit
  exact ⟨paddr, hmapped.page hpage (by omega) (by omega), hin', hal, hptr⟩

/-- **What a TLB says is what a page walk says**, in every state that the CPU reaches. Where an access hits, a walk for
    it, with the registers as they are now and on memory as it was at some time since the last flush, comes to the byte
    of RAM that the hit points at. -/
theorem tlb_sound (hs : CpuReachable env s) (ht : TlbTrusted access s.cpu) {k : Nat} (hk : k ≤ 3) {addr : UInt32}
    (hhit : (tlbOf s.cpu access (tlbIdx addr)).vaddr = tlbTag addr k) :
    (∃ ss, CpuHistory env (s :: ss)) ∧ ∀ ss, CpuHistory env (s :: ss) →
      ∃ paddr, MappedSince env.mm access addr paddr s ss ∧ InRam paddr ∧ addr.toNat % 2 ^ k = 0 ∧
        (tlbOf s.cpu access (tlbIdx addr)).ptr addr = env.mm.base + paddr.toNat :=
  ⟨hs.history, fun _ hh => CpuHistory.hit hh ht hk hhit⟩

/-- The page of the first instruction. -/
theorem tlb_sound_reset : ∃ s', CpuReachable quietEnv s' ∧ TlbTrusted .code s'.cpu ∧
    (tlbOf s'.cpu .code (tlbIdx 0x1000)).vaddr = tlbTag 0x1000 1 ∧
    (∃ ss, CpuHistory quietEnv (s' :: ss)) ∧ ∀ ss, CpuHistory quietEnv (s' :: ss) →
      ∃ paddr, MappedSince someMainMem .code 0x1000 paddr s' ss ∧ InRam paddr ∧ (0x1000 : UInt32).toNat % 2 ^ 1 = 0 ∧
        (tlbOf s'.cpu .code (tlbIdx 0x1000)).ptr 0x1000 = someMainMem.base + paddr.toNat := by
  have hok : (interpX quietEnv 8 3 (riscvStateInit (Ram.fill 0) ())).map
      (fun r => r.toOption.map (fun s => (tlbOf s.cpu .code (tlbIdx 0x1000)).vaddr)) = some (some (tlbTag 0x1000 1)) := by
    decide +kernel
  obtain ⟨s', hx, hhit⟩ := returns_of_map hok
  have hs : CpuReachable quietEnv s' := .call 8 3 (.init (Ram.fill 0) ()) (by decide) (by decide) hx
  exact ⟨s', hs, .inl rfl, hhit, tlb_sound hs (.inl rfl) (by decide) hhit⟩

end HadBadge
