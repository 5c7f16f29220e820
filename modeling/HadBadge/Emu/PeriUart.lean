import HadBadge.MachDefines
import HadBadge.Lib.Run

/-!
# `Emu.PeriUart`: the UART and the host input behind it

The two device callbacks of `emu/peri_uart.c` and `uart_getchar` of `emu/main.c`. The device is generic in
the state `σ` of the host that its callback reads from. The `printf` of the undefined-register branches is
left out.

## Contents
- **Device.** `PeriUart`, `uartReadFn`, `uartWriteFn`; `buffered_char` is an `int` with `EOF` in band, and
  `charInt` is the `int` for a result of the callback.
- **Runs.** `uartStep`: guest accesses and changes on the host side in any order, with the results of the
  callback and the bytes handed to the guest recorded.
- **Host input.** `uartGetchar` over the kernel's queue and the buffer of the C library.
-/

namespace HadBadge

open Lib

/-- `EOF`. -/
def eof : Int := -1

/-- A result of `getchar_cb` as the `int` that C has for it. -/
def charInt : Option UInt8 → Int
  | none   => eof
  | some c => c.toNat

/-- `peri_uart_t` without its callbacks and its `mem_range`. -/
structure PeriUart where
  bufferedChar : Int
  deriving DecidableEq, Repr

/-- The device as `peri_uart_init` leaves it. -/
def periUartInit : PeriUart := ⟨eof⟩

variable {σ : Type}

/-- `if (u->buffered_char==EOF) u->buffered_char=u->getchar_cb();`. -/
def uartPoll (getcharCb : σ → Option UInt8 × σ) (u : PeriUart) (host : σ) : PeriUart × σ :=
  if u.bufferedChar = eof then (⟨charInt (getcharCb host).1⟩, (getcharCb host).2) else (u, host)

/-- `uart_read_fn`. -/
def uartReadFn (getcharCb : σ → Option UInt8 × σ) (u : PeriUart) (host : σ) (offset : UInt32) :
    UInt32 × PeriUart × σ :=
  if offset = uartDataReg then
    let (u, host) := uartPoll getcharCb u host
    (UInt32.ofNat (u32 u.bufferedChar) &&& 0xff, ⟨eof⟩, host)
  else if offset = uartFlagReg then
    let (u, host) := uartPoll getcharCb u host
    (uartFlagTxdone ||| (if u.bufferedChar ≠ eof then uartFlagRxav else 0), u, host)
  else (0, u, host)

/-- `uart_write_fn`: the character it hands to `putchar_cb`, if any. The device's state stays as it is. -/
def uartWriteFn (u : PeriUart) (offset val : UInt32) : PeriUart × Option UInt8 :=
  if offset = uartDataReg then (u, some (val &&& 0xff).toUInt8) else (u, none)

/-! ## Runs -/

/-- A guest access, or a change of the host's state. -/
inductive UartEvent (σ : Type) where
  | read (offset : UInt32)
  | write (offset val : UInt32)
  | host (change : σ → σ)

/-- The device, its host, and what has passed between them. -/
structure UartSys (σ : Type) where
  uart : PeriUart
  host : σ
  /-- the results of `getchar_cb`, oldest first -/
  got : List (Option UInt8)
  /-- the values of the DATA reads that had a byte available, oldest first -/
  data : List UInt32
  /-- the characters handed to `putchar_cb`, oldest first -/
  sent : List UInt8

/-- The state after `peri_uart_init`. -/
def uartStart (host : σ) : UartSys σ := ⟨periUartInit, host, [], [], []⟩

/-- The callback with its results recorded. -/
def recorded (getcharCb : σ → Option UInt8 × σ) (host : σ × List (Option UInt8)) :
    Option UInt8 × σ × List (Option UInt8) :=
  ((getcharCb host.1).1, (getcharCb host.1).2, host.2 ++ [(getcharCb host.1).1])

/-- A DATA read in this state has a byte available: one is buffered or the callback gives one. -/
def available (getcharCb : σ → Option UInt8 × σ) (s : UartSys σ) : Bool :=
  s.uart.bufferedChar ≠ eof || (getcharCb s.host).1.isSome

/-- One event. -/
def uartStep (getcharCb : σ → Option UInt8 × σ) (s : UartSys σ) : UartEvent σ → UartSys σ
  | .read offset =>
      let (val, uart, host, got) := uartReadFn (recorded getcharCb) s.uart (s.host, s.got) offset
      { s with
        uart := uart, host := host, got := got
        data := if offset = uartDataReg ∧ available getcharCb s then s.data ++ [val] else s.data }
  | .write offset val =>
      let (uart, c) := uartWriteFn s.uart offset val
      { s with uart := uart, sent := s.sent ++ c.toList }
  | .host change => { s with host := change s.host }

/-- The byte in `buffered_char`, if there is one. -/
def PeriUart.pending (u : PeriUart) : List UInt32 :=
  if u.bufferedChar = eof then [] else [UInt32.ofNat (u32 u.bufferedChar)]

/-- A FLAG read in this state reports RXAV. -/
def ReportsRxav (getcharCb : σ → Option UInt8 × σ) (s : UartSys σ) : Prop :=
  (uartReadFn getcharCb s.uart s.host uartFlagReg).1 &&& uartFlagRxav ≠ 0

instance (getcharCb : σ → Option UInt8 × σ) (s : UartSys σ) : Decidable (ReportsRxav getcharCb s) := by
  unfold ReportsRxav; infer_instance

/-! ## Host input -/

/-- Bytes from the host that have not reached the device: those in the kernel's queue for descriptor 0 and
    those in the buffer of `stdin`. `arrived` records all bytes that ever came. -/
structure HostInput where
  kernel : List UInt8
  stdio : List UInt8
  arrived : List UInt8
  deriving DecidableEq, Repr

/-- `getchar()`: the next buffered byte; on an empty buffer, first a `read` of at most `bufsiz` bytes. A
    `read` with nothing in the queue would block, which `uart_getchar` rules out. -/
def cGetchar (bufsiz : Nat) (h : HostInput) : Option UInt8 × HostInput :=
  match h.stdio with
  | c :: rest => (some c, { h with stdio := rest })
  | [] =>
      match h.kernel.take bufsiz with
      | c :: rest => (some c, { h with kernel := h.kernel.drop bufsiz, stdio := rest })
      | []        => (none, h)

/-- `uart_getchar`: `select` looks at the kernel's queue only. -/
def uartGetchar (bufsiz : Nat) (h : HostInput) : Option UInt8 × HostInput :=
  if h.kernel = [] then (none, h) else cGetchar bufsiz h

/-- A chunk of input arrives. -/
def HostInput.arrive (chunk : List UInt8) (h : HostInput) : HostInput :=
  { h with kernel := h.kernel ++ chunk, arrived := h.arrived ++ chunk }

/-- What happens to a UART whose callback is `uart_getchar`. -/
inductive HostEvent where
  | arrive (chunk : List UInt8)
  | read (offset : UInt32)
  | write (offset val : UInt32)

def HostEvent.toUart : HostEvent → UartEvent HostInput
  | .arrive chunk     => .host (HostInput.arrive chunk)
  | .read offset      => .read offset
  | .write offset val => .write offset val

/-- One event of the UART with `uart_getchar` as its callback. -/
def hostStep (bufsiz : Nat) (s : UartSys HostInput) (e : HostEvent) : UartSys HostInput :=
  uartStep (uartGetchar bufsiz) s e.toUart

/-! ## What one access does -/

variable {cb : σ → Option UInt8 × σ} {s : UartSys σ}

theorem charInt_eq_eof {c : Option UInt8} : charInt c = eof ↔ c = none := by
  cases c with
  | none => simp [charInt]
  | some b => simp only [charInt, eof, reduceCtorEq]

theorem charInt_inj {c c' : Option UInt8} (h : charInt c = charInt c') : c = c' := by
  cases c with
  | none => exact (charInt_eq_eof.mp h.symm).symm
  | some b =>
    cases c' with
    | none => exact charInt_eq_eof.mp h
    | some b' =>
        simp only [charInt, Nat.cast_inj, UInt8.toNat_inj] at h
        rw [h]

/-- What a poll leaves in `buffered_char`, and the host after it. -/
def pollByte (cb : σ → Option UInt8 × σ) (host : σ) : Option UInt8 → Option UInt8 × σ
  | some b => (some b, host)
  | none   => cb host

theorem uartPoll_charInt (c : Option UInt8) (host : σ) :
    uartPoll cb ⟨charInt c⟩ host = (⟨charInt (pollByte cb host c).1⟩, (pollByte cb host c).2) := by
  cases c with
  | none => simp [uartPoll, charInt, pollByte]
  | some b =>
      have hne : charInt (some b) ≠ eof := fun he => by cases charInt_eq_eof.mp he
      simp only [uartPoll, hne, if_false, pollByte]

/-- A buffered byte survives the trip through `int` and the mask. -/
theorem charInt_byte (b : UInt8) : UInt32.ofNat (u32 (charInt (some b))) = b.toUInt32 := by
  have hb := b.toNat_lt
  apply UInt32.toNat_inj.mp
  rw [charInt, u32_natCast, UInt32.toNat_ofNat_of_lt' (by simp only [UInt32.size]; omega),
    UInt8.toNat_toUInt32]
  omega

theorem byte_mask (b : UInt8) : b.toUInt32 &&& 0xff = b.toUInt32 := by
  have hb := b.toNat_lt
  apply UInt32.toNat_inj.mp
  rw [UInt32.toNat_and, UInt8.toNat_toUInt32]
  exact (Nat.and_two_pow_sub_one_eq_mod b.toNat 8).trans (Nat.mod_eq_of_lt hb)

theorem pending_charInt (c : Option UInt8) :
    PeriUart.pending ⟨charInt c⟩ = c.toList.map UInt8.toUInt32 := by
  cases c with
  | none => simp [PeriUart.pending, charInt]
  | some b =>
      have hne : charInt (some b) ≠ eof := fun he => by cases charInt_eq_eof.mp he
      simp only [PeriUart.pending, hne, if_false, charInt_byte]
      rfl

/-- A FLAG read reports RXAV exactly when its poll leaves a byte. -/
theorem reportsRxav_iff {c : Option UInt8} (hc : s.uart = ⟨charInt c⟩) :
    ReportsRxav cb s ↔ (pollByte cb s.host c).1 ≠ none := by
  have hflag : uartFlagReg ≠ uartDataReg := by decide
  unfold ReportsRxav uartReadFn
  rw [if_neg hflag, if_pos rfl, hc, uartPoll_charInt]
  -- RXAV is the only bit that depends on the poll
  by_cases hp : (pollByte cb s.host c).1 = none
  · simp only [charInt_eq_eof, hp, ne_eq, not_true, if_false]
    decide
  · simp only [charInt_eq_eof, hp, ne_eq, not_false_eq_true, if_true]
    decide

/-- A byte is available exactly when a poll leaves one. -/
theorem available_iff {c : Option UInt8} (hc : s.uart = ⟨charInt c⟩) :
    available cb s = true ↔ (pollByte cb s.host c).1 ≠ none := by
  unfold available
  rw [hc, Bool.or_eq_true, decide_eq_true_iff, ne_eq, charInt_eq_eof, Option.isSome_iff_ne_none]
  cases c with
  | none => simp [pollByte]
  | some b => simp [pollByte]

/-- The results recorded by a poll: the callback's when it was called. -/
def polled (cb : σ → Option UInt8 × σ) (host : σ) : Option UInt8 → List (Option UInt8)
  | some _ => []
  | none   => [(cb host).1]

theorem uartPoll_recorded (c : Option UInt8) (host : σ) (got : List (Option UInt8)) :
    uartPoll (recorded cb) ⟨charInt c⟩ (host, got)
      = (⟨charInt (pollByte cb host c).1⟩, (pollByte cb host c).2, got ++ polled cb host c) := by
  cases c with
  | none => rw [uartPoll_charInt]; rfl
  | some b => rw [uartPoll_charInt]; simp [pollByte, polled]

/-- **A DATA read** takes the polled byte. -/
theorem uartStep_data {c : Option UInt8} (hc : s.uart = ⟨charInt c⟩) :
    uartStep cb s (.read uartDataReg) =
      { s with
        uart := ⟨charInt none⟩, host := (pollByte cb s.host c).2, got := s.got ++ polled cb s.host c
        data := s.data ++ (pollByte cb s.host c).1.toList.map UInt8.toUInt32 } := by
  have hav : available cb s = true ↔ (pollByte cb s.host c).1 ≠ none := available_iff hc
  simp only [uartStep, uartReadFn, if_true, hc, uartPoll_recorded, true_and]
  -- a DATA read without a byte returns the low bits of `EOF`, which nothing records
  cases hp : (pollByte cb s.host c).1 with
  | none =>
      have hno : available cb s = false := by
        rw [← Bool.not_eq_true, hav, hp]; simp
      simp [hno, charInt]
  | some b =>
      have hyes : available cb s = true := by rw [hav, hp]; simp
      simp [hyes, byte_mask, charInt]

/-- **A FLAG read** keeps the polled byte. -/
theorem uartStep_flag {c : Option UInt8} (hc : s.uart = ⟨charInt c⟩) :
    uartStep cb s (.read uartFlagReg) =
      { s with
        uart := ⟨charInt (pollByte cb s.host c).1⟩, host := (pollByte cb s.host c).2
        got := s.got ++ polled cb s.host c } := by
  have hflag : uartFlagReg ≠ uartDataReg := by decide
  simp only [uartStep, uartReadFn, hflag, if_false, if_true, hc, uartPoll_recorded, false_and]

/-- **A read of any other offset** changes nothing. -/
theorem uartStep_other {offset : UInt32} (hd : offset ≠ uartDataReg) (hf : offset ≠ uartFlagReg) :
    uartStep cb s (.read offset) = s := by
  simp only [uartStep, uartReadFn, hd, hf, if_false, false_and]

/-- **A write** only reaches `putchar_cb`. -/
theorem uartStep_write (offset val : UInt32) :
    ∃ sent, uartStep cb s (.write offset val) = { s with sent := sent } := by
  by_cases h : offset = uartDataReg
  · refine ⟨s.sent ++ [(val &&& 0xff).toUInt8], ?_⟩
    simp only [uartStep, uartWriteFn, h, if_true, Option.toList_some]
  · refine ⟨s.sent, ?_⟩
    simp only [uartStep, uartWriteFn, h, if_false, Option.toList_none, List.append_nil]

end HadBadge
