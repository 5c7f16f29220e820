import HadBadge.Emu.PeriUart

/-!
# `Correctness.Uart`: what the guest receives

Two statements about runs. The device alone passes on exactly what its callback returns, in order, and a
reported byte stays. With `uart_getchar` as the callback, input can wait in the buffer of the C library where
no FLAG read sees it: exactly the runs that strand it there.
-/

namespace HadBadge

open Lib

variable {σ : Type} {cb : σ → Option UInt8 × σ} {s : UartSys σ}

/-! ## The device -/

/-- The device invariant: `buffered_char` holds `c`, and the bytes returned so far followed by it are the
    results of the callback without the `EOF`s. -/
structure UartInv (s : UartSys σ) (c : Option UInt8) : Prop where
  buffered : s.uart = ⟨charInt c⟩
  exact : s.data ++ c.toList.map UInt8.toUInt32 = (s.got.filterMap id).map UInt8.toUInt32

/-- A poll moves the callback's byte from the record to the buffer. -/
theorem poll_exact (cb : σ → Option UInt8 × σ) (host : σ) (c : Option UInt8) :
    c.toList ++ (polled cb host c).filterMap id = (pollByte cb host c).1.toList := by
  cases c with
  | none => simp only [polled, pollByte]; cases (cb host).1 <;> rfl
  | some b => rfl

/-- The two reads that poll keep the record complete. -/
theorem got_polled {c : Option UInt8} (h : UartInv s c) :
    ((s.got ++ polled cb s.host c).filterMap id).map UInt8.toUInt32
      = s.data ++ (pollByte cb s.host c).1.toList.map UInt8.toUInt32 := by
  rw [List.filterMap_append, List.map_append, ← h.exact, List.append_assoc, ← List.map_append, poll_exact]

/-- **One event keeps the device invariant.** -/
theorem UartInv.step {c : Option UInt8} (h : UartInv s c) (e : UartEvent σ) :
    ∃ c', UartInv (uartStep cb s e) c' := by
  cases e with
  | read offset =>
      by_cases hd : offset = uartDataReg
      · subst hd
        refine ⟨none, ?_, ?_⟩ <;> rw [uartStep_data h.buffered]
        rw [got_polled h]
        simp
      · by_cases hf : offset = uartFlagReg
        · subst hf
          refine ⟨(pollByte cb s.host c).1, ?_, ?_⟩ <;> rw [uartStep_flag h.buffered]
          rw [got_polled h]
        · rw [uartStep_other hd hf]
          exact ⟨c, h⟩
  | write offset val =>
      obtain ⟨sent, hs⟩ := @uartStep_write _ cb s offset val
      rw [hs]
      exact ⟨c, h.buffered, h.exact⟩
  | host change => exact ⟨c, h.buffered, h.exact⟩

/-- **Every run keeps it.** -/
theorem uartInv_run (cb : σ → Option UInt8 × σ) (host : σ) (evs : List (UartEvent σ)) :
    ∃ c, UartInv (run (uartStep cb) (uartStart host) evs) c :=
  run_inv_all (I := fun s => ∃ c, UartInv s c) (fun _ e ⟨_, h⟩ => h.step e) evs ⟨none, rfl, rfl⟩

/-- A buffered byte stays until a DATA read. -/
theorem buffered_step {b : UInt8} (hb : s.uart = ⟨charInt (some b)⟩) {e : UartEvent σ}
    (he : e ≠ .read uartDataReg) : (uartStep cb s e).uart = ⟨charInt (some b)⟩ := by
  cases e with
  | read offset =>
      by_cases hf : offset = uartFlagReg
      · subst hf
        rw [uartStep_flag hb]
        rfl
      · rw [uartStep_other (fun hd => he (by rw [hd])) hf, hb]
  | write offset val =>
      obtain ⟨sent, hs⟩ := @uartStep_write _ cb s offset val
      rw [hs]
      exact hb
  | host change => exact hb

/-- **The UART loses, duplicates and reorders nothing.** For every callback, host and order of accesses: the
    bytes that the DATA reads returned, followed by the byte still buffered, are the results of the callback
    without the `EOF`s, in order. And once a FLAG read has reported RXAV, there is a byte `b` in the buffer
    such that, whatever happens before the next DATA read, every FLAG read reports RXAV and that DATA read
    returns `b`. -/
theorem uart_receive_exact (cb : σ → Option UInt8 × σ) (host : σ) (evs : List (UartEvent σ)) :
    (run (uartStep cb) (uartStart host) evs).data ++ (run (uartStep cb) (uartStart host) evs).uart.pending
        = ((run (uartStep cb) (uartStart host) evs).got.filterMap id).map UInt8.toUInt32 ∧
      (ReportsRxav cb (run (uartStep cb) (uartStart host) evs) →
        ∃ b : UInt8, (run (uartStep cb) (uartStart host) (evs ++ [.read uartFlagReg])).uart.bufferedChar
            = b.toNat ∧
          ∀ evs' : List (UartEvent σ), (∀ e ∈ evs', e ≠ .read uartDataReg) →
            let t := run (uartStep cb) (uartStart host) (evs ++ [.read uartFlagReg] ++ evs')
            ReportsRxav cb t ∧ (uartReadFn cb t.uart t.host uartDataReg).1 = b.toUInt32) := by
  obtain ⟨c, hinv⟩ := uartInv_run cb host evs
  generalize hs : run (uartStep cb) (uartStart host) evs = s at hinv
  refine ⟨?_, ?_⟩
  · rw [hinv.buffered, pending_charInt]
    exact hinv.exact
  -- the FLAG read that reports RXAV has moved `b` to the buffer; the rest of the run keeps it there
  · intro hrxav
    rw [reportsRxav_iff hinv.buffered] at hrxav
    obtain ⟨b, hb⟩ := Option.ne_none_iff_exists'.mp hrxav
    have hflag : (uartStep cb s (.read uartFlagReg)).uart = ⟨charInt (some b)⟩ := by
      rw [uartStep_flag hinv.buffered, hb]
    refine ⟨b, ?_, ?_⟩
    · rw [run_append, hs]
      exact congrArg PeriUart.bufferedChar hflag
    · intro evs' hevs'
      have ht : (run (uartStep cb) (uartStart host) (evs ++ [.read uartFlagReg] ++ evs')).uart
          = ⟨charInt (some b)⟩ := by
        rw [run_append, run_append, hs]
        exact run_inv (P := fun e : UartEvent σ => e ≠ .read uartDataReg)
          (I := fun s : UartSys σ => s.uart = ⟨charInt (some b)⟩)
          (fun s e he hs => buffered_step hs he) hevs' hflag
      refine ⟨(reportsRxav_iff ht).mpr (by simp [pollByte]), ?_⟩
      rw [uartReadFn, if_pos rfl, ht, uartPoll_charInt]
      simp only [pollByte, charInt_byte, byte_mask]

/-- A host that has those bytes for the device. -/
def takeByte : List UInt8 → Option UInt8 × List UInt8
  | []        => (none, [])
  | b :: rest => (some b, rest)

/-- Four bytes, 0xff among them, the first one after two FLAG reads; then there is none. -/
example : (run (uartStep takeByte) (uartStart [255, 0, 65, 66])
    [.read uartFlagReg, .read uartFlagReg, .read uartDataReg, .read uartDataReg, .read 8, .write uartDataReg 88,
      .read uartDataReg, .read uartDataReg, .read uartDataReg]).data = [255, 0, 65, 66] := by
  decide

/-! ## With `uart_getchar` as the callback -/

variable {bufsiz : Nat} {t : UartSys HostInput}

/-- A DATA read in this state leaves bytes where nothing looks for them: it takes the one byte in
    `buffered_char` with the kernel's queue empty, or it empties the queue into the C library's buffer. -/
def Strands (bufsiz : Nat) (s : UartSys HostInput) : Prop :=
  if s.uart.bufferedChar = eof then s.host.stdio = [] ∧ 2 ≤ s.host.kernel.length ∧ s.host.kernel.length ≤ bufsiz
  else s.host.kernel = [] ∧ s.host.stdio ≠ []

/-- If a byte has arrived that no DATA read has returned, a FLAG read reports RXAV. -/
def InputVisible (bufsiz : Nat) (s : UartSys HostInput) : Prop :=
  s.data ≠ s.host.arrived.map UInt8.toUInt32 → ReportsRxav (uartGetchar bufsiz) s

/-- The invariant with the host: every byte that arrived is returned, buffered in the device, in the C
    library's buffer or in the kernel's queue, in this order. -/
structure HostInv (s : UartSys HostInput) (c : Option UInt8) : Prop extends UartInv s c where
  arrived : s.host.arrived = s.got.filterMap id ++ s.host.stdio ++ s.host.kernel

/-- The cases of `uart_getchar`: nothing in the queue, a byte of the C library's buffer, or a refill. -/
theorem uartGetchar_cases (hbuf : 0 < bufsiz) (h : HostInput) :
    (h.kernel = [] ∧ uartGetchar bufsiz h = (none, h)) ∨
    (h.kernel ≠ [] ∧ ∃ c rest, h.stdio = c :: rest ∧
      uartGetchar bufsiz h = (some c, { h with stdio := rest })) ∨
    (h.stdio = [] ∧ ∃ c rest, h.kernel = c :: rest ∧ uartGetchar bufsiz h =
      (some c, { h with kernel := rest.drop (bufsiz - 1), stdio := rest.take (bufsiz - 1) })) := by
  -- `select` sees the kernel's queue only, whatever the C library still holds
  rcases hk : h.kernel with _ | ⟨k, ks⟩
  · exact .inl ⟨rfl, by simp [uartGetchar, hk]⟩
  · rcases hs : h.stdio with _ | ⟨c, rest⟩
    · obtain ⟨n, rfl⟩ : ∃ n, bufsiz = n + 1 := ⟨bufsiz - 1, by omega⟩
      exact .inr (.inr ⟨rfl, k, ks, rfl, by simp [uartGetchar, cGetchar, hk, hs]⟩)
    · exact .inr (.inl ⟨by simp, c, rest, rfl, by simp [uartGetchar, cGetchar, hk, hs]⟩)

/-- `uart_getchar` takes the next byte of what the host holds, and nothing else. -/
theorem uartGetchar_takes (hbuf : 0 < bufsiz) (h : HostInput) :
    (uartGetchar bufsiz h).2.arrived = h.arrived ∧
      (uartGetchar bufsiz h).1.toList ++ ((uartGetchar bufsiz h).2.stdio ++ (uartGetchar bufsiz h).2.kernel)
        = h.stdio ++ h.kernel := by
  rcases uartGetchar_cases hbuf h with ⟨-, he⟩ | ⟨-, c, rest, hs, he⟩ | ⟨hs, c, rest, hk, he⟩
  · rw [he]; exact ⟨rfl, rfl⟩
  · rw [he, hs]; exact ⟨rfl, rfl⟩
  · rw [he, hs, hk]; simp

/-- So does a poll. -/
theorem poll_takes (hbuf : 0 < bufsiz) (h : HostInput) (c : Option UInt8) :
    (pollByte (uartGetchar bufsiz) h c).2.arrived = h.arrived ∧
      (polled (uartGetchar bufsiz) h c).filterMap id ++
        ((pollByte (uartGetchar bufsiz) h c).2.stdio ++ (pollByte (uartGetchar bufsiz) h c).2.kernel)
        = h.stdio ++ h.kernel := by
  cases c with
  | some b => exact ⟨rfl, rfl⟩
  | none =>
      obtain ⟨harr, htake⟩ := uartGetchar_takes hbuf h
      refine ⟨harr, ?_⟩
      rw [← htake]
      simp only [polled, pollByte]
      cases (uartGetchar bufsiz h).1 <;> rfl

/-- The state after one event, with what it leaves in `buffered_char` and on the host. -/
theorem hostStep_cases (bufsiz : Nat) {c : Option UInt8} (h : HostInv t c) (e : HostEvent) :
    (∃ chunk, e = .arrive chunk ∧ hostStep bufsiz t e = { t with host := t.host.arrive chunk }) ∨
    (e = .read uartDataReg ∧ hostStep bufsiz t e =
      { t with
        uart := ⟨charInt none⟩, host := (pollByte (uartGetchar bufsiz) t.host c).2
        got := t.got ++ polled (uartGetchar bufsiz) t.host c
        data := t.data ++ (pollByte (uartGetchar bufsiz) t.host c).1.toList.map UInt8.toUInt32 }) ∨
    (e = .read uartFlagReg ∧ hostStep bufsiz t e =
      { t with
        uart := ⟨charInt (pollByte (uartGetchar bufsiz) t.host c).1⟩
        host := (pollByte (uartGetchar bufsiz) t.host c).2
        got := t.got ++ polled (uartGetchar bufsiz) t.host c }) ∨
    (e ≠ .read uartDataReg ∧ ∃ sent, hostStep bufsiz t e = { t with sent := sent }) := by
  cases e with
  | arrive chunk => exact .inl ⟨chunk, rfl, rfl⟩
  | read offset =>
      by_cases hd : offset = uartDataReg
      · subst hd
        exact .inr (.inl ⟨rfl, uartStep_data h.buffered⟩)
      · by_cases hf : offset = uartFlagReg
        · subst hf
          exact .inr (.inr (.inl ⟨rfl, uartStep_flag h.buffered⟩))
        · exact .inr (.inr (.inr ⟨by simpa using hd, t.sent, uartStep_other hd hf⟩))
  | write offset val => exact .inr (.inr (.inr ⟨by simp, uartStep_write offset val⟩))

/-- **One event keeps the invariant.** -/
theorem HostInv.step (hbuf : 0 < bufsiz) {c : Option UInt8} (h : HostInv t c) (e : HostEvent) :
    ∃ c', HostInv (hostStep bufsiz t e) c' := by
  obtain ⟨harr, htake⟩ := poll_takes hbuf t.host c
  -- a read takes from the front of what the host holds, an arrival adds at the end
  have hgot : t.host.arrived = (t.got ++ polled (uartGetchar bufsiz) t.host c).filterMap id ++
      (pollByte (uartGetchar bufsiz) t.host c).2.stdio ++
      (pollByte (uartGetchar bufsiz) t.host c).2.kernel := by
    rw [h.arrived, List.filterMap_append, List.append_assoc, ← htake]
    simp only [List.append_assoc]
  obtain ⟨c', hdev⟩ := @UartInv.step _ (uartGetchar bufsiz) _ _ h.toUartInv e.toUart
  rcases hostStep_cases bufsiz h e with ⟨chunk, rfl, hs⟩ | ⟨rfl, hs⟩ | ⟨rfl, hs⟩ | ⟨-, sent, hs⟩
  · refine ⟨c', hdev, ?_⟩
    rw [hs]
    simp only [HostInput.arrive, h.arrived, List.append_assoc]
  · exact ⟨c', hdev, by rw [hs]; exact harr.trans hgot⟩
  · exact ⟨c', hdev, by rw [hs]; exact harr.trans hgot⟩
  · exact ⟨c', hdev, by rw [hs]; exact h.arrived⟩

/-- Input is visible unless all of it sits in the C library's buffer. -/
theorem inputVisible_iff (hbuf : 0 < bufsiz) {c : Option UInt8} (h : HostInv t c) :
    InputVisible bufsiz t ↔ (c = none → t.host.kernel = [] → t.host.stdio = []) := by
  -- all bytes are returned exactly when nothing waits at any of the three places
  have hall : t.data ≠ t.host.arrived.map UInt8.toUInt32 ↔
      ¬ (c = none ∧ t.host.stdio = [] ∧ t.host.kernel = []) := by
    rw [h.arrived, List.map_append, List.map_append, ← h.exact]
    simp
  unfold InputVisible
  rw [hall, reportsRxav_iff h.buffered]
  cases c with
  | some b => simp [pollByte]
  | none =>
      rcases uartGetchar_cases hbuf t.host with ⟨hk, he⟩ | ⟨hk, c, rest, -, he⟩ | ⟨-, c, rest, hk, he⟩
      · simp [pollByte, he, hk]
      · simp [pollByte, he, hk]
      · simp [pollByte, he, hk]

/-- `Strands` in terms of the byte in the device. -/
theorem strands_iff {c : Option UInt8} (h : HostInv t c) :
    Strands bufsiz t ↔
      (c = none ∧ t.host.stdio = [] ∧ 2 ≤ t.host.kernel.length ∧ t.host.kernel.length ≤ bufsiz) ∨
      (c ≠ none ∧ t.host.kernel = [] ∧ t.host.stdio ≠ []) := by
  unfold Strands
  simp only [h.buffered, charInt_eq_eof]
  cases c <;> simp

/-- **One event keeps visible input visible exactly when it does not strand any.** -/
theorem inputVisible_step (hbuf : 0 < bufsiz) {c : Option UInt8} (h : HostInv t c)
    (hvis : InputVisible bufsiz t) (e : HostEvent) :
    InputVisible bufsiz (hostStep bufsiz t e) ↔ (e = .read uartDataReg → ¬ Strands bufsiz t) := by
  obtain ⟨c', h'⟩ := h.step hbuf e
  rw [inputVisible_iff hbuf h] at hvis
  rw [inputVisible_iff hbuf h', strands_iff h]
  have hflag : uartFlagReg ≠ uartDataReg := by decide
  have hbuffered := h'.buffered
  rcases hostStep_cases bufsiz h e with ⟨chunk, rfl, hs⟩ | ⟨rfl, hs⟩ | ⟨rfl, hs⟩ | ⟨hne, sent, hs⟩
  · rw [hs] at hbuffered ⊢
    obtain rfl : c = c' := charInt_inj (by rw [h.buffered] at hbuffered; exact PeriUart.mk.inj hbuffered)
    -- an arrival only grows the kernel's queue
    refine iff_of_true ?_ (fun he => by cases he)
    intro hc hk
    apply hvis hc
    exact (List.append_eq_nil_iff.mp hk).1
  · rw [hs] at hbuffered ⊢
    obtain rfl : c' = none := charInt_inj (PeriUart.mk.inj hbuffered).symm
    simp only [true_imp_iff]
    -- what a DATA read leaves must not all be in the C library's buffer
    cases c with
    | some b => simp [pollByte]
    | none =>
        rcases uartGetchar_cases hbuf t.host with ⟨hk, he⟩ | ⟨hk, c, rest, hst, he⟩ | ⟨hst, c, rest, hk, he⟩
        · simp [pollByte, he, hk, hvis rfl hk]
        · simp [pollByte, he, hk, hst]
        · have hlen : rest = [] ↔ rest.length = 0 := List.length_eq_zero_iff.symm
          simp only [pollByte, he, hk, hst, List.drop_eq_nil_iff, List.take_eq_nil_iff, List.length_cons, hlen]
          simp only [true_and, ne_eq, reduceCtorEq, not_true, false_and, or_false]
          omega
  · rw [hs] at hbuffered ⊢
    obtain rfl := charInt_inj (PeriUart.mk.inj hbuffered)
    -- a FLAG read keeps a byte in the device if the kernel's queue had one
    refine iff_of_true ?_ (fun he => absurd (by injection he) hflag)
    cases c with
    | some b => simp [pollByte]
    | none =>
        rcases uartGetchar_cases hbuf t.host with ⟨hk, he⟩ | ⟨-, c, rest, -, he⟩ | ⟨-, c, rest, -, he⟩
        · simp [pollByte, he, hvis rfl hk]
        · simp [pollByte, he]
        · simp [pollByte, he]
  · rw [hs] at hbuffered ⊢
    obtain rfl : c = c' := charInt_inj (by rw [h.buffered] at hbuffered; exact PeriUart.mk.inj hbuffered)
    exact iff_of_true hvis (fun he => absurd he hne)

/-- Nothing has arrived yet. -/
def noInput : HostInput := ⟨[], [], []⟩

/-- **Pending input is visible exactly in the runs that never strand it.** For every order of arrivals and
    accesses: in every state of the run each byte that waits makes a FLAG read report RXAV, if and only if
    no DATA read is made in a state where it strands bytes in the C library's buffer. -/
theorem input_visible_iff (hbuf : 0 < bufsiz) (evs : List HostEvent) :
    Always (hostStep bufsiz) (InputVisible bufsiz) (uartStart noInput) evs ↔
      Steps (hostStep bufsiz) (fun s e => e = .read uartDataReg → ¬ Strands bufsiz s)
        (uartStart noInput) evs := by
  have hstart : HostInv (uartStart noInput) none := ⟨⟨rfl, rfl⟩, rfl⟩
  exact always_iff_steps (I := fun s => ∃ c, HostInv s c) (fun s e ⟨_, h⟩ => h.step hbuf e)
    (fun s e ⟨_, h⟩ hvis => inputVisible_step hbuf h hvis e) evs ⟨none, hstart⟩
    ((inputVisible_iff hbuf hstart).mpr (fun _ _ => rfl))

/-- Two bytes arrive at once and the guest reads one. -/
def typedAhead : List HostEvent := [.arrive [104, 105], .read uartDataReg]

theorem input_visible_iff_typedAhead :
    Always (hostStep 1024) (InputVisible 1024) (uartStart noInput) typedAhead ↔
      Steps (hostStep 1024) (fun s e => e = .read uartDataReg → ¬ Strands 1024 s) (uartStart noInput)
        typedAhead :=
  input_visible_iff (by decide) typedAhead

/-- The second byte waits in the C library's buffer and no FLAG read shows it. -/
theorem typedAhead_hidden :
    ¬ ∀ (bufsiz : Nat) (evs : List HostEvent), 0 < bufsiz →
      InputVisible bufsiz (run (hostStep bufsiz) (uartStart noInput) evs) := by
  intro h
  exact absurd (h 1024 typedAhead (by decide) (by decide)) (by decide)

end HadBadge
