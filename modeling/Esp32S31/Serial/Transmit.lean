import Mathlib.Algebra.GroupWithZero.Nat
import Mathlib.Tactic.ByContra
import Esp32S31.Lib.Machine

/-!
# The transmitter of the UART

The bytes of the terminal wait in the software queue of the port; `esp32_uart_transmit_buffer` moves
them to the TX FIFO, when the terminal has written (`start_tx`) and when the FIFO runs empty (the
interrupt TXFIFO_EMPTY, which it enables while bytes wait and disables when none do). The console
writes into the FIFO too and waits for room (`esp32_uart_put_char_sync`), for a second at most. The
transmitter takes bytes out of the FIFO at any time, also between two accesses of the driver. On
this single hart, the port lock and the interrupt handler let one call finish before the next one
starts.

A call that meets a full FIFO leaves without the enabling of the interrupt. When the interrupt is
off then, because the console has filled the FIFO, the bytes wait for the next call (`skipped`).

* **`tx_in_order`**: the FIFO never overflows, and the bytes of the terminal leave in the order they
  were written in, none lost and none twice.
* **`tx_drains`**: left alone and not stopped, the driver and the transmitter come to rest after a
  bounded number of steps, and then all bytes of the terminal are on the line, unless a call has met
  a full FIFO with the interrupt off.
-/

namespace Esp32S31.Serial

open Esp32S31.Lib

/-- `ESP32_UART_TX_FIFO_SIZE`. -/
def uartTxFifoSize : Nat := 127

/-- `UART_TXFIFO_EMPTY_THRHD`, as `esp32_uart_startup` sets it: the interrupt is on below it. -/
def uartTxfifoEmptyThrhd : Nat := 1

/-- Who has put a byte into the FIFO. -/
inductive Source where
  | tty
  /-- `x_char`, the flow control of the terminal -/
  | flow
  | console
  deriving DecidableEq

/-- Where the call of the driver is. -/
inductive TxPc where
  | idle
  /-- `esp32_uart_transmit_buffer`, before it reads the level of the FIFO -/
  | count
  /-- in `uart_port_tx_limited`, with room for so many bytes -/
  | loop (room : Nat)
  /-- `esp32_uart_console_write`, with these bytes to go -/
  | console (bs : List UInt8)
  deriving DecidableEq

structure TxSys where
  /-- `xmit_fifo` of the port -/
  xmit : List UInt8
  /-- `x_char` of the port -/
  xChar : Option UInt8
  /-- `uart_tx_stopped` -/
  stopped : Bool
  fifo : List (Source × UInt8)
  /-- TXFIFO_EMPTY in UART_INT_ENA_REG -/
  ena : Bool
  pc : TxPc
  /-- what the line has carried, and what the terminal has written -/
  wire : List (Source × UInt8)
  written : List UInt8
  /-- the last call has met a full FIFO with the interrupt off -/
  skipped : Bool

inductive TxAct where
  /-- the transmitter takes a byte -/
  | hw
  /-- `uart_write` -/
  | write (bs : List UInt8)
  /-- `uart_send_xchar` -/
  | sendXchar (c : UInt8)
  /-- `uart_stop` -/
  | stop
  /-- `uart_start` -/
  | start
  /-- `esp32_uart_int` -/
  | int
  /-- `esp32_uart_console_write` -/
  | console (bs : List UInt8)
  /-- the call goes on -/
  | cpu
  /-- the console has waited for too long -/
  | timeout
  deriving DecidableEq

namespace TxSys

/-- `esp32_uart_put_char`. -/
def putChar (s : TxSys) (e : Source × UInt8) : TxSys := { s with fifo := s.fifo ++ [e] }

/-- The end of `esp32_uart_transmit_buffer`: `uart_port_tx_limited` stops the transmission when no
byte waits, and the rest enables the interrupt when one does. -/
def finish (s : TxSys) : TxSys := { s with ena := !s.xmit.isEmpty, pc := .idle, skipped := false }

/-- A step of the call. -/
def cpuStep (s : TxSys) : Option TxSys :=
  match s.pc with
  | .idle => none
  | .count =>
    if uartTxFifoSize ≤ s.fifo.length then some { s with pc := .idle, skipped := !s.ena }
    else some { s with pc := .loop (uartTxFifoSize - s.fifo.length) }
  | .loop 0 => some s.finish
  | .loop (room + 1) =>
    match s.xChar with
    | some c => some { s.putChar (.flow, c) with xChar := none, pc := .loop room }
    | none =>
      if s.stopped then some s.finish
      else match s.xmit with
      | [] => some s.finish
      | c :: cs => some { s.putChar (.tty, c) with xmit := cs, pc := .loop room }
  | .console [] => some { s with pc := .idle }
  | .console (c :: cs) =>
    if uartTxFifoSize ≤ s.fifo.length then none
    else some { s.putChar (.console, c) with pc := .console cs }

/-- The start of a call. -/
def begin (a : TxAct) (s : TxSys) : Option TxSys :=
  match a with
  | .write bs => some { s with
    xmit := s.xmit ++ bs
    written := s.written ++ bs
    pc := if s.stopped then .idle else .count }
  | .sendXchar c => some { s with xChar := some c, pc := .count }
  | .stop => some { s with stopped := true, ena := false }
  | .start => some { s with stopped := false, pc := .count }
  | .int =>
    if s.ena = true ∧ s.fifo.length < uartTxfifoEmptyThrhd then some { s with pc := .count }
    else none
  | .console bs => some { s with pc := .console bs }
  | .hw | .cpu | .timeout => none

def step (a : TxAct) (s : TxSys) : Option TxSys :=
  match a with
  | .hw =>
    match s.fifo with
    | [] => none
    | e :: es => some { s with fifo := es, wire := s.wire ++ [e] }
  | .cpu => s.cpuStep
  | .timeout =>
    match s.pc with
    | .console (_ :: cs) =>
      if uartTxFifoSize ≤ s.fifo.length then some { s with pc := .console cs } else none
    | _ => none
  | _ => if s.pc = .idle then s.begin a else none

/-- The bytes of the terminal among what has passed the FIFO. -/
def ttyBytes (es : List (Source × UInt8)) : List UInt8 :=
  (es.filter (·.1 = .tty)).map Prod.snd

end TxSys

/-- Nothing has been written. -/
def txSys : Machine TxAct TxSys where
  init s := s.xmit = [] ∧ s.xChar = none ∧ s.fifo.length ≤ uartTxFifoSize ∧ s.ena = false ∧
    s.pc = .idle ∧ TxSys.ttyBytes (s.wire ++ s.fifo) = [] ∧ s.written = [] ∧ s.skipped = false
  step := TxSys.step

/-- The steps of the driver and of the transmitter. -/
def TxAct.Internal : TxAct → TxSys → Prop
  | .hw, _ | .int, _ | .cpu, _ | .timeout, _ => True
  | _, _ => False

instance (a : TxAct) (s : TxSys) : Decidable (TxAct.Internal a s) := by
  cases a <;> unfold TxAct.Internal <;> infer_instance

/-! ## What holds in every state -/

namespace TxSys

@[simp] theorem ttyBytes_append (xs ys : List (Source × UInt8)) :
    ttyBytes (xs ++ ys) = ttyBytes xs ++ ttyBytes ys := by
  simp [ttyBytes, List.filter_append]

@[simp] theorem ttyBytes_tty (c : UInt8) : ttyBytes [(.tty, c)] = [c] := rfl

@[simp] theorem ttyBytes_flow (c : UInt8) : ttyBytes [(.flow, c)] = [] := rfl

@[simp] theorem ttyBytes_console (c : UInt8) : ttyBytes [(.console, c)] = [] := rfl

/-- The call moves bytes to the FIFO. -/
def sending (s : TxSys) : Prop := s.pc = .count ∨ ∃ room, s.pc = .loop room

structure Inv (s : TxSys) : Prop where
  bound : s.fifo.length ≤ uartTxFifoSize
  room : ∀ room, s.pc = .loop room → s.fifo.length + room ≤ uartTxFifoSize
  order : ttyBytes (s.wire ++ s.fifo) ++ s.xmit = s.written
  /-- bytes that wait are noticed -/
  noticed : s.xmit ≠ [] → s.stopped = false → s.ena = true ∨ s.sending ∨ s.skipped = true
  waiting : s.ena = true → s.xmit ≠ [] ∨ ∃ room, s.pc = .loop room
  flow : s.xChar ≠ none → s.stopped = false → s.ena = true ∨ s.sending ∨ s.skipped = true
  full : s.pc = .loop 0 → s.xChar = none

variable {s s' : TxSys} {a : TxAct}

theorem Inv.init (h : txSys.init s) : s.Inv := by
  obtain ⟨hx, hc, hf, he, hp, ht, hw, -⟩ := h
  refine ⟨hf, ?_, ?_, ?_, ?_, ?_, ?_⟩
  · simp [hp]
  · rw [ht, hx, hw]
    rfl
  · simp [hx]
  · simp [he]
  · simp [hc]
  · simp [hc]

/-- A byte moves from the FIFO to the line. -/
theorem Inv.hw (h : s.Inv) {e : Source × UInt8} {es : List (Source × UInt8)}
    (hf : s.fifo = e :: es) : ({ s with fifo := es, wire := s.wire ++ [e] } : TxSys).Inv := by
  have hlen : s.fifo.length = es.length + 1 := by
    rw [hf]
    rfl
  refine ⟨?_, fun room hp => ?_, ?_, h.noticed, h.waiting, h.flow, h.full⟩
  · have := h.bound
    dsimp only
    omega
  · have := h.room room hp
    dsimp only
    omega
  · have ho := h.order
    rw [hf] at ho
    simpa using ho

theorem Inv.finish (h : s.Inv) (hx : s.xChar = none) : s.finish.Inv := by
  refine ⟨h.bound, fun room hp => absurd hp (by simp [TxSys.finish]), h.order, fun hn _ => ?_,
    fun he => ?_, fun hc _ => absurd hx hc, fun _ => hx⟩
  · refine .inl ?_
    simpa [TxSys.finish] using hn
  · refine .inl ?_
    simpa [TxSys.finish] using he

/-- A byte goes into the FIFO, which has room for it. -/
theorem Inv.put (h : s.Inv) {room : Nat} (hp : s.pc = .loop (room + 1)) {e : Source × UInt8}
    {xmit : List UInt8} {xChar : Option UInt8} (hs : s' = { s.putChar e with
      xmit := xmit, xChar := xChar, pc := .loop room })
    (hx : ttyBytes [e] ++ xmit = s.xmit) (hc : xChar = none) : s'.Inv := by
  subst hs
  have hroom := h.room (room + 1) hp
  refine ⟨?_, fun r hr => ?_, ?_, fun _ _ => .inr (.inl (.inr ⟨_, rfl⟩)), fun _ => .inr ⟨_, rfl⟩,
    fun hn _ => absurd hc hn, fun _ => hc⟩
  · simp only [putChar, List.length_append, List.length_cons, List.length_nil]
    omega
  · obtain rfl := TxPc.loop.inj hr
    simp only [putChar, List.length_append, List.length_cons, List.length_nil]
    omega
  · have ho := h.order
    rw [← hx] at ho
    simpa [putChar] using ho

/-- The console goes on, or leaves. -/
theorem Inv.console (h : s.Inv) {bs : List UInt8} (hp : s.pc = .console bs) (pc : TxPc)
    (hpc : pc = .idle ∨ ∃ cs, pc = .console cs) : ({ s with pc := pc } : TxSys).Inv := by
  have hsend : ¬ s.sending := by
    simp [sending, hp]
  have hno : ∀ room, pc ≠ .loop room := by
    rintro room rfl
    rcases hpc with hpc | ⟨cs, hpc⟩ <;> exact absurd hpc (by simp)
  refine ⟨h.bound, fun room hr => absurd hr (hno room), h.order, fun hn hst => ?_, fun he => ?_,
    fun hc hst => ?_, fun hr => absurd hr (hno 0)⟩
  · exact (h.noticed hn hst).imp id fun hk => .inr (hk.resolve_left hsend)
  · exact (h.waiting he).imp id fun ⟨room, hr⟩ => absurd hr (by simp [hp])
  · exact (h.flow hc hst).imp id fun hk => .inr (hk.resolve_left hsend)

theorem Inv.cpu (h : s.Inv) (hs : s.cpuStep = some s') : s'.Inv := by
  unfold TxSys.cpuStep at hs
  cases hp : s.pc with
  | idle =>
    rw [hp] at hs
    exact absurd hs (by simp)
  | count =>
    rw [hp] at hs
    dsimp only at hs
    split at hs
    · rename_i hfull
      obtain rfl := Option.some.inj hs
      have hskip : s.ena = true ∨ (!s.ena) = true := by
        cases s.ena <;> simp
      refine ⟨h.bound, fun room hr => absurd hr (by simp), h.order, fun hn _ => ?_, fun he => ?_,
        fun _ _ => ?_, fun hr => absurd hr (by simp)⟩
      · exact hskip.imp id .inr
      · exact (h.waiting he).imp id fun hr => absurd hr (by simp [hp])
      · exact hskip.imp id .inr
    · rename_i hroom
      obtain rfl := Option.some.inj hs
      refine ⟨h.bound, fun room hr => ?_, h.order, fun hn _ => .inr (.inl (.inr ⟨_, rfl⟩)),
        fun _ => .inr ⟨_, rfl⟩, fun _ _ => .inr (.inl (.inr ⟨_, rfl⟩)), fun hr => ?_⟩
      · obtain rfl := TxPc.loop.inj hr
        dsimp only
        omega
      · have := TxPc.loop.inj hr
        omega
  | loop room =>
    rw [hp] at hs
    cases room with
    | zero =>
      obtain rfl := Option.some.inj hs
      exact h.finish (h.full hp)
    | succ room =>
      dsimp only at hs
      cases hc : s.xChar with
      | some c =>
        rw [hc] at hs
        obtain rfl := Option.some.inj hs
        exact h.put hp rfl rfl rfl
      | none =>
        rw [hc] at hs
        dsimp only at hs
        by_cases hst : s.stopped = true
        · rw [if_pos hst] at hs
          obtain rfl := Option.some.inj hs
          exact h.finish hc
        · rw [if_neg hst] at hs
          cases hx : s.xmit with
          | nil =>
            rw [hx] at hs
            obtain rfl := Option.some.inj hs
            exact h.finish hc
          | cons c cs =>
            rw [hx] at hs
            obtain rfl := Option.some.inj hs
            exact h.put hp rfl hx.symm hc
  | console bs =>
    rw [hp] at hs
    cases bs with
    | nil =>
      obtain rfl := Option.some.inj hs
      exact h.console hp .idle (.inl rfl)
    | cons c cs =>
      dsimp only at hs
      split at hs
      · exact absurd hs (by simp)
      · rename_i hroom
        obtain rfl := Option.some.inj hs
        have hc := h.console hp (.console cs) (.inr ⟨cs, rfl⟩)
        refine ⟨?_, fun room hr => absurd hr (by simp), ?_, hc.noticed, hc.waiting, hc.flow,
          hc.full⟩
        · simp only [putChar, List.length_append, List.length_cons, List.length_nil]
          omega
        · have ho := h.order
          simpa [putChar] using ho

/-- A call starts to send. -/
theorem Inv.count (h : s.Inv) (hp : s.pc = .idle) {xmit written : List UInt8}
    {xChar : Option UInt8} {stopped : Bool}
    (hs : s' = { s with
      xmit := xmit
      written := written
      xChar := xChar
      stopped := stopped
      pc := .count })
    (ho : ttyBytes (s.wire ++ s.fifo) ++ xmit = written) (hx : s.xmit ≠ [] → xmit ≠ []) :
    s'.Inv := by
  subst hs
  refine ⟨h.bound, fun room hr => absurd hr (by simp), ho, fun _ _ => .inr (.inl (.inl rfl)),
    fun he => ?_, fun _ _ => .inr (.inl (.inl rfl)), fun hr => absurd hr (by simp)⟩
  exact (h.waiting he).imp hx fun ⟨room, hr⟩ => absurd hr (by simp [hp])

/-- Nothing is sent. -/
theorem not_sending (hp : s.pc = .idle) : ¬ s.sending := by
  simp [sending, hp]

theorem Inv.begin (h : s.Inv) (hp : s.pc = .idle) (hs : s.begin a = some s') : s'.Inv := by
  cases a with
  | hw | cpu | timeout => exact absurd hs (by simp [TxSys.begin])
  | write bs =>
    have ho : ttyBytes (s.wire ++ s.fifo) ++ (s.xmit ++ bs) = s.written ++ bs := by
      rw [← h.order, List.append_assoc]
    have hx : s.xmit ≠ [] → s.xmit ++ bs ≠ [] := fun hn hnil =>
      hn (List.append_eq_nil_iff.mp hnil).1
    obtain rfl := Option.some.inj hs
    by_cases hst : s.stopped = true
    · refine ⟨h.bound, ?_, ho, fun _ hf => ?_, fun he => ?_, fun hc hf => ?_, ?_⟩
      · simp [hst]
      · exact absurd hst (by simp [show s.stopped = false from hf])
      · exact .inl (hx ((h.waiting he).resolve_right fun ⟨room, hr⟩ => absurd hr (by simp [hp])))
      · exact absurd hst (by simp [show s.stopped = false from hf])
      · simp [hst]
    · rw [if_neg hst]
      exact h.count hp rfl ho hx
  | sendXchar c =>
    obtain rfl := Option.some.inj hs
    exact h.count hp rfl h.order id
  | stop =>
    obtain rfl := Option.some.inj hs
    exact ⟨h.bound, h.room, h.order, fun _ hf => absurd hf (by simp), fun he => absurd he (by simp),
      fun _ hf => absurd hf (by simp), h.full⟩
  | start =>
    obtain rfl := Option.some.inj hs
    exact h.count hp rfl h.order id
  | int =>
    simp only [TxSys.begin] at hs
    split at hs
    · obtain rfl := Option.some.inj hs
      exact h.count hp rfl h.order id
    · exact absurd hs (by simp)
  | console bs =>
    obtain rfl := Option.some.inj hs
    refine ⟨h.bound, fun room hr => absurd hr (by simp), h.order, fun hn hst => ?_, fun he => ?_,
      fun hc hst => ?_, fun hr => absurd hr (by simp)⟩
    · exact (h.noticed hn hst).imp id fun hk => .inr (hk.resolve_left (not_sending hp))
    · exact (h.waiting he).imp id fun ⟨room, hr⟩ => absurd hr (by simp [hp])
    · exact (h.flow hc hst).imp id fun hk => .inr (hk.resolve_left (not_sending hp))

theorem Inv.timeout (h : s.Inv) (hs : step .timeout s = some s') : s'.Inv := by
  simp only [step] at hs
  split at hs
  · rename_i c cs hp
    split at hs
    · obtain rfl := Option.some.inj hs
      exact h.console hp _ (.inr ⟨cs, rfl⟩)
    · exact absurd hs (by simp)
  · exact absurd hs (by simp)

theorem Inv.step (h : s.Inv) (hs : step a s = some s') : s'.Inv := by
  cases a with
  | hw =>
    simp only [TxSys.step] at hs
    cases hf : s.fifo with
    | nil =>
      rw [hf] at hs
      exact absurd hs (by simp)
    | cons e es =>
      rw [hf] at hs
      obtain rfl := Option.some.inj hs
      exact h.hw hf
  | cpu => exact h.cpu hs
  | timeout => exact h.timeout hs
  | write | sendXchar | stop | start | int | console =>
    simp only [TxSys.step] at hs
    by_cases hp : s.pc = .idle
    · rw [if_pos hp] at hs
      exact h.begin hp hs
    · rw [if_neg hp] at hs
      exact absurd hs (by simp)

theorem Inv.of_reach (hr : txSys.Reach s) : s.Inv :=
  hr.invariant (fun _ h => .init h) fun _ _ _ _ h _ hs => h.step hs

end TxSys

open TxSys

/-- **The bytes leave in order.** The FIFO holds at most what the driver counts on, and the bytes of
the terminal on the line, in the FIFO and in the queue are those that it has written, in their
order. -/
theorem tx_in_order {s : TxSys} (hr : txSys.Reach s) : s.fifo.length ≤ uartTxFifoSize ∧
    ttyBytes s.wire ++ ttyBytes s.fifo ++ s.xmit = s.written := by
  have h := Inv.of_reach hr
  refine ⟨h.bound, ?_⟩
  rw [← ttyBytes_append]
  exact h.order

/-! ## The bytes get out -/

namespace TxSys

/-- The bytes that have to pass the FIFO. -/
def toGo (s : TxSys) : Nat :=
  s.xmit.length + s.xChar.toList.length + match s.pc with
    | .console bs => bs.length
    | _ => 0

/-- What is left of the call, and whether another one follows. -/
def callLeft (s : TxSys) : Nat :=
  match s.pc with
  | .idle => if s.ena then 4 else 0
  | .count => if uartTxFifoSize ≤ s.fifo.length then 5 else 3
  | .loop 0 => 5
  | .loop (_ + 1) => 2
  | .console _ => 5

/-- A bound on the internal steps that are left. -/
def stepsLeft (s : TxSys) : Nat := 6 * s.toGo + s.fifo.length + s.callLeft

variable {s s' : TxSys} {a : TxAct}

theorem callLeft_idle (hp : s.pc = .idle) : s.callLeft ≤ 4 := by
  simp only [callLeft, hp]
  split <;> omega

theorem callLeft_loop {room : Nat} (hp : s.pc = .loop room) : s.callLeft ≤ 5 := by
  cases room <;> simp [callLeft, hp]

/-- A byte goes into the FIFO. -/
theorem stepsLeft_put {room : Nat} (hp : s.pc = .loop (room + 1)) {e : Source × UInt8}
    {xmit : List UInt8} {xChar : Option UInt8} (hs : s' = { s.putChar e with
      xmit := xmit, xChar := xChar, pc := .loop room })
    (hx : xmit.length + xChar.toList.length + 1 = s.xmit.length + s.xChar.toList.length) :
    s'.stepsLeft + 1 ≤ s.stepsLeft := by
  subst hs
  have hcall := callLeft_loop (s := { s.putChar e with
    xmit := xmit, xChar := xChar, pc := .loop room }) rfl
  have hfrom : s.callLeft = 2 := by simp only [callLeft, hp]
  simp only [stepsLeft, toGo, hp, hfrom, putChar, List.length_append, List.length_cons,
    List.length_nil] at hcall ⊢
  omega

theorem stepsLeft_finish (hp : ∃ room, s.pc = .loop room)
    (hx : s.pc = .loop 0 ∨ s.xmit = []) : s.finish.stepsLeft + 1 ≤ s.stepsLeft := by
  obtain ⟨room, hp⟩ := hp
  have hto : s.finish.toGo = s.toGo := by simp [toGo, finish, hp]
  have hcall : s.finish.callLeft + 1 ≤ s.callLeft := by
    rcases hx with h0 | hx
    · have := callLeft_idle (s := s.finish) rfl
      have h5 : s.callLeft = 5 := by simp only [callLeft, h0]
      omega
    · have hz : s.finish.callLeft = 0 := by simp [callLeft, finish, hx]
      rw [hz]
      cases room <;> simp [callLeft, hp]
  simp only [stepsLeft, hto]
  change 6 * s.toGo + s.fifo.length + s.finish.callLeft + 1 ≤ _
  omega

theorem stepsLeft_cpu (hst : s.stopped = false) (hs : s.cpuStep = some s') :
    s'.stepsLeft + 1 ≤ s.stepsLeft := by
  unfold TxSys.cpuStep at hs
  cases hp : s.pc with
  | idle =>
    rw [hp] at hs
    exact absurd hs (by simp)
  | count =>
    rw [hp] at hs
    dsimp only at hs
    split at hs
    · rename_i hfull
      obtain rfl := Option.some.inj hs
      have hcall := callLeft_idle (s := { s with pc := .idle, skipped := !s.ena }) rfl
      have hfrom : s.callLeft = 5 := by simp only [callLeft, hp, if_pos hfull]
      simp only [stepsLeft, toGo, hp, hfrom] at hcall ⊢
      omega
    · rename_i hroom
      obtain rfl := Option.some.inj hs
      have hfrom : s.callLeft = 3 := by simp only [callLeft, hp, if_neg hroom]
      obtain ⟨n, hn⟩ : ∃ n, uartTxFifoSize - s.fifo.length = n + 1 :=
        ⟨_, (Nat.sub_add_cancel (by omega)).symm⟩
      have hnew : ({ s with pc := .loop (uartTxFifoSize - s.fifo.length) } : TxSys).callLeft =
          2 := by simp only [callLeft, hn]
      simp only [stepsLeft, toGo, hp, hfrom] at hnew ⊢
      omega
  | loop room =>
    rw [hp] at hs
    cases room with
    | zero =>
      obtain rfl := Option.some.inj hs
      exact stepsLeft_finish ⟨0, hp⟩ (.inl hp)
    | succ room =>
      dsimp only at hs
      cases hc : s.xChar with
      | some c =>
        rw [hc] at hs
        obtain rfl := Option.some.inj hs
        exact stepsLeft_put hp rfl (by simp [hc, putChar])
      | none =>
        rw [hc] at hs
        dsimp only at hs
        rw [if_neg (by simp [hst])] at hs
        cases hx : s.xmit with
        | nil =>
          rw [hx] at hs
          obtain rfl := Option.some.inj hs
          exact stepsLeft_finish ⟨_, hp⟩ (.inr hx)
        | cons c cs =>
          rw [hx] at hs
          obtain rfl := Option.some.inj hs
          exact stepsLeft_put hp rfl (by simp [hc, hx, putChar])
  | console bs =>
    rw [hp] at hs
    cases bs with
    | nil =>
      obtain rfl := Option.some.inj hs
      have hcall := callLeft_idle (s := { s with pc := .idle }) rfl
      have hfrom : s.callLeft = 5 := by simp only [callLeft, hp]
      simp only [stepsLeft, toGo, hp, hfrom, List.length_nil] at hcall ⊢
      omega
    | cons c cs =>
      dsimp only at hs
      split at hs
      · exact absurd hs (by simp)
      · obtain rfl := Option.some.inj hs
        simp only [stepsLeft, toGo, callLeft, hp, putChar, List.length_append, List.length_cons,
          List.length_nil]
        omega

theorem cpuStep_stopped (hs : s.cpuStep = some s') : s'.stopped = s.stopped := by
  unfold cpuStep at hs
  split at hs
  · exact absurd hs (by simp)
  · split at hs
    all_goals
      obtain rfl := Option.some.inj hs
      rfl
  · obtain rfl := Option.some.inj hs
    rfl
  · split at hs
    · obtain rfl := Option.some.inj hs
      rfl
    · split at hs
      · obtain rfl := Option.some.inj hs
        rfl
      · split at hs
        all_goals
          obtain rfl := Option.some.inj hs
          rfl
  · obtain rfl := Option.some.inj hs
    rfl
  · split at hs
    · exact absurd hs (by simp)
    · obtain rfl := Option.some.inj hs
      rfl

/-- Only the console waits, and only for room. -/
theorem cpuStep_none (hs : s.cpuStep = none) :
    s.pc = .idle ∨ uartTxFifoSize ≤ s.fifo.length := by
  unfold cpuStep at hs
  split at hs
  · rename_i hp
    exact .inl hp
  · split at hs
    all_goals exact absurd hs (by simp)
  · exact absurd hs (by simp)
  · split at hs
    · exact absurd hs (by simp)
    · split at hs
      · exact absurd hs (by simp)
      · split at hs
        all_goals exact absurd hs (by simp)
  · exact absurd hs (by simp)
  · split at hs
    · rename_i hfull
      exact .inr hfull
    · exact absurd hs (by simp)

/-- An internal step leaves less to do, and does not stop the terminal. -/
theorem internal_step (hst : s.stopped = false) (ha : a.Internal s)
    (hs : step a s = some s') : s'.stopped = false ∧ s'.stepsLeft + 1 ≤ s.stepsLeft := by
  cases a with
  | write | sendXchar | stop | start | console => exact absurd ha id
  | hw =>
    simp only [TxSys.step] at hs
    cases hf : s.fifo with
    | nil =>
      rw [hf] at hs
      exact absurd hs (by simp)
    | cons e es =>
      rw [hf] at hs
      obtain rfl := Option.some.inj hs
      refine ⟨hst, ?_⟩
      have hlen : s.fifo.length = es.length + 1 := by
        rw [hf]
        rfl
      have hcall : ({ s with fifo := es, wire := s.wire ++ [e] } : TxSys).callLeft ≤
          s.callLeft := by
        simp only [callLeft]
        split
        · exact Nat.le_refl _
        · rw [hlen]
          split <;> split <;> omega
        all_goals exact Nat.le_refl _
      simp only [stepsLeft, toGo] at hcall ⊢
      omega
  | int =>
    simp only [TxSys.step] at hs
    by_cases hp : s.pc = .idle
    · rw [if_pos hp] at hs
      simp only [TxSys.begin] at hs
      split at hs
      · rename_i hi
        obtain rfl := Option.some.inj hs
        refine ⟨hst, ?_⟩
        have hempty : s.fifo.length < 1 := hi.2
        have hroom : ¬ uartTxFifoSize ≤ s.fifo.length := by
          unfold uartTxFifoSize
          omega
        have hfrom : s.callLeft = 4 := by simp only [callLeft, hp, hi.1, if_true]
        have hnew : ({ s with pc := .count } : TxSys).callLeft = 3 := by
          simp only [callLeft, if_neg hroom]
        simp only [stepsLeft, toGo, hp, hfrom] at hnew ⊢
        omega
      · exact absurd hs (by simp)
    · rw [if_neg hp] at hs
      exact absurd hs (by simp)
  | cpu =>
    exact ⟨(cpuStep_stopped hs).trans hst, stepsLeft_cpu hst hs⟩
  | timeout =>
    simp only [TxSys.step] at hs
    split at hs
    · rename_i c cs hp
      split at hs
      · obtain rfl := Option.some.inj hs
        refine ⟨hst, ?_⟩
        simp only [stepsLeft, toGo, callLeft, hp, List.length_cons]
        omega
      · exact absurd hs (by simp)
    · exact absurd hs (by simp)

/-- Where nothing can happen any more, all bytes are on the line. -/
theorem rest_of_stuck (h : s.Inv) (hst : s.stopped = false) (hk : s.skipped = false)
    (hstuck : ∀ a, TxAct.Internal a s → step a s = none) : ttyBytes s.wire = s.written := by
  have hfifo : s.fifo = [] := by
    have hn := hstuck .hw trivial
    simp only [TxSys.step] at hn
    cases hf : s.fifo with
    | nil => rfl
    | cons e es =>
      rw [hf] at hn
      exact absurd hn (by simp)
  have hidle : s.pc = .idle := by
    refine (cpuStep_none (hstuck .cpu trivial)).resolve_right fun hfull => ?_
    rw [hfifo] at hfull
    exact absurd hfull (by decide)
  have hena : ¬ s.ena = true := by
    intro he
    have hn := hstuck .int trivial
    simp only [TxSys.step, hidle, if_true, TxSys.begin, he, hfifo] at hn
    rw [if_pos ⟨trivial, by decide⟩] at hn
    exact absurd hn (by simp)
  have hx : s.xmit = [] := by
    by_contra hne
    rcases h.noticed hne hst with he | hsend | hskip
    · exact hena he
    · exact not_sending hidle hsend
    · rw [hk] at hskip
      exact absurd hskip (by simp)
  have ho := h.order
  rw [hx, hfifo] at ho
  simpa using ho

end TxSys

/-- **The bytes get out.** While the terminal is not stopped, the driver and the transmitter take a
bounded number of steps, and where they can take no more, all bytes of the terminal are on the line
in their order, unless the last call has met a full FIFO with the interrupt off. -/
theorem tx_drains {s s' : TxSys} (hr : txSys.Reach s) (hst : s.stopped = false)
    {as : List TxAct} (h : txSys.runWith TxAct.Internal as s = some s') :
    as.length ≤ s.stepsLeft ∧
      ((∀ a, TxAct.Internal a s' → txSys.step a s' = none) → s'.skipped = false →
        ttyBytes s'.wire = s'.written) := by
  have hstep : ∀ a (s s' : TxSys), s.Inv ∧ s.stopped = false → TxAct.Internal a s →
      TxSys.step a s = some s' →
      (s'.Inv ∧ s'.stopped = false) ∧ s'.stepsLeft + 1 ≤ s.stepsLeft := by
    intro a s s' hi ha hs
    obtain ⟨h1, h2⟩ := internal_step hi.2 ha hs
    exact ⟨⟨hi.1.step hs, h1⟩, h2⟩
  obtain ⟨hlen, hi', hst'⟩ := Machine.runWith_bounded hstep ⟨Inv.of_reach hr, hst⟩ h
  exact ⟨hlen, fun hstuck hk => rest_of_stuck hi' hst' hk hstuck⟩

/-- The terminal writes while the console does. -/
def txExample : List TxAct :=
  [.write [72, 105], .cpu, .cpu, .hw, .cpu, .cpu, .console [46], .cpu, .hw, .cpu, .write [33]]

def txExampleStart : TxSys where
  xmit := []
  xChar := none
  stopped := false
  fifo := []
  ena := false
  pc := .idle
  wire := []
  written := []
  skipped := false

theorem txExample_some : (txSys.run txExample txExampleStart).isSome = true := by
  decide +kernel

theorem tx_in_order_example : ∃ s, txSys.run txExample txExampleStart = some s ∧
    ttyBytes s.wire ++ ttyBytes s.fifo ++ s.xmit = s.written := by
  obtain ⟨s, hs⟩ := Option.isSome_iff_exists.mp txExample_some
  have hr : txSys.Reach s := Machine.Reach.run
    (.init ⟨rfl, rfl, by decide, rfl, rfl, rfl, rfl, rfl⟩) hs
  exact ⟨s, hs, (tx_in_order hr).2⟩

/-- The rest of the way. -/
def txExampleRun : List TxAct := [.cpu, .cpu, .cpu, .hw, .hw]

theorem txExampleRun_some : ((txSys.run txExample txExampleStart).bind
    (txSys.runWith TxAct.Internal txExampleRun)).isSome = true := by
  decide +kernel

theorem tx_drains_example : ∃ s s', txSys.run txExample txExampleStart = some s ∧
    txSys.runWith TxAct.Internal txExampleRun s = some s' ∧ txExampleRun.length ≤ s.stepsLeft ∧
      ((∀ a, TxAct.Internal a s' → txSys.step a s' = none) → s'.skipped = false →
        ttyBytes s'.wire = s'.written) := by
  obtain ⟨s', hs'⟩ := Option.isSome_iff_exists.mp txExampleRun_some
  obtain ⟨s, hs, h⟩ := Option.bind_eq_some_iff.mp hs'
  have hr : txSys.Reach s := Machine.Reach.run
    (.init ⟨rfl, rfl, by decide, rfl, rfl, rfl, rfl, rfl⟩) hs
  have hst : s.stopped = false := by
    have hsome : (txSys.run txExample txExampleStart).map TxSys.stopped = some false := by
      decide +kernel
    rw [hs] at hsome
    exact Option.some.inj hsome
  exact ⟨s, s', hs, h, tx_drains hr hst h⟩

end Esp32S31.Serial
