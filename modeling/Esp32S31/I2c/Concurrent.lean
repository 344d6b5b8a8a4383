import Esp32S31.I2c.Driver
import Esp32S31.Lib.Machine

/-!
# The call, the interrupt handler and the controller at once

`esp32s31_i2c_xfer` with `esp32s31_i2c_reset_fifos` and `esp32s31_i2c_init`, `esp32s31_i2c_irq` and
the controller, one step at a time and in any order. The controller runs its list byte by byte and
may fail at every point of it; the interrupt comes at any time, also without a reason; the wait may
end at any time.

`esp32s31_i2c_fill` is a step for each turn of its loop: what a turn uses, no other thread uses
meanwhile. The reset of the peripheral always succeeds (`esp32s31_reset_update`, `clk-esp32s31.c`).
-/

namespace Esp32S31.I2c

open Esp32S31.Lib

/-- `I2C_INT_NACK`, `I2C_INT_ARB_LOST`, `I2C_INT_TIMEOUTS`: what ends a transfer with an error. -/
def intErrors : U32 := intNack ||| intArbLost ||| intTimeouts

/-- `I2C_INT_MASK`. -/
def intMask : U32 := intEndDetect ||| intTransComplete ||| intErrors

namespace Esp32s31I2c

/-- The end of `esp32s31_i2c_fill`: END or STOP behind the list. -/
def fillEnd (s : Esp32s31I2c) (b : Batch) : Esp32s31I2c :=
  s.cmd b.cmd (if s.msg < s.msgs.length then opEnd else opStop) 0 0

/-- `i2c->err` after a status. -/
def errOf (status : U32) (err : Int) : Int :=
  if status &&& intNack ≠ 0 then -enxio
  else if status &&& intArbLost ≠ 0 then -eagain
  else if status &&& intTimeouts ≠ 0 then -etimedout
  else err

end Esp32s31I2c

/-- Where the state machine of the controller is. -/
inductive Fsm where
  | idle
  /-- at a command of the list, with so many of its bytes behind it -/
  | run (cmd bytes : Nat)
  /-- at an END, with SCL low -/
  | held
  /-- an error has stopped it -/
  | failed
  deriving DecidableEq

/-- Where `esp32s31_i2c_xfer` is: before the step of that name. -/
inductive XferPc where
  /-- no call; what the last one returned -/
  | idle (ret : Option Int)
  -- `esp32s31_i2c_reset_fifos`, `I2C_INT_CLR`
  | resetFifos
  | intClr
  -- `esp32s31_i2c_fill`
  | fillStart
  | fill (b : Batch)
  -- `I2C_INT_ENA`, `esp32s31_i2c_start`, `wait_for_completion_timeout`
  | intEna
  | start
  | wait
  -- the wait gave up: `I2C_INT_ENA`, `synchronize_irq`, `-ETIMEDOUT`
  | disable
  | synchronize
  | timedOut
  /-- the end of a transfer, with `i2c->err` -/
  | recover
  -- `esp32s31_i2c_init`
  | resetAssert
  | resetDeassert
  | setTiming
  | initClr
  | initEna
  | confUpgate
  | clearBus
  | poll
  /-- `return i2c->err ?: num` -/
  | ret
  deriving DecidableEq

/-- Where `esp32s31_i2c_irq` is: before the step of that name. -/
inductive IrqPc where
  /-- it does not run -/
  | out
  /-- before the read of `I2C_INT_STATUS` -/
  | status
  | intClr (status : U32)
  | judge (status : U32)
  /-- at a byte of a read command; then the next list, or the end -/
  | drain (more : Bool) (i j : Nat)
  | fillStart
  | fill (b : Batch)
  | start
  | disable
  | complete
  deriving DecidableEq

/-- A call: its messages, the bus and the buffers when it began, and what has gone wrong in it. -/
structure Xfer where
  msgs : List I2cMsg
  bus : List BusEvent
  mem : MsgMem
  /-- the controller has reported an error -/
  raised : Bool
  /-- the wait gave up -/
  expired : Bool

/-- The whole system. -/
structure Sys where
  /-- the driver, with the FIFOs and the list -/
  drv : Esp32s31I2c
  /-- the interrupts of the controller, before `I2C_INT_ENA` -/
  raw : U32
  /-- `I2C_INT_ENA` -/
  ena : U32
  fsm : Fsm
  /-- the master mode, the filter and the timing are set -/
  configured : Bool
  /-- `i2c->done` -/
  done : Nat
  pc : XferPc
  irq : IrqPc
  /-- the last call -/
  xfer : Xfer

namespace Sys

/-- `I2C_INT_STATUS`. -/
def status (s : Sys) : U32 := s.raw &&& s.ena

/-- `esp32s31_i2c_xfer` is called. -/
def call (msgs : List I2cMsg) (s : Sys) : Option Sys :=
  let began : Sys := { s with xfer := ⟨msgs, s.drv.base.bus, s.drv.mem, false, false⟩ }
  match s.pc with
  | .idle _ =>
    if msgs.any (fun m => m.flags &&& i2cMTen ≠ 0)
      then some { began with pc := .idle (some (-eopnotsupp)) }
    else some { began with
      drv := { s.drv with msgs := msgs, msg := 0, pos := 0, addressed := false, err := 0 }
      done := 0
      pc := .resetFifos }
  | _ => none

/-- The next step of `esp32s31_i2c_xfer` that is not the end of the wait. -/
def xferStep (s : Sys) : Option Sys :=
  match s.pc with
  | .idle _ | .wait => none
  | .resetFifos => some { s with
      drv := s.drv.ran { s.drv.base with txFifo := [], rxFifo := [] }
      pc := .intClr }
  | .intClr => some { s with raw := s.raw &&& ~~~intMask, pc := .fillStart }
  | .fillStart => some { s with drv := { s.drv with rx := [] }, pc := .fill ⟨0, 0, 0⟩ }
  | .fill b =>
    match s.drv.fillTurn b with
    | some (d, b) => some { s with drv := d, pc := .fill b }
    | none => some { s with drv := s.drv.fillEnd b, pc := .intEna }
  | .intEna => some { s with ena := intMask, pc := .start }
  | .start => some { s with fsm := .run 0 0, pc := .wait }
  | .disable => some { s with ena := 0, pc := .synchronize }
  | .synchronize => if s.irq = .out then some { s with pc := .timedOut } else none
  | .timedOut => some { s with drv := { s.drv with err := -etimedout }, pc := .recover }
  | .recover =>
    -- `I2C_CTR_FSM_RST` after a NACK, else the whole controller
    if s.drv.err = -enxio then some { s with fsm := .idle, pc := .ret }
    else if s.drv.err ≠ 0 then some { s with pc := .resetAssert }
    else some { s with pc := .ret }
  | .resetAssert => some { s with
      drv := s.drv.ran ⟨fun _ => 0, [], [], s.drv.base.bus⟩
      raw := 0
      ena := 0
      fsm := .idle
      configured := false
      pc := .resetDeassert }
  | .resetDeassert => some { s with pc := .setTiming }
  | .setTiming => some { s with pc := .initClr }
  | .initClr => some { s with raw := s.raw &&& ~~~intMask, pc := .initEna }
  | .initEna => some { s with ena := 0, pc := .confUpgate }
  | .confUpgate => some { s with configured := true, pc := .clearBus }
  | .clearBus => some { s with pc := .poll }
  -- a poll that fails only gives a message
  | .poll => some { s with pc := .ret }
  | .ret =>
    some { s with pc := .idle (some (if s.drv.err ≠ 0 then s.drv.err else s.drv.msgs.length)) }

/-- The wait ends: the transfer is complete. -/
def woken (s : Sys) : Option Sys :=
  if s.pc = .wait ∧ 0 < s.done then some { s with done := s.done - 1, pc := .recover } else none

/-- The wait ends: the time is over, and the transfer is not complete. -/
def expire (s : Sys) : Option Sys :=
  if s.pc = .wait ∧ s.done = 0 then
    some { s with pc := .disable, xfer := { s.xfer with expired := true } }
  else none

/-- The interrupt. -/
def enter (s : Sys) : Option Sys := if s.irq = .out then some { s with irq := .status } else none

/-- The next step of `esp32s31_i2c_irq`. -/
def irqStep (s : Sys) : Option Sys :=
  match s.irq with
  | .out => none
  | .status => some { s with irq := if s.status = 0 then .out else .intClr s.status }
  | .intClr status => some { s with raw := s.raw &&& ~~~status, irq := .judge status }
  | .judge status =>
    let err := Esp32s31I2c.errOf status s.drv.err
    some { s with
      drv := { s.drv with err := err }
      irq :=
        if err = 0 ∧ status &&& intEndDetect ≠ 0 then .drain true 0 0
        else if err ≠ 0 then .disable
        else if status &&& intTransComplete ≠ 0 then .drain false 0 0
        else .out }
  | .drain more i j =>
    match s.drv.rx[i]? with
    | some r =>
      if j < r.len then
        some { s with drv := s.drv.readData r.msg (r.off + j), irq := .drain more i (j + 1) }
      else some { s with irq := .drain more (i + 1) 0 }
    | none =>
      some { s with drv := { s.drv with rx := [] }, irq := if more then .fillStart else .disable }
  | .fillStart => some { s with drv := { s.drv with rx := [] }, irq := .fill ⟨0, 0, 0⟩ }
  | .fill b =>
    match s.drv.fillTurn b with
    | some (d, b) => some { s with drv := d, irq := .fill b }
    | none => some { s with drv := s.drv.fillEnd b, irq := .start }
  | .start => some { s with fsm := .run 0 0, irq := .out }
  | .disable => some { s with ena := 0, irq := .complete }
  | .complete => some { s with done := s.done + 1, irq := .out }

/-- The controller at the command `i` with `j` of its bytes behind it: the controller and its place,
and what it raises. -/
def ctlStep (slave : Slave) (c : Controller) (i j : Nat) : Option (Controller × U32 × Fsm) :=
  let w := c.comd i
  if i2cNcmds ≤ i then none
  else if cmdOp w = opStop then some ({ c with bus := c.bus ++ [.stop] }, intTransComplete, .idle)
  else if cmdOp w = opEnd then some (c, intEndDetect, .held)
  else if cmdOp w = opRstart then some ({ c with bus := c.bus ++ [.start] }, 0, .run (i + 1) 0)
  else if cmdOp w = opWrite then
    if j < cmdBytes w then (sendBytes (w &&& cmdAckCheck ≠ 0) 1 c).map fun c =>
      (c, 0, .run i (j + 1))
    else some (c, 0, .run (i + 1) 0)
  else if cmdOp w = opRead then
    if j < cmdBytes w then some (receiveBytes slave (w &&& cmdAckValue ≠ 0) 1 c, 0, .run i (j + 1))
    else some (c, 0, .run (i + 1) 0)
  else none

/-- The controller goes on with its list. -/
def tick (slave : Slave) (s : Sys) : Option Sys :=
  match s.fsm with
  | .run i j =>
    if s.configured = true then
      (ctlStep slave s.drv.base i j).map fun (c, bits, fsm) =>
        { s with drv := s.drv.ran c, raw := s.raw ||| bits, fsm := fsm }
    else none
  | _ => none

/-- The controller reports an error in a list or behind its END, and stops or goes on. -/
def fail (bits : U32) (stops : Bool) (s : Sys) : Option Sys :=
  let raised : Sys := { s with
    raw := s.raw ||| bits
    fsm := if stops then .failed else s.fsm
    xfer := { s.xfer with raised := true } }
  match s.fsm with
  | .run _ _ | .held => if bits &&& intErrors ≠ 0 then some raised else none
  | _ => none

/-- After an error the controller may raise any other interrupt. -/
def stray (bits : U32) (s : Sys) : Option Sys :=
  if s.fsm = .failed then some { s with raw := s.raw ||| bits } else none

end Sys

/-- Who takes the next step. -/
inductive Act where
  | call (msgs : List I2cMsg)
  | xfer
  | woken
  | expire
  | enter
  | irq
  | tick
  | fail (bits : U32) (stops : Bool)
  | stray (bits : U32)

/-- One step of the system. -/
def sysStep (slave : Slave) : Act → Sys → Option Sys
  | .call msgs => Sys.call msgs
  | .xfer => Sys.xferStep
  | .woken => Sys.woken
  | .expire => Sys.expire
  | .enter => Sys.enter
  | .irq => Sys.irqStep
  | .tick => Sys.tick slave
  | .fail bits stops => Sys.fail bits stops
  | .stray bits => Sys.stray bits

/-- The driver and the controller as `esp32s31_i2c_probe` leaves them, with `esp32s31_i2c_init`. -/
def Sys.initialised (mem : MsgMem) (bus : List BusEvent) : Sys where
  drv := ⟨⟨fun _ => 0, [], [], bus⟩, mem, 0, [], 0, 0, false, []⟩
  raw := 0
  ena := 0
  fsm := .idle
  configured := true
  done := 0
  pc := .idle none
  irq := .out
  xfer := ⟨[], bus, mem, false, false⟩

/-- The system from the end of `esp32s31_i2c_probe` on. -/
def system (slave : Slave) : Machine Act Sys where
  init s := ∃ mem bus, s = .initialised mem bus
  step := sysStep slave

end Esp32S31.I2c
