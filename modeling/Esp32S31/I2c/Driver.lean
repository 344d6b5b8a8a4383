import Esp32S31.I2c.Controller
import Mathlib.Logic.Function.Basic

/-!
# The I2C driver

`esp32s31_i2c_fill` and what it calls, `esp32s31_i2c_drain`, `esp32s31_i2c_irq` and
`esp32s31_i2c_xfer` (`i2c-esp32s31.c`). A list takes as much of the messages as its seven commands
and the two FIFOs hold; `msg`, `pos` and `addressed` say where the next list goes on, and `rx` where
the received bytes belong.

A pointer into the buffer of a message is the index of the message and an offset (`MsgMem`), so a
store outside a buffer would show.
-/

namespace Esp32S31.I2c

open Esp32S31.Lib

/-- `I2C_M_RD`, `I2C_M_TEN`. -/
def i2cMRd : UInt16 := 0x0001
def i2cMTen : UInt16 := 0x0010

/-- `EAGAIN`, `ENXIO`, `EOPNOTSUPP`, `ETIMEDOUT`. -/
def enxio : Int := 6
def eagain : Int := 11
def eopnotsupp : Int := 95
def etimedout : Int := 110

/-- `struct i2c_msg`, without its buffer. -/
structure I2cMsg where
  addr : UInt16
  flags : UInt16
  len : Nat
  deriving DecidableEq, Repr

/-- `m->flags & I2C_M_RD`. -/
def I2cMsg.rd (m : I2cMsg) : Bool := m.flags &&& i2cMRd ≠ 0

/-- `i2c_8bit_addr_from_msg`. -/
def I2cMsg.addrByte (m : I2cMsg) : UInt8 := ((m.addr <<< 1) ||| (m.flags &&& i2cMRd)).toUInt8

/-- The buffers of the messages. -/
abbrev MsgMem := Nat → Nat → UInt8

/-- `struct esp32s31_i2c_rx`. -/
structure I2cRx where
  msg : Nat
  off : Nat
  len : Nat
  deriving DecidableEq, Repr

/-- `struct esp32s31_i2c`: the registers, and the state of the transfer; `num` is the length of
`msgs`, and `nrx` that of `rx`. -/
structure Esp32s31I2c where
  base : Controller
  mem : MsgMem
  err : Int
  msgs : List I2cMsg
  msg : Nat
  pos : Nat
  addressed : Bool
  rx : List I2cRx

/-- `struct esp32s31_i2c_batch`. -/
structure Batch where
  cmd : Nat
  tx : Nat
  rx : Nat
  deriving DecidableEq, Repr

namespace Esp32s31I2c

/-- The word that `esp32s31_i2c_cmd` writes. -/
def cmdWord (op : U32) (bytes : Nat) (flags : U32) : U32 :=
  (op <<< 11) ||| (.ofNat 32 bytes &&& 0xff) ||| flags

/-- `esp32s31_i2c_cmd`. -/
def cmd (s : Esp32s31I2c) (n : Nat) (op : U32) (bytes : Nat) (flags : U32) : Esp32s31I2c :=
  { s with base := { s.base with
      comd := Function.update s.base.comd n (cmdWord op bytes flags) } }

/-- `writel(b, i2c->base + I2C_DATA)`. -/
def writeData (s : Esp32s31I2c) (b : UInt8) : Esp32s31I2c :=
  { s with base := { s.base with txFifo := pushFifo s.base.txFifo b } }

/-- `esp32s31_i2c_next_msg`. -/
def nextMsg (s : Esp32s31I2c) : Esp32s31I2c :=
    { s with msg := s.msg + 1, pos := 0, addressed := false }

/-- `esp32s31_i2c_queue_addr`. -/
def queueAddr (s : Esp32s31I2c) (b : Batch) (m : I2cMsg) : Option (Esp32s31I2c × Batch) :=
  if i2cNcmds - 1 < b.cmd + 3 ∨ b.tx = i2cFifoSize then none
  else
    let s := s.cmd b.cmd opRstart 0 0
    let s := s.writeData m.addrByte
    let s := s.cmd (b.cmd + 1) opWrite 1 cmdAckCheck
    some ({ s with addressed := true }, { b with cmd := b.cmd + 2, tx := b.tx + 1 })

/-- `esp32s31_i2c_queue_read`. -/
def queueRead (s : Esp32s31I2c) (b : Batch) (m : I2cMsg) : Option (Esp32s31I2c × Batch) :=
  let left := m.len - s.pos
  let n := min left (i2cFifoSize - b.rx)
  let last := if n = left then 1 else 0
  let bulk := n - last
  if n = 0 ∨ i2cNcmds - 1 < b.cmd + (if bulk = 0 then 0 else 1) + last then none
  else
    let s : Esp32s31I2c := { s with rx := s.rx ++ [⟨s.msg, s.pos, n⟩] }
    let s := if bulk = 0 then s else s.cmd b.cmd opRead bulk 0
    let c := b.cmd + if bulk = 0 then 0 else 1
    let s := if last = 0 then s else s.cmd c opRead 1 cmdAckValue
    some ({ s with pos := s.pos + n }, { b with cmd := c + last, rx := b.rx + n })

/-- `while (n--) writel(m->buf[i2c->pos++], …)`. -/
def writeBytes (s : Esp32s31I2c) : Nat → Esp32s31I2c
  | 0 => s
  | n + 1 => writeBytes { s.writeData (s.mem s.msg s.pos) with pos := s.pos + 1 } n

/-- `esp32s31_i2c_queue_write`. -/
def queueWrite (s : Esp32s31I2c) (b : Batch) (m : I2cMsg) : Option (Esp32s31I2c × Batch) :=
  let n := min (m.len - s.pos) (i2cFifoSize - b.tx)
  if n = 0 ∨ i2cNcmds - 1 < b.cmd + 1 then none
  else some ((s.cmd b.cmd opWrite n cmdAckCheck).writeBytes n,
    { b with cmd := b.cmd + 1, tx := b.tx + n })

/-- One turn of the loop of `esp32s31_i2c_fill`; `none` leaves it. -/
def fillTurn (s : Esp32s31I2c) (b : Batch) : Option (Esp32s31I2c × Batch) :=
  match s.msgs[s.msg]? with
  | none => none
  | some m =>
    let queued :=
      if !s.addressed then s.queueAddr b m
      else if m.rd then s.queueRead b m
      else s.queueWrite b m
    queued.map fun (s, b) => (if s.pos = m.len then s.nextMsg else s, b)

/-- The loop of `esp32s31_i2c_fill`. Each turn takes a command, so eight turns are enough
(`fillLoop_done`). -/
def fillLoop : Nat → Esp32s31I2c → Batch → Esp32s31I2c × Batch
  | 0, s, b => (s, b)
  | n + 1, s, b =>
    match s.fillTurn b with
    | none => (s, b)
    | some (s, b) => fillLoop n s b

/-- `esp32s31_i2c_fill`. -/
def fill (s : Esp32s31I2c) : Esp32s31I2c :=
  let (s, b) := fillLoop i2cNcmds { s with rx := [] } ⟨0, 0, 0⟩
  s.cmd b.cmd (if s.msg < s.msgs.length then opEnd else opStop) 0 0

/-- `readl(i2c->base + I2C_DATA)`, into a byte of a message. -/
def readData (s : Esp32s31I2c) (msg off : Nat) : Esp32s31I2c :=
  { s with
    base := { s.base with rxFifo := s.base.rxFifo.tail }
    mem := Function.update s.mem msg
      (Function.update (s.mem msg) off (s.base.rxFifo.head?.getD 0)) }

/-- `for (j …) i2c->rx[i].buf[j] = readl(…)`. -/
def drainBytes (s : Esp32s31I2c) (msg off : Nat) : Nat → Esp32s31I2c
  | 0 => s
  | n + 1 => drainBytes (s.readData msg off) msg (off + 1) n

/-- `esp32s31_i2c_drain`. -/
def drain (s : Esp32s31I2c) : Esp32s31I2c :=
  { s.rx.foldl (fun s r => s.drainBytes r.msg r.off r.len) s with rx := [] }

/-- What a run of the handler did: nothing to do or to report, started the next list, or completed
the transfer. -/
inductive IrqEffect where
  | handled
  | restarted
  | completed
  deriving DecidableEq, Repr

/-- `esp32s31_i2c_irq`. -/
def irq (s : Esp32s31I2c) (status : U32) : Esp32s31I2c × IrqEffect :=
  if status = 0 then (s, .handled)
  else
    let err :=
      if status &&& intNack ≠ 0 then -enxio
      else if status &&& intArbLost ≠ 0 then -eagain
      else if status &&& intTimeouts ≠ 0 then -etimedout
      else s.err
    let s := { s with err := err }
    if err = 0 ∧ status &&& intEndDetect ≠ 0 then (s.drain.fill, .restarted)
    else if err ≠ 0 then (s, .completed)
    else if status &&& intTransComplete ≠ 0 then (s.drain, .completed)
    else (s, .handled)

/-- The state of the driver when the controller has run a list. -/
def ran (s : Esp32s31I2c) (c : Controller) : Esp32s31I2c := { s with base := c }

/-- The controller runs lists, and the handler runs after each, until it completes the transfer. -/
def transfer (slave : Slave) : Nat → Esp32s31I2c → Option Esp32s31I2c
  | 0, _ => none
  | fuel + 1, s =>
    match s.base.start slave with
    | none => none
    | some (c, status) =>
      match (s.ran c).irq status with
      | (s, .restarted) => transfer slave fuel s
      | (s, .completed) => some s
      | (_, .handled) => none

/-- `esp32s31_i2c_xfer`: the FIFOs are reset, then the first list starts. -/
def xfer (slave : Slave) (fuel : Nat) (s : Esp32s31I2c) (msgs : List I2cMsg) : Option
    (Esp32s31I2c × Int) :=
  if msgs.any (fun m => m.flags &&& i2cMTen ≠ 0) then some (s, -eopnotsupp)
  else
    let s := { s with
      msgs := msgs, msg := 0, pos := 0, addressed := false, err := 0
      base := { s.base with txFifo := [], rxFifo := [] } }
    (transfer slave fuel s.fill).map fun s => (s, if s.err ≠ 0 then s.err else msgs.length)

end Esp32s31I2c

end Esp32S31.I2c
