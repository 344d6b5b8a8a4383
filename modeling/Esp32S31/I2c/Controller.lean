import Esp32S31.Lib.Word

/-!
# The I2C controller

The controller runs a list of up to eight command words with a FIFO of 32 bytes for each direction
(`i2c-esp32s31.c`, the comment at its top): RSTART, WRITE, READ, STOP and END. A list ends with
STOP, or with END, which leaves the bus with SCL low until the next list. A byte that is put into a
full FIFO is lost, and a WRITE without bytes does not go on; that the driver never lets it come to
this is part of the result.

The slave acknowledges every byte; what it sends may depend on all that it saw on the bus.
-/

namespace Esp32S31.I2c

open Esp32S31.Lib

/-- What is on the bus: a START or RESTART, a byte of the master and whether it checks the ACK, a
byte of the slave and whether the master answers with a NACK, a STOP. -/
inductive BusEvent where
  | start
  | write (b : UInt8) (ackCheck : Bool)
  | read (b : UInt8) (nack : Bool)
  | stop
  deriving DecidableEq, Repr

/-- A slave that acknowledges: the next byte that it sends. -/
abbrev Slave := List BusEvent → UInt8

/-- `I2C_NCMDS`, `I2C_FIFO_SIZE`. -/
def i2cNcmds : Nat := 8
def i2cFifoSize : Nat := 32

/-- `I2C_OP_WRITE`, `I2C_OP_STOP`, `I2C_OP_READ`, `I2C_OP_END`, `I2C_OP_RSTART`. -/
def opWrite : U32 := 1
def opStop : U32 := 2
def opRead : U32 := 3
def opEnd : U32 := 4
def opRstart : U32 := 6

/-- `I2C_CMD_ACK_CHECK`, `I2C_CMD_ACK_VALUE`. -/
def cmdAckCheck : U32 := 0x100
def cmdAckValue : U32 := 0x400

/-- `I2C_INT_END_DETECT`, `I2C_INT_ARB_LOST`, `I2C_INT_TRANS_COMPLETE`, `I2C_INT_NACK`,
`I2C_INT_TIMEOUTS`. -/
def intEndDetect : U32 := 0x8
def intArbLost : U32 := 0x20
def intTransComplete : U32 := 0x80
def intNack : U32 := 0x400
def intTimeouts : U32 := 0x6100

/-- The fields of a command word: `I2C_CMD_OP`, `I2C_CMD_BYTES`. -/
def cmdOp (w : U32) : U32 := (w >>> 11) &&& 7
def cmdBytes (w : U32) : Nat := (w &&& 0xff).toNat

/-- The registers of the controller that a transfer uses, and the bus. -/
structure Controller where
  /-- `I2C_COMD(n)` -/
  comd : Nat → U32
  txFifo : List UInt8
  rxFifo : List UInt8
  bus : List BusEvent

/-- Put a byte into a FIFO. -/
def pushFifo (f : List UInt8) (b : UInt8) : List UInt8 :=
  if f.length < i2cFifoSize then f ++ [b] else f

/-- A WRITE of `n` bytes. -/
def sendBytes (ackCheck : Bool) : Nat → Controller → Option Controller
  | 0, c => some c
  | n + 1, c =>
    match c.txFifo with
    | [] => none
    | b :: bs => sendBytes ackCheck n { c with txFifo := bs, bus := c.bus ++ [.write b ackCheck] }

/-- A READ of `n` bytes. -/
def receiveBytes (slave : Slave) (nack : Bool) : Nat → Controller → Controller
  | 0, c => c
  | n + 1, c => receiveBytes slave nack n { c with
      rxFifo := pushFifo c.rxFifo (slave c.bus), bus := c.bus ++ [.read (slave c.bus) nack] }

/-- A command that does not end the list. -/
def execCmd (slave : Slave) (c : Controller) (w : U32) : Option Controller :=
  if cmdOp w = opRstart then some { c with bus := c.bus ++ [.start] }
  else if cmdOp w = opWrite then sendBytes (w &&& cmdAckCheck ≠ 0) (cmdBytes w) c
  else if cmdOp w = opRead then some (receiveBytes slave (w &&& cmdAckValue ≠ 0) (cmdBytes w) c)
  else none

/-- Run a list: the controller after it, and the interrupt. -/
def runList (slave : Slave) : List U32 → Controller → Option (Controller × U32)
  | [], _ => none
  | w :: ws, c =>
    if cmdOp w = opStop then some ({ c with bus := c.bus ++ [.stop] }, intTransComplete)
    else if cmdOp w = opEnd then some (c, intEndDetect)
    else (execCmd slave c w).bind (runList slave ws)

/-- `I2C_CTR_TRANS_START`: the controller runs its list. -/
def Controller.start (slave : Slave) (c : Controller) : Option (Controller × U32) :=
  runList slave ((List.range i2cNcmds).map c.comd) c

/-- A list runs its commands up to the first END or STOP. -/
theorem runList_append (slave : Slave) (w : U32) (rest : List U32) :
    ∀ (ws : List U32) (c : Controller), (∀ v ∈ ws, cmdOp v ≠ opStop ∧ cmdOp v ≠ opEnd) →
      runList slave (ws ++ w :: rest) c =
        (ws.foldlM (execCmd slave) c).bind (runList slave (w :: rest))
  | [], _, _ => rfl
  | v :: ws, c, h => by
    obtain ⟨h1, h2⟩ := h v List.mem_cons_self
    rw [List.cons_append, runList, if_neg h1, if_neg h2, List.foldlM_cons]
    cases hv : execCmd slave c v with
    | none => rfl
    | some c' =>
      exact runList_append slave w rest ws c' fun u hu => h u (List.mem_cons_of_mem v hu)

end Esp32S31.I2c
