import Esp32S31.I2c.Driver

/-!
# The reference transaction

What the messages of a transfer mean on the bus, without lists and FIFOs: for each message a START
or RESTART, the address byte, and the data bytes one after the other; the last byte of a read gets a
NACK; one STOP at the end. `Op` is one step of it.
-/

namespace Esp32S31.I2c

/-- One step of a transaction: the START or RESTART, a byte to the slave, or the byte at an offset
of a message from the slave. -/
inductive Op where
  | start
  | put (b : UInt8)
  | get (msg off : Nat) (nack : Bool)
  deriving DecidableEq, Repr

/-- The data bytes of message `i` from the offset `p`. -/
def dataOps (mem : MsgMem) (i : Nat) (m : I2cMsg) (p : Nat) : Nat → List Op
  | 0 => []
  | n + 1 =>
    (if m.rd then .get i p (p + 1 = m.len) else .put (mem i p)) :: dataOps mem i m (p + 1) n

/-- A message: START, address, data. -/
def msgOps (mem : MsgMem) (i : Nat) (m : I2cMsg) : List Op :=
  .start :: .put m.addrByte :: dataOps mem i m 0 m.len

/-- The messages from index `i` on. -/
def msgsOps (mem : MsgMem) : Nat → List I2cMsg → List Op
  | _, [] => []
  | i, m :: ms => msgOps mem i m ++ msgsOps mem (i + 1) ms

/-- One step on the bus and in the buffers. -/
def runOp (slave : Slave) (x : List BusEvent × MsgMem) : Op → List BusEvent × MsgMem
  | .start => (x.1 ++ [.start], x.2)
  | .put b => (x.1 ++ [.write b true], x.2)
  | .get msg off nack => (x.1 ++ [.read (slave x.1) nack],
      Function.update x.2 msg (Function.update (x.2 msg) off (slave x.1)))

/-- **The reference transaction**: the bus and the buffers after it. -/
def reference (slave : Slave) (msgs : List I2cMsg) (x : List BusEvent × MsgMem) :
    List BusEvent × MsgMem :=
  let y := (msgsOps x.2 0 msgs).foldl (runOp slave) x
  (y.1 ++ [.stop], y.2)

end Esp32S31.I2c
