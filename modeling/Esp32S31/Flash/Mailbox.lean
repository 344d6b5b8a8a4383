import Esp32S31.Shm.Ring

/-!
# The flash mailbox

Linux asks the firmware to program or erase its flash window through five words and a data area of
the shared block. `esp_shm_flash_cmd` (`esp_shm_flash.c`) is the Linux side, `shm_flash_service` in
`flash_task` (`shm_flash.c`) the firmware side. One step is one access to a word, or any part of the
copy of the data.

`esp_flash_write` and `esp_flash_erase_region` are not part of the repository: while `flash_op` runs
they may load the bytes of the program in any order and any number of times, change the window to
anything, and return anything (`OpAct`).
-/

namespace Esp32S31.Flash

open Esp32S31.Lib

/-- `ESP_SHM_FLASH_DATA_SIZE`, `ESP_SHM_FLASH_SECTOR`, `ESP_SHM_FLASH_BLOCK`. -/
def flashDataSize : U32 := 0x800
def flashSector : U32 := 0x1000
def flashBlock : U32 := 0x10000

/-- `EIO`, `EBUSY`, `ETIMEDOUT`. -/
def eio : Int := 5
def ebusy : Int := 16
def etimedout : Int := 110

/-- `ESP_OK`, `ESP_ERR_INVALID_ARG`. -/
def espOk : U32 := 0
def espErrInvalidArg : U32 := 0x102

/-- The commands of the mailbox. -/
inductive FlashCmd where
  | program
  | erase
  deriving DecidableEq, Repr

/-- `ESP_SHM_FLASH_PROGRAM`, `ESP_SHM_FLASH_ERASE`. -/
def FlashCmd.word : FlashCmd → U32
  | .program => 2
  | .erase => 3

theorem FlashCmd.word_ne_zero (c : FlashCmd) : c.word ≠ 0 := by
  cases c <;> decide

theorem FlashCmd.word_inj {c d : FlashCmd} (h : c.word = d.word) : c = d := by
  cases c <;> cases d <;> first | rfl | exact absurd h (by decide)

/-- The arguments of a call of `esp_shm_flash_cmd`; a program comes with its `len` bytes. -/
structure FlashCall where
  cmd : FlashCmd
  addr : U32
  len : U32
  buf : List UInt8
  buf_length : cmd = .program → buf.length = len.toNat
  deriving DecidableEq

/-- The mailbox, and the window in the flash. -/
structure Mailbox where
  cmd : U32
  status : U32
  addr : U32
  len : U32
  data : Nat → UInt8
  window : Nat → UInt8

/-! ## Linux: `esp_shm_flash_cmd` -/

/-- Where `esp_shm_flash_cmd` is. -/
inductive CmdPc where
  /-- load CMD: not 0 is `-EBUSY` -/
  | readCmd
  | writeAddr
  | writeLen
  /-- `memcpy_toio`: the byte stores still to come -/
  | copyData (todo : List (Nat × UInt8))
  | writeCmd
  | ring
  /-- `wait_event_timeout` -/
  | wait
  | readStatus
  | done (ret : Int)
  deriving DecidableEq, Repr

/-- One step of a call; `chunk + 1` is the number of bytes that a copy step stores, `expired`
whether a wait times out (which it does only while CMD is set). The flag is the doorbell. -/
def cmdStep (c : FlashCall) (chunk : Nat) (expired : Bool) (b : Mailbox) :
    CmdPc → Mailbox × CmdPc × Bool
  | .readCmd => (b, if b.cmd = 0 then .writeAddr else .done (-ebusy), false)
  | .writeAddr => ({ b with addr := c.addr }, .writeLen, false)
  | .writeLen => ({ b with len := c.len },
      if c.cmd = .program then .copyData (Shm.copyTo 0 c.buf) else .writeCmd, false)
  | .copyData [] => (b, .writeCmd, false)
  | .copyData (w :: ws) =>
    ({ b with data := Circular.put b.data ((w :: ws).take (chunk + 1)) },
      .copyData ((w :: ws).drop (chunk + 1)), false)
  | .writeCmd => ({ b with cmd := c.cmd.word }, .ring, false)
  | .ring => (b, .wait, true)
  | .wait =>
    (b, if b.cmd = 0 then .readStatus else if expired then .done (-etimedout) else .wait, false)
  | .readStatus => (b, .done (if b.status = 0 then 0 else -eio), false)
  | .done ret => (b, .done ret, false)

/-- The call stores to the mailbox in its next step. -/
def CmdPc.stores : CmdPc → Bool
  | .writeAddr | .writeLen | .copyData (_ :: _) | .writeCmd => true
  | _ => false

/-! ## The firmware: `shm_flash_service`, `flash_task` -/

/-- `flash_request_valid`, with the size of the window. -/
def flashRequestValid (size cmd addr len : U32) : Bool :=
  if size ≤ addr ∨ size - addr < len then false
  else if cmd = FlashCmd.erase.word then addr % flashBlock = 0 ∧ len = flashBlock
  else cmd = FlashCmd.program.word ∧ len ≤ flashDataSize ∧ addr % flashSector + len ≤ flashSector

/-- A request that the firmware works on, and the bytes of the data area that it has loaded. -/
structure Exec where
  cmd : U32
  addr : U32
  len : U32
  reads : List (Nat × UInt8)
  deriving DecidableEq, Repr

/-- Where `flash_task` is. -/
inductive ServicePc where
  /-- in `xSemaphoreTake(s_kick)` -/
  | take
  | loadCmd
  | loadAddr (cmd : U32)
  | loadLen (cmd addr : U32)
  /-- no command, or the check of the request -/
  | test (cmd addr len : U32)
  /-- in `flash_op` -/
  | op (e : Exec)
  | writeStatus (e : Exec) (err : U32)
  | clearCmd (e : Exec) (err : U32)
  /-- `s_done`: ring Linux -/
  | ring
  deriving DecidableEq, Repr

/-- What `flash_op` does next. -/
inductive OpAct where
  /-- load a byte of the program -/
  | read (o : Nat)
  /-- the content of the window changes -/
  | flash (o : Nat) (v : UInt8)
  | finish (err : U32)
  deriving DecidableEq, Repr

/-- One step of `flash_task`, with its semaphore. The flag is the doorbell. -/
def serviceStep (size : U32) (a : OpAct) (kick : Bool) (b : Mailbox) :
    ServicePc → Option (Bool × Mailbox × ServicePc × Bool)
  | .take => if kick then some (false, b, .loadCmd, false) else none
  | .loadCmd => some (kick, b, .loadAddr b.cmd, false)
  | .loadAddr cmd => some (kick, b, .loadLen cmd b.addr, false)
  | .loadLen cmd addr => some (kick, b, .test cmd addr b.len, false)
  | .test cmd addr len =>
    some (kick, b,
      if cmd = 0 then .take
      else if flashRequestValid size cmd addr len then .op ⟨cmd, addr, len, []⟩
      else .writeStatus ⟨cmd, addr, len, []⟩ espErrInvalidArg, false)
  | .op e =>
    match a with
    | .read o =>
      if e.cmd = FlashCmd.program.word ∧ o < e.len.toNat then
        some (kick, b, .op { e with reads := e.reads ++ [(o, b.data o)] }, false)
      else none
    | .flash o v => some (kick, { b with window := Function.update b.window o v }, .op e, false)
    | .finish err => some (kick, b, .writeStatus e err, false)
  | .writeStatus e err => some (kick, { b with status := err }, .clearCmd e err, false)
  | .clearCmd _ _ => some (kick, { b with cmd := 0 }, .ring, false)
  | .ring => some (kick, b, .take, true)

/-- The request that the firmware works on. -/
def ServicePc.exec : ServicePc → Option Exec
  | .op e | .writeStatus e _ | .clearCmd e _ => some e
  | _ => none

/-- The firmware has loaded a command. -/
def ServicePc.busy : ServicePc → Bool
  | .loadAddr cmd | .loadLen cmd _ | .test cmd _ _ => cmd ≠ 0
  | .op _ | .writeStatus _ _ | .clearCmd _ _ => true
  | _ => false

/-- The firmware is between the start and the end of a program or erase. -/
def ServicePc.inOp : ServicePc → Bool
  | .op _ => true
  | _ => false

end Esp32S31.Flash
