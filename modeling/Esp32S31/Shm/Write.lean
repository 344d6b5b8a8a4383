import Esp32S31.Shm.Ring

/-!
# `shm_write`: the firmware sends a frame to Linux

`shm_write` (`shm_slave_api.c`) builds the payload header, then pushes until the frame fits: after a
refused push it sets WAIT and pushes once more before it takes the space semaphore, and it gives up
after `SHM_TX_TIMEOUT_MS`. The tick count is a choice of the step (`expired`).

The layout of `struct esp_payload_header` belongs to ESP-Hosted; the header is a parameter that
makes 12 bytes of the fields that `shm_write` sets.
-/

namespace Esp32S31.Shm

open Esp32S31.Lib

/-- `SHM_TO_HOST_FRAME_MAX`. -/
def shmToHostFrameMax : Nat := 16 * 1024

/-- `SHM_TO_FW_FRAME_MAX`. -/
def shmToFwFrameMax : Nat := 8 * 1024

/-- `ESP_FAIL`. -/
def espFail : Int := -1

/-- The fields of `struct esp_payload_header` that `shm_write` sets. -/
structure PayloadHeader where
  ifType : UInt8
  ifNum : UInt8
  flags : UInt8
  packetType : UInt8
  len : UInt16
  offset : UInt16
  deriving DecidableEq, Repr

/-- The bytes of a payload header. -/
abbrev HeaderBytes := PayloadHeader → Vector UInt8 12

/-- `interface_buffer_handle_t`, as `shm_write` reads it: without a payload the pointer is NULL, and
`payload_len` is the payload's length. -/
structure BufferHandle where
  ifType : UInt8
  ifNum : UInt8
  flag : UInt8
  pktType : UInt8
  payload : Option (List UInt8)
  deriving DecidableEq, Repr

/-- A frame that `shm_write` sends: header and payload. -/
structure TxFrame where
  hdr : Vector UInt8 12
  payload : List UInt8
  deriving DecidableEq

/-- The bytes of the frame. -/
def TxFrame.bytes (x : TxFrame) : List UInt8 := x.hdr.toList ++ x.payload

/-- The push of the frame. -/
def TxFrame.push (x : TxFrame) : PushReq := ringPush toHost x.hdr.toList x.payload

/-- The checks at the start of `shm_write`, and the frame that it then sends. -/
def writeArgs (hb : HeaderBytes) (handle : Bool) (buf : Option BufferHandle) : Option TxFrame :=
  match handle, buf with
  | true, some b =>
    match b.payload with
    | some p =>
      if p.length = 0 ∨ shmToHostFrameMax < payloadHeaderLen.toNat + p.length then none
      else some ⟨hb ⟨b.ifType, b.ifNum, b.flag, b.pktType, .ofNat p.length,
        .ofNat payloadHeaderLen.toNat⟩, p⟩
    | none => none
  | _, _ => none

/-- Where `shm_write` is. -/
inductive WritePc where
  /-- no call -/
  | idle
  /-- the first push of a turn of the loop -/
  | push1 (x : TxFrame) (pc : PushPc)
  /-- store WAIT -/
  | setWait (x : TxFrame)
  /-- the second push -/
  | push2 (x : TxFrame) (pc : PushPc)
  /-- the check of the tick count -/
  | time (x : TxFrame)
  /-- in `xSemaphoreTake(s_space_sem)` -/
  | take (x : TxFrame)
  /-- pushed: ring the host when `kick` is set, and return -/
  | kick (x : TxFrame) (k : Bool)
  /-- returned: the frame, when the arguments gave one, and the result -/
  | done (x : Option TxFrame) (ret : Int)
  deriving DecidableEq

/-- A call of `shm_write`. -/
def shmWrite (hb : HeaderBytes) (handle : Bool) (buf : Option BufferHandle) : WritePc :=
  match writeArgs hb handle buf with
  | some x => .push1 x .readHead
  | none => .done none espFail

/-- One step of `shm_write`. -/
def writeStep (chunk : Nat) (expired : Bool) (m : RingMem) : WritePc → RingMem × WritePc
  | .idle => (m, .idle)
  | .push1 x (.done ok k) => (m, if ok then .kick x k else .setWait x)
  | .push1 x pc => ((pushStep toHost x.push chunk m pc).1,
      .push1 x (pushStep toHost x.push chunk m pc).2)
  | .setWait x => ({ m with wait := 1 }, .push2 x .readHead)
  | .push2 x (.done ok k) => (m, if ok then .kick x k else .time x)
  | .push2 x pc => ((pushStep toHost x.push chunk m pc).1,
      .push2 x (pushStep toHost x.push chunk m pc).2)
  | .time x => (m, if expired then .done (some x) espFail else .take x)
  | .take x => (m, .push1 x .readHead)
  | .kick x _ => (m, .done (some x) x.payload.length)
  | .done x ret => (m, .done x ret)

section

variable {chunk : Nat} {expired : Bool} {m : RingMem} {x : TxFrame} {pc : PushPc}

/-- A push in progress goes on. -/
theorem writeStep_push1 (h : ∀ ok k, pc ≠ .done ok k) : writeStep chunk expired m (.push1 x pc) =
    ((pushStep toHost x.push chunk m pc).1, .push1 x (pushStep toHost x.push chunk m pc).2) := by
  cases pc with
  | done ok k => exact absurd rfl (h ok k)
  | _ => rfl

theorem writeStep_push2 (h : ∀ ok k, pc ≠ .done ok k) : writeStep chunk expired m (.push2 x pc) =
    ((pushStep toHost x.push chunk m pc).1, .push2 x (pushStep toHost x.push chunk m pc).2) := by
  cases pc with
  | done ok k => exact absurd rfl (h ok k)
  | _ => rfl

end

/-- The push that is in progress. -/
def WritePc.push : WritePc → Option (TxFrame × PushPc)
  | .push1 x pc | .push2 x pc => some (x, pc)
  | _ => none

/-- **The frame of `shm_write` is within the limits of the direction.** -/
theorem length_of_writeArgs {hb : HeaderBytes} {handle : Bool} {buf : Option BufferHandle}
    {x : TxFrame} (h : writeArgs hb handle buf = some x) :
    12 ≤ x.bytes.length ∧ x.bytes.length ≤ shmToHostFrameMax := by
  unfold writeArgs at h
  split at h
  · split at h
    · split at h
      · exact absurd h (by simp)
      · rename_i hlen
        obtain rfl := Option.some.inj h
        simp only [TxFrame.bytes, List.length_append, Vector.length_toList]
        have h12 : payloadHeaderLen.toNat = 12 := rfl
        omega
    · exact absurd h (by simp)
  · exact absurd h (by simp)

end Esp32S31.Shm
