import Esp32S31.Lib.Circular
import Esp32S31.Lib.Word

/-!
# The byte rings of the shared block

`shared/esp32s31-hosted-shm.h`: each direction is a byte ring of records, a record is a 32-bit frame
length and the frame, padded to 4 bytes. `head` and `tail` count bytes and wrap at `2 ^ 32`; the
producer writes `head`, the consumer writes `tail`.

Both sides exist twice: `esp_shm_push` and `esp_shm_read` in the Linux driver (`esp_shm.c`),
`ring_push` and `shm_read` in the firmware (`shm_slave_api.c`). They run the same steps and differ
in the pieces that they copy, in the largest frame that they take and in what they do without
memory, so each is one machine with parameters (`PushReq`, `ReadCfg`).

One step of a machine is one access to a control word, or a copy of any non-empty part of the bytes
that are still to copy, in program order; a word is one such part. The fences of the code add no
step: the accesses are sequentially consistent.
-/

namespace Esp32S31.Shm

open Esp32S31.Lib

/-! ## Layout -/

/-- `struct shm_ring` and `struct esp_shm_ring`, without the offsets in the block. The index mask
`size - 1` needs a power of two. -/
structure ShmRing where
  size : U32
  pow2 : ∃ k, k ≤ 31 ∧ size.toNat = 2 ^ k

/-- `to_host`: `ESP_SHM_TO_HOST_SIZE`. -/
def toHost : ShmRing := ⟨0x8000#32, 15, by decide, by decide⟩

/-- `to_fw`: `ESP_SHM_TO_FW_SIZE`. -/
def toFw : ShmRing := ⟨0x4000#32, 14, by decide, by decide⟩

/-- `ESP_SHM_RECORD_LEN`. -/
def recordLen (frameLen : U32) : U32 := 4#32 + ((frameLen + 3#32) &&& ~~~3#32)

/-- `sizeof(struct esp_payload_header)`. -/
def payloadHeaderLen : U32 := 12#32

/-- The words and the data area of one ring in the shared block. -/
structure RingMem where
  head : U32
  tail : U32
  wait : U32
  data : Nat → UInt8

/-! ## `ring_copy_in` and `ring_copy_out`

A copy is the list of its byte accesses in program order: the piece up to the end of the data
area, then the rest from its start. -/

/-- `shm_copy_to`, `memcpy`: the byte stores to `dst`. -/
def copyTo : Nat → List UInt8 → List (Nat × UInt8)
  | _, [] => []
  | dst, b :: bs => (dst, b) :: copyTo (dst + 1) bs

/-- `shm_copy_from`, `memcpy`: the offsets of the byte loads from `src`. -/
def copyFrom : Nat → Nat → List Nat
  | _, 0 => []
  | src, k + 1 => src :: copyFrom (src + 1) k

/-- The bytes of a copy of `len` at `pos` that lie before the end of the data area. -/
def firstPart (r : ShmRing) (pos len : U32) : U32 :=
  let off := pos &&& (r.size - 1)
  if len < r.size - off then len else r.size - off

/-- `ring_copy_in`. -/
def ringCopyIn (r : ShmRing) (pos : U32) (src : List UInt8) : List (Nat × UInt8) :=
  let off := pos &&& (r.size - 1)
  let first := firstPart r pos (.ofNat 32 src.length)
  copyTo off.toNat (src.take first.toNat) ++ copyTo 0 (src.drop first.toNat)

/-- `ring_copy_out`. -/
def ringCopyOut (r : ShmRing) (pos len : U32) : List Nat :=
  let off := pos &&& (r.size - 1)
  let first := firstPart r pos len
  copyFrom off.toNat first.toNat ++ copyFrom 0 (len - first).toNat

/-! ## The producer: `esp_shm_push`, `ring_push` -/

/-- What one push adds: the frame length and, for a head, the byte stores in program order. -/
structure PushReq where
  len : U32
  stores : U32 → List (Nat × UInt8)

/-- `esp_shm_push`: the frame, then its length. -/
def espShmPush (frame : List UInt8) : PushReq where
  len := .ofNat 32 frame.length
  stores head := ringCopyIn toFw (head + 4) frame ++
    ringCopyIn toFw head (U32.toBytes (.ofNat 32 frame.length))

/-- `ring_push`: the header, the payload, then the length of both. -/
def ringPush (r : ShmRing) (hdr payload : List UInt8) : PushReq where
  len := .ofNat 32 hdr.length + .ofNat 32 payload.length
  stores head := ringCopyIn r (head + 4) hdr ++
    ringCopyIn r (head + 4 + .ofNat 32 hdr.length) payload ++
    ringCopyIn r head (U32.toBytes (.ofNat 32 hdr.length + .ofNat 32 payload.length))

/-- Where a push is: the next access to the shared block. -/
inductive PushPc where
  /-- load `head` -/
  | readHead
  /-- load `tail`, then `need > size - (head - tail)` returns false -/
  | readTail (head : U32)
  /-- the byte stores still to come; without any, store `head + need` -/
  | copyIn (head : U32) (todo : List (Nat × UInt8))
  /-- load `tail` again, for `*kick` -/
  | readTailAgain (head : U32)
  /-- returned: the result, and whether `tail` was the old head -/
  | done (ok kick : Bool)
  deriving DecidableEq, Repr

/-- One step of a push; `chunk + 1` is the number of bytes that a copy step stores. -/
def pushStep (r : ShmRing) (q : PushReq) (chunk : Nat) (m : RingMem) : PushPc → RingMem × PushPc
  | .readHead => (m, .readTail m.head)
  | .readTail head =>
    if r.size - (head - m.tail) < recordLen q.len then (m, .done false false)
    else (m, .copyIn head (q.stores head))
  | .copyIn head [] => ({ m with head := head + recordLen q.len }, .readTailAgain head)
  | .copyIn head (w :: ws) =>
    ({ m with data := Circular.put m.data ((w :: ws).take (chunk + 1)) },
      .copyIn head ((w :: ws).drop (chunk + 1)))
  | .readTailAgain head => (m, .done true (m.tail == head))
  | .done ok kick => (m, .done ok kick)

/-! ## The consumer: `esp_shm_read`, `shm_read` -/

/-- What the two consumers differ in. -/
structure ReadCfg where
  ring : ShmRing
  /-- the largest frame length that the check lets through -/
  frameMax : U32
  /-- without memory: go on to the next record, or return with the record still there -/
  dropOnNoMem : Bool

/-- `esp_shm_read`: Linux drops a frame without memory, since no doorbell comes for it. -/
def espShmRead : ReadCfg := ⟨toHost, toHost.size, true⟩

/-- `shm_read`: `SHM_TO_FW_FRAME_MAX`. -/
def shmRead : ReadCfg := ⟨toFw, 8#32 * 1024#32, false⟩

/-- How a read ends. -/
inductive ReadRet where
  /-- a frame was read -/
  | frame (bytes : List UInt8)
  /-- the "bad frame length" branch -/
  | bad
  /-- no memory, and the record stays -/
  | noMem
  deriving DecidableEq, Repr

/-- Where a read is: the next access to the shared block. -/
inductive ReadPc where
  /-- load `tail` -/
  | readTail
  /-- load `head` and compare -/
  | readHead (tail : U32)
  /-- `head == tail`: Linux returns, the firmware takes its semaphore -/
  | empty (tail : U32)
  /-- copy the length out; then the length check -/
  | readLen (head tail : U32) (got : List UInt8) (todo : List Nat)
  /-- the bad record: store `tail = head` -/
  | recover (head : U32)
  /-- allocate the buffer -/
  | alloc (tail len : U32)
  /-- copy the frame out -/
  | copyOut (tail len : U32) (got : List UInt8) (todo : List Nat)
  /-- store the new tail -/
  | writeTail (tail : U32) (buf : Option (List UInt8))
  /-- load WAIT -/
  | readWait (tail : U32) (buf : Option (List UInt8))
  /-- WAIT was set: store 0 -/
  | clearWait (tail : U32) (buf : Option (List UInt8))
  /-- ring the producer -/
  | ring (tail : U32) (buf : Option (List UInt8))
  | done (ret : ReadRet)
  deriving DecidableEq, Repr

/-- The length check: `len < sizeof(hdr) || len > max || ESP_SHM_RECORD_LEN(len) > head - tail`. -/
def badLen (c : ReadCfg) (head tail len : U32) : Prop :=
  len < payloadHeaderLen ∨ c.frameMax < len ∨ head - tail < recordLen len

instance (c : ReadCfg) (head tail len : U32) : Decidable (badLen c head tail len) :=
  inferInstanceAs (Decidable (_ ∨ _ ∨ _))

/-- After the record: return the frame, or the next record when it was dropped. -/
def readNext (tail : U32) : Option (List UInt8) → ReadPc
  | some bytes => .done (.frame bytes)
  | none => .readHead tail

/-- One step of a read; `chunk + 1` is the number of bytes that a copy step loads, `mem` whether the
allocation succeeds. -/
def readStep (c : ReadCfg) (chunk : Nat) (mem : Bool) (m : RingMem) : ReadPc → RingMem × ReadPc
  | .readTail => (m, .readHead m.tail)
  | .readHead tail =>
    if m.head = tail then (m, .empty tail)
    else (m, .readLen m.head tail [] (ringCopyOut c.ring tail 4))
  | .empty tail => (m, .empty tail)
  | .readLen head tail got [] =>
    let len := U32.ofBytes got
    if badLen c head tail len then (m, .recover head) else (m, .alloc tail len)
  | .readLen head tail got (o :: os) =>
    (m, .readLen head tail (got ++ ((o :: os).take (chunk + 1)).map m.data)
      ((o :: os).drop (chunk + 1)))
  | .recover head => ({ m with tail := head }, .done .bad)
  | .alloc tail len =>
    if mem then (m, .copyOut tail len [] (ringCopyOut c.ring (tail + 4) len))
    else if c.dropOnNoMem then (m, .writeTail (tail + recordLen len) none)
    else (m, .done .noMem)
  | .copyOut tail len got [] => (m, .writeTail (tail + recordLen len) (some got))
  | .copyOut tail len got (o :: os) =>
    (m, .copyOut tail len (got ++ ((o :: os).take (chunk + 1)).map m.data)
      ((o :: os).drop (chunk + 1)))
  | .writeTail tail buf => ({ m with tail := tail }, .readWait tail buf)
  | .readWait tail buf => if m.wait = 0 then (m, readNext tail buf) else (m, .clearWait tail buf)
  | .clearWait tail buf => ({ m with wait := 0 }, .ring tail buf)
  | .ring tail buf => (m, readNext tail buf)
  | .done ret => (m, .done ret)

/-- The step that writes the doorbell of the producer. -/
def ReadPc.rings : ReadPc → Bool
  | .ring _ _ => true
  | _ => false

end Esp32S31.Shm
