import Esp32S31.Shm.Ring

/-!
# The transmit side of the Linux driver

`esp_shm_write`, `esp_shm_tx_flush`, `esp_shm_tx_work`, `esp_shm_quiesce_for_fw_reset`,
`esp_shm_reinit_after_fw_reset` and the end of `esp_shm_remove` (`esp_shm.c`). `HostTx` is the part
of `struct esp_shm_context` that `tx_lock` protects, with the work item, the thread that quiesces,
reinits or removes, and the holder of the lock.

A flush is one step for each access to the shared block and for each statement on the queue; the
sections of the lock that touch nothing else are one step. `ring` says that the step writes the
doorbell to the firmware.
-/

namespace Esp32S31.Shm

open Esp32S31.Lib

/-- `ESP_SHM_TX_PAUSE`. -/
def espShmTxPause : Nat := 64

/-- `ESP_SHM_TX_RESUME`. -/
def espShmTxResume : Nat := 16

/-- `ESP_SHM_TX_QUEUE_MAX`. -/
def espShmTxQueueMax : Nat := 256

/-- `ENOMEM`, `EBUSY`, `ENODEV`, `EINVAL`, `EMSGSIZE`. -/
def enomem : Int := 12
def ebusy : Int := 16
def enodev : Int := 19
def einval : Int := 22
def emsgsize : Int := 90

/-- `struct sk_buff`, at its address. -/
structure Skb where
  addr : Nat
  data : List UInt8
  /-- parts of the data are in fragments -/
  nonlinear : Bool
  deriving DecidableEq, Repr

/-- The checks of `esp_shm_write` before it takes the lock: 0 or the error. -/
def writeCheck (ctx : Bool) (txAggrSize : Nat) (linearize : Bool) (skb : Skb) : Int :=
  if !ctx then -enodev
  else if txAggrSize < skb.data.length then -emsgsize
  else if skb.nonlinear && !linearize then -enomem
  else 0

/-- Who holds `tx_lock` over a flush. -/
inductive TxCaller where
  | write
  | work
  deriving DecidableEq, Repr

/-- Where `esp_shm_tx_flush` is. -/
inductive FlushPc where
  /-- the check of `running` and `tx_quiesced` -/
  | start
  /-- `skb_peek` -/
  | peek
  | push1 (skb : Skb) (pc : PushPc)
  | setWait (skb : Skb)
  | push2 (skb : Skb) (pc : PushPc)
  /-- the frame is in the ring: unlink and free it -/
  | unlink (skb : Skb)
  /-- behind the loop: wake the net queues -/
  | resume
  /-- ring the firmware when `kick` is set -/
  | ring
  /-- flushed: the caller stops the net queues and releases the lock -/
  | unlock
  deriving DecidableEq, Repr

/-- A flush in progress. -/
structure Flush where
  caller : TxCaller
  pc : FlushPc
  kick : Bool
  deriving DecidableEq, Repr

/-- Where `tx_work` is, besides being queued. -/
inductive WorkPc where
  | idle
  /-- it runs and has not got the lock -/
  | waiting
  /-- it flushes -/
  | locked
  deriving DecidableEq, Repr

/-- Where the thread is that quiesces, reinits or removes. -/
inductive CtlPc where
  | idle
  | quiesceCancel
  | quiescePurge
  | reinitSchedule
  | removeCancel
  | removePurge
  deriving DecidableEq, Repr

/-- The transmit side of `struct esp_shm_context`. -/
structure HostTx where
  txQueue : List Skb
  running : Bool
  txQuiesced : Bool
  txPaused : Bool
  /-- the net queues: `esp_tx_pause` and `esp_tx_resume` -/
  netStopped : Bool
  /-- `tx_lock` -/
  txLock : Option Flush
  /-- `tx_work` is queued -/
  workPending : Bool
  work : WorkPc
  ctl : CtlPc
  deriving DecidableEq, Repr

namespace HostTx

/-- `esp_shm_tx_flow`. -/
def flow (t : HostTx) (pause : Bool) : HostTx :=
  if t.txPaused = pause then t else { t with txPaused := pause, netStopped := pause }

/-- `esp_shm_tx_flush` returns, and its caller releases the lock. -/
def release (t : HostTx) : TxCaller → HostTx
  | .write =>
    { (if espShmTxPause ≤ t.txQueue.length then t.flow true else t) with txLock := none }
  | .work => { t with txLock := none, work := .idle }

@[simp] theorem flow_txQueue (t : HostTx) (pause : Bool) : (t.flow pause).txQueue = t.txQueue := by
  unfold flow
  split <;> rfl

@[simp] theorem release_txQueue (t : HostTx) (c : TxCaller) :
    (t.release c).txQueue = t.txQueue := by
  cases c with
  | write =>
    show (if espShmTxPause ≤ t.txQueue.length then t.flow true else t).txQueue = _
    split
    · exact t.flow_txQueue true
    · rfl
  | work => rfl

@[simp] theorem release_txLock (t : HostTx) (c : TxCaller) : (t.release c).txLock = none := by
  cases c <;> rfl

/-- The flush goes on at `pc`. -/
def goto (t : HostTx) (f : Flush) (pc : FlushPc) : HostTx := { t with txLock := some { f with pc } }

/-- One step of a flush: the ring, the transmit side, and whether it writes the doorbell. -/
def flushStep (chunk : Nat) (m : RingMem) (t : HostTx) (f : Flush) : RingMem × HostTx × Bool :=
  match f.pc with
  | .start => (m, t.goto f (if !t.running || t.txQuiesced then .unlock else .peek), false)
  | .peek =>
    match t.txQueue with
    | [] => (m, t.goto f .resume, false)
    | skb :: _ => (m, t.goto f (.push1 skb .readHead), false)
  | .push1 skb (.done ok k) =>
    (m, if ok then t.goto { f with kick := f.kick || k } (.unlink skb) else t.goto f (.setWait skb),
      false)
  | .push1 skb pc =>
    ((pushStep toFw (espShmPush skb.data) chunk m pc).1,
      t.goto f (.push1 skb (pushStep toFw (espShmPush skb.data) chunk m pc).2), false)
  | .setWait skb => ({ m with wait := 1 }, t.goto f (.push2 skb .readHead), false)
  | .push2 skb (.done ok k) =>
    (m, if ok then t.goto { f with kick := f.kick || k } (.unlink skb) else t.goto f .resume, false)
  | .push2 skb pc =>
    ((pushStep toFw (espShmPush skb.data) chunk m pc).1,
      t.goto f (.push2 skb (pushStep toFw (espShmPush skb.data) chunk m pc).2), false)
  | .unlink _ => (m, { t.goto f .peek with txQueue := t.txQueue.tail }, false)
  | .resume =>
    (m, (if t.txQueue.length ≤ espShmTxResume then t.flow false else t).goto f .ring, false)
  | .ring => (m, t.goto f .unlock, f.kick)
  | .unlock => (m, t.release f.caller, false)

section

variable {chunk : Nat} {m : RingMem} {t : HostTx} {c : TxCaller} {k : Bool} {skb : Skb}
  {pc : PushPc}

/-- A push in progress goes on. -/
theorem flushStep_push1 (h : ∀ ok kick, pc ≠ .done ok kick) :
    flushStep chunk m t ⟨c, .push1 skb pc, k⟩ = ((pushStep toFw (espShmPush skb.data) chunk m pc).1,
      t.goto ⟨c, .push1 skb pc, k⟩ (.push1 skb (pushStep toFw (espShmPush skb.data) chunk m pc).2),
        false) := by
  cases pc with
  | done ok kick => exact absurd rfl (h ok kick)
  | _ => rfl

theorem flushStep_push2 (h : ∀ ok kick, pc ≠ .done ok kick) :
    flushStep chunk m t ⟨c, .push2 skb pc, k⟩ = ((pushStep toFw (espShmPush skb.data) chunk m pc).1,
      t.goto ⟨c, .push2 skb pc, k⟩ (.push2 skb (pushStep toFw (espShmPush skb.data) chunk m pc).2),
        false) := by
  cases pc with
  | done ok kick => exact absurd rfl (h ok kick)
  | _ => rfl

end

/-- The locked section of `esp_shm_write`: the error, or the queued frame and the flush to come. -/
def write (t : HostTx) (skb : Skb) : Int × HostTx :=
  if !t.running || t.txQuiesced then (-enodev, t)
  else if espShmTxQueueMax ≤ t.txQueue.length then (-ebusy, t)
  else (0, { t with txQueue := t.txQueue ++ [skb], txLock := some ⟨.write, .start, false⟩ })

/-- What the threads of the transmit side can do next. -/
inductive Act where
  /-- `esp_shm_write` takes the lock -/
  | write (skb : Skb)
  /-- the holder of the lock moves -/
  | flush (chunk : Nat)
  /-- the interrupt handler looks at the queue and schedules `tx_work` -/
  | irq
  /-- `tx_work` starts, and then takes the lock -/
  | work
  | workLock
  /-- `esp_shm_set_tx_quiesced(ctx, true)` of a quiesce, then the rest -/
  | quiesce
  | cancel
  | purge
  /-- `esp_shm_set_tx_quiesced(ctx, false)` of a reinit, then `schedule_work` -/
  | reinit
  | schedule
  /-- `esp_shm_remove` stops the transport -/
  | remove
  deriving DecidableEq, Repr

/-- One step of the transmit side. -/
def step (m : RingMem) (t : HostTx) : Act → Option (RingMem × HostTx × Bool)
  | .write skb => if t.txLock = none then some (m, (t.write skb).2, false) else none
  | .flush chunk => t.txLock.map fun f => flushStep chunk m t f
  | .irq =>
    if t.running then some (m, if t.txQueue = [] then t else { t with workPending := true }, false)
    else none
  | .work =>
    if t.workPending ∧ t.work = .idle then
      some (m, { t with workPending := false, work := .waiting }, false)
    else none
  | .workLock =>
    if t.work = .waiting ∧ t.txLock = none then
      some (m, { t with work := .locked, txLock := some ⟨.work, .start, false⟩ }, false)
    else none
  | .quiesce =>
    if t.ctl = .idle ∧ t.txLock = none then
      some (m, { t with txQuiesced := true, ctl := .quiesceCancel }, false)
    else none
  | .cancel =>
    if t.work = .idle then
      match t.ctl with
      | .quiesceCancel => some (m, { t with workPending := false, ctl := .quiescePurge }, false)
      | .removeCancel => some (m, { t with workPending := false, ctl := .removePurge }, false)
      | _ => none
    else none
  | .purge =>
    if t.txLock = none ∧ (t.ctl = .quiescePurge ∨ t.ctl = .removePurge) then
      some (m, { t with txQueue := [], ctl := .idle }, false)
    else none
  | .reinit =>
    if t.ctl = .idle ∧ t.running ∧ t.txLock = none then
      some (m, { t with txQuiesced := false, ctl := .reinitSchedule }, false)
    else none
  | .schedule =>
    if t.ctl = .reinitSchedule then some (m, { t with workPending := true, ctl := .idle }, false)
    else none
  | .remove =>
    if t.ctl = .idle ∧ t.txLock = none then
      some (m, { t with txQuiesced := true, running := false, ctl := .removeCancel }, false)
    else none

/-- The transport was just bound: `running`, and the rest zero. -/
def bound : HostTx := ⟨[], true, false, false, false, none, false, .idle, .idle⟩

end HostTx

end Esp32S31.Shm
