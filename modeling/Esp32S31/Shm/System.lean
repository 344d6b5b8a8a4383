import Esp32S31.Shm.Write
import Esp32S31.Shm.HostTx
import Esp32S31.Flash.Mailbox
import Esp32S31.Lib.Machine

/-!
# Linux and the firmware around the shared block

All threads that sleep and ring: on the firmware the handler of the host's doorbell
(`shm_doorbell_isr`), the receive task in `shm_read` with `shm_service_host_requests`, one caller of
`shm_write` and the flash task; on Linux the handler of the firmware's doorbell (`esp_shm_irq`), the
RX work that calls `esp_shm_read` until it returns NULL, the transmit side (`HostTx`), one caller of
`esp_shm_flash_cmd` and any number of threads that set a request bit
(`esp_shm_request_ready_replay`, and `esp32s31_request_poweroff` of OpenSBI). The work that the
handler queues while it runs runs again.

A doorbell is a level: a register that its handler clears. `Sys.step` is one access of one thread.
Linux binds the transport once and keeps it; `shm_deinit` is not part of it either.
-/

namespace Esp32S31.Shm

open Esp32S31.Lib Esp32S31.Flash

/-- `ESP_SHM_REQ_READY_REPLAY`, `ESP_SHM_REQ_POWEROFF`. -/
def espShmReqReadyReplay : U32 := 1
def espShmReqPoweroff : U32 := 2

/-- Where `shm_doorbell_isr` is. -/
inductive IsrPc where
  | idle
  /-- it has cleared the register -/
  | acked
  /-- it has given `s_rx_sem` -/
  | gaveRx
  deriving DecidableEq, Repr

/-- Where `shm_service_host_requests` is; `req` are the bits that the exchange read. -/
inductive ServePc where
  | exchange
  | boot (req : U32)
  | kick (req : U32)
  | poweroff (req : U32)
  deriving DecidableEq, Repr

/-- Where the receive task is: in `shm_read`, whose loop keeps `tail`, or in the deep sleep of the
chip. `empty` is `xSemaphoreTake(s_rx_sem)`. -/
inductive RecvPc where
  | serve (tail : U32) (pc : ServePc)
  | read (pc : ReadPc)
  | off
  deriving DecidableEq, Repr

/-- Where `esp_shm_irq` is. -/
inductive IrqPc where
  | idle
  /-- it has cleared the register -/
  | acked
  /-- it has queued the RX work -/
  | queued
  /-- it has woken the flash caller -/
  | woke
  deriving DecidableEq, Repr

/-- How far `esp_shm_probe` is. -/
inductive ProbePc where
  | unbound
  /-- the interrupt is enabled; `esp_process_new_packet_intr` comes next -/
  | enabled
  | bound
  deriving DecidableEq, Repr

/-- Where a thread is that asks for something with a bit of the request word. -/
inductive RequestPc where
  | idle
  /-- `esp_shm_request_ready_replay` has loaded the word -/
  | store (req : U32)
  /-- the bit is set, the doorbell comes next -/
  | ring
  deriving DecidableEq, Repr

/-- Both sides and what they share. -/
structure Sys where
  toFw : RingMem
  toHost : RingMem
  /-- `FROM_CPU_1` and `FROM_CPU_2` -/
  bellFw : Bool
  bellHost : Bool
  hostReq : U32
  box : Mailbox
  isr : IsrPc
  rxSem : Bool
  spaceSem : Bool
  recv : RecvPc
  write : WritePc
  kickSem : Bool
  flash : ServicePc
  probe : ProbePc
  irq : IrqPc
  /-- the RX work is queued -/
  rxQueued : Bool
  /-- the call of `esp_shm_read` that the RX work is in -/
  rx : Option ReadPc
  tx : HostTx
  cmd : Option (FlashCall × CmdPc)
  requests : Nat → RequestPc

/-- What can happen next. -/
inductive SysAct where
  | isr
  | recv (chunk : Nat) (mem : Bool)
  /-- `shm_write` is called -/
  | call (handle : Bool) (buf : Option BufferHandle)
  | write (chunk : Nat) (expired : Bool)
  | flash (a : OpAct)
  | bind
  | irq
  | rx (chunk : Nat) (mem : Bool)
  | tx (a : HostTx.Act)
  /-- `esp_shm_flash_cmd` is called -/
  | cmdCall (c : FlashCall)
  | cmd (chunk : Nat) (expired : Bool)
  | request (i : Nat)
  | poweroff (i : Nat)

namespace Sys

/-- `esp_shm_ring_firmware`, when the code rings. -/
def ringFw (s : Sys) (rings : Bool) : Sys := { s with bellFw := s.bellFw || rings }

/-- `ring_host_doorbell`, when the code rings. -/
def ringHost (s : Sys) (rings : Bool) : Sys := { s with bellHost := s.bellHost || rings }

/-- `shm_doorbell_isr`. -/
def stepIsr (s : Sys) : Option Sys :=
  match s.isr with
  | .idle => if s.bellFw then some { s with bellFw := false, isr := .acked } else none
  | .acked => some { s with rxSem := true, isr := .gaveRx }
  | .gaveRx => some { s with spaceSem := true, isr := .idle }

/-- The receive task. The boot event goes to the caller of `shm_write`. -/
def stepRecv (s : Sys) (chunk : Nat) (mem : Bool) : Option Sys :=
  match s.recv with
  | .serve tail .exchange => some { s with hostReq := 0, recv := .serve tail (.boot s.hostReq) }
  | .serve tail (.boot req) => some { s with recv := .serve tail (.kick req) }
  | .serve tail (.kick req) => some { s with kickSem := true, recv := .serve tail (.poweroff req) }
  | .serve tail (.poweroff req) =>
    some { s with recv := if req &&& espShmReqPoweroff ≠ 0 then .off else .read (.readHead tail) }
  | .read .readTail => some { s with recv := .serve s.toFw.tail .exchange }
  | .read (.empty tail) =>
    if s.rxSem then some { s with rxSem := false, recv := .serve tail .exchange } else none
  | .read (.done _) => some { s with recv := .read .readTail }
  | .read pc => some ({ s with
      toFw := (readStep shmRead chunk mem s.toFw pc).1
      recv := .read (readStep shmRead chunk mem s.toFw pc).2 }.ringHost pc.rings)
  | .off => none

/-- The caller of `shm_write`. The semaphore is taken, or the wait for it times out. -/
def stepWrite (s : Sys) (chunk : Nat) (expired : Bool) : Sys :=
  match s.write with
  | .take x => { s with spaceSem := false, write := .push1 x .readHead }
  | .kick x k => { s with write := (writeStep chunk expired s.toHost (.kick x k)).2 }.ringHost k
  | pc => { s with
      toHost := (writeStep chunk expired s.toHost pc).1
      write := (writeStep chunk expired s.toHost pc).2 }

/-- `esp_shm_irq`. -/
def stepIrq (s : Sys) : Option Sys :=
  match s.irq with
  | .idle =>
    if s.bellHost ∧ s.probe ≠ .unbound then some { s with bellHost := false, irq := .acked }
    else none
  | .acked => some { s with rxQueued := true, irq := .queued }
  | .queued => some { s with irq := .woke }
  | .woke => (s.tx.step s.toFw .irq).map fun x => { s with tx := x.2.1, irq := .idle }

/-- The RX work. NULL ends it: the ring is empty, or the record was bad. -/
def stepRx (s : Sys) (chunk : Nat) (mem : Bool) : Option Sys :=
  match s.rx with
  | none => if s.rxQueued then some { s with rxQueued := false, rx := some .readTail } else none
  | some (.done .bad) | some (.empty _) => some { s with rx := none }
  | some (.done _) => some { s with rx := some .readTail }
  | some pc => some ({ s with
      toHost := (readStep espShmRead chunk mem s.toHost pc).1
      rx := some (readStep espShmRead chunk mem s.toHost pc).2 }.ringFw pc.rings)

/-- The transmit side, without the handler and without `esp_shm_remove`. -/
def stepTx (s : Sys) : HostTx.Act → Option Sys
  | .irq | .remove => none
  | a =>
    if s.probe = .unbound then none
    else (s.tx.step s.toFw a).map fun x => { s with toFw := x.1, tx := x.2.1 }.ringFw x.2.2

/-- `esp_shm_request_ready_replay`. -/
def stepRequest (s : Sys) (i : Nat) : Sys :=
  match s.requests i with
  | .idle => { s with requests := Function.update s.requests i (.store s.hostReq) }
  | .store req => { s with
      hostReq := req ||| espShmReqReadyReplay
      requests := Function.update s.requests i .ring }
  | .ring => { s with requests := Function.update s.requests i .idle }.ringFw true

/-- `esp32s31_request_poweroff`: an atomic OR, then the doorbell. -/
def stepPoweroff (s : Sys) (i : Nat) : Option Sys :=
  match s.requests i with
  | .idle => some { s with
      hostReq := s.hostReq ||| espShmReqPoweroff
      requests := Function.update s.requests i .ring }
  | _ => none

/-- One step. -/
def step (hb : HeaderBytes) (size : U32) : SysAct → Sys → Option Sys
  | .isr, s => s.stepIsr
  | .recv chunk mem, s => s.stepRecv chunk mem
  | .call handle buf, s =>
    match s.write with
    | .idle | .done _ _ => some { s with write := shmWrite hb handle buf }
    | _ => none
  | .write chunk expired, s => some (s.stepWrite chunk expired)
  | .flash a, s => (serviceStep size a s.kickSem s.box s.flash).map fun x =>
    { s with kickSem := x.1, box := x.2.1, flash := x.2.2.1 }.ringHost x.2.2.2
  | .bind, s =>
    match s.probe with
    | .unbound => some { s with probe := .enabled, tx := HostTx.bound }
    | .enabled => some { s with probe := .bound, rxQueued := true }
    | .bound => none
  | .irq, s => s.stepIrq
  | .rx chunk mem, s => s.stepRx chunk mem
  | .tx a, s => s.stepTx a
  | .cmdCall c, s =>
    if s.cmd = none ∧ s.probe = .bound then some { s with cmd := some (c, .readCmd) } else none
  | .cmd chunk expired, s =>
    match s.cmd with
    | some (_, .done _) => some { s with cmd := none }
    | some (c, pc) => some ({ s with
        box := (cmdStep c chunk expired s.box pc).1
        cmd := some (c, (cmdStep c chunk expired s.box pc).2.1) }.ringFw
          (cmdStep c chunk expired s.box pc).2.2)
    | none => none
  | .request i, s => some (s.stepRequest i)
  | .poweroff i, s => s.stepPoweroff i

/-- The firmware has just started and Linux has not bound the transport yet, over any content of the
shared block and with any doorbell or semaphore set. -/
structure Start (s : Sys) : Prop where
  recv : s.recv = .read .readTail
  write : s.write = .idle
  flash : s.flash = .take
  isr : s.isr = .idle
  probe : s.probe = .unbound
  irq : s.irq = .idle
  rx : s.rx = none ∧ s.rxQueued = false
  tx : s.tx = { HostTx.bound with running := false }
  cmd : s.cmd = none
  requests : ∀ i, s.requests i = .idle

/-- The firmware has just started over two rings, and the rest of the block is zero. -/
def booted (toFw toHost : RingMem) : Sys where
  toFw := toFw
  toHost := toHost
  bellFw := false
  bellHost := false
  hostReq := 0
  box := ⟨0, 0, 0, 0, fun _ => 0, fun _ => 0⟩
  isr := .idle
  rxSem := false
  spaceSem := false
  recv := .read .readTail
  write := .idle
  kickSem := false
  flash := .take
  probe := .unbound
  irq := .idle
  rxQueued := false
  rx := none
  tx := { HostTx.bound with running := false }
  cmd := none
  requests _ := .idle

theorem booted_start (toFw toHost : RingMem) : Start (booted toFw toHost) :=
  ⟨rfl, rfl, rfl, rfl, rfl, rfl, ⟨rfl, rfl⟩, rfl, rfl, fun _ => rfl⟩

/-- **Linux and the firmware as a machine.** -/
def machine (hb : HeaderBytes) (size : U32) : Machine SysAct Sys := ⟨Start, step hb size⟩

end Sys

end Esp32S31.Shm
