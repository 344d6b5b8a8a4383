import Mathlib.Logic.Function.Basic
import Esp32S31.Lib.Machine

/-!
# The relay of the Thread radio

`thread-relay.c`: `relay` gives the stream of the radio to one TCP client. One step of the machine
is one system call with its answer, so a state is a place between two calls. The kernel gives a new
connection a descriptor that is not in use; connections have numbers of their own, since descriptors
come again.

The record of a run has what was read and written, newest first.
-/

namespace Esp32S31.ThreadRelay

open Esp32S31.Lib

/-- What was read or written. -/
abbrev Bytes := List UInt8

/-- `sizeof(buf)`. -/
def bufSize : Nat := 2048

/-- `revents`, the bits that the relay tests. -/
structure Revents where
  pollin : Bool
  pollerr : Bool
  pollhup : Bool
  deriving DecidableEq

/-- `revents = 0`. -/
def Revents.none : Revents := ⟨false, false, false⟩

/-- `revents & (POLLIN | POLLERR | POLLHUP)`. -/
def Revents.any (r : Revents) : Bool := r.pollin || r.pollerr || r.pollhup

/-- What a system call answers. -/
inductive Answer where
  /-- an error other than `EINTR`, the end of a stream, or a write of nothing -/
  | failed
  /-- `EINTR` -/
  | again
  | ok
  /-- `poll`, with the events of the device, the listener and the client -/
  | ready (dev listener client : Revents)
  /-- `accept` -/
  | fd (n : Nat)
  /-- `read` -/
  | bytes (b : Bytes)
  /-- `write` -/
  | took (k : Nat)
  deriving DecidableEq

/-- What happens, with the number of the connection. -/
inductive Event where
  | accept (c : Nat)
  | close (c : Nat)
  | devRead (b : Bytes)
  | devWrite (b : Bytes)
  | devFailed
  | clientRead (c : Nat) (b : Bytes)
  | clientWrite (c : Nat) (b : Bytes)
  | clientFailed (c : Nat)
  deriving DecidableEq

/-- The system call that comes next. -/
inductive Pc where
  | poll
  | accept
  /-- `close(old)` in `accept_client`, with the new descriptor -/
  | closeOld (old fd : Nat)
  | readDev
  /-- `write_all` to the client, with the bytes to come -/
  | writeClient (rest : Bytes)
  /-- `close` of a client that is gone -/
  | closeClient
  | readClient
  /-- `write_all` to the device -/
  | writeDev (rest : Bytes)
  /-- the `close` behind the loop -/
  | finish
  | returned
  deriving DecidableEq

/-- The relay and the kernel: `client` is `pfd[2].fd`, `rev0` and `rev2` are the events of the
device and of the client, and `fds` the connection behind a descriptor. -/
structure State where
  pc : Pc
  client : Option Nat
  rev0 : Revents
  rev2 : Revents
  fds : Nat → Option Nat
  accepted : Nat
  log : List Event

/-- The test of the client at the end of a pass. -/
def clientTest (s : State) : State :=
  { s with pc := if s.client.isSome && s.rev2.any then .readClient else .poll }

/-- The test of the device. -/
def deviceTest (s : State) : State := if s.rev0.any then { s with pc := .readDev } else clientTest s

/-- The new value of `pfd[2].fd`: the events were for the old client, not for the new one. -/
def setClient (s : State) (old : Option Nat) (fd : Nat) : State :=
  { s with client := some fd, rev2 := if some fd ≠ old then .none else s.rev2 }

/-- `close(n)`. -/
def closeFd (s : State) (n : Nat) : State :=
  { s with
    fds := Function.update s.fds n none
    log := (s.fds n).toList.map .close ++ s.log }

/-- One system call. -/
def step (a : Answer) (s : State) : Option State :=
  match s.pc, a with
  | .poll, .again => some s
  | .poll, .failed => some { s with pc := .finish }
  | .poll, .ready dev listener client =>
    let s := { s with rev0 := dev, rev2 := client }
    some (if listener.pollin then { s with pc := .accept } else deviceTest s)
  | .accept, .failed => some (deviceTest s)
  | .accept, .again => some (deviceTest s)
  | .accept, .fd n =>
    if (s.fds n).isNone then
      let s :=
        { s with
          fds := Function.update s.fds n (some s.accepted)
          accepted := s.accepted + 1
          log := .accept s.accepted :: s.log }
      some (match s.client with
        | some old => { s with pc := .closeOld old n }
        | none => deviceTest (setClient s none n))
    else none
  | .closeOld old n, .ok => some (deviceTest (setClient (closeFd s old) (some old) n))
  | .readDev, .again => some (clientTest s)
  | .readDev, .failed => some { s with pc := .finish }
  | .readDev, .bytes b =>
    if b ≠ [] ∧ b.length ≤ bufSize then
      let s := { s with log := .devRead b :: s.log }
      some (if s.client.isSome then { s with pc := .writeClient b } else clientTest s)
    else none
  | .writeClient _, .again => some s
  | .writeClient _, .failed =>
    some { s with
      pc := .closeClient
      log := ((s.client.bind s.fds).toList.map .clientFailed) ++ s.log }
  | .writeClient rest, .took k =>
    match s.client.bind s.fds with
    | some c =>
      if 0 < k ∧ k ≤ rest.length then
        let s := { s with log := .clientWrite c (rest.take k) :: s.log }
        some (if rest.drop k = [] then clientTest s
          else { s with pc := .writeClient (rest.drop k) })
      else none
    | none => none
  | .closeClient, .ok =>
    some { (s.client.elim s (closeFd s)) with pc := .poll, client := none }
  | .readClient, .again => some { s with pc := .poll }
  | .readClient, .failed => some { s with pc := .closeClient }
  | .readClient, .bytes b =>
    match s.client.bind s.fds with
    | some c =>
      if b ≠ [] ∧ b.length ≤ bufSize then
        some { s with pc := .writeDev b, log := .clientRead c b :: s.log }
      else none
    | none => none
  | .writeDev _, .again => some s
  | .writeDev _, .failed => some { s with pc := .finish, log := .devFailed :: s.log }
  | .writeDev rest, .took k =>
    if 0 < k ∧ k ≤ rest.length then
      let s := { s with log := .devWrite (rest.take k) :: s.log }
      some { s with pc := if rest.drop k = [] then .poll else .writeDev (rest.drop k) }
    else none
  | .finish, .ok => some { (s.client.elim s (closeFd s)) with pc := .returned }
  | _, _ => none

/-- `relay(dev, lfd)`. -/
def relay : Machine Answer State where
  init s := s = ⟨.poll, none, .none, .none, fun _ => none, 0, []⟩
  step := step

/-! ## The streams of a run -/

/-- The bytes that an event adds to a stream. -/
def stream (f : Event → Bytes) : List Event → Bytes
  | [] => []
  | e :: log => stream f log ++ f e

/-- What the relay has written to the device. -/
def devOut : List Event → Bytes := stream fun
  | .devWrite b => b
  | _ => []

/-- What the relay has read from its clients, one after another. -/
def clientIn : List Event → Bytes := stream fun
  | .clientRead _ b => b
  | _ => []

/-- What the relay has written to the connection `c`. -/
def clientOut (c : Nat) : List Event → Bytes := stream fun
  | .clientWrite c' b => if c' = c then b else []
  | _ => []

/-- What the relay has read from the device at the times that `p` selects, by the record up to then.
-/
def devInWhen (p : List Event → Bool) : List Event → Bytes
  | [] => []
  | .devRead b :: log => devInWhen p log ++ if p log then b else []
  | _ :: log => devInWhen p log

/-- The stream of the device. -/
def devIn : List Event → Bytes := devInWhen fun _ => true

/-- The connection is open. -/
def isOpen (c : Nat) (log : List Event) : Bool := .accept c ∈ log && .close c ∉ log

/-- The stream of the device before the connection `c`, while it is open, and after it. -/
def before (c : Nat) : List Event → Bytes := devInWhen fun log => .accept c ∉ log
def during (c : Nat) : List Event → Bytes := devInWhen (isOpen c)
def after (c : Nat) : List Event → Bytes := devInWhen fun log => .accept c ∈ log && .close c ∈ log

end Esp32S31.ThreadRelay
