import Mathlib.Logic.Function.Basic
import Esp32S31.Lib.Machine
import Esp32S31.Lib.SpinLock
import Esp32S31.Cache.Sbi

/-!
# One cache sync engine for two harts

The engine has one set of registers. `cache_locked` of the firmware and `esp32s31_cache_sync` of
OpenSBI take a lock word for an operation; the firmware does so from the time that `s_cache_shared`
is set, shortly before `app_main` starts hart 1. One step is one access to memory or to a register.

The operations of hart 0 are functions in the ROM: `rom` has their accesses.

**`cache_lock_runs`**: one operation at a time, with the registers of its own call, if no operation
without the lock is under way when hart 1 starts. `mixed_operations`: without the condition two can
mix.
-/

namespace Esp32S31.Cache

open Esp32S31.Lib

/-! ## The engine -/

inductive Hart where
  | hart0
  | hart1
  deriving DecidableEq

/-- `CACHE_SYNC_MAP`, `CACHE_SYNC_ADDR`, `CACHE_SYNC_SIZE`. -/
inductive Reg where
  | map
  | addr
  | size
  deriving DecidableEq

/-- One access to the engine. -/
inductive Access where
  | write (r : Reg) (v : U32)
  /-- a write to `CACHE_SYNC_CTRL`: the operation starts -/
  | start (op : U32)
  /-- reads of `CACHE_SYNC_CTRL` until the operation is done -/
  | poll
  deriving DecidableEq

/-- A register, with the hart that wrote it last. -/
abbrev Regs := Reg → Option (Hart × U32)

/-- What an access of the hart `h` does to the registers. -/
def Access.apply (h : Hart) : Access → Regs → Regs
  | .write r v, regs => Function.update regs r (some (h, v))
  | .start _, regs | .poll, regs => regs

/-- The accesses of `esp32s31_cache_sync`. -/
def syncAccesses (o : EngineOp) : List Access :=
  .write .map o.map :: .write .addr o.addr :: .write .size o.size ::
    (List.replicate o.passes [.start o.op, .poll]).flatten

/-- A call of `Cache_Invalidate_Addr` or of `Cache_WriteBack_Addr`. -/
inductive RomCall where
  | invalidateAddr (map addr size : U32)
  | writeBackAddr (map addr size : U32)
  deriving DecidableEq

/-- What the accesses `acc` have written to the register, last. -/
def written (r : Reg) (acc : List Access) : Option U32 :=
  acc.foldl (fun o a => match a with
    | .write r' v => if r' = r then some v else o
    | _ => o) none

/-- Before an operation starts, its call has written all registers. -/
def Loads (acc : List Access) : Prop :=
  ∀ pre op post, acc = pre ++ .start op :: post → ∀ r, (written r pre).isSome = true

/-! ## The harts -/

/-- From the wait for the lock to its release. -/
inductive Section where
  | spin (acc : List Access)
  /-- the lock is taken; the accesses that were made and those to come -/
  | op (done rest : List Access)
  deriving DecidableEq

/-- Where a party is. Hart 1 is `idle` or in `locked`. -/
inductive Pc where
  | idle
  /-- before the test of `s_cache_shared` -/
  | test (acc : List Access)
  /-- `op` without the lock -/
  | plain (done rest : List Access)
  /-- before `portSET_INTERRUPT_MASK_FROM_ISR` -/
  | mask (acc : List Access)
  | locked (c : Section)
  /-- before `portCLEAR_INTERRUPT_MASK_FROM_ISR` -/
  | unmask
  deriving DecidableEq

/-- A task or an interrupt of hart 0, or hart 1. -/
inductive Party where
  | task (t : Nat)
  | hart1
  deriving DecidableEq

def Party.hart : Party → Hart
  | .task _ => .hart0
  | .hart1 => .hart1

/-- Where a party goes from the release of the lock. -/
def Party.after : Party → Pc
  | .task _ => .unmask
  | .hart1 => .idle

/-- What `app_main` does next. -/
inductive Boot where
  /-- `*CACHE_LOCK = 0` in `shm_flash_share_cache` -/
  | clear
  /-- `s_cache_shared = true` -/
  | share
  /-- `start_linux_hart` -/
  | start
  /-- hart 1 runs -/
  | done
  deriving DecidableEq

structure State where
  boot : Boot
  /-- `s_cache_shared` -/
  shared : Bool
  /-- `CACHE_LOCK` -/
  lock : Bool
  /-- the task or interrupt that has masked the interrupts of hart 0 -/
  mask : Option Nat
  regs : Regs
  pc : Party → Pc
  /-- the operations that OpenSBI has still to do for the SBI call -/
  todo : List EngineOp

/-- A party goes to another place. -/
def State.goto (s : State) (p : Party) (pc : Pc) : State :=
    { s with pc := Function.update s.pc p pc }

inductive Action where
  /-- a task or an interrupt of hart 0 calls a ROM function -/
  | call (t : Nat) (f : RomCall)
  /-- a step of the party, with the answer of the engine if it is polled -/
  | run (p : Party) (ready : Bool)
  /-- a step of `app_main` -/
  | app
  /-- Linux makes an SBI call -/
  | ecall (funcid : Int) (a0 a1 : U32)
  deriving DecidableEq

/-- An access of an operation, with the place after it. -/
def access (p : Party) (ready : Bool) (done : List Access) (a : Access) (next : Pc) (s : State) :
    State :=
  if a = .poll ∧ ready = false then s
  else { s.goto p next with regs := a.apply p.hart s.regs }

/-- A step with the lock. -/
def sectionStep (p : Party) (ready : Bool) (s : State) : Section → State
  | .spin acc => if s.lock then s else { s.goto p (.locked (.op [] acc)) with lock := true }
  | .op done (a :: rest) => access p ready done a (.locked (.op (done ++ [a]) rest)) s
  | .op _ [] => { s.goto p p.after with lock := false }

/-- A step of `cache_locked`. -/
def taskStep (t : Nat) (ready : Bool) (s : State) : Option State :=
  match s.pc (.task t) with
  | .idle => none
  | .test acc => some (s.goto (.task t) (if s.shared then .mask acc else .plain [] acc))
  | .plain done (a :: rest) => some (access (.task t) ready done a (.plain (done ++ [a]) rest) s)
  | .plain _ [] => some (s.goto (.task t) .idle)
  | .mask acc => some { s.goto (.task t) (.locked (.spin acc)) with mask := some t }
  | .locked c => some (sectionStep (.task t) ready s c)
  | .unmask => some { s.goto (.task t) .idle with mask := none }

/-- A step of `esp32s31_cache_sync`. -/
def hart1Step (ready : Bool) (s : State) : Option State :=
  match s.pc .hart1, s.todo with
  | .idle, o :: todo => some { s.goto .hart1 (.locked (.spin (syncAccesses o))) with todo := todo }
  | .locked c, _ => some (sectionStep .hart1 ready s c)
  | _, _ => none

/-- With the interrupts masked, only the task or interrupt that masked them runs on hart 0. -/
def State.runs (s : State) (t : Nat) : Bool := s.mask = none ∨ s.mask = some t

def step (rom : RomCall → List Access) : Action → State → Option State
  | .call t f, s =>
    if s.runs t ∧ s.pc (.task t) = .idle then some (s.goto (.task t) (.test (rom f))) else none
  | .run (.task t) ready, s => if s.runs t then taskStep t ready s else none
  | .run .hart1 ready, s => if s.boot = .done then hart1Step ready s else none
  | .app, s =>
    if s.mask = none then
      match s.boot with
      | .clear => some { s with lock := false, boot := .share }
      | .share => some { s with shared := true, boot := .start }
      | .start => some { s with boot := .done }
      | .done => none
    else none
  | .ecall funcid a0 a1, s =>
    if s.boot = .done ∧ s.pc .hart1 = .idle ∧ s.todo = [] then
      some { s with todo := (vendorExt funcid a0 a1).2 }
    else none

/-- `app_main` before `shm_flash_share_cache`; the lock word may have any value. -/
def cacheLock (rom : RomCall → List Access) : Machine Action State where
  init s := s.boot = .clear ∧ s.shared = false ∧ s.mask = none ∧ (∀ p, s.pc p = .idle) ∧ s.todo = []
  step := step rom

/-- The operation of a party, between the first access and the last: what was done and what is to
come. -/
def Pc.op : Pc → Option (List Access × List Access)
  | .plain done rest | .locked (.op done rest) => some (done, rest)
  | _ => none

/-- Between the first register write and the last poll. -/
def Pc.busy (pc : Pc) : Bool :=
  match pc.op with
  | some (done, rest) => !done.isEmpty && !rest.isEmpty
  | none => false

/-- The party has taken the lock and not released it. -/
def State.holds (s : State) (p : Party) : Prop := ∃ done rest, s.pc p = .locked (.op done rest)

/-- Hart 1 starts when no operation is under way that goes without the lock. -/
def Quiet : Action → State → Prop
  | .app, s => s.boot = .start → ∀ t done rest, s.pc (.task t) ≠ .plain done rest
  | _, _ => True

end Esp32S31.Cache
