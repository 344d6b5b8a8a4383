import Esp32S31.Shm.HostTx
import Esp32S31.Lib.Machine
import Mathlib.Data.List.Perm.Basic

/-!
# Every frame given to `esp_shm_write` is consumed once, and the net queues get woken

The transmit side of `HostTx.lean` against any firmware: the tail of the ring changes at any time to
any value. `TxLog` records what happened to each skb.

`TxInv` holds at every step. The bounds of the claim are about the states in which `tx_lock` is
free; inside the lock each has its own form: the pause threshold may be passed while `esp_shm_write`
flushes (`full`), and a stopped queue with few frames is the flush's own business until it has
passed the test for the wake-up (`stalled`).
-/

namespace Esp32S31.Shm

open Esp32S31.Lib

/-- What happened to the skbs so far. -/
structure TxLog where
  /-- the calls of `esp_shm_write`, with the result; a call that got its frame into the queue
  returns 0 after the flush -/
  calls : List (Skb × Int)
  /-- freed by `esp_shm_write` on an error -/
  freed : List Skb
  /-- the frames whose head store happened -/
  ringed : List Skb
  /-- unlinked and freed, the frame being in the ring -/
  moved : List Skb
  /-- freed by a purge -/
  purged : List Skb

namespace TxLog

/-- The skbs given to `esp_shm_write`. -/
def given (l : TxLog) : List Skb := l.calls.map (·.1)

/-- The skbs of the calls that return 0, in their order. -/
def accepted (l : TxLog) : List Skb := (l.calls.filter (·.2 = 0)).map (·.1)

/-- The skbs of the calls that return an error. -/
def refused (l : TxLog) : List Skb := (l.calls.filter (·.2 ≠ 0)).map (·.1)

/-- A call of `esp_shm_write`, which frees the skb on an error. -/
def call (l : TxLog) (skb : Skb) (ret : Int) : TxLog :=
  { l with calls := l.calls ++ [(skb, ret)], freed := if ret ≠ 0 then l.freed ++ [skb]
    else l.freed }

/-- A step of a flush. -/
def flush (l : TxLog) : FlushPc → TxLog
  | .push1 skb pc | .push2 skb pc =>
    match pc with
    | .copyIn _ [] => { l with ringed := l.ringed ++ [skb] }
    | _ => l
  | .unlink skb => { l with moved := l.moved ++ [skb] }
  | _ => l

/-- What a step of the transmit side adds. -/
def add (l : TxLog) (t : HostTx) : HostTx.Act → TxLog
  | .write skb => l.call skb (t.write skb).1
  | .flush _ => match t.txLock with
    | some f => l.flush f.pc
    | none => l
  | .purge => { l with purged := l.purged ++ t.txQueue }
  | _ => l

end TxLog

/-- The transmit side with its ring, and the log. -/
structure TxSys where
  mem : RingMem
  tx : HostTx
  log : TxLog

/-- What can happen next. -/
inductive TxSysAct where
  /-- a call of `esp_shm_write` that does not take the lock -/
  | early (ctx linearize : Bool) (skb : Skb)
  | write (linearize : Bool) (skb : Skb)
  /-- any other step of the driver -/
  | tx (a : HostTx.Act)
  /-- the firmware moves the tail -/
  | free (tail : U32)

namespace TxSys

/-- A step of the driver. -/
def drive (s : TxSys) (a : HostTx.Act) : Option TxSys :=
  (s.tx.step s.mem a).map fun x => ⟨x.1, x.2.1, s.log.add s.tx a⟩

/-- One step, with `adapter->tx_aggr_size`. -/
def step (txAggrSize : Nat) : TxSysAct → TxSys → Option TxSys
  | .early ctx linearize skb, s =>
    if writeCheck ctx txAggrSize linearize skb = 0 then none
    else some { s with log := s.log.call skb (writeCheck ctx txAggrSize linearize skb) }
  | .write linearize skb, s =>
    if writeCheck true txAggrSize linearize skb = 0 then s.drive (.write skb) else none
  | .tx (.write _), _ => none
  | .tx a, s => s.drive a
  | .free tail, s => some { s with mem := { s.mem with tail := tail } }

/-- The transport was just bound, over a ring with any content. -/
def Start (s : TxSys) : Prop := s.tx = HostTx.bound ∧ s.log = ⟨[], [], [], [], []⟩

/-- **The transmit side as a machine.** -/
def machine (txAggrSize : Nat) : Machine TxSysAct TxSys := ⟨Start, step txAggrSize⟩

end TxSys

/-! ## The thresholds -/

/-- The flush has not yet decided on the wake-up of the net queues. -/
def FlushPc.undecided : FlushPc → Bool
  | .ring | .unlock => false
  | _ => true

namespace HostTx

/-- **The invariant of the thresholds.** -/
structure Bounds (t : HostTx) : Prop where
  len : t.txQueue.length ≤ espShmTxQueueMax
  net : t.netStopped = t.txPaused
  worker : t.work = .locked → ∃ f, t.txLock = some f ∧ f.caller = .work
  holder : ∀ f, t.txLock = some f → f.caller = .work → t.work = .locked
  quiescing : t.ctl = .quiesceCancel ∨ t.ctl = .quiescePurge → t.txQuiesced = true
  removing : t.ctl = .removeCancel ∨ t.ctl = .removePurge → t.running = false
  full : (∀ f, t.txLock = some f → f.caller = .work) →
    espShmTxPause ≤ t.txQueue.length → t.txPaused = true
  stalled : t.txPaused = true → t.running = true → t.txQuiesced = false →
    espShmTxResume < t.txQueue.length ∨ t.workPending = true ∨ t.work = .waiting ∨
      t.ctl = .reinitSchedule ∨ ∃ f, t.txLock = some f ∧ f.pc.undecided = true

theorem bound_bounds : Bounds bound where
  len := Nat.zero_le _
  net := rfl
  worker := nofun
  holder := nofun
  quiescing := nofun
  removing := nofun
  full := fun _ h => absurd h (by decide)
  stalled := nofun

/-- `esp_shm_tx_flow` sets both, since both always agree. -/
theorem flow_eq {t : HostTx} (h : t.netStopped = t.txPaused) (pause : Bool) :
    t.flow pause = { t with txPaused := pause, netStopped := pause } := by
  unfold flow
  split
  · rename_i e
    obtain ⟨q, r, qu, p, n, l, wp, w, c⟩ := t
    obtain rfl : n = p := h
    obtain rfl : n = pause := e
    rfl
  · rfl

section

variable {t : HostTx} {f : Flush}

theorem Bounds.caller (h : Bounds t) (hl : t.txLock = some f) (hw : t.work = .locked) :
    f.caller = .work := by
  obtain ⟨g, hg, hc⟩ := h.worker hw
  obtain rfl := Option.some.inj (hl.symm.trans hg)
  exact hc

theorem Bounds.full_work (h : Bounds t) (hl : t.txLock = some f) (hc : f.caller = .work)
    (hq : espShmTxPause ≤ t.txQueue.length) : t.txPaused = true :=
  h.full (fun g hg => by
    obtain rfl := Option.some.inj (hl.symm.trans hg)
    exact hc) hq

/-- Behind the decision, and with the lock free, the flush is no excuse. -/
theorem Bounds.stalled_decided (h : Bounds t) (hl : ∀ f, t.txLock = some f → f.pc.undecided = false)
    (h1 : t.txPaused = true) (h2 : t.running = true) (h3 : t.txQuiesced = false) :
    espShmTxResume < t.txQueue.length ∨ t.workPending = true ∨ t.work = .waiting ∨
      t.ctl = .reinitSchedule := by
  rcases h.stalled h1 h2 h3 with h4 | h4 | h4 | h4 | ⟨g, hg, h4⟩
  · exact .inl h4
  · exact .inr (.inl h4)
  · exact .inr (.inr (.inl h4))
  · exact .inr (.inr (.inr h4))
  · rw [hl g hg] at h4
    exact absurd h4 (by simp)

section Same

variable {g : Flush} (h : Bounds t) (hl : t.txLock = some f) (hg : g.caller = f.caller)

include h hl hg

theorem Bounds.worker_same (hw : t.work = .locked) : ∃ x, some g = some x ∧ x.caller = .work :=
  ⟨g, rfl, hg.trans (h.caller hl hw)⟩

theorem Bounds.holder_same (x : Flush) (hx : some g = some x) (hc : x.caller = .work) :
    t.work = .locked := by
  obtain rfl := Option.some.inj hx
  exact h.holder f hl (hg.symm.trans hc)

theorem Bounds.full_same (hc : ∀ x, some g = some x → x.caller = .work)
    (hq : espShmTxPause ≤ t.txQueue.length) : t.txPaused = true :=
  h.full_work hl (hg.symm.trans (hc g rfl)) hq

end Same

/-- A flush that has still to decide goes on. -/
theorem Bounds.goto (h : Bounds t) (hl : t.txLock = some f) {k : Bool} {pc : FlushPc}
    (hp : pc.undecided = true) : Bounds (t.goto { f with kick := k } pc) where
  len := h.len
  net := h.net
  worker := h.worker_same hl rfl
  holder := h.holder_same hl rfl
  quiescing := h.quiescing
  removing := h.removing
  full := h.full_same hl rfl
  stalled := fun _ _ _ => .inr (.inr (.inr (.inr ⟨_, rfl, hp⟩)))

/-- A flush that has decided, or was not let in, goes on. -/
theorem Bounds.goto_decided (h : Bounds t) (hl : t.txLock = some f) {pc : FlushPc}
    (hp : f.pc.undecided = false ∨ t.running = false ∨ t.txQuiesced = true) :
    Bounds (t.goto f pc) where
  len := h.len
  net := h.net
  worker := h.worker_same hl rfl
  holder := h.holder_same hl rfl
  quiescing := h.quiescing
  removing := h.removing
  full := h.full_same hl rfl
  stalled := fun h1 h2 h3 => by
    rcases hp with hp | hp | hp
    · rcases h.stalled_decided (fun g hg => by
        obtain rfl := Option.some.inj (hl.symm.trans hg)
        exact hp) h1 h2 h3 with h4 | h4 | h4 | h4
      · exact .inl h4
      · exact .inr (.inl h4)
      · exact .inr (.inr (.inl h4))
      · exact .inr (.inr (.inr (.inl h4)))
    · exact absurd (hp.symm.trans h2) (by simp)
    · exact absurd (hp.symm.trans h3) (by simp)

theorem Bounds.unlink (h : Bounds t) (hl : t.txLock = some f) :
    Bounds { t.goto f .peek with txQueue := t.txQueue.tail } := by
  have hlen : t.txQueue.tail.length ≤ t.txQueue.length := by
    rw [List.length_tail]
    exact Nat.sub_le _ _
  have hfull := h.full_same (g := { f with pc := .peek }) hl rfl
  exact ⟨Nat.le_trans hlen h.len, h.net, h.worker_same hl rfl, h.holder_same hl rfl, h.quiescing,
    h.removing, fun hc hq => hfull hc (Nat.le_trans hq hlen),
    fun _ _ _ => .inr (.inr (.inr (.inr ⟨_, rfl, rfl⟩)))⟩

/-- The decision: with few frames the net queues run. -/
theorem Bounds.resume (h : Bounds t) (hl : t.txLock = some f) :
    Bounds ((if t.txQueue.length ≤ espShmTxResume then t.flow false else t).goto f .ring) := by
  by_cases hq : t.txQueue.length ≤ espShmTxResume
  · have hlt : espShmTxResume < espShmTxPause := by decide
    rw [if_pos hq, flow_eq h.net]
    exact ⟨h.len, rfl, h.worker_same hl rfl, h.holder_same hl rfl, h.quiescing, h.removing,
      fun _ hf => absurd (Nat.le_trans hf hq) (Nat.not_le.mpr hlt), nofun⟩
  · rw [if_neg hq]
    exact ⟨h.len, h.net, h.worker_same hl rfl, h.holder_same hl rfl, h.quiescing, h.removing,
      h.full_same hl rfl, fun _ _ _ => .inl (Nat.lt_of_not_le hq)⟩

/-- The caller stops the net queues over a long queue, and releases the lock. -/
theorem Bounds.release (h : Bounds t) (hl : t.txLock = some f) (hp : f.pc = .unlock) :
    Bounds (t.release f.caller) := by
  have hst := h.stalled_decided (fun g hg => by
    obtain rfl := Option.some.inj (hl.symm.trans hg)
    rw [hp]
    rfl)
  have hst' : t.txPaused = true → t.running = true → t.txQuiesced = false →
      espShmTxResume < t.txQueue.length ∨ t.workPending = true ∨ t.work = .waiting ∨
        t.ctl = .reinitSchedule ∨ ∃ g, (none : Option Flush) = some g ∧ g.pc.undecided = true :=
    fun h1 h2 h3 => by
      rcases hst h1 h2 h3 with h4 | h4 | h4 | h4
      · exact .inl h4
      · exact .inr (.inl h4)
      · exact .inr (.inr (.inl h4))
      · exact .inr (.inr (.inr (.inl h4)))
  cases hc : f.caller with
  | write =>
    have hnw : t.work ≠ .locked := fun hw => by
      rw [h.caller hl hw] at hc
      exact absurd hc (by simp)
    unfold HostTx.release
    by_cases hq : espShmTxPause ≤ t.txQueue.length
    · have hlt : espShmTxResume < espShmTxPause := by decide
      simp only [if_pos hq, flow_eq h.net]
      exact ⟨h.len, rfl, fun hw => absurd hw hnw, nofun, h.quiescing, h.removing, fun _ _ => rfl,
        fun _ _ _ => .inl (Nat.lt_of_lt_of_le hlt hq)⟩
    · simp only [if_neg hq]
      exact ⟨h.len, h.net, fun hw => absurd hw hnw, nofun, h.quiescing, h.removing,
        fun _ hf => absurd hf hq, hst'⟩
  | work =>
    refine ⟨h.len, h.net, nofun, nofun, h.quiescing, h.removing, fun _ => h.full_work hl hc,
      fun h1 h2 h3 => ?_⟩
    rcases hst h1 h2 h3 with h4 | h4 | h4 | h4
    · exact .inl h4
    · exact .inr (.inl h4)
    · rw [h.holder f hl hc] at h4
      exact absurd h4 (by simp)
    · exact .inr (.inr (.inr (.inl h4)))

theorem Bounds.flush (h : Bounds t) (hl : t.txLock = some f) (chunk : Nat) (m : RingMem) :
    Bounds (flushStep chunk m t f).2.1 := by
  have hgo : ∀ {pc}, pc.undecided = true → Bounds (t.goto f pc) := fun hp =>
    h.goto hl (k := f.kick) hp
  unfold flushStep
  cases hpc : f.pc with
  | start =>
    simp only
    split
    · rename_i hn
      rw [Bool.or_eq_true, Bool.not_eq_true'] at hn
      exact h.goto_decided hl (.inr hn)
    · exact hgo rfl
  | peek =>
    simp only
    cases t.txQueue <;> exact hgo rfl
  | push1 skb pc =>
    cases pc with
    | done ok k => cases ok <;> exact h.goto hl rfl
    | _ => exact hgo rfl
  | setWait skb => exact hgo rfl
  | push2 skb pc =>
    cases pc with
    | done ok k => cases ok <;> exact h.goto hl rfl
    | _ => exact hgo rfl
  | unlink skb => exact h.unlink hl
  | resume => exact h.resume hl
  | ring => exact h.goto_decided hl (.inl (by rw [hpc]; rfl))
  | unlock => exact h.release hl hpc

/-- The locked section of `esp_shm_write` up to its flush. -/
theorem Bounds.write (h : Bounds t) (hl : t.txLock = none) (skb : Skb) :
    Bounds (t.write skb).2 := by
  unfold HostTx.write
  split
  · exact h
  · split
    · exact h
    · rename_i hq
      refine ⟨?_, h.net, fun hw => ?_, nofun, h.quiescing, h.removing, fun hc => ?_,
        fun _ _ _ => .inr (.inr (.inr (.inr ⟨_, rfl, rfl⟩)))⟩
      · rw [List.length_append, List.length_singleton]
        exact Nat.lt_of_not_le hq
      · obtain ⟨g, hg, -⟩ := h.worker hw
        exact absurd (hl.symm.trans hg) (by simp)
      · exact absurd (hc _ rfl) (by simp)

/-- **A step keeps the thresholds.** -/
theorem Bounds.step {m m' : RingMem} {t' : HostTx} {a : Act} {r : Bool} (h : Bounds t)
    (hs : t.step m a = some (m', t', r)) : Bounds t' := by
  cases a with
  | write skb =>
    simp only [HostTx.step] at hs
    split at hs
    · obtain ⟨-, rfl, -⟩ := hs
      exact h.write (by assumption) skb
    · exact absurd hs (by simp)
  | flush chunk =>
    obtain ⟨f, hl, e⟩ := Option.map_eq_some_iff.mp hs
    have := h.flush hl chunk m
    rwa [e] at this
  | irq =>
    simp only [HostTx.step] at hs
    split at hs
    · obtain ⟨-, rfl, -⟩ := hs
      split
      · exact h
      · exact { h with stalled := fun _ _ _ => .inr (.inl rfl) }
    · exact absurd hs (by simp)
  | work =>
    simp only [HostTx.step] at hs
    split at hs
    · rename_i hw
      obtain ⟨-, rfl, -⟩ := hs
      exact { h with
        worker := nofun
        holder := fun f hl hc => absurd (hw.2.symm.trans (h.holder f hl hc)) (by simp)
        stalled := fun _ _ _ => .inr (.inr (.inl rfl)) }
    · exact absurd hs (by simp)
  | workLock =>
    simp only [HostTx.step] at hs
    split at hs
    · rename_i hw
      obtain ⟨-, rfl, -⟩ := hs
      exact { h with
        worker := fun _ => ⟨_, rfl, rfl⟩
        holder := fun _ _ _ => rfl
        full := fun _ => h.full (fun f hl => absurd (hw.2.symm.trans hl) (by simp))
        stalled := fun _ _ _ => .inr (.inr (.inr (.inr ⟨_, rfl, rfl⟩))) }
    · exact absurd hs (by simp)
  | quiesce =>
    simp only [HostTx.step] at hs
    split at hs
    · obtain ⟨-, rfl, -⟩ := hs
      exact { h with
        quiescing := fun _ => rfl
        removing := fun hc => absurd hc (by simp)
        stalled := nofun }
    · exact absurd hs (by simp)
  | cancel =>
    simp only [HostTx.step] at hs
    split at hs
    · split at hs
      · rename_i hc
        obtain ⟨-, rfl, -⟩ := hs
        have hq := h.quiescing (.inl hc)
        exact { h with
          quiescing := fun _ => hq
          removing := fun hc => absurd hc (by simp)
          stalled := fun _ _ h3 => absurd (hq.symm.trans h3) (by simp) }
      · rename_i hc
        obtain ⟨-, rfl, -⟩ := hs
        have hr := h.removing (.inl hc)
        exact { h with
          quiescing := fun hc => absurd hc (by simp)
          removing := fun _ => hr
          stalled := fun _ h2 _ => absurd (hr.symm.trans h2) (by simp) }
      · exact absurd hs (by simp)
    · exact absurd hs (by simp)
  | purge =>
    simp only [HostTx.step] at hs
    split at hs
    · rename_i hc
      obtain ⟨-, rfl, -⟩ := hs
      refine { h with
        len := Nat.zero_le _
        quiescing := fun hc => absurd hc (by simp)
        removing := fun hc => absurd hc (by simp)
        full := fun _ hq => absurd hq (Nat.not_le.mpr (by decide : 0 < espShmTxPause))
        stalled := fun _ h2 h3 => ?_ }
      rcases hc.2 with hc | hc
      · exact absurd ((h.quiescing (.inr hc)).symm.trans h3) (by simp)
      · exact absurd ((h.removing (.inr hc)).symm.trans h2) (by simp)
    · exact absurd hs (by simp)
  | reinit =>
    simp only [HostTx.step] at hs
    split at hs
    · obtain ⟨-, rfl, -⟩ := hs
      exact { h with
        quiescing := fun hc => absurd hc (by simp)
        removing := fun hc => absurd hc (by simp)
        stalled := fun _ _ _ => .inr (.inr (.inr (.inl rfl))) }
    · exact absurd hs (by simp)
  | schedule =>
    simp only [HostTx.step] at hs
    split at hs
    · obtain ⟨-, rfl, -⟩ := hs
      exact { h with
        quiescing := fun hc => absurd hc (by simp)
        removing := fun hc => absurd hc (by simp)
        stalled := fun _ _ _ => .inr (.inl rfl) }
    · exact absurd hs (by simp)
  | remove =>
    simp only [HostTx.step] at hs
    split at hs
    · obtain ⟨-, rfl, -⟩ := hs
      exact { h with
        quiescing := fun _ => rfl
        removing := fun _ => rfl
        stalled := nofun }
    · exact absurd hs (by simp)

end

end HostTx

/-! ## The log -/

/-- The frame of the push in progress. -/
def FlushPc.skb : FlushPc → Option Skb
  | .push1 skb _ | .setWait skb | .push2 skb _ | .unlink skb => some skb
  | _ => none

/-- The frame of the push in progress, once its head is stored. -/
def FlushPc.stored : FlushPc → List Skb
  | .push1 skb pc | .push2 skb pc =>
    match pc with
    | .readTailAgain _ | .done true _ => [skb]
    | _ => []
  | .unlink skb => [skb]
  | _ => []

/-- The frame of the flush in progress, once its head is stored. -/
def HostTx.stored (t : HostTx) : List Skb :=
  match t.txLock with
  | some f => f.pc.stored
  | none => []

/-- **The invariant of the log**: each skb is in one place, the frames went into the ring in the
order of the calls, and the frame that a flush pushes is the first of the queue. -/
structure TxLog.Inv (l : TxLog) (t : HostTx) : Prop where
  once : l.given.Perm (l.freed ++ l.moved ++ l.purged ++ t.txQueue)
  freed : l.freed = l.refused
  ringed : l.ringed = l.moved ++ t.stored
  order : (l.moved ++ t.txQueue).Sublist l.accepted
  first : ∀ f skb, t.txLock = some f → f.pc.skb = some skb → ∃ rest, t.txQueue = skb :: rest

namespace TxLog

variable {l : TxLog} {t : HostTx}

theorem inv_bound : Inv ⟨[], [], [], [], []⟩ HostTx.bound :=
  ⟨.refl _, rfl, rfl, .refl _, nofun⟩

/-- Nothing that the log speaks about changes. -/
theorem Inv.same (h : Inv l t) {t' : HostTx} (hq : t'.txQueue = t.txQueue)
    (hl : t'.txLock = t.txLock) : Inv l t' := by
  have hs : t'.stored = t.stored := by
    unfold HostTx.stored
    rw [hl]
  exact ⟨hq ▸ h.once, h.freed, hs ▸ h.ringed, hq ▸ h.order, hq ▸ hl ▸ h.first⟩

/-- A refused call frees its skb. -/
theorem Inv.refuse (h : Inv l t) {skb : Skb} {ret : Int} (hr : ret ≠ 0) : Inv
    (l.call skb ret) t := by
  have hf : (l.call skb ret).freed = l.freed ++ [skb] := if_pos hr
  have hg : (l.call skb ret).given = l.given ++ [skb] := by simp [given, call]
  have ha : (l.call skb ret).accepted = l.accepted := by simp [accepted, call, hr]
  have hc : (l.call skb ret).refused = l.refused ++ [skb] := by simp [refused, call, hr]
  refine ⟨?_, by rw [hf, hc, h.freed], h.ringed, ha ▸ h.order, h.first⟩
  rw [hg, hf, List.perm_iff_count]
  intro x
  have := List.perm_iff_count.mp h.once x
  simp only [List.count_append, call] at this ⊢
  omega

/-- An accepted call queues its skb behind the others. -/
theorem Inv.accept (h : Inv l t) (hl : t.txLock = none) {skb : Skb} {f : Flush}
    (hf : f.pc = .start) :
    Inv (l.call skb 0) { t with txQueue := t.txQueue ++ [skb], txLock := some f } := by
  have hg : (l.call skb 0).given = l.given ++ [skb] := by simp [given, call]
  have ha : (l.call skb 0).accepted = l.accepted ++ [skb] := by simp [accepted, call]
  have hc : (l.call skb 0).refused = l.refused := by simp [refused, call]
  have hst : t.stored = [] := by
    unfold HostTx.stored
    rw [hl]
  refine ⟨?_, hc ▸ h.freed, ?_, ?_, fun g y hg hy => ?_⟩
  · rw [hg, List.perm_iff_count]
    intro x
    have := List.perm_iff_count.mp h.once x
    simp only [List.count_append, call] at this ⊢
    simp only [ne_eq, not_true_eq_false, if_false]
    omega
  · have := h.ringed
    rw [hst] at this
    show l.ringed = l.moved ++ f.pc.stored
    rw [hf]
    exact this
  · rw [ha]
    show (l.moved ++ (t.txQueue ++ [skb])).Sublist _
    rw [← List.append_assoc]
    exact h.order.append_right [skb]
  · obtain rfl := Option.some.inj hg
    rw [hf] at hy
    exact absurd hy (by simp [FlushPc.skb])

/-- A flush moves on with the same frame, and its head store shows in the log. -/
theorem Inv.goto (h : Inv l t) {f : Flush} (hl : t.txLock = some f) {g : Flush}
    (hst : (l.flush f.pc).ringed = l.moved ++ g.pc.stored) (hm : (l.flush f.pc).moved = l.moved)
    (hc : (l.flush f.pc).calls = l.calls ∧ (l.flush f.pc).freed = l.freed ∧
      (l.flush f.pc).purged = l.purged)
    (hs : ∀ skb, g.pc.skb = some skb → f.pc.skb = some skb ∨ ∃ rest, t.txQueue = skb :: rest) :
    Inv (l.flush f.pc) { t with txLock := some g } := by
  obtain ⟨hc, hfr, hp⟩ := hc
  refine ⟨?_, ?_, by rw [hst, hm]; rfl, ?_, fun x skb hx hy => ?_⟩
  · rw [given, hc, hfr, hm, hp]
    exact h.once
  · rw [hfr, refused, hc]
    exact h.freed
  · rw [hm, accepted, hc]
    exact h.order
  · obtain rfl := Option.some.inj hx
    rcases hs skb hy with h1 | h1
    · exact h.first f skb hl h1
    · exact h1

theorem Inv.ringed_lock (h : Inv l t) {f : Flush} (hl : t.txLock = some f) :
    l.ringed = l.moved ++ f.pc.stored := by
  have := h.ringed
  unfold HostTx.stored at this
  rw [hl] at this
  exact this

/-- The frame whose head is stored is the first of the queue. -/
theorem Inv.stored_sublist (h : Inv l t) : t.stored.Sublist t.txQueue := by
  unfold HostTx.stored
  cases hl : t.txLock with
  | none => exact List.nil_sublist _
  | some f =>
    have hone : ∀ skb, f.pc.skb = some skb → [skb].Sublist t.txQueue := fun skb hs => by
      obtain ⟨rest, hq⟩ := h.first f skb hl hs
      rw [hq]
      exact List.singleton_sublist.mpr List.mem_cons_self
    have hcase : f.pc.stored = [] ∨ ∃ skb, f.pc.skb = some skb ∧ f.pc.stored = [skb] := by
      cases f.pc with
      | push1 skb pc | push2 skb pc =>
        cases pc with
        | readTailAgain head => exact .inr ⟨skb, rfl, rfl⟩
        | done ok k => cases ok <;> first | exact .inl rfl | exact .inr ⟨skb, rfl, rfl⟩
        | _ => exact .inl rfl
      | unlink skb => exact .inr ⟨skb, rfl, rfl⟩
      | _ => exact .inl rfl
    rcases hcase with hn | ⟨skb, hs, hn⟩
    · simp only [hn]
      exact List.nil_sublist _
    · simp only [hn]
      exact hone skb hs

/-- A step of a push, as the log sees it. -/
theorem flush_push (skb : Skb) (chunk : Nat) (m : RingMem) (pc : PushPc)
    (h : l.ringed = l.moved ++ (FlushPc.push1 skb pc).stored) :
    (l.flush (.push1 skb pc)).ringed = l.moved ++
        (FlushPc.push1 skb (pushStep toFw (espShmPush skb.data) chunk m pc).2).stored ∧
      (l.flush (.push1 skb pc)).moved = l.moved ∧ (l.flush (.push1 skb pc)).calls = l.calls ∧
      (l.flush (.push1 skb pc)).freed = l.freed ∧ (l.flush (.push1 skb pc)).purged = l.purged := by
  cases pc with
  | copyIn head todo =>
    cases todo with
    | nil =>
      refine ⟨?_, rfl, rfl, rfl, rfl⟩
      show l.ringed ++ [skb] = l.moved ++ [skb]
      rw [h]
      exact congrArg (· ++ [skb]) (List.append_nil _)
    | cons w ws => exact ⟨h, rfl, rfl, rfl, rfl⟩
  | readTail head =>
    refine ⟨?_, rfl, rfl, rfl, rfl⟩
    simp only [pushStep]
    split <;> exact h
  | done ok k => cases ok <;> exact ⟨h, rfl, rfl, rfl, rfl⟩
  | _ => exact ⟨h, rfl, rfl, rfl, rfl⟩

/-- **A step of a flush keeps the log right.** -/
theorem Inv.flush (h : Inv l t) {f : Flush} (hl : t.txLock = some f) (chunk : Nat) (m : RingMem) :
    Inv (l.flush f.pc) (HostTx.flushStep chunk m t f).2.1 := by
  have hr := h.ringed_lock hl
  have hfirst := h.first f
  have hgo := fun {g : Flush} => h.goto hl (g := g)
  unfold HostTx.flushStep
  cases hpc : f.pc with
  | start =>
    rw [hpc] at hr hgo
    refine hgo ?_ rfl ⟨rfl, rfl, rfl⟩ ?_
    · simp only
      split <;> exact hr
    · simp only
      split <;> exact nofun
  | peek =>
    rw [hpc] at hr hgo
    cases hq : t.txQueue with
    | nil => exact hgo hr rfl ⟨rfl, rfl, rfl⟩ nofun
    | cons skb rest =>
      refine hgo hr rfl ⟨rfl, rfl, rfl⟩ fun x hx => .inr ⟨rest, ?_⟩
      obtain rfl := Option.some.inj hx
      exact hq
  | push1 skb pc =>
    rw [hpc] at hr hgo
    obtain ⟨h1, h2, h3, h4, h5⟩ := flush_push skb chunk m pc hr
    have hpush (hp : ∀ ok kick, pc ≠ .done ok kick) : Inv (l.flush (.push1 skb pc))
        (HostTx.flushStep chunk m t ⟨f.caller, .push1 skb pc, f.kick⟩).2.1 := by
      rw [HostTx.flushStep_push1 hp]
      exact hgo h1 h2 ⟨h3, h4, h5⟩ fun x hx => .inl hx
    cases pc with
    | done ok k =>
      cases ok with
      | true => exact hgo hr rfl ⟨rfl, rfl, rfl⟩ fun x hx => .inl hx
      | false => exact hgo hr rfl ⟨rfl, rfl, rfl⟩ fun x hx => .inl hx
    | _ => exact hpush (by nofun)
  | setWait skb =>
    rw [hpc] at hr hgo
    exact hgo hr rfl ⟨rfl, rfl, rfl⟩ fun x hx => .inl hx
  | push2 skb pc =>
    rw [hpc] at hr hgo
    obtain ⟨h1, h2, h3, h4, h5⟩ := flush_push skb chunk m pc hr
    have hpush (hp : ∀ ok kick, pc ≠ .done ok kick) : Inv (l.flush (.push2 skb pc))
        (HostTx.flushStep chunk m t ⟨f.caller, .push2 skb pc, f.kick⟩).2.1 := by
      rw [HostTx.flushStep_push2 hp]
      exact hgo h1 h2 ⟨h3, h4, h5⟩ fun x hx => .inl hx
    cases pc with
    | done ok k =>
      cases ok with
      | true => exact hgo hr rfl ⟨rfl, rfl, rfl⟩ fun x hx => .inl hx
      | false => exact hgo hr rfl ⟨rfl, rfl, rfl⟩ nofun
    | _ => exact hpush (by nofun)
  | unlink skb =>
    rw [hpc] at hr hfirst
    obtain ⟨rest, hq⟩ := hfirst skb hl rfl
    have hrest : t.txQueue.tail = rest := by rw [hq]; rfl
    refine ⟨?_, h.freed, ?_, ?_, fun x y hx hy => ?_⟩
    · show l.given.Perm (l.freed ++ (l.moved ++ [skb]) ++ l.purged ++ t.txQueue.tail)
      rw [hrest, List.perm_iff_count]
      intro x
      have := List.perm_iff_count.mp h.once x
      rw [hq] at this
      rw [← List.singleton_append] at this
      simp only [List.count_append] at this ⊢
      omega
    · exact hr.trans (List.append_nil _).symm
    · show (l.moved ++ [skb] ++ t.txQueue.tail).Sublist l.accepted
      have := h.order
      rw [hq] at this
      rw [hrest, List.append_assoc]
      exact this
    · obtain rfl := Option.some.inj hx
      exact absurd hy (by simp [FlushPc.skb])
  | resume =>
    rw [hpc] at hr hgo
    have hgo := hgo (g := { f with pc := .ring }) hr rfl ⟨rfl, rfl, rfl⟩ nofun
    simp only
    split
    · unfold HostTx.flow
      split
      · exact hgo
      · exact hgo.same rfl rfl
    · exact hgo
  | ring =>
    rw [hpc] at hr hgo
    exact hgo hr rfl ⟨rfl, rfl, rfl⟩ nofun
  | unlock =>
    rw [hpc] at hr
    have hfree : ∀ {t' : HostTx}, t'.txQueue = t.txQueue → t'.txLock = none → Inv l t' :=
      fun {t'} hq hn => by
        have hs : t'.stored = [] := by
          unfold HostTx.stored
          rw [hn]
        exact ⟨hq ▸ h.once, h.freed, hs ▸ hr, hq ▸ h.order,
          fun x y hx => absurd (hn.symm.trans hx) (by simp)⟩
    exact hfree (t.release_txQueue _) (t.release_txLock _)

/-- **A step of the driver keeps the log right.** -/
theorem Inv.step {m m' : RingMem} {t' : HostTx} {a : HostTx.Act} {r : Bool} (h : Inv l t)
    (hs : t.step m a = some (m', t', r)) : Inv (l.add t a) t' := by
  cases a with
  | write skb =>
    simp only [HostTx.step] at hs
    split at hs
    · rename_i hl
      obtain ⟨-, rfl, -⟩ := hs
      show Inv (l.call skb (t.write skb).1) (t.write skb).2
      unfold HostTx.write
      split
      · exact h.refuse (by decide : -enodev ≠ 0)
      · split
        · exact h.refuse (by decide : -ebusy ≠ 0)
        · exact h.accept hl rfl
    · exact absurd hs (by simp)
  | flush chunk =>
    obtain ⟨f, hl, e⟩ := Option.map_eq_some_iff.mp hs
    have := h.flush hl chunk m
    rw [e] at this
    show Inv (match t.txLock with | some f => l.flush f.pc | none => l) t'
    rw [hl]
    exact this
  | purge =>
    simp only [HostTx.step] at hs
    split at hs
    · rename_i hc
      obtain ⟨-, rfl, -⟩ := hs
      refine ⟨?_, h.freed, h.ringed, ?_, fun f _ hf => absurd (hc.1.symm.trans hf) (by simp)⟩
      · show l.given.Perm (l.freed ++ l.moved ++ (l.purged ++ t.txQueue) ++ [])
        rw [List.append_nil, ← List.append_assoc]
        exact h.once
      · show (l.moved ++ []).Sublist l.accepted
        rw [List.append_nil]
        exact (List.sublist_append_left _ _).trans h.order
    · exact absurd hs (by simp)
  | irq =>
    simp only [HostTx.step] at hs
    split at hs
    · obtain ⟨-, rfl, -⟩ := hs
      split
      · exact h
      · exact h.same rfl rfl
    · exact absurd hs (by simp)
  | workLock =>
    simp only [HostTx.step] at hs
    split at hs
    · rename_i hw
      obtain ⟨-, rfl, -⟩ := hs
      have hr := h.ringed
      unfold HostTx.stored at hr
      rw [hw.2] at hr
      refine ⟨h.once, h.freed, hr, h.order, fun f skb hf hk => ?_⟩
      obtain rfl := Option.some.inj hf
      exact absurd hk (by simp [FlushPc.skb])
    · exact absurd hs (by simp)
  | cancel =>
    simp only [HostTx.step] at hs
    split at hs
    · split at hs
      · obtain ⟨-, rfl, -⟩ := hs
        exact h.same rfl rfl
      · obtain ⟨-, rfl, -⟩ := hs
        exact h.same rfl rfl
      · exact absurd hs (by simp)
    · exact absurd hs (by simp)
  | _ =>
    simp only [HostTx.step] at hs
    split at hs
    · obtain ⟨-, rfl, -⟩ := hs
      exact h.same rfl rfl
    · exact absurd hs (by simp)

end TxLog

/-! ## The result -/

/-- Both invariants. -/
structure TxSys.Inv (s : TxSys) : Prop where
  bounds : s.tx.Bounds
  log : s.log.Inv s.tx

namespace TxSys

theorem Inv.drive {s s' : TxSys} {a : HostTx.Act} (h : Inv s) (hs : s.drive a = some s') :
    Inv s' := by
  obtain ⟨⟨m, t, r⟩, e, rfl⟩ := Option.map_eq_some_iff.mp hs
  exact ⟨h.bounds.step e, h.log.step e⟩

theorem Inv.step {n : Nat} {s s' : TxSys} {a : TxSysAct} (h : Inv s)
    (hs : TxSys.step n a s = some s') : Inv s' := by
  cases a with
  | early ctx linearize skb =>
    simp only [TxSys.step] at hs
    split at hs
    · exact absurd hs (by simp)
    · rename_i hr
      obtain rfl := Option.some.inj hs
      exact ⟨h.bounds, h.log.refuse hr⟩
  | write linearize skb =>
    simp only [TxSys.step] at hs
    split at hs
    · exact h.drive hs
    · exact absurd hs (by simp)
  | tx a =>
    cases a with
    | write skb => exact absurd hs (by simp [TxSys.step])
    | _ => exact h.drive hs
  | free tail =>
    obtain rfl := Option.some.inj hs
    exact ⟨h.bounds, h.log⟩

theorem Inv.of_reach {n : Nat} {s : TxSys} (h : (machine n).Reach s) : Inv s :=
  h.invariant (fun s h0 => by
    obtain ⟨m, t, l⟩ := s
    obtain ⟨rfl, rfl⟩ := h0
    exact ⟨HostTx.bound_bounds, TxLog.inv_bound⟩) fun _ _ _ _ hi _ hs => hi.step hs

end TxSys

/-- **The host TX queue.** In every reachable state each skb given to `esp_shm_write` is in exactly
one place: freed by the call that returned an error, in the ring, purged, or still queued; the
frames went into the ring in the order of the calls that returned 0. While `tx_lock` is free the
queue has at most 256 frames, 64 frames stop the net queues, and a running transport with stopped
net queues has more than 16 frames waiting, or `tx_work` queued or running, or a reinit about to
schedule it. -/
theorem host_tx_queue {txAggrSize : Nat} {s : TxSys} (h : (TxSys.machine txAggrSize).Reach s) :
    (s.log.given.Perm (s.log.freed ++ s.log.moved ++ s.log.purged ++ s.tx.txQueue) ∧
      s.log.freed = s.log.refused) ∧
    (s.log.moved <+: s.log.ringed ∧ s.log.ringed.Sublist s.log.accepted) ∧
    (s.tx.txLock = none →
      s.tx.txQueue.length ≤ 256 ∧
      (64 ≤ s.tx.txQueue.length → s.tx.netStopped = true) ∧
      (s.tx.netStopped = true → s.tx.running = true → s.tx.txQuiesced = false →
        16 < s.tx.txQueue.length ∨ (s.tx.workPending = true ∨ s.tx.work ≠ .idle) ∨
          s.tx.ctl = .reinitSchedule)) := by
  obtain ⟨hb, hl⟩ := TxSys.Inv.of_reach h
  refine ⟨⟨hl.once, hl.freed⟩, ⟨?_, ?_⟩, fun hn => ⟨hb.len, fun hq => ?_, fun h1 h2 h3 => ?_⟩⟩
  · rw [hl.ringed]
    exact List.prefix_append _ _
  · rw [hl.ringed]
    refine (List.Sublist.append_left ?_ _).trans hl.order
    exact hl.stored_sublist
  · rw [hb.net]
    exact hb.full (fun f hf => absurd (hn.symm.trans hf) (by simp)) hq
  · rw [hb.net] at h1
    rcases hb.stalled_decided (fun f hf => absurd (hn.symm.trans hf) (by simp)) h1 h2 h3
      with h4 | h4 | h4 | h4
    · exact .inl h4
    · exact .inr (.inl (.inl h4))
    · exact .inr (.inl (.inr (by rw [h4]; simp)))
    · exact .inr (.inr h4)

/-- A frame goes into the ring, a second one waits over a full ring until the handler schedules the
work, and a third one is too long. -/
def txQueueRun : List TxSysAct :=
  [TxSysAct.write true ⟨0, List.replicate 12 7, false⟩] ++ List.replicate 13
    (TxSysAct.tx (.flush 99)) ++
    [TxSysAct.free (16 - 0x4000), .write true ⟨1, List.replicate 12 7, false⟩] ++
    List.replicate 12 (TxSysAct.tx (.flush 99)) ++
    [TxSysAct.tx .irq, .early true true ⟨2, List.replicate 99 0, false⟩]

theorem host_tx_queue_run :
    ∃ s, (TxSys.machine 20).run txQueueRun
        ⟨⟨0, 0, 0, fun _ => 0⟩, HostTx.bound, ⟨[], [], [], [], []⟩⟩ = some s ∧
      (s.log.moved.map (·.addr) = [0] ∧ s.tx.txQueue.map (·.addr) = [1] ∧
        s.log.freed.map (·.addr) = [2] ∧ s.tx.workPending = true) ∧
      s.log.given.Perm (s.log.freed ++ s.log.moved ++ s.log.purged ++ s.tx.txQueue) ∧
      s.tx.txQueue.length ≤ 256 := by
  have h : ((TxSys.machine 20).run txQueueRun
      ⟨⟨0, 0, 0, fun _ => 0⟩, HostTx.bound, ⟨[], [], [], [], []⟩⟩).map (fun s =>
        (s.log.moved.map (·.addr), s.tx.txQueue.map (·.addr), s.log.freed.map (·.addr),
          s.tx.workPending, s.tx.txLock)) = some ([0], [1], [2], true, none) := by
    decide +kernel
  obtain ⟨s, hs, e⟩ := Option.map_eq_some_iff.mp h
  simp only [Prod.mk.injEq] at e
  obtain ⟨e1, e2, e3, e4, e5⟩ := e
  have hq := host_tx_queue (Lib.Machine.Reach.run (.init ⟨rfl, rfl⟩) hs)
  exact ⟨s, hs, ⟨e1, e2, e3, e4⟩, hq.1.1, (hq.2.2 e5).1⟩

end Esp32S31.Shm
