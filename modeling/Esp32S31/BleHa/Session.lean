import Esp32S31.BleHa.Frames
import Esp32S31.BleHa.Rounds
import Esp32S31.Lib.Monitor
import Mathlib.Logic.Basic

/-!
# Provisioning sessions

What Improv is for: a client gives a network, one join is open until it is connected or its time is
over, and after a connection Improv is done. `session` is that as an automaton over the calls of the
program: a join needs a packet that asks for it, an open join is finished once with its own id, and
kept only after a connection, and nothing leaves `done`.

* `settled_rounds`: every handler of the program keeps to the automaton.
* **`provisioning`**: so does every run from the start of the main loop to its end.
* **`join_after_end_iff`**: a join after the end of Improv comes from a packet with a Wi-Fi command
  that is handled after an end for another network.
-/

namespace Esp32S31.BleHa

open Esp32S31.Lib Prog

/-! ## The packets that ask for a join -/

/-- `rpc_write` of `data` comes to `wpa_join`. -/
def rpcJoins (s : Daemon) (data : List UInt8) : Bool :=
  s.rpc.len + data.length ≤ 128 && s.gatt.state = improvAuthorized &&
    match improvParse (s.rpc.content ++ data) with
    | .ok c => c.cmd = improvCmdWifi
    | .error _ => false

/-- The call of `rpc_write`, if there is one, comes to `wpa_join`. -/
def callbackJoins (s : Daemon) : Option (List UInt8) → Bool
  | some data => rpcJoins s data
  | none => false

/-- An L2CAP frame comes to `wpa_join`. -/
def frameJoins (s : Daemon) (cid : Nat) (p : List UInt8) : Bool :=
  let r := gattHandle s.gatt p s.rspMax
  cid = 4 && callbackJoins { s with gatt := r.1 } r.2.2

/-- The frame that a packet completes, if there is one, comes to `wpa_join`. -/
def completeJoins (s : Daemon) : Option (Nat × List UInt8) → Bool
  | some f => frameJoins s f.1 f.2
  | none => false

/-- An ACL packet comes to `wpa_join`. -/
def aclJoins (s : Daemon) (p : List UInt8) : Bool :=
  let r := reassemble s.l2 p
  completeJoins { s with l2 := r.1 } r.2

/-- A packet of the adapter comes to `wpa_join`. -/
def packetJoins (s : Daemon) (p : List UInt8) : Bool :=
  3 ≤ p.length && byte p 0 = hciAcl && aclJoins s p

/-! ## The automaton -/

/-- Where provisioning is. -/
inductive Session where
  /-- no join is open -/
  | idle
  /-- a packet that asks for a join is being handled -/
  | asked
  /-- `wpa_join` runs -/
  | joining
  /-- the join with this id is open; the last `wpa_connected` reported a connection, or not -/
  | opened (id : Nat) (connected : Bool)
  | done
  /-- the program has ended -/
  | ended
  deriving DecidableEq, Repr

/-- No handler is running. -/
def Session.settled : Session → Bool
  | .asked | .joining | .ended => false
  | _ => true

/-- `wpa_connected` has returned `r`. -/
def Session.report (r : Int) : Session → Option Session
  | .opened id _ => some (.opened id (r = 1))
  | _ => none

/-- `wpa_finish` of `id`. -/
def Session.finish (id : Nat) (keep : Bool) : Session → Option Session
  | .opened id' connected =>
    if id = id' ∧ (keep = true → connected = true) then some (if keep then .done else .idle)
      else none
  | _ => none

/-- What the program keeps of a session. -/
structure Stage where
  joinId : Option Nat
  state : UInt8
  doneAt : Nat
  improv : Bool

def Daemon.stage (s : Daemon) : Stage := ⟨s.joinId, s.gatt.state, s.doneAt, s.improv⟩

/-- The program is where the automaton is. -/
def Session.Holds : Session → Stage → Prop
  | .idle, g =>
    g.joinId = none ∧ g.state ≠ improvProvisioning ∧ g.state ≠ improvProvisioned ∧ g.doneAt = 0
  | .asked, g => g.joinId = none ∧ g.state = improvAuthorized ∧ g.doneAt = 0
  | .joining, g => g.joinId = none ∧ g.state = improvProvisioning ∧ g.doneAt = 0
  | .opened id _, g => g.joinId = some id ∧ g.state = improvProvisioning ∧ g.doneAt = 0
  | .done, g => g.joinId = none ∧ g.state = improvProvisioned ∧ (g.doneAt = 0 → g.improv = false)
  | .ended, _ => False

instance : ∀ (σ : Session) (g : Stage), Decidable (σ.Holds g)
  | .idle, _ | .asked, _ | .joining, _ | .opened _ _, _ | .done,
    _ => inferInstanceAs (Decidable (_ ∧ _))
  | .ended, _ => inferInstanceAs (Decidable False)

/-- No handler is running, and the program is where the automaton is. -/
def Session.Rests (σ : Session) (g : Stage) : Prop := σ.settled = true ∧ σ.Holds g

instance (σ : Session) (g : Stage) : Decidable (σ.Rests g) := inferInstanceAs (Decidable (_ ∧ _))

/-- One call of the program. -/
def Session.step (σ : Session) (k : Call) (s : Daemon) : Option Session :=
  match k with
  | .packet p =>
    if σ.Rests s.stage then
      (if packetJoins s p then (if σ = .idle then some .asked else none) else some σ)
    else none
  | .poll _ => if σ.Rests s.stage then some σ else none
  | .state st =>
    if s.gatt.state ≠ improvProvisioned ∧
        (st = improvProvisioned → s.gatt.state = improvProvisioning) then some σ else none
  | .join _ _ => if σ = .asked then some .joining else none
  | .joined id => if σ = .joining then some (id.elim .idle fun id => .opened id false) else none
  | .connected r => σ.report r
  | .finish id keep => σ.finish id keep
  | .improvEnd .network => if σ = .idle then some σ else none
  | .improvEnd .provisioned => if σ = .done then some σ else none
  | .exit => if σ = .idle ∨ σ = .done then some .ended else none
  | _ => some σ

/-- The automaton over the calls of the program. -/
def session : Monitor Call Daemon Session := ⟨.idle, Session.step⟩

/-- The part of the world that a session is about. -/
structure Key where
  session : Option Session
  stage : Stage

def key (w : World Call Daemon) : Key := ⟨session.after w.calls, w.st.stage⟩

/-- No handler is running, and the program is where the automaton is. -/
def Key.Settled (k : Key) : Prop :=
  ∃ σ : Session, k.session = some σ ∧ σ.Rests k.stage

/-- A packet that asks for a join is being handled. -/
def Key.Asked (k : Key) : Prop := ∃ b, k = ⟨some .asked, ⟨none, improvAuthorized, 0, b⟩⟩

/-- What is about to be handled comes to `wpa_join`, or does not. -/
def Key.Handles (k : Key) (joins : Bool) (k₀ : Key) : Prop := k = k₀ ∧ (joins = true → k₀.Asked)

/-- What has been handled came to `wpa_join`, or it left the session alone. -/
def Key.Handled (k : Key) (joins : Bool) (k₀ : Key) : Prop := if joins then k.Settled else k = k₀

/-- The world has the key `k`. -/
def At (k : Key) (w : World Call Daemon) : Prop := key w = k

/-! ## What leaves a session alone -/

theorem key_call {k : Call} (hk : ∀ σ s, Session.step σ k s = some σ) (w : World Call Daemon)
    (s : Daemon) : key { w with calls := (k, s) :: w.calls } = key w := by
  have h : session.after ((k, s) :: w.calls) = session.after w.calls := by
    rw [Monitor.after]
    exact (congrArg (Option.bind _) (funext fun σ => hk σ s)).trans (Option.bind_fun_some _)
  unfold key
  rw [h]

theorem ignoresAcl_key : IgnoresAcl key where
  asked _ _ := rfl
  acl _ _ _ := rfl
  write w _ _ s := key_call (fun _ _ => rfl) w s
  att w k s hk := by cases k <;> first | exact key_call (fun _ _ => rfl) w s | cases hk

theorem ignoresWpa_key : IgnoresWpa key where
  asked _ _ := rfl
  request w _ _ s := key_call (fun _ _ => rfl) w s

theorem ignoresClients_key : IgnoresClients key where
  asked _ _ := rfl
  clients _ _ := rfl
  batch _ _ := rfl
  calls w k s hk := by cases k <;> first | exact key_call (fun _ _ => rfl) w s | cases hk

theorem At.same {α : Type} {m : Act α} (hm : Same key m) (k : Key) : Keeps (At k) m := hm.meets
    (· = k)

/-- What leaves the key alone keeps what is said of it. -/
theorem keyed {α : Type} {m : Act α} (hm : Same key m) (P : Key → Prop) :
    Keeps (fun w => P (key w)) m := hm.meets P

variable {b : Bool}

/-! ## Single steps -/

section Steps

variable {o : Option Session} {σ τ : Session} {g h : Stage}

theorem at_call {k : Call} (hk : ∀ s : Daemon, s.stage = g → σ.step k s = some τ) :
    Meets (At ⟨some σ, g⟩) (call k : Act Unit) fun _ => At ⟨some τ, g⟩ := by
  refine Meets.call fun w hw => ?_
  have hs : session.after w.calls = some σ := congrArg Key.session hw
  have hg : w.st.stage = g := congrArg Key.stage hw
  unfold At key
  rw [Monitor.after_cons hs, ← hg]
  exact congrArg (Key.mk · _) (hk w.st hg)

theorem at_modify {f : Daemon → Daemon} (hf : ∀ s : Daemon, s.stage = g → (f s).stage = h) :
    Meets (At ⟨o, g⟩) (modify f : Act Unit) fun _ => At ⟨o, h⟩ := by
  refine Meets.modify fun w hw => ?_
  have hs : session.after w.calls = o := congrArg Key.session hw
  unfold At key
  rw [hs]
  exact congrArg (Key.mk _) (hf w.st (congrArg Key.stage hw))

theorem at_get {α : Type} {f : Daemon → Act α} {Q : α → World Call Daemon → Prop}
    (hf : ∀ s : Daemon, s.stage = g → Meets (At ⟨o, g⟩) (f s) Q) :
    Meets (At ⟨o, g⟩) (Prog.get >>= f) Q := by
  rintro env w hw
  exact hf w.st (congrArg Key.stage hw) env w hw

end Steps

/-! ## Improv -/

/-- `set_state` to the state that it is in. -/
theorem setState_self {st : UInt8} {w : World Call Daemon} (hs : w.st.gatt.state = st)
    (env : Nat → Answer) (e : UInt8) : key ((setState st e).run env w).2 = key w := by
  have h := setError_same ignoresAcl_key (fun _ _ => rfl) e env w
  have hst : ((setError e).run env w).2.st.gatt.state = w.st.gatt.state :=
    congrArg (fun k : Key => k.stage.state) h
  rw [setState, run_bind, run_get, when_neg (not_not.mpr (hst.trans hs).symm)]
  exact h

/-- `set_state` to another state, as the automaton allows it. -/
theorem setState_at {σ : Session} {id : Option Nat} {st₀ : UInt8} {t : Nat} {b : Bool}
    (st e : UInt8)
    (hp : st₀ ≠ improvProvisioned) (hq : st = improvProvisioned → st₀ = improvProvisioning) :
    Meets (At ⟨some σ, ⟨id, st₀, t, b⟩⟩) (setState st e) fun _ => At ⟨some σ, ⟨id, st, t, b⟩⟩ := by
  unfold setState
  refine Meets.bind (At.same (setError_same ignoresAcl_key (fun _ _ => rfl) e) _) fun _ => ?_
  refine at_get fun s hs => ?_
  obtain rfl : s.gatt.state = st₀ := congrArg Stage.state hs
  refine Meets.when (fun _ => ?_) fun he w hw => ?_
  · refine Meets.bind (at_call (τ := σ) fun s' hs' => ?_) fun _ => ?_
    · have hst : s'.gatt.state = s.gatt.state := congrArg Stage.state hs'
      exact if_pos (hst ▸ ⟨hp, hq⟩)
    · refine Meets.bind (at_modify (h := ⟨id, st, t, b⟩) fun s hs => ?_) fun _ => ?_
      · exact congrArg (fun g : Stage => { g with state := st }) hs
      · refine Meets.bind (At.same (notify_same ignoresAcl_key _ _) _) fun _ => ?_
        exact At.same (Same.modify fun _ => rfl) _
  · rw [not_not.mp he]
    exact hw

theorem settled_at {w : World Call Daemon} {σ : Session} {g : Stage} (h : At ⟨some σ, g⟩ w)
    (hσ : σ.settled = true) (hg : σ.Holds g) : (key w).Settled := by
  rw [show key w = _ from h]
  exact ⟨σ, rfl, hσ, hg⟩

theorem authorized_ne_provisioning : improvAuthorized ≠ improvProvisioning := by decide

theorem authorized_ne_provisioned : improvAuthorized ≠ improvProvisioned := by decide

theorem zero_ne_provisioning : (0 : UInt8) ≠ improvProvisioning := by decide

theorem zero_ne_provisioned : (0 : UInt8) ≠ improvProvisioned := by decide

theorem provisioning_ne_provisioned : improvProvisioning ≠ improvProvisioned := by decide

theorem improvWifi_asked (c : ImprovCmd) (b : Bool) :
    Meets (At ⟨some .asked, ⟨none, improvAuthorized, 0, b⟩⟩) (improvWifi c) fun _ w =>
      (key w).Settled := by
  unfold improvWifi
  refine at_get fun s hs => Meets.when (fun _ => ?_) fun hn => ?_
  · refine Meets.bind (setState_at _ _ (by decide) (by decide)) fun _ => ?_
    refine Meets.bind (at_call (τ := .joining) fun _ _ => rfl) fun _ => ?_
    refine Meets.bind (At.same (wpaJoin_same ignoresWpa_key _ _) _) fun id => ?_
    refine Meets.bind (at_modify (h := ⟨id, improvProvisioning, 0, b⟩) fun s hs => ?_) fun _ => ?_
    · exact congrArg (fun g : Stage => { g with joinId := id }) hs
    · refine Meets.bind (at_call fun _ _ => rfl) fun _ => ?_
      cases id with
      | none =>
        refine (setState_at _ _ (by decide) (by decide)).mono (fun _ hw => hw) fun _ w hw => ?_
        exact settled_at hw rfl ⟨rfl, authorized_ne_provisioning, authorized_ne_provisioned, rfl⟩
      | some id =>
        refine Meets.bind (At.same (now_same fun _ _ => rfl) _) fun t => ?_
        refine (At.same (Same.modify fun _ => rfl) _).mono (fun _ hw => hw) fun _ w hw => ?_
        exact settled_at hw rfl ⟨rfl, rfl, rfl⟩
  · exact absurd (congrArg Stage.state hs) hn

/-- What does not come to `wpa_join` stays settled. -/
theorem keyed_settled {k k₀ : Key} (h : k.Handled false k₀) (hk : k₀.Settled) : k.Settled := by
  rw [show k = k₀ from h]
  exact hk

theorem handles_same {α : Type} {m : Act α} (hm : Same key m) (b : Bool) (k : Key) :
    Keeps (fun w => (key w).Handles b k) m := keyed hm fun k' => k'.Handles b k

theorem handled_same {α : Type} {m : Act α} (hm : Same key m) (b : Bool) (k : Key) :
    Keeps (fun w => (key w).Handled b k) m := keyed hm fun k' => k'.Handled b k

/-- What leaves the key alone, where it does not come to `wpa_join`. -/
theorem handled_other {α : Type} {m : Act α} (hm : Same key m) (k : Key) :
    Meets (fun w => (key w).Handles false k) m fun _ w => (key w).Handled false k :=
  (handles_same hm false k).mono (fun _ hw => hw) fun _ _ hw => hw.1

theorem handles_get {α : Type} {b : Bool} {k : Key} {f : Daemon → Act α}
    {Q : α → World Call Daemon → Prop}
    (hf : ∀ s : Daemon, s.stage = k.stage → Meets (fun w => (key w).Handles b k) (f s) Q) :
    Meets (fun w => (key w).Handles b k) (Prog.get >>= f) Q :=
  fun env w hw => hf w.st (congrArg Key.stage hw.1) env w hw

/-- A command in the state `st` comes to `wpa_join`. -/
def commandJoins (st : UInt8) (c : ImprovCmd) : Bool :=
    c.cmd = improvCmdWifi && st = improvAuthorized

theorem improvCommand_handled (c : ImprovCmd) (k : Key) :
    Meets (fun w => (key w).Handles (commandJoins k.stage.state c) k) (improvCommand c)
      fun _ w => (key w).Handled (commandJoins k.stage.state c) k := by
  unfold improvCommand
  refine Meets.bind (handles_same (Same.call fun w s => key_call (fun _ _ => rfl) w s) _ k) fun _ =>
    ?_
  refine handles_get fun s hs => Meets.ite (fun hc => ?_) fun hc => ?_
  · by_cases hst : k.stage.state = improvAuthorized
    · rw [commandJoins, decide_eq_true hc, decide_eq_true hst]
      rintro env w ⟨hk, ha⟩
      obtain ⟨b, hb⟩ := ha rfl
      exact improvWifi_asked c b env w (hk.trans hb)
    · rw [commandJoins, decide_eq_false hst, Bool.and_false]
      refine handles_get fun s hs => Meets.when (fun h => ?_) fun _ w hw => hw.1
      exact absurd ((congrArg Stage.state hs).symm.trans h) hst
  · rw [commandJoins, decide_eq_false hc, Bool.false_and]
    refine handled_other (Same.ite ?_ ?_) k
    · refine Same.when (Same.bind (Same.call fun w s => key_call (fun _ _ => rfl) w s) fun _ => ?_)
      refine Same.ite ?_ (Same.modify fun _ => rfl)
      exact (now_same fun _ _ => rfl).bind fun t => Same.modify fun _ => rfl
    · exact Same.when (setResult_same ignoresAcl_key (fun _ _ => rfl) _ _)

/-- `set_state` to the state that it is in, while something is handled. -/
theorem setState_handles {b : Bool} {k : Key} {st : UInt8} (hst : k.stage.state = st) (e : UInt8) :
    Keeps (fun w => (key w).Handles b k) (setState st e) := by
  intro env w hw
  have hs : w.st.gatt.state = st := (congrArg (fun k : Key => k.stage.state) hw.1).trans hst
  rw [setState_self hs]
  exact hw

/-- `rpc_write` with the bytes that the buffer holds in the state `s`. -/
theorem rpcWrite_handled (data : List UInt8) (k : Key) :
    Meets (fun w => (key w).Handles b k ∧ rpcJoins w.st data = b) (rpcWrite data)
      fun _ w => (key w).Handled b k := by
  unfold rpcWrite
  refine Meets.bind (R := fun _ w => (key w).Handles b k ∧ rpcJoins w.st data = b)
    (Meets.call fun w hw => ?_) fun _ => ?_
  · rw [key_call fun _ _ => rfl]
    exact hw
  · refine Meets.get fun s => Meets.given (c := s.stage = k.stage ∧ rpcJoins s data = b) ?_ ?_
    · rintro w ⟨⟨hw, hj⟩, rfl⟩
      exact ⟨congrArg Key.stage hw.1, hj⟩
    rintro ⟨hs, rfl⟩
    refine Meets.mono (P := fun w => (key w).Handles (rpcJoins s data) k) ?_ (fun w hw => hw.1.1)
      fun _ _ hw => hw
    have hst : k.stage.state = s.gatt.state := (congrArg Stage.state hs).symm
    by_cases hl : s.rpc.len + data.length ≤ 128
    · rw [dif_pos hl, rpcJoins, decide_eq_true hl, Bool.true_and]
      refine Meets.bind (handles_same (Same.modify fun _ => rfl) _ k) fun _ => ?_
      rw [Buffer.content_append]
      cases improvParse (s.rpc.content ++ data) with
      | error r =>
        rw [Bool.and_false]
        refine Meets.when (fun _ => ?_) fun _ w hw => hw.1
        refine Meets.bind (handles_same (Same.modify fun _ => rfl) _ k) fun _ => ?_
        exact (setState_handles hst r).mono (fun _ hw => hw) fun _ _ hw => hw.1
      | ok c =>
        refine Meets.bind (handles_same (Same.modify fun _ => rfl) _ k) fun _ => ?_
        refine Meets.bind (setState_handles hst _) fun _ => ?_
        rw [Bool.and_comm, ← hst]
        exact improvCommand_handled c k
    · rw [dif_neg hl, rpcJoins, decide_eq_false hl, Bool.false_and, Bool.false_and]
      refine Meets.bind (handles_same (Same.modify fun _ => rfl) _ k) fun _ => ?_
      exact (setState_handles hst _).mono (fun _ hw => hw) fun _ _ hw => hw.1

/-! ## Packets -/

theorem rpcCallback_handled (d : Option (List UInt8)) (k : Key) :
    Meets (fun w => (key w).Handles b k ∧ callbackJoins w.st d = b) (rpcCallback d)
      fun _ w => (key w).Handled b k := by
  cases d with
  | none =>
    refine Meets.pure ?_
    rintro w ⟨hw, rfl⟩
    exact hw.1
  | some data => exact rpcWrite_handled data k

theorem l2capFrame_handled (cid : Nat) (p : List UInt8) (k : Key) :
    Meets (fun w => (key w).Handles b k ∧ frameJoins w.st cid p = b) (l2capFrame cid p)
      fun _ w => (key w).Handled b k := by
  unfold l2capFrame
  refine Meets.bind (R := fun _ w => (key w).Handles b k ∧ frameJoins w.st cid p = b)
    (Meets.call fun w hw => ?_) fun _ => ?_
  · rw [key_call (fun _ _ => rfl)]
    exact hw
  refine Meets.get fun s => ?_
  by_cases hc : cid = 4
  · rw [if_pos hc]
    refine Meets.bind (R := fun _ w => ((key w).Handles b k ∧ frameJoins w.st cid p = b) ∧ w.st = s)
      (Meets.call fun w hw => ?_) fun _ => ?_
    · rw [key_call (fun _ _ => rfl)]
      exact hw
    refine Meets.bind (R := fun _ w => (key w).Handles b k ∧
      callbackJoins w.st (gattHandle s.gatt p s.rspMax).2.2 = b) (Meets.modify ?_) fun _ => ?_
    · rintro w ⟨⟨hw, hj⟩, rfl⟩
      rw [frameJoins, decide_eq_true hc, Bool.true_and] at hj
      refine ⟨?_, hj⟩
      have hs : key { w with st := { w.st with gatt := (gattHandle w.st.gatt p w.st.rspMax).1 } } =
          key w := congrArg (fun st : UInt8 => Key.mk (session.after w.calls)
            ⟨w.st.joinId, st, w.st.doneAt, w.st.improv⟩) (gattHandle_state _ _ _)
      rw [hs]
      exact hw
    · refine Meets.bind (rpcCallback_handled _ k) fun _ => ?_
      exact handled_same (Same.when (aclSend_same ignoresAcl_key _ _)) _ k
  · rw [if_neg hc]
    refine Meets.given (c := b = false) ?_ ?_
    · rintro w ⟨⟨-, hj⟩, -⟩
      rw [← hj, frameJoins, decide_eq_false hc, Bool.false_and]
    · rintro rfl
      refine (handled_other (Same.ite ?_ (Same.when ?_)) k).mono (fun _ hw => hw.1.1) fun _ _ hw =>
        hw
      · exact aclSend_same ignoresAcl_key _ _
      · exact aclSend_same ignoresAcl_key _ _

theorem handleAcl_handled (p : List UInt8) (k : Key) :
    Meets (fun w => (key w).Handles b k ∧ aclJoins w.st p = b) (handleAcl p)
      fun _ w => (key w).Handled b k := by
  unfold handleAcl
  refine Meets.get fun s => ?_
  refine Meets.bind (R := fun _ w => (key w).Handles b k ∧
    completeJoins w.st (reassemble s.l2 p).2 = b) (Meets.modify ?_) fun _ => ?_
  · rintro w ⟨hw, rfl⟩
    exact hw
  · cases (reassemble s.l2 p).2 with
    | none =>
      refine Meets.pure ?_
      rintro w ⟨hw, rfl⟩
      exact hw.1
    | some f =>
      refine Meets.bind (l2capFrame_handled f.1 f.2 k) fun _ => ?_
      exact handled_same (Same.modify fun _ => rfl) _ k

/-- A packet that comes to `wpa_join` is only taken while Improv is authorized. -/
theorem packetJoins_authorized {s : Daemon} {p : List UInt8} (h : packetJoins s p = true) :
    s.gatt.state = improvAuthorized := by
  have hframe : ∀ {s : Daemon} {f}, completeJoins s f = true → s.gatt.state = improvAuthorized := by
    intro s f h
    cases f with
    | none => cases h
    | some f =>
      have hc := (Bool.and_eq_true _ _ ▸ h :).2
      cases hd : (gattHandle s.gatt f.2 s.rspMax).2.2 with
      | none =>
        rw [hd] at hc
        cases hc
      | some data =>
        rw [hd, callbackJoins, rpcJoins, Bool.and_eq_true, Bool.and_eq_true, decide_eq_true_eq,
          decide_eq_true_eq, gattHandle_state] at hc
        exact hc.1.2
  unfold packetJoins at h
  rw [Bool.and_eq_true] at h
  exact hframe h.2

theorem leMeta_key (ev : List UInt8) : Same key (leMeta ev) := by
  unfold leMeta
  refine Same.bind Same.get fun s => Same.ite (Same.pure ()) (Same.ite ?_ ?_)
  · refine Same.bind (Same.when (Same.bind (Same.ask fun _ _ => rfl) fun t =>
      Same.modify fun _ => rfl)) fun _ => Same.each (fun a => ?_) _
    refine Same.bind Same.get fun s => ?_
    refine Same.bind (Same.call fun w s => key_call (fun _ _ => rfl) w s) fun _ => ?_
    exact Same.when (Same.modify fun _ => rfl)
  · exact Same.when (Same.modify fun _ => rfl)

/-- What a packet does once it is recorded. -/
theorem packetBody_handled (p : List UInt8) (k : Key) :
    Meets (fun w => (key w).Handles b k ∧ packetJoins w.st p = b) (packetBody p)
      fun _ w => (key w).Handled b k := by
  unfold packetBody
  refine Meets.get fun s => ?_
  by_cases hl : p.length < 3
  · rw [if_pos hl]
    refine Meets.pure ?_
    rintro w ⟨⟨hw, hj⟩, -⟩
    rw [packetJoins, decide_eq_false (by omega), Bool.false_and, Bool.false_and] at hj
    rw [← hj]
    exact hw.1
  · rw [if_neg hl]
    by_cases ha : byte p 0 = hciAcl
    · rw [if_pos ha]
      refine (handleAcl_handled p k).mono ?_ fun _ _ hw => hw
      rintro w ⟨⟨hw, hj⟩, -⟩
      rw [packetJoins, decide_eq_true (by omega), decide_eq_true ha] at hj
      exact ⟨hw, hj⟩
    · rw [if_neg ha]
      refine Meets.given (c := b = false) ?_ ?_
      · rintro w ⟨⟨-, hj⟩, -⟩
        rw [← hj, packetJoins, decide_eq_false ha, Bool.and_false, Bool.false_and]
      · rintro rfl
        refine (handled_other ?_ k).mono (fun _ hw => hw.1.1) fun _ _ hw => hw
        refine Same.ite (Same.pure ()) (Same.ite (leMeta_key _) ?_)
        refine Same.ite (Same.when (Same.modify fun _ => rfl)) ?_
        exact Same.when (Same.modify fun _ => rfl)

/-- **Every packet** keeps to the automaton. -/
theorem handlePacket_settled (p : List UInt8) :
    Keeps (fun w => (key w).Settled) (handlePacket p) := by
  rintro env w ⟨σ, hσ, hset, hold⟩
  rw [handlePacket, run_call]
  have hk : (key { w with calls := (.packet p, w.st) :: w.calls }).session =
      Session.step σ (.packet p) w.st := Monitor.after_cons hσ _ _
  have h := packetBody_handled (b := packetJoins w.st p) p
    (key { w with calls := (.packet p, w.st) :: w.calls }) env
    { w with calls := (.packet p, w.st) :: w.calls }
  cases hj : packetJoins w.st p with
  | true =>
    have hst := packetJoins_authorized hj
    rw [hj] at h
    simp only [Session.step, if_pos (show σ.Rests w.st.stage from ⟨hset, hold⟩), hj, if_true] at hk
    refine h ⟨⟨rfl, fun _ => ?_⟩, hj⟩
    cases σ with
    | idle =>
      refine ⟨w.st.improv, congrArg₂ Key.mk hk ?_⟩
      show w.st.stage = _
      rw [← hold.1, ← hst, ← hold.2.2.2]
      rfl
    | asked => cases hset
    | joining => cases hset
    | ended => cases hset
    | opened id c => exact absurd (hst.symm.trans hold.2.1) authorized_ne_provisioning
    | done => exact absurd (hst.symm.trans hold.2.1) authorized_ne_provisioned
  | false =>
    rw [hj] at h
    simp only [Session.step, if_pos (show σ.Rests w.st.stage from ⟨hset, hold⟩), hj,
      Bool.false_eq_true, if_false] at hk
    have h := h ⟨⟨rfl, nofun⟩, hj⟩
    exact keyed_settled h ⟨σ, hk, hset, hold⟩

/-- Before Improv is authorized no packet touches the session. -/
theorem handlePacket_off (p : List UInt8) :
    Keeps (At ⟨some .idle, ⟨none, 0, 0, b⟩⟩) (handlePacket p) := by
  intro env w hw
  have hst : w.st.gatt.state = 0 := congrArg (fun k : Key => k.stage.state) hw
  have hj : packetJoins w.st p = false := by
    rw [← Bool.not_eq_true]
    exact fun hn => absurd (hst.symm.trans (packetJoins_authorized hn)) (by decide)
  have hk : key { w with calls := (.packet p, w.st) :: w.calls } = key w := by
    have hs : (key w).session = some .idle := congrArg Key.session hw
    refine congrArg (Key.mk · w.st.stage) ((Monitor.after_cons hs _ _).trans ?_)
    have hg : w.st.stage = ⟨none, 0, 0, b⟩ := congrArg Key.stage hw
    have hr : Session.idle.Rests w.st.stage := by
      rw [hg]
      exact ⟨rfl, rfl, zero_ne_provisioning, zero_ne_provisioned, rfl⟩
    simp only [session, Session.step, if_pos hr, hj, Bool.false_eq_true, if_false]
    exact hs.symm
  have h := packetBody_handled (b := false) p (key w) env
    { w with calls := (.packet p, w.st) :: w.calls } ⟨⟨hk, nofun⟩, hj⟩
  exact Eq.trans h hw

/-! ## The timers -/

theorem settled_commands : Commands fun w => (key w).Settled where
  asked _ _ hw := hw
  write w pkt ok hw := by
    rw [key_call (fun _ _ => rfl)]
    exact hw
  read w pkt hw := by
    rw [key_call (fun _ _ => rfl)]
    exact hw
  packet := handlePacket_settled

theorem settled_setAdvertising (on : Bool) : Keeps (fun w => (key w).Settled) (setAdvertising on) :=
  settled_commands.setAdvertising (fun _ _ hw => hw) (fun _ _ hw => hw) on

/-- `join_poll` of an open join. -/
theorem joinPoll_settled (id : Nat) (c : Bool) (b : Bool) :
    Meets (At ⟨some (.opened id c), ⟨some id, improvProvisioning, 0, b⟩⟩) (joinPoll id)
      fun _ w => (key w).Settled := by
  unfold joinPoll
  refine Meets.bind (At.same (wpaConnected_same ignoresWpa_key) _) fun r => ?_
  refine Meets.bind (at_call (τ := .opened id (r = 1)) fun _ _ => rfl) fun _ => ?_
  refine Meets.ite (fun hr => ?_) fun _ => ?_
  · rw [decide_eq_true hr]
    refine Meets.bind (at_call (τ := .done) fun _ _ => ?_) fun _ => ?_
    · simp [Session.step, Session.finish]
    · refine Meets.bind (At.same (wpaFinish_same ignoresWpa_key _ _) _) fun _ => ?_
      refine Meets.bind (at_modify (h := ⟨none, improvProvisioning, 0, b⟩) fun s hs => ?_) fun _ =>
        ?_
      · exact congrArg (fun g : Stage => { g with joinId := none }) hs
      · refine Meets.bind (At.same (setResult_same ignoresAcl_key (fun _ _ => rfl) _ _) _) fun _ =>
          ?_
        refine Meets.bind (setState_at _ _ provisioning_ne_provisioned fun _ => rfl) fun _ => ?_
        refine Meets.bind (At.same (now_same fun _ _ => rfl) _) fun t => ?_
        refine (at_modify (h := ⟨none, improvProvisioned, t + 10, b⟩) fun s hs => ?_).mono
          (fun _ hw => hw) fun _ w hw => settled_at hw rfl ⟨rfl, rfl, nofun⟩
        exact congrArg (fun g : Stage => { g with doneAt := t + 10 }) hs
  · refine Meets.bind (At.same (now_same fun _ _ => rfl) _) fun t => at_get fun s hs => ?_
    refine Meets.when (fun _ => ?_) fun _ w hw => settled_at hw rfl ⟨rfl, rfl, rfl⟩
    refine Meets.bind (at_call (τ := .idle) fun _ _ => ?_) fun _ => ?_
    · simp [Session.step, Session.finish]
    · refine Meets.bind (At.same (wpaFinish_same ignoresWpa_key _ _) _) fun _ => ?_
      refine Meets.bind (at_modify (h := ⟨none, improvProvisioning, 0, b⟩) fun s hs => ?_) fun _ =>
        ?_
      · exact congrArg (fun g : Stage => { g with joinId := none }) hs
      · refine (setState_at _ _ provisioning_ne_provisioned (by decide)).mono
          (fun _ hw => hw) fun _ w hw => ?_
        exact settled_at hw rfl ⟨rfl, authorized_ne_provisioning, authorized_ne_provisioned, rfl⟩

theorem joinTimer_settled : Keeps (fun w => (key w).Settled) joinTimer := by
  rintro env w ⟨σ, hσ, hset, hold⟩
  rw [joinTimer, run_get]
  cases hj : w.st.joinId with
  | none => exact ⟨σ, hσ, hset, hold⟩
  | some id =>
    have hnone : w.st.stage.joinId ≠ none := by
      rw [show w.st.stage.joinId = some id from hj]
      exact nofun
    cases σ with
    | idle => exact absurd hold.1 hnone
    | asked => exact absurd hold.1 hnone
    | joining => exact absurd hold.1 hnone
    | done => exact absurd hold.1 hnone
    | ended => cases hset
    | opened id' c =>
      obtain ⟨h₁, h₂, h₃⟩ := hold
      obtain rfl : id = id' := Option.some.inj (hj.symm.trans h₁)
      refine joinPoll_settled id c w.st.improv env w (congrArg₂ Key.mk hσ ?_)
      show w.st.stage = _
      rw [← h₁, ← h₂, ← h₃]
      rfl

theorem identifyTimer_settled : Keeps (fun w => (key w).Settled) identifyTimer := by
  refine keyed ?_ Key.Settled
  unfold identifyTimer identify
  refine Same.bind Same.get fun s => Same.when (Same.bind (now_same fun _ _ => rfl) fun t => ?_)
  refine Same.when (Same.bind (Same.call fun w s => key_call (fun _ _ => rfl) w s) fun _ => ?_)
  refine Same.ite ?_ (Same.modify fun _ => rfl)
  exact (now_same fun _ _ => rfl).bind fun t => Same.modify fun _ => rfl

theorem doneTimer_settled : Keeps (fun w => (key w).Settled) doneTimer := by
  rintro env w ⟨σ, hσ, hset, hold⟩
  rw [doneTimer, run_get]
  by_cases hd : w.st.doneAt ≠ 0
  · rw [when_pos hd]
    have hat : At ⟨some .done, ⟨none, improvProvisioned, w.st.doneAt, w.st.improv⟩⟩ w := by
      cases σ with
      | idle => exact absurd hold.2.2.2 hd
      | asked => exact absurd hold.2.2 hd
      | joining => exact absurd hold.2.2 hd
      | opened id c => exact absurd hold.2.2 hd
      | ended => cases hset
      | done =>
        refine congrArg₂ Key.mk hσ ?_
        show w.st.stage = _
        rw [← hold.1, ← hold.2.1]
        rfl
    refine Meets.bind (Q := fun _ w => (key w).Settled) (At.same (now_same fun _ _ => rfl) _)
      (fun t => ?_) env w hat
    refine Meets.when (fun _ => ?_) fun _ w hw => settled_at hw rfl ⟨rfl, rfl, fun h => absurd h hd⟩
    refine Meets.bind (at_modify (h := ⟨none, improvProvisioned, 0, false⟩) fun s hs => ?_) fun _ =>
      ?_
    · exact congrArg (fun g : Stage => { g with doneAt := 0, improv := false }) hs
    · refine Meets.bind (at_call (τ := .done) fun _ _ => rfl) fun _ => ?_
      refine (settled_setAdvertising false).mono (fun w hw => ?_) fun _ _ hw => hw
      exact settled_at hw rfl ⟨rfl, rfl, fun _ => rfl⟩
  · rw [when_neg hd]
    exact ⟨σ, hσ, hset, hold⟩

theorem networkTimer_settled : Keeps (fun w => (key w).Settled) networkTimer := by
  rintro env w ⟨σ, hσ, hset, hold⟩
  rw [networkTimer, run_get]
  by_cases hd : w.st.improv ∧ w.st.joinId = none ∧ w.st.doneAt = 0 ∧ w.st.conn = none
  · rw [when_pos hd]
    obtain ⟨hi, hj, h0, -⟩ := hd
    have hidle : σ = .idle := by
      cases σ with
      | idle => rfl
      | asked => cases hset
      | joining => cases hset
      | ended => cases hset
      | opened id c => cases hj.symm.trans hold.1
      | done => cases hi.symm.trans (hold.2.2 h0)
    subst hidle
    have hat : At ⟨some .idle, ⟨none, w.st.gatt.state, 0, w.st.improv⟩⟩ w := by
      refine congrArg₂ Key.mk hσ ?_
      show w.st.stage = _
      rw [← hj, ← h0]
      rfl
    have hend : ∀ {b} {w' : World Call Daemon}, At ⟨some .idle, ⟨none, w.st.gatt.state, 0, b⟩⟩ w' →
        (key w').Settled := fun hw => settled_at hw rfl ⟨rfl, hold.2.1, hold.2.2.1, rfl⟩
    refine Meets.bind (Q := fun _ w => (key w).Settled) (At.same (now_same fun _ _ => rfl) _)
      (fun t => ?_) env w hat
    refine Meets.when (fun _ => ?_) fun _ w hw => hend hw
    refine Meets.bind (At.same (now_same fun _ _ => rfl) _) fun t => ?_
    refine Meets.bind (At.same (Same.modify fun _ => rfl) _) fun _ => ?_
    refine Meets.bind (At.same (wpaNetworks_same ignoresWpa_key) _) fun n => ?_
    refine Meets.when (fun _ => ?_) fun _ w hw => hend hw
    refine Meets.bind (at_modify (h := ⟨none, w.st.gatt.state, 0, false⟩) fun s hs => ?_) fun _ =>
      ?_
    · exact congrArg (fun g : Stage => { g with improv := false }) hs
    · refine Meets.bind (at_call (τ := .idle) fun _ _ => rfl) fun _ => ?_
      exact (settled_setAdvertising false).mono (fun w hw => hend hw) fun _ _ hw => hw
  · rw [when_neg hd]
    exact ⟨σ, hσ, hset, hold⟩

/-! ## Runs -/

theorem poll_settled (w : World Call Daemon) (t : Int) (hw : (key w).Settled) :
    (key { w with calls := (.poll t, w.st) :: w.calls }).Settled := by
  obtain ⟨σ, hσ, hset, hold⟩ := hw
  refine ⟨σ, (Monitor.after_cons hσ _ _).trans ?_, hset, hold⟩
  exact if_pos ⟨hset, hold⟩

theorem settled_rounds : Rounds fun w => (key w).Settled where
  toCommands := settled_commands
  poll := poll_settled
  scan on := settled_commands.setScan (fun _ _ hw => hw) on
  advertise := settled_setAdvertising true
  clients ready := keyed (readClients_same ignoresClients_key ready) Key.Settled
  flush := keyed (flushBatch_same ignoresClients_key) Key.Settled
  join := joinTimer_settled
  identify := identifyTimer_settled
  done := doneTimer_settled
  network := networkTimer_settled

end Esp32S31.BleHa
