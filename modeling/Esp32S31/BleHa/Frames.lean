import Esp32S31.BleHa.Daemon

/-!
# What the functions of the program leave alone

A view of the world that ignores what a group of functions changes is the same after each of them.
The groups: sending to the adapter (`IgnoresAcl`), the requests to wpa_supplicant (`IgnoresWpa`),
Improv without its buffer (`IgnoresImprov`), and the clients with the batch (`IgnoresClients`).
-/

namespace Esp32S31.BleHa

open Esp32S31.Lib Prog

variable {γ : Type} {v : World Call Daemon → γ}

/-! ## The adapter -/

/-- The calls of the ATT server on its way to `acl_send`. -/
def Call.isAtt : Call → Bool
  | .aclSend _ _ | .notification _ | .att _ _ => true
  | _ => false

/-- The main loop starts. -/
def Call.isLoop : Call → Bool
  | .loop => true
  | _ => false

/-- The view does not see the packets that are sent and the counters of `acl_send`. -/
structure IgnoresAcl (v : World Call Daemon → γ) : Prop where
  asked : ∀ w n, v { w with asked := n } = v w
  acl : ∀ w c n, v { w with st := { w.st with aclCredits := c, connSent := n } } = v w
  write : ∀ w pkt ok s, v { w with calls := (.hciWrite pkt ok, s) :: w.calls } = v w
  att : ∀ w k s, Call.isAtt k = true → v { w with calls := (k, s) :: w.calls } = v w

theorem aclSend_same (h : IgnoresAcl v) (cid : Nat) (data : List UInt8) :
    Same v (aclSend cid data) := by
  unfold aclSend
  refine Same.bind (Same.call fun w s => h.att w _ s rfl) fun _ => Same.bind Same.get fun s => ?_
  split
  · exact Same.pure ()
  · refine Same.ite (Same.pure ()) (Same.ite (Same.pure ()) ?_)
    refine Same.bind (Same.ask h.asked) fun ok => ?_
    refine Same.bind (Same.call fun w s => h.write w _ _ s) fun _ => ?_
    exact Same.ite (Same.modify fun w => h.acl w _ _) (Same.pure ())

theorem notify_same (h : IgnoresAcl v) (handle : Nat) (value : List UInt8) :
    Same v (notify handle value) := by
  unfold notify
  refine Same.bind Same.get fun s => Same.when ?_
  exact Same.bind (Same.call fun w s => h.att w _ s rfl) fun _ => aclSend_same h _ _

/-! ## wpa_supplicant -/

/-- The view does not see the requests to wpa_supplicant. -/
structure IgnoresWpa (v : World Call Daemon → γ) : Prop where
  asked : ∀ w n, v { w with asked := n } = v w
  request : ∀ w cmd r s, v { w with calls := (.request cmd r, s) :: w.calls } = v w

theorem request_same (h : IgnoresWpa v) (cmd : List UInt8) (len : Nat) :
    Same v (request cmd len) := by
  unfold request
  refine Same.bind (Same.ask h.asked) fun r => ?_
  exact Same.bind (Same.call fun w s => h.request w _ _ s) fun _ => Same.pure _

theorem requestOk_same (h : IgnoresWpa v) (cmd : List UInt8) : Same v (requestOk cmd) :=
  (request_same h cmd 64).bind fun _ => Same.pure _

theorem wpaNetworks_same (h : IgnoresWpa v) : Same v wpaNetworks :=
  (request_same h _ _).bind fun _ => Same.pure _

theorem networksFrom_same (h : IgnoresWpa v) : ∀ n, Same v (networksFrom n)
  | 0 => Same.pure _
  | n + 1 => by
    unfold networksFrom
    refine (wpaNetworks_same h).bind fun r => Same.ite (Same.pure _) ?_
    exact Same.bind (Same.ask h.asked) fun stop => Same.ite (Same.pure _) (networksFrom_same h n)

theorem improvNeeded_same (h : IgnoresWpa v) : Same v improvNeeded :=
  (networksFrom_same h 30).bind fun _ => Same.pure _

theorem wpaConnected_same (h : IgnoresWpa v) : Same v wpaConnected :=
  (request_same h _ _).bind fun _ => Same.pure _

theorem wpaFinish_same (h : IgnoresWpa v) (id : Nat) (keep : Bool) : Same v
    (wpaFinish id keep) := by
  unfold wpaFinish
  refine Same.bind (Same.ite ?_ (Same.pure ())) fun _ => ?_
  · exact (requestOk_same h _).bind fun _ => Same.pure _
  · refine (requestOk_same h _).bind fun _ => Same.ite ?_ (Same.pure ())
    exact (requestOk_same h _).bind fun _ => Same.pure _

theorem configure_same (h : IgnoresWpa v) (id : Nat) : ∀ cmds, Same v (configure id cmds)
  | [] => Same.pure true
  | cmd :: cmds =>
    (requestOk_same h cmd).bind fun _ => Same.ite (configure_same h id cmds) (Same.pure false)

theorem wpaJoin_same (h : IgnoresWpa v) (ssid pass : List UInt8) : Same v (wpaJoin ssid pass) := by
  unfold wpaJoin
  refine (request_same h _ _).bind fun r => ?_
  split
  · exact Same.pure none
  · refine Same.ite (Same.pure none) ?_
    refine (configure_same h _ _).bind fun ok => Same.ite (Same.pure _) ?_
    exact (wpaFinish_same h _ _).bind fun _ => Same.pure none

/-! ## Improv -/

/-- The calls of Improv behind `improv_command`. -/
def Call.isImprov : Call → Bool
  | .state _ | .join _ _ | .joined _ | .connected _ | .finish _ _ | .led _ => true
  | _ => false

/-- The calls that bring a packet to `improv_command`. -/
def Call.isRpc : Call → Bool
  | .rpc _ | .command _ => true
  | _ => false

/-- A request to wpa_supplicant. -/
def Call.isRequest : Call → Bool
  | .request _ _ => true
  | _ => false

/-- The view does not see the state of Improv. -/
structure IgnoresImprov (v : World Call Daemon → γ) : Prop extends IgnoresAcl v, IgnoresWpa v where
  gatt : ∀ w g, v { w with st := { w.st with gatt := g } } = v w
  dirty : ∀ w d, v { w with st := { w.st with advDirty := d } } = v w
  joinId : ∀ w j, v { w with st := { w.st with joinId := j } } = v w
  joinEnd : ∀ w t, v { w with st := { w.st with joinEnd := t } } = v w
  identifyEnd : ∀ w t, v { w with st := { w.st with identifyEnd := t } } = v w
  improv : ∀ w k s, Call.isImprov k = true → v { w with calls := (k, s) :: w.calls } = v w

theorem setError_same (h : IgnoresAcl v)
    (he : ∀ w e, v { w with st := { w.st with gatt := { w.st.gatt with error := e } } } = v w)
    (error : UInt8) : Same v (setError error) := by
  unfold setError
  refine Same.bind Same.get fun s => Same.when ?_
  exact Same.bind (Same.modify fun w => he w _) fun _ => notify_same h _ _

theorem setState_same (h : IgnoresImprov v) (state error : UInt8) :
    Same v (setState state error) := by
  unfold setState
  refine (setError_same h.toIgnoresAcl (fun w _ => h.gatt w _) error).bind fun _ => ?_
  refine Same.bind Same.get fun s => Same.when ?_
  refine Same.bind (Same.call fun w s => h.improv w _ s rfl) fun _ => ?_
  refine Same.bind (Same.modify fun w => h.gatt w _) fun _ => ?_
  exact (notify_same h.toIgnoresAcl _ _).bind fun _ => Same.modify fun w => h.dirty w _

theorem setResult_same (h : IgnoresAcl v)
    (hr : ∀ w r, v { w with st := { w.st with gatt := { w.st.gatt with result := r } } } = v w)
    (cmd : UInt8) (strings : List (List UInt8)) : Same v (setResult cmd strings) := by
  unfold setResult
  exact Same.bind (Same.modify fun w => hr w _) fun _ => notify_same h _ _

theorem now_same (h : ∀ w n, v { w with asked := n } = v w) : Same v now := Same.ask h

theorem identify_same (h : IgnoresImprov v) (on : Bool) : Same v (identify on) := by
  unfold identify
  refine Same.bind (Same.call fun w s => h.improv w _ s rfl) fun _ => Same.ite ?_ ?_
  · exact (now_same h.asked).bind fun t => Same.modify fun w => h.identifyEnd w _
  · exact Same.modify fun w => h.identifyEnd w _

theorem improvWifi_same (h : IgnoresImprov v) (c : ImprovCmd) : Same v (improvWifi c) := by
  unfold improvWifi
  refine Same.bind Same.get fun s => Same.when ?_
  refine (setState_same h _ _).bind fun _ => ?_
  refine Same.bind (Same.call fun w s => h.improv w _ s rfl) fun _ => ?_
  refine (wpaJoin_same h.toIgnoresWpa _ _).bind fun id => ?_
  refine Same.bind (Same.modify fun w => h.joinId w _) fun _ => ?_
  refine Same.bind (Same.call fun w s => h.improv w _ s rfl) fun _ => ?_
  split
  · exact setState_same h _ _
  · exact (now_same h.asked).bind fun t => Same.modify fun w => h.joinEnd w _

theorem improvCommand_same (h : IgnoresImprov v)
    (hk : ∀ w k s, Call.isRpc k = true → v { w with calls := (k, s) :: w.calls } = v w)
    (c : ImprovCmd) : Same v (improvCommand c) := by
  unfold improvCommand
  refine Same.bind (Same.call fun w s => hk w _ s rfl) fun _ => Same.bind Same.get fun s => ?_
  refine Same.ite (improvWifi_same h c) (Same.ite (Same.when (identify_same h true)) ?_)
  exact Same.when (setResult_same h.toIgnoresAcl (fun w _ => h.gatt w _) _ _)

theorem rpcWrite_same (h : IgnoresImprov v)
    (hk : ∀ w k s, Call.isRpc k = true → v { w with calls := (k, s) :: w.calls } = v w)
    (hr : ∀ w b, v { w with st := { w.st with rpc := b } } = v w)
    (data : List UInt8) : Same v (rpcWrite data) := by
  unfold rpcWrite
  refine Same.bind (Same.call fun w s => hk w _ s rfl) fun _ => Same.bind Same.get fun s => ?_
  split
  · refine Same.bind (Same.modify fun w => hr w _) fun _ => ?_
    split
    · refine Same.when (Same.bind (Same.modify fun w => hr w _) fun _ => setState_same h _ _)
    · refine Same.bind (Same.modify fun w => hr w _) fun _ => ?_
      exact (setState_same h _ _).bind fun _ => improvCommand_same h hk _
  · exact Same.bind (Same.modify fun w => hr w _) fun _ => setState_same h _ _

/-! ## The clients -/

/-- The calls about a client. -/
def Call.isClient : Call → Bool
  | .message _ _ | .send _ _ _ _ | .close _ | .flush _ => true
  | _ => false

/-- The view does not see the clients and the batch. -/
structure IgnoresClients (v : World Call Daemon → γ) : Prop where
  asked : ∀ w n, v { w with asked := n } = v w
  clients : ∀ w cs, v { w with st := { w.st with clients := cs } } = v w
  batch : ∀ w b, v { w with st := { w.st with batch := b } } = v w
  calls : ∀ w k s, Call.isClient k = true → v { w with calls := (k, s) :: w.calls } = v w

theorem modifyClient_same (h : IgnoresClients v) (i : Nat) (f : Client → Client) :
    Same v (modifyClient i f) := Same.modify fun w => h.clients w _

theorem clientClose_same (h : IgnoresClients v) (i : Nat) : Same v (clientClose i) :=
  Same.bind (Same.call fun w s => h.calls w _ s rfl) fun _ => modifyClient_same h i _

theorem clientSend_same (h : IgnoresClients v) (i type : Nat) (msg : List UInt8) :
    Same v (clientSend i type msg) := by
  unfold clientSend
  refine Same.ite ?_ (Same.pure ())
  refine Same.bind (Same.ask h.asked) fun ok => ?_
  refine Same.bind (Same.call fun w s => h.calls w _ s rfl) fun _ => ?_
  exact Same.ite (clientClose_same h i) (Same.pure ())

theorem clientMessage_same (h : IgnoresClients v) (i type : Nat) : Same v
    (clientMessage i type) := by
  unfold clientMessage
  refine Same.bind (Same.call fun w s => h.calls w _ s rfl) fun _ => Same.bind Same.get fun s => ?_
  refine Same.ite (clientSend_same h _ _ _) (Same.ite ?_ ?_)
  · refine (clientSend_same h _ _ _).bind fun _ => Same.bind Same.get fun s => ?_
    exact Same.ite (clientClose_same h i) (Same.pure ())
  · refine Same.ite (clientSend_same h _ _ _) (Same.ite (clientSend_same h _ _ _) ?_)
    refine Same.ite (clientSend_same h _ _ _) (Same.ite (modifyClient_same h i _) ?_)
    exact Same.ite (modifyClient_same h i _) (Same.ite (clientSend_same h _ _ _) (Same.pure ()))

theorem clientFrames_same (h : IgnoresClients v) (i : Nat) (buf : List UInt8) (n used : Nat) :
    Same v (clientFrames i buf n used) := by
  induction n generalizing used with
  | zero => exact Same.pure _
  | succ n ih =>
    unfold clientFrames
    refine Same.bind Same.get fun s => Same.ite (Same.pure _) ?_
    split
    · exact Same.pure _
    · exact Same.pure _
    · exact (clientMessage_same h i _).bind fun _ => ih _

theorem clientBytes_same (h : IgnoresClients v) (i : Nat) : Same v (clientBytes i) := by
  unfold clientBytes
  refine Same.bind Same.get fun s => (clientFrames_same h i _ _ _).bind fun r => ?_
  refine Same.bind Same.get fun s' => Same.ite (Same.pure ()) ?_
  exact Same.ite (clientClose_same h i) (modifyClient_same h i _)

theorem clientRead_same (h : IgnoresClients v) (i : Nat) : Same v (clientRead i) := by
  unfold clientRead
  refine Same.bind (Same.ask h.asked) fun r => Same.bind Same.get fun s => ?_
  split
  · exact Same.pure ()
  · exact clientClose_same h i
  · refine Same.ite (clientClose_same h i) ?_
    exact (modifyClient_same h i _).bind fun _ => clientBytes_same h i

theorem acceptClient_same (h : IgnoresClients v) : Same v acceptClient := by
  unfold acceptClient
  refine Same.bind (Same.ask h.asked) fun fd => Same.bind Same.get fun s => ?_
  split
  · exact Same.pure ()
  · split
    · exact Same.pure ()
    · exact modifyClient_same h _ _

theorem readClients_same (h : IgnoresClients v) (ready : Ready) : Same v (readClients ready) := by
  unfold readClients
  refine Same.bind (Same.ite (acceptClient_same h) (Same.pure ())) fun _ => ?_
  refine Same.each (fun i => ?_) _
  exact Same.bind Same.get fun s => Same.ite (clientRead_same h i) (Same.pure ())

theorem flushBatch_same (h : IgnoresClients v) : Same v flushBatch := by
  unfold flushBatch
  refine Same.bind Same.get fun s => Same.ite ?_ (Same.pure ())
  refine Same.bind (Same.call fun w s => h.calls w _ s rfl) fun _ => ?_
  refine Same.bind (Same.modify fun w => h.batch w _) fun _ => Same.each (fun i => ?_) _
  exact Same.bind Same.get fun s => Same.ite (clientSend_same h _ _ _) (Same.pure ())

end Esp32S31.BleHa
