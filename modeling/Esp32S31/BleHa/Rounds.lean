import Esp32S31.BleHa.Frames

/-!
# What a whole run keeps

The induction over a run, once: what every packet, every command and every handler of a round keeps,
the loop of `hci_cmd` and the main loop keep, for any number of packets and of rounds.
-/

namespace Esp32S31.BleHa

open Esp32S31.Lib Prog

variable {I : World Call Daemon → Prop}

/-! ## Commands -/

/-- What `hci_cmd` is made of keeps `I`. -/
structure Commands (I : World Call Daemon → Prop) : Prop where
  asked : ∀ w n, I w → I { w with asked := n }
  write : ∀ w pkt ok, I w →
    I { w with calls := (.hciWrite (hciCmdPacket :: pkt) ok, w.st) :: w.calls }
  read : ∀ w pkt, I w → I { w with calls := (.hciRead pkt, w.st) :: w.calls }
  packet : ∀ p, Keeps I (handlePacket p)

namespace Commands

variable (h : Commands I)

include h

theorem ask {α : Type} (f : Answer → α) : Keeps I (Prog.ask f) :=
    Meets.ask fun _ w hw => h.asked w _ hw

/-- Any number of packets while a command waits. -/
theorem hciWait (op : Nat) (ret : List UInt8) (ps : List (List UInt8)) :
    Keeps I (hciWait op ret ps) := by
  induction ps with
  | nil => exact Keeps.pure _
  | cons p ps ih =>
    unfold BleHa.hciWait
    refine Keeps.ite ih ?_
    refine Keeps.bind (Meets.call fun w hw => h.read w _ hw) fun _ => ?_
    refine Keeps.ite (Keeps.pure _) (Keeps.ite (Keeps.pure _) ?_)
    exact (h.packet _).bind fun _ => ih

theorem hciCmdRet (op : Nat) (param ret : List UInt8) : Keeps I (hciCmdRet op param ret) := by
  unfold BleHa.hciCmdRet
  refine (h.ask _).bind fun ok => ?_
  refine Keeps.bind (Meets.call fun w hw => h.write w _ _ hw) fun _ => ?_
  exact Keeps.ite ((h.ask _).bind fun ps => h.hciWait _ _ _) (Keeps.pure _)

theorem hciCmd (op : Nat) (param : List UInt8) : Keeps I (hciCmd op param) :=
  (h.hciCmdRet op param []).bind fun _ => Keeps.pure _

theorem setScan (hs : ∀ w b, I w → I { w with st := { w.st with scanning := b } }) (on : Bool) :
    Keeps I (setScan on) := by
  unfold BleHa.setScan
  refine Keeps.get fun s => Keeps.when fun _ => ?_
  refine Keeps.bind (Keeps.ite (h.hciCmd _ _) (Keeps.pure _)) fun r => ?_
  refine Keeps.when fun _ => (h.hciCmd _ _).bind fun r => Keeps.when fun _ => ?_
  exact Meets.modify fun w hw => hs w _ hw

theorem advertisingData : Keeps I advertisingData := by
  unfold BleHa.advertisingData
  refine Keeps.get fun s => (h.hciCmd _ _).bind fun _ => ?_
  refine Keeps.get fun s => Keeps.when fun _ => ?_
  exact (h.hciCmd _ _).bind fun _ => (h.hciCmd _ _).bind fun _ => Keeps.pure _

theorem setAdvertising (ha : ∀ w b, I w → I { w with st := { w.st with advertising := b } })
    (hd : ∀ w b, I w → I { w with st := { w.st with advDirty := b } }) (on : Bool) :
    Keeps I (setAdvertising on) := by
  unfold BleHa.setAdvertising
  refine Keeps.bind (Keeps.when fun _ => h.advertisingData) fun _ => ?_
  refine Keeps.get fun s => Keeps.bind (Keeps.when fun _ => ?_) fun _ => Meets.modify fun w hw =>
    hd w _ hw
  exact (h.hciCmd _ _).bind fun _ => Keeps.when fun _ => Meets.modify fun w hw => ha w _ hw

/-- The commands at the start. The size and the number of the buffers are set behind the last of
them, and a size below 27 is raised. -/
theorem hciInit {J : World Call Daemon → Prop} {K : Bool → World Call Daemon → Prop}
    (hb : ∀ w b, I w → I { w with st := { w.st with bdaddr := b } })
    (hc : ∀ w l c, I w → J { w with st := { w.st with aclLen := l, aclCredits := c } })
    (hl : ∀ w, J w →
      K true { w with st := { w.st with aclLen := if w.st.aclLen < 27 then 27 else w.st.aclLen } })
    (hj : ∀ w, I w → J w) (hk : ∀ w, I w → K false w) : Meets I hciInit K := by
  unfold BleHa.hciInit
  refine Meets.bind (h.ask _) fun stack => Meets.bind (R := fun _ => I) ?_ fun ok =>
    Meets.ite (fun _ => ?_) fun _ => Meets.pure hk
  · unfold hciReset
    refine (h.hciCmd _ _).bind fun r => Keeps.ite (Keeps.pure _) ?_
    refine (h.hciCmd _ _).bind fun r => Keeps.ite (Keeps.pure _) ?_
    exact (h.hciCmd _ _).bind fun r => Keeps.pure _
  · refine Meets.bind (h.hciCmdRet _ _ _) fun a => Meets.ite (fun _ => Meets.pure hk) fun _ => ?_
    refine Meets.bind (R := fun _ => I) (Meets.modify fun w hw => hb w _ hw) fun _ =>
      Meets.bind (R := fun _ => J) ?_ fun _ =>
        Meets.bind (R := fun _ => K true) (Meets.modify fun w hw => hl w hw) fun _ =>
          Meets.pure fun _ hw => hw
    unfold hciBuffers
    refine Meets.bind (h.hciCmdRet _ _ _) fun a => Meets.ite (fun _ => ?_) fun _ => ?_
    · exact Meets.modify fun w hw => hc w _ _ hw
    · refine Meets.bind (h.hciCmdRet _ _ _) fun b => Meets.when (fun _ => ?_) fun _ => hj
      exact Meets.modify fun w hw => hc w _ _ hw

end Commands

/-! ## Improv -/

/-- What Improv is made of keeps `I`. -/
structure Improvs (I : World Call Daemon → Prop) : Prop where
  asked : ∀ w n, I w → I { w with asked := n }
  call : ∀ w k, (k.isImprov || k.isRpc || k.isRequest) = true → I w →
    I { w with calls := (k, w.st) :: w.calls }
  notify : ∀ handle v, Keeps I (notify handle v)
  error : ∀ w e, I w → I { w with st := { w.st with gatt := { w.st.gatt with error := e } } }
  state : ∀ w e, I w → I { w with st := { w.st with gatt := { w.st.gatt with state := e } } }
  result : ∀ w r, I w → I { w with st := { w.st with gatt := { w.st.gatt with result := r } } }
  dirty : ∀ w d, I w → I { w with st := { w.st with advDirty := d } }
  rpc : ∀ w b, I w → I { w with st := { w.st with rpc := b } }
  joinId : ∀ w j, I w → I { w with st := { w.st with joinId := j } }
  joinEnd : ∀ w t, I w → I { w with st := { w.st with joinEnd := t } }
  identifyEnd : ∀ w t, I w → I { w with st := { w.st with identifyEnd := t } }
  doneAt : ∀ w t, I w → I { w with st := { w.st with doneAt := t } }

namespace Improvs

variable (h : Improvs I)

include h

theorem now : Keeps I now := Meets.ask fun _ w hw => h.asked w _ hw

theorem request (cmd : List UInt8) (len : Nat) : Keeps I (request cmd len) := by
  unfold BleHa.request
  refine Keeps.bind (Meets.ask fun _ w hw => h.asked w _ hw) fun r => ?_
  exact Keeps.bind (Meets.call fun w hw => h.call w _ rfl hw) fun _ => Keeps.pure _

theorem requestOk (cmd : List UInt8) : Keeps I (requestOk cmd) :=
  (h.request cmd 64).bind fun _ => Keeps.pure _

theorem wpaNetworks : Keeps I wpaNetworks := (h.request _ _).bind fun _ => Keeps.pure _

theorem wpaFinish (id : Nat) (keep : Bool) : Keeps I (wpaFinish id keep) := by
  unfold BleHa.wpaFinish
  refine Keeps.bind (Keeps.when fun _ => (h.requestOk _).bind fun _ => Keeps.pure _) fun _ => ?_
  refine (h.requestOk _).bind fun _ => Keeps.when fun _ => ?_
  exact (h.requestOk _).bind fun _ => Keeps.pure _

theorem configure (id : Nat) (cmds : List (List UInt8)) : Keeps I (configure id cmds) := by
  induction cmds with
  | nil => exact Keeps.pure _
  | cons cmd cmds ih => exact (h.requestOk cmd).bind fun ok => Keeps.ite ih (Keeps.pure _)

theorem wpaJoin (ssid pass : List UInt8) : Keeps I (wpaJoin ssid pass) := by
  unfold BleHa.wpaJoin
  refine (h.request _ _).bind fun r => ?_
  cases r with
  | none => exact Keeps.pure _
  | some r =>
    refine Keeps.ite (Keeps.pure _) ((h.configure _ _).bind fun ok => Keeps.ite (Keeps.pure _) ?_)
    exact (h.wpaFinish _ _).bind fun _ => Keeps.pure _

theorem setState (state error : UInt8) : Keeps I (setState state error) := by
  unfold BleHa.setState setError
  refine Keeps.bind ?_ fun _ => Keeps.get fun s => Keeps.when fun _ => ?_
  · refine Keeps.get fun s => Keeps.when fun _ => ?_
    exact Keeps.bind (Meets.modify fun w hw => h.error w _ hw) fun _ => h.notify _ _
  · refine Keeps.bind (Meets.call fun w hw => h.call w _ rfl hw) fun _ => ?_
    refine Keeps.bind (Meets.modify fun w hw => h.state w _ hw) fun _ => ?_
    exact (h.notify _ _).bind fun _ => Meets.modify fun w hw => h.dirty w _ hw

theorem setResult (cmd : UInt8) (strings : List (List UInt8)) : Keeps I (setResult cmd strings) :=
  Keeps.bind (Meets.modify fun w hw => h.result w _ hw) fun _ => h.notify _ _

theorem identify (on : Bool) : Keeps I (identify on) := by
  unfold BleHa.identify
  refine Keeps.bind (Meets.call fun w hw => h.call w _ rfl hw) fun _ => Keeps.ite ?_ ?_
  · exact h.now.bind fun t => Meets.modify fun w hw => h.identifyEnd w _ hw
  · exact Meets.modify fun w hw => h.identifyEnd w _ hw

theorem improvCommand (c : ImprovCmd) : Keeps I (improvCommand c) := by
  unfold BleHa.improvCommand improvWifi
  refine Keeps.bind (Meets.call fun w hw => h.call w _ rfl hw) fun _ => Keeps.get fun s => ?_
  refine Keeps.ite (Keeps.get fun s => Keeps.when fun _ => ?_) (Keeps.ite ?_ ?_)
  · refine (h.setState _ _).bind fun _ => ?_
    refine Keeps.bind (Meets.call fun w hw => h.call w _ rfl hw) fun _ => ?_
    refine (h.wpaJoin _ _).bind fun id => ?_
    refine Keeps.bind (Meets.modify fun w hw => h.joinId w _ hw) fun _ => ?_
    refine Keeps.bind (Meets.call fun w hw => h.call w _ rfl hw) fun _ => ?_
    cases id with
    | none => exact h.setState _ _
    | some id => exact h.now.bind fun t => Meets.modify fun w hw => h.joinEnd w _ hw
  · exact Keeps.when fun _ => h.identify _
  · exact Keeps.when fun _ => h.setResult _ _

theorem rpcWrite (data : List UInt8) : Keeps I (rpcWrite data) := by
  unfold BleHa.rpcWrite
  refine Keeps.bind (Meets.call fun w hw => h.call w _ rfl hw) fun _ => Keeps.get fun s => ?_
  by_cases hl : s.rpc.len + data.length ≤ 128
  · rw [dif_pos hl]
    refine Keeps.bind (Meets.modify fun w hw => h.rpc w _ hw) fun _ => ?_
    cases improvParse (s.rpc.append data hl).content with
    | error r =>
      refine Keeps.when fun _ => ?_
      exact Keeps.bind (Meets.modify fun w hw => h.rpc w _ hw) fun _ => h.setState _ _
    | ok c =>
      refine Keeps.bind (Meets.modify fun w hw => h.rpc w _ hw) fun _ => ?_
      exact (h.setState _ _).bind fun _ => h.improvCommand c
  · rw [dif_neg hl]
    exact Keeps.bind (Meets.modify fun w hw => h.rpc w _ hw) fun _ => h.setState _ _

theorem rpcCallback (d : Option (List UInt8)) : Keeps I (rpcCallback d) := by
  cases d with
  | none => exact Keeps.pure _
  | some data => exact h.rpcWrite data

theorem joinTimer : Keeps I joinTimer := by
  unfold BleHa.joinTimer joinPoll
  refine Keeps.get fun s => ?_
  cases s.joinId with
  | none => exact Keeps.pure _
  | some id =>
    refine Keeps.bind ((h.request _ _).bind fun _ => Keeps.pure _) fun r => ?_
    refine Keeps.bind (Meets.call fun w hw => h.call w _ rfl hw) fun _ => Keeps.ite ?_ ?_
    · refine Keeps.bind (Meets.call fun w hw => h.call w _ rfl hw) fun _ => ?_
      refine (h.wpaFinish _ _).bind fun _ => ?_
      refine Keeps.bind (Meets.modify fun w hw => h.joinId w _ hw) fun _ => ?_
      refine (h.setResult _ _).bind fun _ => (h.setState _ _).bind fun _ => ?_
      exact h.now.bind fun t => Meets.modify fun w hw => h.doneAt w _ hw
    · refine h.now.bind fun t => Keeps.get fun s => Keeps.when fun _ => ?_
      refine Keeps.bind (Meets.call fun w hw => h.call w _ rfl hw) fun _ => ?_
      refine (h.wpaFinish _ _).bind fun _ => ?_
      exact Keeps.bind (Meets.modify fun w hw => h.joinId w _ hw) fun _ => h.setState _ _

theorem identifyTimer : Keeps I identifyTimer := by
  unfold BleHa.identifyTimer
  exact Keeps.get fun s => Keeps.when fun _ => h.now.bind fun t => Keeps.when fun _ => h.identify _

/-- The check at the end of `main`. -/
theorem finishJoin : Keeps I finishJoin := by
  unfold BleHa.finishJoin
  refine Keeps.get fun s => ?_
  cases s.joinId with
  | none => exact Keeps.pure _
  | some id => exact Keeps.bind (Meets.call fun w hw => h.call w _ rfl hw) fun _ => h.wpaFinish _ _

end Improvs

/-! ## Packets -/

/-- A frame, when everything that `acl_send` can be given keeps `I`. -/
theorem Improvs.l2capFrame (h : Improvs I)
    (hframe : ∀ w cid p, I w → I { w with calls := (.frame cid p, w.st) :: w.calls })
    (hsend : ∀ cid data, Keeps I (aclSend cid data))
    (hatt : ∀ w p, I w →
      I { w with calls := (.att p (gattHandle w.st.gatt p w.st.rspMax).2.1, w.st) :: w.calls })
    (hgatt : ∀ w p, I w →
      I { w with st := { w.st with gatt := (gattHandle w.st.gatt p w.st.rspMax).1 } })
    (cid : Nat) (p : List UInt8) : Keeps I (l2capFrame cid p) := by
  unfold BleHa.l2capFrame
  refine Keeps.bind (Meets.call fun w hw => hframe w cid p hw) fun _ => ?_
  refine Meets.get fun s => Meets.ite (fun _ => ?_) fun _ => ?_
  · refine Meets.bind (R := fun _ w => I w ∧ w.st = s) (Meets.call ?_) fun _ => ?_
    · rintro w ⟨hw, rfl⟩
      exact ⟨hatt w p hw, rfl⟩
    refine Meets.bind (R := fun _ => I) (Meets.modify ?_) fun _ => ?_
    · rintro w ⟨hw, rfl⟩
      exact hgatt w p hw
    exact (h.rpcCallback _).bind fun _ => Keeps.when fun _ => hsend _ _
  · refine (?_ : Keeps I _).mono (fun w hw => hw.1) fun _ _ hw => hw
    exact Keeps.ite (hsend _ _) (Keeps.when fun _ => hsend _ _)

/-- What an ACL packet is made of keeps `I`. -/
structure Acls (I : World Call Daemon → Prop) : Prop extends Improvs I where
  frame : ∀ cid p, Keeps I (l2capFrame cid p)
  l2 : ∀ w b, I w → I { w with st := { w.st with l2 := b } }

namespace Acls

variable (h : Acls I)

include h

theorem handleAcl (p : List UInt8) : Keeps I (handleAcl p) := by
  unfold BleHa.handleAcl
  refine Keeps.get fun s => Keeps.bind (Meets.modify fun w hw => h.l2 w _ hw) fun _ => ?_
  cases (reassemble s.l2 p).2 with
  | none => exact Keeps.pure _
  | some f =>
    refine (h.frame f.1 f.2).bind fun _ => ?_
    exact Meets.modify fun w hw => h.l2 w _ hw

end Acls

/-- What the packets of the adapter are made of keeps `I`. -/
structure Packets (I : World Call Daemon → Prop) : Prop extends Acls I where
  packet : ∀ w p, I w → I { w with calls := (.packet p, w.st) :: w.calls }
  report : ∀ w a kept, I w → I { w with calls := (.report a kept, w.st) :: w.calls }
  batch : ∀ w b, I w → I { w with st := { w.st with batch := b } }
  batchMs : ∀ w t, I w → I { w with st := { w.st with batchMs := t } }
  connected : ∀ w handle, I w → I { w with st := connected handle w.st }
  disconnected : ∀ w, I w → I { w with st := disconnected w.st }
  completed : ∀ w n, I w → I { w with st := completed n w.st }

namespace Packets

variable (h : Packets I)

include h

theorem leMeta (ev : List UInt8) : Keeps I (leMeta ev) := by
  unfold BleHa.leMeta pushReport
  refine Keeps.get fun s => Keeps.ite (Keeps.pure _) (Keeps.ite ?_ (Keeps.when fun _ => ?_))
  · refine Keeps.bind (Keeps.when fun _ => ?_) fun _ =>
      Keeps.each (fun a => Keeps.get fun s => ?_) _
    · exact Keeps.bind (Meets.ask fun _ w hw => h.asked w _ hw) fun t =>
        Meets.modify fun w hw => h.batchMs w t hw
    · refine Keeps.bind (Meets.call fun w hw => h.report w a _ hw) fun _ => Keeps.when fun _ => ?_
      exact Meets.modify fun w hw => h.batch w _ hw
  · exact Meets.modify fun w hw => h.connected w _ hw

/-- **Every packet.** -/
theorem handlePacket (p : List UInt8) : Keeps I (handlePacket p) := by
  unfold BleHa.handlePacket packetBody
  refine Keeps.bind (Meets.call fun w hw => h.packet w p hw) fun _ => Keeps.get fun s => ?_
  refine Keeps.ite (Keeps.pure _) (Keeps.ite (h.toAcls.handleAcl p) (Keeps.ite (Keeps.pure _) ?_))
  refine Keeps.ite (h.leMeta _) (Keeps.ite (Keeps.when fun _ => ?_) (Keeps.when fun _ => ?_))
  · exact Meets.modify fun w hw => h.disconnected w hw
  · exact Meets.modify fun w hw => h.completed w _ hw

end Packets

/-! ## The clients -/

/-- What the functions that read the clients are made of keeps `I`; none of them sends a batch. -/
structure ClientReads (I : World Call Daemon → Prop) : Prop where
  asked : ∀ w n, I w → I { w with asked := n }
  message : ∀ w i type, I w → I { w with calls := (.message i type, w.st) :: w.calls }
  close : ∀ w i, I w → I { w with calls := (.close i, w.st) :: w.calls }
  send : ∀ i type msg, type ≠ 93 → Keeps I (clientSend i type msg)
  clients : ∀ w cs, I w → I { w with st := { w.st with clients := cs } }

namespace ClientReads

variable (h : ClientReads I)

include h

theorem modifyClient (i : Nat) (f : Client → Client) : Keeps I (modifyClient i f) :=
  Meets.modify fun w hw => h.clients w _ hw

theorem clientClose (i : Nat) : Keeps I (clientClose i) :=
  Keeps.bind (Meets.call fun w hw => h.close w _ hw) fun _ => h.modifyClient i _

theorem clientMessage (i type : Nat) : Keeps I (clientMessage i type) := by
  unfold BleHa.clientMessage
  refine Keeps.bind (Meets.call fun w hw => h.message w _ _ hw) fun _ => Keeps.get fun s => ?_
  refine Keeps.ite (h.send _ _ _ (by decide)) (Keeps.ite ?_ ?_)
  · refine (h.send _ _ _ (by decide)).bind fun _ => Keeps.get fun s => ?_
    exact Keeps.when fun _ => h.clientClose i
  · refine Keeps.ite (h.send _ _ _ (by decide)) (Keeps.ite (h.send _ _ _ (by decide)) ?_)
    refine Keeps.ite (h.send _ _ _ (by decide)) (Keeps.ite (h.modifyClient i _) ?_)
    exact Keeps.ite (h.modifyClient i _) (Keeps.when fun _ => h.send _ _ _ (by decide))

theorem clientFrames (i : Nat) (buf : List UInt8) (n used : Nat) :
    Keeps I (clientFrames i buf n used) := by
  induction n generalizing used with
  | zero => exact Keeps.pure _
  | succ n ih =>
    unfold BleHa.clientFrames
    refine Keeps.get fun s => Keeps.ite (Keeps.pure _) ?_
    cases apiNext (buf.drop used) with
    | short => exact Keeps.pure _
    | bad => exact Keeps.pure _
    | frame len type msg => exact (h.clientMessage i type).bind fun _ => ih _

theorem clientRead (i : Nat) : Keeps I (clientRead i) := by
  unfold BleHa.clientRead clientBytes
  refine Keeps.bind (Meets.ask fun _ w hw => h.asked w _ hw) fun r => Keeps.get fun s => ?_
  cases r with
  | again => exact Keeps.pure _
  | closed => exact h.clientClose i
  | bytes b =>
    refine Keeps.ite (h.clientClose i) ((h.modifyClient i _).bind fun _ => Keeps.get fun s => ?_)
    refine (h.clientFrames i _ _ _).bind fun r => Keeps.get fun s => Keeps.ite (Keeps.pure _) ?_
    exact Keeps.ite (h.clientClose i) (h.modifyClient i _)

theorem acceptClient : Keeps I acceptClient := by
  unfold BleHa.acceptClient
  refine Keeps.bind (Meets.ask fun _ w hw => h.asked w _ hw) fun fd => Keeps.get fun s => ?_
  cases fd with
  | none => exact Keeps.pure _
  | some fd =>
    cases s.clients.findIdx? fun c => c.fd = none with
    | none => exact Keeps.pure _
    | some i => exact h.modifyClient i _

theorem readClients (ready : Ready) : Keeps I (readClients ready) := by
  unfold BleHa.readClients
  refine Keeps.bind (Keeps.when fun _ => h.acceptClient) fun _ => Keeps.each (fun i => ?_) _
  exact Keeps.get fun s => Keeps.when fun _ => h.clientRead i

end ClientReads

/-- What the clients are made of keeps `I`. -/
structure Clients (I : World Call Daemon → Prop) : Prop where
  asked : ∀ w n, I w → I { w with asked := n }
  call : ∀ w k, k.isClient = true → I w → I { w with calls := (k, w.st) :: w.calls }
  clients : ∀ w cs, I w → I { w with st := { w.st with clients := cs } }
  batch : ∀ w b, I w → I { w with st := { w.st with batch := b } }

namespace Clients

variable (h : Clients I)

include h

theorem clientSend (i type : Nat) (msg : List UInt8) : Keeps I (clientSend i type msg) := by
  unfold BleHa.clientSend BleHa.clientClose BleHa.modifyClient
  refine Keeps.when fun _ => Keeps.bind (Meets.ask fun _ w hw => h.asked w _ hw) fun ok => ?_
  refine Keeps.bind (Meets.call fun w hw => h.call w _ rfl hw) fun _ => Keeps.when fun _ => ?_
  exact Keeps.bind (Meets.call fun w hw => h.call w _ rfl hw) fun _ => Meets.modify fun w hw =>
    h.clients w _ hw

theorem reads : ClientReads I where
  asked := h.asked
  message w _ _ hw := h.call w _ rfl hw
  close w _ hw := h.call w _ rfl hw
  send i type msg _ := h.clientSend i type msg
  clients := h.clients

theorem readClients (ready : Ready) : Keeps I (readClients ready) := h.reads.readClients ready

theorem flushBatch : Keeps I flushBatch := by
  unfold BleHa.flushBatch
  refine Keeps.get fun s => Keeps.when fun _ => ?_
  refine Keeps.bind (Meets.call fun w hw => h.call w _ rfl hw) fun _ => ?_
  refine Keeps.bind (Meets.modify fun w hw => h.batch w _ hw) fun _ => Keeps.each (fun i => ?_) _
  exact Keeps.get fun s => Keeps.when fun _ => h.clientSend _ _ _

end Clients

/-! ## Rounds -/

/-- What a round is made of keeps `I`; between `poll` and the end of what the adapter sent, `J`
holds. -/
structure Turns (I J : World Call Daemon → Prop) : Prop where
  asked : ∀ w n, I w → I { w with asked := n }
  poll : ∀ w t, I w → J { w with calls := (.poll t, w.st) :: w.calls }
  polled : ∀ w n, J w → J { w with asked := n }
  rests : ∀ w, J w → I w
  adapter : Meets J readAdapter fun _ => I
  scan : ∀ on, Keeps I (setScan on)
  advertise : Keeps I (setAdvertising true)
  clients : ∀ ready, Keeps I (readClients ready)
  flush : Keeps I flushBatch
  join : Keeps I joinTimer
  identify : Keeps I identifyTimer
  done : Keeps I doneTimer
  network : Keeps I networkTimer

namespace Turns

variable {J : World Call Daemon → Prop} (h : Turns I J)

include h

theorem ask {α : Type} (f : Answer → α) : Keeps I (Prog.ask f) :=
    Meets.ask fun _ w hw => h.asked w _ hw

theorem timers : Keeps I timers := by
  unfold BleHa.timers
  refine Keeps.bind ?_ fun _ => h.join.bind fun _ => h.identify.bind fun _ => h.done.bind fun _ =>
    h.network
  unfold batchTimer
  refine Keeps.get fun s => Keeps.when fun _ => ?_
  exact (h.ask _).bind fun t => Keeps.when fun _ => h.flush

theorem serve (ready : Ready) : Meets J (serve ready) fun _ => I := by
  unfold BleHa.serve
  refine Meets.bind (R := fun _ => I) (Meets.ite (fun _ => h.adapter) fun _ => Meets.pure h.rests)
    fun ok => ?_
  refine Keeps.bind (Keeps.when fun _ => ?_) fun _ => Keeps.pure _
  refine (h.clients ready).bind fun _ => Keeps.get fun s => ?_
  exact Keeps.bind (Keeps.when fun _ => h.flush) fun _ => h.timers

theorem pollTimeout : Keeps I pollTimeout := by
  unfold BleHa.pollTimeout
  refine (h.ask _).bind fun t => Keeps.get fun s => ?_
  exact Keeps.ite (Keeps.pure _) (Keeps.ite (Keeps.pure _) (Keeps.pure _))

/-- **One round.** -/
theorem round : Keeps I round := by
  unfold BleHa.round
  refine (h.ask _).bind fun stop => Keeps.get fun s => Keeps.ite (Keeps.pure _) ?_
  refine Keeps.bind (Keeps.when fun _ => h.advertise) fun _ => Keeps.get fun s => ?_
  refine (h.scan _).bind fun _ => h.pollTimeout.bind fun t => ?_
  refine Meets.bind (R := fun _ => J) (Meets.call fun w hw => h.poll w _ hw) fun _ => ?_
  refine Meets.bind (R := fun _ => J) (Meets.ask fun _ w hw => h.polled w _ hw) fun ready => ?_
  cases ready with
  | none => exact Meets.pure h.rests
  | some ready => exact h.serve ready

/-- **A whole run.** -/
theorem run (n : Nat) : Keeps I (run n) := Keeps.loop h.round n

end Turns

/-- What a round is made of keeps `I`. -/
structure Rounds (I : World Call Daemon → Prop) : Prop extends Commands I where
  poll : ∀ w t, I w → I { w with calls := (.poll t, w.st) :: w.calls }
  scan : ∀ on, Keeps I (setScan on)
  advertise : Keeps I (setAdvertising true)
  clients : ∀ ready, Keeps I (readClients ready)
  flush : Keeps I flushBatch
  join : Keeps I joinTimer
  identify : Keeps I identifyTimer
  done : Keeps I doneTimer
  network : Keeps I networkTimer

namespace Rounds

variable (h : Rounds I)

include h

theorem readAdapter : Keeps I readAdapter := by
  unfold BleHa.readAdapter
  refine (h.ask _).bind fun r => ?_
  cases r with
  | failed => exact Keeps.pure _
  | nothing => exact Keeps.pure _
  | packet p =>
    refine Keeps.bind (Keeps.when fun _ => ?_) fun _ => Keeps.pure _
    exact Keeps.bind (Meets.call fun w hw => h.read w _ hw) fun _ => h.packet _

theorem turns : Turns I I where
  asked := h.asked
  poll := h.poll
  polled := h.asked
  rests _ hw := hw
  adapter := h.readAdapter
  scan := h.scan
  advertise := h.advertise
  clients := h.clients
  flush := h.flush
  join := h.join
  identify := h.identify
  done := h.done
  network := h.network

theorem run (n : Nat) : Keeps I (run n) := h.turns.run n

end Rounds

/-- The invariants that the flags of the program and the ends of Improv do not touch. -/
structure Ordinary (I : World Call Daemon → Prop) : Prop extends Commands I, Improvs I where
  poll : ∀ w t, I w → I { w with calls := (.poll t, w.st) :: w.calls }
  ended : ∀ w why, I w → I { w with calls := (.improvEnd why, w.st) :: w.calls }
  scanning : ∀ w b, I w → I { w with st := { w.st with scanning := b } }
  advertising : ∀ w b, I w → I { w with st := { w.st with advertising := b } }
  improv : ∀ w b, I w → I { w with st := { w.st with improv := b } }
  checkAt : ∀ w t, I w → I { w with st := { w.st with checkAt := t } }
  clients : ∀ ready, Keeps I (readClients ready)
  flush : Keeps I flushBatch

theorem Ordinary.setAdvertising (h : Ordinary I) (on : Bool) : Keeps I (setAdvertising on) :=
  h.toCommands.setAdvertising h.advertising h.dirty on

/-- **Such an invariant is kept by the rounds.** -/
theorem Ordinary.rounds (h : Ordinary I) : Rounds I where
  toCommands := h.toCommands
  poll := h.poll
  scan on := h.toCommands.setScan h.scanning on
  advertise := h.setAdvertising true
  clients := h.clients
  flush := h.flush
  join := h.toImprovs.joinTimer
  identify := h.toImprovs.identifyTimer
  done := by
    unfold doneTimer
    refine Keeps.get fun s => Keeps.when fun _ => h.toImprovs.now.bind fun t => Keeps.when fun _ =>
      ?_
    refine Keeps.bind (Meets.modify fun w hw => ?_) fun _ => ?_
    · exact h.doneAt { w with st := { w.st with improv := false } } 0 (h.improv w false hw)
    · exact Keeps.bind (Meets.call fun w hw => h.ended w _ hw) fun _ => h.setAdvertising false
  network := by
    unfold networkTimer
    refine Keeps.get fun s => Keeps.when fun _ => h.toImprovs.now.bind fun t => Keeps.when fun _ =>
      ?_
    refine h.toImprovs.now.bind fun t => Keeps.bind (Meets.modify fun w hw => h.checkAt w _ hw)
      fun _ => ?_
    refine h.toImprovs.wpaNetworks.bind fun n => Keeps.when fun _ => ?_
    refine Keeps.bind (Meets.modify fun w hw => h.improv w _ hw) fun _ => ?_
    exact Keeps.bind (Meets.call fun w hw => h.ended w _ hw) fun _ => h.setAdvertising false

/-- The run and the clean-up behind it. -/
theorem Ordinary.runAndStop (h : Ordinary I) (he : Keeps I (Prog.call Call.exit : Act Unit))
    (n : Nat) :
    Meets (fun w => I { w with calls := (.loop, w.st) :: w.calls }) (runAndStop n) fun _ => I := by
  unfold BleHa.runAndStop
  refine Meets.bind (R := fun _ => I) (Meets.call fun w hw => hw) fun _ => ?_
  refine (h.rounds.run n).bind fun ended => Keeps.when fun _ => ?_
  refine (h.rounds.scan false).bind fun _ => (h.setAdvertising false).bind fun _ => ?_
  exact h.toImprovs.finishJoin.bind fun _ => he

/-! ## The whole program -/

/-- **The phases of `main`**: `I` up to the commands of the start, `J` behind them, `K` when the
loop can start, and `Q` at the end of every one of them. -/
theorem main_meets {I K Q : World Call Daemon → Prop} {J : Bool → World Call Daemon → Prop}
    {n : Nat}
    (hask : ∀ w m, I w → I { w with asked := m })
    (hreq : ∀ w cmd r, I w → I { w with calls := (.request cmd r, w.st) :: w.calls })
    (hproxy : ∀ w b, I w → I { w with st := { w.st with proxy := b } })
    (himprov : ∀ w b, I w → I { w with st := { w.st with improv := b } })
    (hinit : Meets I hciInit J) (hsetup : Meets (J true) setup fun _ => K)
    (hask' : ∀ w m, K w → K { w with asked := m })
    (hdirty : ∀ w, K w → K { w with st := { w.st with advDirty := true } })
    (hrun : Meets K (runAndStop n) fun _ => Q) (hi : ∀ w, I w → Q w) (hj : ∀ w, J false w → Q w)
    (hk : ∀ w, K w → Q w) (proxy improv : Bool) : Meets I (main proxy improv n) fun _ => Q := by
  have hneeded : Keeps I improvNeeded := by
    unfold improvNeeded
    refine Keeps.bind ?_ fun _ => Keeps.pure _
    generalize 30 = m
    induction m with
    | zero => exact Keeps.pure _
    | succ m ih =>
      unfold networksFrom wpaNetworks request
      refine Keeps.bind (Keeps.bind (Keeps.bind (Meets.ask fun _ w hw => hask w _ hw) fun r => ?_)
        fun _ => Keeps.pure _) fun r => Keeps.ite (Keeps.pure _) ?_
      · exact Keeps.bind (Meets.call fun w hw => hreq w _ _ hw) fun _ => Keeps.pure _
      · exact Keeps.bind (Meets.ask fun _ w hw => hask w _ hw) fun stop =>
          Keeps.ite (Keeps.pure _) ih
  have hstart : Meets I (start n) fun _ => Q := by
    unfold start
    refine Meets.bind hinit fun ok => Meets.when (fun hok => ?_) fun hok => ?_
    · subst hok
      refine Meets.bind hsetup fun _ => ?_
      refine Meets.get fun s => (?_ : Meets K _ _).mono (fun w hw => hw.1) fun _ _ hw => hw
      refine Meets.bind (Keeps.ite (Meets.ask fun _ w hw => hask' w _ hw) (Keeps.pure _)) fun lfd =>
        ?_
      refine Meets.when (fun _ => Meets.bind (Keeps.when fun _ => ?_) fun _ => hrun) fun _ => hk
      exact Meets.modify fun w hw => hdirty w hw
    · rw [Bool.eq_false_iff.mpr hok]
      exact hj
  unfold main
  refine Meets.bind (R := fun _ => I) (Meets.modify fun w hw => hproxy w _ hw) fun _ => ?_
  refine Meets.bind (Keeps.ite hneeded (Keeps.pure _)) fun needed => ?_
  refine Meets.bind (R := fun _ => I) (Meets.modify fun w hw => himprov w _ hw) fun _ => ?_
  refine Meets.when (fun _ => ?_) fun _ => hi
  refine Meets.bind (R := fun _ => I) (Meets.ask fun _ w hw => hask w _ hw) fun bluetoothd => ?_
  refine Meets.when (fun _ => ?_) fun _ => hi
  refine Meets.bind (R := fun _ => I) (Meets.ask fun _ w hw => hask w _ hw) fun hci => ?_
  exact Meets.when (fun _ => hstart) fun _ => hi

end Esp32S31.BleHa
