import Mathlib.Tactic.ByContra
import Esp32S31.BleHa.Rounds

/-!
# The advertisements on their way to the clients

`le_meta` puts the reports of an event into the batch, as far as there is room, and `flush_batch`
sends the batch to the clients that are subscribed. What the batches hold is read off the record of
a run.

**`batches`**: over every run, a report for which the batch has room is in exactly one batch, in the
order of arrival, and a batch goes once to every subscribed client. `batch_full`: the batch can be
full with reports of earlier packets, and then reports are dropped.
-/

namespace Esp32S31.BleHa

open Esp32S31.Lib Prog

/-! ## What a record says -/

/-- The reports that a packet brings while the scan is on. -/
def reportsOf (p : List UInt8) (s : Daemon) : List Adv :=
  if byte p 0 = hciEvt ∧ s.scanning then hciParseAdvReports (p.drop 1) 8 else []

/-- The reports that arrived while the scan was on. -/
def arrived : List (Call × Daemon) → List Adv
  | [] => []
  | (.packet p, s) :: ks => arrived ks ++ reportsOf p s
  | _ :: ks => arrived ks

/-- Those of them that the batch had room for. -/
def taken : List (Call × Daemon) → List Adv
  | [] => []
  | (.packet p, s) :: ks => taken ks ++ (reportsOf p s).take (advBatch - s.batch.length)
  | _ :: ks => taken ks

/-- The reports of the batches that went out. -/
def flushed : List (Call × Daemon) → List Adv
  | [] => []
  | (.flush ads, _) :: ks => flushed ks ++ ads
  | _ :: ks => flushed ks

/-- The client in slot `i` is subscribed. -/
def Daemon.subscribed (s : Daemon) (i : Nat) : Bool := (s.client i).fd.isSome &&
    (s.client i).subscribed

/-- The messages of a batch, one for each client that is subscribed. -/
def messagesOf (ads : List Adv) (s : Daemon) (slots : List Nat) : List (Nat × List UInt8) :=
  (slots.filter s.subscribed).map fun i => (i, apiAdvBatch ads)

/-- The messages that the batches ask for. -/
def due : List (Call × Daemon) → List (Nat × List UInt8)
  | [] => []
  | (.flush ads, s) :: ks => due ks ++ messagesOf ads s (List.range maxClients)
  | _ :: ks => due ks

/-- The batches that were sent: the type 93 is BluetoothLERawAdvertisementsResponse. -/
def batchSends : List (Call × Daemon) → List (Nat × List UInt8)
  | [] => []
  | (.send i type msg _, _) :: ks => batchSends ks ++ if type = 93 then [(i, msg)] else []
  | _ :: ks => batchSends ks

/-- The call is no send that failed. -/
def Call.sentOk : Call → Bool
  | .send _ _ _ ok => ok
  | _ => true

/-- Every send took all bytes. -/
def AllSent (calls : List (Call × Daemon)) : Prop := ∀ k ∈ calls, k.1.sentOk = true

instance (calls : List (Call × Daemon)) : Decidable (AllSent calls) :=
  inferInstanceAs (Decidable (∀ k ∈ calls, k.1.sentOk = true))

theorem AllSent.tail {k : Call × Daemon} {ks : List (Call × Daemon)} (h : AllSent (k :: ks)) :
    AllSent ks :=
  fun k' hk => h k' (List.mem_cons_of_mem k hk)

/-! ## The size of a batch -/

/-- A report as `hci_parse_adv_reports` gives it. -/
def Adv.Valid (a : Adv) : Prop := a.addr < 2 ^ 48 ∧ a.data.length ≤ advMax

theorem address_lt (ev : List UInt8) (pos : Nat) : address ev pos < 2 ^ 48 := by
  have h (i : Nat) := (byte ev (pos + i)).toNat_lt
  have := h 0
  have := h 1
  have := h 2
  have := h 3
  have := h 4
  have := h 5
  unfold address
  simp only [List.foldl_cons, List.foldl_nil]
  omega

theorem advReports_valid (ev : List UInt8) (n pos : Nat) : ∀ a ∈ advReports ev n pos, a.Valid := by
  induction n generalizing pos with
  | zero => exact fun a ha => nomatch ha
  | succ n ih =>
    intro a ha
    unfold advReports at ha
    dsimp only at ha
    split at ha
    · cases ha
    · next hc =>
      rcases List.mem_cons.mp ha with rfl | ha
      · refine ⟨address_lt ev _, ?_⟩
        dsimp only
        rw [List.length_take]
        unfold advMax at hc ⊢
        omega
      · exact ih _ a ha

theorem reportsOf_valid {p : List UInt8} {s : Daemon} {a : Adv} (ha : a ∈ reportsOf p s) :
    a.Valid := by
  unfold reportsOf hciParseAdvReports at ha
  split at ha
  · split at ha
    · cases ha
    · exact advReports_valid _ _ _ a ha
  · cases ha

/-- A varint of a number with `7 * k` bits has at most `k` bytes. -/
theorem pbVarintFrom_length {k : Nat} (hk : 0 < k) {n v : Nat} (hv : v < 128 ^ k) :
    (pbVarintFrom n v).length ≤ k := by
  induction n generalizing k v with
  | zero => exact Nat.zero_le k
  | succ n ih =>
    unfold pbVarintFrom
    split
    · exact hk
    · next hbig =>
      match k, hk, hv with
      | 1, _, hv => exact absurd hv (by omega)
      | k + 2, _, hv =>
        have hdiv : v / 128 < 128 ^ (k + 1) := by
          rw [Nat.div_lt_iff_lt_mul (by decide), ← Nat.pow_succ]
          exact hv
        have := ih (Nat.succ_pos k) hdiv
        rw [List.length_cons]
        omega

theorem pbKey_length {field wire : Nat} (h : 8 * field + wire < 128) :
    (pbKey field wire).length ≤ 1 :=
  pbVarintFrom_length Nat.one_pos h

theorem pbUint_length {field k v : Nat} (hk : 0 < k) (hf : 8 * field < 128) (hv : v < 128 ^ k) :
    (pbUint field v).length ≤ 1 + k := by
  unfold pbUint
  split
  · exact Nat.zero_le _
  · have h1 : (pbKey field 0).length ≤ 1 := pbKey_length hf
    have h2 := pbVarintFrom_length (n := 10) hk hv
    rw [List.length_append]
    exact Nat.add_le_add h1 h2

theorem zigzag_lt (rssi : Int8) : zigzag rssi < 2 ^ 8 := by
  have h1 := rssi.toInt_lt
  have h2 := rssi.le_toInt
  unfold zigzag
  split <;> omega

/-- A report takes at most 49 bytes of a batch. -/
theorem advMessage_length {a : Adv} (h : a.Valid) : (advMessage a).length ≤ 47 := by
  obtain ⟨haddr, hdata⟩ := h
  have h1 : (pbUint 1 a.addr).length ≤ 1 + 7 := pbUint_length (by decide) (by decide) (by omega)
  have h2 : (pbUint 2 (zigzag a.rssi)).length ≤ 1 + 2 :=
    pbUint_length (by decide) (by decide) (Nat.lt_of_lt_of_le (zigzag_lt a.rssi) (by decide))
  have h3 : (pbUint 3 a.addrType.toNat).length ≤ 1 + 2 :=
    pbUint_length (by decide) (by decide) (Nat.lt_of_lt_of_le a.addrType.toNat_lt (by decide))
  have h4 : (pbBytes 4 a.data).length ≤ 33 := by
    unfold pbBytes
    split
    · exact Nat.zero_le _
    · have hk : (pbKey 4 2).length ≤ 1 := pbKey_length (by decide)
      have hv : (pbVarint a.data.length).length ≤ 1 :=
        pbVarintFrom_length Nat.one_pos (Nat.lt_of_le_of_lt hdata (by decide))
      rw [List.length_append, List.length_append]
      unfold advMax at hdata
      omega
  unfold advMessage
  rw [List.length_append, List.length_append, List.length_append]
  omega

theorem apiAdvBatch_length {ads : List Adv} (h : ∀ a ∈ ads, a.Valid) :
    (apiAdvBatch ads).length ≤ 49 * ads.length := by
  induction ads with
  | nil => exact Nat.le_refl 0
  | cons a ads ih =>
    have hrest := ih fun b hb => h b (List.mem_cons_of_mem a hb)
    have hmsg := advMessage_length (h a List.mem_cons_self)
    have hk : (pbKey 1 2).length ≤ 1 := pbKey_length (by decide)
    have hv : (pbVarint (advMessage a).length).length ≤ 1 :=
      pbVarintFrom_length Nat.one_pos (Nat.lt_of_le_of_lt hmsg (by decide))
    have heq : apiAdvBatch (a :: ads) =
        (pbKey 1 2 ++ pbVarint (advMessage a).length ++ advMessage a) ++ apiAdvBatch ads := rfl
    rw [heq, List.length_append, List.length_append, List.length_append, List.length_cons]
    omega

/-! ## The batch and the record -/

/-- A call that says nothing about a batch. -/
def Call.isBatch : Call → Bool
  | .packet _ | .flush _ => true
  | .send _ type _ _ => type = 93
  | _ => false

/-- The reports `ads` of a packet are still to be put into the batch. -/
structure Batched (ads : List Adv) (w : World Call Daemon) : Prop where
  taken : taken w.calls = flushed w.calls ++ w.st.batch ++ ads.take (advBatch - w.st.batch.length)
  sent : batchSends w.calls = due w.calls
  valid : ∀ a ∈ w.st.batch ++ ads, a.Valid
  room : w.st.batch.length ≤ advBatch

/-- The same, as long as every send took all bytes. -/
def Accounted (ads : List Adv) (w : World Call Daemon) : Prop := AllSent w.calls → Batched ads w

variable {ads : List Adv} {w w' : World Call Daemon}

theorem Accounted.of_state (h : Accounted ads w) (hc : w'.calls = w.calls)
    (hb : w'.st.batch = w.st.batch) : Accounted ads w' := by
  intro hs
  obtain ⟨h1, h2, h3, h4⟩ := h (hc ▸ hs)
  exact ⟨by rw [hc, hb, h1], by rw [hc, h2], by rw [hb]; exact h3, by rw [hb]; exact h4⟩

theorem Accounted.call (h : Accounted ads w) {k : Call} (hk : k.isBatch = false) :
    Accounted ads { w with calls := (k, w.st) :: w.calls } := by
  intro hs
  obtain ⟨h1, h2, h3, h4⟩ := h hs.tail
  have hsame : BleHa.taken ((k, w.st) :: w.calls) = BleHa.taken w.calls ∧
      flushed ((k, w.st) :: w.calls) = flushed w.calls ∧ due ((k, w.st) :: w.calls) = due w.calls ∧
      batchSends ((k, w.st) :: w.calls) = batchSends w.calls := by
    cases k with
    | packet | flush => cases hk
    | send i type msg ok =>
      refine ⟨rfl, rfl, rfl, ?_⟩
      have hcons : batchSends ((.send i type msg ok, w.st) :: w.calls) =
          batchSends w.calls ++ if type = 93 then [(i, msg)] else [] := rfl
      rw [hcons, if_neg (of_decide_eq_false hk), List.append_nil]
    | _ => exact ⟨rfl, rfl, rfl, rfl⟩
  obtain ⟨e1, e2, e3, e4⟩ := hsame
  exact ⟨by rw [e1, e2, h1], by rw [e4, e3, h2], h3, h4⟩

/-! ## A packet -/

/-- A packet brings its reports. -/
theorem Accounted.packet (h : Accounted [] w) (p : List UInt8) :
    Accounted (reportsOf p w.st) { w with calls := (.packet p, w.st) :: w.calls } := by
  intro hs
  obtain ⟨h1, h2, h3, h4⟩ := h hs.tail
  rw [List.take_nil, List.append_nil] at h1
  refine ⟨congrArg (· ++ _) h1, h2, fun a ha => ?_, h4⟩
  rcases List.mem_append.mp ha with ha | ha
  · exact h3 a (List.mem_append_left _ ha)
  · exact reportsOf_valid ha

/-- A report goes into the batch while there is room. -/
theorem pushReport_accounted (a : Adv) (ads : List Adv) :
    Meets (Accounted (a :: ads)) (pushReport a) fun _ => Accounted ads := by
  unfold pushReport
  refine Meets.get fun s => ?_
  refine Meets.bind (R := fun _ w => Accounted (a :: ads) w ∧ w.st = s) (Meets.call fun w hw => ?_)
    fun _ => ?_
  · exact ⟨hw.1.call rfl, hw.2⟩
  refine Meets.when (fun hroom => Meets.modify ?_) fun hfull w hw => ?_
  · rintro w ⟨hw, rfl⟩ hs
    obtain ⟨h1, h2, h3, h4⟩ := hw hs
    have hlen : (w.st.batch ++ [a]).length = w.st.batch.length + 1 := List.length_append
    have htake : advBatch - w.st.batch.length = (advBatch - (w.st.batch.length + 1)) + 1 := by omega
    refine ⟨?_, h2, ?_, by dsimp only; omega⟩
    · dsimp only
      rw [h1, htake, List.take_succ_cons, hlen, List.append_assoc, List.append_assoc,
        List.append_assoc]
      rfl
    · intro b hb
      refine h3 b ?_
      rw [List.append_assoc] at hb
      exact hb
  · obtain ⟨hw, rfl⟩ := hw
    intro hs
    obtain ⟨h1, h2, h3, h4⟩ := hw hs
    have hnone : advBatch - w.st.batch.length = 0 := by omega
    refine ⟨?_, h2, fun b hb => h3 b ?_, h4⟩
    · rw [h1, hnone]
      rfl
    · rcases List.mem_append.mp hb with hb | hb
      · exact List.mem_append_left _ hb
      · exact List.mem_append_right _ (List.mem_cons_of_mem a hb)

theorem pushReports_accounted (ads : List Adv) :
    Meets (Accounted ads) (each pushReport ads) fun _ => Accounted [] := by
  induction ads with
  | nil => exact Meets.pure fun w hw => hw
  | cons a ads ih => exact Meets.bind (pushReport_accounted a ads) fun _ => ih

/-- A packet without reports. -/
theorem reportsOf_nil {p : List UInt8} {s : Daemon}
    (h : ¬ (byte p 0 = hciEvt ∧ byte p 1 = 0x3e ∧ byte (p.drop 1) 2 = 0x02 ∧ s.scanning = true)) :
    reportsOf p s = [] := by
  unfold reportsOf
  split
  · next hc =>
    unfold hciParseAdvReports
    rw [if_pos]
    rw [byte_drop]
    by_contra hn
    push Not at hn
    exact h ⟨hc.1, hn.2.1, hn.2.2, hc.2⟩
  · rfl

theorem leMeta_accounted {p : List UInt8} (h0 : byte p 0 = hciEvt) :
    Meets (fun w => Accounted (reportsOf p w.st) w) (leMeta (p.drop 1)) fun _ => Accounted [] := by
  unfold leMeta
  refine Meets.get fun s => (?_ : Meets (fun w => Accounted (reportsOf p s) w) _ _).mono ?_
    fun _ _ hw => hw
  · refine Meets.ite (fun hlen => ?_) fun hlen => ?_
    · have hnil : reportsOf p s = [] := by
        unfold reportsOf hciParseAdvReports
        split
        · exact if_pos (Or.inl (by omega))
        · rfl
      rw [hnil]
      exact Meets.pure fun w hw => hw
    · refine Meets.ite (fun hadv => ?_) fun hno => ?_
      · have hads : reportsOf p s = hciParseAdvReports (p.drop 1) 8 := if_pos ⟨h0, hadv.2⟩
        rw [hads]
        refine Meets.bind (R := fun _ => Accounted (hciParseAdvReports (p.drop 1) 8)) ?_ fun _ =>
          pushReports_accounted _
        refine Keeps.when fun _ => Keeps.bind (Meets.ask fun _ w hw => hw.of_state rfl rfl) fun t =>
          ?_
        exact Meets.modify fun w hw => hw.of_state rfl rfl
      · have hnil : reportsOf p s = [] := reportsOf_nil fun hc => hno hc.2.2
        rw [hnil]
        exact Keeps.when fun _ => Meets.modify fun w hw => hw.of_state rfl rfl
  · rintro w ⟨hw, rfl⟩
    exact hw

theorem accounted_aclSend (cid : Nat) (data : List UInt8) : Keeps (Accounted [])
    (aclSend cid data) := by
  unfold aclSend
  refine Keeps.bind (Meets.call fun w hw => hw.call rfl) fun _ => Keeps.get fun s => ?_
  cases s.conn with
  | none => exact Keeps.pure _
  | some handle =>
    refine Keeps.ite (Keeps.pure _) (Keeps.ite (Keeps.pure _) ?_)
    refine Keeps.bind (Meets.ask fun _ w hw => hw.of_state rfl rfl) fun ok => ?_
    refine Keeps.bind (Meets.call fun w hw => hw.call rfl) fun _ => ?_
    exact Keeps.when fun _ => Meets.modify fun w hw => hw.of_state rfl rfl

theorem accounted_improvs : Improvs (Accounted []) where
  asked _ _ hw := hw.of_state rfl rfl
  call w k hk hw := hw.call (by cases k <;> first | rfl | cases hk)
  notify handle v := by
    unfold notify
    refine Keeps.get fun s => Keeps.when fun _ => ?_
    exact Keeps.bind (Meets.call fun w hw => hw.call rfl) fun _ => accounted_aclSend _ _
  error _ _ hw := hw.of_state rfl rfl
  state _ _ hw := hw.of_state rfl rfl
  result _ _ hw := hw.of_state rfl rfl
  dirty _ _ hw := hw.of_state rfl rfl
  rpc _ _ hw := hw.of_state rfl rfl
  joinId _ _ hw := hw.of_state rfl rfl
  joinEnd _ _ hw := hw.of_state rfl rfl
  identifyEnd _ _ hw := hw.of_state rfl rfl
  doneAt _ _ hw := hw.of_state rfl rfl

theorem accounted_acls : Acls (Accounted []) :=
  { accounted_improvs with
    frame := accounted_improvs.l2capFrame (fun _ _ _ hw => hw.call rfl) accounted_aclSend
      (fun _ _ hw => hw.call rfl) fun _ _ hw => hw.of_state rfl rfl
    l2 := fun _ _ hw => hw.of_state rfl rfl }

/-- **Every packet** brings its reports into the batch, as far as there is room. -/
theorem handlePacket_accounted (p : List UInt8) : Keeps (Accounted []) (handlePacket p) := by
  unfold handlePacket packetBody
  refine Meets.bind (R := fun _ w => Accounted (reportsOf p w.st) w)
    (Meets.call fun w hw => hw.packet p) fun _ => ?_
  have hnone : (∀ s, reportsOf p s = []) → ∀ w, Accounted (reportsOf p w.st) w → Accounted [] w :=
    fun hn w hw => (hn w.st) ▸ hw
  have hother (h : ¬ (byte p 0 = hciEvt ∧ byte p 1 = 0x3e)) : ∀ s, reportsOf p s = [] :=
    fun s => reportsOf_nil fun hc => h ⟨hc.1, hc.2.1⟩
  refine Meets.get fun s => (?_ : Meets (fun w => Accounted (reportsOf p w.st) w) _ _).mono
    (fun w hw => hw.1)
    fun _ _ hw => hw
  refine Meets.ite (fun hlen => ?_) fun _ => Meets.ite (fun hacl => ?_) fun _ =>
    Meets.ite (fun hevt => ?_) ?_
  · refine Meets.pure fun w hw => hnone (fun s => ?_) w hw
    unfold reportsOf hciParseAdvReports
    split
    · exact if_pos (Or.inl (by rw [List.length_drop]; omega))
    · rfl
  · refine (accounted_acls.handleAcl p).mono (hnone (hother fun hc => ?_)) fun _ _ hw => hw
    exact absurd (hacl.symm.trans hc.1) (by decide)
  · exact Meets.pure (hnone (hother fun hc => hevt hc.1))
  · intro hevt
    refine Meets.ite (fun _ => leMeta_accounted (not_not.mp hevt)) fun hle => ?_
    refine Meets.mono (P := Accounted []) ?_ (hnone (hother fun hc => hle hc.2)) fun _ _ hw => hw
    refine Keeps.ite (Keeps.when fun _ => ?_) (Keeps.when fun _ => ?_)
    · exact Meets.modify fun w hw => hw.of_state rfl rfl
    · exact Meets.modify fun w hw => hw.of_state rfl rfl

/-! ## A batch goes out -/

/-- A batch is being sent: the messages to `slots` are to come. -/
structure Flushing (ads : List Adv) (s : Daemon) (slots : List Nat) (w : World Call Daemon) :
    Prop where
  taken : taken w.calls = flushed w.calls
  sent : batchSends w.calls ++ messagesOf ads s slots = due w.calls
  clients : w.st.clients = s.clients
  empty : w.st.batch = []

theorem Flushing.of_asked {ads : List Adv} {s : Daemon} {slots : List Nat}
    (h : Flushing ads s slots w) {n : Nat} :
    Flushing ads s slots { w with asked := n } := ⟨h.taken, h.sent, h.clients, h.empty⟩

theorem flushClient_flushing {ads : List Adv} (hfit : (apiAdvBatch ads).length + 12 ≤ 1200)
    (s : Daemon) (i : Nat)
    (slots : List Nat) :
    Meets (fun w => AllSent w.calls → Flushing ads s (i :: slots) w)
      (flushClient (apiAdvBatch ads) i)
      fun _ w => AllSent w.calls → Flushing ads s slots w := by
  unfold flushClient clientSend
  refine Meets.get fun t => Meets.when (fun hsub => ?_) fun hsub w hw hs => ?_
  · rw [when_pos hfit]
    refine Meets.bind (R := fun _ w => (AllSent w.calls → Flushing ads s (i :: slots) w) ∧ w.st = t)
      (Meets.ask fun _ w hw => ⟨fun hs => (hw.1 hs).of_asked, hw.2⟩) fun ok => ?_
    cases ok with
    | false =>
      refine Meets.bind (R := fun _ w => ¬ AllSent w.calls) (Meets.call fun w hw hs => ?_) fun _ =>
        ?_
      · exact nomatch hs _ List.mem_cons_self
      · refine Meets.when (fun _ => ?_) fun _ w hw hs => absurd hs hw
        unfold clientClose modifyClient
        refine Meets.bind (R := fun _ w => ¬ AllSent w.calls) (Meets.call fun w hw hs => hw hs.tail)
          fun _ => ?_
        exact Meets.modify fun w hw hs => absurd hs hw
    | true =>
      refine Meets.bind (R := fun _ w => AllSent w.calls → Flushing ads s slots w) (Meets.call ?_)
        fun _ => Meets.when nofun fun _ _ hw => hw
      rintro w ⟨hw, rfl⟩ hs
      obtain ⟨h1, h2, h3, h4⟩ := hw hs.tail
      have hmem : s.subscribed i = true := by
        have hcl : s.client i = w.st.client i := congrArg (·.getD i ⟨none, [], false⟩) h3.symm
        unfold Daemon.subscribed
        rw [hcl, Bool.and_eq_true]
        exact hsub
      refine ⟨h1, ?_, h3, h4⟩
      have hcons : messagesOf ads s (i :: slots) = (i, apiAdvBatch ads) :: messagesOf ads s
          slots := by
        unfold messagesOf
        rw [List.filter_cons_of_pos hmem, List.map_cons]
      rw [hcons] at h2
      exact (List.append_assoc _ _ _).trans h2
  · obtain ⟨hw, rfl⟩ := hw
    obtain ⟨h1, h2, h3, h4⟩ := hw hs
    have hmem : ¬ s.subscribed i = true := by
      have hcl : s.client i = w.st.client i := congrArg (·.getD i ⟨none, [], false⟩) h3.symm
      unfold Daemon.subscribed
      rw [hcl, Bool.and_eq_true]
      exact hsub
    have hcons : messagesOf ads s (i :: slots) = messagesOf ads s slots := by
      unfold messagesOf
      rw [List.filter_cons_of_neg hmem]
    exact ⟨h1, hcons ▸ h2, h3, h4⟩

theorem flushClients_flushing {ads : List Adv} (hfit : (apiAdvBatch ads).length + 12 ≤ 1200)
    (s : Daemon)
    (slots : List Nat) :
    Meets (fun w => AllSent w.calls → Flushing ads s slots w)
      (each (flushClient (apiAdvBatch ads)) slots)
      fun _ w => AllSent w.calls → Flushing ads s [] w := by
  induction slots with
  | nil => exact Meets.pure fun w hw => hw
  | cons i slots ih => exact Meets.bind (flushClient_flushing hfit s i slots) fun _ => ih

/-- A send that failed stays in the record. -/
theorem unsent_clients : Clients fun w => ¬ AllSent w.calls where
  asked _ _ hw := hw
  call _ _ _ hw hs := hw hs.tail
  clients _ _ hw := hw
  batch _ _ hw := hw

/-- **A flush** sends the batch once to every subscribed client. -/
theorem flushBatch_accounted : Keeps (Accounted []) flushBatch := by
  intro env w hw
  by_cases hs : AllSent w.calls
  · obtain ⟨-, -, hvalid, hroom⟩ := hw hs
    rw [List.append_nil] at hvalid
    have hfit : (apiAdvBatch w.st.batch).length + 12 ≤ 1200 := by
      have := apiAdvBatch_length hvalid
      unfold advBatch at hroom
      omega
    have hflush : Meets (fun w' => Accounted [] w' ∧ w'.st = w.st) flushBatch fun _ =>
        Accounted [] := by
      unfold flushBatch
      refine Meets.get fun s => Meets.given (c := s = w.st) (fun w' hw' => hw'.2.symm.trans hw'.1.2)
        ?_
      rintro rfl
      refine Meets.when (fun _ => ?_) fun _ _ hw' => hw'.1.1
      refine Meets.bind (R := fun _ w' => AllSent w'.calls → w'.st = w.st ∧
        taken w'.calls = flushed w'.calls ∧
        batchSends w'.calls ++ messagesOf w.st.batch w.st (List.range maxClients) = due w'.calls)
        (Meets.call ?_) fun _ => ?_
      · rintro w' ⟨⟨hw', -⟩, hst⟩ hs'
        obtain ⟨h1, h2, -⟩ := hw' hs'.tail
        rw [hst, List.take_nil, List.append_nil] at h1
        refine ⟨hst, h1, ?_⟩
        exact (congrArg (· ++ _) h2).trans
          (congrArg (fun t => due w'.calls ++ messagesOf w.st.batch t (List.range maxClients))
            hst.symm)
      refine Meets.bind (R := fun _ w' => AllSent w'.calls →
        Flushing w.st.batch w.st (List.range maxClients) w') (Meets.modify fun w' hw' hs' => ?_)
          fun _ => ?_
      · obtain ⟨hst, h1, h2⟩ := hw' hs'
        have hclients : w'.st.clients = w.st.clients := congrArg Daemon.clients hst
        exact ⟨h1, h2, hclients, rfl⟩
      refine (flushClients_flushing hfit w.st _).mono (fun _ hw' => hw') fun _ w' hw' hs' => ?_
      obtain ⟨h1, h2, -, h4⟩ := hw' hs'
      refine ⟨?_, (List.append_nil _).symm.trans h2, ?_, ?_⟩
      · rw [h4, List.take_nil, List.append_nil, List.append_nil, h1]
      · rw [h4]
        exact fun a ha => nomatch ha
      · rw [h4]
        exact Nat.zero_le _
    exact hflush env w ⟨hw, rfl⟩
  · exact fun hs' => absurd hs' (unsent_clients.flushBatch env w hs)

/-! ## Every run -/

theorem accounted_reads : ClientReads (Accounted []) where
  asked _ _ hw := hw.of_state rfl rfl
  message _ _ _ hw := hw.call rfl
  close _ _ hw := hw.call rfl
  clients _ _ hw := hw.of_state rfl rfl
  send i type msg htype := by
    unfold clientSend clientClose modifyClient
    refine Keeps.when fun _ => Keeps.bind (Meets.ask fun _ w hw => hw.of_state rfl rfl) fun ok => ?_
    refine Keeps.bind (Meets.call fun w hw => hw.call (decide_eq_false htype)) fun _ =>
      Keeps.when fun _ => ?_
    refine Keeps.bind (Meets.call fun w hw => hw.call rfl) fun _ => ?_
    exact Meets.modify fun w hw => hw.of_state rfl rfl

theorem accounted_ordinary : Ordinary (Accounted []) :=
  { accounted_improvs with
    write := fun _ _ _ hw => hw.call rfl
    read := fun _ _ hw => hw.call rfl
    packet := handlePacket_accounted
    poll := fun _ _ hw => hw.call rfl
    ended := fun _ _ hw => hw.call rfl
    scanning := fun _ _ hw => hw.of_state rfl rfl
    advertising := fun _ _ hw => hw.of_state rfl rfl
    improv := fun _ _ hw => hw.of_state rfl rfl
    checkAt := fun _ _ hw => hw.of_state rfl rfl
    clients := accounted_reads.readClients
    flush := flushBatch_accounted }

theorem setup_accounted : Keeps (Accounted []) setup := by
  unfold setup setupInfo
  have hask {α : Type} (f : Answer → α) : Keeps (Accounted []) (ask f) :=
    Meets.ask fun _ w hw => hw.of_state rfl rfl
  refine Keeps.bind ?_ fun _ => (hask _).bind fun led => ?_
  · refine (hask _).bind fun name => (hask _).bind fun mac => (hask _).bind fun model =>
      Keeps.get fun s => ?_
    exact Meets.modify fun w hw => hw.of_state rfl rfl
  · refine Keeps.bind (Meets.modify fun w hw => hw.of_state rfl rfl) fun _ => ?_
    exact Meets.modify fun w hw => hw.of_state rfl rfl

theorem main_accounted (proxy improv : Bool) (n : Nat) : Keeps (Accounted [])
    (main proxy improv n) := by
  refine main_meets (J := fun _ => Accounted []) (K := Accounted [])
    (fun _ _ hw => hw.of_state rfl rfl)
    (fun _ _ _ hw => hw.call rfl) (fun _ _ hw => hw.of_state rfl rfl)
      (fun _ _ hw => hw.of_state rfl rfl) ?_
    setup_accounted (fun _ _ hw => hw.of_state rfl rfl) (fun _ hw => hw.of_state rfl rfl) ?_
      (fun _ hw => hw)
    (fun _ hw => hw) (fun _ hw => hw) proxy improv
  · exact accounted_ordinary.toCommands.hciInit (J := Accounted [])
      (fun _ _ hw => hw.of_state rfl rfl)
      (fun _ _ _ hw => hw.of_state rfl rfl) (fun _ hw => hw.of_state rfl rfl)
        (fun _ hw => hw) fun _ hw => hw
  · refine (accounted_ordinary.runAndStop (Meets.call fun w hw => hw.call rfl) n).mono (fun w hw =>
      ?_)
      fun _ _ hw => hw
    exact hw.call rfl

/-- An event with `n` reports that are alike. -/
def adverts (n : Nat) : List UInt8 :=
  [0x04, 0x3e, UInt8.ofNat (2 + 10 * n), 0x02, UInt8.ofNat n] ++
    (List.replicate n [0x00, 0x00, 1, 2, 3, 4, 5, 6, 0x00, 0xc0]).flatten

/-- A round that reads a packet while the batch is not empty. -/
def packetRound (p : List UInt8) : List Answer :=
  [{}, {}, { poll := some { hci := true } }, { read := .packet p }, {}]

/-- The proxy: a client connects and subscribes, the scan starts, and an event with five reports
comes. -/
def subscribedRun : List Answer :=
  let complete op ret : Answer := { arrivals := [commandComplete op ret] }
  [{}, { fd := some 3 }, {},
    {}, complete 0x0c03 [], {}, complete 0x0c01 [], {}, complete 0x2001 [],
    {}, complete 0x1009 [1, 2, 3, 4, 5, 6], {}, complete 0x2002 [0x1b, 0x00, 0x04],
    {}, {}, {}, {}, { fd := some 4 },
    {}, {}, { poll := some { listener := true } }, { fd := some 5 },
    {}, {}, { poll := some { clients := fun i => i = 0 } }, { recv := .bytes [0x00, 0x00, 66] },
    {}, {}, complete 0x200b [], {}, complete 0x200c [],
    {}, { poll := some { hci := true } }, { read := .packet (adverts 5) }, {}, {}]

end Esp32S31.BleHa
