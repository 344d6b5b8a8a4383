import Esp32S31.BleHa.Rounds
import Esp32S31.Lib.Monitor

/-!
# The sizes of the ATT packets

Three places compute a limit: `main` the largest MTU, `l2cap_frame` the room for a response, and
`gatt_handle` the smaller of the room and the MTU. `Sized` is what they agree on, from the ACL
length that the controller reported.

**`att_sizes`**: from the start of the loop on, the MTU stays between 23 and its limit, every
response and notification fits the MTU, and `acl_send` has room for everything that it is given.
-/

namespace Esp32S31.BleHa

open Esp32S31.Lib Prog Monitor

/-! ## The length of a response -/

/-- The entries of Read By Type leave two bytes of the room for the head. -/
theorem readEntries_length {g : Gatt} {group : Bool} {want : List UInt8} {max : Nat} :
    ∀ {hs : List Nat} {acc : List UInt8} {entry : Nat} {r : List UInt8 × Nat},
      2 + acc.length ≤ max → readEntries g group want max hs acc entry = .ok r →
        2 + r.1.length ≤ max
  | [], acc, entry, r, hacc, h => by
    cases h
    exact hacc
  | h :: hs, acc, entry, r, hacc, hr => by
    unfold readEntries at hr
    split at hr
    · exact readEntries_length hacc hr
    · split at hr
      · split at hr
        · cases hr
          exact hacc
        · cases hr
      · rename_i v hv
        simp only [] at hr
        have hel : (if group then 4 else 2) + v.length =
            2 + (if group then put16 (groupEnd h) else []).length + v.length := by
          cases group <;> rfl
        rw [hel] at hr
        generalize (if group then put16 (groupEnd h) else []) = ends at hr
        split at hr
        · cases hr
          exact hacc
        · split at hr
          · cases hr
            exact hacc
          · refine readEntries_length ?_ hr
            simp only [List.length_append, put16, List.length_cons, List.length_nil]
            omega

theorem readByType_length {g : Gatt} {req : List UInt8} {max : Nat} (h : 5 ≤ max) :
    (readByType g req max).length ≤ max := by
  unfold readByType
  simp only []
  split
  · exact h
  · split
    · exact h
    · rename_i acc entry he
      split
      · exact h
      · have hl : 2 + acc.length ≤ max :=
          readEntries_length (r := (acc, entry)) (by simp only [List.length_nil]; omega) he
        simp only [List.length_cons]
        omega

theorem infoEntries_length {max : Nat} : ∀ (hs : List Nat) (acc : List UInt8) (tl : Nat),
    2 + acc.length ≤ max → 2 + (infoEntries max hs acc tl).1.length ≤ max
  | [], acc, tl, hacc => hacc
  | h :: hs, acc, tl, hacc => by
    unfold infoEntries
    simp only []
    split
    · exact hacc
    · rename_i hc
      refine infoEntries_length hs _ _ ?_
      simp only [List.length_append, put16, List.length_cons, List.length_nil]
      omega

theorem findInfo_length {req : List UInt8} {max : Nat} (h : 5 ≤ max) :
    (findInfo req max).length ≤ max := by
  unfold findInfo
  simp only []
  split
  · exact h
  · split
    · exact h
    · have := infoEntries_length (handles (get16 req 1) (get16 req 3)) [] 0
        (show 2 + ([] : List UInt8).length ≤ max by simp only [List.length_nil]; omega)
      simp only [List.length_cons]
      omega

theorem valueEntries_length (uuid : List UInt8) (primary : Bool) (max : Nat) :
    ∀ (hs : List Nat) (acc : List UInt8), 1 + acc.length ≤ max →
      1 + (valueEntries uuid primary max hs acc).length ≤ max
  | [], acc, hacc => hacc
  | h :: hs, acc, hacc => by
    unfold valueEntries
    split
    · exact valueEntries_length uuid primary max hs acc hacc
    · rename_i hc
      refine valueEntries_length uuid primary max hs _ ?_
      simp only [List.length_append, put16, List.length_cons, List.length_nil]
      omega

theorem findByValue_length {req : List UInt8} {max : Nat} (h : 5 ≤ max) :
    (findByValue req max).length ≤ max := by
  unfold findByValue
  simp only []
  split
  · exact h
  · split
    · exact h
    · have := valueEntries_length (req.drop 7) (get16 req 5 = 0x2800) max
        (handles (get16 req 1) (get16 req 3)) []
        (show 1 + ([] : List UInt8).length ≤ max by simp only [List.length_nil]; omega)
      simp only [List.length_cons]
      omega

theorem readValue_length {g : Gatt} {req : List UInt8} {max : Nat} (h : 5 ≤ max) :
    (readValue g req max).length ≤ max := by
  unfold readValue
  simp only []
  generalize (if byte req 0 = 0x0c ∧ 5 ≤ req.length then get16 req 3 else 0) = off
  split
  · exact h
  · split
    · exact h
    · simp only [List.length_cons, List.length_take]
      omega

theorem prepareWrite_length {g : Gatt} {req : List UInt8} {max : Nat} (h : 5 ≤ max) :
    (prepareWrite g req max).2.length ≤ max := by
  unfold prepareWrite
  simp only []
  split
  · exact h
  · split
    · exact h
    · split
      · exact h
      · split
        · simp only [List.length_take]
          omega
        · exact h

theorem length_ite {c : Prop} [Decidable c] {a b : Gatt × List UInt8 × Option (List UInt8)}
    {m : Nat}
    (ha : a.2.1.length ≤ m) (hb : b.2.1.length ≤ m) : (if c then a else b).2.1.length ≤ m := by
  split
  · exact ha
  · exact hb

theorem length_rsp_ite {c : Prop} [Decidable c] {a b : List UInt8} {m : Nat} (ha : a.length ≤ m)
    (hb : b.length ≤ m) : (if c then a else b).length ≤ m := by
  split
  · exact ha
  · exact hb

/-- **Every response** is at most as long as the room and the MTU. -/
theorem gattHandle_length {g : Gatt} (req : List UInt8) {max : Nat} (hm : 5 ≤ min max g.mtu) :
    (gattHandle g req max).2.1.length ≤ min max g.mtu := by
  have h0 : ([] : List UInt8).length ≤ min max g.mtu := Nat.zero_le _
  have h5 (op h e) : (errorRsp op h e).length ≤ min max g.mtu := hm
  have h1 (x : UInt8) : [x].length ≤ min max g.mtu :=
    Nat.le_trans (by simp only [List.length_cons, List.length_nil]; omega) hm
  unfold gattHandle
  refine length_ite h0 (length_ite (length_ite (h5 _ _ _) ?_) ?_)
  · exact Nat.le_trans (show 3 ≤ 5 by decide) hm
  refine length_ite (length_rsp_ite (findInfo_length hm) (h5 _ _ _)) ?_
  refine length_ite (length_rsp_ite (findByValue_length hm) (h5 _ _ _)) ?_
  refine length_ite (length_rsp_ite (readByType_length hm) (h5 _ _ _)) ?_
  refine length_ite (length_rsp_ite (readValue_length hm) (h5 _ _ _)) ?_
  refine length_ite (length_ite (h5 _ _ _) (length_rsp_ite (h5 _ _ _) (h1 _))) ?_
  refine length_ite (length_ite h0 h0) ?_
  refine length_ite (prepareWrite_length hm) (length_ite (h1 _) (length_ite h0 ?_))
  exact length_rsp_ite h0 (h5 _ _ _)

/-! ## The limits -/

/-- What the three limits agree on. -/
structure Sized (s : Daemon) : Prop where
  acl : 27 ≤ s.aclLen.toNat
  low : 23 ≤ s.gatt.mtu
  high : s.gatt.mtu ≤ s.gatt.mtuMax
  limit : s.gatt.mtuMax + 4 ≤ s.aclLen.toNat
  small : s.gatt.mtuMax ≤ 247

/-- Only the ACL length, the MTU and its limit count. -/
theorem Sized.congr {s s' : Daemon} (h : Sized s) (ha : s'.aclLen = s.aclLen)
    (hm : s'.gatt.mtu = s.gatt.mtu) (hx : s'.gatt.mtuMax = s.gatt.mtuMax) : Sized s' where
  acl := ha ▸ h.acl
  low := hm ▸ h.low
  high := hm ▸ hx ▸ h.high
  limit := ha ▸ hx ▸ h.limit
  small := hx ▸ h.small

theorem exchangeMtu_sized {g : Gatt} (m : Nat) (h : 23 ≤ g.mtu ∧ g.mtu ≤ g.mtuMax) :
    23 ≤ (exchangeMtu g m).mtu ∧ (exchangeMtu g m).mtu ≤ g.mtuMax := by
  show 23 ≤ max 23 _ ∧ max 23 _ ≤ g.mtuMax
  split <;> omega

/-- A request leaves the limits as they are, and the MTU between them. -/
theorem gattHandle_mtu {g : Gatt} (h : 23 ≤ g.mtu ∧ g.mtu ≤ g.mtuMax) (req : List UInt8)
    (max : Nat) : (23 ≤ (gattHandle g req max).1.mtu ∧ (gattHandle g req max).1.mtu ≤ g.mtuMax) ∧
      (gattHandle g req max).1.mtuMax = g.mtuMax :=
  gattHandle_induction (P := fun g' => (23 ≤ g'.mtu ∧ g'.mtu ≤ g.mtuMax) ∧ g'.mtuMax = g.mtuMax)
    ⟨h, rfl⟩ (fun m => ⟨exchangeMtu_sized m h, rfl⟩) (fun _ => ⟨h, rfl⟩) (fun _ => ⟨h, rfl⟩) req max

theorem Sized.request {s : Daemon} (h : Sized s) (req : List UInt8) (max : Nat) :
    Sized { s with gatt := (gattHandle s.gatt req max).1 } := by
  obtain ⟨⟨hlow, hhigh⟩, hmax⟩ := gattHandle_mtu ⟨h.low, h.high⟩ req max
  refine ⟨h.acl, hlow, ?_, ?_, ?_⟩
  · exact Nat.le_trans hhigh (Nat.le_of_eq hmax.symm)
  · exact Nat.le_trans (Nat.add_le_add_right (Nat.le_of_eq hmax) 4) h.limit
  · exact Nat.le_trans (Nat.le_of_eq hmax) h.small

/-- The room that `l2cap_frame` computes is that of the ACL length, up to its buffer. -/
theorem Sized.rspMax {s : Daemon} (h : Sized s) : s.rspMax = min (s.aclLen.toNat - 4) 256 := by
  have := h.acl
  have := s.aclLen.toNat_lt
  rw [Daemon.rspMax]
  omega

/-- A response to a request is at most as long as the room and the MTU, before and after it. -/
theorem Sized.response {s : Daemon} (h : Sized s) (req : List UInt8) :
    (gattHandle s.gatt req s.rspMax).2.1.length ≤ min s.rspMax s.gatt.mtu := by
  have := h.acl
  have := h.low
  refine gattHandle_length req ?_
  rw [h.rspMax]
  omega

/-! ## What is given to `acl_send` -/

/-- What has to fit at a call. -/
def Fits (s : Daemon) : Call → Prop
  | .att req rsp =>
    rsp = (gattHandle s.gatt req s.rspMax).2.1 ∧ rsp.length ≤ min s.rspMax s.gatt.mtu
  | .notification pdu => pdu.length ≤ s.gatt.mtu ∧ pdu.length ≤ 80
  | .aclSend _ data => data.length + 4 ≤ s.aclLen.toNat ∧ data.length + 9 ≤ 300
  | .hciWrite pkt _ => byte pkt 0 = hciAcl → pkt.length ≤ 300
  | _ => True

/-- Has the loop started? -/
def started : Monitor Call Daemon Bool := ⟨false, fun b k _ => some (b || k.isLoop)⟩

/-- What holds at a call behind the start of the loop. -/
def Room (b : Bool) (k : Call) (s : Daemon) : Prop := b = true → Sized s ∧ Fits s k

/-- The limits hold if the loop has started, which is `b`, for the ACL length `l`. -/
def Limits (b : Bool) (l : Nat) (t : Bool) (s : Daemon) : Prop :=
  t = b ∧ (b = true → Sized s ∧ s.aclLen.toNat = l)

abbrev SizedAt (b : Bool) (l : Nat) : World Call Daemon → Prop := Always started Room (Limits b l)

variable {b : Bool} {l : Nat}

theorem sized_call {k : Call} (hl : k.isLoop = false) {w : World Call Daemon} (h : SizedAt b l w)
    (hk : b = true → Sized w.st → w.st.aclLen.toNat = l → Fits w.st k) :
    SizedAt b l { w with calls := (k, w.st) :: w.calls } := by
  refine h.call (fun t ht hb => ?_) fun t t' ht hs => ?_
  · obtain ⟨rfl, ht⟩ := ht
    exact ⟨(ht hb).1, hk hb (ht hb).1 (ht hb).2⟩
  · have he : t' = (t || k.isLoop) := (Option.some.inj hs).symm
    rw [hl, Bool.or_false] at he
    exact he ▸ ht

theorem sized_of {w w' : World Call Daemon} (h : SizedAt b l w) (hc : w'.calls = w.calls)
    (ha : w'.st.aclLen = w.st.aclLen) (hm : w'.st.gatt.mtu = w.st.gatt.mtu)
    (hx : w'.st.gatt.mtuMax = w.st.gatt.mtuMax) : SizedAt b l w' :=
  h.of_state hc fun _ ht => ⟨ht.1, fun hb => ⟨(ht.2 hb).1.congr ha hm hx, ha ▸ (ht.2 hb).2⟩⟩

/-- The automaton refuses nothing. -/
theorem started_after : ∀ ks, ∃ t, started.after ks = some t
  | [] => ⟨false, rfl⟩
  | (k, s) :: ks => by
    obtain ⟨t, ht⟩ := started_after ks
    exact ⟨t || k.isLoop, (after_cons ht k s).trans rfl⟩

/-- It says whether there was a start. -/
theorem started_of_mem : ∀ {ks : List (Call × Daemon)}, (∃ e ∈ ks, e.1.isLoop = true) →
    started.after ks = some true
  | [], h => by
    obtain ⟨e, he, -⟩ := h
    cases he
  | (k, s) :: ks, h => by
    obtain ⟨t, ht⟩ := started_after ks
    refine (after_cons ht k s).trans (congrArg some ?_)
    obtain ⟨e, he, hl⟩ := h
    rcases List.mem_cons.mp he with rfl | he
    · exact (congrArg (t || ·) hl).trans (Bool.or_true t)
    · obtain rfl := Option.some.inj (ht.symm.trans (started_of_mem ⟨e, he, hl⟩))
      exact Bool.true_or _

theorem sized_now {w : World Call Daemon} (h : SizedAt b l w) (hb : b = true) :
    Sized w.st ∧ w.st.aclLen.toNat = l := by
  obtain ⟨t, ht⟩ := started_after w.calls
  exact (h.now t ht).2 hb

theorem length_hciAclFrame (handle cid : Nat) (data : List UInt8) :
    (hciAclFrame handle cid data).length = data.length + 9 := by
  simp only [hciAclFrame, put16, List.length_append, List.length_cons, List.length_nil]
  omega

/-- `acl_send` with something that fits the ACL length `l`. -/
theorem aclSend_sized (cid : Nat) {data : List UInt8}
    (hd : b = true → data.length + 4 ≤ l ∧ data.length ≤ 247) :
    Keeps (SizedAt b l) (aclSend cid data) := by
  unfold aclSend
  refine Keeps.bind (Meets.call fun w hw => sized_call rfl hw fun hb _ hl => ?_) fun _ =>
    Keeps.get fun s => ?_
  · have := hd hb
    exact ⟨hl ▸ this.1, by omega⟩
  cases s.conn with
  | none => exact Keeps.pure _
  | some handle =>
    refine Meets.ite (fun _ => Keeps.pure _) fun hfit => Keeps.ite (Keeps.pure _) ?_
    refine Keeps.bind (Meets.ask fun _ w hw => hw.asked) fun ok =>
      Keeps.bind (Meets.call fun w hw => ?_) fun _ =>
      Keeps.when fun _ => Meets.modify fun w hw => sized_of hw rfl rfl rfl rfl
    refine sized_call rfl hw fun _ _ _ _ => ?_
    rw [length_hciAclFrame]
    omega

theorem notify_sized (handle : Nat) (v : List UInt8) : Keeps (SizedAt b l) (notify handle v) := by
  unfold notify
  refine Meets.get fun s => Meets.given (c := b = true → Sized s ∧ s.aclLen.toNat = l) ?_ fun hs =>
    ?_
  · rintro w ⟨hw, rfl⟩
    exact sized_now hw
  refine Meets.when (fun _ => ?_) fun _ w hw => hw.1
  dsimp only
  generalize hlen : (if v.length + 3 > s.gatt.mtu then s.gatt.mtu - 3 else v.length) = len
  generalize hlen' : (if len + 3 > 80 then 80 - 3 else len) = len'
  -- the value is cut to the MTU and to the buffer
  have hpdu : (0x1b :: put16 handle ++ v.take len').length ≤ len' + 3 ∧ len' ≤ len ∧ len' ≤ 77 := by
    simp only [put16, List.length_append, List.length_cons, List.length_nil, List.length_take]
    split at hlen' <;> omega
  refine Meets.bind (R := fun _ => SizedAt b l) (Meets.call ?_) fun _ => aclSend_sized 4 fun hb =>
    ?_
  · rintro w ⟨hw, rfl⟩
    refine sized_call rfl hw fun _ hz _ => ?_
    have := hz.low
    exact ⟨by split at hlen <;> omega, by omega⟩
  · have := (hs hb).1.low
    have := (hs hb).1.high
    have := (hs hb).1.limit
    have := (hs hb).1.small
    have := (hs hb).2
    split at hlen <;> omega

theorem sized_improvs : Improvs (SizedAt b l) where
  asked _ _ hw := hw.asked
  call w k hk hw := by
    cases k <;> first | exact sized_call rfl hw fun _ _ _ => trivial | cases hk
  notify := notify_sized
  error _ _ hw := sized_of hw rfl rfl rfl rfl
  state _ _ hw := sized_of hw rfl rfl rfl rfl
  result _ _ hw := sized_of hw rfl rfl rfl rfl
  dirty _ _ hw := sized_of hw rfl rfl rfl rfl
  rpc _ _ hw := sized_of hw rfl rfl rfl rfl
  joinId _ _ hw := sized_of hw rfl rfl rfl rfl
  joinEnd _ _ hw := sized_of hw rfl rfl rfl rfl
  identifyEnd _ _ hw := sized_of hw rfl rfl rfl rfl
  doneAt _ _ hw := sized_of hw rfl rfl rfl rfl

/-! ## Runs -/

theorem l2capFrame_sized (cid : Nat) (p : List UInt8) : Keeps (SizedAt b l) (l2capFrame cid p) := by
  have hsmall {n : Nat} {w : World Call Daemon} (hw : SizedAt b l w) (hn : n ≤ 6) :
      b = true → n + 4 ≤ l ∧ n ≤ 247 := by
    intro hb
    have := (sized_now hw hb).1.acl
    have := (sized_now hw hb).2
    omega
  unfold l2capFrame
  refine Keeps.bind (Meets.call fun w hw => sized_call rfl hw fun _ _ _ => trivial) fun _ => ?_
  refine Meets.get fun s => Meets.ite (fun _ => ?_) fun _ => ?_
  · refine Meets.given (c := b = true → Sized s ∧ s.aclLen.toNat = l) ?_ fun hs => ?_
    · rintro w ⟨hw, rfl⟩
      exact sized_now hw
    refine Meets.bind (R := fun _ w => SizedAt b l w ∧ w.st = s) (Meets.call ?_) fun _ => ?_
    · rintro w ⟨hw, rfl⟩
      exact ⟨sized_call rfl hw fun _ hz _ => ⟨rfl, hz.response p⟩, rfl⟩
    refine Meets.bind (R := fun _ => SizedAt b l) (Meets.modify ?_) fun _ => ?_
    · rintro w ⟨hw, rfl⟩
      exact hw.of_state rfl fun t ht => ⟨ht.1, fun hb => ⟨(ht.2 hb).1.request p _, (ht.2 hb).2⟩⟩
    refine (sized_improvs.rpcCallback _).bind fun _ => Keeps.when fun _ => aclSend_sized 4 fun hb =>
      ?_
    have := (hs hb).1.response p
    have := (hs hb).1.high
    have := (hs hb).1.limit
    have := (hs hb).1.small
    have := (hs hb).2
    omega
  · refine Meets.ite (fun _ env w hw => ?_) fun _ => Meets.when (fun _ env w hw => ?_) fun _ w hw =>
      hw.1
    · refine aclSend_sized 5 ?_ env w hw.1
      exact hsmall hw.1 (Nat.le_refl 6)
    · refine aclSend_sized 6 ?_ env w hw.1
      exact hsmall hw.1 (show 2 ≤ 6 by decide)

theorem sized_packets : Packets (SizedAt b l) :=
  { sized_improvs with
    frame := l2capFrame_sized
    l2 := fun _ _ hw => sized_of hw rfl rfl rfl rfl
    packet := fun _ _ hw => sized_call rfl hw fun _ _ _ => trivial
    report := fun _ _ _ hw => sized_call rfl hw fun _ _ _ => trivial
    batch := fun _ _ hw => sized_of hw rfl rfl rfl rfl
    batchMs := fun _ _ hw => sized_of hw rfl rfl rfl rfl
    connected := fun _ _ hw => hw.of_state rfl fun _ ht => ⟨ht.1, fun hb =>
      ⟨⟨(ht.2 hb).1.acl, Nat.le_refl 23, Nat.le_trans (ht.2 hb).1.low (ht.2 hb).1.high,
        (ht.2 hb).1.limit, (ht.2 hb).1.small⟩, (ht.2 hb).2⟩⟩
    disconnected := fun _ hw => sized_of hw rfl rfl rfl rfl
    completed := fun _ _ hw => sized_of hw rfl rfl rfl rfl }

theorem sized_commands : Commands (SizedAt b l) where
  asked _ _ hw := hw.asked
  write w pkt ok hw := sized_call rfl hw fun _ _ _ h =>
    absurd h (show hciCmdPacket ≠ hciAcl by decide)
  read w pkt hw := sized_call rfl hw fun _ _ _ => trivial
  packet := sized_packets.handlePacket

theorem sized_clients : Clients (SizedAt b l) where
  asked _ _ hw := hw.asked
  call w k hk hw := by
    cases k <;> first | exact sized_call rfl hw fun _ _ _ => trivial | cases hk
  clients _ _ hw := sized_of hw rfl rfl rfl rfl
  batch _ _ hw := sized_of hw rfl rfl rfl rfl

theorem sized_ordinary : Ordinary (SizedAt b l) :=
  { sized_commands, sized_improvs with
    poll := fun _ _ hw => sized_call rfl hw fun _ _ _ => trivial
    ended := fun _ _ hw => sized_call rfl hw fun _ _ _ => trivial
    scanning := fun _ _ hw => sized_of hw rfl rfl rfl rfl
    advertising := fun _ _ hw => sized_of hw rfl rfl rfl rfl
    improv := fun _ _ hw => sized_of hw rfl rfl rfl rfl
    checkAt := fun _ _ hw => sized_of hw rfl rfl rfl rfl
    clients := sized_clients.readClients
    flush := sized_clients.flushBatch }

/-- The end of a run. -/
abbrev SizedRun : World Call Daemon → Prop := Always started Room fun t s => t = true → Sized s

theorem sizedRun_of {w : World Call Daemon} (h : SizedAt b l w) : SizedRun w :=
  h.mono fun _ ht hr => (ht.2 (ht.1.symm.trans hr)).1

/-- The limits are set before the loop. -/
theorem setup_sized :
    Meets (fun w => SizedAt false 0 w ∧ 27 ≤ w.st.aclLen.toNat) setup fun _ w => SizedAt false 0 w ∧
      Sized w.st := by
  unfold setup setupInfo
  have hask {α : Type} (f : Answer → α) :
      Keeps (fun w => SizedAt false 0 w ∧ 27 ≤ w.st.aclLen.toNat) (ask f) :=
    Meets.ask fun _ w hw => ⟨hw.1.asked, hw.2⟩
  refine Meets.bind (R := fun _ w => SizedAt false 0 w ∧ 27 ≤ w.st.aclLen.toNat) ?_ fun _ =>
    Meets.bind (hask _) fun led => ?_
  · refine (hask _).bind fun name => (hask _).bind fun mac => (hask _).bind fun model =>
      Keeps.get fun s => ?_
    exact Meets.modify fun w hw => ⟨sized_of hw.1 rfl rfl rfl rfl, hw.2⟩
  refine Meets.bind (R := fun _ w => SizedAt false 0 w ∧ 27 ≤ w.st.aclLen.toNat ∧
    w.st.gatt.mtu = 23)
    (Meets.modify fun w hw => ?_) fun _ => Meets.modify fun w hw => ?_
  · exact ⟨hw.1.of_state rfl fun t ht => ⟨ht.1, nofun⟩, hw.2, rfl⟩
  · obtain ⟨hw, hacl, hmtu⟩ := hw
    refine ⟨hw.of_state rfl fun t ht => ⟨ht.1, nofun⟩, hacl, ?_, ?_, ?_, ?_⟩
    · exact Nat.le_of_eq hmtu.symm
    · show w.st.gatt.mtu ≤ min (w.st.aclLen.toNat - 4) 247
      omega
    · show min (w.st.aclLen.toNat - 4) 247 + 4 ≤ w.st.aclLen.toNat
      omega
    · exact Nat.min_le_right _ _

theorem runAndStop_sized (n : Nat) :
    Meets (fun w => SizedAt false 0 w ∧ Sized w.st) (runAndStop n) fun _ => SizedRun := by
  rintro env w ⟨hw, hz⟩
  have hloop : SizedAt true w.st.aclLen.toNat { w with calls := (.loop, w.st) :: w.calls } := by
    refine hw.call (fun t ht hr => ?_) fun t t' ht hs => ?_
    · exact absurd (ht.1.symm.trans hr) (by decide)
    · obtain rfl := Option.some.inj hs
      exact ⟨Bool.or_true t, fun _ => ⟨hz, rfl⟩⟩
  refine sizedRun_of (sized_ordinary.runAndStop (Meets.call fun w hw => ?_) n env w hloop)
  exact sized_call rfl hw fun _ _ _ => trivial

/-- **The sizes in every run.** From the start of the loop on, at every call and after any number of
rounds, the MTU is at least 23 and at most its limit, which leaves four bytes of the ACL length;
every response and notification fits the MTU, and everything that `acl_send` is given fits its
limits. -/
theorem att_sizes (env : Nat → Answer) (proxy improv : Bool) (n : Nat) :
    (∀ as k s bs, ((main proxy improv n).run env boot).2.calls = as ++ (k, s) :: bs →
      (∃ e ∈ bs, e.1.isLoop = true) → Sized s ∧ Fits s k) ∧
    ((∃ e ∈ ((main proxy improv n).run env boot).2.calls, e.1.isLoop = true) →
      Sized ((main proxy improv n).run env boot).2.st) := by
  have h : Meets (SizedAt false 0) (main proxy improv n) fun _ => SizedRun := by
    refine main_meets (J := fun ok w => SizedAt false 0 w ∧ (ok = true → 27 ≤ w.st.aclLen.toNat))
      (K := fun w => SizedAt false 0 w ∧ Sized w.st) (fun _ _ hw => hw.asked) ?_ ?_ ?_ ?_ ?_
      (fun _ _ hw => ⟨hw.1.asked, hw.2⟩) ?_ (runAndStop_sized n) (fun _ => sizedRun_of)
      (fun _ hw => sizedRun_of hw.1) (fun _ hw => sizedRun_of hw.1) proxy improv
    · exact fun w cmd r hw => sized_call rfl hw fun _ _ _ => trivial
    · exact fun w b hw => sized_of hw rfl rfl rfl rfl
    · exact fun w b hw => sized_of hw rfl rfl rfl rfl
    · refine sized_commands.hciInit (J := SizedAt false 0)
        (fun w b hw => sized_of hw rfl rfl rfl rfl) ?_ ?_
        (fun w hw => hw) fun w hw => ⟨hw, nofun⟩
      · exact fun w l c hw => hw.of_state rfl fun t ht => ⟨ht.1, nofun⟩
      · refine fun w hw => ⟨hw.of_state rfl fun t ht => ⟨ht.1, nofun⟩, fun _ => ?_⟩
        show 27 ≤ (if w.st.aclLen < 27 then 27 else w.st.aclLen).toNat
        split
        · exact Nat.le_refl 27
        · exact UInt16.le_iff_toNat_le.mp (UInt16.not_lt.mp ‹_›)
    · exact setup_sized.mono (fun w hw => ⟨hw.1, hw.2 rfl⟩) fun _ _ hw => hw
    · exact fun w hw => ⟨sized_of hw.1 rfl rfl rfl rfl, hw.2.congr rfl rfl rfl⟩
  have hw := h env boot ⟨fun t ht => ⟨(Option.some.inj ht).symm, nofun⟩, fun as k s bs he => ?_⟩
  · exact ⟨fun as k s bs he hl => hw.past as k s bs he true (started_of_mem hl) rfl,
      fun hl => hw.now true (started_of_mem hl) rfl⟩
  · cases as <;> cases he

end Esp32S31.BleHa
