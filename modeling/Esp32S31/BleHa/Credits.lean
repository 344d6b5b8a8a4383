import Esp32S31.BleHa.Rounds
import Esp32S31.Lib.Monitor
import Mathlib.Logic.Basic

/-!
# The buffers of the controller

`credit` is the controller as the program sees it: one link at a time, the packets of the link that
it holds, and the number of buffers that it reported before the loop. It refuses the events of a
controller that breaks the rules: a second link, a packet completed that it does not hold, the end
of a link that is not open, half a report.

**`acl_credits`**: for every controller that keeps the rules, the credits and the packets that it
holds make up its buffers at every call of a run, and no packet is written while it has no free
buffer.
-/

namespace Esp32S31.BleHa

open Esp32S31.Lib Prog Monitor

/-! ## The controller -/

/-- What the controller has. -/
structure Ctl where
  link : Option Nat
  /-- the packets of the link that it was given and has not completed -/
  held : Nat
  /-- the command that it has to answer -/
  op : Nat
  /-- the buffers that it reported; 0 until then -/
  reported : Nat
  /-- the loop has started -/
  running : Bool
  /-- the buffers that the loop started with -/
  buffers : Nat
  deriving DecidableEq

/-- An event that the program reads. -/
def Ctl.event (c : Ctl) (p : List UInt8) : Option Ctl :=
  if byte p 1 = 0x3e ∧ byte p 3 = 0x01 then
    -- LE Connection Complete, with the status behind the subevent
    if byte p 4 ≠ 0 then some c
    else if 7 ≤ p.length ∧ c.link = none then some { c with link := some (get16 p 5 % 4096) }
      else none
  else if byte p 1 = 0x05 then
    if 6 ≤ p.length ∧ byte p 3 = 0 ∧ c.link = some (get16 p 4 % 4096) then
      some { c with link := none, held := 0 }
    else none
  else if byte p 1 = 0x13 then
    if 8 ≤ p.length ∧ byte p 3 = 1 ∧ get16 p 6 ≤ c.held then
      some { c with held := c.held - get16 p 6 }
    else none
  else some c

/-- The answer to LE Read Buffer Size or Read Buffer Size with the status 0. -/
def Ctl.answer (c : Ctl) (p : List UInt8) : Option Ctl :=
  if byte p 0 = hciEvt ∧ byte p 1 = 0x0e ∧ 7 ≤ p.length ∧ get16 p 4 = c.op ∧ byte p 6 = 0 then
    if c.op = 0x2002 then
      -- the length 0 means the buffers of Read Buffer Size
      if p.length < 10 then none
      else some (if get16 p 7 = 0 then c else { c with reported := (byte p 9).toNat })
    else if c.op = 0x1005 then
      if p.length < 12 then none else some { c with reported := get16 p 10 }
    else some c
  else if byte p 0 = hciEvt ∧ byte p 1 = 0x0f ∧ 7 ≤ p.length ∧ get16 p 5 = c.op ∧ byte p 3 = 0 ∧
      (c.op = 0x2002 ∨ c.op = 0x1005) then none
  else some c

/-- An ACL packet was written. -/
def Call.isAcl : Call → Bool
  | .hciWrite pkt ok => ok && byte pkt 0 = hciAcl
  | _ => false

/-- One call of the program. -/
def Ctl.step (c : Ctl) (k : Call) (_ : Daemon) : Option Ctl :=
  match k with
  | .loop => some { c with running := true, buffers := c.reported }
  | .hciWrite pkt ok =>
    if (Call.hciWrite pkt ok).isAcl then some { c with held := c.held + 1 }
    else if ok ∧ byte pkt 0 = hciCmdPacket then some { c with op := get16 pkt 1 }
    else some c
  | .hciRead pkt => c.answer pkt
  | .packet p => if byte p 0 = hciEvt then c.event p else some c
  | _ => some c

def credit : Monitor Call Daemon Ctl := ⟨⟨none, 0, 0, 0, false, 0⟩, Ctl.step⟩

/-- The counters agree with the controller, which has `n` buffers. -/
structure Tally (n : Nat) (c : Ctl) (s : Daemon) : Prop where
  conn : s.conn = c.link
  sent : s.connSent.toNat = c.held
  idle : c.link = none → c.held = 0
  sum : s.aclCredits.toNat + c.held = n
  buffers : c.buffers = n
  word : n < 2 ^ 16

variable {n : Nat}

/-- What holds at a call: the counters agree with the controller, and a packet that is written finds
a free buffer. The loop starts with the buffers that were reported, all of them free. -/
def Counted (c : Ctl) (k : Call) (s : Daemon) : Prop :=
  if k.isLoop then
    s.conn = c.link ∧ s.aclCredits.toNat = c.reported ∧ s.connSent = 0 ∧ c.held = 0
  else Tally c.buffers c s ∧ (k.isAcl = true → c.held < c.buffers)

theorem counted_of {c : Ctl} {k : Call} {s : Daemon} (hk : k.isLoop = false) (h : Tally n c s)
    (ha : k.isAcl = true → c.held < n) : Counted c k s := by
  obtain rfl := h.buffers
  rw [Counted, if_neg (Bool.eq_false_iff.mp hk)]
  exact ⟨h, ha⟩

/-- The counters agree with the controller, and `V` is true of the command that it has to answer, of
the buffers that it reported, and of the start of the loop. -/
structure Agree (V : Nat → Nat → Bool → Prop) (n : Nat) (c : Ctl) (s : Daemon) :
    Prop extends Tally n c s where
  view : V c.op c.reported c.running

/-- The same, and the counters did agree at every call. -/
abbrev Tallied (V : Nat → Nat → Bool → Prop) (n : Nat) : World Call Daemon → Prop :=
  Always credit Counted (Agree V n)

variable {V : Nat → Nat → Bool → Prop}

/-! ## Sending -/

/-- A call that the controller takes no notice of. -/
theorem tallied_call {k : Call} (hl : k.isLoop = false) (hk : ∀ c s, Ctl.step c k s = some c)
    (ha : k.isAcl = false) {w : World Call Daemon} (h : Tallied V n w) :
    Tallied V n { w with calls := (k, w.st) :: w.calls } := by
  refine h.call (fun c hc => counted_of hl hc.toTally fun ht => ?_) fun c c' hc hs => ?_
  · rw [ha] at ht
    cases ht
  · obtain rfl := Option.some.inj ((hk c w.st).symm.trans hs)
    exact hc

/-- A change of the state that the counters do not see. -/
theorem tallied_of {w w' : World Call Daemon} (h : Tallied V n w) (hcalls : w'.calls = w.calls)
    (hconn : w'.st.conn = w.st.conn) (hsent : w'.st.connSent = w.st.connSent)
    (hcredits : w'.st.aclCredits = w.st.aclCredits) : Tallied V n w' := by
  refine h.of_state hcalls fun c hc =>
    ⟨⟨hconn.trans hc.conn, ?_, hc.idle, ?_, hc.buffers, hc.word⟩, hc.view⟩
  · rw [hsent]
    exact hc.sent
  · rw [hcredits]
    exact hc.sum

/-! Counters of 16 bits. -/

theorem toNat_pos {a : UInt16} (h : a ≠ 0) : 0 < a.toNat := by
  refine Nat.pos_of_ne_zero fun h0 => h ?_
  exact UInt16.toNat_inj.mp h0

theorem toNat_pred {a : UInt16} (h : a ≠ 0) : (a - 1).toNat + 1 = a.toNat := by
  have := toNat_pos h
  have := a.toNat_lt
  rw [UInt16.toNat_sub]
  simp only [UInt16.reduceToNat]
  omega

theorem toNat_add_of_lt {a b : UInt16} (h : a.toNat + b.toNat < 2 ^ 16) :
    (a + b).toNat = a.toNat + b.toNat := by
  rw [UInt16.toNat_add]
  exact Nat.mod_eq_of_lt h

theorem toNat_sub_of_le {a b : UInt16} (h : b.toNat ≤ a.toNat) :
    (a - b).toNat = a.toNat - b.toNat := by
  have := a.toNat_lt
  rw [UInt16.toNat_sub]
  omega

/-- A packet was given to the controller, and the counters do not know it yet. -/
structure Given (V : Nat → Nat → Bool → Prop) (n : Nat) (c : Ctl) (s : Daemon) : Prop where
  conn : s.conn = c.link
  sent : s.connSent.toNat + 1 = c.held
  link : c.link ≠ none
  sum : s.aclCredits.toNat + c.held = n + 1
  free : s.aclCredits ≠ 0
  buffers : c.buffers = n
  word : n < 2 ^ 16
  view : V c.op c.reported c.running

theorem aclSend_tallied (cid : Nat) (data : List UInt8) : Keeps (Tallied V n)
    (aclSend cid data) := by
  unfold aclSend
  refine Keeps.bind (Meets.call fun w hw => tallied_call rfl (fun _ _ => rfl) rfl hw) fun _ => ?_
  refine Meets.get fun s => ?_
  cases hconn : s.conn with
  | none => exact Meets.pure fun w hw => hw.1
  | some handle =>
    refine Meets.ite (fun _ => Meets.pure fun w hw => hw.1) fun _ => ?_
    refine Meets.ite (fun _ => Meets.pure fun w hw => hw.1) fun hfree => ?_
    refine Meets.bind (R := fun _ w => Tallied V n w ∧ w.st = s)
      (Meets.ask fun _ w hw => ⟨hw.1.asked, hw.2⟩) fun ok => ?_
    cases ok with
    | false =>
      refine Meets.bind (R := fun _ => Tallied V n) (Meets.call fun w hw => ?_) fun _ =>
        Meets.when (fun h => nomatch h) fun _ _ hw => hw
      exact tallied_call rfl (fun _ _ => rfl) rfl hw.1
    | true =>
      refine Meets.bind (R := fun _ => Always credit Counted (Given V n)) (Meets.call ?_) fun _ =>
        Meets.when (fun _ => Always.meets_modify fun c s hc => ?_) fun h => absurd rfl h
      · rintro w ⟨hw, rfl⟩
        refine hw.call (fun c hc => counted_of rfl hc.toTally fun _ => ?_) fun c c' hc hs => ?_
        · have := hc.sum
          have := toNat_pos hfree
          omega
        · obtain rfl := Option.some.inj hs
          refine ⟨hc.conn, congrArg (· + 1) hc.sent, ?_, ?_, hfree, hc.buffers, hc.word, hc.view⟩
          · exact fun h => nomatch hconn.symm.trans (hc.conn.trans h)
          · exact congrArg (· + 1) hc.sum
      · have hsum := hc.sum
        have hsent := hc.sent
        have hword := hc.word
        have hpred := toNat_pred hc.free
        refine ⟨⟨hc.conn, (toNat_add_of_lt ?_).trans hsent, fun h => absurd h hc.link, ?_,
          hc.buffers, hword⟩, hc.view⟩
        · show s.connSent.toNat + 1 < 2 ^ 16
          have := toNat_pos hc.free
          omega
        · show (s.aclCredits - 1).toNat + c.held = n
          omega

theorem notify_tallied (handle : Nat) (v : List UInt8) : Keeps (Tallied V n) (notify handle v) := by
  unfold notify
  refine Keeps.get fun s => Keeps.when fun _ => Keeps.bind (Meets.call fun w hw => ?_) fun _ =>
    aclSend_tallied _ _
  exact tallied_call rfl (fun _ _ => rfl) rfl hw

theorem tallied_improvs : Improvs (Tallied V n) where
  asked _ _ hw := hw.asked
  call w k hk hw := by
    cases k <;> first | exact tallied_call rfl (fun _ _ => rfl) rfl hw | cases hk
  notify := notify_tallied
  error _ _ hw := tallied_of hw rfl rfl rfl rfl
  state _ _ hw := tallied_of hw rfl rfl rfl rfl
  result _ _ hw := tallied_of hw rfl rfl rfl rfl
  dirty _ _ hw := tallied_of hw rfl rfl rfl rfl
  rpc _ _ hw := tallied_of hw rfl rfl rfl rfl
  joinId _ _ hw := tallied_of hw rfl rfl rfl rfl
  joinEnd _ _ hw := tallied_of hw rfl rfl rfl rfl
  identifyEnd _ _ hw := tallied_of hw rfl rfl rfl rfl
  doneAt _ _ hw := tallied_of hw rfl rfl rfl rfl

theorem tallied_clients : Clients (Tallied V n) where
  asked _ _ hw := hw.asked
  call w k hk hw := by
    cases k <;> first | exact tallied_call rfl (fun _ _ => rfl) rfl hw | cases hk
  clients _ _ hw := tallied_of hw rfl rfl rfl rfl
  batch _ _ hw := tallied_of hw rfl rfl rfl rfl

/-! ## Packets -/

theorem tallied_acls : Acls (Tallied V n) :=
  { tallied_improvs with
    frame := tallied_improvs.l2capFrame (fun _ _ _ hw => tallied_call rfl (fun _ _ => rfl) rfl hw)
      aclSend_tallied (fun _ _ hw => tallied_call rfl (fun _ _ => rfl) rfl hw) fun _ _ hw =>
        tallied_of hw rfl rfl rfl rfl
    l2 := fun _ _ hw => tallied_of hw rfl rfl rfl rfl }

/-- The controller has gone on with the packet `p`, and the program has not handled it yet. -/
def Arrived (V : Nat → Nat → Bool → Prop) (n : Nat) (p : List UInt8) (c' : Ctl) (s : Daemon) :
    Prop :=
  ∃ c, Agree V n c s ∧ (if byte p 0 = hciEvt then c.event p else some c) = some c'

/-- Nothing that the counters see has arrived. -/
theorem tally_of_arrived {p : List UInt8} (hp : ∀ c : Ctl, byte p 0 = hciEvt → c.event p = some c)
    {c' : Ctl}
    {s : Daemon} (h : Arrived V n p c' s) : Agree V n c' s := by
  obtain ⟨c, hc, he⟩ := h
  split at he
  · obtain rfl := Option.some.inj ((hp c ‹_›).symm.trans he)
    exact hc
  · obtain rfl := Option.some.inj he
    exact hc

/-- An event that the controller takes no notice of. -/
theorem event_other {c : Ctl} {p : List UInt8} (h₁ : ¬ (byte p 1 = 0x3e ∧ byte p 3 = 0x01))
    (h₂ : byte p 1 ≠ 0x05) (h₃ : byte p 1 ≠ 0x13) : c.event p = some c := by
  rw [Ctl.event, if_neg h₁, if_neg h₂, if_neg h₃]

/-- A link is open: LE Connection Complete with the status 0. -/
theorem connected_tally {p : List UInt8} {c' : Ctl} {s : Daemon} (h : Arrived V n p c' s)
    (he : byte p 0 = hciEvt) (h1 : byte p 1 = 0x3e) (h3 : byte p 3 = 0x01) (h4 : byte p 4 = 0) :
    7 ≤ p.length ∧ Agree V n c' (connected (get16 p 5 % 4096) s) := by
  obtain ⟨c, hc, hs⟩ := h
  rw [if_pos he, Ctl.event, if_pos ⟨h1, h3⟩, if_neg (not_not.mpr h4)] at hs
  obtain ⟨⟨hl, hn⟩, hs⟩ := Option.ite_none_right_eq_some.mp hs
  obtain rfl := Option.some.inj hs
  exact ⟨hl, ⟨rfl, hc.sent, nofun, hc.sum, hc.buffers, hc.word⟩, hc.view⟩

theorem leMeta_tallied (p : List UInt8) (he : byte p 0 = hciEvt) (h1 : byte p 1 = 0x3e) :
    Meets (Always credit Counted (Arrived V n p)) (leMeta (p.drop 1)) fun _ => Tallied V n := by
  have hnothing : ¬ (byte p 3 = 0x01 ∧ byte p 4 = 0) →
      ∀ w, Always credit Counted (Arrived V n p) w → Tallied V n w := by
    refine fun hn w hw => hw.mono fun c' h => tally_of_arrived (fun c _ => ?_) h
    by_cases h3 : byte p 3 = 0x01
    · rw [Ctl.event, if_pos ⟨h1, h3⟩, if_pos fun h4 => hn ⟨h3, h4⟩]
    · exact event_other (fun h => h3 h.2) (by rw [h1]; decide) (by rw [h1]; decide)
  unfold leMeta
  refine Meets.get fun s => Meets.mono (P := Always credit Counted (Arrived V n p)) ?_
    (fun w hw => hw.1)
    fun _ _ hw => hw
  by_cases hl : (p.drop 1).length < 3
  · rw [if_pos hl]
    refine Meets.pure (hnothing fun h => ?_)
    rw [List.length_drop] at hl
    rw [byte, List.getD_eq_getElem?_getD, List.getElem?_eq_none (by omega)] at h
    exact absurd h.1 (by decide)
  rw [if_neg hl]
  by_cases h2 : byte (p.drop 1) 2 = 0x02 ∧ s.scanning = true
  · rw [if_pos h2]
    rw [byte_drop] at h2
    refine Meets.mono (P := Tallied V n) ?_ (hnothing fun h => ?_) fun _ _ hw => hw
    · refine Keeps.bind (Keeps.when fun _ => ?_) fun _ => Keeps.each (fun a => ?_) _
      · exact Keeps.bind (Meets.ask fun _ w hw => hw.asked) fun t =>
          Meets.modify fun w hw => tallied_of hw rfl rfl rfl rfl
      · refine Keeps.get fun s => Keeps.bind (Meets.call fun w hw => ?_) fun _ =>
          Keeps.when fun _ => ?_
        · exact tallied_call rfl (fun _ _ => rfl) rfl hw
        · exact Meets.modify fun w hw => tallied_of hw rfl rfl rfl rfl
    · exact absurd (h2.1.symm.trans h.1) (by decide)
  · rw [if_neg h2, byte_drop, byte_drop]
    refine Meets.when (fun h => ?_) fun hn w hw => ?_
    · have hg : get16 (p.drop 1) 4 = get16 p 5 := by rw [get16, get16, byte_drop, byte_drop]
      rw [hg]
      exact Always.meets_modify fun c' s ha => (connected_tally ha he h1 h.1 h.2.2).2
    · by_cases hopen : byte p 3 = 0x01 ∧ byte p 4 = 0
      · -- the event is too short for the program, so the controller did not send it
        refine hw.mono fun c' ha => absurd (connected_tally ha he h1 hopen.1 hopen.2).1 fun hlen =>
          hn ?_
        rw [List.length_drop]
        exact ⟨hopen.1, by omega, hopen.2⟩
      · exact hnothing hopen w hw

theorem disconnected_tally {p : List UInt8} {c' : Ctl} {s : Daemon} (h : Arrived V n p c' s)
    (he : byte p 0 = hciEvt) (h1 : byte p 1 = 0x05) :
    (6 ≤ p.length ∧ s.conn = some (get16 p 4 % 4096)) ∧ Agree V n c' (disconnected s) := by
  obtain ⟨c, hc, hs⟩ := h
  rw [if_pos he, Ctl.event, if_neg fun h => absurd (h1.symm.trans h.1) (by decide), if_pos h1] at hs
  obtain ⟨⟨hl, -, hlink⟩, hs⟩ := Option.ite_none_right_eq_some.mp hs
  obtain rfl := Option.some.inj hs
  refine ⟨⟨hl, hc.conn.trans hlink⟩, ⟨rfl, rfl, fun _ => rfl, ?_, hc.buffers, hc.word⟩, hc.view⟩
  have hsum := hc.sum
  have hword := hc.word
  rw [← hc.sent] at hsum
  show (s.aclCredits + s.connSent).toNat + 0 = n
  rw [toNat_add_of_lt (by omega)]
  exact hsum

theorem completed_tally {p : List UInt8} {c' : Ctl} {s : Daemon} (h : Arrived V n p c' s)
    (he : byte p 0 = hciEvt) (h1 : byte p 1 = 0x13) :
    8 ≤ p.length ∧ Agree V n c' (completed (UInt16.ofNat (get16 p 6)) s) := by
  obtain ⟨c, hc, hs⟩ := h
  rw [if_pos he, Ctl.event, if_neg fun h => absurd (h1.symm.trans h.1) (by decide),
    if_neg (by rw [h1]; decide), if_pos h1] at hs
  obtain ⟨⟨hl, -, hle⟩, hs⟩ := Option.ite_none_right_eq_some.mp hs
  obtain rfl := Option.some.inj hs
  have hsum := hc.sum
  have hword := hc.word
  have hsent := hc.sent
  have hn : (UInt16.ofNat (get16 p 6)).toNat = get16 p 6 :=
    UInt16.toNat_ofNat_of_lt' (show _ < 2 ^ 16 by omega)
  -- the clamp of the counter is never needed
  have hclamp : (if UInt16.ofNat (get16 p 6) < s.connSent then UInt16.ofNat (get16 p 6)
      else s.connSent)
      = UInt16.ofNat (get16 p 6) := by
    split
    · rfl
    · rename_i hlt
      rw [UInt16.lt_iff_toNat_lt, hn] at hlt
      refine UInt16.toNat_inj.mp ?_
      rw [hn]
      omega
  refine ⟨hl, ⟨hc.conn, ?_, fun hnone => ?_, ?_, hc.buffers, hc.word⟩, hc.view⟩
  · show (s.connSent - _).toNat = c.held - get16 p 6
    rw [hclamp, toNat_sub_of_le (by rw [hn]; omega), hn, hsent]
  · show c.held - get16 p 6 = 0
    rw [hc.idle hnone, Nat.zero_sub]
  · show (s.aclCredits + UInt16.ofNat (get16 p 6)).toNat + (c.held - get16 p 6) = n
    rw [toNat_add_of_lt (by rw [hn]; omega), hn]
    omega

theorem packetBody_tallied (p : List UInt8) :
    Meets (Always credit Counted (Arrived V n p)) (packetBody p) fun _ => Tallied V n := by
  have hnothing : (∀ c : Ctl, byte p 0 = hciEvt → c.event p = some c) →
      ∀ w, Always credit Counted (Arrived V n p) w → Tallied V n w := fun hn w hw =>
    hw.mono fun c' h => tally_of_arrived hn h
  unfold packetBody
  refine Meets.get fun s => ?_
  by_cases hl : p.length < 3
  · rw [if_pos hl]
    refine Meets.pure fun w hw => hw.1.mono fun c' h => ?_
    by_cases he : byte p 0 = hciEvt
    · by_cases h5 : byte p 1 = 0x05
      · have := (disconnected_tally h he h5).1.1
        omega
      by_cases h13 : byte p 1 = 0x13
      · have := (completed_tally h he h13).1
        omega
      refine tally_of_arrived (fun c _ => event_other (fun h3 => ?_) h5 h13) h
      rw [byte, byte, List.getD_eq_getElem?_getD, List.getD_eq_getElem?_getD,
        List.getElem?_eq_none (show p.length ≤ 3 by omega)] at h3
      exact absurd h3.2 (by decide)
    · exact tally_of_arrived (fun c h => absurd h he) h
  rw [if_neg hl]
  by_cases ha : byte p 0 = hciAcl
  · rw [if_pos ha]
    refine (tallied_acls.handleAcl p).mono (fun w hw => hnothing (fun c he => ?_) w hw.1)
      fun _ _ hw => hw
    exact absurd (ha.symm.trans he) (by decide)
  rw [if_neg ha]
  by_cases he : byte p 0 ≠ hciEvt
  · rw [if_pos he]
    exact Meets.pure fun w hw => hnothing (fun c h => absurd h he) w hw.1
  rw [if_neg he]
  have he := not_not.mp he
  by_cases h1 : byte p 1 = 0x3e
  · rw [if_pos h1]
    exact (leMeta_tallied p he h1).mono (fun w hw => hw.1) fun _ _ hw => hw
  rw [if_neg h1]
  by_cases h5 : byte p 1 = 0x05
  · rw [if_pos h5]
    refine Meets.when (fun _ => ?_) fun hn w hw => ?_
    · refine (Always.meets_modify fun c' s ha => ?_).mono (fun w hw => hw.1) fun _ _ hw => hw
      exact (disconnected_tally ha he h5).2
    · obtain ⟨hw, rfl⟩ := hw
      exact hw.mono fun c' ha => absurd (disconnected_tally ha he h5).1 hn
  rw [if_neg h5]
  refine Meets.when (fun h => ?_) fun hn w hw => ?_
  · refine (Always.meets_modify fun c' s ha => ?_).mono (fun w hw => hw.1) fun _ _ hw => hw
    exact (completed_tally ha he h.1).2
  · by_cases h13 : byte p 1 = 0x13
    · exact hw.1.mono fun c' ha => absurd ⟨h13, (completed_tally ha he h13).1⟩ hn
    · exact hnothing (fun c _ => event_other (fun h => h1 h.1) h5 h13) w hw.1

/-- **Every packet** keeps the tally. -/
theorem handlePacket_tallied (p : List UInt8) : Keeps (Tallied V n) (handlePacket p) := by
  unfold handlePacket
  refine Meets.bind (Always.meets_call (fun c s hc => counted_of rfl hc.toTally nofun) ?_) fun _ =>
    packetBody_tallied p
  exact fun c c' s hc hs => ⟨c, hc, hs⟩

/-! ## Commands -/

theorem command_not_acl (pkt : List UInt8) (ok : Bool) :
    (Call.hciWrite (hciCmdPacket :: pkt) ok).isAcl = false := by
  have h : byte (hciCmdPacket :: pkt) 0 ≠ hciAcl := show hciCmdPacket ≠ hciAcl by decide
  rw [Call.isAcl, decide_eq_false h, Bool.and_false]

/-- A command was written. -/
theorem tallied_write {V' : Nat → Nat → Bool → Prop} {pkt : List UInt8} {ok : Bool}
    (hv : ∀ o r b, V o r b → V' (if ok = true then get16 (hciCmdPacket :: pkt) 1 else o) r b)
    {w : World Call Daemon} (h : Tallied V n w) :
    Tallied V' n { w with calls := (.hciWrite (hciCmdPacket :: pkt) ok, w.st) :: w.calls } := by
  have ha := command_not_acl pkt ok
  refine h.call (fun c hc => counted_of rfl hc.toTally fun ht => ?_) fun c c' hc hs => ?_
  · rw [ha] at ht
    cases ht
  · have hv := hv _ _ _ hc.view
    rw [show credit.step = Ctl.step from rfl, Ctl.step, ha, if_neg Bool.false_ne_true] at hs
    cases ok with
    | true =>
      rw [if_pos ⟨rfl, rfl⟩] at hs
      obtain rfl := Option.some.inj hs
      exact ⟨⟨hc.conn, hc.sent, hc.idle, hc.sum, hc.buffers, hc.word⟩, hv⟩
    | false =>
      rw [if_neg fun h => nomatch h.1] at hs
      obtain rfl := Option.some.inj hs
      exact ⟨hc.toTally, hv⟩

/-- An answer is about the buffers that are reported. -/
theorem answer_alike {c c' : Ctl} {p : List UInt8} (h : c.answer p = some c') :
    ∃ r, c' = { c with reported := r } := by
  unfold Ctl.answer at h
  split at h
  · split at h
    · obtain ⟨-, h⟩ := Option.ite_none_left_eq_some.mp h
      obtain rfl := Option.some.inj h
      split
      · exact ⟨_, rfl⟩
      · exact ⟨_, rfl⟩
    · split at h
      · obtain ⟨-, h⟩ := Option.ite_none_left_eq_some.mp h
        exact ⟨_, (Option.some.inj h).symm⟩
      · exact ⟨_, (Option.some.inj h).symm⟩
  · obtain ⟨-, h⟩ := Option.ite_none_left_eq_some.mp h
    exact ⟨_, (Option.some.inj h).symm⟩

/-- A packet was read. -/
theorem tallied_read {V' : Nat → Nat → Bool → Prop} {pkt : List UInt8}
    (hv : ∀ c c' : Ctl, V c.op c.reported c.running → c.answer pkt = some c' →
      V' c'.op c'.reported c'.running)
    {w : World Call Daemon} (h : Tallied V n w) :
    Tallied V' n { w with calls := (.hciRead pkt, w.st) :: w.calls } := by
  refine h.call (fun c hc => counted_of rfl hc.toTally nofun) fun c c' hc hs => ?_
  have hv := hv c c' hc.view hs
  obtain ⟨r, rfl⟩ := answer_alike hs
  exact ⟨⟨hc.conn, hc.sent, hc.idle, hc.sum, hc.buffers, hc.word⟩, hv⟩

/-- The loop has started. -/
def looping : Nat → Nat → Bool → Prop := fun _ _ b => b = true

theorem tallied_commands : Commands (Tallied looping n) where
  asked _ _ hw := hw.asked
  write w pkt ok hw := tallied_write (fun _ _ _ h => h) hw
  read w pkt hw := tallied_read (fun c c' h ha => by obtain ⟨r, rfl⟩ := answer_alike ha; exact h) hw
  packet := handlePacket_tallied

/-! ## The report -/

/-- The number of buffers in the return parameters of the command `op`. -/
def reportIn (op : Nat) (ret : List UInt8) : Nat :=
  if op = 0x2002 then if get16 ret 1 = 0 then 0 else (byte ret 3).toNat
  else if op = 0x1005 then get16 ret 4
  else 0

/-- The command `op` waits for its answer, and nothing was reported yet. -/
def waiting (op : Nat) : Nat → Nat → Bool → Prop := fun o r b => o = op ∧ r = 0 ∧ b = false

/-- The result `a` of the command `op` says what was reported. -/
def told (op : Nat) (a : Option UInt8 × List UInt8) : Nat → Nat → Bool → Prop := fun _ r b =>
  r = (if a.1 = some 0 then reportIn op a.2 else 0) ∧ b = false

/-- The parameters of an answer are where the program reads them. -/
theorem byte_ret {p ret : List UInt8} {i : Nat} (hi : i < ret.length) (hp : 6 + i < p.length) :
    byte ((p.drop 6).take ret.length ++ ret.drop ((p.drop 6).take ret.length).length) i =
      byte p (6 + i) := by
  unfold byte
  rw [List.getD_eq_getElem?_getD, List.getD_eq_getElem?_getD, List.getElem?_append_left,
    List.getElem?_take_of_lt hi, List.getElem?_drop]
  rw [List.length_take, List.length_drop]
  omega

theorem get16_ret {p ret : List UInt8} {i : Nat} (hi : i + 1 < ret.length) (hp : 7 + i < p.length) :
    get16 ((p.drop 6).take ret.length ++ ret.drop ((p.drop 6).take ret.length).length) i =
      get16 p (6 + i) := by
  rw [get16, byte_ret (by omega) (by omega), byte_ret hi (by omega), get16, Nat.add_assoc]

theorem length_ret (p ret : List UInt8) :
    ((p.drop 6).take ret.length ++ ret.drop ((p.drop 6).take ret.length).length).length =
      ret.length := by
  rw [List.length_append, List.length_drop, List.length_take]
  omega

/-- The answer to the command that waits is what the program takes out of it. -/
theorem answer_complete {c c' : Ctl} {p ret : List UInt8} (hc : c.reported = 0)
    (hret : c.op = 0x2002 ∨ c.op = 0x1005 → ret.length = 16)
    (h : byte p 0 = hciEvt ∧ byte p 1 = 0x0e ∧ 7 ≤ p.length ∧ get16 p 4 = c.op)
    (ha : c.answer p = some c') :
    c'.reported = if some (byte p 6) = some (0 : UInt8) then
      reportIn c.op ((p.drop 6).take ret.length ++ ret.drop ((p.drop 6).take ret.length).length)
      else 0 := by
  obtain ⟨h0, h1, h7, hop⟩ := h
  unfold Ctl.answer at ha
  by_cases h6 : byte p 6 = 0
  · rw [if_pos ⟨h0, h1, h7, hop, h6⟩] at ha
    rw [h6, if_pos rfl, reportIn]
    by_cases ho : c.op = 0x2002
    · rw [if_pos ho] at ha ⊢
      obtain ⟨hl, ha⟩ := Option.ite_none_left_eq_some.mp ha
      obtain rfl := Option.some.inj ha
      have h16 := hret (.inl ho)
      rw [get16_ret (by omega) (by omega), byte_ret (by omega) (by omega)]
      split
      · exact hc
      · rfl
    · rw [if_neg ho] at ha ⊢
      by_cases ho : c.op = 0x1005
      · rw [if_pos ho] at ha ⊢
        obtain ⟨hl, ha⟩ := Option.ite_none_left_eq_some.mp ha
        obtain rfl := Option.some.inj ha
        have h16 := hret (.inr ho)
        rw [get16_ret (by omega) (by omega)]
      · rw [if_neg ho] at ha ⊢
        obtain rfl := Option.some.inj ha
        exact hc
  · rw [if_neg fun h => h6 h.2.2.2.2, if_neg fun h => absurd (h1.symm.trans h.2.1)
      (by decide)] at ha
    rw [if_neg fun h => h6 (Option.some.inj h)]
    obtain rfl := Option.some.inj ha
    exact hc

/-- A status without parameters reports nothing. -/
theorem answer_status {c c' : Ctl} {p : List UInt8} (hc : c.reported = 0)
    (h : byte p 0 = hciEvt ∧ byte p 1 = 0x0f ∧ 7 ≤ p.length ∧ get16 p 5 = c.op)
    (ha : c.answer p = some c') (ret : List UInt8) :
    c'.reported = if some (byte p 3) = some (0 : UInt8) then reportIn c.op ret else 0 := by
  obtain ⟨h0, h1, h7, hop⟩ := h
  unfold Ctl.answer at ha
  rw [if_neg fun h => absurd (h1.symm.trans h.2.1) (by decide)] at ha
  obtain ⟨hn, ha⟩ := Option.ite_none_left_eq_some.mp ha
  obtain rfl := Option.some.inj ha
  rw [hc]
  by_cases h3 : byte p 3 = 0
  · rw [reportIn, if_neg fun ho => hn ⟨h0, h1, h7, hop, h3, .inl ho⟩,
      if_neg fun ho => hn ⟨h0, h1, h7, hop, h3, .inr ho⟩, ite_self]
  · rw [if_neg fun h => h3 (Option.some.inj h)]

/-- Any other packet leaves the report as it is. -/
theorem answer_other {c c' : Ctl} {p : List UInt8}
    (h : ¬ (byte p 0 = hciEvt ∧ byte p 1 = 0x0e ∧ 7 ≤ p.length ∧ get16 p 4 = c.op))
    (h' : ¬ (byte p 0 = hciEvt ∧ byte p 1 = 0x0f ∧ 7 ≤ p.length ∧ get16 p 5 = c.op))
    (ha : c.answer p = some c') : c' = c := by
  unfold Ctl.answer at ha
  rw [if_neg fun hn => h ⟨hn.1, hn.2.1, hn.2.2.1, hn.2.2.2.1⟩,
    if_neg fun hn => h' ⟨hn.1, hn.2.1, hn.2.2.1, hn.2.2.2.1⟩] at ha
  exact (Option.some.inj ha).symm

theorem hciWait_told (op : Nat) (ret : List UInt8)
    (hret : op = 0x2002 ∨ op = 0x1005 → ret.length = 16)
    (ps : List (List UInt8)) :
    Meets (Tallied (waiting op) 0) (hciWait op ret ps) fun a => Tallied (told op a) 0 := by
  induction ps with
  | nil => exact Meets.pure fun w hw => hw.mono fun c hc => ⟨hc.toTally, hc.view.2⟩
  | cons p ps ih =>
    unfold hciWait
    refine Meets.ite (fun _ => ih) fun _ => ?_
    by_cases h1 : byte (p.take 260) 0 = hciEvt ∧ byte (p.take 260) 1 = 0x0e ∧
        7 ≤ (p.take 260).length ∧ get16 (p.take 260) 4 = op
    · rw [if_pos h1]
      refine Meets.bind (R := fun _ => Tallied (told op _) 0) (Meets.call fun w hw => ?_) fun _ =>
        Meets.pure fun w hw => hw
      refine tallied_read (fun c c' hv ha => ?_) hw
      obtain ⟨rfl, hr, hb⟩ := hv
      have hc' := answer_complete hr hret h1 ha
      obtain ⟨r, rfl⟩ := answer_alike ha
      exact ⟨hc', hb⟩
    rw [if_neg h1]
    by_cases h2 : byte (p.take 260) 0 = hciEvt ∧ byte (p.take 260) 1 = 0x0f ∧
        7 ≤ (p.take 260).length ∧ get16 (p.take 260) 5 = op
    · rw [if_pos h2]
      refine Meets.bind (R := fun _ => Tallied (told op _) 0) (Meets.call fun w hw => ?_) fun _ =>
        Meets.pure fun w hw => hw
      refine tallied_read (fun c c' hv ha => ?_) hw
      obtain ⟨rfl, hr, hb⟩ := hv
      have hc' := answer_status hr h2 ha ret
      obtain ⟨r, rfl⟩ := answer_alike ha
      exact ⟨hc', hb⟩
    rw [if_neg h2]
    refine Meets.bind (R := fun _ => Tallied (waiting op) 0) (Meets.call fun w hw => ?_) fun _ =>
      Meets.bind (handlePacket_tallied _) fun _ => ih
    refine tallied_read (fun c c' hv ha => ?_) hw
    obtain ⟨rfl, hr, hb⟩ := hv
    obtain rfl := answer_other h1 h2 ha
    exact ⟨rfl, hr, hb⟩

/-- Nothing was reported yet. -/
def unreported : Nat → Nat → Bool → Prop := fun _ r b => r = 0 ∧ b = false

/-- **A command at the start** tells what was reported. -/
theorem hciCmdRet_told {op : Nat} (hop : op < 2 ^ 16) (param : List UInt8) {ret : List UInt8}
    (hret : op = 0x2002 ∨ op = 0x1005 → ret.length = 16) :
    Meets (Tallied unreported 0) (hciCmdRet op param ret) fun a => Tallied (told op a) 0 := by
  unfold hciCmdRet
  refine Meets.bind (R := fun _ => Tallied unreported 0) (Meets.ask fun _ w hw => hw.asked)
    fun ok => ?_
  cases ok with
  | true =>
    refine Meets.bind (R := fun _ => Tallied (waiting op) 0) (Meets.call fun w hw => ?_) fun _ => ?_
    · refine tallied_write (fun o r b hv => ⟨?_, hv⟩) hw
      rw [if_pos rfl]
      exact get16_put16 hop _ ([UInt8.ofNat param.length] ++ param)
    · refine Meets.bind (R := fun _ => Tallied (waiting op) 0) (Meets.ask fun _ w hw => hw.asked) ?_
      exact fun ps => hciWait_told op ret hret ps
  | false =>
    refine Meets.bind (R := fun _ => Tallied unreported 0) (Meets.call fun w hw => ?_) fun _ => ?_
    · exact tallied_write (fun o r b hv => hv) hw
    · exact Meets.pure fun w hw => hw.mono fun c hc => hc

/-- The buffer of the caller keeps its length. -/
theorem length_hciWait (op : Nat) (ret : List UInt8) (ps : List (List UInt8)) :
    Meets (fun _ => True) (hciWait op ret ps) fun a _ => a.2.length = ret.length := by
  have hp : ∀ p, Keeps (fun _ => True) (handlePacket p) := fun p _ _ _ => trivial
  induction ps with
  | nil => exact Meets.pure fun _ _ => rfl
  | cons p ps ih =>
    unfold hciWait
    refine Meets.ite (fun _ => ih) fun _ => Meets.bind (R := fun _ _ => True)
      (Meets.call fun w hw => hw) ?_
    refine fun _ => Meets.ite (fun _ => Meets.pure fun _ _ => length_ret _ ret) fun _ => ?_
    exact Meets.ite (fun _ => Meets.pure fun _ _ => rfl) fun _ => Meets.bind (hp _) fun _ => ih

theorem length_hciCmdRet (op : Nat) (param ret : List UInt8) :
    Meets (fun _ => True) (hciCmdRet op param ret) fun a _ => a.2.length = ret.length := by
  unfold hciCmdRet
  refine Meets.bind (R := fun _ _ => True) (Meets.ask fun _ w hw => hw) fun ok => ?_
  refine Meets.bind (R := fun _ _ => True) (Meets.call fun w hw => hw) fun _ =>
    Meets.ite (fun _ => ?_) fun _ => ?_
  · exact Meets.bind (R := fun _ _ => True) (Meets.ask fun _ w hw => hw) fun ps =>
      length_hciWait op ret ps
  · exact Meets.pure fun _ _ => rfl

/-- Another command reports nothing. -/
theorem hciCmdRet_unreported {op : Nat} (hop : op < 2 ^ 16) (h1 : op ≠ 0x2002) (h2 : op ≠ 0x1005)
    (param ret : List UInt8) :
    Meets (Tallied unreported 0) (hciCmdRet op param ret) fun _ => Tallied unreported 0 := by
  refine (hciCmdRet_told hop param fun h => ?_).mono (fun _ hw => hw) fun a w hw => ?_
  · exact absurd h (not_or.mpr ⟨h1, h2⟩)
  · refine hw.mono fun c hc => ⟨hc.toTally, ?_⟩
    obtain ⟨hr, hb⟩ := hc.view
    rw [reportIn, if_neg h1, if_neg h2, ite_self] at hr
    exact ⟨hr, hb⟩

/-- Before the loop: nothing is under way, and the credits are the buffers that were reported. -/
structure Idle (c : Ctl) (s : Daemon) : Prop where
  conn : s.conn = c.link
  credits : s.aclCredits.toNat = c.reported
  sent : s.connSent = 0
  held : c.held = 0
  stopped : c.running = false

/-- The same, and the counters did agree at every call. -/
abbrev Idled : World Call Daemon → Prop := Always credit Counted Idle

/-- The number of buffers is stored as it was reported. -/
theorem idle_of {c : Ctl} {s : Daemon} {a : UInt16} {l : UInt16}
    (h : Agree (fun _ r b => a.toNat = r ∧ b = false) 0 c s) :
    Idle c { s with aclLen := l, aclCredits := a } where
  conn := h.conn
  credits := h.view.1
  sent := by
    have := h.sum
    exact UInt16.toNat_inj.mp (h.sent.trans (show c.held = 0 by omega))
  held := by
    have := h.sum
    omega
  stopped := h.view.2

/-- With no buffers reported there are no credits. -/
theorem idle_of_unreported {c : Ctl} {s : Daemon} (h : Agree unreported 0 c s) : Idle c s := by
  have hsum := h.sum
  have hheld : c.held = 0 := by omega
  refine ⟨h.conn, ?_, UInt16.toNat_inj.mp (h.sent.trans hheld), hheld, h.view.2⟩
  rw [h.view.1]
  omega

theorem get16_lt (p : List UInt8) (i : Nat) : get16 p i < 2 ^ 16 := by
  have := (byte p i).toNat_lt
  have := (byte p (i + 1)).toNat_lt
  rw [get16]
  omega

theorem hciBuffers_idle {ret : List UInt8} (hret : ret.length = 16) :
    Meets (Tallied unreported 0) (hciBuffers ret) fun _ => Idled := by
  unfold hciBuffers
  refine Meets.bind (R := fun a w => a.2.length = ret.length ∧ Tallied (told 0x2002 a) 0 w)
    ((hciCmdRet_told (by decide) _ fun _ => hret).result (length_hciCmdRet _ _ ret)) fun a => ?_
  refine Meets.given (fun w hw => hw.1) fun hl => Meets.ite (fun h => ?_) fun h => ?_
  · refine (Always.meets_modify fun c s hc => idle_of ⟨hc.toTally, ?_⟩).mono (fun w hw => hw.2)
      fun _ _ hw => hw
    obtain ⟨hr, hb⟩ := hc.view
    rw [if_pos h.1, reportIn, if_pos rfl, if_neg h.2] at hr
    exact ⟨(UInt8.toNat_toUInt16 _).trans hr.symm, hb⟩
  refine Meets.bind (R := fun b => Tallied (told 0x1005 b) 0) ?_ fun b => ?_
  · refine (hciCmdRet_told (by decide) [] fun _ => hl.trans hret).mono (fun w hw => ?_)
      fun b w hw => hw
    refine hw.2.mono fun c hc => ⟨hc.toTally, ?_, hc.view.2⟩
    obtain ⟨hr, hb⟩ := hc.view
    rw [hr]
    split
    · rw [reportIn, if_pos rfl, if_pos (not_not.mp fun h' => h ⟨‹_›, h'⟩)]
    · rfl
  · refine Meets.when (fun hb => ?_) fun hb w hw => hw.mono fun c hc => ?_
    · refine Always.meets_modify fun c s hc => idle_of ⟨hc.toTally, ?_⟩
      obtain ⟨hr, hn⟩ := hc.view
      rw [if_pos hb, reportIn, if_neg (by decide), if_pos rfl] at hr
      exact ⟨(UInt16.toNat_ofNat_of_lt' (get16_lt _ _)).trans hr.symm, hn⟩
    · obtain ⟨hr, hn⟩ := hc.view
      rw [if_neg hb] at hr
      exact idle_of_unreported ⟨hc.toTally, hr, hn⟩

theorem hciInit_idle : Meets (Tallied unreported 0) hciInit fun _ => Idled := by
  have hidle : ∀ w, Tallied unreported 0 w → Idled w :=
    fun w hw => hw.mono fun c => idle_of_unreported
  have hcmd {op : Nat} (hop : op < 2 ^ 16) (h1 : op ≠ 0x2002) (h2 : op ≠ 0x1005)
      (param : List UInt8) : Keeps (Tallied unreported 0) (hciCmd op param) :=
    Keeps.bind (hciCmdRet_unreported hop h1 h2 _ _) fun _ => Keeps.pure _
  unfold hciInit
  refine Meets.bind (R := fun _ => Tallied unreported 0) (Meets.ask fun _ w hw => hw.asked)
    fun stack => ?_
  refine Meets.bind (R := fun _ => Tallied unreported 0) ?_ fun ok =>
    Meets.ite (fun _ => ?_) fun _ => Meets.pure hidle
  · unfold hciReset
    refine (hcmd (by decide) (by decide) (by decide) _).bind fun r => Keeps.ite (Keeps.pure _) ?_
    refine (hcmd (by decide) (by decide) (by decide) _).bind fun r => Keeps.ite (Keeps.pure _) ?_
    exact (hcmd (by decide) (by decide) (by decide) _).bind fun r => Keeps.pure _
  refine Meets.bind (R := fun a w => a.2.length = 16 ∧ Tallied unreported 0 w) ?_ fun a =>
    Meets.given (fun w hw => hw.1) fun hl =>
      Meets.ite (fun _ => Meets.pure fun w hw => hidle w hw.2) fun _ => ?_
  · refine (hciCmdRet_unreported (by decide) (by decide) (by decide) _ _).result ?_
    refine (length_hciCmdRet _ _ _).mono (fun _ hw => hw) fun a _ ha => ha.trans ?_
    rw [List.length_take, List.length_append, List.length_replicate]
    omega
  · refine Meets.bind (R := fun _ => Tallied unreported 0) (Meets.modify fun w hw => ?_) fun _ =>
      Meets.bind (hciBuffers_idle hl) fun _ => Meets.bind (R := fun _ => Idled)
        (Meets.modify fun w hw => ?_)
        fun _ => Meets.pure fun w hw => hw
    · exact tallied_of hw.2 rfl rfl rfl rfl
    · exact hw.of_state rfl fun c hc => ⟨hc.conn, hc.credits, hc.sent, hc.held, hc.stopped⟩

/-! ## Runs -/

theorem tallied_ordinary : Ordinary (Tallied looping n) :=
  { tallied_commands, tallied_improvs with
    poll := fun _ _ hw => tallied_call rfl (fun _ _ => rfl) rfl hw
    ended := fun _ _ hw => tallied_call rfl (fun _ _ => rfl) rfl hw
    scanning := fun _ _ hw => tallied_of hw rfl rfl rfl rfl
    advertising := fun _ _ hw => tallied_of hw rfl rfl rfl rfl
    improv := fun _ _ hw => tallied_of hw rfl rfl rfl rfl
    checkAt := fun _ _ hw => tallied_of hw rfl rfl rfl rfl
    clients := tallied_clients.readClients
    flush := tallied_clients.flushBatch }

/-- The end of a run: the counters agree with the controller if the loop has started. -/
abbrev Balanced : World Call Daemon → Prop :=
  Always credit Counted fun c s => c.running = true → Tally c.buffers c s

theorem balanced_of_idle {w : World Call Daemon} (h : Idled w) : Balanced w :=
  h.mono fun _ hc hr => absurd (hc.stopped.symm.trans hr) (by decide)

/-- The start of the loop: the buffers that were reported are those that the run counts. -/
theorem loop_tallied {w : World Call Daemon} (h : Idled w) :
    ∃ n, Tallied looping n { w with calls := (.loop, w.st) :: w.calls } := by
  refine Always.choose (h.call (fun c hc => ?_) fun c c' hc hs => ?_)
  · rw [Counted, if_pos (show Call.isLoop .loop = true from rfl)]
    exact ⟨hc.conn, hc.credits, hc.sent, hc.held⟩
  · obtain rfl := Option.some.inj hs
    refine ⟨c.reported, ⟨hc.conn, ?_, fun _ => hc.held, ?_, rfl, ?_⟩, rfl⟩
    · rw [hc.sent]
      exact hc.held.symm
    · show w.st.aclCredits.toNat + c.held = c.reported
      rw [hc.held, hc.credits, Nat.add_zero]
    · rw [← hc.credits]
      exact w.st.aclCredits.toNat_lt

theorem runAndStop_balanced (n : Nat) : Meets Idled (runAndStop n) fun _ => Balanced := by
  intro env w hw
  obtain ⟨m, hm⟩ := loop_tallied hw
  have hexit : Keeps (Tallied looping m) (call Call.exit : Act Unit) :=
    Meets.call fun w hw => tallied_call rfl (fun _ _ => rfl) rfl hw
  refine (tallied_ordinary.runAndStop hexit n env w hm).mono fun c hc _ => ?_
  rw [hc.buffers]
  exact hc.toTally

theorem setup_idle : Keeps Idled setup := by
  unfold setup setupInfo
  have hask {α : Type} (f : Answer → α) : Keeps Idled (ask f) := Meets.ask fun _ w hw => hw.asked
  refine Keeps.bind ?_ fun _ => (hask _).bind fun led => ?_
  · refine (hask _).bind fun name => (hask _).bind fun mac => (hask _).bind fun model =>
      Keeps.get fun s => ?_
    exact Meets.modify fun w hw => hw.of_state rfl fun c hc =>
      ⟨hc.conn, hc.credits, hc.sent, hc.held, hc.stopped⟩
  · refine Keeps.bind (Meets.modify fun w hw => ?_) fun _ => Meets.modify fun w hw => ?_
    · exact hw.of_state rfl fun c hc => ⟨hc.conn, hc.credits, hc.sent, hc.held, hc.stopped⟩
    · exact hw.of_state rfl fun c hc => ⟨hc.conn, hc.credits, hc.sent, hc.held, hc.stopped⟩

theorem boot_tallied : Tallied unreported 0 boot := by
  refine ⟨fun c hc => ?_, fun as k s bs he => ?_⟩
  · obtain rfl := Option.some.inj hc
    exact ⟨⟨rfl, rfl, fun _ => rfl, rfl, rfl, by decide⟩, rfl, rfl⟩
  · cases as <;> cases he

/-- **The credits of every run.** As long as the controller has kept the rules: the counters agree
with it at every call of the program and after any number of rounds, so the credits and the packets
that it holds make up its buffers, and a packet that is written finds a free one. -/
theorem acl_credits (env : Nat → Answer) (proxy improv : Bool) (n : Nat) :
    (∀ as k s bs, ((main proxy improv n).run env boot).2.calls = as ++ (k, s) :: bs →
      ∀ c, credit.after bs = some c → Counted c k s) ∧
    ∀ c, credit.after ((main proxy improv n).run env boot).2.calls = some c → c.running = true →
      Tally c.buffers c ((main proxy improv n).run env boot).2.st := by
  have h : Meets (Tallied unreported 0) (main proxy improv n) fun _ => Balanced := by
    refine main_meets (fun _ _ hw => hw.asked) ?_ ?_ ?_ hciInit_idle setup_idle (fun _ _ hw =>
      hw.asked) ?_
      (runAndStop_balanced n) ?_ ?_ ?_ proxy improv
    · exact fun w cmd r hw => tallied_call rfl (fun _ _ => rfl) rfl hw
    · exact fun w b hw => tallied_of hw rfl rfl rfl rfl
    · exact fun w b hw => tallied_of hw rfl rfl rfl rfl
    · exact fun w hw => hw.of_state rfl fun c hc => ⟨hc.conn, hc.credits, hc.sent, hc.held,
        hc.stopped⟩
    · exact fun w hw => balanced_of_idle (hw.mono fun c => idle_of_unreported)
    · exact fun w => balanced_of_idle
    · exact fun w => balanced_of_idle
  have hw := h env boot boot_tallied
  exact ⟨hw.past, hw.now⟩

/-- Improv without the proxy, on a controller with two buffers: a client connects and reads a value.
-/
def readOnce : List Answer :=
  let complete op ret : Answer := { arrivals := [commandComplete op ret] }
  let packet p : List Answer := [{}, {}, { poll := some { hci := true } }, { read := .packet p }]
  [{ reply := some (str "id\n") }, {}, { fd := some 3 }, {},
    {}, complete 0x0c03 [], {}, complete 0x0c01 [], {}, complete 0x2001 [],
    {}, complete 0x1009 [1, 2, 3, 4, 5, 6], {}, complete 0x2002 [0x1b, 0x00, 0x02],
    {}, {}, {}, {}, {},
    {}, complete 0x2008 [], {}, complete 0x2009 [], {}, complete 0x2006 [], {}, complete 0x200a
      []] ++
  (packet connectionComplete).tail ++
  packet [0x02, 0x40, 0x20, 0x07, 0x00, 0x03, 0x00, 0x04, 0x00, 0x0a, 0x05, 0x00]

/-- The response is under way: one buffer of two is taken. -/
theorem acl_credits_read :
    Tally 2 ⟨some 0x40, 1, 0x200a, 2, true, 2⟩
      ((main false true 2).run (fun i => readOnce.getD i {}) boot).2.st :=
  (acl_credits (fun i => readOnce.getD i {}) false true 2).2 ⟨some 0x40, 1, 0x200a, 2, true, 2⟩
    (by decide +kernel) rfl

end Esp32S31.BleHa
