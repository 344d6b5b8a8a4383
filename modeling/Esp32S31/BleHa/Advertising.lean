import Esp32S31.BleHa.Rounds
import Esp32S31.Lib.Monitor
import Mathlib.Data.List.Infix
import Mathlib.Logic.Basic

/-!
# One link at a time

`radio` is the advertising of the controller, as far as the program has read what the controller
sends. The controller executes the commands in turn and answers each of them, and it opens a
connection only while it advertises, which then stops. When it executes a command, and with which
status, is its own affair (`Pace`).

`harmless` is the condition on a run: LE Set Advertising Enable is answered while the program waits
for the answer, and when it has turned the advertising on, no connection is open and none came in
between.

* `hciWait_answered`: what the program knows when a command with an effect is answered.
* **`one_link`**: under the condition the flag is the state of the controller whenever the loop
  waits, and no connection is open while it advertises.
* `second_link`: without it the advertising goes on while a client is connected.
-/

namespace Esp32S31.BleHa

open Esp32S31.Lib Prog Monitor

/-! ## The controller -/

/-- A command and its first parameter. -/
structure HciCommand where
  op : Nat
  arg : UInt8
  deriving DecidableEq

/-- The advertising after a command with the status 0: Reset, LE Set Advertising Enable. -/
def HciCommand.effect (k : HciCommand) (on : Bool) : Bool :=
  if k.op = 0x0c03 then false else if k.op = 0x200a then k.arg ≠ 0 else on

/-- What the controller decides: how many commands it executes before it sends the `i`-th packet,
and the status of the `i`-th command. -/
structure Pace where
  executes : Nat → Nat
  status : Nat → UInt8

/-- The state of the controller. -/
structure Radio where
  /-- it advertises -/
  on : Bool
  /-- the commands that it has not executed -/
  given : List HciCommand
  /-- the commands that it has executed and not answered -/
  owed : List (HciCommand × UInt8)
  /-- the packets that it has sent -/
  sent : Nat
  /-- the commands that it has executed -/
  executed : Nat
  /-- a connection was opened since the last command was written -/
  opened : Bool
  deriving DecidableEq

/-- At most `n` commands are executed. -/
def Radio.execute (pace : Pace) : Nat → Radio → Radio
  | 0, r => r
  | n + 1, r =>
    match r.given with
    | [] => r
    | k :: given =>
      execute pace n { r with
        on := if pace.status r.executed = 0 then k.effect r.on else r.on
        given := given
        owed := r.owed ++ [(k, pace.status r.executed)]
        executed := r.executed + 1 }

/-- The commands without an answer. -/
def Radio.asked (r : Radio) : List HciCommand := r.owed.map Prod.fst ++ r.given

/-- The command that a packet answers, and the status: Command Complete, Command Status. -/
def answerOf (p : List UInt8) : Option (Nat × UInt8) :=
  if byte p 0 = hciEvt ∧ byte p 1 = 0x0e ∧ 7 ≤ p.length then some (get16 p 4, byte p 6)
  else if byte p 0 = hciEvt ∧ byte p 1 = 0x0f ∧ 7 ≤ p.length then some (get16 p 5, byte p 3)
  else none

/-- An answer is to the oldest command without one; the command 0 is none. -/
def Radio.answer (a : Option (Nat × UInt8)) (r : Radio) : Option Radio :=
  match a with
  | none => some r
  | some (op, status) =>
    if op = 0 then some r
    else
      match r.owed with
      | [] => none
      | k :: owed => if k.1.op = op ∧ k.2 = status then some { r with owed := owed } else none

/-- LE Connection Complete with the status 0. -/
def opens (p : List UInt8) : Bool :=
  byte p 0 = hciEvt && byte p 1 = 0x3e && byte p 3 = 0x01 && byte p 4 = 0

/-- One call of the program. -/
def Radio.step (pace : Pace) (r : Radio) (k : Call) (_ : Daemon) : Option Radio :=
  match k with
  | .hciWrite pkt ok =>
    if ok = true ∧ byte pkt 0 = hciCmdPacket then
      some { r with given := r.given ++ [⟨get16 pkt 1, byte pkt 4⟩], opened := false }
    else some r
  | .hciRead p =>
    ({ r.execute pace (pace.executes r.sent) with sent := r.sent + 1 } : Radio).answer (answerOf p)
  | .packet p =>
    if opens p = true then
      if 7 ≤ p.length ∧ r.on = true then some { r with on := false, opened := true } else none
    else some r
  | _ => some r

/-- The controller, which advertises or not before the program starts. -/
def radio (pace : Pace) (on : Bool) : Monitor Call Daemon Radio :=
    ⟨⟨on, [], [], 0, 0, false⟩, Radio.step pace⟩

/-! ## The condition -/

/-- Every LE Set Advertising Enable was answered. -/
def Radio.settled (r : Radio) : Bool := r.asked.all (·.op ≠ 0x200a)

/-- The oldest command without an answer turns the advertising on. -/
def Radio.enables (r : Radio) : Bool := r.asked.head?.any fun k => k.op = 0x200a && k.arg ≠ 0

/-- The program does not go on without the answer to LE Set Advertising Enable, and when one that
turns the advertising on has succeeded, no connection is open and none was opened in between. -/
def harmless (r : Radio) (k : Call) (s : Daemon) : Bool :=
  match k with
  | .hciWrite pkt ok => !(ok && byte pkt 0 = hciCmdPacket) || r.settled
  | .poll _ => r.settled
  | .hciRead p => !(answerOf p = some (0x200a, 0) && r.enables) || (s.conn = none && !r.opened)
  | _ => true

/-- The main loop waits. -/
def Call.isPoll : Call → Bool
  | .poll _ => true
  | _ => false

/-- The flag is the state of the controller, and with a connection the advertising is off. -/
structure OneLink (r : Radio) (s : Daemon) : Prop where
  flag : s.advertising = r.on
  link : s.conn.isSome = true → s.advertising = false ∧ r.on = false

/-! ## What a run keeps -/

/-- The controller, in a run that meets the condition. -/
abbrev watched (pace : Pace) (on : Bool) : Monitor Call Daemon Radio :=
  (radio pace on).guard fun r k s => harmless r k s = true

/-- What holds at a call. -/
def Linked (r : Radio) (k : Call) (s : Daemon) : Prop := k.isPoll = true → harmless r k s = true →
    OneLink r s

/-- `R` holds of the controller, the flag and the connection, and the links were one at every
`poll`. -/
abbrev Kept (pace : Pace) (on : Bool) (R : Radio → Bool → Option Nat → Prop) : World Call Daemon →
    Prop :=
  Always (watched pace on) Linked fun r s => R r s.advertising s.conn

variable {pace : Pace} {on₀ : Bool} {R R' : Radio → Bool → Option Nat → Prop}

/-- A call that is no `poll`. -/
theorem kept_step {k : Call} (hp : k.isPoll = false) {w : World Call Daemon} (h : Kept pace on₀ R w)
    (hk : ∀ r r', R r w.st.advertising w.st.conn → harmless r k w.st = true →
      r.step pace k w.st = some r' →
      R' r' w.st.advertising w.st.conn) : Kept pace on₀ R' { w with calls :=
        (k, w.st) :: w.calls } := by
  refine h.call (fun r _ hpoll => ?_) fun r r' hr hs => ?_
  · rw [hp] at hpoll
    cases hpoll
  · obtain ⟨hc, hs⟩ := guard_step hs
    exact hk r r' hr hc hs

/-- A call that the controller takes no notice of. -/
theorem kept_call {k : Call} (hp : k.isPoll = false) (hk : ∀ r s, Radio.step pace r k s = some r)
    {w : World Call Daemon} (h : Kept pace on₀ R w) : Kept pace on₀ R
      { w with calls := (k, w.st) :: w.calls } := by
  refine kept_step hp h fun r r' hr _ hs => ?_
  obtain rfl := Option.some.inj ((hk r w.st).symm.trans hs)
  exact hr

/-- A change of the state behind the flag and the connection. -/
theorem kept_of {w w' : World Call Daemon} (h : Kept pace on₀ R w) (hcalls : w'.calls = w.calls)
    (hflag : w'.st.advertising = w.st.advertising) (hconn : w'.st.conn = w.st.conn) :
      Kept pace on₀ R w' := by
  refine h.of_state hcalls fun r hr => ?_
  rw [hflag, hconn]
  exact hr

theorem kept_mono (hr : ∀ r f c, R r f c → R' r f c) {w : World Call Daemon}
    (h : Kept pace on₀ R w) : Kept pace on₀ R' w := h.mono fun r => hr r _ _

theorem aclSend_kept (cid : Nat) (data : List UInt8) : Keeps (Kept pace on₀ R)
    (aclSend cid data) := by
  unfold aclSend
  refine Keeps.bind (Meets.call fun w hw => kept_call rfl (fun _ _ => rfl) hw) fun _ =>
    Keeps.get fun s => ?_
  cases s.conn with
  | none => exact Keeps.pure ()
  | some handle =>
    refine Keeps.ite (Keeps.pure ()) (Keeps.ite (Keeps.pure ()) ?_)
    refine Keeps.bind (Meets.ask fun _ w hw => hw.asked) fun ok => ?_
    refine Keeps.bind (Meets.call fun w hw => kept_call rfl (fun r s => ?_) hw) fun _ =>
      Keeps.when fun _ => ?_
    · exact if_neg fun h => absurd h.2 (by decide : hciAcl ≠ hciCmdPacket)
    · exact Meets.modify fun w hw => kept_of hw rfl rfl rfl

theorem notify_kept (handle : Nat) (v : List UInt8) : Keeps (Kept pace on₀ R)
    (notify handle v) := by
  unfold notify
  refine Keeps.get fun s => Keeps.when fun _ => Keeps.bind (Meets.call fun w hw => ?_) fun _ =>
    aclSend_kept _ _
  exact kept_call rfl (fun _ _ => rfl) hw

theorem kept_improvs : Improvs (Kept pace on₀ R) where
  asked _ _ hw := hw.asked
  call w k hk hw := by
    cases k <;> first | exact kept_call rfl (fun _ _ => rfl) hw | cases hk
  notify := notify_kept
  error _ _ hw := kept_of hw rfl rfl rfl
  state _ _ hw := kept_of hw rfl rfl rfl
  result _ _ hw := kept_of hw rfl rfl rfl
  dirty _ _ hw := kept_of hw rfl rfl rfl
  rpc _ _ hw := kept_of hw rfl rfl rfl
  joinId _ _ hw := kept_of hw rfl rfl rfl
  joinEnd _ _ hw := kept_of hw rfl rfl rfl
  identifyEnd _ _ hw := kept_of hw rfl rfl rfl
  doneAt _ _ hw := kept_of hw rfl rfl rfl

theorem kept_clients : Clients (Kept pace on₀ R) where
  asked _ _ hw := hw.asked
  call w k hk hw := by
    cases k <;> first | exact kept_call rfl (fun _ _ => rfl) hw | cases hk
  clients _ _ hw := kept_of hw rfl rfl rfl
  batch _ _ hw := kept_of hw rfl rfl rfl

theorem kept_acls : Acls (Kept pace on₀ R) :=
  { kept_improvs with
    frame := kept_improvs.l2capFrame (fun _ _ _ hw => kept_call rfl (fun _ _ => rfl) hw)
      aclSend_kept (fun _ _ hw => kept_call rfl (fun _ _ => rfl) hw) fun _ _ hw =>
        kept_of hw rfl rfl rfl
    l2 := fun _ _ hw => kept_of hw rfl rfl rfl }

/-! ## Packets -/

/-- `R` survives the beginning and the end of a connection. -/
structure Closed (R : Radio → Bool → Option Nat → Prop) : Prop where
  opens : ∀ {r f c}, R r f c → r.on = true →
    ∀ h, R { r with on := false, opened := true } false (some h)
  closes : ∀ {r f c}, R r f c → R r f none

/-- The advertising reports are not about the link. -/
theorem pushReports_kept (s : Daemon) (ads : List Adv) : Keeps (Kept pace on₀ R) (do
    when (ads ≠ [] ∧ s.batch = []) do
      let t ← nowMs
      modify fun s => { s with batchMs := t }
    each pushReport ads) := by
  refine Keeps.bind (Keeps.when fun _ => ?_) fun _ => Keeps.each (fun a => ?_) _
  · exact Keeps.bind (Meets.ask fun _ w hw => hw.asked) fun t => Meets.modify fun w hw =>
      kept_of hw rfl rfl rfl
  · refine Keeps.get fun s => Keeps.bind (Meets.call fun w hw => ?_) fun _ => Keeps.when fun _ => ?_
    · exact kept_call rfl (fun _ _ => rfl) hw
    · exact Meets.modify fun w hw => kept_of hw rfl rfl rfl

/-- A packet that opens no connection. -/
theorem packetBody_kept (hR : Closed R) {p : List UInt8} (hp : ¬ (opens p = true ∧ 7 ≤ p.length)) :
    Keeps (Kept pace on₀ R) (packetBody p) := by
  unfold packetBody
  refine Keeps.get fun s => Keeps.ite (Keeps.pure ()) (Keeps.ite (kept_acls.handleAcl p) ?_)
  refine Meets.ite (fun _ => Keeps.pure ()) fun he => Meets.ite (fun h1 => ?_) fun _ => ?_
  · unfold leMeta
    refine Keeps.get fun s => Keeps.ite (Keeps.pure ()) (Keeps.ite (pushReports_kept s _) ?_)
    refine Meets.when (fun h => absurd ?_ hp) fun _ _ hw => hw
    rw [byte_drop, byte_drop, List.length_drop] at h
    refine ⟨?_, by omega⟩
    simp [opens, not_not.mp he, h1, h.1, h.2.2]
  · refine Keeps.ite (Keeps.when fun _ => ?_) (Keeps.when fun _ => ?_)
    · exact Meets.modify fun w hw => hw.of_state rfl fun r hr => hR.closes hr
    · exact Meets.modify fun w hw => kept_of hw rfl rfl rfl

/-- LE Connection Complete sets the connection and clears the flag. -/
theorem packetBody_opens {p : List UInt8} (hp : opens p = true) (hlen : 7 ≤ p.length) :
    Meets (Kept pace on₀ fun r _ _ => ∀ h, R r false (some h)) (packetBody p) fun _ =>
      Kept pace on₀ R := by
  simp only [opens, Bool.and_eq_true, decide_eq_true_eq] at hp
  obtain ⟨⟨⟨h0, h1⟩, h3⟩, h4⟩ := hp
  unfold packetBody
  refine Meets.get fun s => ?_
  rw [if_neg (by omega), if_neg (by rw [h0]; decide), if_neg (not_not.mpr h0), if_pos h1]
  unfold leMeta
  refine Meets.get fun s => ?_
  rw [byte_drop, byte_drop, List.length_drop, if_neg (by omega),
    if_neg (by rw [h3]; exact fun h => absurd h.1 (by decide)), when_pos ⟨h3, by omega, h4⟩]
  exact Meets.modify fun w hw => hw.1.1.of_state rfl fun r hr => hr _

/-- **Every packet.** -/
theorem handlePacket_kept (hR : Closed R) (p : List UInt8) : Keeps (Kept pace on₀ R)
    (handlePacket p) := by
  have hstep : ∀ {r r' : Radio} {s : Daemon}, r.step pace (.packet p) s = some r' →
      (if opens p = true then
        if 7 ≤ p.length ∧ r.on = true then some { r with on := false, opened := true } else none
      else some r) = some r' := fun hs => hs
  unfold handlePacket
  by_cases hp : opens p = true ∧ 7 ≤ p.length
  · refine Meets.bind (Meets.call fun w hw => kept_step rfl hw fun r r' hr _ hs => ?_) fun _ =>
      packetBody_opens hp.1 hp.2
    have hs' := hstep hs
    rw [if_pos hp.1] at hs'
    obtain ⟨⟨-, hon⟩, hs'⟩ := Option.ite_none_right_eq_some.mp hs'
    obtain rfl := Option.some.inj hs'
    exact fun h => hR.opens hr hon h
  · refine Keeps.bind (Meets.call fun w hw => kept_step rfl hw fun r r' hr _ hs => ?_) fun _ =>
      packetBody_kept hR hp
    have hs' := hstep hs
    split at hs'
    · next ho =>
      -- the controller sends no half of the event
      obtain ⟨⟨hl, -⟩, -⟩ := Option.ite_none_right_eq_some.mp hs'
      exact absurd ⟨ho, hl⟩ hp
    · obtain rfl := Option.some.inj hs'
      exact hr

/-! ## The controller executes and answers -/

/-- A command that does not change the advertising. -/
def HciCommand.Plain (k : HciCommand) : Prop := k.op ≠ 0x200a ∧ k.op ≠ 0x0c03

theorem HciCommand.Plain.effect {k : HciCommand} (h : k.Plain) (on : Bool) : k.effect on = on := by
  unfold HciCommand.effect
  rw [if_neg h.2, if_neg h.1]

variable {r r' : Radio}

theorem asked_execute {k : HciCommand} {given : List HciCommand} (h : r.given = k :: given)
    (st : UInt8) : (r.owed ++ [(k, st)]).map Prod.fst ++ given = r.asked := by
  unfold Radio.asked
  rw [h, List.map_append, List.append_assoc]
  rfl

theorem execute_asked (n : Nat) (r : Radio) : (r.execute pace n).asked = r.asked := by
  induction n generalizing r with
  | zero => rfl
  | succ n ih =>
    unfold Radio.execute
    split
    · rfl
    · next k given hg => exact (ih _).trans (asked_execute hg _)

theorem execute_opened (n : Nat) (r : Radio) : (r.execute pace n).opened = r.opened := by
  induction n generalizing r with
  | zero => rfl
  | succ n ih =>
    unfold Radio.execute
    split
    · rfl
    · exact ih _

theorem execute_plain (n : Nat) {r : Radio} (h : ∀ k ∈ r.asked, k.Plain) :
    (r.execute pace n).on = r.on := by
  induction n generalizing r with
  | zero => rfl
  | succ n ih =>
    unfold Radio.execute
    split
    · rfl
    · next k given hg =>
      have hk : k.Plain := h k (List.mem_append_right _ (hg ▸ List.mem_cons_self))
      refine (ih (fun k' hk' => h k' ?_)).trans ?_
      · exact asked_execute hg _ ▸ hk'
      · dsimp only
        rw [hk.effect, ite_self]

/-- An answer takes the oldest command off the list. -/
theorem answer_cases {a : Option (Nat × UInt8)} (h : r.answer a = some r') :
    (r' = r ∧ ∀ op st, a = some (op, st) → op = 0) ∨
      ∃ k st owed, r.owed = (k, st) :: owed ∧ a = some (k.op, st) ∧
        r' = { r with owed := owed } := by
  unfold Radio.answer at h
  split at h
  · exact Or.inl ⟨(Option.some.inj h).symm, nofun⟩
  · next op st =>
    split at h
    · next h0 =>
      refine Or.inl ⟨(Option.some.inj h).symm, fun op' st' he => ?_⟩
      exact (Prod.mk.inj (Option.some.inj he)).1.symm.trans h0
    · split at h
      · cases h
      · next k owed hk =>
        obtain ⟨⟨hop, hst⟩, hr⟩ := Option.ite_none_right_eq_some.mp h
        exact Or.inr ⟨k.1, k.2, owed, hk, by rw [hop, hst], (Option.some.inj hr).symm⟩

/-! ## Commands without an effect -/

/-- The flag is the state of the controller, and no command is under way that changes it. -/
structure Tight (r : Radio) (f : Bool) (c : Option Nat) : Prop where
  plain : ∀ k ∈ r.asked, k.Plain
  flag : f = r.on
  link : c.isSome = true → f = false

/-- The same, if every LE Set Advertising Enable was answered. -/
structure Loose (r : Radio) (f : Bool) (c : Option Nat) : Prop where
  started : ∀ k ∈ r.asked, k.op ≠ 0x0c03
  tight : (∀ k ∈ r.asked, k.op ≠ 0x200a) → f = r.on ∧ (c.isSome = true → f = false)

theorem Tight.loose {f : Bool} {c : Option Nat} (h : Tight r f c) : Loose r f c :=
  ⟨fun k hk => (h.plain k hk).2, fun _ => ⟨h.flag, h.link⟩⟩

theorem settled_iff : r.settled = true ↔ ∀ k ∈ r.asked, k.op ≠ 0x200a := by
  unfold Radio.settled
  rw [List.all_eq_true]
  exact forall₂_congr fun k _ => decide_eq_true_iff

theorem Loose.settled {f : Bool} {c : Option Nat} (h : Loose r f c) (hs : r.settled = true) :
    Tight r f c :=
  have hs := settled_iff.mp hs
  ⟨fun k hk => ⟨hs k hk, h.started k hk⟩, (h.tight hs).1, (h.tight hs).2⟩

theorem tight_closed : Closed Tight where
  opens h _ _ := ⟨h.plain, rfl, fun _ => rfl⟩
  closes h := ⟨h.plain, h.flag, nofun⟩

theorem kept_loose {w : World Call Daemon} (h : Kept pace on₀ Tight w) : Kept pace on₀ Loose w :=
  kept_mono (fun _ _ _ => Tight.loose) h

theorem tight_read (p : List UInt8) {w : World Call Daemon} (h : Kept pace on₀ Tight w) :
    Kept pace on₀ Tight { w with calls := (.hciRead p, w.st) :: w.calls } := by
  refine kept_step rfl h fun r r' hr _ hs => ?_
  have hasked : (r.execute pace (pace.executes r.sent)).asked = r.asked := execute_asked _ r
  have hon : (r.execute pace (pace.executes r.sent)).on = r.on := execute_plain _ hr.plain
  have hflag := hr.flag.trans hon.symm
  rcases answer_cases hs with ⟨rfl, -⟩ | ⟨k, st, owed, hk, -, rfl⟩
  · exact ⟨fun k hk => hr.plain k (hasked ▸ hk), hflag, hr.link⟩
  · refine ⟨fun k' hk' => hr.plain k' (hasked ▸ ?_), hflag, hr.link⟩
    unfold Radio.asked
    rw [show (r.execute pace (pace.executes r.sent)).owed = (k, st) :: owed from hk]
    exact List.mem_cons_of_mem _ hk'

/-- A command that was written. -/
def Radio.give (k : HciCommand) (r : Radio) : Radio :=
    { r with given := r.given ++ [k], opened := false }

theorem asked_give (k : HciCommand) : (r.give k).asked = r.asked ++ [k] :=
    (List.append_assoc _ _ _).symm

/-- A command is written when every LE Set Advertising Enable was answered. -/
theorem kept_write {op : Nat} (hop : op < 2 ^ 16) (param : List UInt8) {w : World Call Daemon}
    (h : Kept pace on₀ R w)
    (hr : ∀ r f c, R r f c → r.settled = true → R' (r.give ⟨op, param.headD 0⟩) f c) :
    Kept pace on₀ R' { w with
      calls := (.hciWrite (hciCmdPacket :: put16 op ++ [UInt8.ofNat param.length] ++ param) true,
        w.st) :: w.calls } := by
  have hop' : get16 (hciCmdPacket :: put16 op ++ [UInt8.ofNat param.length] ++ param) 1 = op :=
    get16_put16 hop hciCmdPacket ([UInt8.ofNat param.length] ++ param)
  have harg : byte (hciCmdPacket :: put16 op ++ [UInt8.ofNat param.length] ++ param) 4 =
      param.headD 0 := by
    cases param <;> rfl
  refine kept_step rfl h fun r r' hk hh hs => ?_
  have hs' : (if true = true ∧ hciCmdPacket = hciCmdPacket then
      some (r.give ⟨get16 (hciCmdPacket :: put16 op ++ [UInt8.ofNat param.length] ++ param) 1,
        byte (hciCmdPacket :: put16 op ++ [UInt8.ofNat param.length] ++ param) 4⟩) else some r) =
          some r' := hs
  rw [if_pos ⟨rfl, rfl⟩, hop', harg] at hs'
  obtain rfl := Option.some.inj hs'
  exact hr r _ _ hk hh

/-- A command that was not written. -/
theorem kept_unwritten (pkt : List UInt8) {w : World Call Daemon} (h : Kept pace on₀ R w) :
    Kept pace on₀ R { w with calls := (.hciWrite pkt false, w.st) :: w.calls } := by
  refine kept_call rfl (fun r s => ?_) h
  unfold Radio.step
  exact if_neg fun hn => nomatch hn.1

theorem hciWait_tight (op : Nat) (ret : List UInt8) (ps : List (List UInt8)) :
    Keeps (Kept pace on₀ Tight) (hciWait op ret ps) := by
  induction ps with
  | nil => exact Keeps.pure _
  | cons p ps ih =>
    unfold hciWait
    refine Keeps.ite ih (Keeps.bind (Meets.call fun w hw => tight_read _ hw) fun _ => ?_)
    refine Keeps.ite (Keeps.pure _) (Keeps.ite (Keeps.pure _) ?_)
    exact (handlePacket_kept tight_closed _).bind fun _ => ih

theorem hciCmdRet_loose {op : Nat} (hop : op < 2 ^ 16) (h : op ≠ 0x200a) (h' : op ≠ 0x0c03)
    (param ret : List UInt8) : Keeps (Kept pace on₀ Loose) (hciCmdRet op param ret) := by
  unfold hciCmdRet
  refine Keeps.bind (Meets.ask fun _ w hw => hw.asked) fun ok => ?_
  cases ok with
  | false => exact Keeps.bind (Meets.call fun w hw => kept_unwritten _ hw) fun _ => Keeps.pure _
  | true =>
    refine Meets.bind (R := fun _ => Kept pace on₀ Tight) (Meets.call fun w hw => ?_) fun _ => ?_
    · refine kept_write hop param hw fun r f c hr hs => ?_
      have ht := hr.settled hs
      refine ⟨fun k hk => ?_, ht.flag, ht.link⟩
      rw [asked_give] at hk
      rcases List.mem_append.mp hk with hk | hk
      · exact ht.plain k hk
      · obtain rfl := List.mem_singleton.mp hk
        exact ⟨h, h'⟩
    · refine Meets.bind (R := fun _ => Kept pace on₀ Tight) (Meets.ask fun _ w hw => hw.asked)
        fun ps => ?_
      exact (hciWait_tight _ _ _).mono (fun _ hw => hw) fun _ _ hw => kept_loose hw

/-! ## Commands with an effect -/

/-- What is known of the advertising, of a connection since the command `k`, and of the flag, before
`k` is executed and after it was executed with a status. -/
structure Knowledge (k : HciCommand) where
  before : Bool → Bool → Bool → Prop
  after : UInt8 → Bool → Bool → Bool → Prop
  executed : ∀ {on opened f st}, before on opened f →
    after st (if st = 0 then k.effect on else on) opened f
  opens : ∀ {opened f}, before true opened f → before false true false
  opens' : ∀ {st opened f}, after st true opened f → after st false true false

variable {k : HciCommand} {K : Knowledge k} {f : Bool} {c : Option Nat}

/-- The command `k` is the last one and has no answer. -/
structure Waiting (K : Knowledge k) (r : Radio) (f : Bool) (c : Option Nat) : Prop where
  link : c.isSome = true → f = false
  asked : (∃ g, r.given = g ++ [k] ∧ (∀ k' ∈ r.owed.map Prod.fst ++ g, k'.Plain) ∧
    K.before r.on r.opened f) ∨
    ∃ o st, r.given = [] ∧ r.owed = o ++ [(k, st)] ∧ (∀ k' ∈ o.map Prod.fst, k'.Plain) ∧
      K.after st r.on r.opened f

/-- The result of `hci_cmd` says whether the command has its answer, and with which status. -/
def Answered (K : Knowledge k) (status : Option UInt8) (r : Radio) (f : Bool) (c : Option Nat) :
    Prop :=
  match status with
  | none => Waiting K r f c
  | some st =>
    r.asked = [] ∧ K.after st r.on r.opened f ∧ (c.isSome = true → f = false) ∧
      (st = 0 → k.op = 0x200a → k.arg ≠ 0 → c = none ∧ r.opened = false)

theorem waiting_closed : Closed (Waiting K) where
  opens {r f c} h hon h' := by
    refine ⟨fun _ => rfl, ?_⟩
    rcases h.asked with ⟨g, hg, hplain, hb⟩ | ⟨o, st, hg, ho, hplain, ha⟩
    · rw [hon] at hb
      exact Or.inl ⟨g, hg, hplain, K.opens hb⟩
    · rw [hon] at ha
      exact Or.inr ⟨o, st, hg, ho, hplain, K.opens' ha⟩
  closes h := ⟨nofun, h.asked⟩

theorem Waiting.execute (n : Nat) (h : Waiting K r f c) : Waiting K (r.execute pace n) f c := by
  induction n generalizing r with
  | zero => exact h
  | succ n ih =>
    unfold Radio.execute
    rcases h.asked with ⟨g, hg, hplain, hb⟩ | ⟨o, st, hg, ho, hplain, ha⟩
    · cases g with
      | nil =>
        have hg' : r.given = [k] := hg
        rw [hg']
        refine ih ⟨h.link, Or.inr ⟨r.owed, _, rfl, rfl, fun k' hk' => hplain k' ?_, K.executed hb⟩⟩
        exact List.mem_append_left _ hk'
      | cons k' g =>
        have hk' : k'.Plain := hplain k' (List.mem_append_right _ List.mem_cons_self)
        have hg' : r.given = k' :: (g ++ [k]) := hg
        rw [hg']
        refine ih ⟨h.link, Or.inl ⟨g, rfl, fun x hx => hplain x ?_, ?_⟩⟩
        · rw [List.map_append, List.append_assoc] at hx
          exact hx
        · dsimp only
          rw [hk'.effect, ite_self]
          exact hb
    · rw [hg]
      exact h

/-- An answer is the one to `k`, and then it is the last, or `k` goes on waiting. -/
theorem Waiting.answer {a : Option (Nat × UInt8)} (h : Waiting K r f c) (hk : ¬ k.Plain)
    (h0 : k.op ≠ 0)
    (ha : r.answer a = some r') :
    (∃ st, a = some (k.op, st) ∧ r.asked = [k] ∧ r'.asked = [] ∧ r'.opened = r.opened ∧
      K.after st r'.on r'.opened f) ∨ (Waiting K r' f c ∧ ∀ st, a ≠ some (k.op, st)) := by
  have hother : ∀ {k' : HciCommand}, k'.Plain → k'.op ≠ k.op :=
    fun hp he => hk ⟨he ▸ hp.1, he ▸ hp.2⟩
  rcases answer_cases ha with ⟨rfl, hn⟩ | ⟨x, st, owed, ho, rfl, rfl⟩
  · exact Or.inr ⟨h, fun st he => h0 (hn _ st he)⟩
  · rcases h.asked with ⟨g, hg, hplain, hb⟩ | ⟨o, st', hg, ho', hplain, hafter⟩
    · rw [ho] at hplain
      have hx : x.Plain := hplain x List.mem_cons_self
      refine Or.inr ⟨⟨h.link, Or.inl ⟨g, hg, fun k' hk' => hplain k' (List.mem_cons_of_mem _ hk'),
        hb⟩⟩, ?_⟩
      exact fun st he => hother hx (Prod.mk.inj (Option.some.inj he)).1
    · rw [ho] at ho'
      cases o with
      | nil =>
        obtain ⟨he, rfl⟩ := List.cons.inj ho'
        obtain ⟨rfl, rfl⟩ := Prod.mk.inj he
        refine Or.inl ⟨st, rfl, ?_, ?_, rfl, hafter⟩
        · unfold Radio.asked
          rw [ho, hg]
          rfl
        · unfold Radio.asked
          rw [hg]
          rfl
      | cons y o =>
        obtain ⟨rfl, hrest⟩ := List.cons.inj ho'
        have hx : x.Plain := hplain x List.mem_cons_self
        refine Or.inr ⟨⟨h.link, Or.inr ⟨o, st', hg, hrest, fun k' hk' => hplain k' ?_, hafter⟩⟩, ?_⟩
        · exact List.mem_cons_of_mem _ hk'
        · exact fun st he => hother hx (Prod.mk.inj (Option.some.inj he)).1

/-- A packet was read: it is the answer to `k`, or `k` goes on waiting. -/
def Heard (K : Knowledge k) (p : List UInt8) (r : Radio) (f : Bool) (c : Option Nat) : Prop :=
  (∀ st, answerOf p = some (k.op, st) → Answered K (some st) r f c) ∧
    ((∀ st, answerOf p ≠ some (k.op, st)) → Waiting K r f c)

theorem waiting_read (hk : ¬ k.Plain) (h0 : k.op ≠ 0) (p : List UInt8) {w : World Call Daemon}
    (h : Kept pace on₀ (Waiting K) w) :
    Kept pace on₀ (Heard K p) { w with calls := (.hciRead p, w.st) :: w.calls } := by
  refine kept_step rfl h fun r r' hr hh hs => ?_
  have hw : Waiting K (r.execute pace (pace.executes r.sent)) w.st.advertising w.st.conn :=
    hr.execute _
  have hasked : (r.execute pace (pace.executes r.sent)).asked = r.asked := execute_asked _ r
  have hopened : (r.execute pace (pace.executes r.sent)).opened = r.opened := execute_opened _ r
  have hw' : Waiting K { r.execute pace (pace.executes r.sent) with sent := r.sent + 1 }
    w.st.advertising
    w.st.conn := ⟨hw.link, hw.asked⟩
  rcases hw'.answer hk h0 hs with ⟨st, ha, hone, hnone, ho, hafter⟩ | ⟨hwait, hn⟩
  · refine ⟨fun st' he => ?_, fun hn => absurd ha (hn st)⟩
    obtain ⟨-, rfl⟩ := Prod.mk.inj (Option.some.inj (ha.symm.trans he))
    refine ⟨hnone, hafter, hr.link, fun hst hop harg => ?_⟩
    have hone' : r.asked = [k] := hasked.symm.trans hone
    have henables : r.enables = true := by
      unfold Radio.enables
      rw [hone']
      simp [hop, harg]
    have hquiet : (!(decide (answerOf p = some (0x200a, 0)) && r.enables) ||
        (decide (w.st.conn = none) && !r.opened)) = true := hh
    rw [decide_eq_true (show answerOf p = some (0x200a, 0) by rw [ha, hst, hop]),
      henables] at hquiet
    simp only [Bool.and_self, Bool.not_true, Bool.false_or, Bool.and_eq_true, decide_eq_true_eq,
      Bool.not_eq_true'] at hquiet
    exact ⟨hquiet.1, (ho.trans hopened).trans hquiet.2⟩
  · exact ⟨fun st he => absurd he (hn st), fun _ => hwait⟩

theorem answerOf_complete {p : List UInt8} {op : Nat}
    (h : byte p 0 = hciEvt ∧ byte p 1 = 0x0e ∧ 7 ≤ p.length ∧ get16 p 4 = op) :
    answerOf p = some (op, byte p 6) := by
  unfold answerOf
  rw [if_pos ⟨h.1, h.2.1, h.2.2.1⟩, h.2.2.2]

theorem answerOf_status {p : List UInt8} {op : Nat}
    (h : byte p 0 = hciEvt ∧ byte p 1 = 0x0f ∧ 7 ≤ p.length ∧ get16 p 5 = op) :
    answerOf p = some (op, byte p 3) := by
  unfold answerOf
  rw [if_neg (by rw [h.2.1]; exact fun hn => absurd hn.2.1 (by decide)),
    if_pos ⟨h.1, h.2.1, h.2.2.1⟩, h.2.2.2]

theorem answerOf_other {p : List UInt8} {op : Nat}
    (h : ¬ (byte p 0 = hciEvt ∧ byte p 1 = 0x0e ∧ 7 ≤ p.length ∧ get16 p 4 = op))
    (h' : ¬ (byte p 0 = hciEvt ∧ byte p 1 = 0x0f ∧ 7 ≤ p.length ∧ get16 p 5 = op)) (st : UInt8) :
    answerOf p ≠ some (op, st) := by
  unfold answerOf
  intro he
  split at he
  · next hc => exact h ⟨hc.1, hc.2.1, hc.2.2, (Prod.mk.inj (Option.some.inj he)).1⟩
  · split at he
    · next hc => exact h' ⟨hc.1, hc.2.1, hc.2.2, (Prod.mk.inj (Option.some.inj he)).1⟩
    · cases he

/-- **The loop of `hci_cmd`** for a command with an effect. -/
theorem hciWait_answered (hk : ¬ k.Plain) (h0 : k.op ≠ 0) (ret : List UInt8)
    (ps : List (List UInt8)) :
    Meets (Kept pace on₀ (Waiting K)) (hciWait k.op ret ps) fun a =>
      Kept pace on₀ (Answered K a.1) := by
  induction ps with
  | nil => exact Meets.pure fun w hw => hw
  | cons p ps ih =>
    unfold hciWait
    refine Meets.ite (fun _ => ih) fun _ => ?_
    refine Meets.bind (R := fun _ => Kept pace on₀ (Heard K (p.take 260)))
      (Meets.call fun w hw => waiting_read hk h0 _ hw) fun _ => ?_
    refine Meets.ite (fun h1 => ?_) fun h1 => Meets.ite (fun h2 => ?_) fun h2 => ?_
    · exact Meets.pure fun w hw => kept_mono (fun r f c hr => hr.1 _ (answerOf_complete h1)) hw
    · exact Meets.pure fun w hw => kept_mono (fun r f c hr => hr.1 _ (answerOf_status h2)) hw
    · refine Meets.bind (R := fun _ => Kept pace on₀ (Waiting K)) ?_ fun _ => ih
      refine (handlePacket_kept waiting_closed _).mono (fun w hw => ?_) fun _ _ hw => hw
      exact kept_mono (fun r f c hr => hr.2 (answerOf_other h1 h2)) hw

/-- **A command with an effect**: it was not written, or the result is what `hci_cmd` returns. -/
theorem hciCmd_answered (hk : ¬ k.Plain) (h0 : k.op ≠ 0) (hop : k.op < 2 ^ 16) {param : List UInt8}
    (harg : param.headD 0 = k.arg)
    (hR : ∀ r f c, R r f c → r.settled = true → Waiting K (r.give k) f c) :
    Meets (Kept pace on₀ R) (hciCmd k.op param) fun a =>
      Kept pace on₀ fun r f c => (a = none ∧ R r f c) ∨ Answered K a r f c := by
  unfold hciCmd hciCmdRet
  refine Meets.bind (R := fun a => Kept pace on₀ fun r f c => (a.1 = none ∧ R r f c) ∨
    Answered K a.1 r f c) ?_
    fun a => Meets.pure fun w hw => hw
  refine Meets.bind (R := fun _ => Kept pace on₀ R) (Meets.ask fun _ w hw => hw.asked) fun ok => ?_
  cases ok with
  | false =>
    refine Meets.bind (R := fun _ => Kept pace on₀ R) (Meets.call fun w hw => kept_unwritten _ hw)
      fun _ => ?_
    exact Meets.pure fun w hw => kept_mono (fun r f c hr => Or.inl ⟨rfl, hr⟩) hw
  | true =>
    refine Meets.bind (R := fun _ => Kept pace on₀ (Waiting K)) (Meets.call fun w hw => ?_) fun _ =>
      ?_
    · refine kept_write hop param hw fun r f c hr hs => ?_
      rw [harg]
      exact hR r f c hr hs
    · refine Meets.bind (R := fun _ => Kept pace on₀ (Waiting K)) (Meets.ask fun _ w hw => hw.asked)
        fun ps => ?_
      refine (hciWait_answered hk h0 _ ps).mono (fun _ hw => hw) fun a w hw => ?_
      exact kept_mono (fun r f c hr => Or.inr hr) hw

/-! ## Advertising -/

/-- LE Set Advertising Enable of `set_advertising`. -/
def enable (on : Bool) : HciCommand := ⟨0x200a, if on then 1 else 0⟩

/-- The flag is the state until the command is executed, and only a connection can stop the
advertising that it turns on. -/
def enabling (on : Bool) : Knowledge (enable on) where
  before o opened f := f = o ∧ (on = true → o = false ∧ opened = false)
  after st o opened f := if st = 0 then o = (on && !opened) else f = o
  executed {o opened f st} h := by
    by_cases hst : st = 0
    · rw [if_pos hst, if_pos hst]
      cases on with
      | true => rw [(h.2 rfl).2]; rfl
      | false => rfl
    · rw [if_neg hst, if_neg hst]
      exact h.1
  opens {opened f} h := ⟨rfl, fun hon => nomatch (h.2 hon).1⟩
  opens' {st opened f} h := by
    by_cases hst : st = 0
    · rw [if_pos hst]
      exact (Bool.and_false on).symm
    · rw [if_neg hst]

theorem hciCmd_loose {op : Nat} (hop : op < 2 ^ 16) (h : op ≠ 0x200a) (h' : op ≠ 0x0c03)
    (param : List UInt8) : Keeps (Kept pace on₀ Loose) (hciCmd op param) :=
  (hciCmdRet_loose hop h h' param []).bind fun _ => Keeps.pure _

theorem advertisingData_loose : Keeps (Kept pace on₀ Loose) advertisingData := by
  unfold advertisingData
  refine Keeps.get fun s => (hciCmd_loose (by decide) (by decide) (by decide) _).bind fun _ => ?_
  refine Keeps.get fun s => Keeps.when fun _ => ?_
  refine (hciCmd_loose (by decide) (by decide) (by decide) _).bind fun _ => ?_
  exact (hciCmd_loose (by decide) (by decide) (by decide) _).bind fun _ => Keeps.pure _

/-- The flag is as it was before LE Set Advertising Enable. -/
structure Turning (on : Bool) (r : Radio) (f : Bool) (c : Option Nat) :
    Prop extends Loose r f c where
  flag : f = !on

theorem Turning.give {on : Bool} (h : Turning on r f c) (hs : r.settled = true) :
    Waiting (enabling on) (r.give (enable on)) f c := by
  have ht := h.toLoose.settled hs
  refine ⟨ht.link, Or.inl ⟨r.given, rfl, ht.plain, ht.flag, fun hon => ⟨?_, rfl⟩⟩⟩
  refine ht.flag.symm.trans (h.flag.trans ?_)
  rw [hon]
  rfl

theorem loose_of_asked (h : r.asked = []) (hflag : f = r.on) (hlink : c.isSome = true → f = false) :
    Loose r f c := by
  refine ⟨fun k hk => ?_, fun _ => ⟨hflag, hlink⟩⟩
  rw [h] at hk
  cases hk

/-- Without its answer the command is the last one that was written. -/
theorem Waiting.loose {on : Bool} (h : Waiting (enabling on) r f c) : Loose r f c := by
  have hmem : enable on ∈ r.asked ∧ ∀ k ∈ r.asked, k.op ≠ 0x0c03 := by
    unfold Radio.asked
    rcases h.asked with ⟨g, hg, hplain, -⟩ | ⟨o, st, hg, ho, hplain, -⟩
    · rw [hg, ← List.append_assoc]
      refine ⟨List.mem_append_right _ List.mem_cons_self, fun k hk => ?_⟩
      rcases List.mem_append.mp hk with hk | hk
      · exact (hplain k hk).2
      · obtain rfl := List.mem_singleton.mp hk
        exact fun h => nomatch h
    · rw [hg, ho, List.append_nil, List.map_append]
      refine ⟨List.mem_append_right _ List.mem_cons_self, fun k hk => ?_⟩
      rcases List.mem_append.mp hk with hk | hk
      · exact (hplain k hk).2
      · obtain rfl := List.mem_singleton.mp hk
        exact fun h => nomatch h
  exact ⟨hmem.2, fun hn => absurd rfl (hn _ hmem.1)⟩

/-- **`set_advertising`.** -/
theorem setAdvertising_loose (on : Bool) : Keeps (Kept pace on₀ Loose) (setAdvertising on) := by
  unfold setAdvertising
  refine Keeps.bind (Keeps.when fun _ => advertisingData_loose) fun _ => ?_
  refine Meets.get fun s => Meets.bind (R := fun _ => Kept pace on₀ Loose) ?_ fun _ =>
    Meets.modify fun w hw => kept_of hw rfl rfl rfl
  refine Meets.when (fun hne => ?_) fun _ w hw => hw.1
  have hturn : ∀ w : World Call Daemon, Kept pace on₀ Loose w ∧ w.st = s →
      Kept pace on₀ (Turning on) w := by
    rintro w ⟨hw, rfl⟩
    refine hw.of_state rfl fun r hr => ⟨hr, ?_⟩
    cases on <;> cases hf : w.st.advertising <;> first | rfl | exact absurd hf.symm hne
  have hcmd : Meets (Kept pace on₀ (Turning on)) (hciCmd 0x200a [if on then 1 else 0]) fun a =>
      Kept pace on₀ fun r f c => (a = none ∧ Turning on r f c) ∨ Answered (enabling on) a r f c :=
    hciCmd_answered (k := enable on) (fun h => h.1 rfl) (show 0x200a ≠ 0 by decide)
      (show 0x200a < 2 ^ 16 by decide)
      rfl fun r f c hr hs => Turning.give hr hs
  refine Meets.bind (hcmd.mono hturn fun _ _ hw => hw) fun a => Meets.when (fun ha => ?_)
    fun ha w hw => ?_
  · subst ha
    refine Meets.modify fun w hw => hw.of_state rfl fun r hr => ?_
    rcases hr with ⟨hn, -⟩ | ⟨hasked, hafter, -, hquiet⟩
    · cases hn
    · have hon : r.on = (on && !r.opened) := hafter
      cases on with
      | true =>
        obtain ⟨hconn, hopened⟩ := hquiet rfl rfl (by decide)
        refine loose_of_asked hasked ?_ fun hsome => ?_
        · rw [hon, hopened]
          rfl
        · rw [show w.st.conn = none from hconn] at hsome
          cases hsome
      | false => exact loose_of_asked hasked hon.symm fun _ => rfl
  · refine kept_mono (fun r f c hr => ?_) hw
    rcases hr with ⟨-, hr⟩ | hr
    · exact hr.toLoose
    · cases a with
      | none => exact Waiting.loose hr
      | some st =>
        obtain ⟨hasked, hafter, hlink, -⟩ := hr
        have hst : st ≠ 0 := fun h => ha (congrArg some h)
        have hflag : (if st = 0 then r.on = (on && !r.opened) else f = r.on) := hafter
        rw [if_neg hst] at hflag
        exact loose_of_asked hasked hflag hlink

/-! ## The start -/

/-- Reset turns the advertising off. -/
def resetting : Knowledge ⟨0x0c03, 0⟩ where
  before _ _ f := f = false
  after st o _ f := f = false ∧ (st = 0 → o = false)
  executed {o opened f st} h := ⟨h, fun hst => by rw [if_pos hst]; rfl⟩
  opens _ := rfl
  opens' _ := ⟨rfl, fun _ => rfl⟩

/-- Nothing was written yet. -/
structure Pristine (r : Radio) (f : Bool) (c : Option Nat) : Prop where
  given : r.given = []
  owed : r.owed = []
  flag : f = false

/-- Behind the commands of the start, if they went well. -/
abbrev Began (pace : Pace) (on : Bool) (ok : Bool) : World Call Daemon → Prop :=
  Kept pace on fun r f c => ok = true → Loose r f c

theorem hciReset_began : Meets (Kept pace on₀ Pristine) hciReset (Began pace on₀) := by
  have hfirst : Meets (Kept pace on₀ Pristine) (hciCmd 0x0c03 []) fun a =>
      Kept pace on₀ fun r f c => (a = none ∧ Pristine r f c) ∨ Answered resetting a r f c :=
    hciCmd_answered (k := ⟨0x0c03, 0⟩) (fun h => h.2 rfl) (by decide)
      (by decide) rfl fun r f c hr _ => by
      refine ⟨fun _ => hr.flag, Or.inl ⟨[], ?_, ?_, hr.flag⟩⟩
      · exact congrArg (· ++ _) hr.given
      · intro k hk
        have hk' : k ∈ r.owed.map Prod.fst ++ [] := hk
        rw [hr.owed] at hk'
        cases hk'
  have hfail : ∀ {R : Radio → Bool → Option Nat → Prop},
      Meets (Kept pace on₀ R) (Pure.pure false : Act Bool) (Began pace on₀) := fun {R} =>
    Meets.pure fun w hw => kept_mono (R := R) (fun _ _ _ _ h => nomatch h) hw
  have hloose : Keeps (Kept pace on₀ Loose) (hciCmd 0x0c01 [0xff, 0xff, 0xff, 0xff, 0xff, 0x1f,
      0x00, 0x20]) :=
    hciCmd_loose (by decide) (by decide) (by decide) _
  unfold hciReset
  refine Meets.bind hfirst fun a => Meets.ite (fun _ => hfail) fun ha => ?_
  obtain rfl := not_not.mp ha
  refine Meets.mono (P := Kept pace on₀ Loose) ?_ (fun w hw => kept_mono (fun r f c hr => ?_) hw)
    fun _ _ hw => hw
  · refine Meets.bind hloose fun _ => Meets.ite (fun _ => hfail) fun _ => ?_
    refine Meets.bind (hciCmd_loose (by decide) (by decide) (by decide) _) fun _ =>
      Meets.pure fun w hw => ?_
    exact kept_mono (fun _ _ _ hr _ => hr) hw
  · rcases hr with ⟨hn, -⟩ | ⟨hasked, ⟨hflag, hon⟩, hlink, -⟩
    · cases hn
    · exact loose_of_asked hasked (hflag.trans (hon rfl).symm) hlink

theorem hciInit_began : Meets (Kept pace on₀ Pristine) hciInit (Began pace on₀) := by
  have hfail : ∀ w, Kept pace on₀ Loose w → Began pace on₀ false w := fun w hw =>
    kept_mono (fun _ _ _ _ h => nomatch h) hw
  have hmodify : ∀ (g : Daemon → Daemon), (∀ s, (g s).advertising = s.advertising) →
      (∀ s, (g s).conn = s.conn) →
      Keeps (Kept pace on₀ Loose) (modify g : Act Unit) := fun g hf hc =>
    Meets.modify fun w hw => kept_of hw rfl (hf _) (hc _)
  unfold hciInit
  refine Meets.bind (R := fun _ => Kept pace on₀ Pristine) (Meets.ask fun _ w hw => hw.asked)
    fun stack => ?_
  refine Meets.bind hciReset_began fun ok => Meets.ite (fun hok => ?_) fun hok => ?_
  · refine Meets.mono (P := Kept pace on₀ Loose) ?_
      (fun w hw => kept_mono (fun _ _ _ hr => hr hok) hw) fun _ _ hw => hw
    refine Meets.bind (hciCmdRet_loose (by decide) (by decide) (by decide) _ _) fun a => ?_
    refine Meets.ite (fun _ => Meets.pure hfail) fun _ => ?_
    refine Meets.bind (hmodify _ (fun _ => rfl) fun _ => rfl) fun _ => ?_
    refine Meets.bind (R := fun _ => Kept pace on₀ Loose) ?_ fun _ => ?_
    · unfold hciBuffers
      refine Meets.bind (hciCmdRet_loose (by decide) (by decide) (by decide) _ _) fun a => ?_
      refine Keeps.ite (hmodify _ (fun _ => rfl) fun _ => rfl) ?_
      refine Meets.bind (hciCmdRet_loose (by decide) (by decide) (by decide) _ _) fun b =>
        Keeps.when fun _ => ?_
      exact hmodify _ (fun _ => rfl) fun _ => rfl
    · refine Meets.bind (hmodify _ (fun _ => rfl) fun _ => rfl) fun _ => Meets.pure fun w hw => ?_
      exact kept_mono (fun _ _ _ hr _ => hr) hw
  · exact Meets.pure fun w hw => kept_mono (fun _ _ _ _ h => nomatch h) hw

theorem setup_loose : Keeps (Kept pace on₀ Loose) setup := by
  have hask {α : Type} (f : Answer → α) : Keeps (Kept pace on₀ Loose) (ask f) :=
    Meets.ask fun _ w hw => hw.asked
  unfold setup setupInfo
  refine Keeps.bind ?_ fun _ => (hask _).bind fun led => ?_
  · refine (hask _).bind fun name => (hask _).bind fun mac => (hask _).bind fun model =>
      Keeps.get fun s => ?_
    exact Meets.modify fun w hw => kept_of hw rfl rfl rfl
  · refine Keeps.bind (Meets.modify fun w hw => ?_) fun _ => Meets.modify fun w hw => ?_
    · exact kept_of hw rfl rfl rfl
    · exact kept_of hw rfl rfl rfl

/-! ## Runs -/

theorem setScan_loose (on : Bool) : Keeps (Kept pace on₀ Loose) (setScan on) := by
  unfold setScan
  refine Keeps.get fun s => Keeps.when fun _ => ?_
  refine Keeps.bind (Keeps.ite (hciCmd_loose (by decide) (by decide) (by decide) _) (Keeps.pure _))
    fun r => ?_
  refine Keeps.when fun _ => (hciCmd_loose (by decide) (by decide) (by decide) _).bind fun r =>
    Keeps.when fun _ => ?_
  exact Meets.modify fun w hw => kept_of hw rfl rfl rfl

/-- The loop waits: nothing is under way, so the links are one. -/
theorem kept_poll (t : Int) {w : World Call Daemon} (h : Kept pace on₀ Loose w) :
    Kept pace on₀ Tight { w with calls := (.poll t, w.st) :: w.calls } := by
  refine h.call (fun r hr _ hh => ?_) fun r r' hr hs => ?_
  · have ht := hr.settled hh
    refine ⟨ht.flag, fun hc => ⟨ht.link hc, ?_⟩⟩
    exact ht.flag.symm.trans (ht.link hc)
  · obtain ⟨hh, hs⟩ := guard_step hs
    obtain rfl := Option.some.inj hs
    exact hr.settled hh

theorem readAdapter_loose : Meets (Kept pace on₀ Tight) readAdapter fun _ =>
    Kept pace on₀ Loose := by
  have hask {α : Type} (f : Answer → α) : Keeps (Kept pace on₀ Tight) (ask f) :=
    Meets.ask fun _ w hw => hw.asked
  have htight : Keeps (Kept pace on₀ Tight) readAdapter := by
    unfold readAdapter
    refine (hask _).bind fun r => ?_
    cases r with
    | failed => exact Keeps.pure _
    | nothing => exact Keeps.pure _
    | packet p =>
      refine Keeps.bind (Keeps.when fun _ => ?_) fun _ => Keeps.pure _
      exact Keeps.bind (Meets.call fun w hw => tight_read _ hw) fun _ =>
        handlePacket_kept tight_closed _
  exact htight.mono (fun _ hw => hw) fun _ _ hw => kept_loose hw

theorem loose_turns : Turns (Kept pace on₀ Loose) (Kept pace on₀ Tight) where
  asked _ _ hw := hw.asked
  poll _ t hw := kept_poll t hw
  polled _ _ hw := hw.asked
  rests _ hw := kept_loose hw
  adapter := readAdapter_loose
  scan := setScan_loose
  advertise := setAdvertising_loose true
  clients := kept_clients.readClients
  flush := kept_clients.flushBatch
  join := kept_improvs.joinTimer
  identify := kept_improvs.identifyTimer
  done := by
    unfold doneTimer
    refine Keeps.get fun s => Keeps.when fun _ => kept_improvs.now.bind fun t => Keeps.when fun _ =>
      ?_
    refine Keeps.bind (Meets.modify fun w hw => kept_of hw rfl rfl rfl) fun _ => ?_
    refine Keeps.bind (Meets.call fun w hw => kept_call rfl (fun _ _ => rfl) hw) fun _ => ?_
    exact setAdvertising_loose false
  network := by
    unfold networkTimer
    refine Keeps.get fun s => Keeps.when fun _ => kept_improvs.now.bind fun t => Keeps.when fun _ =>
      ?_
    refine kept_improvs.now.bind fun t =>
      Keeps.bind (Meets.modify fun w hw => kept_of hw rfl rfl rfl) fun _ => ?_
    refine kept_improvs.wpaNetworks.bind fun n => Keeps.when fun _ => ?_
    refine Keeps.bind (Meets.modify fun w hw => kept_of hw rfl rfl rfl) fun _ => ?_
    refine Keeps.bind (Meets.call fun w hw => kept_call rfl (fun _ _ => rfl) hw) fun _ => ?_
    exact setAdvertising_loose false

theorem runAndStop_loose (n : Nat) : Keeps (Kept pace on₀ Loose) (runAndStop n) := by
  unfold runAndStop
  refine Keeps.bind (Meets.call fun w hw => kept_call rfl (fun _ _ => rfl) hw) fun _ => ?_
  refine (loose_turns.run n).bind fun ended => Keeps.when fun _ => ?_
  refine (setScan_loose false).bind fun _ => (setAdvertising_loose false).bind fun _ => ?_
  refine kept_improvs.finishJoin.bind fun _ => ?_
  exact Meets.call fun w hw => kept_call rfl (fun _ _ => rfl) hw

theorem main_kept (proxy improv : Bool) (n : Nat) :
    Meets (Kept pace on₀ Pristine) (main proxy improv n) fun _ => Kept pace on₀ fun _ _ _ =>
      True := by
  have htrue : ∀ {R : Radio → Bool → Option Nat → Prop} w, Kept pace on₀ R w →
      Kept pace on₀ (fun _ _ _ => True) w :=
    fun w hw => kept_mono (fun _ _ _ _ => trivial) hw
  refine main_meets (K := Kept pace on₀ Loose) (fun _ _ hw => hw.asked) ?_ ?_ ?_ hciInit_began ?_
    (fun _ _ hw => hw.asked) ?_ ?_ htrue htrue htrue proxy improv
  · exact fun w cmd r hw => kept_call rfl (fun _ _ => rfl) hw
  · exact fun w b hw => kept_of hw rfl rfl rfl
  · exact fun w b hw => kept_of hw rfl rfl rfl
  · exact setup_loose.mono (fun w hw => kept_mono (fun _ _ _ hr => hr rfl) hw) fun _ _ hw => hw
  · exact fun w hw => kept_of hw rfl rfl rfl
  · exact (runAndStop_loose n).mono (fun _ hw => hw) fun _ w hw => htrue w hw

theorem boot_pristine : Kept pace on₀ Pristine boot := by
  refine ⟨fun r hr => ?_, fun as k s bs he => ?_⟩
  · obtain rfl := Option.some.inj hr
    exact ⟨rfl, rfl, rfl⟩
  · cases as <;> cases he

/-- **One link at a time.** In every run with a controller of any pace, whenever the main loop waits
and the condition has held up to then, the flag is the state of the controller, and with a
connection both are off. -/
theorem one_link (pace : Pace) (on₀ : Bool) (env : Nat → Answer) (proxy improv : Bool) (n : Nat) :
    ∀ as t s bs, ((main proxy improv n).run env boot).2.calls = as ++ (.poll t, s) :: bs →
      ∀ r, (watched pace on₀).after ((.poll t, s) :: bs) = some r → OneLink r s := by
  intro as t s bs he r hr
  obtain ⟨r', hr', hs⟩ := Option.bind_eq_some_iff.mp hr
  obtain ⟨hh, hs⟩ := guard_step hs
  obtain rfl := Option.some.inj hs
  exact (main_kept proxy improv n env boot boot_pristine).past as _ s bs he r' hr' rfl hh

/-! ## A run that does not meet the condition -/

/-- One command is executed before each packet, with the status 0. -/
def steady : Pace := ⟨fun _ => 1, fun _ => 0⟩

/-- A client sets Wi-Fi and leaves, and the advertising is on again. The join fails, so the
advertising has new data; the next client comes while the program waits for the answer to LE Set
Advertising Data. -/
def secondClient : List Answer :=
  let complete op ret : Answer := { arrivals := [commandComplete op ret] }
  let ready : Answer := { poll := some { hci := true } }
  let packet p : Answer := { read := .packet p }
  let ok : Answer := { reply := some (str "OK\n") }
  -- wpa_supplicant has no network
  [{ reply := some (str "id\n") }, {}, { fd := some 3 }, {},
    {}, complete 0x0c03 [], {}, complete 0x0c01 [], {}, complete 0x2001 [],
    {}, complete 0x1009 [1, 2, 3, 4, 5, 6], {}, complete 0x2002 [0x1b, 0x00, 0x04],
    {}, {}, {}, {}, {},
    {}, complete 0x2008 [], {}, complete 0x2009 [], {}, complete 0x2006 [], {}, complete 0x200a [],
    {}, ready, packet connectionComplete, {}, {},
    -- the Wi-Fi command
    ready, packet [0x02, 0x40, 0x20, 0x0d, 0x00, 0x09, 0x00, 0x04, 0x00, 0x12, 0x0e, 0x00,
      0x01, 0x03, 0x01, 0x41, 0x00, 0x46],
    { reply := some (str "0\n") }, ok, ok, ok, {}, {}, {}, {}, {}, {},
    -- the client leaves
    ready, packet [0x04, 0x05, 0x04, 0x00, 0x40, 0x00, 0x13], {}, {}, {},
    {}, complete 0x2008 [], {}, complete 0x2009 [], {}, complete 0x2006 [], {}, complete 0x200a [],
      {}, {},
    -- no address after 30 s
    {}, { clock := 30000 }, ok, ok, {}, {}, { reply := some (str "id\n") }, {},
    -- the next client
    {}, { arrivals := [connectionComplete, commandComplete 0x2008 []] }, {}, complete 0x2009 [],
    {}, complete 0x2006 [], {}, complete 0x200a []]

/-- The first client of that run connects, and the loop waits with the advertising off. -/
theorem one_link_first : ∃ as t s bs r,
    ((main false true 2).run (fun i => secondClient.getD i {}) boot).2.calls = as ++
      (.poll t, s) :: bs ∧
      (watched steady false).after ((.poll t, s) :: bs) = some r ∧ s.conn.isSome = true ∧
        OneLink r s := by
  have hany : ((main false true 2).run (fun i => secondClient.getD i {}) boot).2.calls.tails.any
      (fun l => l.head?.any (fun e => e.1.isPoll && e.2.conn.isSome) &&
        ((watched steady false).after l).isSome) = true := by decide +kernel
  obtain ⟨l, hl, hwait⟩ := List.any_eq_true.mp hany
  obtain ⟨as, he⟩ := (List.mem_tails l _).mp hl
  cases l with
  | nil => cases hwait
  | cons e bs =>
    obtain ⟨k, s⟩ := e
    simp only [List.head?_cons, Option.any_some, Bool.and_eq_true,
      Option.isSome_iff_exists] at hwait
    obtain ⟨⟨hk, hconn⟩, r, hr⟩ := hwait
    cases k with
    | poll t => exact ⟨as, t, s, bs, r, he.symm, hr, Option.isSome_iff_exists.mpr hconn,
        one_link steady false _ false true 2 as t s bs he.symm r hr⟩
    | _ => cases hk

/-- The calls of that run. -/
def secondCalls : List (Call × Daemon) :=
    ((main false true 5).run (fun i => secondClient.getD i {}) boot).2.calls

/-- The loop waits with a connection while the controller advertises. -/
def listens : List (Call × Daemon) → Bool
  | [] => false
  | (k, s) :: bs =>
    k.isPoll && s.conn.isSome && ((radio steady false).after ((k, s) :: bs)).any fun r =>
      s.advertising && r.on

/-- **The advertising goes on with a client connected**, and the controller takes the next one. -/
theorem second_link :
    ∃ as t s bs r, secondCalls = as ++ (.poll t, s) :: bs ∧
      (radio steady false).after ((.poll t, s) :: bs) = some r ∧ s.conn.isSome = true ∧
      r.on = true ∧ ¬ OneLink r s := by
  have hany : secondCalls.tails.any listens = true := by decide +kernel
  obtain ⟨l, hl, hlisten⟩ := List.any_eq_true.mp hany
  obtain ⟨as, he⟩ := (List.mem_tails l secondCalls).mp hl
  cases l with
  | nil => cases hlisten
  | cons e bs =>
    obtain ⟨k, s⟩ := e
    simp only [listens, Bool.and_eq_true, Option.any_eq_true] at hlisten
    obtain ⟨⟨hk, hconn⟩, r, hr, -, hon⟩ := hlisten
    cases k with
    | poll t =>
      exact ⟨as, t, s, bs, r, he.symm, hr, hconn, hon, fun h => by simp [(h.link hconn).2] at hon⟩
    | _ => cases hk

end Esp32S31.BleHa
