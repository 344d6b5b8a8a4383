import Esp32S31.BleHa.Advertising

/-!
# The scan follows the clients

The adapter scans only while a client subscribes. `scanner` is the scan of the controller, as far as
the program has read the answers to its commands: the controller answers them in turn, each with a
status of its own, and a command with the status 0 has its effect.

`timely` is the condition on a run: the program does not write a command or wait while one about the
scan has no answer, so none of them was answered after its time.

* `hciWait_answered`: what is known when `hci_cmd` returns the status of a command with an effect.
* **`scan_follows`**: under the condition, whenever the main loop waits and no command about the
  scan is open, the flag is the scan of the controller, which is on if and only if a client
  subscribes, unless a command about it was refused in this round; and the scan is off when the
  program ends.
-/

namespace Esp32S31.BleHa

open Esp32S31.Lib Prog Monitor

/-- The scan after a command with the status 0: Reset, LE Set Scan Enable. -/
def HciCommand.scans (k : HciCommand) (on : Bool) : Bool :=
  if k.op = 0x0c03 then false else if k.op = 0x200c then k.arg ≠ 0 else on

/-- LE Set Scan Parameters, LE Set Scan Enable. -/
def isScan (op : Nat) : Bool := op = 0x200b || op = 0x200c

/-- The scan of the controller. -/
structure Scanner where
  on : Bool
  /-- the commands without an answer, the oldest first -/
  asked : List HciCommand
  /-- a command about the scan has failed since the loop has waited -/
  refused : Bool
  deriving DecidableEq

namespace Scanner

/-! ## The controller -/

/-- An answer is to the oldest command without one; the command 0 is none. -/
def answer (a : Option (Nat × UInt8)) (r : Scanner) : Option Scanner :=
  match a with
  | none => some r
  | some (op, status) =>
    if op = 0 then some r
    else
      match r.asked with
      | [] => none
      | k :: asked =>
        if k.op = op then
          some
            { on := if status = 0 then k.scans r.on else r.on
              asked := asked
              refused := r.refused || (isScan op && status ≠ 0) }
        else none

/-- One call of the program. -/
def step (r : Scanner) (k : Call) (_ : Daemon) : Option Scanner :=
  match k with
  | .hciWrite pkt ok =>
    if byte pkt 0 = hciCmdPacket then
      if ok = true then some { r with asked := r.asked ++ [⟨get16 pkt 1, byte pkt 4⟩] }
      else some { r with refused := r.refused || isScan (get16 pkt 1) }
    else some r
  | .hciRead p => r.answer (answerOf p)
  | .poll _ => some { r with refused := false }
  | _ => some r

/-- No command about the scan waits for its answer. -/
def settled (r : Scanner) : Bool := r.asked.all fun k => !isScan k.op

/-- The program does not go on while a command about the scan waits for its answer. -/
def timely (r : Scanner) (k : Call) : Bool :=
  match k with
  | .hciWrite pkt ok => !(ok && byte pkt 0 = hciCmdPacket) || r.settled
  | .poll _ => r.settled
  | _ => true

end Scanner

/-- The controller, which scans or not before the program starts. -/
def scanner (on : Bool) : Monitor Call Daemon Scanner := ⟨⟨on, [], false⟩, Scanner.step⟩

/-- The controller, in a run that meets the condition. -/
abbrev watchedScan (on : Bool) : Monitor Call Daemon Scanner :=
  (scanner on).guard fun r k _ => r.timely k = true

namespace Scanner

/-- What holds at a call: the loop waits, or the program ends. -/
def Obeys (r : Scanner) (k : Call) (s : Daemon) : Prop :=
  match k with
  | .poll _ => r.settled = true →
    s.scanning = r.on ∧ (r.refused = false → r.on = decide (0 < subscribers s))
  | .exit => r.settled = true → s.scanning = r.on ∧ (r.refused = false → r.on = false)
  | _ => True

/-- `R` holds of the controller, the flag and the number of subscribers, and the scan has followed
the clients. -/
abbrev Kept (on : Bool) (R : Scanner → Bool → Nat → Prop) : World Call Daemon → Prop :=
  Always (watchedScan on) Obeys fun r s => R r s.scanning (subscribers s)

variable {d : Bool} {R R' : Scanner → Bool → Nat → Prop}

/-- The loop waits, or the program ends. -/
def rests : Call → Bool
  | .poll _ | .exit => true
  | _ => false

theorem obeys_of_busy {k : Call} (hk : rests k = false) (r : Scanner) (s : Daemon) :
    Obeys r k s := by
  cases k <;> first | exact trivial | cases hk

/-- A call with which the program does not rest. -/
theorem kept_step {k : Call} (hb : rests k = false) {w : World Call Daemon} (h : Kept d R w)
    (hk : ∀ r r', R r w.st.scanning (subscribers w.st) → r.timely k = true →
      r.step k w.st = some r' → R' r' w.st.scanning (subscribers w.st)) :
    Kept d R' { w with calls := (k, w.st) :: w.calls } := by
  refine h.call (fun r _ => obeys_of_busy hb r _) fun r r' hr hs => ?_
  obtain ⟨hc, hs⟩ := guard_step hs
  exact hk r r' hr hc hs

/-- A call that the controller takes no notice of. -/
theorem kept_call {k : Call} (hb : rests k = false) (hk : ∀ r s, step r k s = some r)
    {w : World Call Daemon} (h : Kept d R w) :
    Kept d R { w with calls := (k, w.st) :: w.calls } := by
  refine kept_step hb h fun r r' hr _ hs => ?_
  obtain rfl := Option.some.inj ((hk r w.st).symm.trans hs)
  exact hr

/-- A change of the state behind the flag and the clients. -/
theorem kept_of {w w' : World Call Daemon} (h : Kept d R w) (hcalls : w'.calls = w.calls)
    (hflag : w'.st.scanning = w.st.scanning) (hclients : w'.st.clients = w.st.clients) :
    Kept d R w' := by
  refine h.of_state hcalls fun r hr => ?_
  unfold subscribers
  rw [hflag, hclients]
  exact hr

theorem kept_mono (hr : ∀ r f n, R r f n → R' r f n) {w : World Call Daemon} (h : Kept d R w) :
    Kept d R' w := h.mono fun r => hr r _ _

/-! ## What is not about the scan -/

theorem aclSend_kept (cid : Nat) (data : List UInt8) : Keeps (Kept d R) (aclSend cid data) := by
  unfold aclSend
  refine Keeps.bind (Meets.call fun w hw => kept_call rfl (fun _ _ => rfl) hw) fun _ =>
    Keeps.get fun s => ?_
  cases s.conn with
  | none => exact Keeps.pure ()
  | some handle =>
    refine Keeps.ite (Keeps.pure ()) (Keeps.ite (Keeps.pure ()) ?_)
    refine Keeps.bind (Meets.ask fun _ w hw => hw.asked) fun ok => ?_
    refine Keeps.bind (Meets.call fun w hw => kept_call rfl (fun r s => ?_) hw) fun _ =>
      Keeps.when fun _ => ?_
    · unfold step
      exact if_neg (by decide : hciAcl ≠ hciCmdPacket)
    · exact Meets.modify fun w hw => kept_of hw rfl rfl rfl

theorem notify_kept (handle : Nat) (v : List UInt8) : Keeps (Kept d R) (notify handle v) := by
  unfold notify
  refine Keeps.get fun s => Keeps.when fun _ => Keeps.bind (Meets.call fun w hw => ?_) fun _ =>
    aclSend_kept _ _
  exact kept_call rfl (fun _ _ => rfl) hw

theorem kept_improvs : Improvs (Kept d R) where
  asked _ _ hw := hw.asked
  call w k hk hw := by
    cases k <;> first | exact kept_call rfl (fun _ _ => rfl) hw | cases hk
  notify := notify_kept
  error _ _ hw := kept_of hw rfl rfl rfl
  state _ _ hw := kept_of hw rfl rfl rfl
  result _ _ hw := kept_of hw rfl rfl rfl
  dirty _ _ hw := kept_of hw rfl rfl rfl
  rpc _ _ hw := kept_of hw rfl rfl rfl
  joinId _ _ hw := kept_of hw rfl rfl rfl
  joinEnd _ _ hw := kept_of hw rfl rfl rfl
  identifyEnd _ _ hw := kept_of hw rfl rfl rfl
  doneAt _ _ hw := kept_of hw rfl rfl rfl

/-- Clients come and go, where `R` does not count them. -/
theorem kept_clients (hn : ∀ {r f n} m, R r f n → R r f m) : Clients (Kept d R) where
  asked _ _ hw := hw.asked
  call w k hk hw := by
    cases k <;> first | exact kept_call rfl (fun _ _ => rfl) hw | cases hk
  clients _ _ hw := hw.of_state rfl fun _ hr => hn _ hr
  batch _ _ hw := kept_of hw rfl rfl rfl

theorem kept_packets : Packets (Kept d R) :=
  { kept_improvs with
    frame := kept_improvs.l2capFrame (fun _ _ _ hw => kept_call rfl (fun _ _ => rfl) hw)
      aclSend_kept (fun _ _ hw => kept_call rfl (fun _ _ => rfl) hw) fun _ _ hw =>
        kept_of hw rfl rfl rfl
    l2 := fun _ _ hw => kept_of hw rfl rfl rfl
    packet := fun _ _ hw => kept_call rfl (fun _ _ => rfl) hw
    report := fun _ _ _ hw => kept_call rfl (fun _ _ => rfl) hw
    batch := fun _ _ hw => kept_of hw rfl rfl rfl
    batchMs := fun _ _ hw => kept_of hw rfl rfl rfl
    connected := fun _ _ hw => kept_of hw rfl rfl rfl
    disconnected := fun _ hw => kept_of hw rfl rfl rfl
    completed := fun _ _ hw => kept_of hw rfl rfl rfl }

/-! ## Answers -/

/-- A command that does not change the scan. -/
def Plain (k : HciCommand) : Prop := isScan k.op = false ∧ k.op ≠ 0x0c03

theorem Plain.scans {k : HciCommand} (h : Plain k) (on : Bool) : k.scans on = on := by
  have h2 : k.op ≠ 0x200c := by
    intro he
    have hs := h.1
    rw [he] at hs
    exact absurd hs (by decide)
  unfold HciCommand.scans
  rw [if_neg h.2, if_neg h2]

variable {r r' : Scanner} {P S : Bool → Prop} {Q : Nat → Prop} {f : Bool} {n : Nat}

/-- An answer takes the oldest command off the list. -/
theorem answer_cases {a : Option (Nat × UInt8)} (h : r.answer a = some r') :
    (r' = r ∧ ∀ op st, a = some (op, st) → op = 0) ∨
      ∃ k asked st, r.asked = k :: asked ∧ a = some (k.op, st) ∧
        r' = ⟨if st = 0 then k.scans r.on else r.on, asked,
          r.refused || (isScan k.op && st ≠ 0)⟩ := by
  unfold answer at h
  split at h
  · exact .inl ⟨(Option.some.inj h).symm, nofun⟩
  · next op st =>
    split at h
    · next h0 =>
      refine .inl ⟨(Option.some.inj h).symm, fun op' st' he => ?_⟩
      exact (Prod.mk.inj (Option.some.inj he)).1.symm.trans h0
    · split at h
      · cases h
      · next k asked hk =>
        obtain ⟨hop, hr⟩ := Option.ite_none_right_eq_some.mp h
        subst hop
        exact .inr ⟨k, asked, st, hk, rfl, (Option.some.inj hr).symm⟩

/-! ## Commands that are not about the scan -/

/-- The flag is the scan of the controller, and no command about it is under way: `P` holds of the
flag if none was refused, and `Q` of the number of subscribers. -/
structure Tight (P : Bool → Prop) (Q : Nat → Prop) (r : Scanner) (f : Bool) (n : Nat) : Prop where
  plain : ∀ k ∈ r.asked, Plain k
  flag : f = r.on
  accepted : r.refused = false → P f
  clients : Q n

/-- The same, if every command about the scan was answered. -/
structure Loose (P : Bool → Prop) (Q : Nat → Prop) (r : Scanner) (f : Bool) (n : Nat) : Prop where
  started : ∀ k ∈ r.asked, k.op ≠ 0x0c03
  tight : r.settled = true → f = r.on ∧ (r.refused = false → P f)
  clients : Q n

/-- Any flag, any number of subscribers. -/
abbrev Free : Scanner → Bool → Nat → Prop := Loose (fun _ => True) fun _ => True

theorem settled_iff : r.settled = true ↔ ∀ k ∈ r.asked, isScan k.op = false := by
  unfold settled
  rw [List.all_eq_true]
  exact forall₂_congr fun k _ => by rw [Bool.not_eq_true']

theorem Tight.loose (h : Tight P Q r f n) : Loose P Q r f n :=
  ⟨fun k hk => (h.plain k hk).2, fun _ => ⟨h.flag, h.accepted⟩, h.clients⟩

theorem Loose.settled (h : Loose P Q r f n) (hs : r.settled = true) : Tight P Q r f n :=
  ⟨fun k hk => ⟨settled_iff.mp hs k hk, h.started k hk⟩, (h.tight hs).1, (h.tight hs).2, h.clients⟩

theorem Loose.free (h : Loose P Q r f n) : Free r f n :=
  ⟨h.started, fun hs => ⟨(h.tight hs).1, fun _ => trivial⟩, trivial⟩

theorem tight_read (p : List UInt8) {w : World Call Daemon} (h : Kept d (Tight P Q) w) :
    Kept d (Tight P Q) { w with calls := (.hciRead p, w.st) :: w.calls } := by
  refine kept_step rfl h fun r r' hr _ hs => ?_
  rcases answer_cases hs with ⟨rfl, -⟩ | ⟨k, asked, st, hk, -, rfl⟩
  · exact hr
  · have hplain : ∀ k' ∈ k :: asked, Plain k' := hk ▸ hr.plain
    have hk' : Plain k := hplain k List.mem_cons_self
    refine ⟨fun k' h' => hplain k' (List.mem_cons_of_mem _ h'), ?_, fun hf => hr.accepted ?_,
      hr.clients⟩
    · dsimp only
      rw [hk'.scans, ite_self]
      exact hr.flag
    · exact (Bool.or_eq_false_iff.mp hf).1

/-- A command that was written. -/
def give (k : HciCommand) (r : Scanner) : Scanner := { r with asked := r.asked ++ [k] }

/-- The packet of a command. -/
theorem command_fields {op : Nat} (hop : op < 2 ^ 16) (param : List UInt8) :
    let pkt := hciCmdPacket :: put16 op ++ [UInt8.ofNat param.length] ++ param
    byte pkt 0 = hciCmdPacket ∧ get16 pkt 1 = op ∧ byte pkt 4 = param.headD 0 := by
  refine ⟨rfl, get16_put16 hop hciCmdPacket ([UInt8.ofNat param.length] ++ param), ?_⟩
  cases param <;> rfl

/-- A command is written when no command about the scan waits. -/
theorem kept_write {op : Nat} (hop : op < 2 ^ 16) (param : List UInt8) {w : World Call Daemon}
    (h : Kept d R w)
    (hr : ∀ r f n, R r f n → r.settled = true → R' (r.give ⟨op, param.headD 0⟩) f n) :
    Kept d R' { w with
      calls := (.hciWrite (hciCmdPacket :: put16 op ++ [UInt8.ofNat param.length] ++ param) true,
        w.st) :: w.calls } := by
  obtain ⟨h0, h1, h4⟩ := command_fields hop param
  refine kept_step rfl h fun r r' hk hh hs => ?_
  simp only [step, h0, h1, h4, if_true, Option.some.injEq] at hs
  simp only [timely, h0, decide_true, Bool.and_self, Bool.not_true, Bool.false_or] at hh
  subst hs
  exact hr r _ _ hk hh

/-- A command that was not written. -/
theorem kept_unwritten {op : Nat} (hop : op < 2 ^ 16) (param : List UInt8) {w : World Call Daemon}
    (h : Kept d R w)
    (hr : ∀ r f n, R r f n → R' { r with refused := r.refused || isScan op } f n) :
    Kept d R' { w with
      calls := (.hciWrite (hciCmdPacket :: put16 op ++ [UInt8.ofNat param.length] ++ param) false,
        w.st) :: w.calls } := by
  obtain ⟨h0, h1, -⟩ := command_fields hop param
  refine kept_step rfl h fun r r' hk _ hs => ?_
  simp only [step, h0, h1, if_true, Bool.false_eq_true, if_false, Option.some.injEq] at hs
  subst hs
  exact hr r _ _ hk

theorem hciWait_tight (op : Nat) (ret : List UInt8) (ps : List (List UInt8)) :
    Keeps (Kept d (Tight P Q)) (hciWait op ret ps) := by
  induction ps with
  | nil => exact Keeps.pure _
  | cons p ps ih =>
    unfold hciWait
    refine Keeps.ite ih (Keeps.bind (Meets.call fun w hw => tight_read _ hw) fun _ => ?_)
    refine Keeps.ite (Keeps.pure _) (Keeps.ite (Keeps.pure _) ?_)
    exact (kept_packets.handlePacket _).bind fun _ => ih

theorem hciCmdRet_loose {op : Nat} (hop : op < 2 ^ 16) (hp : Plain ⟨op, 0⟩)
    (param ret : List UInt8) : Keeps (Kept d (Loose P Q)) (hciCmdRet op param ret) := by
  have hs : isScan op = false := hp.1
  unfold hciCmdRet
  refine Keeps.bind (Meets.ask fun _ w hw => hw.asked) fun ok => ?_
  cases ok with
  | false =>
    refine Keeps.bind (Meets.call fun w hw => kept_unwritten hop param hw fun r f n hr => ?_)
      fun _ => Keeps.pure _
    rw [hs, Bool.or_false]
    exact hr
  | true =>
    refine Meets.bind (R := fun _ => Kept d (Tight P Q)) (Meets.call fun w hw => ?_) fun _ => ?_
    · refine kept_write hop param hw fun r f n hr hset => ?_
      have ht := hr.settled hset
      refine ⟨fun k hk => ?_, ht.flag, ht.accepted, ht.clients⟩
      rcases List.mem_append.mp hk with hk | hk
      · exact ht.plain k hk
      · obtain rfl := List.mem_singleton.mp hk
        exact hp
    · refine Meets.bind (R := fun _ => Kept d (Tight P Q)) (Meets.ask fun _ w hw => hw.asked)
        fun ps => ?_
      exact (hciWait_tight _ _ _).mono (fun _ hw => hw) fun _ _ hw =>
        kept_mono (fun _ _ _ => Tight.loose) hw

theorem hciCmd_loose {op : Nat} (hop : op < 2 ^ 16) (hp : Plain ⟨op, 0⟩) (param : List UInt8) :
    Keeps (Kept d (Loose P Q)) (hciCmd op param) :=
  (hciCmdRet_loose hop hp param []).bind fun _ => Keeps.pure _

/-! ## Commands with an effect -/

variable {k : HciCommand} {B : Bool → Bool → Prop}

/-- The command `k` is the last one and has no answer; `B` is known of the scan and the flag. -/
structure Waiting (k : HciCommand) (B : Bool → Bool → Prop) (Q : Nat → Prop) (r : Scanner)
    (f : Bool) (n : Nat) : Prop where
  asked : ∃ g, r.asked = g ++ [k] ∧ ∀ k' ∈ g, Plain k'
  before : B r.on f
  clients : Q n

/-- The command `k` was the last one, and it was answered with a status. -/
structure Answered (k : HciCommand) (B : Bool → Bool → Prop) (Q : Nat → Prop) (st : UInt8)
    (r : Scanner) (f : Bool) (n : Nat) : Prop where
  asked : r.asked = []
  after : ∃ o, B o f ∧ r.on = if st = 0 then k.scans o else o
  refused : isScan k.op = true → st ≠ 0 → r.refused = true
  clients : Q n

/-- An answer is the one to `k`, and then it is the last, or `k` goes on waiting. -/
theorem Waiting.answer {a : Option (Nat × UInt8)} (h : Waiting k B Q r f n) (hk : ¬ Plain k)
    (h0 : k.op ≠ 0) (ha : r.answer a = some r') :
    (∃ st, a = some (k.op, st) ∧ Answered k B Q st r' f n) ∨
      (Waiting k B Q r' f n ∧ ∀ st, a ≠ some (k.op, st)) := by
  rcases answer_cases ha with ⟨rfl, hn⟩ | ⟨x, asked, st, hx, rfl, rfl⟩
  · exact .inr ⟨h, fun st he => h0 (hn _ st he)⟩
  · obtain ⟨g, hg, hplain⟩ := h.asked
    rw [hx] at hg
    cases g with
    | nil =>
      obtain ⟨rfl, rfl⟩ := List.cons.inj hg
      refine .inl ⟨st, rfl, rfl, ⟨r.on, h.before, rfl⟩, fun hs hst => ?_, h.clients⟩
      simp [hs, hst]
    | cons y g =>
      obtain ⟨rfl, rfl⟩ := List.cons.inj hg
      have hy : Plain x := hplain x List.mem_cons_self
      refine .inr ⟨⟨⟨g, rfl, fun k' hk' => hplain k' (List.mem_cons_of_mem _ hk')⟩, ?_, h.clients⟩,
        fun st' he => ?_⟩
      · dsimp only
        rw [hy.scans, ite_self]
        exact h.before
      · have hop : x.op = k.op := (Prod.mk.inj (Option.some.inj he)).1
        exact hk ⟨hop ▸ hy.1, hop ▸ hy.2⟩

/-- A packet was read: it is the answer to `k`, or `k` goes on waiting. -/
def Heard (k : HciCommand) (B : Bool → Bool → Prop) (Q : Nat → Prop) (p : List UInt8)
    (r : Scanner) (f : Bool) (n : Nat) : Prop :=
  (∀ st, answerOf p = some (k.op, st) → Answered k B Q st r f n) ∧
    ((∀ st, answerOf p ≠ some (k.op, st)) → Waiting k B Q r f n)

theorem waiting_read (hk : ¬ Plain k) (h0 : k.op ≠ 0) (p : List UInt8) {w : World Call Daemon}
    (h : Kept d (Waiting k B Q) w) :
    Kept d (Heard k B Q p) { w with calls := (.hciRead p, w.st) :: w.calls } := by
  refine kept_step rfl h fun r r' hr _ hs => ?_
  rcases hr.answer hk h0 hs with ⟨st, ha, hans⟩ | ⟨hwait, hn⟩
  · refine ⟨fun st' he => ?_, fun hn => absurd ha (hn st)⟩
    obtain ⟨-, rfl⟩ := Prod.mk.inj (Option.some.inj (ha.symm.trans he))
    exact hans
  · exact ⟨fun st he => absurd he (hn st), fun _ => hwait⟩

/-- What is known behind `hci_cmd`. -/
def Result (k : HciCommand) (B : Bool → Bool → Prop) (Q : Nat → Prop) (a : Option UInt8)
    (r : Scanner) (f : Bool) (n : Nat) : Prop :=
  match a with
  | none => Waiting k B Q r f n
  | some st => Answered k B Q st r f n

/-- **The loop of `hci_cmd`** for a command with an effect. -/
theorem hciWait_answered (hk : ¬ Plain k) (h0 : k.op ≠ 0) (ret : List UInt8)
    (ps : List (List UInt8)) :
    Meets (Kept d (Waiting k B Q)) (hciWait k.op ret ps) fun a =>
      Kept d (Result k B Q a.1) := by
  induction ps with
  | nil => exact Meets.pure fun w hw => hw
  | cons p ps ih =>
    unfold hciWait
    refine Meets.ite (fun _ => ih) fun _ => ?_
    refine Meets.bind (R := fun _ => Kept d (Heard k B Q (p.take 260)))
      (Meets.call fun w hw => waiting_read hk h0 _ hw) fun _ => ?_
    refine Meets.ite (fun h1 => ?_) fun h1 => Meets.ite (fun h2 => ?_) fun h2 => ?_
    · exact Meets.pure fun w hw => kept_mono (fun r f n hr => hr.1 _ (answerOf_complete h1)) hw
    · exact Meets.pure fun w hw => kept_mono (fun r f n hr => hr.1 _ (answerOf_status h2)) hw
    · refine Meets.bind (R := fun _ => Kept d (Waiting k B Q)) ?_ fun _ => ih
      refine (kept_packets.handlePacket _).mono (fun w hw => ?_) fun _ _ hw => hw
      exact kept_mono (fun r f n hr => hr.2 (answerOf_other h1 h2)) hw

/-- **A command with an effect**: it was not written, or the result is what `hci_cmd` returns. -/
theorem hciCmd_answered (hk : ¬ Plain k) (h0 : k.op ≠ 0) (hop : k.op < 2 ^ 16)
    {p : List UInt8} (harg : p.headD 0 = k.arg)
    (hR : ∀ r f n, R r f n → r.settled = true → Waiting k B Q (r.give k) f n) :
    Meets (Kept d R) (hciCmd k.op p) fun a => Kept d fun r f n =>
      (a = none ∧ ∃ r₀, R r₀ f n ∧ r = { r₀ with refused := r₀.refused || isScan k.op }) ∨
        Result k B Q a r f n := by
  unfold hciCmd hciCmdRet
  refine Meets.bind (R := fun a => Kept d fun r f n =>
    (a.1 = none ∧ ∃ r₀, R r₀ f n ∧ r = { r₀ with refused := r₀.refused || isScan k.op }) ∨
      Result k B Q a.1 r f n) ?_ fun a => Meets.pure fun w hw => hw
  refine Meets.bind (R := fun _ => Kept d R) (Meets.ask fun _ w hw => hw.asked) fun ok => ?_
  cases ok with
  | false =>
    refine Meets.bind (R := fun _ => Kept d fun r f n =>
      ∃ r₀, R r₀ f n ∧ r = { r₀ with refused := r₀.refused || isScan k.op })
      (Meets.call fun w hw => kept_unwritten hop p hw fun r f n hr => ⟨r, hr, rfl⟩) fun _ => ?_
    exact Meets.pure fun w hw => kept_mono (fun r f n hr => .inl ⟨rfl, hr⟩) hw
  | true =>
    refine Meets.bind (R := fun _ => Kept d (Waiting k B Q)) (Meets.call fun w hw => ?_)
      fun _ => ?_
    · refine kept_write hop p hw fun r f n hr hs => ?_
      rw [harg]
      exact hR r f n hr hs
    · refine Meets.bind (R := fun _ => Kept d (Waiting k B Q)) (Meets.ask fun _ w hw => hw.asked)
        fun ps => ?_
      refine (hciWait_answered hk h0 _ ps).mono (fun _ hw => hw) fun a w hw => ?_
      exact kept_mono (fun r f n hr => .inr hr) hw

/-! ## The scan -/

/-- Behind a command about the scan: the flag is what it was, and the command has its effect, or it
has failed. -/
theorem scanCmd_loose (hs : isScan k.op = true) {p : List UInt8}
    (harg : p.headD 0 = k.arg) :
    Meets (Kept d (Loose P Q)) (hciCmd k.op p) fun a => Kept d fun r f n =>
      if a = some 0 then r.asked = [] ∧ r.on = k.scans f ∧ Q n else Loose S Q r f n := by
  have hop : k.op = 0x200b ∨ k.op = 0x200c := by
    simpa [isScan] using hs
  have hk : ¬ Plain k := fun h => by rw [h.1] at hs; cases hs
  have h0 : k.op ≠ 0 := by rintro h; rw [h] at hop; revert hop; decide
  have hreset : k.op ≠ 0x0c03 := by rintro h; rw [h] at hop; revert hop; decide
  have h16 : k.op < 2 ^ 16 := by rcases hop with h | h <;> rw [h] <;> decide
  refine (hciCmd_answered (B := fun o f => f = o) (Q := Q) (R := Loose P Q) hk h0 h16 harg ?_).mono
    (fun _ hw => hw) fun a w hw => kept_mono (fun r f n hr => ?_) hw
  · intro r f n hr hset
    have ht := hr.settled hset
    exact ⟨⟨r.asked, rfl, ht.plain⟩, ht.flag, ht.clients⟩
  · rcases hr with ⟨rfl, r₀, hr, rfl⟩ | hr
    · rw [if_neg (by simp)]
      refine ⟨hr.started, fun hset => ⟨(hr.tight hset).1, fun hf => ?_⟩, hr.clients⟩
      rw [hs, Bool.or_true] at hf
      cases hf
    · cases a with
      | none =>
        obtain ⟨g, hg, hplain⟩ := hr.asked
        rw [if_neg (by simp)]
        refine ⟨fun k' hk' => ?_, fun hset => ?_, hr.clients⟩
        · rw [hg] at hk'
          rcases List.mem_append.mp hk' with hk' | hk'
          · exact (hplain k' hk').2
          · rw [List.mem_singleton.mp hk']
            exact hreset
        · have hno := settled_iff.mp hset k (by rw [hg]; simp)
          rw [hs] at hno
          cases hno
      | some st =>
        obtain ⟨hasked, ⟨o, rfl, hon⟩, href, hq⟩ := hr
        by_cases hst : st = 0
        · rw [if_pos (by rw [hst])]
          rw [if_pos hst] at hon
          exact ⟨hasked, hon, hq⟩
        · rw [if_neg (by simpa using hst)]
          rw [if_neg hst] at hon
          refine ⟨fun k' hk' => ?_, fun _ => ⟨hon.symm, fun hf => ?_⟩, hq⟩
          · rw [hasked] at hk'
            cases hk'
          · rw [href hs hst] at hf
            cases hf

/-- **`set_scan`**: the flag is what was asked for, unless a command was refused. -/
theorem setScan_loose (on : Bool) :
    Meets (Kept d (Loose P Q)) (setScan on) fun _ => Kept d (Loose (· = on) Q) := by
  unfold setScan
  refine Meets.get fun s => Meets.when (fun _ => ?_) fun hon w hw => ?_
  · refine Meets.mono (P := Kept d (Loose P Q)) ?_ (fun w hw => hw.1) fun _ _ hw => hw
    refine Meets.bind (R := fun a => Kept d fun r f n =>
      if a = some 0 then Loose (fun _ => True) Q r f n else Loose (· = on) Q r f n)
      (Meets.ite (fun _ => ?_) fun _ => ?_) fun a => Meets.when (fun ha => ?_) fun ha w hw => ?_
    · -- LE Set Scan Parameters
      refine (scanCmd_loose (k := ⟨0x200b, 0x01⟩) (S := (· = on)) rfl rfl).mono (fun _ hw => hw)
        fun a w hw => kept_mono (fun r f n hr => ?_) hw
      split at hr
      · next ha =>
        rw [if_pos ha]
        obtain ⟨hasked, hr, hq⟩ := hr
        refine ⟨fun k' hk' => ?_, fun _ => ⟨hr.symm, fun _ => trivial⟩, hq⟩
        rw [hasked] at hk'
        cases hk'
      · next ha =>
        rw [if_neg ha]
        exact hr
    · exact Meets.pure fun w hw => kept_mono (fun r f n hr => by
        rw [if_pos rfl]
        exact ⟨hr.started, fun hs => ⟨(hr.tight hs).1, fun _ => trivial⟩, hr.clients⟩) hw
    · -- LE Set Scan Enable
      subst ha
      have hcmd := scanCmd_loose (d := d) (P := fun _ => True) (S := (· = on)) (Q := Q)
        (k := ⟨0x200c, if on then 1 else 0⟩) (p := [if on then 1 else 0, 0x00]) rfl rfl
      refine Meets.bind (hcmd.mono (fun w hw => kept_mono (fun r f n hr => by
        rw [if_pos rfl] at hr
        exact hr) hw) fun _ _ hw => hw) fun a => Meets.when (fun ha => ?_) fun ha w hw => ?_
      · subst ha
        refine Meets.modify fun w hw => hw.of_state rfl fun r hr => ?_
        beta_reduce at hr
        rw [if_pos rfl] at hr
        obtain ⟨hasked, hr, hq⟩ := hr
        refine ⟨fun k' hk' => ?_, fun _ => ⟨?_, fun _ => rfl⟩, hq⟩
        · rw [hasked] at hk'
          cases hk'
        · rw [hr]
          cases on <;> rfl
      · exact kept_mono (fun r f n hr => by
          rw [if_neg ha] at hr
          exact hr) hw
    · exact kept_mono (fun r f n hr => by
        rw [if_neg ha] at hr
        exact hr) hw
  · -- the flag says so already
    obtain ⟨hw, rfl⟩ := hw
    refine hw.of_state rfl fun r hr => ?_
    exact ⟨hr.started, fun hs => ⟨(hr.tight hs).1, fun _ => (not_not.mp hon).symm⟩, hr.clients⟩

theorem advertisingData_loose : Keeps (Kept d (Loose P Q)) advertisingData := by
  unfold advertisingData
  refine Keeps.get fun s => (hciCmd_loose (by decide) ⟨rfl, by decide⟩ _).bind fun _ => ?_
  refine Keeps.get fun s => Keeps.when fun _ => ?_
  refine (hciCmd_loose (by decide) ⟨rfl, by decide⟩ _).bind fun _ => ?_
  exact (hciCmd_loose (by decide) ⟨rfl, by decide⟩ _).bind fun _ => Keeps.pure _

theorem setAdvertising_loose (on : Bool) :
    Keeps (Kept d (Loose P Q)) (setAdvertising on) := by
  unfold setAdvertising
  refine Keeps.bind (Keeps.when fun _ => advertisingData_loose) fun _ => Keeps.get fun s => ?_
  refine Keeps.bind (Keeps.when fun _ => ?_) fun _ => Meets.modify fun w hw =>
    kept_of hw rfl rfl rfl
  refine (hciCmd_loose (by decide) ⟨rfl, by decide⟩ _).bind fun a => Keeps.when fun _ => ?_
  exact Meets.modify fun w hw => kept_of hw rfl rfl rfl

/-! ## The start -/

/-- Nothing was written yet. -/
def Pristine (r : Scanner) (f : Bool) (_ : Nat) : Prop := r.asked = [] ∧ f = false

/-- Behind the commands of the start, if they went well. -/
abbrev Began (on : Bool) (ok : Bool) : World Call Daemon → Prop :=
  Kept on fun r f n => ok = true → Free r f n

theorem hciReset_began : Meets (Kept d Pristine) hciReset (Began d) := by
  have hfail : ∀ {R : Scanner → Bool → Nat → Prop},
      Meets (Kept d R) (Pure.pure false : Act Bool) (Began d) := fun {R} =>
    Meets.pure fun w hw => kept_mono (R := R) (fun _ _ _ _ h => nomatch h) hw
  have hfirst := hciCmd_answered (d := d) (R := Pristine) (B := fun _ f => f = false)
    (Q := fun _ => True) (k := ⟨0x0c03, 0⟩) (p := []) (fun h => h.2 rfl) (by decide)
    (by decide) rfl fun r f n hr _ =>
      ⟨⟨[], congrArg (· ++ _) hr.1, fun _ hk => nomatch hk⟩, hr.2, trivial⟩
  unfold hciReset
  refine Meets.bind hfirst fun a => Meets.ite (fun _ => hfail) fun ha => ?_
  obtain rfl := not_not.mp ha
  refine Meets.mono (P := Kept d Free) ?_ (fun w hw => kept_mono (fun r f n hr => ?_) hw)
    fun _ _ hw => hw
  · refine Meets.bind (hciCmd_loose (by decide) ⟨rfl, by decide⟩ _) fun _ =>
      Meets.ite (fun _ => hfail) fun _ => ?_
    refine Meets.bind (hciCmd_loose (by decide) ⟨rfl, by decide⟩ _) fun _ =>
      Meets.pure fun w hw => ?_
    exact kept_mono (fun _ _ _ hr _ => hr) hw
  · rcases hr with ⟨hn, -⟩ | ⟨hasked, ⟨o, rfl, hon⟩, -, -⟩
    · cases hn
    · refine ⟨fun k hk => ?_, fun _ => ⟨?_, fun _ => trivial⟩, trivial⟩
      · rw [hasked] at hk
        cases hk
      · exact hon.symm

theorem hciInit_began : Meets (Kept d Pristine) hciInit (Began d) := by
  have hfail : ∀ w, Kept d Free w → Began d false w := fun w hw =>
    kept_mono (fun _ _ _ _ h => nomatch h) hw
  have hmodify : ∀ g : Daemon → Daemon, (∀ s, (g s).scanning = s.scanning) →
      (∀ s, (g s).clients = s.clients) → Keeps (Kept d Free) (modify g : Act Unit) :=
    fun g hf hc => Meets.modify fun w hw => kept_of hw rfl (hf _) (hc _)
  unfold hciInit
  refine Meets.bind (R := fun _ => Kept d Pristine) (Meets.ask fun _ w hw => hw.asked)
    fun stack => ?_
  refine Meets.bind hciReset_began fun ok => Meets.ite (fun hok => ?_) fun hok => ?_
  · refine Meets.mono (P := Kept d Free) ?_
      (fun w hw => kept_mono (fun _ _ _ hr => hr hok) hw) fun _ _ hw => hw
    refine Meets.bind (hciCmdRet_loose (by decide) ⟨rfl, by decide⟩ _ _) fun a => ?_
    refine Meets.ite (fun _ => Meets.pure hfail) fun _ => ?_
    refine Meets.bind (hmodify _ (fun _ => rfl) fun _ => rfl) fun _ => ?_
    refine Meets.bind (R := fun _ => Kept d Free) ?_ fun _ => ?_
    · unfold hciBuffers
      refine Meets.bind (hciCmdRet_loose (by decide) ⟨rfl, by decide⟩ _ _) fun a => ?_
      refine Keeps.ite (hmodify _ (fun _ => rfl) fun _ => rfl) ?_
      refine Meets.bind (hciCmdRet_loose (by decide) ⟨rfl, by decide⟩ _ _) fun b =>
        Keeps.when fun _ => ?_
      exact hmodify _ (fun _ => rfl) fun _ => rfl
    · refine Meets.bind (hmodify _ (fun _ => rfl) fun _ => rfl) fun _ => Meets.pure fun w hw => ?_
      exact kept_mono (fun _ _ _ hr _ => hr) hw
  · exact Meets.pure fun w hw => kept_mono (fun _ _ _ _ h => nomatch h) hw

theorem setup_free : Keeps (Kept d Free) setup := by
  have hask {α : Type} (f : Answer → α) : Keeps (Kept d Free) (ask f) :=
    Meets.ask fun _ w hw => hw.asked
  unfold setup setupInfo
  refine Keeps.bind ?_ fun _ => (hask _).bind fun led => ?_
  · refine (hask _).bind fun name => (hask _).bind fun mac => (hask _).bind fun model =>
      Keeps.get fun s => ?_
    exact Meets.modify fun w hw => kept_of hw rfl rfl rfl
  · exact Keeps.bind (Meets.modify fun w hw => kept_of hw rfl rfl rfl) fun _ =>
      Meets.modify fun w hw => kept_of hw rfl rfl rfl

/-! ## Runs -/

/-- The loop waits for events: the scan has followed the subscribers that `set_scan` was told. -/
theorem kept_poll {m : Nat} (t : Int) {w : World Call Daemon}
    (h : Kept d (Loose (· = decide (0 < m)) (· = m)) w) :
    Kept d (Tight (fun _ => True) fun _ => True)
      { w with calls := (.poll t, w.st) :: w.calls } := by
  refine h.call (fun r hr hset => ?_) fun r r' hr hs => ?_
  · obtain ⟨hflag, hacc⟩ := hr.tight hset
    have hn : subscribers w.st = m := hr.clients
    refine ⟨hflag, fun hf => ?_⟩
    rw [hn, ← hacc hf, hflag]
  · obtain ⟨hset, hs⟩ := guard_step hs
    obtain rfl := Option.some.inj hs
    have ht := hr.settled hset
    exact ⟨ht.plain, ht.flag, fun _ => trivial, trivial⟩

theorem readAdapter_free : Meets (Kept d (Tight (fun _ => True) fun _ => True)) readAdapter
    fun _ => Kept d Free := by
  have htight : Keeps (Kept d (Tight (fun _ => True) fun _ => True)) readAdapter := by
    unfold readAdapter
    refine Keeps.bind (Meets.ask fun _ w hw => hw.asked) fun r => ?_
    cases r with
    | failed => exact Keeps.pure _
    | nothing => exact Keeps.pure _
    | packet p =>
      refine Keeps.bind (Keeps.when fun _ => ?_) fun _ => Keeps.pure _
      exact Keeps.bind (Meets.call fun w hw => tight_read _ hw) fun _ =>
        kept_packets.handlePacket _
  exact htight.mono (fun _ hw => hw) fun _ _ hw => kept_mono (fun _ _ _ => Tight.loose) hw

theorem free_clients : Clients (Kept d Free) :=
  kept_clients fun _ h => ⟨h.started, h.tight, trivial⟩

theorem timers_free : Keeps (Kept d Free) timers := by
  have hnow := (kept_improvs (d := d) (R := Free)).now
  unfold timers batchTimer doneTimer networkTimer
  refine Keeps.bind ?_ fun _ => kept_improvs.joinTimer.bind fun _ =>
    kept_improvs.identifyTimer.bind fun _ => Keeps.bind ?_ fun _ => ?_
  · refine Keeps.get fun s => Keeps.when fun _ => ?_
    exact Keeps.bind (Meets.ask fun _ w hw => hw.asked) fun t => Keeps.when fun _ =>
      free_clients.flushBatch
  · refine Keeps.get fun s => Keeps.when fun _ => hnow.bind fun t => Keeps.when fun _ => ?_
    refine Keeps.bind (Meets.modify fun w hw => kept_of hw rfl rfl rfl) fun _ => ?_
    refine Keeps.bind (Meets.call fun w hw => kept_call rfl (fun _ _ => rfl) hw) fun _ => ?_
    exact setAdvertising_loose false
  · refine Keeps.get fun s => Keeps.when fun _ => hnow.bind fun t => Keeps.when fun _ => ?_
    refine hnow.bind fun t => Keeps.bind (Meets.modify fun w hw => kept_of hw rfl rfl rfl)
      fun _ => ?_
    refine kept_improvs.wpaNetworks.bind fun n => Keeps.when fun _ => ?_
    refine Keeps.bind (Meets.modify fun w hw => kept_of hw rfl rfl rfl) fun _ => ?_
    refine Keeps.bind (Meets.call fun w hw => kept_call rfl (fun _ _ => rfl) hw) fun _ => ?_
    exact setAdvertising_loose false

theorem serve_free (ready : Ready) :
    Meets (Kept d (Tight (fun _ => True) fun _ => True)) (serve ready) fun _ =>
      Kept d Free := by
  unfold serve
  refine Meets.bind (R := fun _ => Kept d Free) (Meets.ite (fun _ => readAdapter_free) fun _ =>
    Meets.pure fun _ hw => kept_mono (fun _ _ _ => Tight.loose) hw) fun ok => ?_
  refine Keeps.bind (Keeps.when fun _ => ?_) fun _ => Keeps.pure _
  refine (free_clients.readClients ready).bind fun _ => Keeps.get fun s => ?_
  exact Keeps.bind (Keeps.when fun _ => free_clients.flushBatch) fun _ => timers_free

/-- **One round.** -/
theorem round_free : Keeps (Kept d Free) round := by
  have hask {R : Scanner → Bool → Nat → Prop} {α : Type} (f : Answer → α) :
      Keeps (Kept d R) (ask f) := Meets.ask fun _ w hw => hw.asked
  unfold round
  refine (hask _).bind fun stop => Keeps.get fun s => Keeps.ite (Keeps.pure _) ?_
  refine Keeps.bind (Keeps.when fun _ => setAdvertising_loose true) fun _ => Meets.get fun s => ?_
  refine Meets.mono
    (P := Kept d (Loose (fun _ => True) (· = subscribers s))) ?_ ?_ fun _ _ hw => hw
  · refine Meets.bind (setScan_loose (decide (0 < subscribers s))) fun _ => ?_
    refine Meets.bind (R := fun _ => Kept d (Loose (· = decide (0 < subscribers s))
      (· = subscribers s))) ?_ fun t => ?_
    · unfold pollTimeout
      refine (hask _).bind fun t => Keeps.get fun s => ?_
      exact Keeps.ite (Keeps.pure _) (Keeps.ite (Keeps.pure _) (Keeps.pure _))
    · refine Meets.bind (R := fun _ => Kept d (Tight (fun _ => True) fun _ => True))
        (Meets.call fun w hw => kept_poll t hw) fun _ => ?_
      refine Meets.bind (hask _) fun ready => ?_
      cases ready with
      | none => exact Meets.pure fun _ hw => kept_mono (fun _ _ _ => Tight.loose) hw
      | some ready => exact serve_free ready
  · rintro w ⟨hw, rfl⟩
    exact hw.of_state rfl fun r hr => ⟨hr.started, hr.tight, rfl⟩

/-- The end: the scan is off. -/
theorem runAndStop_ends (n : Nat) :
    Meets (Kept d Free) (runAndStop n) fun _ => Kept d fun _ _ _ => True := by
  have htrue : ∀ {R : Scanner → Bool → Nat → Prop} (w : World Call Daemon), Kept d R w →
      Kept d (fun _ _ _ => True) w := fun w hw => kept_mono (fun _ _ _ _ => trivial) hw
  unfold runAndStop
  refine Meets.bind (R := fun _ => Kept d Free)
    (Meets.call fun w hw => kept_call rfl (fun _ _ => rfl) hw) fun _ => ?_
  refine Meets.bind (Keeps.loop round_free n) fun ended => Meets.when (fun _ => ?_) fun _ => htrue
  refine Meets.bind (setScan_loose false) fun _ => Meets.bind (setAdvertising_loose false)
    fun _ => Meets.bind kept_improvs.finishJoin fun _ => Meets.call fun w hw => ?_
  refine hw.call (fun r hr hset => ?_) fun _ _ _ _ => trivial
  obtain ⟨hflag, hacc⟩ := hr.tight hset
  exact ⟨hflag, fun hf => hflag.symm.trans (hacc hf)⟩

theorem main_kept (proxy improv : Bool) (n : Nat) :
    Meets (Kept d Pristine) (main proxy improv n) fun _ => Kept d fun _ _ _ => True := by
  have htrue : ∀ {R : Scanner → Bool → Nat → Prop} (w : World Call Daemon), Kept d R w →
      Kept d (fun _ _ _ => True) w := fun w hw => kept_mono (fun _ _ _ _ => trivial) hw
  refine main_meets (K := Kept d Free) (fun _ _ hw => hw.asked) ?_ ?_ ?_ hciInit_began ?_
    (fun _ _ hw => hw.asked) ?_ (runAndStop_ends n) htrue htrue htrue proxy improv
  · exact fun w cmd r hw => kept_call rfl (fun _ _ => rfl) hw
  · exact fun w b hw => kept_of hw rfl rfl rfl
  · exact fun w b hw => kept_of hw rfl rfl rfl
  · exact setup_free.mono (fun w hw => kept_mono (fun _ _ _ hr => hr rfl) hw) fun _ _ hw => hw
  · exact fun w hw => kept_of hw rfl rfl rfl

theorem boot_pristine : Kept d Pristine boot := by
  refine ⟨fun r hr => ?_, fun as k s bs he => ?_⟩
  · obtain rfl := Option.some.inj hr
    exact ⟨rfl, rfl⟩
  · cases as <;> cases he

end Scanner

/-- **The scan follows the clients.** In every run in which the commands about the scan are answered
in time: whenever the loop waits the flag is the scan of the controller, which is on if and only if
a client subscribes, unless a command was refused since the loop has waited before; and when the
program ends the scan is off, unless it was refused. -/
theorem scan_follows (on₀ : Bool) (env : Nat → Answer) (proxy improv : Bool) (n : Nat) :
    ∀ as k s bs, ((main proxy improv n).run env boot).2.calls = as ++ (k, s) :: bs →
      ∀ r, (watchedScan on₀).after bs = some r → r.settled = true → match k with
        | .poll _ => s.scanning = r.on ∧ (r.refused = false → r.on = decide (0 < subscribers s))
        | .exit => s.scanning = r.on ∧ (r.refused = false → r.on = false)
        | _ => True := by
  intro as k s bs he r hr hset
  have h := (Scanner.main_kept proxy improv n env boot Scanner.boot_pristine).past as k s bs he r hr
  cases k with
  | poll t => exact h hset
  | exit => exact h hset
  | _ => exact trivial

/-- A client connects and subscribes, the scan starts, and the program is stopped. -/
def scanRun : List Answer :=
  let complete op ret : Answer := { arrivals := [commandComplete op ret] }
  [{}, { fd := some 3 }, {},
    {}, complete 0x0c03 [], {}, complete 0x0c01 [], {}, complete 0x2001 [],
    {}, complete 0x1009 [1, 2, 3, 4, 5, 6], {}, complete 0x2002 [0x1b, 0x00, 0x04],
    {}, {}, {}, {}, { fd := some 4 },
    {}, {}, { poll := some { listener := true } }, { fd := some 5 },
    {}, {}, { poll := some { clients := fun i => i = 0 } }, { recv := .bytes [0x00, 0x00, 66] },
    {}, {}, complete 0x200b [], {}, complete 0x200c [], {}, {},
    { stopped := true }, {}, complete 0x200c []]

/-- The loop of that run waits with the scan on. -/
theorem scan_follows_subscription : ∃ as t s bs r,
    ((main true false 4).run (fun i => scanRun.getD i {}) boot).2.calls = as ++ (.poll t, s) :: bs ∧
      (watchedScan false).after bs = some r ∧ r.refused = false ∧ 0 < subscribers s ∧
      s.scanning = r.on ∧ (r.refused = false → r.on = decide (0 < subscribers s)) := by
  have hany : ((main true false 4).run (fun i => scanRun.getD i {}) boot).2.calls.tails.any
      (fun l => l.head?.any (fun e => e.1.isPoll && decide (0 < subscribers e.2)) &&
        ((watchedScan false).after l.tail).any fun r => r.settled && !r.refused) = true := by
    decide +kernel
  obtain ⟨l, hl, hwait⟩ := List.any_eq_true.mp hany
  obtain ⟨as, he⟩ := (List.mem_tails l _).mp hl
  cases l with
  | nil => cases hwait
  | cons e bs =>
    obtain ⟨k, s⟩ := e
    simp only [List.head?_cons, Option.any_some, Bool.and_eq_true, decide_eq_true_eq,
      List.tail_cons, Option.any_eq_true, Bool.not_eq_true'] at hwait
    obtain ⟨⟨hk, hsub⟩, r, hr, hset, href⟩ := hwait
    cases k with
    | poll t =>
      exact ⟨as, t, s, bs, r, he.symm, hr, href, hsub,
        scan_follows false _ true false 4 as (.poll t) s bs he.symm r hr hset⟩
    | _ => cases hk

end Esp32S31.BleHa
