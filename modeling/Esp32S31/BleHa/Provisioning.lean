import Esp32S31.BleHa.Session
import Mathlib.Tactic.ByContra

/-!
# Provisioning over a whole run

`main` keeps to the automaton of the provisioning sessions, from its first call to its end. What the
automaton accepts is said here in the terms of the calls alone.

* **`provisioning`**: `join_id` and the state of Improv agree, every join is finished once with its
  own id, it is kept only after a connection, and `PROVISIONED` is final.
* **`improv_stays_off_iff`**: no join follows the end of Improv, exactly if no packet with a Wi-Fi
  command is handled after an end because of a network.
-/

namespace Esp32S31.BleHa

open Esp32S31.Lib Prog

/-! ## From the start to the end -/

variable {b : Bool}

theorem off_commands : Commands (At ⟨some .idle, ⟨none, 0, 0, b⟩⟩) where
  asked _ _ hw := hw
  write w _ _ hw := (key_call (fun _ _ => rfl) w w.st).trans hw
  read w _ hw := (key_call (fun _ _ => rfl) w w.st).trans hw
  packet := handlePacket_off

/-- The automaton has not refused anything, and nothing is left half done. -/
def Ends (w : World Call Daemon) : Prop := ∃ σ : Session, (key w).session = some σ ∧ σ ≠ .asked

theorem Ends.of_settled {w : World Call Daemon} (h : (key w).Settled) : Ends w := by
  obtain ⟨σ, hσ, hset, -⟩ := h
  refine ⟨σ, hσ, ?_⟩
  rintro rfl
  cases hset

theorem finishJoin_closes : Meets (fun w => (key w).Settled) finishJoin
    fun _ w => (key w).session = some .idle ∨ (key w).session = some .done := by
  rintro env w ⟨σ, hσ, hset, hold⟩
  rw [finishJoin, run_get]
  cases hj : w.st.joinId with
  | none =>
    cases σ with
    | idle => exact .inl hσ
    | done => exact .inr hσ
    | asked => cases hset
    | joining => cases hset
    | ended => cases hset
    | opened id c => exact nomatch hj.symm.trans hold.1
  | some id =>
    have hnone : w.st.stage.joinId ≠ none := by
      rw [show w.st.stage.joinId = some id from hj]
      exact nofun
    cases σ with
    | idle => exact absurd hold.1 hnone
    | asked => cases hset
    | joining => cases hset
    | ended => cases hset
    | done => exact absurd hold.1 hnone
    | opened id' c =>
      obtain rfl : id = id' := Option.some.inj (hj.symm.trans hold.1)
      refine .inl (Meets.bind (R := fun _ => At ⟨some .idle, w.st.stage⟩)
        (Q := fun _ w => (key w).session = some .idle) (at_call (σ := .opened id c) fun _ _ => ?_)
        (fun _ => ?_) env w (congrArg (Key.mk · w.st.stage) hσ))
      · simp [Session.step, Session.finish]
      · exact (At.same (wpaFinish_same ignoresWpa_key _ _) _).mono (fun _ hw => hw)
          fun _ w hw => congrArg Key.session hw

theorem runAndStop_ends (n : Nat) : Meets (fun w => (key w).Settled) (runAndStop n) fun _ =>
    Ends := by
  unfold runAndStop
  refine Meets.bind (keyed (Same.call fun w s => key_call (fun _ _ => rfl) w s) Key.Settled)
    fun _ => ?_
  refine Meets.bind (settled_rounds.run n) fun ended => ?_
  refine Meets.when (fun _ => ?_) fun _ w hw => Ends.of_settled hw
  refine Meets.bind (settled_rounds.scan false) fun _ => ?_
  refine Meets.bind (settled_setAdvertising false) fun _ => ?_
  refine Meets.bind finishJoin_closes fun _ => Meets.call fun w hw => ?_
  refine ⟨.ended, ?_, nofun⟩
  rcases hw with hw | hw
  · exact (Monitor.after_cons hw _ _).trans rfl
  · exact (Monitor.after_cons hw _ _).trans rfl

theorem setup_at : Meets (At ⟨some .idle, ⟨none, 0, 0, b⟩⟩) setup
    fun _ => At ⟨some .idle, ⟨none, improvAuthorized, 0, b⟩⟩ := by
  have hinfo : Same key setupInfo := by
    unfold setupInfo
    refine Same.bind (Same.ask fun _ _ => rfl) fun _ => Same.bind (Same.ask fun _ _ => rfl) fun _ =>
      ?_
    refine Same.bind (Same.ask fun _ _ => rfl) fun _ => Same.bind Same.get fun s => ?_
    exact Same.modify fun _ => rfl
  unfold setup
  refine Meets.bind (At.same hinfo _) fun _ => Meets.bind (At.same (Same.ask fun _ _ => rfl) _)
    fun l => ?_
  refine Meets.bind (at_modify (h := ⟨none, improvAuthorized, 0, b⟩) fun s hs => ?_) fun _ => ?_
  · exact congrArg (fun g : Stage => { g with state := improvAuthorized }) hs
  · exact At.same (Same.modify fun _ => rfl) _

theorem start_ends (n : Nat) : Meets (At ⟨some .idle, ⟨none, 0, 0, b⟩⟩)
    (start n) fun _ => Ends := by
  have hoff : ∀ {st w}, st = 0 ∨ st = improvAuthorized → At ⟨some .idle, ⟨none, st, 0, b⟩⟩ w →
      (key w).Settled := by
    rintro st w (rfl | rfl) hw
    · exact settled_at hw rfl ⟨rfl, zero_ne_provisioning, zero_ne_provisioned, rfl⟩
    · exact settled_at hw rfl ⟨rfl, authorized_ne_provisioning, authorized_ne_provisioned, rfl⟩
  unfold start
  refine Meets.bind (R := fun _ => At ⟨some .idle, ⟨none, 0, 0, b⟩⟩)
    (off_commands.hciInit (J := At ⟨some .idle, ⟨none, 0, 0, b⟩⟩) (fun _ _ hw => hw)
      (fun _ _ _ hw => hw) (fun _ hw => hw) (fun _ hw => hw) fun _ hw => hw)
        fun ok => Meets.when (fun _ => ?_) fun _ _ hw => Ends.of_settled (hoff (.inl rfl) hw)
  refine Meets.bind setup_at fun _ => at_get fun s hs => ?_
  refine Meets.bind (At.same (Same.ite (Same.ask fun _ _ => rfl) (Same.pure _)) _) fun lfd => ?_
  refine Meets.when (fun _ => ?_) fun _ _ hw => Ends.of_settled (hoff (.inr rfl) hw)
  refine Meets.bind (At.same (Same.when (Same.modify fun _ => rfl)) _) fun _ => ?_
  exact (runAndStop_ends n).mono (fun w hw => hoff (.inr rfl) hw) fun _ _ hw => hw

/-- **`main` keeps to the automaton.** -/
theorem main_ends (env : Nat → Answer) (proxy improv : Bool) (n : Nat) :
    Ends ((main proxy improv n).run env boot).2 := by
  have hend : ∀ {b w}, At ⟨some .idle, ⟨none, 0, 0, b⟩⟩ w → Ends w := fun hw =>
    Ends.of_settled (settled_at hw rfl ⟨rfl, zero_ne_provisioning, zero_ne_provisioned, rfl⟩)
  suffices h : Meets (At ⟨some .idle, ⟨none, 0, 0, false⟩⟩) (main proxy improv n) fun _ => Ends from
    h env boot rfl
  unfold main
  refine Meets.bind (At.same (Same.modify fun _ => rfl) _) fun _ => ?_
  refine Meets.bind (At.same (Same.ite (improvNeeded_same ignoresWpa_key) (Same.pure _)) _)
    fun needed => ?_
  refine Meets.bind (at_modify (h := ⟨none, 0, 0, needed⟩) fun s hs => ?_) fun _ => ?_
  · exact congrArg (fun g : Stage => { g with improv := needed }) hs
  · refine Meets.when (fun _ => ?_) fun _ _ hw => hend hw
    refine Meets.bind (At.same (Same.ask fun _ _ => rfl) _) fun bluetoothd => ?_
    refine Meets.when (fun _ => ?_) fun _ _ hw => hend hw
    refine Meets.bind (At.same (Same.ask fun _ _ => rfl) _) fun hci => ?_
    exact Meets.when (fun _ => start_ends n) fun _ _ hw => hend hw

/-! ## What the automaton accepts -/

section Accepted

variable {σ σ' : Session} {k : Call} {s : Daemon} {as bs : List (Call × Daemon)}

/-- A call of `wpa_join`. -/
def Call.isJoin : Call → Bool
  | .join _ _ => true
  | _ => false

/-- A call at which no handler is running. -/
def Call.isQuiet : Call → Bool
  | .packet _ | .poll _ => true
  | _ => false

/-- A call about the join that is open. -/
def Call.isJoinEvent : Call → Bool
  | .joined _ | .connected _ | .finish _ _ => true
  | _ => false

/-- A packet that asks for a join. -/
def asks (c : Call × Daemon) : Bool :=
  match c.1 with
  | .packet p => packetJoins c.2 p
  | _ => false

theorem step_quiet (hk : k.isQuiet = true) (h : σ.step k s = some σ') : σ.Rests s.stage := by
  cases k with
  | packet p => exact (Option.ite_none_right_eq_some.mp h).1
  | poll t => exact (Option.ite_none_right_eq_some.mp h).1
  | _ => cases hk

theorem eq_of_guard {c : Prop} [Decidable c] {τ τ' : Session}
    (h : (if c then some τ else none) = some τ') : τ' = τ :=
  (Option.some.inj (Option.ite_none_right_eq_some.mp h).2).symm

theorem step_join (hk : k.isJoin = true) (h : σ.step k s = some σ') : σ = .asked ∧
    σ' = .joining := by
  cases k with
  | join ssid pass =>
    exact ⟨(Option.ite_none_right_eq_some.mp h).1, eq_of_guard h⟩
  | _ => cases hk

theorem step_asks (hk : asks (k, s) = true) (h : σ.step k s = some σ') : σ = .idle ∧
    σ' = .asked := by
  cases k with
  | packet p =>
    obtain ⟨-, h⟩ := Option.ite_none_right_eq_some.mp h
    rw [if_pos (show packetJoins s p = true from hk)] at h
    exact ⟨(Option.ite_none_right_eq_some.mp h).1, eq_of_guard h⟩
  | _ => cases hk

/-- A packet that does not ask for a join leaves the session as it is. -/
theorem step_packet {p : List UInt8} (hp : packetJoins s p = false)
    (h : σ.step (.packet p) s = some σ') : σ' = σ := by
  obtain ⟨-, h⟩ := Option.ite_none_right_eq_some.mp h
  rw [hp, if_neg nofun] at h
  exact (Option.some.inj h).symm

/-- Only a packet that asks for a join leads to `asked`. -/
theorem step_to_asked (h : σ.step k s = some .asked) : σ = .asked ∨ asks (k, s) = true := by
  cases k with
  | packet p =>
    cases hp : packetJoins s p with
    | true => exact .inr hp
    | false => exact .inl (step_packet hp h).symm
  | poll t => exact .inl (eq_of_guard h).symm
  | joined id => cases id <;> simp [Session.step] at h
  | connected r => cases σ <;> simp [Session.step, Session.report] at h
  | finish id keep => cases σ <;> cases keep <;> simp [Session.step, Session.finish] at h
  | improvEnd why => cases why <;> simp_all [Session.step]
  | _ => simp_all [Session.step]

/-- Only a join leaves `asked`. -/
theorem step_from_asked (h : Session.asked.step k s = some σ') : σ' = .asked ∨ k.isJoin = true := by
  cases k with
  | packet p => cases (step_quiet rfl h).1
  | poll t => cases (step_quiet rfl h).1
  | join ssid pass => exact .inr rfl
  | improvEnd why => cases why <;> simp [Session.step] at h
  | _ => simp_all [Session.step, Session.report, Session.finish]

/-- Provisioning is over, in this run. -/
def Session.Over (σ : Session) : Prop := σ = .done ∨ σ = .ended

/-- Nothing leaves `done` but the end of the program, and nothing asks for a join there. -/
theorem step_over (hσ : σ.Over) (h : σ.step k s = some σ') :
    σ'.Over ∧ k.isJoin = false ∧ asks (k, s) = false := by
  have hj : k.isJoin = false := by
    rw [← Bool.not_eq_true]
    intro hk
    rcases hσ with rfl | rfl <;> cases (step_join hk h).1
  have ha : asks (k, s) = false := by
    rw [← Bool.not_eq_true]
    intro hk
    rcases hσ with rfl | rfl <;> cases (step_asks hk h).1
  refine ⟨?_, hj, ha⟩
  cases k with
  | packet p =>
    have hp : packetJoins s p = false := ha
    obtain rfl := step_packet hp h
    exact hσ
  | poll t =>
    obtain rfl := eq_of_guard h
    exact hσ
  | state st =>
    obtain rfl := eq_of_guard h
    exact hσ
  | join ssid pass => cases hj
  | joined id =>
    have := (Option.ite_none_right_eq_some.mp h).1
    rcases hσ with rfl | rfl <;> cases this
  | connected r => rcases hσ with rfl | rfl <;> cases h
  | finish id keep => rcases hσ with rfl | rfl <;> cases h
  | improvEnd why =>
    cases why with
    | provisioned =>
      obtain rfl := eq_of_guard h
      exact hσ
    | network =>
      obtain rfl := eq_of_guard h
      exact hσ
  | exit => exact .inr (eq_of_guard h)
  | _ =>
    obtain rfl := Option.some.inj h
    exact hσ

theorem over_append {t : Session} (ht : session.after bs = some t) (ho : t.Over)
    (h : session.after (as ++ bs) = some σ) :
    σ.Over ∧ ∀ c ∈ as, c.1.isJoin = false ∧ asks c = false := by
  induction as generalizing σ with
  | nil =>
    obtain rfl := Option.some.inj (ht.symm.trans h)
    exact ⟨ho, fun _ hc => (List.not_mem_nil hc).elim⟩
  | cons c as ih =>
    obtain ⟨τ, hτ, hs⟩ := Option.bind_eq_some_iff.mp h
    obtain ⟨hover, hall⟩ := ih hτ
    obtain ⟨k, s⟩ := c
    obtain ⟨hover', hc⟩ := step_over hover hs
    exact ⟨hover', List.forall_mem_cons.mpr ⟨hc, hall⟩⟩

/-- A join comes from a packet that asks for it. -/
theorem asks_of_join {t : Session} (ht : session.after bs = some t) (hne : t ≠ .asked)
    (h : session.after (as ++ bs) = some σ) :
    (σ = .asked → ∃ c ∈ as, asks c = true) ∧
      ((∃ c ∈ as, c.1.isJoin = true) → ∃ c ∈ as, asks c = true) := by
  induction as generalizing σ with
  | nil =>
    obtain rfl := Option.some.inj (ht.symm.trans h)
    exact ⟨fun he => absurd he hne, fun ⟨_, hc, _⟩ => nomatch hc⟩
  | cons c as ih =>
    obtain ⟨τ, hτ, hs⟩ := Option.bind_eq_some_iff.mp h
    obtain ⟨hasked, hjoin⟩ := ih hτ
    have hmem : (∃ d ∈ as, asks d = true) → ∃ d ∈ c :: as, asks d = true := fun ⟨d, hd, ha⟩ =>
      ⟨d, List.mem_cons_of_mem _ hd, ha⟩
    constructor
    · rintro rfl
      obtain ⟨k, s⟩ := c
      rcases step_to_asked hs with rfl | hc
      · exact hmem (hasked rfl)
      · exact ⟨_, List.mem_cons_self, hc⟩
    · rintro ⟨d, hd, hj⟩
      rcases List.mem_cons.mp hd with rfl | hd
      · exact hmem (hasked (step_join hj hs).1)
      · exact hmem (hjoin ⟨d, hd, hj⟩)

/-- A packet that asks for a join gets it. -/
theorem join_of_asks (h : session.after (as ++ bs) = some σ) (ha : ∃ c ∈ as, asks c = true) :
    (∃ c ∈ as, c.1.isJoin = true) ∨ σ = .asked := by
  induction as generalizing σ with
  | nil =>
    obtain ⟨c, hc, -⟩ := ha
    cases hc
  | cons c as ih =>
    obtain ⟨τ, hτ, hs⟩ := Option.bind_eq_some_iff.mp h
    obtain ⟨d, hd, hda⟩ := ha
    rcases List.mem_cons.mp hd with rfl | hd
    · obtain ⟨k, s⟩ := d
      exact .inr (step_asks hda hs).2
    · rcases ih hτ ⟨d, hd, hda⟩ with ⟨e, he, hj⟩ | rfl
      · exact .inl ⟨e, List.mem_cons_of_mem _ he, hj⟩
      · rcases step_from_asked hs with rfl | hj
        · exact .inr rfl
        · exact .inl ⟨c, List.mem_cons_self, hj⟩

/-- What a call does to the session. -/
theorem step_cases (h : σ.step k s = some σ') :
    (σ' = σ ∧ k.isJoinEvent = false) ∨ (σ = .idle ∧ σ' = .asked ∧ k.isJoinEvent = false) ∨
      (σ = .asked ∧ σ' = .joining ∧ k.isJoinEvent = false) ∨ (k = .exit ∧ σ' = .ended) ∨
      (∃ id, k = .joined id ∧ σ = .joining ∧ σ' = id.elim .idle fun id => .opened id false) ∨
      (∃ id c r, k = .connected r ∧ σ = .opened id c ∧ σ' = .opened id (r = 1)) ∨
      ∃ id keep c, k = .finish id keep ∧ σ = .opened id c ∧ (keep = true → c = true) ∧
        σ' = if keep then .done else .idle := by
  cases k with
  | packet p =>
    cases hp : packetJoins s p with
    | true =>
      obtain ⟨h₁, h₂⟩ := step_asks (k := .packet p) hp h
      exact .inr (.inl ⟨h₁, h₂, rfl⟩)
    | false => exact .inl ⟨step_packet hp h, rfl⟩
  | poll t => exact .inl ⟨eq_of_guard h, rfl⟩
  | state st => exact .inl ⟨eq_of_guard h, rfl⟩
  | join ssid pass =>
    obtain ⟨h₁, h₂⟩ := step_join (k := .join ssid pass) rfl h
    exact .inr (.inr (.inl ⟨h₁, h₂, rfl⟩))
  | joined id =>
    exact .inr (.inr (.inr (.inr (.inl
      ⟨id, rfl, (Option.ite_none_right_eq_some.mp h).1, eq_of_guard h⟩))))
  | connected r =>
    cases σ with
    | opened id c =>
      exact .inr (.inr (.inr (.inr (.inr (.inl ⟨id, c, r, rfl, rfl, (Option.some.inj h).symm⟩)))))
    | _ => cases h
  | finish id keep =>
    cases σ with
    | opened id' c =>
      obtain ⟨⟨rfl, hk⟩, -⟩ := Option.ite_none_right_eq_some.mp h
      exact .inr (.inr (.inr (.inr (.inr (.inr ⟨id, keep, c, rfl, rfl, hk, eq_of_guard h⟩)))))
    | _ => cases h
  | improvEnd why =>
    cases why with
    | provisioned => exact .inl ⟨eq_of_guard h, rfl⟩
    | network => exact .inl ⟨eq_of_guard h, rfl⟩
  | exit => exact .inr (.inr (.inr (.inl ⟨rfl, eq_of_guard h⟩)))
  | _ => exact .inl ⟨(Option.some.inj h).symm, rfl⟩

/-- The id that `wpa_join` returned. -/
def Call.joinedId : Call → Option Nat
  | .joined id => id
  | _ => none

/-- The id that `wpa_finish` was given. -/
def Call.finishedId : Call → Option Nat
  | .finish id _ => some id
  | _ => none

/-- The joins that were opened, newest first. -/
def opened (calls : List (Call × Daemon)) : List Nat := calls.filterMap fun c => c.1.joinedId

/-- The joins that were finished, newest first. -/
def finished (calls : List (Call × Daemon)) : List Nat := calls.filterMap fun c => c.1.finishedId

/-- The join that is open. -/
def Session.openId : Session → Option Nat
  | .opened id _ => some id
  | _ => none

theorem ids_none (hk : k.isJoinEvent = false) : k.joinedId = none ∧ k.finishedId = none := by
  cases k with
  | joined id => cases hk
  | finish id keep => cases hk
  | _ => exact ⟨rfl, rfl⟩

theorem opened_cons (k : Call) (s : Daemon) (bs : List (Call × Daemon)) :
    opened ((k, s) :: bs) = k.joinedId.toList ++ opened bs := by
  simp only [opened, List.filterMap_cons]
  cases k.joinedId with
  | none => rfl
  | some id => rfl

theorem finished_cons (k : Call) (s : Daemon) (bs : List (Call × Daemon)) :
    finished ((k, s) :: bs) = k.finishedId.toList ++ finished bs := by
  simp only [finished, List.filterMap_cons]
  cases k.finishedId with
  | none => rfl
  | some id => rfl

/-- All joins but the open one are finished. -/
theorem opened_eq (h : session.after bs = some σ) : opened bs = σ.openId.toList ++ finished bs := by
  induction bs generalizing σ with
  | nil =>
    obtain rfl := Option.some.inj h
    rfl
  | cons c bs ih =>
    obtain ⟨k, s⟩ := c
    obtain ⟨τ, hτ, hs⟩ := Option.bind_eq_some_iff.mp h
    rw [opened_cons, finished_cons, ih hτ]
    rcases step_cases hs with ⟨rfl, hk⟩ | ⟨rfl, rfl, hk⟩ | ⟨rfl, rfl, hk⟩ | ⟨rfl, rfl⟩ |
      ⟨id, rfl, rfl, rfl⟩ | ⟨id, c, r, rfl, rfl, rfl⟩ | ⟨id, keep, c, rfl, rfl, -, rfl⟩
    · rw [(ids_none hk).1, (ids_none hk).2]
      rfl
    · rw [(ids_none hk).1, (ids_none hk).2]
      rfl
    · rw [(ids_none hk).1, (ids_none hk).2]
      rfl
    · have hτ : τ = .idle ∨ τ = .done := (Option.ite_none_right_eq_some.mp hs).1
      rcases hτ with rfl | rfl <;> rfl
    · cases id <;> rfl
    · rfl
    · cases keep <;> rfl

/-- Nothing follows the end of the program that opens a join. -/
theorem ended_of_exit (h : session.after bs = some σ) (he : ∃ s, (.exit, s) ∈ bs) : σ = .ended := by
  induction bs generalizing σ with
  | nil =>
    obtain ⟨s, hs⟩ := he
    cases hs
  | cons c bs ih =>
    obtain ⟨k, s⟩ := c
    obtain ⟨τ, hτ, hs⟩ := Option.bind_eq_some_iff.mp h
    obtain ⟨s', hs'⟩ := he
    rcases List.mem_cons.mp hs' with heq | hmem
    · cases heq
      exact eq_of_guard hs
    · obtain rfl := ih hτ ⟨s', hmem⟩
      rcases step_cases hs with ⟨rfl, -⟩ | ⟨h, -⟩ | ⟨h, -⟩ | ⟨-, h⟩ | ⟨_, -, h, -⟩ |
        ⟨_, _, _, -, h, -⟩ | ⟨_, _, _, -, h, -⟩
      · rfl
      · cases h
      · cases h
      · exact h
      · cases h
      · cases h
      · cases h

/-- A join that is connected was reported so, and nothing happened to it since. -/
theorem connected_of_opened {id : Nat} (h : session.after bs = some (.opened id true)) :
    ∃ mid s rest, bs = mid ++ (.connected 1, s) :: rest ∧ ∀ c ∈ mid, c.1.isJoinEvent = false := by
  induction bs with
  | nil => cases h
  | cons c bs ih =>
    obtain ⟨k, s⟩ := c
    obtain ⟨τ, hτ, hs⟩ := Option.bind_eq_some_iff.mp h
    rcases step_cases hs with ⟨rfl, hk⟩ | ⟨-, h, -⟩ | ⟨-, h, -⟩ | ⟨-, h⟩ | ⟨id, rfl, -, h⟩ |
      ⟨id, c, r, rfl, -, h⟩ | ⟨id, keep, c, rfl, -, -, h⟩
    · obtain ⟨mid, s', rest, rfl, hmid⟩ := ih hτ
      exact ⟨(k, s) :: mid, s', rest, rfl, List.forall_mem_cons.mpr ⟨hk, hmid⟩⟩
    · cases h
    · cases h
    · cases h
    · cases id <;> cases h
    · have hr : r = 1 := of_decide_eq_true (Session.opened.inj h).2.symm
      subst hr
      exact ⟨[], s, bs, rfl, fun _ hc => (List.not_mem_nil hc).elim⟩
    · cases keep <;> cases h

end Accepted

/-! ## The calls after the end of Improv -/

/-- The main loop ends Improv. -/
def Call.isEnd : Call → Bool
  | .improvEnd _ => true
  | _ => false

/-- The main loop ends Improv because there is a network. -/
def Call.isNetworkEnd : Call → Bool
  | .improvEnd .network => true
  | _ => false

/-- The calls that come after one with `q`. -/
def since (q : Call → Bool) : List (Call × Daemon) → List (Call × Daemon)
  | [] => []
  | c :: cs => if cs.any fun d => q d.1 then c :: since q cs else []

theorem mem_since {q : Call → Bool} {c e : Call × Daemon} {as bs : List (Call × Daemon)}
    (hc : c ∈ as)
    (he : q e.1 = true) : c ∈ since q (as ++ e :: bs) := by
  induction as with
  | nil => cases hc
  | cons a as ih =>
    have hany : (as ++ e :: bs).any (fun d => q d.1) = true :=
      List.any_eq_true.mpr ⟨e, List.mem_append_right _ List.mem_cons_self, he⟩
    rw [List.cons_append, since, if_pos hany]
    rcases List.mem_cons.mp hc with rfl | hc
    · exact List.mem_cons_self
    · exact List.mem_cons_of_mem _ (ih hc)

theorem exists_of_mem_since {q : Call → Bool} {c : Call × Daemon} {calls : List (Call × Daemon)}
    (h : c ∈ since q calls) : ∃ as e bs, calls = as ++ e :: bs ∧ c ∈ as ∧ q e.1 = true := by
  induction calls with
  | nil => cases h
  | cons a cs ih =>
    unfold since at h
    split at h
    · rename_i hany
      rcases List.mem_cons.mp h with rfl | h
      · obtain ⟨e, he, hq⟩ := List.any_eq_true.mp hany
        obtain ⟨as, bs, rfl⟩ := List.append_of_mem he
        exact ⟨c :: as, e, bs, rfl, List.mem_cons_self, hq⟩
      · obtain ⟨as, e, bs, rfl, hc, hq⟩ := ih h
        exact ⟨a :: as, e, bs, rfl, List.mem_cons_of_mem _ hc, hq⟩
    · cases h

/-- No call of `wpa_join` comes after the end of Improv. -/
def staysOff (calls : List (Call × Daemon)) : Bool := (since Call.isEnd calls).all fun c =>
    !c.1.isJoin

/-- After an end because of a network, no packet brings a Wi-Fi command while Improv is authorized.
-/
def unasked (calls : List (Call × Daemon)) : Bool := (since Call.isNetworkEnd calls).all fun c =>
    !asks c

/-! ## The results -/

/-- **What a run of provisioning is.** -/
structure Provisions (calls : List (Call × Daemon)) : Prop where
  /-- While no handler is running, `join_id` is set exactly in `PROVISIONING`. -/
  paired : ∀ c ∈ calls, c.1.isQuiet = true →
    (c.2.joinId.isSome = true ↔ c.2.gatt.state = improvProvisioning)
  /-- At every moment the joins are finished once, in order and with their own ids, but for at most
  one that is open; at the end none is. -/
  once : ∀ as bs, calls = as ++ bs →
    ∃ o : Option Nat, opened bs = o.toList ++ finished bs ∧ ((∃ s, (.exit, s) ∈ bs) → o = none)
  /-- A network is kept only if the last thing that happened to its join is a connection. -/
  keep : ∀ as id s bs, calls = as ++ (.finish id true, s) :: bs →
    ∃ mid s' rest, bs = mid ++ (.connected 1, s') :: rest ∧ ∀ c ∈ mid, c.1.isJoinEvent = false
  /-- `set_state` comes to `PROVISIONED` from `PROVISIONING`, and does not leave it. -/
  only : ∀ st s, (.state st, s) ∈ calls → s.gatt.state ≠ improvProvisioned ∧
    (st = improvProvisioned → s.gatt.state = improvProvisioning)
  /-- Once it is `PROVISIONED` it stays so. -/
  stays : ∀ as c bs, calls = as ++ c :: bs → c.1.isQuiet = true →
    c.2.gatt.state = improvProvisioned →
      ∀ c' ∈ as, c'.1.isQuiet = true → c'.2.gatt.state = improvProvisioned

theorem Session.Rests.paired {σ : Session} {s : Daemon} (h : σ.Rests s.stage) :
    s.joinId.isSome = true ↔ s.gatt.state = improvProvisioning := by
  obtain ⟨hset, hold⟩ := h
  cases σ with
  | idle =>
    have hj : s.joinId = none := hold.1
    rw [hj]
    exact ⟨nofun, fun h => absurd h hold.2.1⟩
  | asked => cases hset
  | joining => cases hset
  | ended => cases hset
  | opened id c =>
    have hj : s.joinId = some id := hold.1
    rw [hj]
    exact ⟨fun _ => hold.2.1, fun _ => rfl⟩
  | done =>
    have hj : s.joinId = none := hold.1
    rw [hj]
    exact ⟨nofun, fun h => absurd (h.symm.trans hold.2.1) provisioning_ne_provisioned⟩

theorem Session.Rests.done {σ : Session} {s : Daemon} (h : σ.Rests s.stage)
    (hp : s.gatt.state = improvProvisioned) : σ = .done := by
  obtain ⟨hset, hold⟩ := h
  cases σ with
  | idle => exact absurd hp hold.2.2.1
  | asked => cases hset
  | joining => cases hset
  | ended => cases hset
  | opened id c => exact absurd (hold.2.1.symm.trans hp) provisioning_ne_provisioned
  | done => rfl

/-- What the automaton accepts is a run of provisioning. -/
theorem provisions_of_accepted {calls : List (Call × Daemon)} {σ : Session}
    (h : session.after calls = some σ) : Provisions calls := by
  have hcut : ∀ {as k s bs}, calls = as ++ (k, s) :: bs →
      ∃ τ τ', session.after bs = some τ ∧ τ.step k s = some τ' ∧
        session.after ((k, s) :: bs) = some τ' := by
    rintro as k s bs rfl
    obtain ⟨τ', hτ'⟩ := Monitor.after_append h
    obtain ⟨τ, hτ, hs⟩ := Option.bind_eq_some_iff.mp hτ'
    exact ⟨τ, τ', hτ, hs, hτ'⟩
  refine ⟨?_, ?_, ?_, ?_, ?_⟩
  · rintro ⟨k, s⟩ hc hq
    obtain ⟨as, bs, he⟩ := List.append_of_mem hc
    obtain ⟨τ, τ', -, hs, -⟩ := hcut he
    exact (step_quiet hq hs).paired
  · rintro as bs rfl
    obtain ⟨τ, hτ⟩ := Monitor.after_append h
    refine ⟨τ.openId, opened_eq hτ, fun he => ?_⟩
    rw [ended_of_exit hτ he]
    rfl
  · intro as id s bs he
    obtain ⟨τ, τ', hτ, hs, -⟩ := hcut he
    cases τ with
    | opened id' c =>
      obtain ⟨⟨-, hk⟩, -⟩ := Option.ite_none_right_eq_some.mp hs
      rw [hk rfl] at hτ
      exact connected_of_opened hτ
    | _ => cases hs
  · intro st s hc
    obtain ⟨as, bs, he⟩ := List.append_of_mem hc
    obtain ⟨τ, τ', -, hs, -⟩ := hcut he
    exact (Option.ite_none_right_eq_some.mp hs).1
  · rintro as ⟨k, s⟩ bs he hq hp ⟨k', s'⟩ hc' hq'
    obtain ⟨τ, τ', -, hs, hτ'⟩ := hcut he
    have hr := step_quiet hq hs
    obtain rfl := hr.done hp
    obtain ⟨as₁, as₂, rfl⟩ := List.append_of_mem hc'
    rw [List.append_assoc, List.cons_append] at he
    obtain ⟨t, t', ht, hs', -⟩ := hcut he
    have hr' := step_quiet hq' hs'
    rcases (over_append hτ' (step_over (.inl rfl) hs).1 ht).1 with rfl | rfl
    · exact hr'.2.2.1
    · cases hr'.1

/-- **Provisioning**, in every run. -/
theorem provisioning (env : Nat → Answer) (proxy improv : Bool) (n : Nat) :
    Provisions ((main proxy improv n).run env boot).2.calls := by
  obtain ⟨σ, hσ, -⟩ := main_ends env proxy improv n
  exact provisions_of_accepted hσ

/-- **Improv stays off** after its end exactly if nobody asks for a join after an end because of a
network. -/
theorem improv_stays_off_iff (env : Nat → Answer) (proxy improv : Bool) (n : Nat) :
    staysOff ((main proxy improv n).run env boot).2.calls = true ↔
      unasked ((main proxy improv n).run env boot).2.calls = true := by
  obtain ⟨σ, hσ, hne⟩ := main_ends env proxy improv n
  generalize hcalls : ((main proxy improv n).run env boot).2 = w at hσ ⊢
  have hacc : session.after w.calls = some σ := hσ
  simp only [staysOff, unasked, List.all_eq_true, Bool.not_eq_true']
  constructor
  · intro hoff c hc
    by_contra ha
    obtain ⟨as, e, bs, he, hmem, hq⟩ := exists_of_mem_since hc
    rw [he] at hacc
    rcases join_of_asks hacc ⟨c, hmem, eq_true_of_ne_false ha⟩ with ⟨d, hd, hj⟩ | rfl
    · have hend : e.1.isEnd = true := by
        cases h : e.1 with
        | improvEnd why => rfl
        | _ => rw [h] at hq; cases hq
      have := hoff d (he ▸ mem_since hd hend)
      rw [hj] at this
      cases this
    · exact hne rfl
  · intro hask c hc
    by_contra hj
    obtain ⟨as, ⟨k, s⟩, bs, he, hmem, hq⟩ := exists_of_mem_since hc
    have hjoin := eq_true_of_ne_false hj
    rw [he] at hacc
    obtain ⟨t, ht⟩ := Monitor.after_append hacc
    obtain ⟨τ, hτ, hs⟩ := Option.bind_eq_some_iff.mp ht
    cases k with
    | improvEnd why =>
      cases why with
      | network =>
        have hidle : τ = .idle := (Option.ite_none_right_eq_some.mp hs).1
        obtain rfl := eq_of_guard hs
        obtain ⟨d, hd, ha⟩ := (asks_of_join ht (by rw [hidle]; exact nofun) hacc).2 ⟨c, hmem, hjoin⟩
        have := hask d (he ▸ mem_since hd rfl)
        rw [ha] at this
        cases this
      | provisioned =>
        have hdone : τ = .done := (Option.ite_none_right_eq_some.mp hs).1
        obtain rfl := eq_of_guard hs
        have := ((over_append ht (.inl hdone) hacc).2 c hmem).1
        rw [hjoin] at this
        cases this
    | _ => cases hq

/-- Improv without the proxy. wpa_supplicant has a network at the first check; while the command
that stops the advertising waits, a client connects and writes a Wi-Fi command. -/
def lateClient : List Answer :=
  let complete op ret : Answer := { arrivals := [commandComplete op ret] }
  [{ reply := some (str "id\n") }, {}, { fd := some 3 }, {},
    {}, complete 0x0c03 [], {}, complete 0x0c01 [], {}, complete 0x2001 [],
    {}, complete 0x1009 [1, 2, 3, 4, 5, 6], {}, complete 0x2002 [0x1b, 0x00, 0x04],
    {}, {}, {}, {}, {},
    {}, complete 0x2008 [], {}, complete 0x2009 [], {}, complete 0x2006 [], {}, complete 0x200a [],
    {}, {}, {}, {}, { reply := some (str "id\n0\n") },
    {}, { arrivals :=
      [connectionComplete,
        [0x02, 0x40, 0x20, 0x0d, 0x00, 0x09, 0x00, 0x04, 0x00, 0x12, 0x0e, 0x00,
          0x01, 0x03, 0x01, 0x41, 0x00, 0x46],
        commandComplete 0x200a []] }]

/-- `wpa_join` is called after the end of Improv. -/
theorem improv_stays_off_not :
    staysOff ((main false true 1).run (fun i => lateClient.getD i {}) boot).2.calls = false := by
  decide +kernel

end Esp32S31.BleHa
