import Esp32S31.ThreadRelay.Relay

/-!
# What the relay does to the streams

`Streams` says what the record of a run is like: which connections are open, what is still to be
written to the device, and what to the newest connection. There is one lemma for each event, and one
step lemma for the relay on top (`Inv.step`).

**`relay_streams`**: over every run. Two connections are open only while `accept_client` closes the
old one (`replaced_open`).
-/

namespace Esp32S31.ThreadRelay

open Esp32S31.Lib

/-! ## The pieces of the stream of the device -/

/-- The stream of the device in the order before, during, after the connection `c`. -/
structure Piece (c : Nat) (log : List Event) : Prop where
  eq : devIn log = before c log ++ during c log ++ after c log
  early : .accept c ∉ log → during c log = [] ∧ after c log = []
  live : .close c ∉ log → after c log = []

theorem Piece.nil (c : Nat) : Piece c [] := ⟨rfl, fun _ => ⟨rfl, rfl⟩, fun _ => rfl⟩

/-- An event that is no read of the device leaves the stream. -/
theorem devInWhen_other (p : List Event → Bool) {e : Event} (he : ∀ b, e ≠ .devRead b)
    (log : List Event) : devInWhen p (e :: log) = devInWhen p log := by
  cases e with
  | devRead b => exact absurd rfl (he b)
  | accept | close | devWrite | devFailed | clientRead | clientWrite | clientFailed => rfl

theorem Piece.other {c : Nat} {log : List Event} (h : Piece c log) {e : Event}
    (he : ∀ b, e ≠ .devRead b) : Piece c (e :: log) where
  eq := by
    unfold devIn before during after
    rw [devInWhen_other _ he, devInWhen_other _ he, devInWhen_other _ he, devInWhen_other _ he]
    exact h.eq
  early hn := by
    unfold during after
    rw [devInWhen_other _ he, devInWhen_other _ he]
    exact h.early fun hm => hn (List.mem_cons_of_mem e hm)
  live hn := by
    unfold after
    rw [devInWhen_other _ he]
    exact h.live fun hm => hn (List.mem_cons_of_mem e hm)

/-- A chunk goes to the end of the piece that its time belongs to. -/
theorem Piece.devRead {c : Nat} {log : List Event} (h : Piece c log) (b : Bytes) :
    Piece c (.devRead b :: log) := by
  have hin : devIn (.devRead b :: log) = devIn log ++ b := rfl
  have hbefore : before c (.devRead b :: log) =
      before c log ++ if .accept c ∈ log then [] else b := by
    unfold before
    rw [devInWhen]
    by_cases ha : .accept c ∈ log <;> simp [ha]
  have hduring : during c (.devRead b :: log) = during c log ++ if isOpen c log then b else [] :=
    rfl
  have hafter : after c (.devRead b :: log) =
      after c log ++ if .accept c ∈ log && .close c ∈ log then b else [] := rfl
  have hacc : .accept c ∈ .devRead b :: log ↔ .accept c ∈ log := by simp
  have hcls : .close c ∈ .devRead b :: log ↔ .close c ∈ log := by simp
  refine ⟨?_, fun hn => ?_, fun hn => ?_⟩
  · rw [hin, hbefore, hduring, hafter, h.eq]
    unfold isOpen
    by_cases ha : .accept c ∈ log
    · by_cases hc : .close c ∈ log
      · simp [ha, hc]
      · simp [ha, hc, h.live hc]
    · obtain ⟨h1, h2⟩ := h.early ha
      simp [ha, h1, h2]
  · rw [hacc] at hn
    obtain ⟨h1, h2⟩ := h.early hn
    rw [hduring, hafter, h1, h2]
    simp [isOpen, hn]
  · rw [hcls] at hn
    rw [hafter, h.live hn]
    simp [hn]

/-! ## The record -/

/-- What is missing on the connection `c`: on the newest one `cur`, and else nothing but what a
failed write has left. -/
def Owed (log : List Event) (accepted : Nat) (conns : List Nat) (cur : Bytes) (c : Nat)
    (rest : Bytes) : Prop :=
  (c + 1 = accepted ∧ c ∈ conns → rest = cur) ∧
    (¬ (c + 1 = accepted ∧ c ∈ conns) → rest = [] ∨ .clientFailed c ∈ log ∧ .close c ∈ log)

/-- What a record is like: `conns` are the open connections, `pend` is still to be written to the
device and `cur` to the newest connection. -/
structure Streams (log : List Event) (accepted : Nat) (conns : List Nat) (pend cur : Bytes) :
    Prop where
  accepts : ∀ c, log.count (.accept c) = if c < accepted then 1 else 0
  closes : ∀ c, log.count (.close c) = if c < accepted ∧ c ∉ conns then 1 else 0
  bound : ∀ c ∈ conns, c < accepted
  dev : devOut log ++ pend = clientIn log
  client : ∀ c, ∃ rest, clientOut c log ++ rest = during c log ∧ Owed log accepted conns cur c rest
  piece : ∀ c, Piece c log

section Events

variable {log : List Event} {accepted : Nat} {conns : List Nat} {pend cur : Bytes}

theorem Streams.nil : Streams [] 0 [] [] [] where
  accepts _ := rfl
  closes _ := rfl
  bound _ h := nomatch h
  dev := rfl
  client _ := ⟨[], rfl, fun _ => rfl, fun _ => Or.inl rfl⟩
  piece c := .nil c

/-- A connection is open in the record exactly if it is one of `conns`. -/
theorem Streams.isOpen_iff (h : Streams log accepted conns pend cur) (c : Nat) :
    isOpen c log = true ↔ c ∈ conns := by
  have ha := h.accepts c
  have hc := h.closes c
  unfold isOpen
  rw [Bool.and_eq_true, decide_eq_true_eq, decide_eq_true_eq, ← List.count_pos_iff,
    ← List.count_eq_zero]
  constructor
  · rintro ⟨h1, h2⟩
    by_contra hno
    rw [ha] at h1
    rw [hc] at h2
    split at h1
    · next hlt => rw [if_pos ⟨hlt, hno⟩] at h2; cases h2
    · cases h1
  · intro hm
    rw [ha, hc, if_pos (h.bound c hm), if_neg fun hx => hx.2 hm]
    exact ⟨Nat.one_pos, rfl⟩

/-- The events that carry no bytes. -/
theorem stream_cons (f : Event → Bytes) (e : Event) (log : List Event) :
    stream f (e :: log) = stream f log ++ f e := rfl

theorem Owed.cons {e : Event} {c : Nat} {rest : Bytes} (h : Owed log accepted conns cur c rest) :
    Owed (e :: log) accepted conns cur c rest :=
  ⟨h.1, fun hn => (h.2 hn).imp_right fun ⟨h1, h2⟩ =>
    ⟨List.mem_cons_of_mem e h1, List.mem_cons_of_mem e h2⟩⟩

/-- A connection that was not accepted yet has no bytes. -/
theorem Streams.fresh (h : Streams log accepted conns pend cur) :
    during accepted log = [] ∧ clientOut accepted log = [] := by
  have hno : .accept accepted ∉ log := by
    rw [← List.count_eq_zero, h.accepts, if_neg (Nat.lt_irrefl accepted)]
  have hdur := ((h.piece accepted).early hno).1
  obtain ⟨rest, heq, -⟩ := h.client accepted
  rw [hdur] at heq
  exact ⟨hdur, (List.append_eq_nil_iff.mp heq).1⟩

theorem Streams.accept (h : Streams log accepted conns pend []) :
    Streams (.accept accepted :: log) (accepted + 1) (accepted :: conns) pend [] where
  accepts c := by
    rw [List.count_cons, h.accepts c]
    by_cases hc : c = accepted
    · subst hc
      simp
    · have hne : ¬ accepted = c := fun e => hc e.symm
      have hlt : c < accepted + 1 ↔ c < accepted := by omega
      simp [hne, hlt]
  closes c := by
    have hne : ¬ (Event.accept accepted == .close c) = true := by simp
    rw [List.count_cons, if_neg hne, Nat.add_zero, h.closes c]
    by_cases hc : c = accepted
    · subst hc
      simp
    · have hlt : c < accepted + 1 ↔ c < accepted := by omega
      simp [hc, hlt]
  bound c hc := by
    rcases List.mem_cons.mp hc with rfl | hc
    · exact Nat.lt_succ_self c
    · exact Nat.lt_succ_of_lt (h.bound c hc)
  dev := by
    have := h.dev
    simpa [devOut, clientIn, stream_cons] using this
  client c := by
    have hdur : during c (.accept accepted :: log) = during c log := rfl
    have hout : clientOut c (.accept accepted :: log) = clientOut c log := by
      simp [clientOut, stream_cons]
    rw [hdur, hout]
    by_cases hc : c = accepted
    · obtain ⟨h1, h2⟩ := h.fresh
      rw [hc, h1, h2]
      exact ⟨[], rfl, fun _ => rfl, fun _ => Or.inl rfl⟩
    · obtain ⟨rest, heq, howed⟩ := h.client c
      refine ⟨rest, heq, fun hn => absurd hn.1 (by omega), fun _ => ?_⟩
      by_cases hnew : c + 1 = accepted ∧ c ∈ conns
      · exact Or.inl (howed.1 hnew)
      · exact (howed.cons.2 hnew)
  piece c := (h.piece c).other nofun

/-- A close of an open connection, of which all is written or the write has failed. -/
theorem Streams.close (h : Streams log accepted conns pend cur) {c : Nat} (hc : c ∈ conns)
    (hcur : cur = [] ∨ c + 1 = accepted ∧ .clientFailed c ∈ log) :
    Streams (.close c :: log) accepted (conns.filter (· ≠ c)) pend [] where
  accepts d := by
    have hne : ¬ (Event.close c == .accept d) = true := by simp
    rw [List.count_cons, if_neg hne, Nat.add_zero]
    exact h.accepts d
  closes d := by
    rw [List.count_cons, h.closes d]
    by_cases hd : d = c
    · subst hd
      simp [hc, h.bound d hc]
    · have hne : ¬ c = d := fun e => hd e.symm
      simp [hne, hd]
  bound d hd := h.bound d (List.mem_filter.mp hd).1
  dev := by
    have := h.dev
    simpa [devOut, clientIn, stream_cons] using this
  client d := by
    have hdur : during d (.close c :: log) = during d log := rfl
    have hout : clientOut d (.close c :: log) = clientOut d log := by simp [clientOut, stream_cons]
    obtain ⟨rest, heq, howed⟩ := h.client d
    rw [hdur, hout]
    refine ⟨rest, heq, fun ⟨hlast, hm⟩ => ?_, fun hn => ?_⟩
    · obtain ⟨hm, hne⟩ := List.mem_filter.mp hm
      have hne' : d ≠ c := by simpa using hne
      rcases hcur with hnil | ⟨hclast, -⟩
      · exact (howed.1 ⟨hlast, hm⟩).trans hnil
      · exact absurd (show d = c by omega) hne'
    · by_cases hnew : d + 1 = accepted ∧ d ∈ conns
      · have hdc : d = c := by
          by_contra hne
          exact hn ⟨hnew.1, List.mem_filter.mpr ⟨hnew.2, by simpa using hne⟩⟩
        subst hdc
        rcases hcur with hnil | ⟨-, hfail⟩
        · exact Or.inl ((howed.1 hnew).trans hnil)
        · exact Or.inr ⟨List.mem_cons_of_mem _ hfail, List.mem_cons_self⟩
      · exact howed.cons.2 hnew
  piece d := (h.piece d).other nofun

/-- Bytes of the device with the newest connection open, or with none. -/
theorem Streams.devRead (h : Streams log accepted conns pend [])
    (hconns : ∀ c ∈ conns, c + 1 = accepted)
    (b : Bytes) : Streams (.devRead b :: log) accepted conns pend b where
  accepts c := by
    have hne : ¬ (Event.devRead b == .accept c) = true := by simp
    rw [List.count_cons, if_neg hne, Nat.add_zero]
    exact h.accepts c
  closes c := by
    have hne : ¬ (Event.devRead b == .close c) = true := by simp
    rw [List.count_cons, if_neg hne, Nat.add_zero]
    exact h.closes c
  bound := h.bound
  dev := by
    have := h.dev
    simpa [devOut, clientIn, stream_cons] using this
  client c := by
    obtain ⟨rest, heq, howed⟩ := h.client c
    have hout : clientOut c (.devRead b :: log) = clientOut c log := by
      simp [clientOut, stream_cons]
    have hdur : during c (.devRead b :: log) = during c log ++ if isOpen c log then b else [] := rfl
    by_cases hm : c ∈ conns
    · have hnew : c + 1 = accepted ∧ c ∈ conns := ⟨hconns c hm, hm⟩
      rw [howed.1 hnew, List.append_nil] at heq
      refine ⟨b, ?_, fun _ => rfl, fun hn => absurd hnew hn⟩
      rw [hout, hdur, (h.isOpen_iff c).mpr hm, if_pos rfl, heq]
    · have hop : ¬ isOpen c log = true := fun hop => hm ((h.isOpen_iff c).mp hop)
      refine ⟨rest, by rw [hout, hdur, if_neg hop, List.append_nil, heq],
        fun hn => absurd hn.2 hm, ?_⟩
      exact fun hn => howed.cons.2 hn
  piece c := (h.piece c).devRead b

/-- An event that neither opens nor closes a connection nor reads the device. -/
theorem Streams.quiet {e : Event} {pend' cur' : Bytes} (h : Streams log accepted conns pend cur)
    (he : (∀ c, e ≠ .accept c) ∧ (∀ c, e ≠ .close c) ∧ ∀ b, e ≠ .devRead b)
    (hdev : devOut (e :: log) ++ pend' = clientIn (e :: log))
    (hclient : ∀ c, ∃ rest, clientOut c (e :: log) ++ rest = during c log ∧
      Owed (e :: log) accepted conns cur' c rest) :
    Streams (e :: log) accepted conns pend' cur' where
  accepts c := (List.count_cons_of_ne (he.1 c)).trans (h.accepts c)
  closes c := (List.count_cons_of_ne (he.2.1 c)).trans (h.closes c)
  bound := h.bound
  dev := hdev
  client c := by
    unfold during
    rw [devInWhen_other _ he.2.2]
    exact hclient c
  piece c := (h.piece c).other he.2.2

/-- The same bytes on the connections. -/
theorem Streams.quiet_client (h : Streams log accepted conns pend cur) {e : Event}
    (he : ∀ c, clientOut c (e :: log) = clientOut c log) (c : Nat) :
    ∃ rest, clientOut c (e :: log) ++ rest = during c log ∧
      Owed (e :: log) accepted conns cur c rest := by
  obtain ⟨rest, heq, howed⟩ := h.client c
  exact ⟨rest, by rw [he c, heq], howed.cons⟩

theorem Streams.clientRead (h : Streams log accepted conns [] cur) (c : Nat) (b : Bytes) :
    Streams (.clientRead c b :: log) accepted conns b cur := by
  refine h.quiet ⟨nofun, nofun, nofun⟩ ?_ (h.quiet_client fun d => List.append_nil _)
  have hdev := h.dev
  rw [List.append_nil] at hdev
  have hout : devOut (.clientRead c b :: log) = devOut log := List.append_nil _
  have hin : clientIn (.clientRead c b :: log) = clientIn log ++ b := rfl
  rw [hout, hin, hdev]

theorem Streams.devWrite (h : Streams log accepted conns pend cur) (k : Nat) :
    Streams (.devWrite (pend.take k) :: log) accepted conns (pend.drop k) cur := by
  refine h.quiet ⟨nofun, nofun, nofun⟩ ?_ (h.quiet_client fun d => List.append_nil _)
  have hout : devOut (.devWrite (pend.take k) :: log) = devOut log ++ pend.take k := rfl
  have hin : clientIn (.devWrite (pend.take k) :: log) = clientIn log := List.append_nil _
  rw [hout, hin, List.append_assoc, List.take_append_drop, h.dev]

theorem Streams.devFailed (h : Streams log accepted conns pend cur) :
    Streams (.devFailed :: log) accepted conns pend cur := by
  refine h.quiet ⟨nofun, nofun, nofun⟩ ?_ (h.quiet_client fun d => List.append_nil _)
  have hout : devOut (.devFailed :: log) = devOut log := List.append_nil _
  have hin : clientIn (.devFailed :: log) = clientIn log := List.append_nil _
  rw [hout, hin, h.dev]

theorem Streams.clientFailed (h : Streams log accepted conns pend cur) (c : Nat) :
    Streams (.clientFailed c :: log) accepted conns pend cur := by
  refine h.quiet ⟨nofun, nofun, nofun⟩ ?_ (h.quiet_client fun d => List.append_nil _)
  have hout : devOut (.clientFailed c :: log) = devOut log := List.append_nil _
  have hin : clientIn (.clientFailed c :: log) = clientIn log := List.append_nil _
  rw [hout, hin, h.dev]

/-- A write to the newest connection. -/
theorem Streams.clientWrite (h : Streams log accepted conns pend cur) {c : Nat}
    (hc : c + 1 = accepted ∧ c ∈ conns) (k : Nat) :
    Streams (.clientWrite c (cur.take k) :: log) accepted conns pend (cur.drop k) := by
  refine h.quiet ⟨nofun, nofun, nofun⟩ ?_ fun d => ?_
  · have hout : devOut (.clientWrite c (cur.take k) :: log) = devOut log := List.append_nil _
    have hin : clientIn (.clientWrite c (cur.take k) :: log) = clientIn log := List.append_nil _
    rw [hout, hin, h.dev]
  · obtain ⟨rest, heq, howed⟩ := h.client d
    by_cases hd : c = d
    · subst hd
      have hout : clientOut c (.clientWrite c (cur.take k) :: log) = clientOut c log ++
          cur.take k := by
        simp [clientOut, stream_cons]
      refine ⟨cur.drop k, ?_, fun _ => rfl, fun hn => absurd hc hn⟩
      rw [hout, List.append_assoc, List.take_append_drop, ← howed.1 hc, heq]
    · have hout : clientOut d (.clientWrite c (cur.take k) :: log) = clientOut d log := by
        simp [clientOut, stream_cons, hd]
      exact ⟨rest, by rw [hout, heq], fun hn => absurd (show c = d by omega) hd, howed.cons.2⟩

/-- With no connection nothing is missing on the newest one. -/
theorem Streams.without (h : Streams log accepted [] pend cur) (cur' : Bytes) :
    Streams log accepted [] pend cur' where
  accepts := h.accepts
  closes := h.closes
  bound := h.bound
  dev := h.dev
  client c := by
    obtain ⟨rest, heq, howed⟩ := h.client c
    exact ⟨rest, heq, fun hn => absurd hn.2 List.not_mem_nil, howed.2⟩
  piece := h.piece

end Events

/-! ## The relay -/

/-- The descriptors and the record between two passes, and wherever all is written. -/
structure Calm (s : State) (conns : List Nat) (pend cur : Bytes) : Prop where
  fds : s.fds = match s.client with
    | none => fun _ => none
    | some n => Function.update (fun _ => none) n (some (s.accepted - 1))
  newest_eq : conns = if s.client.isSome then [s.accepted - 1] else []
  streams : Streams s.log s.accepted conns pend cur

/-- What holds at each place of the relay. -/
def PcOk (s : State) : Prop :=
  match s.pc with
  | .poll | .accept | .readDev => ∃ conns, Calm s conns [] []
  | .readClient => s.client.isSome = true ∧ ∃ conns, Calm s conns [] []
  | .closeOld old n => s.client = some old ∧ old ≠ n ∧
    s.fds = Function.update (Function.update (fun _ => none) old (some (s.accepted - 2))) n
      (some (s.accepted - 1)) ∧
    ∃ a, s.accepted = a + 2 ∧ Streams s.log s.accepted [a + 1, a] [] []
  | .writeClient rest => s.client.isSome = true ∧ ∃ conns, Calm s conns [] rest
  | .closeClient => s.client.isSome = true ∧ ∃ conns cur, Calm s conns [] cur ∧
    (cur = [] ∨ .clientFailed (s.accepted - 1) ∈ s.log)
  | .writeDev rest => ∃ conns, Calm s conns rest []
  | .finish => ∃ conns pend, Calm s conns pend [] ∧ (pend = [] ∨ .devFailed ∈ s.log)
  | .returned => ∃ pend, Streams s.log s.accepted [] pend [] ∧ (pend = [] ∨ .devFailed ∈ s.log)

section Relay

variable {s : State} {conns : List Nat} {pend cur : Bytes}

/-- The newest connection is behind the descriptor of the client. -/
theorem Calm.newest (h : Calm s conns pend cur) {n : Nat} (hn : s.client = some n) :
    ∃ a, s.accepted = a + 1 ∧ conns = [a] ∧ s.fds n = some a := by
  have hconns := h.newest_eq
  rw [hn, Option.isSome_some, if_pos rfl] at hconns
  have hlt := h.streams.bound (s.accepted - 1) (by rw [hconns]; exact List.mem_singleton_self _)
  refine ⟨s.accepted - 1, by omega, hconns, ?_⟩
  have hfds := h.fds
  rw [hn] at hfds
  rw [hfds]
  exact Function.update_self n _ _

theorem clientTest_ok (h : Calm s conns [] []) : PcOk (clientTest s) := by
  have hcalm : Calm (clientTest s) conns [] [] := ⟨h.fds, h.newest_eq, h.streams⟩
  unfold PcOk
  by_cases ht : (s.client.isSome && s.rev2.any) = true
  · have hpc : (clientTest s).pc = .readClient := if_pos ht
    rw [hpc]
    exact ⟨((Bool.and_eq_true _ _).mp ht).1, conns, hcalm⟩
  · have hpc : (clientTest s).pc = .poll := if_neg ht
    rw [hpc]
    exact ⟨conns, hcalm⟩

theorem deviceTest_ok (h : Calm s conns [] []) : PcOk (deviceTest s) := by
  unfold deviceTest
  split
  · exact ⟨conns, h.fds, h.newest_eq, h.streams⟩
  · exact clientTest_ok h

/-- A new connection, without an old one or with one that is closed now. -/
theorem setClient_calm {old : Option Nat} {n a : Nat} (ha : s.accepted = a + 1)
    (hfds : s.fds = Function.update (fun _ => none) n (some a))
    (hs : Streams s.log s.accepted [a] [] []) : Calm (setClient s old n) [a] [] [] where
  fds := by
    have : s.accepted - 1 = a := by omega
    rw [← this] at hfds
    exact hfds
  newest_eq := by
    have : s.accepted - 1 = a := by omega
    rw [← this]
    rfl
  streams := hs

/-- The client is closed: all is written to it, or the write has failed. -/
theorem closeFd_client (h : Calm s conns pend cur) {n : Nat} (hn : s.client = some n)
    (hcur : cur = [] ∨ .clientFailed (s.accepted - 1) ∈ s.log) :
    (closeFd s n).fds = (fun _ => none) ∧ Streams (closeFd s n).log s.accepted [] pend [] := by
  obtain ⟨a, ha, rfl, hfd⟩ := h.newest hn
  have hfds := h.fds
  rw [hn] at hfds
  constructor
  · unfold closeFd
    dsimp only
    rw [hfds, Function.update_idem, Function.update_eq_self_iff]
  · have hclose := h.streams.close (List.mem_singleton_self a)
      (hcur.imp_right fun hf => ⟨ha.symm, by rwa [ha] at hf⟩)
    have hlog : (closeFd s n).log = .close a :: s.log := by
      unfold closeFd
      rw [hfd]
      rfl
    rw [hlog]
    simpa using hclose

/-- `accept` gives a descriptor that is not in use. -/
theorem accept_ok {n : Nat} {s' : State} (h : Calm s conns [] []) (hpc : s.pc = .accept)
    (hs : step (.fd n) s = some s') : PcOk s' := by
  obtain ⟨pc, client, rev0, rev2, fds, accepted, log⟩ := s
  obtain rfl : pc = .accept := hpc
  unfold step at hs
  dsimp only at hs
  split at hs
  · next hfree =>
    obtain rfl := Option.some.inj hs
    have hstreams := h.streams.accept
    have hfds := h.fds
    have hconns := h.newest_eq
    dsimp only at hfds hconns hstreams
    cases client with
    | none =>
      obtain rfl : conns = [] := hconns
      refine deviceTest_ok (setClient_calm (a := accepted) rfl ?_ hstreams)
      exact congrArg (fun f => Function.update f n (some accepted)) hfds
    | some old =>
      obtain ⟨a, ha, rfl, hold⟩ := h.newest rfl
      dsimp only at ha hold
      have hne : old ≠ n := by
        rintro rfl
        rw [hold] at hfree
        cases hfree
      subst ha
      refine ⟨rfl, hne, ?_, a, rfl, hstreams⟩
      exact congrArg (fun f => Function.update f n (some (a + 1))) hfds
  · cases hs

/-- The old client is closed, the new one is the client. -/
theorem closeOld_ok {old n : Nat} (h : PcOk s) (hpc : s.pc = .closeOld old n) :
    PcOk (deviceTest (setClient (closeFd s old) (some old) n)) := by
  unfold PcOk at h
  rw [hpc] at h
  obtain ⟨-, hne, hfds, a, ha, hs⟩ := h
  have hold : s.fds old = some a := by
    rw [hfds, Function.update_of_ne hne, Function.update_self, ha]
    rfl
  have hclose : Streams (.close a :: s.log) s.accepted [a + 1] [] [] := by
    have := hs.close (c := a) (List.mem_cons_of_mem _ (List.mem_singleton_self a)) (Or.inl rfl)
    simpa using this
  refine deviceTest_ok (setClient_calm (a := a + 1) ha ?_ ?_)
  · unfold closeFd
    dsimp only
    rw [hfds, Function.update_comm hne.symm, Function.update_idem, ha]
    congr 1
    exact Function.update_eq_self old _
  · have hlog : (closeFd s old).log = .close a :: s.log := by
      unfold closeFd
      rw [hold]
      rfl
    rw [hlog]
    exact hclose

theorem Calm.last (h : Calm s conns pend cur) : ∀ c ∈ conns, c + 1 = s.accepted := by
  intro c hc
  cases hcl : s.client with
  | none =>
    have hconns := h.newest_eq
    rw [hcl] at hconns
    obtain rfl : conns = [] := hconns
    cases hc
  | some n =>
    obtain ⟨a, ha, rfl, -⟩ := h.newest hcl
    obtain rfl := List.mem_singleton.mp hc
    exact ha.symm

/-- A chunk of the device goes to the client, or to nobody. -/
theorem readDev_ok {b : Bytes} {s' : State} (h : Calm s conns [] []) (hpc : s.pc = .readDev)
    (hs : step (.bytes b) s = some s') : PcOk s' := by
  obtain ⟨pc, client, rev0, rev2, fds, accepted, log⟩ := s
  obtain rfl : pc = .readDev := hpc
  unfold step at hs
  dsimp only at hs
  split at hs
  · obtain rfl := Option.some.inj hs
    have hstreams := h.streams.devRead h.last b
    have hconns := h.newest_eq
    cases client with
    | none =>
      obtain rfl : conns = [] := hconns
      exact clientTest_ok ⟨h.fds, rfl, hstreams.without []⟩
    | some n => exact ⟨rfl, conns, h.fds, hconns, hstreams⟩
  · cases hs

/-- A write to the client takes a part of what is left. -/
theorem writeClient_ok {rest : Bytes} {k : Nat} {s' : State} (h : Calm s conns [] rest)
    (hsome : s.client.isSome = true) (hpc : s.pc = .writeClient rest)
    (hs : step (.took k) s = some s') : PcOk s' := by
  obtain ⟨n, hn⟩ := Option.isSome_iff_exists.mp hsome
  obtain ⟨a, ha, hconns, hfd⟩ := h.newest hn
  have hbind : s.client.bind s.fds = some a := by
    rw [hn]
    exact hfd
  unfold step at hs
  rw [hpc] at hs
  dsimp only at hs
  rw [hbind] at hs
  dsimp only at hs
  split at hs
  · obtain rfl := Option.some.inj hs
    have hmem : a ∈ conns := hconns ▸ List.mem_singleton_self a
    have hstreams := h.streams.clientWrite ⟨ha.symm, hmem⟩ k
    split
    · next hdone =>
      rw [hdone] at hstreams
      exact clientTest_ok ⟨h.fds, h.newest_eq, hstreams⟩
    · exact ⟨hsome, conns, h.fds, h.newest_eq, hstreams⟩
  · cases hs

/-- A write to the client fails: the rest of the chunk is lost, and the client is closed next. -/
theorem writeClient_failed {rest : Bytes} (h : Calm s conns [] rest)
    (hsome : s.client.isSome = true) : PcOk { s with
      pc := .closeClient
      log := (s.client.bind s.fds).toList.map .clientFailed ++ s.log } := by
  obtain ⟨n, hn⟩ := Option.isSome_iff_exists.mp hsome
  obtain ⟨a, ha, -, hfd⟩ := h.newest hn
  have hbind : s.client.bind s.fds = some a := by
    rw [hn]
    exact hfd
  have hlast : s.accepted - 1 = a := by omega
  rw [hbind]
  refine ⟨hsome, conns, rest, ⟨h.fds, h.newest_eq, h.streams.clientFailed a⟩, Or.inr ?_⟩
  dsimp only
  rw [hlast]
  exact List.mem_cons_self

theorem readClient_ok {b : Bytes} {s' : State} (h : Calm s conns [] []) (hpc : s.pc = .readClient)
    (hs : step (.bytes b) s = some s') : PcOk s' := by
  unfold step at hs
  rw [hpc] at hs
  dsimp only at hs
  split at hs
  · next c _ =>
    split at hs
    · obtain rfl := Option.some.inj hs
      exact ⟨conns, h.fds, h.newest_eq, h.streams.clientRead c b⟩
    · cases hs
  · cases hs

theorem writeDev_ok {rest : Bytes} {k : Nat} {s' : State} (h : Calm s conns rest [])
    (hpc : s.pc = .writeDev rest) (hs : step (.took k) s = some s') : PcOk s' := by
  unfold step at hs
  rw [hpc] at hs
  dsimp only at hs
  split at hs
  · obtain rfl := Option.some.inj hs
    have hstreams := h.streams.devWrite k
    split
    · next hdone =>
      rw [hdone] at hstreams
      exact ⟨conns, h.fds, h.newest_eq, hstreams⟩
    · exact ⟨conns, h.fds, h.newest_eq, hstreams⟩
  · cases hs

/-- One system call. -/
theorem PcOk.step {a : Answer} {s s' : State} (h : PcOk s) (hs : step a s = some s') : PcOk s' := by
  have hok := h
  have hstep := hs
  unfold PcOk at h
  unfold ThreadRelay.step at hs
  cases hpc : s.pc with
  | accept =>
    rw [hpc] at h hs
    obtain ⟨conns, hcalm⟩ := h
    cases a with
    | fd n => exact accept_ok hcalm hpc hstep
    | failed | again => exact Option.some.inj hs ▸ deviceTest_ok hcalm
    | ok | ready | bytes | took => cases hs
  | closeOld old n =>
    rw [hpc] at hs
    cases a with
    | ok => exact Option.some.inj hs ▸ closeOld_ok hok hpc
    | failed | again | fd | ready | bytes | took => cases hs
  | poll =>
    rw [hpc] at h hs
    obtain ⟨conns, hcalm⟩ := h
    have hsame : ∀ pc rev0 rev2, Calm { s with pc := pc, rev0 := rev0, rev2 := rev2 } conns [] [] :=
      fun _ _ _ => ⟨hcalm.fds, hcalm.newest_eq, hcalm.streams⟩
    cases a with
    | again => exact Option.some.inj hs ▸ hok
    | failed =>
      obtain rfl := Option.some.inj hs
      exact ⟨conns, [], hsame _ _ _, Or.inl rfl⟩
    | ready dev listener client =>
      obtain rfl := Option.some.inj hs
      split
      · exact ⟨conns, hsame _ _ _⟩
      · exact deviceTest_ok (hsame _ _ _)
    | ok | fd | bytes | took => cases hs
  | readDev =>
    rw [hpc] at h hs
    obtain ⟨conns, hcalm⟩ := h
    cases a with
    | bytes b => exact readDev_ok hcalm hpc hstep
    | again => exact Option.some.inj hs ▸ clientTest_ok hcalm
    | failed =>
      obtain rfl := Option.some.inj hs
      exact ⟨conns, [], ⟨hcalm.fds, hcalm.newest_eq, hcalm.streams⟩, Or.inl rfl⟩
    | ok | fd | ready | took => cases hs
  | writeClient rest =>
    rw [hpc] at h hs
    obtain ⟨hsome, conns, hcalm⟩ := h
    cases a with
    | took k => exact writeClient_ok hcalm hsome hpc hstep
    | again => exact Option.some.inj hs ▸ hok
    | failed => exact Option.some.inj hs ▸ writeClient_failed hcalm hsome
    | ok | fd | ready | bytes => cases hs
  | closeClient =>
    rw [hpc] at h hs
    obtain ⟨hsome, conns, cur, hcalm, hcur⟩ := h
    obtain ⟨n, hn⟩ := Option.isSome_iff_exists.mp hsome
    obtain ⟨hfds, hstreams⟩ := closeFd_client hcalm hn hcur
    cases a with
    | ok =>
      obtain rfl := Option.some.inj hs
      rw [hn]
      exact ⟨[], hfds, rfl, hstreams⟩
    | failed | again | fd | ready | bytes | took => cases hs
  | readClient =>
    rw [hpc] at h hs
    obtain ⟨hsome, conns, hcalm⟩ := h
    cases a with
    | bytes b => exact readClient_ok hcalm hpc hstep
    | again =>
      obtain rfl := Option.some.inj hs
      exact ⟨conns, hcalm.fds, hcalm.newest_eq, hcalm.streams⟩
    | failed =>
      obtain rfl := Option.some.inj hs
      exact ⟨hsome, conns, [], ⟨hcalm.fds, hcalm.newest_eq, hcalm.streams⟩, Or.inl rfl⟩
    | ok | fd | ready | took => cases hs
  | writeDev rest =>
    rw [hpc] at h hs
    obtain ⟨conns, hcalm⟩ := h
    cases a with
    | took k => exact writeDev_ok hcalm hpc hstep
    | again => exact Option.some.inj hs ▸ hok
    | failed =>
      obtain rfl := Option.some.inj hs
      exact ⟨conns, rest, ⟨hcalm.fds, hcalm.newest_eq, hcalm.streams.devFailed⟩,
        Or.inr List.mem_cons_self⟩
    | ok | fd | ready | bytes => cases hs
  | finish =>
    rw [hpc] at h hs
    obtain ⟨conns, pend, hcalm, hpend⟩ := h
    cases a with
    | ok =>
      obtain rfl := Option.some.inj hs
      cases hc : s.client with
      | none =>
        have hconns := hcalm.newest_eq
        rw [hc] at hconns
        obtain rfl : conns = [] := hconns
        exact ⟨pend, hcalm.streams, hpend⟩
      | some n =>
        have hstreams := (closeFd_client hcalm hc (Or.inl rfl)).2
        exact ⟨pend, hstreams, hpend.imp_right fun hm => List.mem_append_right _ hm⟩
    | failed | again | fd | ready | bytes | took => cases hs
  | returned =>
    rw [hpc] at hs
    cases a with
    | ok | failed | again | fd | ready | bytes | took => cases hs

theorem PcOk.reach {s : State} (hr : relay.Reach s) : PcOk s := by
  refine hr.invariant (fun s h0 => ?_) fun a s s' _ h _ hs => h.step hs
  obtain rfl : s = _ := h0
  exact ⟨[], rfl, rfl, .nil⟩

/-- The connections that are open at a place of the relay, and what is still to be written. -/
theorem PcOk.record (h : PcOk s) : ∃ conns pend cur, Streams s.log s.accepted conns pend cur ∧
    (pend = [] ∨ s.pc = .writeDev pend ∨ .devFailed ∈ s.log) ∧
    (cur = [] ∨ s.pc = .writeClient cur ∨ .clientFailed (s.accepted - 1) ∈ s.log) ∧
    (conns.length ≤ 1 ∨ ∃ old n, s.pc = .closeOld old n) ∧ (s.pc = .returned → conns = []) := by
  have hone : ∀ {conns pend cur}, Calm s conns pend cur → conns.length ≤ 1 := by
    intro conns pend cur hcalm
    rw [hcalm.newest_eq]
    split <;> simp
  unfold PcOk at h
  cases hpc : s.pc with
  | poll | accept | readDev =>
    rw [hpc] at h
    obtain ⟨conns, hcalm⟩ := h
    exact ⟨conns, [], [], hcalm.streams, Or.inl rfl, Or.inl rfl, Or.inl (hone hcalm), nofun⟩
  | readClient =>
    rw [hpc] at h
    obtain ⟨-, conns, hcalm⟩ := h
    exact ⟨conns, [], [], hcalm.streams, Or.inl rfl, Or.inl rfl, Or.inl (hone hcalm), nofun⟩
  | closeOld old n =>
    rw [hpc] at h
    obtain ⟨-, -, -, a, -, hs⟩ := h
    exact ⟨[a + 1, a], [], [], hs, Or.inl rfl, Or.inl rfl, Or.inr ⟨old, n, rfl⟩, nofun⟩
  | writeClient rest =>
    rw [hpc] at h
    obtain ⟨-, conns, hcalm⟩ := h
    exact ⟨conns, [], rest, hcalm.streams, Or.inl rfl, Or.inr (Or.inl rfl), Or.inl (hone hcalm),
      nofun⟩
  | closeClient =>
    rw [hpc] at h
    obtain ⟨-, conns, cur, hcalm, hcur⟩ := h
    exact ⟨conns, [], cur, hcalm.streams, Or.inl rfl, hcur.imp_right Or.inr, Or.inl (hone hcalm),
      nofun⟩
  | writeDev rest =>
    rw [hpc] at h
    obtain ⟨conns, hcalm⟩ := h
    exact ⟨conns, rest, [], hcalm.streams, Or.inr (Or.inl rfl), Or.inl rfl, Or.inl (hone hcalm),
      nofun⟩
  | finish =>
    rw [hpc] at h
    obtain ⟨conns, pend, hcalm, hpend⟩ := h
    exact ⟨conns, pend, [], hcalm.streams, hpend.imp_right Or.inr, Or.inl rfl, Or.inl (hone hcalm),
      nofun⟩
  | returned =>
    rw [hpc] at h
    obtain ⟨pend, hs, hpend⟩ := h
    exact ⟨[], pend, [], hs, hpend.imp_right Or.inr, Or.inl rfl, Or.inl (Nat.zero_le 1),
      fun _ => rfl⟩

/-- The descriptor that the next call closes. -/
def closing (s : State) : Option Nat :=
  match s.pc with
  | .closeOld old _ => some old
  | .closeClient | .finish => s.client
  | _ => none

/-- A descriptor is open when it is closed. -/
theorem PcOk.closing_open (h : PcOk s) {n : Nat} (hn : closing s = some n) :
    (s.fds n).isSome = true := by
  have hclient : ∀ {conns pend cur}, Calm s conns pend cur → s.client = some n →
      (s.fds n).isSome = true := by
    intro conns pend cur hcalm hn
    obtain ⟨a, -, -, hfd⟩ := hcalm.newest hn
    rw [hfd]
    rfl
  unfold PcOk at h
  unfold closing at hn
  cases hpc : s.pc with
  | closeOld old m =>
    rw [hpc] at h hn
    obtain ⟨-, hne, hfds, -⟩ := h
    obtain rfl := Option.some.inj hn
    rw [hfds, Function.update_of_ne hne, Function.update_self]
    rfl
  | closeClient =>
    rw [hpc] at h hn
    obtain ⟨-, conns, cur, hcalm, -⟩ := h
    exact hclient hcalm hn
  | finish =>
    rw [hpc] at h hn
    obtain ⟨conns, pend, hcalm, -⟩ := h
    exact hclient hcalm hn
  | poll | accept | readDev | readClient | writeClient | writeDev | returned =>
    rw [hpc] at hn
    cases hn

end Relay

/-! ## Every run -/

/-- **The streams of the relay.** The device gets the bytes of the clients in order, up to a write
that failed; a connection gets the stream of the device from its `accept` to its `close`, up to a
write that failed; one connection is open, but in `accept_client` until the old one is closed; and
each connection is closed once, when its descriptor is open, and before `relay` returns. -/
theorem relay_streams {s : State} (hr : relay.Reach s) :
    (∃ rest, devOut s.log ++ rest = clientIn s.log ∧
      (rest = [] ∨ s.pc = .writeDev rest ∨ .devFailed ∈ s.log)) ∧
    (∀ c, devIn s.log = before c s.log ++ during c s.log ++ after c s.log ∧
      ∃ rest, clientOut c s.log ++ rest = during c s.log ∧
        (rest = [] ∨ c + 1 = s.accepted ∧ s.pc = .writeClient rest ∨ .clientFailed c ∈ s.log)) ∧
    (∀ c d, isOpen c s.log = true → isOpen d s.log = true → c = d ∨
    ∃ old n, s.pc = .closeOld old n) ∧
    (∀ c, s.log.count (.accept c) ≤ 1 ∧ s.log.count (.close c) ≤ s.log.count (.accept c) ∧
      (s.pc = .returned → s.log.count (.close c) = s.log.count (.accept c))) ∧
    ∀ n, closing s = some n → (s.fds n).isSome = true := by
  have hok := PcOk.reach hr
  obtain ⟨conns, pend, cur, hs, hpend, hcur, hone, hdone⟩ := hok.record
  refine ⟨⟨pend, hs.dev, hpend⟩, fun c => ⟨(hs.piece c).eq, ?_⟩, fun c d hc hd => ?_,
    fun c => ⟨?_, ?_, ?_⟩, fun n hn => hok.closing_open hn⟩
  · obtain ⟨rest, heq, howed⟩ := hs.client c
    refine ⟨rest, heq, ?_⟩
    by_cases hnew : c + 1 = s.accepted ∧ c ∈ conns
    · have hlast : s.accepted - 1 = c := by omega
      rw [howed.1 hnew]
      rw [hlast] at hcur
      exact hcur.imp_right fun h => h.imp_left fun hpc => ⟨hnew.1, hpc⟩
    · exact (howed.2 hnew).imp_right fun h => Or.inr h.1
  · refine hone.imp_left fun hlen => ?_
    have hc := (hs.isOpen_iff c).mp hc
    have hd := (hs.isOpen_iff d).mp hd
    match conns, hlen, hc, hd with
    | [a], _, hc, hd => exact (List.mem_singleton.mp hc).trans (List.mem_singleton.mp hd).symm
  · rw [hs.accepts]
    split <;> omega
  · rw [hs.accepts, hs.closes]
    split <;> split <;> omega
  · intro hpc
    rw [hs.accepts, hs.closes, hdone hpc]
    simp

/-- The start of `relay`. -/
def start : State := ⟨.poll, none, .none, .none, fun _ => none, 0, []⟩

theorem start_reach : relay.Reach start := .init rfl

/-- A client connects, and a chunk of the device is written to it in part. -/
def partWritten : List Answer :=
  [.ready .none ⟨true, false, false⟩ .none, .fd 5, .ready ⟨true, false, false⟩ .none .none,
    .bytes [1, 2, 3], .took 2]

/-- The first client has two bytes of three, and the third one comes. -/
theorem relay_streams_part : ∃ s, relay.run partWritten start = some s ∧
    clientOut 0 s.log = [1, 2] ∧ s.pc = .writeClient [3] ∧
    devIn s.log = before 0 s.log ++ during 0 s.log ++ after 0 s.log ∧
    ∃ rest, clientOut 0 s.log ++ rest = during 0 s.log ∧
      (rest = [] ∨ 0 + 1 = s.accepted ∧ s.pc = .writeClient rest ∨ .clientFailed 0 ∈ s.log) := by
  obtain ⟨s, hs⟩ : ∃ s, relay.run partWritten start = some s := ⟨_, rfl⟩
  refine ⟨s, hs, ?_, ?_, (relay_streams (start_reach.run hs)).2.1 0⟩
  · obtain rfl := Option.some.inj hs
    rfl
  · obtain rfl := Option.some.inj hs
    rfl

/-- A second client connects. -/
def secondClient : List Answer :=
  [.ready .none ⟨true, false, false⟩ .none, .fd 5, .ready .none ⟨true, false, false⟩ .none, .fd 6]

/-- In `accept_client`, the new client is open before the old one is closed. -/
theorem replaced_open : ¬ ∀ s, relay.Reach s →
    ∀ c d, isOpen c s.log = true → isOpen d s.log = true → c = d := by
  intro hall
  obtain ⟨s, hs⟩ : ∃ s, relay.run secondClient start = some s := ⟨_, rfl⟩
  have h01 := hall s (start_reach.run hs) 0 1
  obtain rfl := Option.some.inj hs
  cases h01 rfl rfl

end Esp32S31.ThreadRelay
