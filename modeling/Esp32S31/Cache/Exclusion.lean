import Esp32S31.Cache.Lock

/-!
# One operation at a time in the engine

`At` says what holds of a party at its place. A party that holds the lock has its own values in the
registers, because no other party writes them: a task without the lock cannot run while a task of
hart 0 has masked the interrupts, and there is none when hart 1 runs.
-/

namespace Esp32S31.Cache

open Esp32S31.Lib

/-! ## What a call has written -/

theorem written_snoc (r : Reg) (acc : List Access) (a : Access) :
    written r (acc ++ [a]) = match a with
      | .write r' v => if r' = r then some v else written r acc
      | _ => written r acc := by
  unfold written
  rw [List.foldl_append]
  rfl

/-- The values that the call has written are in the registers, from its own hart. -/
def Own (h : Hart) (regs : Regs) (done : List Access) : Prop :=
  ∀ r v, written r done = some v → regs r = some (h, v)

theorem Own.nil (h : Hart) (regs : Regs) : Own h regs [] := nofun

theorem Own.snoc {h : Hart} {regs : Regs} {done : List Access} (hown : Own h regs done)
    (a : Access) : Own h (a.apply h regs) (done ++ [a]) := by
  intro r v hv
  rw [written_snoc] at hv
  cases a with
  | write r' v' =>
    unfold Access.apply
    dsimp only at hv ⊢
    by_cases hr : r' = r
    · subst hr
      rw [if_pos rfl] at hv
      rw [Function.update_self, Option.some.inj hv]
    · rw [if_neg hr] at hv
      rw [Function.update_of_ne fun e => hr e.symm]
      exact hown r v hv
  | start op | poll => exact hown r v hv

/-- OpenSBI writes all registers before it starts an operation. -/
theorem syncAccesses_loads (o : EngineOp) : Loads (syncAccesses o) := by
  intro pre op post heq r
  unfold syncAccesses at heq
  match pre, heq with
  | [], heq => cases heq
  | [_], heq => cases heq
  | [_, _], heq => cases heq
  | a :: b :: c :: pre, heq =>
    rw [List.cons_append, List.cons_append, List.cons_append, List.cons.injEq, List.cons.injEq,
      List.cons.injEq] at heq
    obtain ⟨ha, hb, hc, -⟩ := heq
    subst ha hb hc
    have hkeep : ∀ (l : List Access) (o : Option U32), o.isSome = true →
        (l.foldl (fun o a => match a with
          | .write r' v => if r' = r then some v else o
          | _ => o) o).isSome = true := by
      intro l
      induction l with
      | nil => exact fun o ho => ho
      | cons a l ih =>
        intro o ho
        refine ih _ ?_
        cases a with
        | write r' v =>
          dsimp only
          split
          · rfl
          · exact ho
        | start | poll => exact ho
    refine hkeep pre _ ?_
    cases r <;> rfl

/-! ## The invariant -/

/-- The party may be in its section. -/
def State.owns (s : State) : Party → Prop
  | .task t => s.shared = true ∧ s.mask = some t
  | .hart1 => s.boot = .done

/-- What holds of a party at its place. -/
def At (s : State) (p : Party) : Pc → Prop
  | .idle => True
  | .test acc => p ≠ .hart1 ∧ Loads acc
  | .plain _ _ => p ≠ .hart1 ∧ s.boot ≠ .done
  | .mask acc => p ≠ .hart1 ∧ s.shared = true ∧ Loads acc
  | .locked (.spin acc) => s.owns p ∧ Loads acc
  | .locked (.op done rest) => s.owns p ∧ Loads (done ++ rest) ∧ Own p.hart s.regs done
  | .unmask => p ≠ .hart1 ∧ s.owns p

structure Inv (s : State) : Prop where
  shared_iff : s.shared = true ↔ s.boot = .start ∨ s.boot = .done
  todo : s.boot ≠ .done → s.todo = []
  lock : s.boot ≠ .clear → Locked s.lock s.holds
  place : ∀ p, At s p (s.pc p)

section Invariant

variable {rom : RomCall → List Access} {s s' : State} {p : Party} {pc : Pc}

theorem Inv.owns_of_holds (h : Inv s) (hp : s.holds p) : s.owns p := by
  obtain ⟨done, rest, hpc⟩ := hp
  have hat := h.place p
  rw [hpc] at hat
  exact hat.1

/-- A place is the same for a party that keeps its rights and its registers. -/
theorem At.mono (hat : At s p pc)
    (hplain : ∀ done rest, pc = .plain done rest → s.boot ≠ .done → s'.boot ≠ .done)
    (hshared : s.shared = true → s'.shared = true) (howns : s.owns p → s'.owns p)
    (hregs : ∀ done rest, pc = .locked (.op done rest) → s'.regs = s.regs) : At s' p pc := by
  cases pc with
  | idle => trivial
  | test acc => exact hat
  | plain done rest => exact ⟨hat.1, hplain done rest rfl hat.2⟩
  | mask acc => exact ⟨hat.1, hshared hat.2.1, hat.2.2⟩
  | unmask => exact ⟨hat.1, howns hat.2⟩
  | locked c =>
    cases c with
    | spin acc => exact ⟨howns hat.1, hat.2⟩
    | op done rest =>
      obtain ⟨ho, hl, hown⟩ := hat
      exact ⟨howns ho, hl, (hregs done rest rfl) ▸ hown⟩

/-- One party moves. -/
theorem Inv.move (h : Inv s) (pc : Pc) (hpc : s'.pc = Function.update s.pc p pc)
    (hboot : s'.boot = s.boot) (hshared : s'.shared = s.shared)
      (htodo : s'.boot ≠ .done → s'.todo = [])
    (hlock : Locked s.lock s.holds → Locked s'.lock s'.holds) (hat : At s' p pc)
    (howns : ∀ q, q ≠ p → s.owns q → s'.owns q)
    (hregs : ∀ q, q ≠ p → s.holds q → s'.regs = s.regs) : Inv s' where
  shared_iff := by
    rw [hshared, hboot]
    exact h.shared_iff
  todo := htodo
  lock hc := hlock (h.lock (hboot ▸ hc))
  place q := by
    rw [hpc]
    by_cases hq : q = p
    · subst hq
      rw [Function.update_self]
      exact hat
    · rw [Function.update_of_ne hq]
      refine (h.place q).mono (fun _ _ _ hb => hboot ▸ hb) (fun hs => hshared ▸ hs) (howns q hq) ?_
      exact fun done rest he => hregs q hq ⟨done, rest, he⟩

/-- Who holds the lock, after a move of `p`. -/
theorem holds_other (hpc : s'.pc = Function.update s.pc p pc) {q : Party} (hq : q ≠ p) :
    s'.holds q ↔ s.holds q := by
  unfold State.holds
  rw [hpc, Function.update_of_ne hq]

theorem holds_self (hpc : s'.pc = Function.update s.pc p pc) :
    s'.holds p ↔ ∃ done rest, pc = .locked (.op done rest) := by
  unfold State.holds
  rw [hpc, Function.update_self]

/-- A party that does not hold the lock moves and does not take it. -/
theorem holds_same (hpc : s'.pc = Function.update s.pc p pc)
    (hno : ∀ done rest, s.pc p ≠ .locked (.op done rest))
    (hno' : ∀ done rest, pc ≠ .locked (.op done rest)) (q : Party) : s'.holds q ↔ s.holds q := by
  by_cases hq : q = p
  · subst hq
    rw [holds_self hpc]
    exact iff_of_false (fun ⟨d, r, he⟩ => hno' d r he) fun ⟨d, r, he⟩ => hno d r he
  · exact holds_other hpc hq

/-- A move outside the part that is locked. -/
theorem Inv.goto (h : Inv s) (hno : ∀ done rest, s.pc p ≠ .locked (.op done rest))
    (hno' : ∀ done rest, pc ≠ .locked (.op done rest)) (hat : At s p pc) : Inv (s.goto p pc) :=
  h.move _ rfl rfl rfl h.todo (fun hl => hl.congr (holds_same rfl hno hno'))
    (hat.mono (fun _ _ _ hb => hb) (fun hs => hs) (fun ho => ho) fun _ _ _ => rfl)
      (fun _ _ ho => ho)
    fun _ _ _ => rfl

/-- The lock word is in order as soon as a party can be in its section. -/
theorem Inv.lock_of_owns (h : Inv s) (ho : s.owns p) : Locked s.lock s.holds := by
  refine h.lock fun hc => ?_
  cases p with
  | task t =>
    rcases h.shared_iff.mp ho.1 with hb | hb
    · exact nomatch hc.symm.trans hb
    · exact nomatch hc.symm.trans hb
  | hart1 => exact nomatch hc.symm.trans ho

theorem runs_iff {t : Nat} : s.runs t = true ↔ s.mask = none ∨ s.mask = some t := decide_eq_true_iff

/-- A task that runs has masked the interrupts, or nobody of hart 0 owns the section. -/
theorem owner_of_runs {t u : Nat} (hr : s.runs t = true) (ho : s.owns (.task u)) : u = t := by
  rcases runs_iff.mp hr with hm | hm
  · exact nomatch hm.symm.trans ho.2
  · exact (Option.some.inj (hm.symm.trans ho.2)).symm

/-! ## One step -/

theorem section_inv {c : Section} (h : Inv s) (hpc : s.pc p = .locked c) (ready : Bool) :
    Inv (sectionStep p ready s c) := by
  have hat := h.place p
  rw [hpc] at hat
  cases c with
  | spin acc =>
    obtain ⟨ho, hl⟩ := hat
    unfold sectionStep
    dsimp only
    split
    · exact h
    · next hfree =>
      have hno : s.lock = false := by simpa using hfree
      refine h.move (.locked (.op [] acc)) rfl rfl rfl h.todo (fun hlock => ?_) ⟨ho, hl,
        Own.nil _ _⟩
        (fun _ _ hq => hq) fun _ _ _ => rfl
      rw [hno] at hlock
      exact hlock.take ((holds_self (s := s) rfl).mpr ⟨[], acc, rfl⟩) fun q hq => holds_other rfl hq
  | op done rest =>
    obtain ⟨ho, hl, hown⟩ := hat
    have hholds : s.holds p := ⟨done, rest, hpc⟩
    cases rest with
    | nil =>
      refine h.move p.after rfl rfl rfl h.todo (fun hlock => ?_) ?_ (fun _ _ hq => hq) fun _ _ _ =>
        rfl
      · refine hlock.release hholds (fun hno => ?_) fun q hq => holds_other rfl hq
        obtain ⟨d, r, he⟩ := (holds_self (s := s) rfl).mp hno
        cases p <;> cases he
      · cases p with
        | task t => exact ⟨nofun, ho⟩
        | hart1 => trivial
    | cons a rest =>
      unfold sectionStep access
      dsimp only
      split
      · exact h
      · refine h.move (.locked (.op (done ++ [a]) rest)) rfl rfl rfl h.todo (fun hlock => ?_) ?_
          (fun _ _ hq => hq) fun q hq hqh => ?_
        · refine hlock.congr fun q => ?_
          by_cases hq : q = p
          · subst hq
            exact iff_of_true ((holds_self (s := s) rfl).mpr ⟨_, _, rfl⟩) hholds
          · exact holds_other rfl hq
        · refine ⟨ho, ?_, hown.snoc a⟩
          rw [List.append_assoc]
          exact hl
        · exact absurd ((h.lock_of_owns ho).one q p hqh hholds) hq

/-- An access without the lock: nobody is in a section then. -/
theorem plain_inv {t : Nat} {done rest : List Access} {a : Access} (h : Inv s)
    (hr : s.runs t = true)
    (hpc : s.pc (.task t) = .plain done (a :: rest)) (ready : Bool) :
    Inv (access (.task t) ready done a (.plain (done ++ [a]) rest) s) := by
  have hat := h.place (.task t)
  rw [hpc] at hat
  unfold access
  split
  · exact h
  · refine h.move (.plain (done ++ [a]) rest) rfl rfl rfl h.todo
      (fun hlock => hlock.congr (holds_same rfl (fun d r => hpc ▸ nofun) nofun)) hat
      (fun _ _ hq => hq) fun q hq hqh => ?_
    have ho := h.owns_of_holds hqh
    cases q with
    | task u => exact absurd (congrArg Party.task (owner_of_runs hr ho)) hq
    | hart1 => exact absurd ho hat.2

theorem task_inv {t : Nat} {ready : Bool} (h : Inv s) (hr : s.runs t = true)
    (hs : taskStep t ready s = some s') : Inv s' := by
  have hat := h.place (.task t)
  unfold taskStep at hs
  cases hpc : s.pc (.task t) with
  | idle =>
    rw [hpc] at hs
    cases hs
  | test acc =>
    rw [hpc] at hs hat
    obtain rfl := Option.some.inj hs
    refine h.goto (fun d r => hpc ▸ nofun) ?_ ?_
    · split <;> nofun
    · split
      · next hsh => exact ⟨nofun, hsh, hat.2⟩
      · next hsh => exact ⟨nofun, fun hb => hsh (h.shared_iff.mpr (Or.inr hb))⟩
  | plain done rest =>
    rw [hpc] at hs
    cases rest with
    | cons a rest => exact Option.some.inj hs ▸ plain_inv h hr hpc ready
    | nil =>
      obtain rfl := Option.some.inj hs
      exact h.goto (fun d r => hpc ▸ nofun) nofun trivial
  | mask acc =>
    rw [hpc] at hs hat
    obtain rfl := Option.some.inj hs
    refine h.move (.locked (.spin acc)) rfl rfl rfl h.todo
      (fun hlock => hlock.congr (holds_same rfl (fun d r => hpc ▸ nofun) nofun))
      ⟨⟨hat.2.1, rfl⟩, hat.2.2⟩ (fun q hq ho => ?_) fun _ _ _ => rfl
    cases q with
    | task u => exact absurd (congrArg Party.task (owner_of_runs hr ho)) hq
    | hart1 => exact ho
  | locked c =>
    rw [hpc] at hs
    exact Option.some.inj hs ▸ section_inv h hpc ready
  | unmask =>
    rw [hpc] at hs hat
    obtain rfl := Option.some.inj hs
    refine h.move .idle rfl rfl rfl h.todo
      (fun hlock => hlock.congr (holds_same rfl (fun d r => hpc ▸ nofun) nofun)) trivial
      (fun q hq ho => ?_) fun _ _ _ => rfl
    cases q with
    | task u => exact absurd (congrArg Party.task (owner_of_runs hr ho)) hq
    | hart1 => exact ho

theorem hart1_inv {ready : Bool} (h : Inv s) (hb : s.boot = .done)
    (hs : hart1Step ready s = some s') : Inv s' := by
  unfold hart1Step at hs
  split at hs
  · next o todo hpc _ =>
    obtain rfl := Option.some.inj hs
    exact h.move (.locked (.spin (syncAccesses o))) rfl rfl rfl (fun hn => absurd hb hn)
      (fun hlock => hlock.congr (holds_same rfl (fun d r => hpc ▸ nofun) nofun))
      ⟨hb, syncAccesses_loads o⟩ (fun _ _ ho => ho) fun _ _ _ => rfl
  · next c hpc => exact Option.some.inj hs ▸ section_inv h hpc ready
  · cases hs

theorem app_inv (h : Inv s) (hq : Quiet .app s) (hs : step rom .app s = some s') : Inv s' := by
  unfold step at hs
  dsimp only at hs
  split at hs
  · have hown : s.boot ≠ .start → s.boot ≠ .done → ∀ p, ¬ s.owns p := by
      intro h1 h2 p ho
      cases p with
      | task t => exact (h.shared_iff.mp ho.1).elim h1 h2
      | hart1 => exact h2 ho
    cases hb : s.boot with
    | clear =>
      rw [hb] at hs hown
      obtain rfl := Option.some.inj hs
      refine ⟨?_, fun _ => h.todo (hb ▸ nofun), fun _ => .none fun p hp => ?_, fun p => ?_⟩
      · have := h.shared_iff
        rw [hb] at this
        exact ⟨fun hsh => absurd (this.mp hsh) (by decide), fun hx => hx.elim nofun nofun⟩
      · exact hown nofun nofun p (h.owns_of_holds hp)
      · exact (h.place p).mono (fun _ _ _ _ => nofun) (fun hs => hs)
          (fun ho => absurd ho (hown nofun nofun p)) fun _ _ _ => rfl
    | share =>
      rw [hb] at hs hown
      obtain rfl := Option.some.inj hs
      refine ⟨⟨fun _ => Or.inl rfl, fun _ => rfl⟩, fun _ => h.todo (hb ▸ nofun), fun _ => ?_,
        fun p => ?_⟩
      · exact h.lock (hb ▸ nofun)
      · exact (h.place p).mono (fun _ _ _ _ => nofun) (fun _ => rfl)
          (fun ho => absurd ho (hown nofun nofun p)) fun _ _ _ => rfl
    | start =>
      rw [hb] at hs
      obtain rfl := Option.some.inj hs
      refine ⟨⟨fun _ => Or.inr rfl, fun _ => h.shared_iff.mpr (Or.inl hb)⟩, fun hn => absurd rfl hn,
        fun _ => h.lock (hb ▸ nofun), fun p => ?_⟩
      refine (h.place p).mono (fun done rest hpc _ => ?_) (fun hs => hs) (fun ho => ?_) fun _ _ _ =>
        rfl
      · have hat := h.place p
        rw [hpc] at hat
        cases p with
        | task t => exact absurd hpc (hq hb t done rest)
        | hart1 => exact absurd rfl hat.1
      · cases p with
        | task t => exact ho
        | hart1 => rfl
    | done =>
      rw [hb] at hs
      cases hs
  · cases hs

/-- Every step keeps the invariant, if hart 1 starts at a quiet time. -/
theorem Inv.step {a : Action} (hrom : ∀ f, Loads (rom f)) (h : Inv s) (hq : Quiet a s)
    (hs : Cache.step rom a s = some s') : Inv s' := by
  cases a with
  | call t f =>
    unfold Cache.step at hs
    dsimp only at hs
    split at hs
    · next hc =>
      obtain rfl := Option.some.inj hs
      exact h.goto (fun d r => hc.2 ▸ nofun) nofun ⟨nofun, hrom f⟩
    · cases hs
  | run p ready =>
    unfold Cache.step at hs
    cases p with
    | task t =>
      dsimp only at hs
      split at hs
      · next hr => exact task_inv h hr hs
      · cases hs
    | hart1 =>
      dsimp only at hs
      split at hs
      · next hb => exact hart1_inv h hb hs
      · cases hs
  | app => exact app_inv h hq hs
  | ecall funcid a0 a1 =>
    unfold Cache.step at hs
    dsimp only at hs
    split at hs
    · next hc =>
      obtain rfl := Option.some.inj hs
      refine ⟨h.shared_iff, fun hn => absurd hc.1 hn, h.lock, fun p => ?_⟩
      exact (h.place p).mono (fun _ _ _ hb => hb) (fun hs => hs)
        (fun ho => by cases p <;> exact ho) fun _ _ _ => rfl
    · cases hs

theorem Inv.reach (hrom : ∀ f, Loads (rom f)) (hr : (cacheLock rom).ReachWith Quiet s) : Inv s := by
  refine hr.invariant (fun s h0 => ?_) fun a s s' _ h hq hs => h.step hrom hq hs
  obtain ⟨hboot, hshared, -, hpc, htodo⟩ := h0
  refine ⟨?_, fun _ => htodo, fun hn => absurd hboot hn, fun p => ?_⟩
  · rw [hshared, hboot]
    exact ⟨nofun, nofun⟩
  · rw [hpc p]
    trivial

/-! ## Every run -/

/-- The holder makes the rest of its accesses, of which each poll finds the engine ready, and
releases the lock. -/
theorem releases (h : Inv s) (hboot : s.boot = .done) {done rest : List Access}
    (hpc : s.pc p = .locked (.op done rest)) :
    ∃ s', (cacheLock rom).run (List.replicate (rest.length + 1) (.run p true)) s = some s' ∧
      s'.lock = false ∧ s'.pc p = p.after := by
  have hown : ∀ {s : State}, Inv s → s.boot = .done →
      ∀ {done rest}, s.pc p = .locked (.op done rest) →
      step rom (.run p true) s = some (sectionStep p true s (.op done rest)) := by
    intro s h hboot done rest hpc
    have ho := h.owns_of_holds ⟨done, rest, hpc⟩
    cases p with
    | task t =>
      have hr : s.runs t = true := runs_iff.mpr (Or.inr ho.2)
      have hstep : taskStep t true s = some (sectionStep (.task t) true s (.op done rest)) := by
        unfold taskStep
        rw [hpc]
      exact (if_pos hr).trans hstep
    | hart1 =>
      have hstep : hart1Step true s = some (sectionStep .hart1 true s (.op done rest)) := by
        unfold hart1Step
        rw [hpc]
      exact (if_pos hboot).trans hstep
  induction rest generalizing s done with
  | nil =>
    refine ⟨sectionStep p true s (.op done []), ?_, rfl, Function.update_self _ _ _⟩
    have := hown h hboot hpc
    simp [Machine.run, Machine.runWith, cacheLock, this]
  | cons a rest ih =>
    have hst := hown h hboot hpc
    have hne : ¬ (a = .poll ∧ true = false) := fun hx => by cases hx.2
    have hsec : sectionStep p true s (.op done (a :: rest)) =
        { s.goto p (.locked (.op (done ++ [a]) rest)) with regs := a.apply p.hart s.regs } :=
          if_neg hne
    have hinv := section_inv h hpc true
    have hpc' : (sectionStep p true s (.op done (a :: rest))).pc p =
        .locked (.op (done ++ [a]) rest) := by
      rw [hsec]
      exact Function.update_self _ _ _
    obtain ⟨s', hrun, hfree⟩ := ih hinv (by rw [hsec]; exact hboot) hpc'
    refine ⟨s', ?_, hfree⟩
    have hcons : List.replicate ((a :: rest).length + 1) (Action.run p true) =
        .run p true :: List.replicate (rest.length + 1) (.run p true) := rfl
    rw [hcons]
    simp only [Machine.run, Machine.runWith, if_true, cacheLock, hst, Option.bind_some]
    exact hrun

/-- **One operation in the engine.** If no operation without the lock is under way when hart 1
starts, then from there on the two harts never have an operation at the same time, an operation
starts with the registers that its own call has written, the lock word is set exactly while a party
is between taking the lock and its release, and the holder gets to its release. -/
theorem cache_lock_runs (hrom : ∀ f, Loads (rom f)) (hr : (cacheLock rom).ReachWith Quiet s)
    (hboot : s.boot = .done) :
    (∀ t, ¬ ((s.pc (.task t)).busy = true ∧ (s.pc .hart1).busy = true)) ∧
    (∀ p done op rest, (s.pc p).op = some (done, .start op :: rest) →
      ∀ r, ∃ v, written r done = some v ∧ s.regs r = some (p.hart, v)) ∧
    (s.lock = true ↔ ∃ p, s.holds p) ∧
    ∀ p done rest, s.pc p = .locked (.op done rest) →
      ∃ s', (cacheLock rom).run (List.replicate (rest.length + 1) (.run p true)) s = some s' ∧
        s'.lock = false ∧ s'.pc p = p.after := by
  have h := Inv.reach hrom hr
  have hlocked : ∀ p done rest, (s.pc p).op = some (done, rest) →
      s.pc p = .locked (.op done rest) := by
    intro p done rest hop
    have hat := h.place p
    unfold Pc.op at hop
    split at hop
    · next hpc =>
      rw [hpc] at hat
      exact absurd hboot hat.2
    · next hpc =>
      obtain ⟨rfl, rfl⟩ := Prod.mk.inj (Option.some.inj hop)
      exact hpc
    · cases hop
  have hbusy : ∀ p, (s.pc p).busy = true → s.holds p := by
    intro p hb
    unfold Pc.busy at hb
    split at hb
    · next done rest hop => exact ⟨done, rest, hlocked p done rest hop⟩
    · cases hb
  have hlock : Locked s.lock s.holds := h.lock (hboot ▸ nofun)
  refine ⟨fun t hb => ?_, fun p done op rest hop r => ?_, hlock.set_iff, fun p done rest hpc => ?_⟩
  · exact nomatch hlock.one _ _ (hbusy _ hb.1) (hbusy _ hb.2)
  · have hat := h.place p
    rw [hlocked p _ _ hop] at hat
    obtain ⟨-, hl, hown⟩ := hat
    obtain ⟨v, hv⟩ := Option.isSome_iff_exists.mp (hl done op rest rfl r)
    exact ⟨v, hv, hown r v hv⟩
  · exact releases h hboot hpc

end Invariant

/-- The registers first, then the operation. -/
def romAccesses : RomCall → List Access
  | .invalidateAddr map addr size => syncAccesses ⟨map, cacheInvalidate, addr, size, 1⟩
  | .writeBackAddr map addr size => syncAccesses ⟨map, cacheWriteback, addr, size, 2⟩

theorem romAccesses_loads (f : RomCall) : Loads (romAccesses f) := by
  cases f <;> exact syncAccesses_loads _

/-- `app_main` before it shares the cache. -/
def appMain : State := ⟨.clear, false, true, none, fun _ => none, fun _ => .idle, []⟩

/-- Hart 1 does an invalidate, and a task waits for the lock. -/
def waits : List Action :=
  [.ecall 1 0x48000000#32 64#32, .run .hart1 true, .run .hart1 true, .run .hart1 true,
    .call 1 (.invalidateAddr 16#32 0x20000000#32 64#32), .run (.task 1) true, .run (.task 1) true,
    .run (.task 1) true]

/-- `app_main` has started hart 1 at a quiet time. -/
theorem started_reach : (cacheLock romAccesses).ReachWith Quiet
    { appMain with boot := .done, shared := true, lock := false } := by
  have h0 : (cacheLock romAccesses).ReachWith Quiet appMain :=
    .init ⟨rfl, rfl, rfl, fun _ => rfl, rfl⟩
  have h1 : (cacheLock romAccesses).ReachWith Quiet
      { appMain with boot := .share, lock := false } :=
    .step .app h0 nofun rfl
  have h2 : (cacheLock romAccesses).ReachWith Quiet
      { appMain with boot := .start, shared := true, lock := false } := .step .app h1 nofun rfl
  exact .step .app h2 (fun _ _ _ _ => nofun) rfl

/-- The operation of hart 1 is alone. -/
theorem cache_lock_runs_waits : ∃ s, (cacheLock romAccesses).run waits
      { appMain with boot := .done, shared := true, lock := false } = some s ∧
    (s.pc .hart1).busy = true ∧ s.pc (.task 1) ≠ .idle ∧
    ∀ t, ¬ ((s.pc (.task t)).busy = true ∧ (s.pc .hart1).busy = true) := by
  obtain ⟨s, hs⟩ : ∃ s, (cacheLock romAccesses).run waits
      { appMain with boot := .done, shared := true, lock := false } = some s := ⟨_, rfl⟩
  have hreach : (cacheLock romAccesses).ReachWith Quiet s := by
    refine started_reach.run_of (fun a ha s => ?_) hs
    cases a with
    | app => exact absurd ha (by decide)
    | call | run | ecall => trivial
  have hboot : s.boot = .done := by
    obtain rfl := Option.some.inj hs
    rfl
  refine ⟨s, hs, ?_, ?_, (cache_lock_runs romAccesses_loads hreach hboot).1⟩
  · obtain rfl := Option.some.inj hs
    rfl
  · obtain rfl := Option.some.inj hs
    nofun

/-- A task tests `s_cache_shared`, then hart 1 starts, and both have an operation. -/
def preempted : List Action :=
  [.call 1 (.invalidateAddr 16#32 0x20000000#32 64#32), .run (.task 1) true, .app, .app, .app,
    .ecall 1 0x48000000#32 64#32, .run .hart1 true, .run .hart1 true, .run .hart1 true,
      .run (.task 1) true]

theorem mixed_operations : ¬ ∀ s, (cacheLock romAccesses).Reach s → s.boot = .done →
    ∀ t, ¬ ((s.pc (.task t)).busy = true ∧ (s.pc .hart1).busy = true) := by
  intro hall
  obtain ⟨s, hs⟩ : ∃ s, (cacheLock romAccesses).run preempted appMain = some s := ⟨_, rfl⟩
  have hreach : (cacheLock romAccesses).Reach s :=
    Machine.Reach.run (.init ⟨rfl, rfl, rfl, fun _ => rfl, rfl⟩) hs
  have hboth := hall s hreach
  obtain rfl := Option.some.inj hs
  exact hboth rfl 1 ⟨rfl, rfl⟩

end Esp32S31.Cache
