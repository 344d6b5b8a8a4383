import Esp32S31.Shm.HostSide

/-!
# The system follows the doorbell protocol

`Sys.Local` are the facts about single threads that the refinement needs. `Sys.refines` is the
refinement: every step of the system is a step of the protocol on each of the two rings, when the
recovery stores of the consumers meet `Sys.recoveryOk`. `Sys.Sound` is the invariant of the runs.
-/

namespace Esp32S31.Shm

open Esp32S31.Lib Esp32S31.Flash Doorbell

/-- The push of `shm_write` is up to date. -/
def WritePc.Local (m : RingMem) : WritePc → Prop
  | .push1 _ pc | .push2 _ pc => pc.Local m
  | _ => True

/-- A consumer does not disturb a push. -/
theorem PushPc.Local.of_head {m m' : RingMem} {pc : PushPc} (h : pc.Local m)
    (hm : m'.head = m.head) : pc.Local m' := by
  cases pc with
  | readTail head => exact Eq.trans h hm.symm
  | copyIn head todo => exact Eq.trans h hm.symm
  | _ => trivial

theorem WritePc.Local.of_head {m m' : RingMem} {pc : WritePc} (h : pc.Local m)
    (hm : m'.head = m.head) : pc.Local m' := by
  cases pc with
  | push1 x pc => exact PushPc.Local.of_head h hm
  | push2 x pc => exact PushPc.Local.of_head h hm
  | _ => trivial

theorem HostTx.Local.of_head {m m' : RingMem} {t : HostTx} (h : t.Local m)
    (hm : m'.head = m.head) : t.Local m' := by
  refine { h with flush := fun f hf => ?_ }
  have hl := h.flush f hf
  cases hpc : f.pc with
  | push1 skb pc =>
    rw [hpc] at hl
    exact ⟨hl.1, hl.2.of_head hm⟩
  | push2 skb pc =>
    rw [hpc] at hl
    exact ⟨hl.1, hl.2.of_head hm⟩
  | setWait skb =>
    rw [hpc] at hl
    exact hl
  | _ => trivial

/-- A producer does not disturb a read. -/
theorem ReadPc.Local.of_tail {m m' : RingMem} {pc : ReadPc} (h : pc.Local m)
    (hm : m'.tail = m.tail) : pc.Local m' := by
  cases pc with
  | readHead tail => exact Eq.trans h hm.symm
  | empty tail => exact Eq.trans h hm.symm
  | readWait tail buf => exact Eq.trans h hm.symm
  | clearWait tail buf => exact Eq.trans h hm.symm
  | ring tail buf => exact Eq.trans h hm.symm
  | _ => trivial

/-- The receive task is up to date with its tail. -/
def RecvPc.Local (m : RingMem) : RecvPc → Prop
  | .serve tail _ => tail = m.tail
  | .read pc => pc.Local m
  | .off => True

theorem RecvPc.Local.of_tail {m m' : RingMem} {pc : RecvPc} (h : pc.Local m)
    (hm : m'.tail = m.tail) : pc.Local m' := by
  cases pc with
  | serve tail pc => exact Eq.trans h hm.symm
  | read pc => exact ReadPc.Local.of_tail h hm
  | off => trivial

namespace Sys

/-- **What each thread knows.** -/
structure Local (s : Sys) : Prop where
  tx : s.tx.Local s.toFw
  write : s.write.Local s.toHost
  recv : s.recv.Local s.toFw
  rx : ∀ pc, s.rx = some pc → pc.Local s.toHost
  unbound : s.probe = .unbound → s.irq = .idle ∧ s.tx = { HostTx.bound with running := false }

/-- The recovery store that an action of the receive task is. -/
def fwRecovery (s : Sys) : SysAct → Option U32
  | .recv _ _ => match s.recv with
    | .read pc => pc.recovery
    | _ => none
  | _ => none

/-- The recovery store that an action of the RX work is. -/
def hostRecovery (s : Sys) : SysAct → Option U32
  | .rx _ _ => s.rx.bind ReadPc.recovery
  | _ => none

/-- A store `tail = head` of `shm_read` leaves no producer behind: Linux does not wait for room, or
its frame does not fit, or a doorbell to it is to come. -/
def fwRecoveryOk (s : Sys) (head : U32) : Prop :=
  ∀ n ∈ s.tx.prod.waits, s.txWorkBell ∨ ¬ Shm.toFw.fits n s.toFw.head head

/-- A store `tail = head` of `esp_shm_read` leaves no frame behind: the RX work runs again, or
`head` is still the head, or a doorbell to Linux is to come; and no producer. -/
def hostRecoveryOk (s : Sys) (head : U32) : Prop :=
  (s.rxQueued = true ∨ s.toHost.head = head ∨ s.rxWorkBell ∨ s.write.forced = true ∨
    s.write.prod = .stored head) ∧
  ∀ n ∈ s.write.prod.waits, s.spaceBell ∨ ¬ Shm.toHost.fits n s.toHost.head head

/-- **A recovery store of a consumer leaves nobody behind.** -/
def recoveryOk (a : SysAct) (s : Sys) : Prop :=
  (∀ head ∈ s.fwRecovery a, s.fwRecoveryOk head) ∧ ∀ head ∈ s.hostRecovery a, s.hostRecoveryOk head

/-- **Well-formed records**: no consumer gets to its recovery. -/
def wellFormed (a : SysAct) (s : Sys) : Prop := s.fwRecovery a = none ∧ s.hostRecovery a = none

-- over an option, not over all words
instance (s : Sys) (head : U32) : Decidable (s.fwRecoveryOk head) :=
  Option.decidableForallMem s.tx.prod.waits

instance (s : Sys) (head : U32) : Decidable (s.hostRecoveryOk head) :=
  have : Decidable (∀ n ∈ s.write.prod.waits,
      s.spaceBell ∨ ¬ Shm.toHost.fits n s.toHost.head head) :=
    Option.decidableForallMem s.write.prod.waits
  inferInstanceAs (Decidable ((_ ∨ _ ∨ _ ∨ _ ∨ _) ∧ _))

instance (a : SysAct) (s : Sys) : Decidable (recoveryOk a s) :=
  have : Decidable (∀ head ∈ s.fwRecovery a, s.fwRecoveryOk head) :=
    Option.decidableForallMem (s.fwRecovery a)
  have : Decidable (∀ head ∈ s.hostRecovery a, s.hostRecoveryOk head) :=
    Option.decidableForallMem (s.hostRecovery a)
  inferInstanceAs (Decidable (_ ∧ _))

instance (a : SysAct) (s : Sys) : Decidable (wellFormed a s) :=
  inferInstanceAs (Decidable (_ ∧ _))

theorem wellFormed.recoveryOk {a : SysAct} {s : Sys} (h : wellFormed a s) : recoveryOk a s :=
  ⟨fun _ hh => (nomatch h.1.symm.trans hh), fun _ hh => (nomatch h.2.symm.trans hh)⟩

/-- A step of the system is a step of the protocol on both rings. -/
structure Refines (s s' : Sys) : Prop where
  fw : Step Shm.toFw.fits s.fwSide s'.fwSide
  host : Step Shm.toHost.fits s.hostSide s'.hostSide

variable {s s' : Sys}

/-- Nothing happens at the ring to the firmware. -/
theorem keepFw (h1 : s'.toFw = s.toFw) (h2 : s'.tx = s.tx) (h3 : s'.recv.cons = s.recv.cons)
    (hC : s.rxBell → s'.rxBell) (hP : s.txWorkBell → s'.txWorkBell) :
    Step Shm.toFw.fits s.fwSide s'.fwSide := by
  refine .keep ⟨?_, ?_, ?_⟩ ?_ ?_ (.of ?_ hP)
  · exact congrArg RingMem.head h1
  · exact congrArg RingMem.tail h1
  · exact fun h => by
      show s'.toFw.wait ≠ 0
      rw [h1]
      exact h
  · exact congrArg HostTx.prod h2
  · exact h3
  · rintro (h | h)
    · exact .inl (hC h)
    · refine .inr ?_
      rw [h2]
      exact h

/-- Nothing happens at the ring to Linux. -/
theorem keepHost (h1 : s'.toHost = s.toHost) (h2 : s'.write = s.write)
    (h3 : rxCons s'.probe s'.rxQueued s'.rx = rxCons s.probe s.rxQueued s.rx)
      (hC : s.rxWorkBell → s'.rxWorkBell)
    (hP : s.spaceBell → s'.spaceBell) : Step Shm.toHost.fits s.hostSide s'.hostSide := by
  refine .keep ⟨?_, ?_, ?_⟩ ?_ h3 (.of ?_ hP)
  · exact congrArg RingMem.head h1
  · exact congrArg RingMem.tail h1
  · exact fun h => by
      show s'.toHost.wait ≠ 0
      rw [h1]
      exact h
  · exact congrArg WritePc.prod h2
  · rintro (h | h)
    · exact .inl (hC h)
    · refine .inr ?_
      rw [h2]
      exact h

theorem refines_isr (hs : s.stepIsr = some s') : Refines s s' := by
  unfold stepIsr at hs
  cases hi : s.isr with
  | idle =>
    rw [hi] at hs
    simp only [Option.ite_none_right_eq_some, Option.some.injEq] at hs
    obtain ⟨hb, rfl⟩ := hs
    exact ⟨keepFw rfl rfl rfl (fun _ => .inr (.inl rfl)) id,
      keepHost rfl rfl rfl id fun _ => .inr (.inl nofun)⟩
  | acked =>
    rw [hi] at hs
    obtain rfl := Option.some.inj hs
    exact ⟨keepFw rfl rfl rfl (fun _ => .inr (.inr rfl)) id,
      keepHost rfl rfl rfl id fun _ => .inr (.inl nofun)⟩
  | gaveRx =>
    rw [hi] at hs
    obtain rfl := Option.some.inj hs
    refine ⟨keepFw rfl rfl rfl ?_ id, keepHost rfl rfl rfl id fun _ => .inr (.inr rfl)⟩
    rintro (h | h | h)
    · exact .inl h
    · rw [hi] at h
      cases h
    · exact .inr (.inr h)

/-- A doorbell that the code rings on the way. -/
theorem rxBell_ringFw {b : Bool} (h : s.rxBell ∨ b = true) : (s.ringFw b).rxBell := by
  rcases h with (h | h) | h
  · exact .inl (by rw [ringFw, h]; rfl)
  · exact .inr h
  · exact .inl (by rw [ringFw, h]; exact Bool.or_true _)

theorem spaceBell_ringFw {b : Bool} (h : s.spaceBell ∨ b = true) : (s.ringFw b).spaceBell := by
  rcases h with (h | h) | h
  · exact .inl (by rw [ringFw, h]; rfl)
  · exact .inr h
  · exact .inl (by rw [ringFw, h]; exact Bool.or_true _)

theorem rxWorkBell_ringHost {b : Bool} (h : s.rxWorkBell ∨ b = true) :
    (s.ringHost b).rxWorkBell := by
  rcases h with (h | h) | h
  · exact .inl (by rw [ringHost, h]; rfl)
  · exact .inr h
  · exact .inl (by rw [ringHost, h]; exact Bool.or_true _)

theorem txWorkBell_ringHost {b : Bool} (h : s.txWorkBell ∨ b = true) :
    (s.ringHost b).txWorkBell := by
  rcases h with ((h | h) | h) | h
  · exact .inl (.inl (by rw [ringHost, h]; rfl))
  · exact .inl (.inr h)
  · exact .inr h
  · exact .inl (.inl (by rw [ringHost, h]; exact Bool.or_true _))

/-! ### The receive task -/

theorem refines_recv {chunk : Nat} {mem : Bool} (h : s.Local)
    (hok : recoveryOk (.recv chunk mem) s) (hs : s.stepRecv chunk mem = some s') :
      Refines s s' := by
  cases hr : s.recv with
  | serve tail pc =>
    cases pc with
    | poweroff req =>
      simp only [stepRecv, hr, Option.some.injEq] at hs
      subst hs
      refine ⟨keepFw rfl rfl ?_ id id, keepHost rfl rfl rfl id id⟩
      rw [hr]
      show RecvPc.cons (if _ then _ else _) = _
      split <;> rfl
    | _ =>
      simp only [stepRecv, hr, Option.some.injEq] at hs
      subst hs
      exact ⟨keepFw rfl rfl (by rw [hr]; rfl) id id, keepHost rfl rfl rfl id id⟩
  | off =>
    simp only [stepRecv, hr] at hs
    cases hs
  | read pc =>
    -- a step of the read proper
    have inner : (∀ ret, pc ≠ .done ret) → some s' = some ({ s with
        toFw := (readStep shmRead chunk mem s.toFw pc).1
        recv := .read (readStep shmRead chunk mem s.toFw pc).2 }.ringHost pc.rings) →
        Refines s s' := fun hd he => by
      obtain rfl := Option.some.inj he
      have hl := h.recv
      rw [hr] at hl
      refine ⟨?_, keepHost rfl rfl rfl (fun hb => rxWorkBell_ringHost (.inl hb)) id⟩
      have hside : s.fwSide = ⟨s.toFw.head, s.toFw.tail, s.toFw.wait ≠ 0, s.tx.prod,
          pc.cons false false, s.fwSide.toC, s.fwSide.toP⟩ := by
        simp only [fwSide, hr]
        rfl
      rw [hside]
      exact read_refines (r := Shm.toFw) hl hd id (fun hb => txWorkBell_ringHost (.inl hb))
        (fun hb => txWorkBell_ringHost (.inr hb)) fun head hp =>
        ⟨nofun, fun n hn => (hok.1 head (by simp only [fwRecovery, hr, hp]; rfl) n
          (by rw [hn]; rfl)).imp_left fun hb => txWorkBell_ringHost (.inl hb)⟩
    cases pc with
    | readTail =>
      simp only [stepRecv, hr, Option.some.injEq] at hs
      subst hs
      exact ⟨keepFw rfl rfl (by rw [hr]; rfl) id id, keepHost rfl rfl rfl id id⟩
    | empty tail =>
      simp only [stepRecv, hr, Option.ite_none_right_eq_some, Option.some.injEq] at hs
      obtain ⟨hsem, rfl⟩ := hs
      refine ⟨.wake ?_ rfl ⟨rfl, rfl, id⟩ rfl ⟨fun _ => .inr nofun, .inl⟩,
        keepHost rfl rfl rfl id id⟩
      exact congrArg RecvPc.cons hr
    | done ret =>
      simp only [stepRecv, hr, Option.some.injEq] at hs
      subst hs
      refine ⟨keepFw rfl rfl ?_ id id, keepHost rfl rfl rfl id id⟩
      rw [hr]
      cases ret <;> rfl
    | _ =>
      simp only [stepRecv, hr] at hs
      exact inner (fun _ => nofun) hs.symm

/-! ### The RX work of Linux -/

/-- NULL ends the RX work: it is where it was, or is expected to run. -/
theorem refines_rxNull {pc : ReadPc} (hr : s.rx = some pc)
    (hc : ∀ q, pc.cons true q = if q then .awake else .asleep) : Refines s
      { s with rx := none } := by
  refine ⟨keepFw rfl rfl rfl id id, ?_⟩
  have hs : rxCons s.probe s.rxQueued s.rx = if s.rxQueued then .awake else .asleep := by
    rw [hr]
    exact hc _
  by_cases hq : s.rxQueued = true
  · rw [hq, if_pos rfl, ← hq] at hs
    refine keepHost rfl rfl (Eq.trans ?_ hs.symm) id id
    exact if_neg fun h => absurd (hq.symm.trans h.2) (by decide)
  · have hq : s.rxQueued = false := by simpa using hq
    rw [hq, if_neg (by decide), ← hq] at hs
    by_cases hp : s.probe = .bound
    · refine keepHost rfl rfl (Eq.trans ?_ hs.symm) id id
      exact if_pos ⟨hp, hq⟩
    · refine .wake hs ?_ ⟨rfl, rfl, id⟩ rfl (.of id id)
      exact if_neg fun h => hp h.1

theorem refines_rx {chunk : Nat} {mem : Bool} (h : s.Local) (hok : recoveryOk (.rx chunk mem) s)
    (hs : s.stepRx chunk mem = some s') : Refines s s' := by
  cases hr : s.rx with
  | none =>
    simp only [stepRx, hr, Option.ite_none_right_eq_some, Option.some.injEq] at hs
    obtain ⟨hq, rfl⟩ := hs
    refine ⟨keepFw rfl rfl rfl id id, keepHost rfl rfl ?_ id id⟩
    rw [hr, hq]
    exact (if_neg fun h => (by cases h.2)).symm
  | some pc =>
    have inner : (∀ ret, pc ≠ .done ret) → some s' = some ({ s with
        toHost := (readStep espShmRead chunk mem s.toHost pc).1
        rx := some (readStep espShmRead chunk mem s.toHost pc).2 }.ringFw pc.rings) →
        Refines s s' := fun hd he => by
      obtain rfl := Option.some.inj he
      refine ⟨keepFw rfl rfl rfl (fun hb => rxBell_ringFw (.inl hb)) id, ?_⟩
      have hside : s.hostSide = ⟨s.toHost.head, s.toHost.tail, s.toHost.wait ≠ 0, s.write.prod,
          pc.cons true s.rxQueued, s.hostSide.toC, s.hostSide.toP⟩ := by
        simp only [hostSide, hr]
        rfl
      rw [hside]
      refine read_refines (r := Shm.toHost) (h.rx pc hr) hd id
        (fun hb => spaceBell_ringFw (.inl hb)) (fun hb => spaceBell_ringFw (.inr hb)) fun head hp =>
          ?_
      obtain ⟨h1, h2⟩ := hok.2 head (by simp only [hostRecovery, hr, hp]; rfl)
      refine ⟨fun _ hq hne => ?_, fun n hn =>
        (h2 n (by rw [hn]; rfl)).imp_left fun hb => spaceBell_ringFw (.inl hb)⟩
      rcases h1 with h1 | h1 | h1 | h1 | h1
      · exact absurd (hq.symm.trans h1) (by decide)
      · exact absurd h1 hne
      · exact .inl (.inl h1)
      · exact .inl (.inr h1)
      · exact .inr h1
    cases pc with
    | empty tail =>
      simp only [stepRx, hr, Option.some.injEq] at hs
      subst hs
      exact refines_rxNull hr fun _ => rfl
    | done ret =>
      cases ret with
      | bad =>
        simp only [stepRx, hr, Option.some.injEq] at hs
        subst hs
        exact refines_rxNull hr fun q => by cases q <;> rfl
      | _ =>
        simp only [stepRx, hr, Option.some.injEq] at hs
        subst hs
        exact ⟨keepFw rfl rfl rfl id id, keepHost rfl rfl (by rw [hr]; rfl) id id⟩
    | _ =>
      simp only [stepRx, hr] at hs
      exact inner (by rintro _ ⟨⟩) hs.symm

/-! ### `shm_write` -/

/-- A call of `shm_write` starts with nothing owed. -/
theorem shmWrite_start {hb : HeaderBytes} {handle : Bool} {buf : Option BufferHandle}
    (m : RingMem) : (shmWrite hb handle buf).prod = .quiet ∧ (shmWrite hb handle buf).Local m := by
  unfold shmWrite
  split <;> exact ⟨rfl, trivial⟩

/-- A push that ends with `kick` will ring. -/
theorem forced_of_push1 {x : TxFrame} {pc : PushPc} (h : pc = .done true true) :
    (WritePc.push1 x pc).forced = true := by
  rw [h]
  rfl

theorem forced_of_push2 {x : TxFrame} {pc : PushPc} (h : pc = .done true true) :
    (WritePc.push2 x pc).forced = true := by
  rw [h]
  rfl

theorem forced_push1_of {x : TxFrame} {pc : PushPc} (h : ∀ ok k, pc ≠ .done ok k) :
    (WritePc.push1 x pc).forced = false := by
  cases pc with
  | done ok k => exact absurd rfl (h ok k)
  | _ => rfl

/-- A push of `shm_write` that goes on. -/
theorem push1_refines {chunk : Nat} {expired : Bool} {m : RingMem} {x : TxFrame} {pc : PushPc}
    {cons : Consumer}
    {C P : Prop} (hl : pc.Local m) (hp : ∀ ok k, pc ≠ .done ok k) :
    Step Shm.toHost.fits
      ⟨m.head, m.tail, m.wait ≠ 0, (WritePc.push1 x pc).prod, cons, C ∨
        (WritePc.push1 x pc).forced = true, P⟩
      ⟨(writeStep chunk expired m (.push1 x pc)).1.head,
        (writeStep chunk expired m (.push1 x pc)).1.tail,
        (writeStep chunk expired m (.push1 x pc)).1.wait ≠ 0,
        (writeStep chunk expired m (.push1 x pc)).2.prod, cons,
        C ∨ (writeStep chunk expired m (.push1 x pc)).2.forced = true, P⟩ := by
  rw [writeStep_push1 hp, forced_push1_of hp]
  exact push_refines Shm.toHost x.push chunk false hl (fun hb => .inl (hb.resolve_right nofun)) id
    fun hd => .inr (forced_of_push1 hd)

theorem forced_push2_of {x : TxFrame} {pc : PushPc} (h : ∀ ok k, pc ≠ .done ok k) :
    (WritePc.push2 x pc).forced = false := by
  cases pc with
  | done ok k => exact absurd rfl (h ok k)
  | _ => rfl

/-- A push of `shm_write` that goes on. -/
theorem push2_refines {chunk : Nat} {expired : Bool} {m : RingMem} {x : TxFrame} {pc : PushPc}
    {cons : Consumer}
    {C P : Prop} (hl : pc.Local m) (hp : ∀ ok k, pc ≠ .done ok k) :
    Step Shm.toHost.fits
      ⟨m.head, m.tail, m.wait ≠ 0, (WritePc.push2 x pc).prod, cons, C ∨
        (WritePc.push2 x pc).forced = true, P⟩
      ⟨(writeStep chunk expired m (.push2 x pc)).1.head,
        (writeStep chunk expired m (.push2 x pc)).1.tail,
        (writeStep chunk expired m (.push2 x pc)).1.wait ≠ 0,
        (writeStep chunk expired m (.push2 x pc)).2.prod, cons,
        C ∨ (writeStep chunk expired m (.push2 x pc)).2.forced = true, P⟩ := by
  rw [writeStep_push2 hp, forced_push2_of hp]
  exact push_refines Shm.toHost x.push chunk true hl (fun hb => .inl (hb.resolve_right nofun)) id
    fun hd => .inr (forced_of_push2 hd)

theorem refines_write {chunk : Nat} {expired : Bool} (h : s.Local) :
    Refines s (s.stepWrite chunk expired) := by
  have hl := h.write
  have side : ∀ {w : WritePc}, s.write = w → s.hostSide =
      ⟨s.toHost.head, s.toHost.tail, s.toHost.wait ≠ 0, w.prod, rxCons s.probe s.rxQueued s.rx,
        s.rxWorkBell ∨ w.forced = true, s.spaceBell⟩ := fun hw => by
    simp only [hostSide, hw]
  -- whatever does not touch the semaphore or the doorbell
  have hsame : ∀ {w : WritePc}, s.write = w → s.stepWrite chunk expired = { s with
      toHost := (writeStep chunk expired s.toHost w).1
      write := (writeStep chunk expired s.toHost w).2 } →
      Step Shm.toHost.fits ⟨s.toHost.head, s.toHost.tail, s.toHost.wait ≠ 0, w.prod,
        rxCons s.probe s.rxQueued s.rx, s.rxWorkBell ∨ w.forced = true, s.spaceBell⟩
        ⟨(writeStep chunk expired s.toHost w).1.head, (writeStep chunk expired s.toHost w).1.tail,
          (writeStep chunk expired s.toHost w).1.wait ≠ 0,
          (writeStep chunk expired s.toHost w).2.prod, rxCons s.probe s.rxQueued s.rx,
          s.rxWorkBell ∨ (writeStep chunk expired s.toHost w).2.forced = true, s.spaceBell⟩ →
      Refines s (s.stepWrite chunk expired) := fun hw he hst => by
    rw [he]
    refine ⟨keepFw rfl rfl rfl id id, ?_⟩
    rw [side hw]
    exact hst
  cases hw : s.write with
  | idle => exact hsame hw (by simp only [stepWrite, hw]) (.keep ⟨rfl, rfl, id⟩ rfl rfl (.of id id))
  | push1 x pc =>
    rw [hw] at hl
    have hl : pc.Local s.toHost := hl
    refine hsame hw (by simp only [stepWrite, hw]) ?_
    cases pc with
    | done ok k =>
      cases ok
      · exact .keep ⟨rfl, rfl, id⟩ rfl rfl (.of (fun hb => .inl (hb.resolve_right nofun)) id)
      · refine .keep ⟨rfl, rfl, id⟩ rfl rfl (.of ?_ id)
        cases k <;> exact id
    | _ => exact push1_refines hl (by nofun)
  | setWait x =>
    refine hsame hw (by simp only [stepWrite, hw]) ?_
    exact .ask rfl (by show (1 : U32) ≠ 0; decide) rfl rfl rfl rfl
      (.of (fun hb => .inl (hb.resolve_right nofun)) id)
  | push2 x pc =>
    rw [hw] at hl
    have hl : pc.Local s.toHost := hl
    refine hsame hw (by simp only [stepWrite, hw]) ?_
    cases pc with
    | done ok k =>
      cases ok
      · exact .keep ⟨rfl, rfl, id⟩ rfl rfl (.of (fun hb => .inl (hb.resolve_right nofun)) id)
      · refine .keep ⟨rfl, rfl, id⟩ rfl rfl (.of ?_ id)
        cases k <;> exact id
    | _ => exact push2_refines hl (by nofun)
  | time x =>
    refine hsame hw (by simp only [stepWrite, hw]) ?_
    cases expired
    · exact .keep ⟨rfl, rfl, id⟩ rfl rfl (.of (fun hb => .inl (hb.resolve_right nofun)) id)
    · exact .leave (fun _ => nofun) rfl ⟨rfl, rfl, id⟩ rfl
        (.of (fun hb => .inl (hb.resolve_right nofun)) id)
  | take x =>
    simp only [stepWrite, hw]
    refine ⟨keepFw rfl rfl rfl id id, ?_⟩
    rw [side hw]
    exact .leave (fun _ => nofun) rfl ⟨rfl, rfl, id⟩ rfl
      ⟨fun hb => .inl (.inl (hb.resolve_right nofun)), fun _ => .inr trivial⟩
  | kick x k =>
    simp only [stepWrite, hw]
    refine ⟨keepFw rfl rfl rfl id fun hb => txWorkBell_ringHost (.inl hb), ?_⟩
    rw [side hw]
    exact .keep ⟨rfl, rfl, id⟩ rfl rfl (.of (fun hb => .inl (rxWorkBell_ringHost hb)) id)
  | done x ret =>
    exact hsame hw (by simp only [stepWrite, hw]) (.keep ⟨rfl, rfl, id⟩ rfl rfl (.of id id))

/-! ### The handler and the transmit side of Linux -/

/-- The RX work gets queued, so it is up. -/
theorem wakeHost (h1 : s'.toHost = s.toHost) (h2 : s'.write = s.write) (h3 : s'.rx = s.rx)
    (hq : s'.rxQueued = true) (hP : s.spaceBell → s'.spaceBell) :
    Step Shm.toHost.fits s.hostSide s'.hostSide := by
  have hup : s'.hostSide.cons ≠ .asleep := by
    show rxCons _ _ _ ≠ _
    rw [hq]
    exact rxCons_up _ _
  have hw : Words s.hostSide s'.hostSide := by
    refine ⟨congrArg RingMem.head h1, congrArg RingMem.tail h1, fun h => ?_⟩
    show s'.toHost.wait ≠ 0
    rw [h1]
    exact h
  have hc := rxCons_queued s.probe s'.probe s.rxQueued s.rx
  rw [← hq, ← h3] at hc
  have b : Bells s.hostSide s'.hostSide := ⟨fun _ => .inr hup, fun hb => .inl (hP hb)⟩
  rcases hc with hc | ⟨hc, hc'⟩
  · exact .keep hw (congrArg WritePc.prod h2) (hc.trans (by rw [h3]; rfl)) b
  · exact .wake (by show rxCons _ _ _ = _; rw [← h3]; exact hc) hc' hw (congrArg WritePc.prod h2) b

theorem refines_irq (h : s.Local) (hs : s.stepIrq = some s') : Refines s s' := by
  unfold stepIrq at hs
  cases hi : s.irq with
  | idle =>
    rw [hi] at hs
    simp only [Option.ite_none_right_eq_some, Option.some.injEq] at hs
    obtain ⟨-, rfl⟩ := hs
    exact ⟨keepFw rfl rfl rfl id (Or.imp_left fun _ => .inr (by rintro ⟨⟩)),
      keepHost rfl rfl rfl (fun _ => .inr rfl) id⟩
  | acked =>
    rw [hi] at hs
    obtain rfl := Option.some.inj hs
    exact ⟨keepFw rfl rfl rfl id (Or.imp_left fun _ => .inr (by rintro ⟨⟩)),
      wakeHost rfl rfl rfl rfl id⟩
  | queued =>
    rw [hi] at hs
    obtain rfl := Option.some.inj hs
    refine ⟨keepFw rfl rfl rfl id (Or.imp_left fun _ => .inr (by rintro ⟨⟩)),
      keepHost rfl rfl rfl ?_ id⟩
    exact Or.imp_right fun hb => by cases hi.symm.trans hb
  | woke =>
    rw [hi] at hs
    obtain ⟨x, hx, rfl⟩ := Option.map_eq_some_iff.mp hs
    have hm : x.1 = s.toFw ∧ x.2.2 = false := by
      simp only [HostTx.step, Option.ite_none_right_eq_some, Option.some.injEq] at hx
      rw [← hx.2]
      exact ⟨rfl, rfl⟩
    refine ⟨?_, keepHost rfl rfl rfl (Or.imp_right fun hb => (by cases hi.symm.trans hb)) id⟩
    have hst : Step Shm.toFw.fits s.fwSide (x.2.1.side x.1 s.recv.cons s.rxBell
        (s.bellHost = true ∨ IrqPc.idle ≠ .idle)) :=
      HostTx.refines .irq h.tx (by rintro ⟨⟩) hx
        (fun hb => hb.resolve_right (by rw [hm.2]; rintro ⟨⟩)) fun _ => .inr rfl
    rw [hm.1] at hst
    exact hst

/-- The transmit side. -/
theorem refines_tx {a : HostTx.Act} (h : s.Local) (hs : s.stepTx a = some s') : Refines s s' := by
  have hne : a ≠ .irq ∧ a ≠ .remove := by
    constructor <;> (rintro rfl; cases hs)
  have he : (s.tx.step s.toFw a).map (fun x => { s with toFw := x.1, tx := x.2.1 }.ringFw x.2.2) =
      some s' := by
    cases a with
    | irq => cases hs
    | remove => cases hs
    | _ =>
      simp only [stepTx, Option.ite_none_left_eq_some] at hs
      exact hs.2
  obtain ⟨x, hx, rfl⟩ := Option.map_eq_some_iff.mp he
  refine ⟨?_, keepHost rfl rfl rfl id fun hb => spaceBell_ringFw (.inl hb)⟩
  exact HostTx.refines a h.tx hne.2 hx (fun hb => rxBell_ringFw hb) fun hb => .inl hb

/-! ### All steps -/

/-- **Every step of the system is a step of the protocol on both rings.** -/
theorem refines {hb : HeaderBytes} {size : U32} (a : SysAct) (h : s.Local) (hok : recoveryOk a s)
    (hs : Sys.step hb size a s = some s') : Refines s s' := by
  cases a with
  | isr => exact refines_isr hs
  | recv chunk mem => exact refines_recv h hok hs
  | call handle buf =>
    have hq : s.write.prod = .quiet ∧ s.write.forced = false := by
      simp only [Sys.step] at hs
      split at hs
      · rename_i hw
        rw [hw]
        exact ⟨rfl, rfl⟩
      · rename_i hw
        rw [hw]
        exact ⟨rfl, rfl⟩
      · cases hs
    have hs : s' = { s with write := shmWrite hb handle buf } := by
      simp only [Sys.step] at hs
      split at hs
      · exact (Option.some.inj hs).symm
      · exact (Option.some.inj hs).symm
      · cases hs
    subst hs
    refine ⟨keepFw rfl rfl rfl id id,
      .keep ⟨rfl, rfl, id⟩ ?_ rfl (.of (Or.imp_right fun hf => ?_) id)⟩
    · exact (shmWrite_start s.toHost).1.trans hq.1.symm
    · cases hq.2.symm.trans hf
  | write chunk expired =>
    obtain rfl := Option.some.inj hs
    exact refines_write h
  | flash a =>
    obtain ⟨x, -, rfl⟩ := Option.map_eq_some_iff.mp hs
    exact ⟨keepFw rfl rfl rfl id fun hb => txWorkBell_ringHost (.inl hb),
      keepHost rfl rfl rfl (fun hb => rxWorkBell_ringHost (.inl hb)) id⟩
  | bind =>
    simp only [Sys.step] at hs
    split at hs
    · rename_i hp
      obtain rfl := Option.some.inj hs
      obtain ⟨hi, ht⟩ := h.unbound hp
      refine ⟨.keep ⟨rfl, rfl, id⟩ ?_ rfl (.of ?_ ?_), keepHost rfl rfl ?_ id id⟩
      · show HostTx.prod HostTx.bound = s.tx.prod
        rw [ht]
        rfl
      · exact Or.imp_right fun hf => by rw [ht] at hf; cases hf
      · exact Or.imp_right fun hw => by rw [ht] at hw; exact hw
      · rw [hp]
        cases s.rx with
        | none => rfl
        | some pc => rfl
    · obtain rfl := Option.some.inj hs
      exact ⟨keepFw rfl rfl rfl id id, wakeHost rfl rfl rfl rfl id⟩
    · cases hs
  | irq => exact refines_irq h hs
  | rx chunk mem => exact refines_rx h hok hs
  | tx a => exact refines_tx h hs
  | cmdCall c =>
    simp only [Sys.step, Option.ite_none_right_eq_some, Option.some.injEq] at hs
    obtain ⟨-, rfl⟩ := hs
    exact ⟨keepFw rfl rfl rfl id id, keepHost rfl rfl rfl id id⟩
  | cmd chunk expired =>
    simp only [Sys.step] at hs
    split at hs
    · obtain rfl := Option.some.inj hs
      exact ⟨keepFw rfl rfl rfl id id, keepHost rfl rfl rfl id id⟩
    · obtain rfl := Option.some.inj hs
      exact ⟨keepFw rfl rfl rfl (fun hb => rxBell_ringFw (.inl hb)) id,
        keepHost rfl rfl rfl id fun hb => spaceBell_ringFw (.inl hb)⟩
    · cases hs
  | request i =>
    obtain rfl := Option.some.inj hs
    unfold stepRequest
    split
    · exact ⟨keepFw rfl rfl rfl id id, keepHost rfl rfl rfl id id⟩
    · exact ⟨keepFw rfl rfl rfl id id, keepHost rfl rfl rfl id id⟩
    · exact ⟨keepFw rfl rfl rfl (fun hb => rxBell_ringFw (.inl hb)) id,
        keepHost rfl rfl rfl id fun hb => spaceBell_ringFw (.inl hb)⟩
  | poweroff i =>
    simp only [Sys.step, stepPoweroff] at hs
    split at hs
    · obtain rfl := Option.some.inj hs
      exact ⟨keepFw rfl rfl rfl id id, keepHost rfl rfl rfl id id⟩
    · cases hs

/-! ### What the threads know stays true -/

theorem Local.stepRecv {chunk : Nat} {mem : Bool} (h : s.Local)
    (hs : s.stepRecv chunk mem = some s') : s'.Local := by
  have hl := h.recv
  cases hr : s.recv with
  | serve tail pc =>
    rw [hr] at hl
    cases pc with
    | poweroff req =>
      simp only [Sys.stepRecv, hr, Option.some.injEq] at hs
      subst hs
      refine { h with recv := ?_ }
      show RecvPc.Local _ (if _ then _ else _)
      split
      · trivial
      · exact hl
    | _ =>
      simp only [Sys.stepRecv, hr, Option.some.injEq] at hs
      subst hs
      exact { h with recv := hl }
  | off =>
    simp only [Sys.stepRecv, hr] at hs
    cases hs
  | read pc =>
    rw [hr] at hl
    have hl : pc.Local s.toFw := hl
    have inner : some s' = some ({ s with
        toFw := (readStep shmRead chunk mem s.toFw pc).1
        recv := .read (readStep shmRead chunk mem s.toFw pc).2 }.ringHost pc.rings) →
        s'.Local := fun he => by
      obtain rfl := Option.some.inj he
      exact { h with recv := hl.step, tx := h.tx.of_head readStep_head }
    cases pc with
    | readTail =>
      simp only [Sys.stepRecv, hr, Option.some.injEq] at hs
      subst hs
      exact { h with recv := rfl }
    | empty tail =>
      simp only [Sys.stepRecv, hr, Option.ite_none_right_eq_some, Option.some.injEq] at hs
      obtain ⟨-, rfl⟩ := hs
      exact { h with recv := hl }
    | done ret =>
      simp only [Sys.stepRecv, hr, Option.some.injEq] at hs
      subst hs
      exact { h with recv := trivial }
    | _ =>
      simp only [Sys.stepRecv, hr] at hs
      exact inner hs.symm

theorem Local.stepRx {chunk : Nat} {mem : Bool} (h : s.Local)
    (hs : s.stepRx chunk mem = some s') : s'.Local := by
  cases hr : s.rx with
  | none =>
    simp only [Sys.stepRx, hr, Option.ite_none_right_eq_some, Option.some.injEq] at hs
    obtain ⟨-, rfl⟩ := hs
    refine { h with rx := fun pc he => ?_ }
    obtain rfl := Option.some.inj he
    trivial
  | some pc =>
    have inner : some s' = some ({ s with
        toHost := (readStep espShmRead chunk mem s.toHost pc).1
        rx := some (readStep espShmRead chunk mem s.toHost pc).2 }.ringFw pc.rings) →
        s'.Local := fun he => by
      obtain rfl := Option.some.inj he
      refine { h with rx := fun pc' he => ?_, write := h.write.of_head readStep_head }
      obtain rfl := Option.some.inj he
      exact (h.rx pc hr).step
    cases pc with
    | empty tail =>
      simp only [Sys.stepRx, hr, Option.some.injEq] at hs
      subst hs
      exact { h with rx := fun _ he => (nomatch he) }
    | done ret =>
      cases ret with
      | bad =>
        simp only [Sys.stepRx, hr, Option.some.injEq] at hs
        subst hs
        exact { h with rx := fun _ he => (nomatch he) }
      | _ =>
        simp only [Sys.stepRx, hr, Option.some.injEq] at hs
        subst hs
        refine { h with rx := fun pc he => ?_ }
        obtain rfl := Option.some.inj he
        trivial
    | _ =>
      simp only [Sys.stepRx, hr] at hs
      exact inner hs.symm

/-- `shm_write` keeps its push up to date and does not move the tail. -/
theorem writeStep_local (chunk : Nat) (expired : Bool) {m : RingMem} {w : WritePc}
    (h : w.Local m) : (writeStep chunk expired m w).2.Local (writeStep chunk expired m w).1 ∧
      (writeStep chunk expired m w).1.tail = m.tail := by
  cases w with
  | push1 x pc =>
    have h : pc.Local m := h
    have hpush (hp : ∀ ok k, pc ≠ .done ok k) : (writeStep chunk expired m (.push1 x pc)).2.Local
        (writeStep chunk expired m (.push1 x pc)).1 ∧
          (writeStep chunk expired m (.push1 x pc)).1.tail = m.tail := by
      rw [writeStep_push1 hp]
      exact ⟨h.step, pushStep_words.1⟩
    cases pc with
    | done ok k => cases ok <;> exact ⟨trivial, rfl⟩
    | _ => exact hpush (by nofun)
  | push2 x pc =>
    have h : pc.Local m := h
    have hpush (hp : ∀ ok k, pc ≠ .done ok k) : (writeStep chunk expired m (.push2 x pc)).2.Local
        (writeStep chunk expired m (.push2 x pc)).1 ∧
          (writeStep chunk expired m (.push2 x pc)).1.tail = m.tail := by
      rw [writeStep_push2 hp]
      exact ⟨h.step, pushStep_words.1⟩
    cases pc with
    | done ok k => cases ok <;> exact ⟨trivial, rfl⟩
    | _ => exact hpush (by nofun)
  | time x => cases expired <;> exact ⟨trivial, rfl⟩
  | _ => exact ⟨trivial, rfl⟩

theorem Local.stepWrite {chunk : Nat} {expired : Bool} (h : s.Local) :
    (s.stepWrite chunk expired).Local := by
  have ⟨hl, ht⟩ := writeStep_local chunk expired h.write
  unfold Sys.stepWrite
  split
  · exact { h with write := trivial }
  · exact { h with write := trivial }
  · exact { h with write := hl, rx := fun pc hr => (h.rx pc hr).of_tail ht }

theorem Local.stepIrq (h : s.Local) (hs : s.stepIrq = some s') : s'.Local := by
  unfold Sys.stepIrq at hs
  cases hi : s.irq with
  | idle =>
    rw [hi] at hs
    simp only [Option.ite_none_right_eq_some, Option.some.injEq] at hs
    obtain ⟨⟨-, hp⟩, rfl⟩ := hs
    exact { h with unbound := fun hu => absurd hu hp }
  | woke =>
    rw [hi] at hs
    obtain ⟨x, hx, rfl⟩ := Option.map_eq_some_iff.mp hs
    have hm : x.1 = s.toFw := by
      simp only [HostTx.step, Option.ite_none_right_eq_some, Option.some.injEq] at hx
      rw [← hx.2]
    have hl : x.2.1.Local x.1 := h.tx.step .irq (by rintro ⟨⟩) hx
    rw [hm] at hl
    exact { h with tx := hl, unbound := fun hu => (by cases hi.symm.trans (h.unbound hu).1) }
  | _ =>
    rw [hi] at hs
    obtain rfl := Option.some.inj hs
    exact { h with unbound := fun hu => (by cases hi.symm.trans (h.unbound hu).1) }

theorem Local.stepTx {a : HostTx.Act} (h : s.Local) (hs : s.stepTx a = some s') : s'.Local := by
  have he : a ≠ .remove ∧ s.probe ≠ .unbound ∧
      (s.tx.step s.toFw a).map (fun x => { s with toFw := x.1, tx := x.2.1 }.ringFw x.2.2) =
        some s' := by
    cases a with
    | irq => cases hs
    | remove => cases hs
    | _ =>
      simp only [Sys.stepTx, Option.ite_none_left_eq_some] at hs
      exact ⟨nofun, hs⟩
  obtain ⟨hne, hp, he⟩ := he
  obtain ⟨x, hx, rfl⟩ := Option.map_eq_some_iff.mp he
  exact { h with
    tx := h.tx.step a hne hx
    recv := h.recv.of_tail (HostTx.step_tail a hx)
    unbound := fun hu => absurd hu hp }

/-- **The threads stay up to date.** -/
theorem Local.step {hb : HeaderBytes} {size : U32} (a : SysAct) (h : s.Local)
    (hs : Sys.step hb size a s = some s') : s'.Local := by
  cases a with
  | isr =>
    simp only [Sys.step, Sys.stepIsr] at hs
    split at hs
    · simp only [Option.ite_none_right_eq_some, Option.some.injEq] at hs
      obtain ⟨-, rfl⟩ := hs
      exact { h with }
    · obtain rfl := Option.some.inj hs
      exact { h with }
    · obtain rfl := Option.some.inj hs
      exact { h with }
  | recv chunk mem => exact h.stepRecv hs
  | call handle buf =>
    simp only [Sys.step] at hs
    split at hs
    · obtain rfl := Option.some.inj hs
      exact { h with write := (shmWrite_start s.toHost).2 }
    · obtain rfl := Option.some.inj hs
      exact { h with write := (shmWrite_start s.toHost).2 }
    · cases hs
  | write chunk expired =>
    obtain rfl := Option.some.inj hs
    exact h.stepWrite
  | flash a =>
    obtain ⟨x, -, rfl⟩ := Option.map_eq_some_iff.mp hs
    exact { h with }
  | bind =>
    simp only [Sys.step] at hs
    split at hs
    · obtain rfl := Option.some.inj hs
      refine { h with tx := ?_, unbound := fun hu => (nomatch hu) }
      exact ⟨fun _ => nofun, fun _ => nofun, .inl rfl, fun hq => (nomatch hq),
        fun hq => (nomatch hq)⟩
    · obtain rfl := Option.some.inj hs
      exact { h with unbound := fun hu => (nomatch hu) }
    · cases hs
  | irq => exact h.stepIrq hs
  | rx chunk mem => exact h.stepRx hs
  | tx a => exact h.stepTx hs
  | cmdCall c =>
    simp only [Sys.step, Option.ite_none_right_eq_some, Option.some.injEq] at hs
    obtain ⟨-, rfl⟩ := hs
    exact { h with }
  | cmd chunk expired =>
    simp only [Sys.step] at hs
    split at hs
    · obtain rfl := Option.some.inj hs
      exact { h with }
    · obtain rfl := Option.some.inj hs
      exact { h with }
    · cases hs
  | request i =>
    obtain rfl := Option.some.inj hs
    unfold stepRequest
    split <;> exact { h with }
  | poweroff i =>
    simp only [Sys.step, stepPoweroff] at hs
    split at hs
    · obtain rfl := Option.some.inj hs
      exact { h with }
    · cases hs

end Sys

end Esp32S31.Shm
