import Esp32S31.Shm.Sides

/-!
# The transmit side of Linux as a producer

`HostTx.Local` is what the threads of the transmit side know: a flush works on the first frame of
the queue with the head that it has loaded, only the work holds the lock as the work, and a quiesced
side has no flush that pushes and, once the quiesce is over, an empty queue. `HostTx.refines` says
that each of their steps is a step of the doorbell protocol: what wakes the transmit work is only
taken when nobody waits, or when the work gets the lock.
-/

namespace Esp32S31.Shm

open Esp32S31.Lib Doorbell

/-- A flush works on the first frame of the queue. -/
def FlushPc.Local (m : RingMem) (queue : List Skb) : FlushPc → Prop
  | .push1 skb pc | .push2 skb pc => queue.head? = some skb ∧ pc.Local m
  | .setWait skb => queue.head? = some skb
  | _ => True

namespace HostTx

/-- **What the threads of the transmit side know.** -/
structure Local (m : RingMem) (t : HostTx) : Prop where
  flush : ∀ f, t.txLock = some f → f.pc.Local m t.txQueue
  worker : ∀ f, t.txLock = some f → f.caller = .work → t.work = .locked
  ctl : t.ctl = .idle ∨ t.ctl = .reinitSchedule ∨ t.txQuiesced = true
  stopped : t.txQuiesced = true → ∀ f, t.txLock = some f → f.pc = .start ∨ f.pc = .unlock
  purged : t.txQuiesced = true → t.txQueue ≠ [] → t.ctl = .quiesceCancel ∨ t.ctl = .quiescePurge

variable {m : RingMem} {t t' : HostTx} {f : Flush} {chunk : Nat}

/-- The flush goes on, and nothing else changes. -/
theorem Local.goto (h : t.Local m) (hf : t.txLock = some f) {m' : RingMem} {kick : Bool}
    {pc : FlushPc}
    (hpc : pc.Local m' t.txQueue) (hs : t.txQuiesced = true → pc = .start ∨ pc = .unlock) :
    (t.goto { f with kick := kick } pc).Local m' where
  flush _ hg := by
    obtain rfl := Option.some.inj hg
    exact hpc
  worker _ hg hc := by
    obtain rfl := Option.some.inj hg
    exact h.worker f hf hc
  ctl := h.ctl
  stopped hq _ hg := by
    obtain rfl := Option.some.inj hg
    exact hs hq
  purged := h.purged

/-- A flush that pushes is not one of a quiesced side. -/
theorem Local.not_quiesced (h : t.Local m) (hf : t.txLock = some f) (h1 : f.pc ≠ .start)
    (h2 : f.pc ≠ .unlock) {p : Prop} : t.txQuiesced = true → p := fun hq =>
  absurd (h.stopped hq f hf) (not_or.mpr ⟨h1, h2⟩)

theorem flow_with (t : HostTx) (pause : Bool) : ∃ p n, t.flow pause =
    { t with txPaused := p, netStopped := n } := by
  unfold flow
  split
  · exact ⟨t.txPaused, t.netStopped, rfl⟩
  · exact ⟨pause, pause, rfl⟩

theorem release_eq (t : HostTx) (c : TxCaller) : ∃ p n, t.release c =
    { t with
      txPaused := p, netStopped := n, txLock := none
      work := match c with | .work => .idle | .write => t.work } := by
  cases c with
  | write =>
    simp only [release]
    split
    · obtain ⟨p, n, h⟩ := t.flow_with true
      exact ⟨p, n, by rw [h]⟩
    · exact ⟨t.txPaused, t.netStopped, rfl⟩
  | work => exact ⟨t.txPaused, t.netStopped, rfl⟩

/-! ## A step of a flush -/

theorem Local.flushStep (h : t.Local m) (hf : t.txLock = some f) :
    (HostTx.flushStep chunk m t f).2.1.Local (HostTx.flushStep chunk m t f).1 := by
  obtain ⟨c, pc, k⟩ := f
  have hl : pc.Local m t.txQueue := h.flush _ hf
  cases pc with
  | start =>
    refine h.goto hf ?_ fun hq => .inr ?_
    · show FlushPc.Local m _ (if _ then _ else _)
      split <;> trivial
    · rw [hq, Bool.or_true, if_pos rfl]
  | peek =>
    have hq : t.txQuiesced = true → False := h.not_quiesced hf nofun nofun
    cases hqu : t.txQueue with
    | nil =>
      simp only [HostTx.flushStep, hqu]
      exact h.goto hf trivial fun h => (hq h).elim
    | cons skb rest =>
      simp only [HostTx.flushStep, hqu]
      exact h.goto hf ⟨by rw [hqu]; rfl, trivial⟩ fun h => (hq h).elim
  | push1 skb pc =>
    have hq : t.txQuiesced = true → False := h.not_quiesced hf nofun nofun
    have hpush (hp : ∀ ok kick, pc ≠ .done ok kick) :
        (HostTx.flushStep chunk m t ⟨c, .push1 skb pc, k⟩).2.1.Local
        (HostTx.flushStep chunk m t ⟨c, .push1 skb pc, k⟩).1 := by
      rw [flushStep_push1 hp]
      exact h.goto hf ⟨hl.1, hl.2.step⟩ fun h => (hq h).elim
    cases pc with
    | done ok kick =>
      cases ok
      · exact h.goto hf hl.1 fun h => (hq h).elim
      · exact h.goto hf trivial fun h => (hq h).elim
    | _ => exact hpush (by nofun)
  | setWait skb =>
    exact h.goto hf ⟨hl, trivial⟩ (h.not_quiesced hf nofun nofun)
  | push2 skb pc =>
    have hq : t.txQuiesced = true → False := h.not_quiesced hf nofun nofun
    have hpush (hp : ∀ ok kick, pc ≠ .done ok kick) :
        (HostTx.flushStep chunk m t ⟨c, .push2 skb pc, k⟩).2.1.Local
        (HostTx.flushStep chunk m t ⟨c, .push2 skb pc, k⟩).1 := by
      rw [flushStep_push2 hp]
      exact h.goto hf ⟨hl.1, hl.2.step⟩ fun h => (hq h).elim
    cases pc with
    | done ok kick => cases ok <;> exact h.goto hf trivial fun h => (hq h).elim
    | _ => exact hpush (by nofun)
  | unlink skb =>
    have hq : t.txQuiesced = true → False := h.not_quiesced hf nofun nofun
    have hg : (t.goto ⟨c, .unlink skb, k⟩ .peek).Local m := h.goto hf trivial fun h => (hq h).elim
    refine ⟨fun _ he => ?_, hg.worker, hg.ctl, hg.stopped, fun h => (hq h).elim⟩
    obtain rfl := Option.some.inj he
    trivial
  | resume =>
    have hq : t.txQuiesced = true → False := h.not_quiesced hf nofun nofun
    have hg : (t.goto ⟨c, .resume, k⟩ .ring).Local m := h.goto hf trivial fun h => (hq h).elim
    show ((if t.txQueue.length ≤ espShmTxResume then t.flow false else t).goto _ .ring).Local m
    split
    · obtain ⟨p, n, he⟩ := t.flow_with false
      rw [he]
      exact ⟨hg.flush, hg.worker, hg.ctl, hg.stopped, hg.purged⟩
    · exact hg
  | ring => exact h.goto hf trivial fun _ => .inr rfl
  | unlock =>
    obtain ⟨p, n, he⟩ := t.release_eq c
    show (t.release c).Local m
    rw [he]
    exact ⟨fun _ => nofun, fun _ => nofun, h.ctl, fun _ _ => nofun, h.purged⟩

/-! ## The side of the protocol -/

/-- The ring to the firmware with the transmit side as its producer; `R` is a doorbell that the code
has rung, `X` one that has not reached the handler's look at the queue. -/
def side (m : RingMem) (t : HostTx) (cons : Consumer) (R X : Prop) : Side U32 U32 :=
  ⟨m.head, m.tail, m.wait ≠ 0, t.prod, cons, R ∨ t.forced = true, X ∨ t.workBell⟩

theorem prod_of_free (h : t.txLock = none) : t.prod = t.idleProd := by
  rw [prod, h]

theorem prod_of_flush (h : t.txLock = some f) : t.prod = t.flushProd f.pc := by
  rw [prod, h]

theorem queueProd_ne_stored (t : HostTx) (old : U32) : t.queueProd ≠ .stored old := by
  unfold queueProd
  split <;> nofun

theorem queueProd_nil (h : t.txQueue = []) : t.queueProd = .quiet := by
  rw [queueProd, h]

theorem queueProd_head {skb : Skb} (h : t.txQueue.head? = some skb) :
    t.queueProd = .stuck (recordLen (espShmPush skb.data).len) := by
  unfold queueProd
  cases hq : t.txQueue with
  | nil =>
    rw [hq] at h
    cases h
  | cons skb' rest =>
    rw [hq] at h
    obtain rfl := Option.some.inj h
    rfl

theorem forced_of_free (h : t.txLock = none) : t.forced = false := by
  rw [forced, h]

theorem forced_of_flush (h : t.txLock = some f) : t.forced = f.forced := by
  rw [forced, h]

variable {cons : Consumer} {R Q X Y : Prop}

theorem forced_push1 {c : TxCaller} {k : Bool} {skb : Skb} {pc : PushPc}
    (h : k = true ∨ pc = .done true true) : (⟨c, .push1 skb pc, k⟩ : Flush).forced = true := by
  rcases h with rfl | rfl
  · unfold Flush.forced
    split <;> first | rfl | contradiction
  · rfl

theorem forced_push2 {c : TxCaller} {k : Bool} {skb : Skb} {pc : PushPc}
    (h : k = true ∨ pc = .done true true) : (⟨c, .push2 skb pc, k⟩ : Flush).forced = true := by
  rcases h with rfl | rfl
  · unfold Flush.forced
    split <;> first | rfl | contradiction
  · rfl

theorem forced_push1_of {c : TxCaller} {k : Bool} {skb : Skb} {pc : PushPc}
    (h : ∀ ok kick, pc ≠ .done ok kick) : (⟨c, .push1 skb pc, k⟩ : Flush).forced = k := by
  cases pc with
  | done ok kick => exact absurd rfl (h ok kick)
  | _ => rfl

theorem forced_push2_of {c : TxCaller} {k : Bool} {skb : Skb} {pc : PushPc}
    (h : ∀ ok kick, pc ≠ .done ok kick) : (⟨c, .push2 skb pc, k⟩ : Flush).forced = k := by
  cases pc with
  | done ok kick => exact absurd rfl (h ok kick)
  | _ => rfl

/-- A push that returned true has its kick in the flush. -/
theorem forced_done1 {c : TxCaller} {k kick : Bool} {skb : Skb}
    (h : (⟨c, .push1 skb (.done true kick), k⟩ : Flush).forced = true) : (k || kick) = true := by
  cases kick
  · rw [Bool.or_false]
    exact h
  · exact Bool.or_true k

theorem forced_done2 {c : TxCaller} {k kick : Bool} {skb : Skb}
    (h : (⟨c, .push2 skb (.done true kick), k⟩ : Flush).forced = true) : (k || kick) = true := by
  cases kick
  · rw [Bool.or_false]
    exact h
  · exact Bool.or_true k

/-- The test at the start of a flush. -/
theorem not_up : ∀ running quiesced : Bool, (!running || quiesced) = true →
    ¬ (running && !quiesced) = true := by
  decide

/-- **A step of a flush is a step of the protocol.** -/
theorem refines_flush (h : t.Local m) (hf : t.txLock = some f)
    (hR : R ∨ (HostTx.flushStep chunk m t f).2.2 = true → Q) (hX : X → Y) :
    Step toFw.fits (side m t cons R X)
      (side (HostTx.flushStep chunk m t f).1 (HostTx.flushStep chunk m t f).2.1 cons Q Y) := by
  obtain ⟨c, pc, k⟩ := f
  have hl : pc.Local m t.txQueue := h.flush _ hf
  have hR1 : R → Q := fun hr => hR (.inl hr)
  have hside : side m t cons R X = ⟨m.head, m.tail, m.wait ≠ 0, t.flushProd pc, cons,
      R ∨ (⟨c, pc, k⟩ : Flush).forced = true, X ∨ t.workBell⟩ := by
    simp only [side, prod_of_flush hf, forced_of_flush hf]
  have hX1 : X ∨ t.workBell → Y ∨ t.workBell := Or.imp_left hX
  rw [hside]
  cases pc with
  | start =>
    refine .keep ⟨rfl, rfl, id⟩ ?_ rfl (.of (Or.imp hR1 nofun) hX1)
    show flushProd _ (if _ then _ else _) = .quiet
    split
    · rename_i hq
      exact if_neg (not_up _ _ hq)
    · rfl
  | peek =>
    cases hqu : t.txQueue with
    | nil =>
      simp only [HostTx.flushStep, hqu]
      exact .keep ⟨rfl, rfl, id⟩ (queueProd_nil hqu) rfl (.of (Or.imp_left hR1) hX1)
    | cons skb rest =>
      simp only [HostTx.flushStep, hqu]
      exact .keep ⟨rfl, rfl, id⟩ rfl rfl (.of (Or.imp_left hR1) hX1)
  | push1 skb pc =>
    have hpush (hp : ∀ ok kick, pc ≠ .done ok kick) :
        Step toFw.fits ⟨m.head, m.tail, m.wait ≠ 0, t.flushProd (.push1 skb pc), cons,
            R ∨ (⟨c, .push1 skb pc, k⟩ : Flush).forced = true, X ∨ t.workBell⟩
          (side (HostTx.flushStep chunk m t ⟨c, .push1 skb pc, k⟩).1
            (HostTx.flushStep chunk m t ⟨c, .push1 skb pc, k⟩).2.1 cons Q Y) := by
      rw [flushStep_push1 hp, forced_push1_of hp]
      exact push_refines toFw (espShmPush skb.data) chunk false hl.2 (Or.imp hR1 fun hk =>
        forced_push1 (.inl hk)) hX1
        fun hd => .inr (forced_push1 (.inr hd))
    cases pc with
    | done ok kick =>
      cases ok
      · exact .keep ⟨rfl, rfl, id⟩ rfl rfl (.of (Or.imp_left hR1) hX1)
      · exact .keep ⟨rfl, rfl, id⟩ rfl rfl (.of (Or.imp hR1 forced_done1) hX1)
    | _ => exact hpush (by nofun)
  | setWait skb =>
    exact .ask rfl (by show (1 : U32) ≠ 0; decide) rfl rfl rfl rfl (.of (Or.imp_left hR1) hX1)
  | push2 skb pc =>
    have hpush (hp : ∀ ok kick, pc ≠ .done ok kick) :
        Step toFw.fits ⟨m.head, m.tail, m.wait ≠ 0, t.flushProd (.push2 skb pc), cons,
            R ∨ (⟨c, .push2 skb pc, k⟩ : Flush).forced = true, X ∨ t.workBell⟩
          (side (HostTx.flushStep chunk m t ⟨c, .push2 skb pc, k⟩).1
            (HostTx.flushStep chunk m t ⟨c, .push2 skb pc, k⟩).2.1 cons Q Y) := by
      rw [flushStep_push2 hp, forced_push2_of hp]
      exact push_refines toFw (espShmPush skb.data) chunk true hl.2 (Or.imp hR1 fun hk =>
        forced_push2 (.inl hk)) hX1
        fun hd => .inr (forced_push2 (.inr hd))
    cases pc with
    | done ok kick =>
      cases ok
      · exact .keep ⟨rfl, rfl, id⟩ (queueProd_head hl.1) rfl (.of (Or.imp_left hR1) hX1)
      · exact .keep ⟨rfl, rfl, id⟩ rfl rfl (.of (Or.imp hR1 forced_done2) hX1)
    | _ => exact hpush (by nofun)
  | unlink skb => exact .keep ⟨rfl, rfl, id⟩ rfl rfl (.of (Or.imp_left hR1) hX1)
  | resume =>
    obtain ⟨p, n, he⟩ := t.flow_with false
    simp only [HostTx.flushStep]
    split
    · rw [he]
      exact .keep ⟨rfl, rfl, id⟩ rfl rfl (.of (Or.imp_left hR1) hX1)
    · exact .keep ⟨rfl, rfl, id⟩ rfl rfl (.of (Or.imp_left hR1) hX1)
  | ring =>
    have b : ∀ {p : Producer U32 U32}, Bells (ι := U32) (ν := U32)
        ⟨m.head, m.tail, m.wait ≠ 0, t.queueProd, cons,
          R ∨ (⟨c, .ring, k⟩ : Flush).forced = true, X ∨ t.workBell⟩
        ⟨m.head, m.tail, m.wait ≠ 0, p, cons, Q ∨ false = true, Y ∨ t.workBell⟩ :=
      .of (fun hr => .inl (hR hr)) hX1
    by_cases hq : (t.running && !t.txQuiesced) = true
    · exact .keep ⟨rfl, rfl, id⟩ (if_pos hq) rfl b
    · exact .leave t.queueProd_ne_stored (if_neg hq) ⟨rfl, rfl, id⟩ rfl b
  | unlock =>
    obtain ⟨p, n, he⟩ := t.release_eq c
    show Step _ _ (side m (t.release c) cons Q Y)
    rw [he]
    refine .keep ⟨rfl, rfl, id⟩ rfl rfl (.of (Or.imp hR1 nofun) (Or.imp hX ?_))
    rintro (hw | hw)
    · exact .inl hw
    · -- the work that waits for the lock does not hold it
      cases c with
      | write => exact .inr hw
      | work => cases (h.worker _ hf rfl).symm.trans hw

/-! ## All steps -/

/-- A quiesced side waits for nothing. -/
theorem calm_of_quiesced (h : t.Local m) (hq : t.txQuiesced = true) : t.prod.calm := by
  have hidle : t.idleProd = .quiet := if_neg (by rw [hq]; simp)
  cases hf : t.txLock with
  | none =>
    rw [prod_of_free hf, hidle]
    trivial
  | some f =>
    rw [prod_of_flush hf]
    rcases h.stopped hq f hf with hpc | hpc
    · rw [hpc]
      trivial
    · rw [hpc]
      show t.idleProd.calm
      rw [hidle]
      trivial

/-- With an empty queue nobody waits. -/
theorem calm_of_empty (h : t.Local m) (hq : t.txQueue = []) : t.prod.calm := by
  have hidle : t.idleProd.calm := by
    unfold idleProd
    split
    · rw [queueProd_nil hq]
      trivial
    · trivial
  cases hf : t.txLock with
  | none =>
    rw [prod_of_free hf]
    exact hidle
  | some f =>
    have hl := h.flush f hf
    rw [prod_of_flush hf]
    cases hpc : f.pc with
    | push1 skb pc =>
      rw [hpc] at hl
      have hl := hl.1
      rw [hq] at hl
      cases hl
    | push2 skb pc =>
      rw [hpc] at hl
      have hl := hl.1
      rw [hq] at hl
      cases hl
    | resume =>
      show t.queueProd.calm
      rw [queueProd_nil hq]
      trivial
    | ring =>
      show t.queueProd.calm
      rw [queueProd_nil hq]
      trivial
    | unlock => exact hidle
    | _ => trivial

/-- With the lock free, what the side owes is not a look at the tail. -/
theorem idleProd_ne_stored (t : HostTx) (old : U32) : t.idleProd ≠ .stored old := by
  unfold idleProd
  split
  · exact t.queueProd_ne_stored old
  · nofun

/-- The handler's look at the queue: nobody waits, or the work is to run. -/
theorem irq_serves {rings : Bool} {m' : RingMem} (h : t.Local m)
    (hs : t.step m .irq = some (m', t', rings)) : t'.workBell ∨ t'.prod.calm := by
  simp only [HostTx.step, Option.ite_none_right_eq_some, Option.some.injEq, Prod.mk.injEq] at hs
  obtain ⟨-, -, rfl, -⟩ := hs
  split
  · rename_i hq
    exact .inr (calm_of_empty h hq)
  · exact .inl (.inl rfl)

/-- The lock is free before and after. -/
theorem side_of_free (h : t.txLock = none) :
    side m t cons R X = ⟨m.head, m.tail, m.wait ≠ 0, t.idleProd, cons, R ∨ false = true,
      X ∨ t.workBell⟩ := by
  simp only [side, prod_of_free h, forced_of_free h]

/-- **Every step of the transmit side is a step of the protocol.** -/
theorem refines (a : Act) {rings : Bool} {m' : RingMem} (h : t.Local m) (hr : a ≠ .remove)
    (hs : t.step m a = some (m', t', rings)) (hR : R ∨ rings = true → Q)
    (hX : X → Y ∨ a = .irq) :
    Step toFw.fits (side m t cons R X) (side m' t' cons Q Y) := by
  have hR1 : R → Q := fun hr => hR (.inl hr)
  cases a with
  | remove => exact absurd rfl hr
  | irq =>
    have hserves := irq_serves h hs
    simp only [HostTx.step, Option.ite_none_right_eq_some, Option.some.injEq, Prod.mk.injEq] at hs
    obtain ⟨-, rfl, ht, rfl⟩ := hs
    have hsame : t'.prod = t.prod ∧ t'.forced = t.forced := by
      rw [← ht]
      split <;> exact ⟨rfl, rfl⟩
    refine .keep ⟨rfl, rfl, id⟩ hsame.1 rfl ⟨fun hb => .inl ?_, fun _ => ?_⟩
    · exact hb.imp hR1 fun hf => hsame.2.trans hf
    · exact hserves.imp_left .inr
  | flush chunk =>
    obtain ⟨f, hf, he⟩ := Option.map_eq_some_iff.mp hs
    have hst : Step toFw.fits (side m t cons R X) (side (HostTx.flushStep chunk m t f).1
        (HostTx.flushStep chunk m t f).2.1 cons Q Y) :=
      refines_flush h hf (by rw [he]; exact hR) fun hx => (hX hx).resolve_right nofun
    rw [he] at hst
    exact hst
  | write skb =>
    have hX1 : X → Y := fun hx => (hX hx).resolve_right nofun
    simp only [HostTx.step, Option.ite_none_right_eq_some, Option.some.injEq, Prod.mk.injEq] at hs
    obtain ⟨hf, rfl, rfl, rfl⟩ := hs
    rw [side_of_free hf]
    unfold HostTx.write
    split
    · exact .keep ⟨rfl, rfl, id⟩ (prod_of_free hf) rfl
        (.of (Or.imp hR1 nofun) (Or.imp_left hX1))
    · split
      · exact .keep ⟨rfl, rfl, id⟩ (prod_of_free hf) rfl
          (.of (Or.imp hR1 nofun) (Or.imp_left hX1))
      · exact .leave t.idleProd_ne_stored rfl ⟨rfl, rfl, id⟩ rfl
          (.of (Or.imp hR1 nofun) (Or.imp_left hX1))
  | work =>
    have hX1 : X → Y := fun hx => (hX hx).resolve_right nofun
    simp only [HostTx.step, Option.ite_none_right_eq_some, Option.some.injEq, Prod.mk.injEq] at hs
    obtain ⟨hw, rfl, rfl, rfl⟩ := hs
    exact .keep ⟨rfl, rfl, id⟩ rfl rfl (.of (Or.imp_left hR1) fun _ => .inr (.inr rfl))
  | workLock =>
    simp only [HostTx.step, Option.ite_none_right_eq_some, Option.some.injEq, Prod.mk.injEq] at hs
    obtain ⟨⟨hw, hf⟩, rfl, rfl, rfl⟩ := hs
    rw [side_of_free hf]
    exact .leave t.idleProd_ne_stored rfl ⟨rfl, rfl, id⟩ rfl
      ⟨fun hb => .inl (hb.imp hR1 nofun), fun _ => .inr trivial⟩
  | quiesce =>
    have hX1 : X → Y := fun hx => (hX hx).resolve_right nofun
    simp only [HostTx.step, Option.ite_none_right_eq_some, Option.some.injEq, Prod.mk.injEq] at hs
    obtain ⟨⟨hc, hf⟩, rfl, rfl, rfl⟩ := hs
    rw [side_of_free hf]
    refine .leave t.idleProd_ne_stored ?_ ⟨rfl, rfl, id⟩ rfl
      (.of (Or.imp hR1 nofun) (Or.imp_left hX1))
    exact (prod_of_free (t := { t with txQuiesced := true, ctl := .quiesceCancel }) hf).trans
      (if_neg (by rw [Bool.not_true, Bool.and_false]; nofun))
  | cancel =>
    have hc : t.txQuiesced = true := by
      simp only [HostTx.step, Option.ite_none_right_eq_some] at hs
      rcases h.ctl with hc | hc | hc
      · rw [hc] at hs
        exact absurd hs.2 nofun
      · rw [hc] at hs
        exact absurd hs.2 nofun
      · exact hc
    have hcalm := calm_of_quiesced h hc
    simp only [HostTx.step, Option.ite_none_right_eq_some] at hs
    obtain ⟨-, hs⟩ := hs
    split at hs
    · obtain ⟨rfl, rfl, rfl⟩ := hs
      exact .keep ⟨rfl, rfl, id⟩ rfl rfl ⟨fun hb => .inl (hb.imp_left hR1), fun _ => .inr hcalm⟩
    · obtain ⟨rfl, rfl, rfl⟩ := hs
      exact .keep ⟨rfl, rfl, id⟩ rfl rfl ⟨fun hb => .inl (hb.imp_left hR1), fun _ => .inr hcalm⟩
    · cases hs
  | purge =>
    have hX1 : X → Y := fun hx => (hX hx).resolve_right nofun
    simp only [HostTx.step, Option.ite_none_right_eq_some, Option.some.injEq, Prod.mk.injEq] at hs
    obtain ⟨⟨hf, hc⟩, rfl, rfl, rfl⟩ := hs
    rw [side_of_free hf]
    refine .leave t.idleProd_ne_stored ?_ ⟨rfl, rfl, id⟩ rfl
      (.of (Or.imp hR1 nofun) (Or.imp_left hX1))
    refine (prod_of_free (t := { t with txQueue := [], ctl := .idle }) hf).trans ?_
    unfold idleProd
    split <;> rfl
  | reinit =>
    have hX1 : X → Y := fun hx => (hX hx).resolve_right nofun
    simp only [HostTx.step, Option.ite_none_right_eq_some, Option.some.injEq, Prod.mk.injEq] at hs
    obtain ⟨⟨hc, hrun, hf⟩, rfl, rfl, rfl⟩ := hs
    rw [side_of_free hf]
    refine .keep ⟨rfl, rfl, id⟩ ?_ rfl (.of (Or.imp hR1 nofun) (Or.imp_left hX1))
    refine (prod_of_free (t := { t with txQuiesced := false, ctl := .reinitSchedule }) hf).trans ?_
    cases hq : t.txQuiesced
    · rw [idleProd, idleProd, hq]
      rfl
    · -- a quiesced side has an empty queue by now
      have he : t.txQueue = [] := by
        by_contra hne
        rcases h.purged hq hne with hp | hp <;> cases hc.symm.trans hp
      have h1 : HostTx.queueProd { t with txQuiesced := false, ctl := .reinitSchedule } = .quiet :=
        queueProd_nil he
      rw [idleProd, idleProd, h1, queueProd_nil he, ite_self, ite_self]
  | schedule =>
    have hX1 : X → Y := fun hx => (hX hx).resolve_right nofun
    simp only [HostTx.step, Option.ite_none_right_eq_some, Option.some.injEq, Prod.mk.injEq] at hs
    obtain ⟨hc, rfl, rfl, rfl⟩ := hs
    exact .keep ⟨rfl, rfl, id⟩ rfl rfl (.of (Or.imp_left hR1) fun _ => .inr (.inl rfl))

/-- **The threads keep up to date.** -/
theorem Local.step (a : Act) {rings : Bool} {m' : RingMem} (h : t.Local m) (hr : a ≠ .remove)
    (hs : t.step m a = some (m', t', rings)) : t'.Local m' := by
  cases a with
  | remove => exact absurd rfl hr
  | write skb =>
    simp only [HostTx.step, Option.ite_none_right_eq_some, Option.some.injEq, Prod.mk.injEq] at hs
    obtain ⟨hf, rfl, rfl, rfl⟩ := hs
    unfold HostTx.write
    split
    · exact h
    · rename_i hup
      split
      · exact h
      · refine ⟨fun _ he => ?_, fun _ he => ?_, h.ctl, fun hq => ?_, fun hq => ?_⟩
        · obtain rfl := Option.some.inj he
          trivial
        · obtain rfl := Option.some.inj he
          nofun
        · exact absurd (by rw [show t.txQuiesced = true from hq, Bool.or_true]) hup
        · exact absurd (by rw [show t.txQuiesced = true from hq, Bool.or_true]) hup
  | flush chunk =>
    obtain ⟨f, hf, he⟩ := Option.map_eq_some_iff.mp hs
    have hl : (HostTx.flushStep chunk m t f).2.1.Local (HostTx.flushStep chunk m t f).1 :=
      h.flushStep hf
    rw [he] at hl
    exact hl
  | irq =>
    simp only [HostTx.step, Option.ite_none_right_eq_some, Option.some.injEq, Prod.mk.injEq] at hs
    obtain ⟨-, rfl, rfl, -⟩ := hs
    split
    · exact h
    · exact { h with }
  | work =>
    simp only [HostTx.step, Option.ite_none_right_eq_some, Option.some.injEq, Prod.mk.injEq] at hs
    obtain ⟨⟨-, hw⟩, rfl, rfl, rfl⟩ := hs
    exact { h with worker := fun f hf hc => by cases hw.symm.trans (h.worker f hf hc) }
  | workLock =>
    simp only [HostTx.step, Option.ite_none_right_eq_some, Option.some.injEq, Prod.mk.injEq] at hs
    obtain ⟨⟨hw, hf⟩, rfl, rfl, rfl⟩ := hs
    refine ⟨fun _ he => ?_, fun _ _ _ => rfl, h.ctl, fun hq _ he => ?_, h.purged⟩
    · obtain rfl := Option.some.inj he
      trivial
    · obtain rfl := Option.some.inj he
      exact .inl rfl
  | quiesce =>
    simp only [HostTx.step, Option.ite_none_right_eq_some, Option.some.injEq, Prod.mk.injEq] at hs
    obtain ⟨⟨hc, hf⟩, rfl, rfl, rfl⟩ := hs
    exact ⟨h.flush, h.worker, .inr (.inr rfl), fun _ _ he => (nomatch hf.symm.trans he),
      fun _ _ => .inl rfl⟩
  | cancel =>
    simp only [HostTx.step, Option.ite_none_right_eq_some] at hs
    obtain ⟨-, hs⟩ := hs
    have hq : t.ctl ≠ .idle → t.ctl ≠ .reinitSchedule → t.txQuiesced = true := fun h1 h2 =>
      (h.ctl.resolve_left h1).resolve_left h2
    split at hs
    · rename_i hc
      obtain ⟨rfl, rfl, rfl⟩ := hs
      exact ⟨h.flush, h.worker, .inr (.inr (hq (by rw [hc]; nofun) (by rw [hc]; nofun))), h.stopped,
        fun _ _ => .inr rfl⟩
    · rename_i hc
      obtain ⟨rfl, rfl, rfl⟩ := hs
      refine ⟨h.flush, h.worker, .inr (.inr (hq (by rw [hc]; nofun) (by rw [hc]; nofun))),
        h.stopped, fun h1 h2 => ?_⟩
      rcases h.purged h1 h2 with hp | hp <;> cases hc.symm.trans hp
    · cases hs
  | purge =>
    simp only [HostTx.step, Option.ite_none_right_eq_some, Option.some.injEq, Prod.mk.injEq] at hs
    obtain ⟨⟨hf, hc⟩, rfl, rfl, rfl⟩ := hs
    exact ⟨fun _ he => (nomatch hf.symm.trans he), h.worker, .inl rfl, h.stopped,
      fun _ hne => absurd rfl hne⟩
  | reinit =>
    simp only [HostTx.step, Option.ite_none_right_eq_some, Option.some.injEq, Prod.mk.injEq] at hs
    obtain ⟨⟨hc, hrun, hf⟩, rfl, rfl, rfl⟩ := hs
    exact ⟨h.flush, h.worker, .inr (.inl rfl), fun hq => (nomatch hq), fun hq => (nomatch hq)⟩
  | schedule =>
    simp only [HostTx.step, Option.ite_none_right_eq_some, Option.some.injEq, Prod.mk.injEq] at hs
    obtain ⟨hc, rfl, rfl, rfl⟩ := hs
    refine ⟨h.flush, h.worker, .inl rfl, h.stopped, fun h1 h2 => ?_⟩
    rcases h.purged h1 h2 with hp | hp <;> cases hc.symm.trans hp

/-- The transmit side does not move the tail. -/
theorem flushStep_tail (m : RingMem) (t : HostTx) (f : Flush) :
    (HostTx.flushStep chunk m t f).1.tail = m.tail := by
  obtain ⟨c, pc, k⟩ := f
  cases pc with
  | peek =>
    simp only [HostTx.flushStep]
    split <;> rfl
  | push1 skb pc =>
    have hpush (hp : ∀ ok kick, pc ≠ .done ok kick) :
        (HostTx.flushStep chunk m t ⟨c, .push1 skb pc, k⟩).1.tail = m.tail := by
      rw [flushStep_push1 hp]
      exact pushStep_words.1
    cases pc with
    | done ok kick => rfl
    | _ => exact hpush (by nofun)
  | push2 skb pc =>
    have hpush (hp : ∀ ok kick, pc ≠ .done ok kick) :
        (HostTx.flushStep chunk m t ⟨c, .push2 skb pc, k⟩).1.tail = m.tail := by
      rw [flushStep_push2 hp]
      exact pushStep_words.1
    cases pc with
    | done ok kick => rfl
    | _ => exact hpush (by nofun)
  | _ => rfl

theorem step_tail (a : Act) {rings : Bool} {m' : RingMem}
    (hs : t.step m a = some (m', t', rings)) : m'.tail = m.tail := by
  cases a with
  | flush chunk =>
    obtain ⟨f, -, he⟩ := Option.map_eq_some_iff.mp hs
    rw [← flushStep_tail m t f, he]
  | cancel =>
    simp only [HostTx.step, Option.ite_none_right_eq_some] at hs
    obtain ⟨-, hs⟩ := hs
    split at hs
    · obtain ⟨rfl, -, -⟩ := hs
      rfl
    · obtain ⟨rfl, -, -⟩ := hs
      rfl
    · cases hs
  | _ =>
    simp only [HostTx.step, Option.ite_none_right_eq_some, Option.some.injEq, Prod.mk.injEq] at hs
    rw [hs.2.1]

end HostTx

end Esp32S31.Shm
