import Esp32S31.Shm.System
import Esp32S31.Lib.Doorbell

/-!
# Each ring follows the doorbell protocol

`Sys.fwSide` and `Sys.hostSide` read one ring with its two parties as a `Doorbell.Side`: what its
producer owes (`PushPc.prod`, `HostTx.prod`, `WritePc.prod`), what its consumer does
(`ReadPc.cons`), and which doorbells are still to come. `push_refines` and `read_refines` say that
the steps of a push and of a read are steps of the protocol, whichever code runs them.

Both need that what a thread has loaded of its own index is still the index (`Local`).
-/

namespace Esp32S31.Shm

open Esp32S31.Lib Doorbell

/-- A record of `need` bytes goes into the ring: the test of `esp_shm_push` and `ring_push`. -/
def ShmRing.fits (r : ShmRing) (need head tail : U32) : Prop := ¬ r.size - (head - tail) < need

instance (r : ShmRing) (need head tail : U32) : Decidable (r.fits need head tail) :=
  inferInstanceAs (Decidable (¬ _))

/-- What a push owes; `again` when it comes after the store of WAIT. -/
def PushPc.prod (need : U32) (again : Bool) : PushPc → Producer U32 U32
  | .readHead | .readTail _ => if again then .again need else .quiet
  | .copyIn _ _ | .done true _ => .quiet
  | .readTailAgain old => .stored old
  | .done false _ => if again then .stuck need else .quiet

/-- The head that a push has loaded is the head. -/
def PushPc.Local (m : RingMem) : PushPc → Prop
  | .readTail head | .copyIn head _ => head = m.head
  | _ => True

/-- What a consumer does. `null` is the consumer that ends when a read returns NULL, and `again`
that it has been told to run again. -/
def ReadPc.cons (null again : Bool) : ReadPc → Consumer
  | .empty _ => if again then .awake else .asleep
  | .done .bad => if null && !again then .asleep else .awake
  | .readWait _ _ => .advanced
  | .clearWait _ _ => .clearing
  | .ring _ _ => .ringing
  | _ => .awake

/-- The tail that a read has loaded or stored is the tail. -/
def ReadPc.Local (m : RingMem) : ReadPc → Prop
  | .readHead tail | .empty tail | .readWait tail _ | .clearWait tail _ | .ring tail _ =>
    tail = m.tail
  | _ => True

/-- The recovery store, when it is the next step. -/
def ReadPc.recovery : ReadPc → Option U32
  | .recover head => some head
  | _ => none

/-! ## A push -/

section Push

variable {r : ShmRing} {q : PushReq} {chunk : Nat} {m : RingMem} {pc : PushPc} {again : Bool}

theorem PushPc.Local.step (h : pc.Local m) :
    (pushStep r q chunk m pc).2.Local (pushStep r q chunk m pc).1 := by
  cases pc with
  | readHead => rfl
  | readTail head =>
    simp only [pushStep]
    split
    · trivial
    · exact h
  | copyIn head todo => cases todo with
    | nil => trivial
    | cons w ws => exact h
  | readTailAgain head => trivial
  | done ok kick => trivial

/-- A push changes neither the tail nor WAIT. -/
theorem pushStep_words : (pushStep r q chunk m pc).1.tail = m.tail ∧
    (pushStep r q chunk m pc).1.wait = m.wait := by
  cases pc with
  | readTail head =>
    simp only [pushStep]
    split <;> exact ⟨rfl, rfl⟩
  | copyIn head todo => cases todo <;> exact ⟨rfl, rfl⟩
  | _ => exact ⟨rfl, rfl⟩

/-- **A step of a push is a step of the protocol**, with a doorbell to come when it saw the tail at
the old head. -/
theorem push_refines (r : ShmRing) (q : PushReq) (chunk : Nat) (again : Bool) (h : pc.Local m)
    {cons : Consumer} {C C' P P' : Prop} (hC : C → C') (hP : P → P')
    (hk : (pushStep r q chunk m pc).2 = .done true true → C') :
    Step r.fits ⟨m.head, m.tail, m.wait ≠ 0, pc.prod (recordLen q.len) again, cons, C, P⟩
      ⟨(pushStep r q chunk m pc).1.head, (pushStep r q chunk m pc).1.tail,
        (pushStep r q chunk m pc).1.wait ≠ 0,
        (pushStep r q chunk m pc).2.prod (recordLen q.len) again, cons, C', P'⟩ := by
  cases pc with
  | readHead => exact .keep ⟨rfl, rfl, id⟩ rfl rfl (.of hC hP)
  | readTail head =>
    obtain rfl : head = m.head := h
    by_cases hlt : r.size - (m.head - m.tail) < recordLen q.len
    · simp only [pushStep, if_pos hlt]
      cases again
      · exact .keep ⟨rfl, rfl, id⟩ rfl rfl (.of hC hP)
      · exact .refuse rfl rfl (not_not_intro hlt) ⟨rfl, rfl, id⟩ rfl (.of hC hP)
    · simp only [pushStep, if_neg hlt]
      cases again
      · exact .keep ⟨rfl, rfl, id⟩ rfl rfl (.of hC hP)
      · exact .leave (fun _ => nofun) rfl ⟨rfl, rfl, id⟩ rfl (.of hC hP)
  | copyIn head todo =>
    obtain rfl : head = m.head := h
    cases todo with
    | nil => exact .store rfl rfl rfl rfl (.of hC hP)
    | cons w ws => exact .keep ⟨rfl, rfl, id⟩ rfl rfl (.of hC hP)
  | readTailAgain old =>
    refine .look rfl rfl (fun he => hk ?_) ⟨rfl, rfl, id⟩ rfl (.of hC hP)
    show PushPc.done true (m.tail == old) = _
    rw [beq_iff_eq.mpr he]
  | done ok kick => cases ok <;> exact .keep ⟨rfl, rfl, id⟩ rfl rfl (.of hC hP)

end Push

/-! ## A read -/

section Read

variable {c : ReadCfg} {chunk : Nat} {mem : Bool} {m : RingMem} {pc : ReadPc} {null again : Bool}

theorem ReadPc.Local.step (h : pc.Local m) :
    (readStep c chunk mem m pc).2.Local (readStep c chunk mem m pc).1 := by
  cases pc with
  | readTail => rfl
  | readHead tail =>
    simp only [readStep]
    split
    · exact h
    · trivial
  | empty tail => exact h
  | readLen head tail got todo =>
    cases todo with
    | nil =>
      simp only [readStep]
      split <;> trivial
    | cons o os => trivial
  | recover head => trivial
  | alloc tail len =>
    simp only [readStep]
    split
    · trivial
    · split <;> trivial
  | copyOut tail len got todo => cases todo <;> trivial
  | writeTail tail buf => rfl
  | readWait tail buf =>
    simp only [readStep]
    split
    · cases buf
      · exact h
      · trivial
    · exact h
  | clearWait tail buf => exact h
  | ring tail buf =>
    cases buf
    · exact h
    · trivial
  | done ret => trivial

/-- A read does not change the head. -/
theorem readStep_head : (readStep c chunk mem m pc).1.head = m.head := by
  cases pc with
  | readHead tail =>
    simp only [readStep]
    split <;> rfl
  | readLen head tail got todo =>
    cases todo with
    | nil =>
      simp only [readStep]
      split <;> rfl
    | cons o os => rfl
  | alloc tail len =>
    simp only [readStep]
    split
    · rfl
    · split <;> rfl
  | copyOut tail len got todo => cases todo <;> rfl
  | readWait tail buf =>
    simp only [readStep]
    split <;> rfl
  | _ => rfl

/-- **A step of a read is a step of the protocol**, when it rings the producer where the code rings
and its recovery store leaves nobody behind. -/
theorem read_refines {r : ShmRing} (h : pc.Local m) {prod : Producer U32 U32} {C C' P P' : Prop}
    (hd : ∀ ret, pc ≠ .done ret)
    (hC : C → C') (hP : P → P') (hr : pc.rings = true → P')
    (hrec : ∀ head, pc = .recover head →
      (null = true → again = false → m.head ≠ head → C' ∨ prod = .stored head) ∧
      ∀ n, prod = .stuck n → P' ∨ ¬ r.fits n m.head head) :
    Step r.fits ⟨m.head, m.tail, m.wait ≠ 0, prod, pc.cons null again, C, P⟩
      ⟨(readStep c chunk mem m pc).1.head, (readStep c chunk mem m pc).1.tail,
        (readStep c chunk mem m pc).1.wait ≠ 0, prod,
        (readStep c chunk mem m pc).2.cons null again, C', P'⟩ := by
  cases pc with
  | readTail => exact .keep ⟨rfl, rfl, id⟩ rfl rfl (.of hC hP)
  | readHead tail =>
    obtain rfl : tail = m.tail := h
    by_cases he : m.head = m.tail
    · simp only [readStep, if_pos he]
      cases again
      · exact .sleep he rfl rfl ⟨rfl, rfl, id⟩ rfl (.of hC hP)
      · exact .keep ⟨rfl, rfl, id⟩ rfl rfl (.of hC hP)
    · simp only [readStep, if_neg he]
      exact .keep ⟨rfl, rfl, id⟩ rfl rfl (.of hC hP)
  | empty tail => exact .keep ⟨rfl, rfl, id⟩ rfl rfl (.of hC hP)
  | readLen head tail got todo =>
    cases todo with
    | nil =>
      simp only [readStep]
      split <;> exact .keep ⟨rfl, rfl, id⟩ rfl rfl (.of hC hP)
    | cons o os => exact .keep ⟨rfl, rfl, id⟩ rfl rfl (.of hC hP)
  | recover head =>
    obtain ⟨h1, h2⟩ := hrec head rfl
    refine .recover rfl ?_ (fun ha hne => ?_) h2 id rfl (.of hC hP)
    · show (if null && !again then Consumer.asleep else .awake) = .awake ∨
        (if null && !again then Consumer.asleep else .awake) = .asleep
      split
      · exact .inr rfl
      · exact .inl rfl
    · have ha : (if null && !again then Consumer.asleep else .awake) = .asleep := ha
      split at ha
      · rename_i hn
        rw [Bool.and_eq_true, Bool.not_eq_true'] at hn
        exact h1 hn.1 hn.2 hne
      · cases ha
  | alloc tail len =>
    simp only [readStep]
    split
    · exact .keep ⟨rfl, rfl, id⟩ rfl rfl (.of hC hP)
    · split <;> exact .keep ⟨rfl, rfl, id⟩ rfl rfl (.of hC hP)
  | copyOut tail len got todo =>
    cases todo <;> exact .keep ⟨rfl, rfl, id⟩ rfl rfl (.of hC hP)
  | writeTail tail buf => exact .advance rfl id rfl rfl rfl (.of hC hP)
  | readWait tail buf =>
    by_cases hw : m.wait = 0
    · simp only [readStep, if_pos hw]
      refine .test rfl (fun h => absurd hw h) (fun _ => ?_) ⟨rfl, rfl, id⟩ rfl (.of hC hP)
      cases buf <;> rfl
    · simp only [readStep, if_neg hw]
      exact .test rfl (fun _ => rfl) (fun h => absurd hw h) ⟨rfl, rfl, id⟩ rfl (.of hC hP)
  | clearWait tail buf => exact .clear rfl rfl rfl rfl rfl (.of hC hP)
  | ring tail buf =>
    refine .ring rfl ?_ (hr rfl) ⟨rfl, rfl, id⟩ rfl (.of hC hP)
    cases buf <;> rfl
  | done ret => exact absurd rfl (hd ret)

end Read

/-! ## The views of the system -/

/-- What the transmit side of Linux owes when it does not push: it waits while a frame is queued. -/
def HostTx.queueProd (t : HostTx) : Producer U32 U32 :=
  match t.txQueue with
  | [] => .quiet
  | skb :: _ => .stuck (recordLen (espShmPush skb.data).len)

/-- What it owes with the lock free. -/
def HostTx.idleProd (t : HostTx) : Producer U32 U32 :=
  if t.running && !t.txQuiesced then t.queueProd else .quiet

/-- What it owes in a flush. -/
def HostTx.flushProd (t : HostTx) : FlushPc → Producer U32 U32
  | .start | .peek | .setWait _ | .unlink _ => .quiet
  | .push1 skb pc => pc.prod (recordLen (espShmPush skb.data).len) false
  | .push2 skb pc => pc.prod (recordLen (espShmPush skb.data).len) true
  | .resume | .ring => t.queueProd
  | .unlock => t.idleProd

/-- What the transmit side of Linux owes. -/
def HostTx.prod (t : HostTx) : Producer U32 U32 :=
  match t.txLock with
  | some f => t.flushProd f.pc
  | none => t.idleProd

/-- A flush that will ring the firmware. -/
def Flush.forced (f : Flush) : Bool :=
  match f.pc with
  | .push1 _ (.done true true) | .push2 _ (.done true true) => true
  | .start | .unlock => false
  | _ => f.kick

/-- The transmit side of Linux will ring the firmware. -/
def HostTx.forced (t : HostTx) : Bool :=
  match t.txLock with
  | some f => f.forced
  | none => false

/-- The transmit work is to run. -/
def HostTx.workBell (t : HostTx) : Prop := t.workPending = true ∨ t.work = .waiting

/-- What the caller of `shm_write` owes. -/
def WritePc.prod : WritePc → Producer U32 U32
  | .push1 x pc => pc.prod (recordLen x.push.len) false
  | .push2 x pc => pc.prod (recordLen x.push.len) true
  | .time x | .take x => .stuck (recordLen x.push.len)
  | _ => .quiet

/-- The caller of `shm_write` will ring Linux. -/
def WritePc.forced : WritePc → Bool
  | .push1 _ (.done true true) | .push2 _ (.done true true) => true
  | .kick _ k => k
  | _ => false

/-- What the receive task does. -/
def RecvPc.cons : RecvPc → Consumer
  | .read pc => pc.cons false false
  | _ => .awake

/-- What the RX work of Linux does. Before Linux has bound the transport it counts as up: it will
run. -/
def rxCons (probe : ProbePc) (queued : Bool) : Option ReadPc → Consumer
  | some pc => pc.cons true queued
  | none => if probe = .bound ∧ queued = false then .asleep else .awake

/-- The queued RX work is up, and not in the way of what it does. -/
theorem rxCons_queued (p p' : ProbePc) (q : Bool) (rx : Option ReadPc) :
    rxCons p' true rx = rxCons p q rx ∨
      rxCons p q rx = .asleep ∧ rxCons p' true rx = .awake := by
  cases rx with
  | none =>
    have h1 : rxCons p' true none = .awake := if_neg fun h => by cases h.2
    by_cases h : p = .bound ∧ q = false
    · exact .inr ⟨if_pos h, h1⟩
    · exact .inl (h1.trans (if_neg h).symm)
  | some pc =>
    cases q
    · cases pc with
      | empty tail => exact .inr ⟨rfl, rfl⟩
      | done ret => cases ret with
        | bad => exact .inr ⟨rfl, rfl⟩
        | _ => exact .inl rfl
      | _ => exact .inl rfl
    · exact .inl rfl

theorem rxCons_up (p : ProbePc) (rx : Option ReadPc) : rxCons p true rx ≠ .asleep := by
  cases rx with
  | none =>
    rw [rxCons, if_neg fun h => (by cases h.2)]
    rintro ⟨⟩
  | some pc => cases pc with
    | done ret => cases ret <;> rintro ⟨⟩
    | _ => rintro ⟨⟩

namespace Sys

/-- The doorbell of the host has not been given to the receive task yet. -/
def rxBell (s : Sys) : Prop := s.bellFw = true ∨ s.isr = .acked ∨ s.rxSem = true

/-- The doorbell of the host has not been given to the caller of `shm_write` yet. -/
def spaceBell (s : Sys) : Prop := s.bellFw = true ∨ s.isr ≠ .idle ∨ s.spaceSem = true

/-- The doorbell of the firmware has not queued the RX work yet. -/
def rxWorkBell (s : Sys) : Prop := s.bellHost = true ∨ s.irq = .acked

/-- The doorbell of the firmware has not reached the transmit work yet, or that is to run. -/
def txWorkBell (s : Sys) : Prop := (s.bellHost = true ∨ s.irq ≠ .idle) ∨ s.tx.workBell

instance (s : Sys) : Decidable s.rxBell := inferInstanceAs (Decidable (_ ∨ _))
instance (s : Sys) : Decidable s.spaceBell := inferInstanceAs (Decidable (_ ∨ _))
instance (s : Sys) : Decidable s.rxWorkBell := inferInstanceAs (Decidable (_ ∨ _))
instance (s : Sys) : Decidable s.txWorkBell := inferInstanceAs (Decidable (_ ∨ _ ∨ _))

/-- The ring to the firmware. -/
def fwSide (s : Sys) : Side U32 U32 where
  head := s.toFw.head
  tail := s.toFw.tail
  wait := s.toFw.wait ≠ 0
  prod := s.tx.prod
  cons := s.recv.cons
  toC := s.rxBell ∨ s.tx.forced = true
  toP := s.txWorkBell

/-- The ring to Linux. -/
def hostSide (s : Sys) : Side U32 U32 where
  head := s.toHost.head
  tail := s.toHost.tail
  wait := s.toHost.wait ≠ 0
  prod := s.write.prod
  cons := rxCons s.probe s.rxQueued s.rx
  toC := s.rxWorkBell ∨ s.write.forced = true
  toP := s.spaceBell

end Sys

end Esp32S31.Shm
