/-!
# Sleep and doorbell over a ring

A producer and a consumer share a ring with two indices and a wait flag, and ring each other's
doorbell. The consumer may sleep when it has seen the ring empty; the producer, after it has stored
its index, looks whether the consumer can have seen that. A producer without room sets the wait
flag, tries once more and then sleeps; the consumer, after it has stored its index, tests the flag,
and clears it and rings in two steps.

`Side` is what matters of one ring, `Step` is what its two parties may do, with a doorbell pending
or not, and `Inv` is what holds in between: nobody sleeps on work without a doorbell to come. The
indices `ι` and the sizes `ν` are any types, and `fits` says when a record of a size goes into the
ring.
-/

namespace Esp32S31.Lib.Doorbell

variable {ι ν : Type}

/-- What the producer of a ring owes or waits for. -/
inductive Producer (ι ν : Type) where
  | quiet
  /-- it set the wait flag for `n` and has not tried again -/
  | again (n : ν)
  /-- it tried again without success, and waits for room for `n` -/
  | stuck (n : ν)
  /-- it moved the head from `old` and has not looked at the tail yet -/
  | stored (old : ι)
  deriving DecidableEq

/-- What the consumer of a ring does. -/
inductive Consumer where
  /-- it will look at the head before it sleeps -/
  | awake
  | asleep
  /-- it moved the tail and has not tested the wait flag -/
  | advanced
  /-- it saw the wait flag and has not cleared it -/
  | clearing
  /-- it cleared the wait flag and has not rung -/
  | ringing
  deriving DecidableEq

/-- One ring with its two parties: `toC` and `toP` say that a doorbell to the consumer, and to the
producer, is pending. -/
structure Side (ι ν : Type) where
  head : ι
  tail : ι
  wait : Prop
  prod : Producer ι ν
  cons : Consumer
  toC : Prop
  toP : Prop

/-- What the producer waits for room for. -/
def Producer.waits : Producer ι ν → Option ν
  | .stuck n => some n
  | _ => none

/-- The producer does not wait. -/
def Producer.calm : Producer ι ν → Prop
  | .quiet | .stored _ => True
  | _ => False

/-- A doorbell that is pending stays so until its target is up. -/
structure Bells (s s' : Side ι ν) : Prop where
  toC : s.toC → s'.toC ∨ s'.cons ≠ .asleep
  toP : s.toP → s'.toP ∨ s'.prod.calm

/-- The indices stay, and the wait flag is not cleared. -/
structure Words (s s' : Side ι ν) : Prop where
  head : s'.head = s.head
  tail : s'.tail = s.tail
  wait : s.wait → s'.wait

/-- **The steps of the protocol.** -/
inductive Step (fits : ν → ι → ι → Prop) (s s' : Side ι ν) : Prop
  /-- anything that does not concern the ring, and any doorbell -/
  | keep : Words s s' → s'.prod = s.prod → s'.cons = s.cons → Bells s s' → Step fits s s'
  /-- the producer moves the head -/
  | store : s.prod = .quiet → s'.prod = .stored s.head → s'.tail = s.tail →
      s'.cons = s.cons → Bells s s' → Step fits s s'
  /-- and looks at the tail: an idle consumer gets a doorbell -/
  | look {old : ι} : s.prod = .stored old → s'.prod = .quiet → (s.tail = old → s'.toC) →
      Words s s' → s'.cons = s.cons → Bells s s' → Step fits s s'
  /-- the producer sets the wait flag -/
  | ask {n : ν} : s'.prod = .again n → s'.wait → s'.head = s.head → s'.tail = s.tail →
      s.prod = .quiet → s'.cons = s.cons → Bells s s' → Step fits s s'
  /-- and there is still no room -/
  | refuse {n : ν} : s.prod = .again n → s'.prod = .stuck n → ¬ fits n s.head s.tail →
      Words s s' → s'.cons = s.cons → Bells s s' → Step fits s s'
  /-- the producer stops waiting -/
  | leave : (∀ old, s.prod ≠ .stored old) → s'.prod = .quiet → Words s s' → s'.cons = s.cons →
      Bells s s' → Step fits s s'
  /-- the consumer sees the ring empty -/
  | sleep : s.head = s.tail → s.cons = .awake → s'.cons = .asleep → Words s s' →
      s'.prod = s.prod → Bells s s' → Step fits s s'
  | wake : s.cons = .asleep → s'.cons = .awake → Words s s' → s'.prod = s.prod → Bells s s' →
      Step fits s s'
  /-- the consumer moves the tail -/
  | advance : s'.head = s.head → (s.wait → s'.wait) → s.cons = .awake → s'.cons = .advanced →
      s'.prod = s.prod → Bells s s' → Step fits s s'
  /-- and tests the wait flag -/
  | test : s.cons = .advanced → (s.wait → s'.cons = .clearing) → (¬ s.wait → s'.cons = .awake) →
      Words s s' → s'.prod = s.prod → Bells s s' → Step fits s s'
  | clear : s.cons = .clearing → s'.cons = .ringing → s'.head = s.head → s'.tail = s.tail →
      s'.prod = s.prod → Bells s s' → Step fits s s'
  | ring : s.cons = .ringing → s'.cons = .awake → s'.toP → Words s s' → s'.prod = s.prod →
      Bells s s' → Step fits s s'
  /-- the consumer moves the tail and does none of this; what that needs is stated here -/
  | recover : s.cons = .awake → (s'.cons = .awake ∨ s'.cons = .asleep) →
      (s'.cons = .asleep → s'.head ≠ s'.tail → s'.toC ∨ s'.prod = .stored s'.tail) →
      (∀ n, s'.prod = .stuck n → s'.toP ∨ ¬ fits n s'.head s'.tail) →
      (s.wait → s'.wait) → s'.prod = s.prod → Bells s s' → Step fits s s'

/-- **Nobody sleeps on work without a doorbell to come.** -/
structure Inv (fits : ν → ι → ι → Prop) (s : Side ι ν) : Prop where
  wake : s.cons = .asleep → s.head ≠ s.tail → s.toC ∨ s.prod = .stored s.tail
  again : ∀ n, s.prod = .again n → s.wait ∨ s.cons = .ringing ∨ s.toP
  stuck : ∀ n, s.prod = .stuck n → s.toP ∨ s.cons = .ringing ∨
    (s.wait ∧ (¬ fits n s.head s.tail ∨ s.cons = .advanced ∨ s.cons = .clearing))

section

variable {fits : ν → ι → ι → Prop} {s s' : Side ι ν}

/-- No doorbell is taken. -/
theorem Bells.of (hC : s.toC → s'.toC) (hP : s.toP → s'.toP) : Bells s s' :=
  ⟨fun h => .inl (hC h), fun h => .inl (hP h)⟩

/-- A producer that waits still has its doorbell. -/
theorem Bells.waiting (b : Bells s s') (h : s.toP) (hp : ¬ s'.prod.calm) : s'.toP :=
  (b.toP h).resolve_right hp

/-- A consumer that sleeps still has its doorbell. -/
theorem Bells.sleeping (b : Bells s s') (h : s.toC) (hc : s'.cons = .asleep) : s'.toC :=
  (b.toC h).resolve_right (not_not_intro hc)

/-- While the consumer does what it did, the wake-up of the consumer is not affected. -/
theorem Inv.wake_of (h : Inv fits s) (hw : Words s s') (hc : s'.cons = s.cons)
    (hp : s.prod = .stored s.tail → s'.toC ∨ s'.prod = .stored s'.tail) (b : Bells s s')
    (ha : s'.cons = .asleep) (hne : s'.head ≠ s'.tail) : s'.toC ∨ s'.prod = .stored s'.tail := by
  rw [hw.head, hw.tail] at hne
  rcases h.wake (hc ▸ ha) hne with h1 | h1
  · exact .inl (b.sleeping h1 ha)
  · exact hp h1

/-- While the producer does what it did, what it is owed is not affected by a consumer that keeps
the wait flag. -/
theorem Inv.again_of (h : Inv fits s) (hw : s.wait → s'.wait) (hp : s'.prod = s.prod)
    (hc : s.cons = .ringing → s'.cons = .ringing ∨ s'.toP) (b : Bells s s') (n : ν)
    (hn : s'.prod = .again n) : s'.wait ∨ s'.cons = .ringing ∨ s'.toP := by
  rcases h.again n (hp ▸ hn) with h1 | h1 | h1
  · exact .inl (hw h1)
  · exact .inr (hc h1)
  · exact .inr (.inr (b.waiting h1 (by rw [hn]; exact id)))

/-- What a waiting producer is owed while the consumer is not about to ring. -/
theorem Inv.owed (h : Inv fits s) (hc : s.cons = .awake ∨ s.cons = .asleep) {n : ν}
    (hn : s.prod = .stuck n) : s.toP ∨ s.wait ∧ ¬ fits n s.head s.tail := by
  rcases h.stuck n hn with h1 | h1 | ⟨h1, h2 | h2 | h2⟩
  · exact .inl h1
  · rcases hc with hc | hc <;> cases hc.symm.trans h1
  · exact .inr ⟨h1, h2⟩
  · rcases hc with hc | hc <;> cases hc.symm.trans h2
  · rcases hc with hc | hc <;> cases hc.symm.trans h2

theorem Inv.stuck_of (h : Inv fits s) (hc : s.cons = .awake ∨ s.cons = .asleep) (hw : Words s s')
    (hp : s'.prod = s.prod) (b : Bells s s') (n : ν) (hn : s'.prod = .stuck n) :
    s'.toP ∨ s'.cons = .ringing ∨
      (s'.wait ∧ (¬ fits n s'.head s'.tail ∨ s'.cons = .advanced ∨ s'.cons = .clearing)) := by
  rcases h.owed hc (hp ▸ hn) with h1 | ⟨h1, h2⟩
  · exact .inl (b.waiting h1 (by rw [hn]; exact id))
  · rw [hw.head, hw.tail]
    exact .inr (.inr ⟨hw.wait h1, .inl h2⟩)

/-- **Every step keeps the invariant.** -/
theorem Inv.step (h : Inv fits s) (hs : Step fits s s') : Inv fits s' := by
  cases hs with
  | keep hw hp hc b =>
    refine ⟨h.wake_of hw hc (fun h1 => .inr (by rw [hp, hw.tail, h1])) b,
      h.again_of hw.wait hp (fun h1 => .inl (hc.trans h1)) b, fun n hn => ?_⟩
    rcases h.stuck n (hp ▸ hn) with h1 | h1 | ⟨h1, h2⟩
    · exact .inl (b.waiting h1 (by rw [hn]; exact id))
    · exact .inr (.inl (hc.trans h1))
    · rw [hc, hw.head, hw.tail]
      exact .inr (.inr ⟨hw.wait h1, h2⟩)
  | store hq hp ht hc b =>
    refine ⟨fun ha _ => ?_, fun n hn => ?_, fun n hn => ?_⟩
    · by_cases he : s.head = s.tail
      · exact .inr (by rw [hp, he, ht])
      · rcases h.wake (hc ▸ ha) he with h1 | h1
        · exact .inl (b.sleeping h1 ha)
        · rw [hq] at h1
          cases h1
    · rw [hp] at hn
      cases hn
    · rw [hp] at hn
      cases hn
  | look hq hp hl hw hc b =>
    refine ⟨h.wake_of hw hc (fun h1 => .inl (hl ?_)) b, fun n hn => ?_, fun n hn => ?_⟩
    · rw [hq] at h1
      exact (Producer.stored.inj h1).symm
    · rw [hp] at hn
      cases hn
    · rw [hp] at hn
      cases hn
  | ask hp hwt hh ht hq hc b =>
    refine ⟨h.wake_of ⟨hh, ht, fun _ => hwt⟩ hc (fun h1 => ?_) b, fun _ _ => .inl hwt,
      fun n hn => ?_⟩
    · rw [hq] at h1
      cases h1
    · rw [hp] at hn
      cases hn
  | @refuse k hq hp hf hw hc b =>
    refine ⟨h.wake_of hw hc (fun h1 => ?_) b, fun n hn => ?_, fun n hn => ?_⟩
    · rw [hq] at h1
      cases h1
    · rw [hp] at hn
      cases hn
    · obtain rfl : k = n := by
        rw [hp] at hn
        exact Producer.stuck.inj hn
      rw [hw.head, hw.tail, hc]
      rcases h.again k hq with h1 | h1 | h1
      · exact .inr (.inr ⟨hw.wait h1, .inl hf⟩)
      · exact .inr (.inl h1)
      · exact .inl (b.waiting h1 (by rw [hp]; exact id))
  | leave hq hp hw hc b =>
    refine ⟨h.wake_of hw hc (fun h1 => absurd h1 (hq _)) b, fun n hn => ?_, fun n hn => ?_⟩
    · rw [hp] at hn
      cases hn
    · rw [hp] at hn
      cases hn
  | sleep he hc hc' hw hp b =>
    exact ⟨fun _ hne => absurd (by rw [hw.head, hw.tail, he]) hne,
      h.again_of hw.wait hp (fun h1 => nomatch hc.symm.trans h1) b, h.stuck_of (.inl hc) hw hp b⟩
  | wake hc hc' hw hp b =>
    exact ⟨fun ha => (nomatch hc'.symm.trans ha),
      h.again_of hw.wait hp (fun h1 => nomatch hc.symm.trans h1) b, h.stuck_of (.inr hc) hw hp b⟩
  | advance hh hwt hc hc' hp b =>
    refine ⟨fun ha => (nomatch hc'.symm.trans ha),
      h.again_of hwt hp (fun h1 => nomatch hc.symm.trans h1) b, fun n hn => ?_⟩
    rcases h.owed (.inl hc) (hp ▸ hn) with h1 | ⟨h1, -⟩
    · exact .inl (b.waiting h1 (by rw [hn]; exact id))
    · exact .inr (.inr ⟨hwt h1, .inr (.inl hc')⟩)
  | test hc hc1 hc2 hw hp b =>
    have hcons : s'.cons ≠ .asleep := by
      by_cases hwt : s.wait
      · rw [hc1 hwt]; nofun
      · rw [hc2 hwt]; nofun
    refine ⟨fun ha => absurd ha hcons,
      h.again_of hw.wait hp (fun h1 => nomatch hc.symm.trans h1) b, fun n hn => ?_⟩
    rcases h.stuck n (hp ▸ hn) with h1 | h1 | ⟨h1, -⟩
    · exact .inl (b.waiting h1 (by rw [hn]; exact id))
    · cases hc.symm.trans h1
    · exact .inr (.inr ⟨hw.wait h1, .inr (.inr (hc1 h1))⟩)
  | clear hc hc' hh ht hp b =>
    exact ⟨fun ha => (nomatch hc'.symm.trans ha), fun _ _ => .inr (.inl hc'),
      fun _ _ => .inr (.inl hc')⟩
  | ring hc hc' hr hw hp b =>
    exact ⟨fun ha => (nomatch hc'.symm.trans ha), fun _ _ => .inr (.inr hr), fun _ _ => .inl hr⟩
  | recover hc hc' hwk hst hwt hp b =>
    refine ⟨hwk, h.again_of hwt hp (fun h1 => nomatch hc.symm.trans h1) b, fun n hn => ?_⟩
    rcases hst n hn with h1 | h1
    · exact .inl h1
    · rcases h.owed (.inl hc) (hp ▸ hn) with h2 | ⟨h2, -⟩
      · exact .inl (b.waiting h2 (by rw [hn]; exact id))
      · exact .inr (.inr ⟨hwt h2, .inl h1⟩)

/-- At the start the consumer is up and the producer does not wait. -/
theorem Inv.init (hc : s.cons = .awake) (hp : s.prod = .quiet) : Inv fits s :=
  ⟨fun ha => (nomatch hc.symm.trans ha), fun _ hn => (nomatch hp.symm.trans hn),
    fun _ hn => (nomatch hp.symm.trans hn)⟩

end

end Esp32S31.Lib.Doorbell
