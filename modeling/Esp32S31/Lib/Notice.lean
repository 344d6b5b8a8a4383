/-!
# Work behind a latch

A party publishes work and then sets a latch (an interrupt pending bit, a doorbell, a binary
semaphore); another party, when it finds the latch set, clears it and only then takes the work. The
latch does not count: many notices make one. No work is left behind, because the clearing comes
before the taking: a notice that is lost in a latch that is already set, or that is cleared, belongs
to work that is taken afterwards.

`Notice` is what matters of one latch, `Step` is what the parties may do, and `Inv` says that where
there is work, somebody is about to notice.
-/

namespace Esp32S31.Lib

/-- Work behind a latch. -/
structure Notice where
  /-- there is work that nobody has taken -/
  work : Prop
  /-- a party has published work and has not set the latch yet -/
  owed : Prop
  /-- the latch is set -/
  rung : Prop
  /-- the latch has been cleared, and the work will be taken before anybody waits for it again -/
  taking : Prop

namespace Notice

/-- **The steps of the protocol.** -/
inductive Step (s s' : Notice) : Prop
  /-- anything that publishes no work and takes back no notice -/
  | keep : (s'.work → s.work) → (s.owed → s'.owed) → (s.rung → s'.rung) →
      (s.taking → s'.taking) → Step s s'
  | publish : s'.owed → Step s s'
  | ring : s'.rung → Step s s'
  | clear : s'.taking → Step s s'
  | take : ¬ s'.work → Step s s'

/-- **Where there is work, somebody is about to notice.** -/
def Inv (s : Notice) : Prop := s.work → s.owed ∨ s.rung ∨ s.taking

variable {s s' : Notice}

theorem Inv.of_idle (h : ¬ s.work) : s.Inv := fun hw => absurd hw h

theorem Inv.step (h : s.Inv) (hs : s.Step s') : s'.Inv := by
  intro hw
  cases hs with
  | keep hwork howed hrung htaking => exact (h (hwork hw)).imp howed (Or.imp hrung htaking)
  | publish ho => exact .inl ho
  | ring hr => exact .inr (.inl hr)
  | clear ht => exact .inr (.inr ht)
  | take hn => exact absurd hw hn

end Notice

end Esp32S31.Lib
