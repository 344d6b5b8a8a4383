import Esp32S31.I2c.Remainder
import Esp32S31.I2c.Turns

/-!
# How far a transfer is

While `esp32s31_i2c_xfer` waits, the handler and the controller take turns. `Stage` says where they
are: the controller runs a list, or has come to its END or STOP and the handler goes on from there,
or the transfer is complete; or the controller has reported an error, which the handler has still to
see, or has seen. As long as there is no error, what is left of the step (`irqRest`, `ctlRest`)
leads to the next list of the transfer, or to its end.

`Stage.irq`, `Stage.tick`, `Stage.fail` and `Stage.stray`: every step of the two leads from stage to
stage.
-/

namespace Esp32S31.I2c

open Esp32S31.Lib Esp32s31I2c

/-! ## Interrupt bits -/

section Bits

variable {raw bits st : U32} {err : Int}

theorem mask_errors (x : U32) : x &&& intMask &&& intErrors = x &&& intErrors := by
  rw [BitVec.and_assoc]
  rfl

theorem or_zero_iff {x y : U32} : x ||| y = 0 ↔ x = 0 ∧ y = 0 := BitVec.or_eq_zero_iff

/-- Clearing what was pending. -/
theorem mask_clear (h : raw &&& intMask = st) : raw &&& ~~~st &&& intMask = 0 := by
  subst h
  rw [BitVec.and_assoc, BitVec.and_comm (~~~_) intMask, ← BitVec.and_assoc, BitVec.and_not_self]

theorem mask_or (h : raw &&& intMask = 0) (hb : bits &&& intMask = bits) :
    (raw ||| bits) &&& intMask = bits := by
  rw [BitVec.and_or_distrib_right, h, hb]
  exact BitVec.zero_or

/-- An error stays pending when other interrupts are cleared. -/
theorem errors_clear (h : raw &&& intErrors ≠ 0) (hst : st &&& intErrors = 0) :
    raw &&& ~~~st &&& intErrors ≠ 0 := by
  have hsame : raw &&& ~~~st &&& intErrors = raw &&& intErrors := by
    refine BitVec.eq_of_getLsbD_eq fun i hi => ?_
    have hbit : (st &&& intErrors).getLsbD i = false := by
      rw [hst]
      exact BitVec.getLsbD_zero
    rw [BitVec.getLsbD_and] at hbit
    rw [BitVec.getLsbD_and, BitVec.getLsbD_and, BitVec.getLsbD_and, BitVec.getLsbD_not,
      decide_eq_true hi]
    cases hs : st.getLsbD i with
    | false => simp
    | true =>
      rw [hs, Bool.true_and] at hbit
      simp [hbit]
  rw [hsame]
  exact h

theorem errors_or (h : raw &&& intErrors ≠ 0) : (raw ||| bits) &&& intErrors ≠ 0 := by
  rw [BitVec.and_or_distrib_right]
  intro h0
  exact h (or_zero_iff.mp h0).1

theorem errors_or_right (h : bits &&& intErrors ≠ 0) : (raw ||| bits) &&& intErrors ≠ 0 := by
  rw [BitVec.and_or_distrib_right]
  intro h0
  exact h (or_zero_iff.mp h0).2

theorem errors_parts : intErrors = intNack ||| intArbLost ||| intTimeouts := rfl

theorem errOf_of_no_error (h : st &&& intErrors = 0) : errOf st err = err := by
  rw [errors_parts, BitVec.and_or_distrib_left, BitVec.and_or_distrib_left, or_zero_iff,
    or_zero_iff] at h
  obtain ⟨⟨h1, h2⟩, h3⟩ := h
  unfold errOf
  rw [if_neg (not_not_intro h1), if_neg (not_not_intro h2), if_neg (not_not_intro h3)]

theorem errOf_of_error (h : st &&& intErrors ≠ 0) : errOf st err < 0 := by
  unfold errOf
  split
  · decide
  · split
    · decide
    · split
      · decide
      · rename_i h1 h2 h3
        refine absurd ?_ h
        rw [errors_parts, BitVec.and_or_distrib_left, BitVec.and_or_distrib_left, not_not.mp h1,
          not_not.mp h2, not_not.mp h3]
        rfl

end Bits

/-! ## The stages -/

/-- The handler does not run, or has not read the status yet. -/
def IrqPc.alone : IrqPc → Bool
  | .out | .status => true
  | _ => false

/-- The handler is on its way to the start of the next list. -/
def IrqPc.refills : IrqPc → Bool
  | .drain more _ _ => more
  | .fillStart | .fill _ | .start => true
  | .intClr st | .judge st => st = intEndDetect
  | _ => false

/-- The handler is on its way to `complete`. -/
def IrqPc.ends : IrqPc → Bool
  | .drain more _ _ => !more
  | .disable | .complete => true
  | _ => false

/-- The handler will find `bit`. -/
def IrqPc.judging (bit : U32) : IrqPc → IrqPc
  | .out | .status => .judge bit
  | p => p

/-- The controller has raised `bit`, and the handler has not, or has, taken it. -/
def IrqPc.Pending (bit raw : U32) : IrqPc → Prop
  | .out | .status => raw &&& intMask = bit
  | .intClr st => st = bit ∧ raw &&& intMask = bit
  | .judge st => st = bit ∧ raw &&& intMask = 0
  | _ => raw &&& intMask = 0

/-- The controller has reported an error that the handler has still to judge. -/
def IrqPc.Reported (raw : U32) : IrqPc → Prop
  | .intClr st | .judge st => st &&& intErrors ≠ 0 ∨ st = intEndDetect ∧ raw &&& intErrors ≠ 0
  | _ => raw &&& intErrors ≠ 0

/-- Between two lists of the call. -/
def Xfer.Between (slave : Slave) (x : Xfer) (d : Esp32s31I2c) : Prop :=
  I2c.Between slave x.mem x.bus d ∧ d.msgs = x.msgs

/-- The call has done the reference transaction. -/
def Xfer.Done (slave : Slave) (x : Xfer) (d : Esp32s31I2c) : Prop :=
  d.err = 0 ∧ d.msgs = x.msgs ∧ (d.base.bus, d.mem) = reference slave x.msgs (x.bus, x.mem)

/-- The controller runs the list of `d`. -/
structure Running (slave : Slave) (s : Sys) (d : Esp32s31I2c) : Prop where
  fsm : ∃ i j, s.fsm = .run i j ∧ ctlRest slave s.drv.base i j = d.fill.base.start slave
  alone : s.irq.alone = true
  raw : s.raw &&& intMask = 0
  before : s.xfer.Between slave d
  drv : s.drv = d.fill.ran s.drv.base
  raised : s.xfer.raised = false
  done : s.done = 0

/-- The controller is at an END, with `d` when the list is drained. -/
structure Held (slave : Slave) (s : Sys) (d : Esp32s31I2c) : Prop where
  fsm : s.fsm = .held
  pending : s.irq.Pending intEndDetect s.raw
  ends : s.irq.ends = false
  after : s.xfer.Between slave d
  left : irqRest (s.irq.judging intEndDetect) s.drv = d.fill
  err : s.drv.err = 0
  raised : s.xfer.raised = false
  done : s.done = 0

/-- The controller has come to the STOP, with `d` when the list is drained. -/
structure Stopped (slave : Slave) (s : Sys) (d : Esp32s31I2c) : Prop where
  fsm : s.fsm = .idle
  pending : s.irq.Pending intTransComplete s.raw
  refills : s.irq.refills = false
  after : s.xfer.Done slave d
  left : irqRest (s.irq.judging intTransComplete) s.drv = d
  err : s.drv.err = 0
  ena : s.irq = .complete → s.ena = 0
  raised : s.xfer.raised = false
  done : s.done = 0

/-- The handler has completed the transfer. -/
structure Complete (slave : Slave) (s : Sys) : Prop where
  fsm : s.fsm = .idle
  alone : s.irq.alone = true
  ena : s.ena = 0
  after : s.xfer.Done slave s.drv
  raised : s.xfer.raised = false
  done : s.done = 1

/-- The controller has reported an error. -/
structure Erring (s : Sys) : Prop where
  reported : s.irq.Reported s.raw
  ends : s.irq.ends = false
  /-- the list that the handler fills does not run -/
  refills : s.irq.refills = true → s.fsm = .held ∨ s.fsm = .failed
  err : s.drv.err = 0
  raised : s.xfer.raised = true
  done : s.done = 0

/-- The handler ends the transfer with an error. -/
structure Failing (s : Sys) : Prop where
  ends : s.irq = .disable ∨ s.irq = .complete ∧ s.ena = 0
  err : s.drv.err < 0
  raised : s.xfer.raised = true
  done : s.done = 0

/-- The handler has completed the transfer with an error. -/
structure Failed (s : Sys) : Prop where
  alone : s.irq.alone = true
  ena : s.ena = 0
  err : s.drv.err < 0
  raised : s.xfer.raised = true
  done : s.done = 1

/-- **How far the handler and the controller are.** -/
inductive Stage (slave : Slave) (s : Sys) : Prop
  | running (d : Esp32s31I2c) (h : Running slave s d)
  | held (d : Esp32s31I2c) (h : Held slave s d)
  | stopped (d : Esp32s31I2c) (h : Stopped slave s d)
  | complete (h : Complete slave s)
  | erring (h : Erring s)
  | failing (h : Failing s)
  | failed (h : Failed s)

/-! ## From list to list -/

theorem irqRest_judge_end {d : Esp32s31I2c} (h : d.err = 0) : irqRest
    (.judge intEndDetect) d = d.drain.fill := by
  rw [irqRest_judge, irq_end h]

theorem irqRest_judge_stop {d : Esp32s31I2c} (h : d.err = 0) : irqRest
    (.judge intTransComplete) d = d.drain := by
  rw [irqRest_judge, irq_stop h]

/-- The list of a state between two lists ends with END before another such state, or with STOP at
the end of the transfer. -/
theorem Xfer.Between.list {slave : Slave} {x : Xfer} {d : Esp32s31I2c} (h : x.Between slave d) :
    d.fill.err = 0 ∧
    ((∃ c, d.fill.base.start slave = some (c, intEndDetect) ∧
      x.Between slave (d.fill.ran c).drain) ∨
      ∃ c, d.fill.base.start slave = some (c, intTransComplete) ∧
        x.Done slave (d.fill.ran c).drain) := by
  obtain ⟨hb, hx⟩ := h
  obtain ⟨ops, c, hr, hne, hmsgs, herr, ht, hlen, hstart, hnext⟩ := hb.list
  refine ⟨herr, ?_⟩
  by_cases hz : rest x.mem d.fill = []
  · rw [if_pos hz] at hstart
    right
    refine ⟨_, hstart, ?_⟩
    -- the whole transfer is this list
    obtain ⟨d', hd', herr', hres⟩ := hb.transfer ((rest x.mem d).length + 1) d (Nat.lt_succ_self _)
    have hstop : ((d.fill.ran { c with bus := c.bus ++ [.stop] }).irq intTransComplete) =
        ((d.fill.ran { c with bus := c.bus ++ [.stop] }).drain, .completed) := irq_stop herr
    simp only [Esp32s31I2c.transfer, hstart, hstop] at hd'
    obtain rfl := Option.some.inj hd'
    refine ⟨herr', ?_, ?_⟩
    · rw [drain_eq (s := d.fill.ran { c with bus := c.bus ++ [.stop] }) ht hlen]
      exact hmsgs.trans hx
    · rw [hres, hx]
      rfl
  · rw [if_neg hz] at hstart
    left
    refine ⟨c, hstart, hnext, ?_⟩
    rw [drain_eq (s := d.fill.ran c) ht hlen]
    exact hmsgs.trans hx

/-! ## Steps of the handler -/

section Handler

variable {slave : Slave} {s s' : Sys} {bit raw bits : U32} {p : IrqPc}

/-- The handler may be entered, or find nothing, while no step of its own is left. -/
theorem IrqPc.judging_alone (h : p.alone = true) : p.judging bit = .judge bit := by
  cases p with
  | out | status => rfl
  | _ => cases h

theorem IrqPc.Pending.of_alone (h : p.alone = true) : p.Pending bit raw ↔
    raw &&& intMask = bit := by
  cases p with
  | out | status => exact Iff.rfl
  | _ => cases h

theorem IrqPc.Reported.of_alone (h : p.alone = true) : p.Reported raw ↔ raw &&& intErrors ≠ 0 := by
  cases p with
  | out | status => exact Iff.rfl
  | _ => cases h

theorem IrqPc.ends_alone (h : p.alone = true) : p.ends = false := by
  cases p with
  | out | status => rfl
  | _ => cases h

theorem IrqPc.refills_alone (h : p.alone = true) : p.refills = false := by
  cases p with
  | out | status => rfl
  | _ => cases h

/-- A reported error stays reported. -/
theorem IrqPc.Reported.mono (h : p.Reported raw) : p.Reported (raw ||| bits) := by
  cases p with
  | intClr st | judge st =>
    rcases h with h | ⟨h, h'⟩
    · exact Or.inl h
    · exact Or.inr ⟨h, errors_or h'⟩
  | _ => exact errors_or h

/-- A pending END, and an error. -/
theorem IrqPc.Pending.reported (h : p.Pending intEndDetect raw) (hb : bits &&& intErrors ≠ 0) :
    p.Reported (raw ||| bits) := by
  cases p with
  | intClr st | judge st => exact Or.inr ⟨h.1, errors_or_right hb⟩
  | _ => exact errors_or_right hb

/-- The status, while the handler has not read it: nothing when the interrupts are off. -/
theorem status_cases (hena : s.ena = intMask ∨ s.ena = 0) : s.status = s.raw &&& intMask ∨
    s.status = 0 := by
  unfold Sys.status
  rcases hena with h | h
  · rw [h]
    exact Or.inl rfl
  · rw [h]
    exact Or.inr BitVec.and_zero

/-- Behind the judgement, and before `complete`. -/
def IrqPc.works : IrqPc → Bool
  | .drain _ _ _ | .fillStart | .fill _ => true
  | _ => false

/-- Behind the judgement. -/
def IrqPc.past : IrqPc → Bool
  | .drain _ _ _ | .fillStart | .fill _ | .start | .disable | .complete => true
  | _ => false

theorem IrqPc.judging_past (h : p.past = true) : p.judging bit = p := by
  cases p with
  | out | status | intClr st | judge st => cases h
  | _ => rfl

theorem IrqPc.Pending.of_past (h : p.past = true) : p.Pending bit raw ↔ raw &&& intMask = 0 := by
  cases p with
  | out | status | intClr st | judge st => cases h
  | _ => exact Iff.rfl

theorem IrqPc.Reported.of_past (h : p.past = true) : p.Reported raw ↔ raw &&& intErrors ≠ 0 := by
  cases p with
  | out | status | intClr st | judge st => cases h
  | _ => exact Iff.rfl

theorem IrqPc.past_of_works (h : p.works = true) : p.past = true := by
  cases p with
  | drain | fillStart | fill => rfl
  | _ => cases h

theorem IrqPc.ne_status_of_works (h : p.works = true) : p ≠ .status := by
  rintro rfl
  cases h

theorem drain_work (s : Sys) (more : Bool) (i j : Nat) (hi : s.irq = .drain more i j) :
    ∃ d p, s.irqStep = some { s with drv := d, irq := p } ∧ d.err = s.drv.err ∧ p.past = true ∧
      p.refills = more ∧ p.ends = !more ∧ p ≠ .complete := by
  unfold Sys.irqStep
  simp only [hi]
  cases s.drv.rx[i]? with
  | some r =>
    dsimp only
    by_cases hj : j < r.len
    · rw [if_pos hj]
      exact ⟨_, _, rfl, rfl, rfl, rfl, rfl, nofun⟩
    · rw [if_neg hj]
      exact ⟨s.drv, _, rfl, rfl, rfl, rfl, rfl, nofun⟩
  | none =>
    dsimp only
    cases more with
    | true => exact ⟨_, _, rfl, rfl, rfl, rfl, rfl, nofun⟩
    | false => exact ⟨_, _, rfl, rfl, rfl, rfl, rfl, nofun⟩

theorem fill_work (s : Sys) (b : Batch) (hi : s.irq = .fill b) :
    ∃ d p, s.irqStep = some { s with drv := d, irq := p } ∧ d.err = s.drv.err ∧ p.past = true ∧
      p.refills = true ∧ p.ends = false ∧ p ≠ .complete := by
  unfold Sys.irqStep
  simp only [hi]
  cases ht : s.drv.fillTurn b with
  | some x => exact ⟨x.1, .fill x.2, rfl, (fillTurn_same ht).err, rfl, rfl, rfl, nofun⟩
  | none => exact ⟨s.drv.fillEnd b, .start, rfl, rfl, rfl, rfl, rfl, nofun⟩

/-- **What a step of the handler does.** -/
theorem irqStep_cases (h : s.irqStep = some s') :
    (s.irq = .status ∧ s' = { s with irq := if s.status = 0 then .out else .intClr s.status }) ∨
    (∃ st, s.irq = .intClr st ∧ s' = { s with raw := s.raw &&& ~~~st, irq := .judge st }) ∨
    (∃ st, s.irq = .judge st ∧ s' = { s with
      drv := { s.drv with err := errOf st s.drv.err }
      irq :=
        if errOf st s.drv.err = 0 ∧ st &&& intEndDetect ≠ 0 then .drain true 0 0
        else if errOf st s.drv.err ≠ 0 then .disable
        else if st &&& intTransComplete ≠ 0 then .drain false 0 0
        else .out }) ∨
    (s.irq.works = true ∧ ∃ d p, s' = { s with drv := d, irq := p } ∧ d.err = s.drv.err ∧
      p.past = true ∧ p.refills = s.irq.refills ∧ p.ends = s.irq.ends ∧ p ≠ .complete) ∨
    (s.irq = .start ∧ s' = { s with fsm := .run 0 0, irq := .out }) ∨
    (s.irq = .disable ∧ s' = { s with ena := 0, irq := .complete }) ∨
    (s.irq = .complete ∧ s' = { s with done := s.done + 1, irq := .out }) := by
  have hstep := h
  unfold Sys.irqStep at h
  cases hi : s.irq with
  | out =>
    simp only [hi] at h
    cases h
  | status =>
    simp only [hi] at h
    exact Or.inl ⟨rfl, (Option.some.inj h).symm⟩
  | intClr st =>
    simp only [hi] at h
    exact Or.inr (Or.inl ⟨st, rfl, (Option.some.inj h).symm⟩)
  | judge st =>
    simp only [hi] at h
    exact Or.inr (Or.inr (Or.inl ⟨st, rfl, (Option.some.inj h).symm⟩))
  | drain more i j =>
    obtain ⟨d, p, hd, hwork⟩ := drain_work s more i j hi
    exact Or.inr (Or.inr (Or.inr (Or.inl ⟨rfl, d, p, Option.some.inj (hstep.symm.trans hd),
      hwork⟩)))
  | fillStart =>
    simp only [hi] at h
    exact Or.inr (Or.inr (Or.inr (Or.inl ⟨rfl, { s.drv with rx := [] }, .fill ⟨0, 0, 0⟩,
      (Option.some.inj h).symm, rfl, rfl, rfl, rfl, nofun⟩)))
  | fill b =>
    obtain ⟨d, p, hd, hwork⟩ := fill_work s b hi
    exact Or.inr (Or.inr (Or.inr (Or.inl ⟨rfl, d, p, Option.some.inj (hstep.symm.trans hd),
      hwork⟩)))
  | start =>
    simp only [hi] at h
    exact Or.inr (Or.inr (Or.inr (Or.inr (Or.inl ⟨rfl, (Option.some.inj h).symm⟩))))
  | disable =>
    simp only [hi] at h
    exact Or.inr (Or.inr (Or.inr (Or.inr (Or.inr (Or.inl ⟨rfl, (Option.some.inj h).symm⟩)))))
  | complete =>
    simp only [hi] at h
    exact Or.inr (Or.inr (Or.inr (Or.inr (Or.inr (Or.inr ⟨rfl, (Option.some.inj h).symm⟩)))))

/-- The status of a handler that does not run. -/
theorem irqStep_alone (h : s.irqStep = some s') (ha : s.irq.alone = true) :
    s.irq = .status ∧ s' = { s with irq := if s.status = 0 then .out else .intClr s.status } := by
  unfold Sys.irqStep at h
  cases hi : s.irq with
  | out =>
    simp only [hi] at h
    cases h
  | status =>
    simp only [hi] at h
    exact ⟨rfl, (Option.some.inj h).symm⟩
  | _ =>
    rw [hi] at ha
    cases ha

/-- A handler that finds nothing is out again. -/
theorem irqStep_quiet (h : s.irqStep = some s') (ha : s.irq.alone = true) (h0 : s.status = 0) :
    s' = { s with irq := .out } := by
  obtain ⟨-, rfl⟩ := irqStep_alone h ha
  rw [if_pos h0]

theorem Running.irq {d : Esp32s31I2c} (h : Running slave s d) (hena : s.ena = intMask ∨ s.ena = 0)
    (hs : s.irqStep = some s') : Stage slave s' := by
  have h0 : s.status = 0 := by
    rcases status_cases hena with h0 | h0
    · rw [h0]
      exact h.raw
    · exact h0
  obtain rfl := irqStep_quiet hs h.alone h0
  exact .running d ⟨h.fsm, rfl, h.raw, h.before, h.drv, h.raised, h.done⟩

/-- The handler is not on the way to the next list, or the end, that the interrupt leads to. -/
def IrqPc.astray (more : Bool) (p : IrqPc) : Bool := if more then p.ends else p.refills

/-- **The handler takes an interrupt**: it goes on to what the interrupt leads to, or it is there.
-/
theorem irqStep_takes (more : Bool) {d : Esp32s31I2c} (hbit : bit ≠ 0) (hno : bit &&& intErrors = 0)
    (hjudge : (if bit &&& intEndDetect ≠ 0 then IrqPc.drain true 0 0
      else if bit &&& intTransComplete ≠ 0 then .drain false 0 0 else .out) = .drain more 0 0)
    (hway : (IrqPc.judge bit).astray more = false) (hpending : s.irq.Pending bit s.raw)
    (hleft : irqRest (s.irq.judging bit) s.drv = d) (herr : s.drv.err = 0)
      (hnot : s.irq.astray more = false)
    (hena : s.ena = intMask ∨ s.ena = 0) (hs : s.irqStep = some s') :
    (∃ drv raw p, s' = { s with drv := drv, raw := raw, irq := p } ∧ p.Pending bit raw ∧
      irqRest (p.judging bit) drv = d ∧ drv.err = 0 ∧ p.astray more = false ∧ p ≠ .complete) ∨
    s.irq = .start ∨ s.irq = .disable ∨ s.irq = .complete := by
  rcases irqStep_cases hs with ⟨hi, rfl⟩ | ⟨st, hi, rfl⟩ | ⟨st, hi, rfl⟩ | ⟨hw, d', p, rfl, herr',
    hp, hr, he, hne⟩ |
    ⟨hi, -⟩ | ⟨hi, -⟩ | ⟨hi, -⟩
  · -- the interrupt is there, or the interrupts are off
    rw [hi] at hpending hleft hnot
    have hpending : s.raw &&& intMask = bit := hpending
    left
    rcases status_cases hena with h0 | h0
    · rw [h0, hpending, if_neg hbit]
      exact ⟨s.drv, s.raw, .intClr bit, rfl, ⟨rfl, hpending⟩, hleft, herr, hway, nofun⟩
    · rw [h0, if_pos rfl]
      exact ⟨s.drv, s.raw, .out, rfl, hpending, hleft, herr, hnot, nofun⟩
  · rw [hi] at hpending hleft
    obtain ⟨rfl, hraw⟩ := hpending
    exact Or.inl ⟨s.drv, _, .judge st, rfl, ⟨rfl, mask_clear hraw⟩, hleft, herr, hway, nofun⟩
  · have hrest := irqStep_rest hs (by rw [hi]; nofun)
    rw [hi] at hpending hleft hrest
    obtain ⟨rfl, hraw⟩ := hpending
    have hsame : errOf st s.drv.err = 0 := (errOf_of_no_error hno).trans herr
    simp only [hsame, true_and, ne_eq, not_true_eq_false, if_false] at hrest ⊢
    rw [hjudge] at hrest ⊢
    refine Or.inl ⟨_, s.raw, .drain more 0 0, rfl, hraw, hrest.trans hleft, rfl, ?_, nofun⟩
    cases more with
    | true => rfl
    | false => rfl
  · have hrest := irqStep_rest hs (IrqPc.ne_status_of_works hw)
    rw [IrqPc.Pending.of_past (IrqPc.past_of_works hw)] at hpending
    rw [IrqPc.judging_past (IrqPc.past_of_works hw)] at hleft
    refine Or.inl ⟨d', s.raw, p, rfl, (IrqPc.Pending.of_past hp).mpr hpending,
      (congrArg (irqRest · d') (IrqPc.judging_past hp)).trans (hrest.trans hleft), herr'.trans herr,
        ?_, hne⟩
    unfold IrqPc.astray at hnot ⊢
    rw [hr, he]
    exact hnot
  · exact Or.inr (Or.inl hi)
  · exact Or.inr (Or.inr (Or.inl hi))
  · exact Or.inr (Or.inr (Or.inr hi))

theorem Held.irq {d : Esp32s31I2c} (h : Held slave s d) (hena : s.ena = intMask ∨ s.ena = 0)
    (hs : s.irqStep = some s') : Stage slave s' := by
  have hpending := h.pending
  have hleft := h.left
  have hends := h.ends
  rcases irqStep_takes true (by decide) (by decide) (by decide) rfl hpending hleft h.err hends hena
    hs with
    ⟨drv, raw, p, rfl, hp, hl, he, ha, -⟩ | hi | hi | hi
  · exact .held d ⟨h.fsm, hp, ha, h.after, hl, he, h.raised, h.done⟩
  · -- the next list starts
    unfold Sys.irqStep at hs
    simp only [hi] at hs
    obtain rfl := Option.some.inj hs
    rw [hi] at hpending hleft
    have hdrv : s.drv = d.fill := hleft
    have hsame : s.drv = d.fill.ran s.drv.base := by
      rw [hdrv]
      rfl
    exact .running d ⟨⟨0, 0, rfl, by rw [← start_eq_rest, hdrv]⟩, rfl, hpending, h.after, hsame,
      h.raised, h.done⟩
  · rw [hi] at hends
    cases hends
  · rw [hi] at hends
    cases hends

theorem Stopped.irq {d : Esp32s31I2c} (h : Stopped slave s d) (hena : s.ena = intMask ∨ s.ena = 0)
    (hs : s.irqStep = some s') : Stage slave s' := by
  have hpending := h.pending
  have hleft := h.left
  have hrefills := h.refills
  rcases irqStep_takes false (by decide) (by decide) (by decide) rfl hpending hleft h.err hrefills
    hena hs with
    ⟨drv, raw, p, rfl, hp, hl, he, ha, hne⟩ | hi | hi | hi
  · exact .stopped d ⟨h.fsm, hp, ha, h.after, hl, he, fun hc => absurd hc hne, h.raised, h.done⟩
  · rw [hi] at hrefills
    cases hrefills
  · -- the interrupts go off
    unfold Sys.irqStep at hs
    simp only [hi] at hs
    obtain rfl := Option.some.inj hs
    rw [hi] at hpending hleft
    exact .stopped d ⟨h.fsm, hpending, rfl, h.after, hleft, h.err, fun _ => rfl, h.raised, h.done⟩
  · -- the transfer is complete
    unfold Sys.irqStep at hs
    simp only [hi] at hs
    obtain rfl := Option.some.inj hs
    rw [hi] at hleft
    obtain rfl : s.drv = d := hleft
    exact .complete ⟨h.fsm, rfl, h.ena hi, h.after, h.raised, congrArg (· + 1) h.done⟩

theorem Complete.irq (h : Complete slave s) (hs : s.irqStep = some s') : Stage slave s' := by
  have h0 : s.status = 0 := by
    unfold Sys.status
    rw [h.ena]
    exact BitVec.and_zero
  obtain rfl := irqStep_quiet hs h.alone h0
  exact .complete ⟨h.fsm, rfl, h.ena, h.after, h.raised, h.done⟩

theorem Erring.irq (h : Erring s) (hena : s.ena = intMask ∨ s.ena = 0) (hs : s.irqStep = some s') :
    Stage slave s' := by
  have hrep := h.reported
  have hends := h.ends
  have hrefills := h.refills
  rcases irqStep_cases hs with ⟨hi, rfl⟩ | ⟨st, hi, rfl⟩ | ⟨st, hi, rfl⟩ | ⟨hw, d', p, rfl, herr,
    hp, hr, he, hne⟩ |
    ⟨hi, rfl⟩ | ⟨hi, rfl⟩ | ⟨hi, rfl⟩
  · rw [hi] at hrep
    have hrep : s.raw &&& intErrors ≠ 0 := hrep
    rcases status_cases hena with h0 | h0
    · have hst : s.raw &&& intMask &&& intErrors ≠ 0 := by
        rw [mask_errors]
        exact hrep
      have hne : s.raw &&& intMask ≠ 0 := by
        intro h0
        rw [h0] at hst
        exact hst rfl
      rw [h0, if_neg hne]
      refine .erring ⟨Or.inl hst, rfl, fun hc => ?_, h.err, h.raised, h.done⟩
      -- a status with an error is not that of an END
      have hc : s.raw &&& intMask = intEndDetect := of_decide_eq_true hc
      rw [hc] at hst
      exact absurd rfl hst
    · rw [h0, if_pos rfl]
      exact .erring ⟨hrep, rfl, nofun, h.err, h.raised, h.done⟩
  · rw [hi] at hrep hrefills
    refine .erring ⟨?_, rfl, hrefills, h.err, h.raised, h.done⟩
    rcases hrep with hst | ⟨rfl, hraw⟩
    · exact Or.inl hst
    · exact Or.inr ⟨rfl, errors_clear hraw (by decide)⟩
  · rw [hi] at hrep hrefills
    rcases hrep with hst | ⟨rfl, hraw⟩
    · have herr : errOf st s.drv.err < 0 := errOf_of_error hst
      rw [if_neg (fun hc => absurd hc.1 (Int.ne_of_lt herr)), if_pos (Int.ne_of_lt herr)]
      exact .failing ⟨Or.inl rfl, herr, h.raised, h.done⟩
    · have herr : errOf intEndDetect s.drv.err = 0 := (errOf_of_no_error (by decide)).trans h.err
      rw [if_pos ⟨herr, by decide⟩]
      exact .erring ⟨hraw, rfl, hrefills, herr, h.raised, h.done⟩
  · rw [IrqPc.Reported.of_past (IrqPc.past_of_works hw)] at hrep
    exact .erring ⟨(IrqPc.Reported.of_past hp).mpr hrep, he.trans hends,
      fun hc => hrefills (hr.symm.trans hc), herr.trans h.err, h.raised, h.done⟩
  · rw [hi] at hrep
    exact .erring ⟨hrep, rfl, nofun, h.err, h.raised, h.done⟩
  · rw [hi] at hends
    cases hends
  · rw [hi] at hends
    cases hends

theorem Failing.irq (h : Failing s) (hs : s.irqStep = some s') : Stage slave s' := by
  unfold Sys.irqStep at hs
  rcases h.ends with hi | ⟨hi, hena⟩
  · simp only [hi] at hs
    obtain rfl := Option.some.inj hs
    exact .failing ⟨Or.inr ⟨rfl, rfl⟩, h.err, h.raised, h.done⟩
  · simp only [hi] at hs
    obtain rfl := Option.some.inj hs
    exact .failed ⟨rfl, hena, h.err, h.raised, congrArg (· + 1) h.done⟩

theorem Failed.irq (h : Failed s) (hs : s.irqStep = some s') : Stage slave s' := by
  have h0 : s.status = 0 := by
    unfold Sys.status
    rw [h.ena]
    exact BitVec.and_zero
  obtain rfl := irqStep_quiet hs h.alone h0
  exact .failed ⟨rfl, h.ena, h.err, h.raised, h.done⟩

/-- **A step of the handler** leads from stage to stage. -/
theorem Stage.irq (h : Stage slave s) (hena : s.ena = intMask ∨ s.ena = 0)
    (hs : s.irqStep = some s') : Stage slave s' := by
  cases h with
  | running d h => exact h.irq hena hs
  | held d h => exact h.irq hena hs
  | stopped d h => exact h.irq hena hs
  | complete h => exact h.irq hs
  | erring h => exact h.irq hena hs
  | failing h => exact h.irq hs
  | failed h => exact h.irq hs

/-- The handler is entered. -/
theorem Stage.enter (h : Stage slave s) (hs : s.enter = some s') : Stage slave s' := by
  unfold Sys.enter at hs
  by_cases hi : s.irq = .out
  · rw [if_pos hi] at hs
    obtain rfl := Option.some.inj hs
    cases h with
    | running d h => exact .running d ⟨h.fsm, rfl, h.raw, h.before, h.drv, h.raised, h.done⟩
    | held d h =>
      have hp := h.pending
      have hl := h.left
      rw [hi] at hp hl
      exact .held d ⟨h.fsm, hp, rfl, h.after, hl, h.err, h.raised, h.done⟩
    | stopped d h =>
      have hp := h.pending
      have hl := h.left
      rw [hi] at hp hl
      exact .stopped d ⟨h.fsm, hp, rfl, h.after, hl, h.err, nofun, h.raised, h.done⟩
    | complete h => exact .complete ⟨h.fsm, rfl, h.ena, h.after, h.raised, h.done⟩
    | erring h =>
      have hr := h.reported
      rw [hi] at hr
      exact .erring ⟨hr, rfl, nofun, h.err, h.raised, h.done⟩
    | failing h =>
      rcases h.ends with he | ⟨he, -⟩
      · rw [hi] at he
        cases he
      · rw [hi] at he
        cases he
    | failed h => exact .failed ⟨rfl, h.ena, h.err, h.raised, h.done⟩
  · rw [if_neg hi] at hs
    cases hs

end Handler

/-! ## Steps of the controller, and of the call -/

section Controller

variable {slave : Slave} {s s' : Sys}

theorem Running.tick {d : Esp32s31I2c} (h : Running slave s d) (hs : s.tick slave = some s') :
    Stage slave s' := by
  obtain ⟨i, j, hfsm, hleft⟩ := h.fsm
  obtain ⟨hderr, hlist⟩ := h.before.list
  unfold Sys.tick at hs
  simp only [hfsm] at hs
  obtain ⟨-, hs⟩ := Option.ite_none_right_eq_some.mp hs
  obtain ⟨⟨c, bits, fsm⟩, hc, rfl⟩ := Option.map_eq_some_iff.mp hs
  -- the drained list of `d`
  have hran : s.drv.ran c = d.fill.ran c := by
    rw [h.drv]
    rfl
  have herr : (s.drv.ran c).err = 0 := by
    rw [hran]
    exact hderr
  rcases ctlStep_rest hc with ⟨rfl, i', j', rfl, hrest⟩ | ⟨rfl, rfl, hrest⟩ | ⟨rfl, rfl, hrest⟩
  · have hraw : (s.raw ||| 0) &&& intMask = 0 := mask_or h.raw rfl
    exact .running d ⟨⟨i', j', rfl, hrest.trans hleft⟩, h.alone, hraw, h.before, hran, h.raised,
      h.done⟩
  · rw [hleft] at hrest
    rcases hlist with ⟨c', hstart, hb⟩ | ⟨c', hstart, -⟩
    · obtain ⟨rfl, -⟩ := Prod.mk.inj (Option.some.inj (hstart.symm.trans hrest))
      have hraw : (s.raw ||| intEndDetect) &&& intMask = intEndDetect := mask_or h.raw (by decide)
      refine .held _ ⟨rfl, (IrqPc.Pending.of_alone h.alone).mpr hraw, IrqPc.ends_alone h.alone, hb,
        ?_, herr, h.raised, h.done⟩
      rw [IrqPc.judging_alone h.alone, ← hran]
      exact irqRest_judge_end herr
    · exact absurd (Prod.mk.inj (Option.some.inj (hstart.symm.trans hrest))).2 (by decide)
  · rw [hleft] at hrest
    rcases hlist with ⟨c', hstart, -⟩ | ⟨c', hstart, hdone⟩
    · exact absurd (Prod.mk.inj (Option.some.inj (hstart.symm.trans hrest))).2 (by decide)
    · obtain ⟨rfl, -⟩ := Prod.mk.inj (Option.some.inj (hstart.symm.trans hrest))
      have hraw : (s.raw ||| intTransComplete) &&& intMask = intTransComplete :=
        mask_or h.raw (by decide)
      refine .stopped _ ⟨rfl, (IrqPc.Pending.of_alone h.alone).mpr hraw,
        IrqPc.refills_alone h.alone, hdone, ?_, herr, fun hi => ?_, h.raised, h.done⟩
      · rw [IrqPc.judging_alone h.alone, ← hran]
        exact irqRest_judge_stop herr
      · have ha := h.alone
        rw [show s.irq = .complete from hi] at ha
        cases ha

/-- What a step of the controller leaves alone. -/
theorem tick_frame (hs : s.tick slave = some s') :
    (∃ i j, s.fsm = .run i j) ∧ ∃ c bits fsm, s' =
      { s with drv := s.drv.ran c, raw := s.raw ||| bits, fsm := fsm } := by
  unfold Sys.tick at hs
  cases hfsm : s.fsm with
  | run i j =>
    simp only [hfsm] at hs
    obtain ⟨-, hs⟩ := Option.ite_none_right_eq_some.mp hs
    obtain ⟨⟨c, bits, fsm⟩, -, rfl⟩ := Option.map_eq_some_iff.mp hs
    exact ⟨⟨i, j, rfl⟩, c, bits, fsm, rfl⟩
  | _ =>
    simp only [hfsm] at hs
    cases hs

/-- **A step of the controller** leads from stage to stage. -/
theorem Stage.tick (h : Stage slave s) (hs : s.tick slave = some s') : Stage slave s' := by
  obtain ⟨⟨i, j, hfsm⟩, c, bits, fsm, rfl⟩ := tick_frame hs
  cases h with
  | running d h => exact h.tick hs
  | held d h => exact absurd (h.fsm.symm.trans hfsm) nofun
  | stopped d h => exact absurd (h.fsm.symm.trans hfsm) nofun
  | complete h => exact absurd (h.fsm.symm.trans hfsm) nofun
  | erring h =>
    refine .erring ⟨h.reported.mono, h.ends, fun hr => ?_, h.err, h.raised, h.done⟩
    rcases h.refills hr with hf | hf
    · exact absurd (hf.symm.trans hfsm) nofun
    · exact absurd (hf.symm.trans hfsm) nofun
  | failing h => exact .failing ⟨h.ends, h.err, h.raised, h.done⟩
  | failed h => exact .failed ⟨h.alone, h.ena, h.err, h.raised, h.done⟩

theorem fail_cases {bits : U32} {stops : Bool} (hs : s.fail bits stops = some s') :
    ((∃ i j, s.fsm = .run i j) ∨ s.fsm = .held) ∧ bits &&& intErrors ≠ 0 ∧ s' = { s with
      raw := s.raw ||| bits
      fsm := if stops then .failed else s.fsm
      xfer := { s.xfer with raised := true } } := by
  unfold Sys.fail at hs
  cases hfsm : s.fsm with
  | run i j =>
    simp only [hfsm] at hs
    obtain ⟨hb, hs⟩ := Option.ite_none_right_eq_some.mp hs
    exact ⟨Or.inl ⟨i, j, rfl⟩, hb, (Option.some.inj hs).symm⟩
  | held =>
    simp only [hfsm] at hs
    obtain ⟨hb, hs⟩ := Option.ite_none_right_eq_some.mp hs
    exact ⟨Or.inr rfl, hb, (Option.some.inj hs).symm⟩
  | _ =>
    simp only [hfsm] at hs
    cases hs

theorem Stage.fail {bits : U32} {stops : Bool} (h : Stage slave s)
    (hs : s.fail bits stops = some s') : Stage slave s' := by
  obtain ⟨hfsm, hb, rfl⟩ := fail_cases hs
  cases h with
  | running d h =>
    refine .erring ⟨(IrqPc.Reported.of_alone h.alone).mpr (errors_or_right hb),
      IrqPc.ends_alone h.alone, fun hr => ?_, ?_, rfl, h.done⟩
    · rw [IrqPc.refills_alone h.alone] at hr
      cases hr
    · exact (congrArg Esp32s31I2c.err h.drv).trans h.before.list.1
  | held d h =>
    refine .erring ⟨h.pending.reported hb, h.ends, fun _ => ?_, h.err, rfl, h.done⟩
    cases stops with
    | true => exact Or.inr rfl
    | false => exact Or.inl h.fsm
  | stopped d h =>
    rw [h.fsm] at hfsm
    simp at hfsm
  | complete h =>
    rw [h.fsm] at hfsm
    simp at hfsm
  | erring h =>
    refine .erring ⟨h.reported.mono, h.ends, fun hr => ?_, h.err, rfl, h.done⟩
    cases stops with
    | true => exact Or.inr rfl
    | false => exact h.refills hr
  | failing h => exact .failing ⟨h.ends, h.err, rfl, h.done⟩
  | failed h => exact .failed ⟨h.alone, h.ena, h.err, rfl, h.done⟩

theorem Stage.stray {bits : U32} (h : Stage slave s) (hs : s.stray bits = some s') :
    Stage slave s' := by
  unfold Sys.stray at hs
  by_cases hfsm : s.fsm = .failed
  · rw [if_pos hfsm] at hs
    obtain rfl := Option.some.inj hs
    cases h with
    | running d h =>
      obtain ⟨i, j, hrun, -⟩ := h.fsm
      exact absurd (hrun.symm.trans hfsm) nofun
    | held d h => exact absurd (h.fsm.symm.trans hfsm) nofun
    | stopped d h => exact absurd (h.fsm.symm.trans hfsm) nofun
    | complete h => exact absurd (h.fsm.symm.trans hfsm) nofun
    | erring h => exact .erring ⟨h.reported.mono, h.ends, h.refills, h.err, h.raised, h.done⟩
    | failing h => exact .failing ⟨h.ends, h.err, h.raised, h.done⟩
    | failed h => exact .failed ⟨h.alone, h.ena, h.err, h.raised, h.done⟩
  · rw [if_neg hfsm] at hs
    cases hs

/-- The wait gives up. -/
theorem Stage.expired (h : Stage slave s) (p : XferPc) (b : Bool) :
    Stage slave { s with pc := p, xfer := { s.xfer with expired := b } } := by
  cases h with
  | running d h => exact .running d ⟨h.fsm, h.alone, h.raw, h.before, h.drv, h.raised, h.done⟩
  | held d h => exact .held d ⟨h.fsm, h.pending, h.ends, h.after, h.left, h.err, h.raised, h.done⟩
  | stopped d h =>
    exact .stopped d ⟨h.fsm, h.pending, h.refills, h.after, h.left, h.err, h.ena, h.raised, h.done⟩
  | complete h => exact .complete ⟨h.fsm, h.alone, h.ena, h.after, h.raised, h.done⟩
  | erring h => exact .erring ⟨h.reported, h.ends, h.refills, h.err, h.raised, h.done⟩
  | failing h => exact .failing ⟨h.ends, h.err, h.raised, h.done⟩
  | failed h => exact .failed ⟨h.alone, h.ena, h.err, h.raised, h.done⟩

/-- The call turns the interrupts off. -/
theorem Stage.disabled (h : Stage slave s) (p : XferPc) : Stage slave
    { s with ena := 0, pc := p } := by
  cases h with
  | running d h => exact .running d ⟨h.fsm, h.alone, h.raw, h.before, h.drv, h.raised, h.done⟩
  | held d h => exact .held d ⟨h.fsm, h.pending, h.ends, h.after, h.left, h.err, h.raised, h.done⟩
  | stopped d h =>
    exact .stopped d ⟨h.fsm, h.pending, h.refills, h.after, h.left, h.err, fun _ => rfl, h.raised,
      h.done⟩
  | complete h => exact .complete ⟨h.fsm, h.alone, rfl, h.after, h.raised, h.done⟩
  | erring h => exact .erring ⟨h.reported, h.ends, h.refills, h.err, h.raised, h.done⟩
  | failing h => exact .failing ⟨h.ends.imp_right fun h => ⟨h.1, rfl⟩, h.err, h.raised, h.done⟩
  | failed h => exact .failed ⟨h.alone, rfl, h.err, h.raised, h.done⟩

/-- The list that the handler fills does not run. -/
theorem Stage.not_run (h : Stage slave s) (hr : s.irq.refills = true) (i j : Nat) :
    s.fsm ≠ .run i j := by
  intro hfsm
  cases h with
  | running d h => exact absurd ((IrqPc.refills_alone h.alone).symm.trans hr) nofun
  | held d h => exact absurd (h.fsm.symm.trans hfsm) nofun
  | stopped d h => exact absurd (h.fsm.symm.trans hfsm) nofun
  | complete h => exact absurd (h.fsm.symm.trans hfsm) nofun
  | erring h =>
    rcases h.refills hr with hf | hf
    · exact absurd (hf.symm.trans hfsm) nofun
    · exact absurd (hf.symm.trans hfsm) nofun
  | failing h =>
    rcases h.ends with hi | ⟨hi, -⟩
    · rw [hi] at hr
      cases hr
    · rw [hi] at hr
      cases hr
  | failed h => exact absurd ((IrqPc.refills_alone h.alone).symm.trans hr) nofun

/-- A completed transfer: the handler is done with it, and the interrupts are off. -/
theorem Stage.completed (h : Stage slave s) (hd : 0 < s.done) :
    s.irq.alone = true ∧ s.ena = 0 ∧ s.done = 1 ∧
      (s.fsm = .idle ∧ s.xfer.Done slave s.drv ∧ s.xfer.raised = false ∨ s.drv.err < 0 ∧
        s.xfer.raised = true) := by
  cases h with
  | running d h => rw [h.done] at hd; cases hd
  | held d h => rw [h.done] at hd; cases hd
  | stopped d h => rw [h.done] at hd; cases hd
  | complete h => exact ⟨h.alone, h.ena, h.done, Or.inl ⟨h.fsm, h.after, h.raised⟩⟩
  | erring h => rw [h.done] at hd; cases hd
  | failing h => rw [h.done] at hd; cases hd
  | failed h => exact ⟨h.alone, h.ena, h.done, Or.inr ⟨h.err, h.raised⟩⟩

end Controller

end Esp32S31.I2c
