import Esp32S31.Lib.Word

/-!
# The events of the machine timer

`esp32s31_timer_event_start` and `esp32s31_timer_event_stop` (`platform.c` of OpenSBI) write the
compare value of the machine timer in two words while the timer runs, and clear the latch of its
interrupt input. The input latches when the timer reaches the compare value, by a tick or by a
write.

* **`event_start_iff`**: the latch tells whether the timer has reached the event, exactly when the
  old compare value was not reached between the clearing of the latch and the first write
  (`Undisturbed`); after a stop it is and stays clear. `event_start_spurious` is a run with an
  interrupt of the old value.
* `event_init`: after `esp32s31_timer_init` no interrupt comes.
-/

namespace Esp32S31.Timer

open Esp32S31.Lib

/-! ## The hardware -/

/-- The machine timer, its compare words, and the pending bit of its interrupt input. -/
structure MTimer where
  mtime : Nat
  cmpHi : U32
  cmpLo : U32
  ip : Bool
  deriving DecidableEq

namespace MTimer

/-- The compare value. -/
def mtimecmp (t : MTimer) : Nat := t.cmpHi.toNat * 2 ^ 32 + t.cmpLo.toNat

/-- The level of the input. -/
def Reached (t : MTimer) : Prop := t.mtimecmp ≤ t.mtime

instance (t : MTimer) : Decidable t.Reached := inferInstanceAs (Decidable (_ ≤ _))

/-- The change from `t` to `t'`: the input latches when it makes the level high. -/
def latch (t t' : MTimer) : MTimer := { t' with ip := t.ip || decide (¬ t.Reached ∧ t'.Reached) }

/-- The timer runs on. -/
def tick (t : MTimer) (n : Nat) : MTimer := t.latch { t with mtime := t.mtime + n }

end MTimer

/-- An access of the driver. -/
inductive Access where
  /-- `reg_write8(ESP32S31_CLIC_IP(ESP32S31_CLIC_MTIMER_ID), 0)` -/
  | clearIp
  /-- `reg_write(ESP32S31_MTIMECMP_HI, x)` -/
  | cmpHi (x : U32)
  /-- `reg_write(ESP32S31_MTIMECMP_LO, x)` -/
  | cmpLo (x : U32)
  deriving DecidableEq

/-- What an access does. -/
def Access.exec (t : MTimer) : Access → MTimer
  | .clearIp => { t with ip := false }
  | .cmpHi x => t.latch { t with cmpHi := x }
  | .cmpLo x => t.latch { t with cmpLo := x }

/-! ## The driver -/

/-- `esp32s31_timer_event_start`: the high word first, at its maximum. -/
def timerEventStart (nextEvent : BitVec 64) : List Access :=
  [.clearIp, .cmpHi 0xffffffff, .cmpLo (nextEvent.setWidth 32),
    .cmpHi ((nextEvent >>> 32).setWidth 32)]

/-- `esp32s31_timer_event_stop`. -/
def timerEventStop : List Access := [.cmpHi 0xffffffff, .cmpLo 0xffffffff, .clearIp]

/-- `esp32s31_timer_init`, as far as it is about these registers: `esp32s31_clic_setup` clears the
latch. -/
def timerInit : List Access := .clearIp :: timerEventStop

/-- The accesses, with the ticks `gaps i` before the access `i`, the last ones before the return. -/
def run (gaps : Nat → Nat) : Nat → List Access → MTimer → MTimer
  | i, [], t => t.tick (gaps i)
  | i, a :: as, t => run gaps (i + 1) as (a.exec (t.tick (gaps i)))

/-! ## What the driver is for -/

/-- The timer does not pass this value. -/
def timeLimit : Nat := 2 ^ 64 - 2 ^ 32

/-- From `t` on, the latch is set once the timer has reached `event`, and not before. -/
def LatchesAt (t : MTimer) (event : Nat) : Prop :=
  ∀ n, t.mtime + n ≤ timeLimit → ((t.tick n).ip = true ↔ event ≤ t.mtime + n)

/-- From `t` on, the latch stays clear. -/
def StaysClear (t : MTimer) : Prop := ∀ n, t.mtime + n ≤ timeLimit → (t.tick n).ip = false

/-- Nothing disturbs the start of an event: the timer does not come to the old compare value between
the clearing of the latch and the first write, or it has reached the event too by the end. And the
timer has not come to the limit at the first write, with the low words at 0. -/
def Undisturbed (gaps : Nat → Nat) (t : MTimer) (event : Nat) : Prop :=
  (¬ (t.mtime + gaps 0 < t.mtimecmp ∧ t.mtimecmp ≤ t.mtime + gaps 0 + gaps 1) ∨
    event ≤ t.mtime + gaps 0 + gaps 1 + gaps 2 + gaps 3 + gaps 4) ∧
  ¬ (t.mtimecmp ≤ t.mtime + gaps 0 ∧ t.mtime + gaps 0 + gaps 1 = timeLimit ∧
    t.cmpLo.toNat = 0 ∧ event % 2 ^ 32 = 0)

/-! ## One change -/

namespace MTimer

variable (t : MTimer)

@[simp] theorem mtime_tick (n : Nat) : (t.tick n).mtime = t.mtime + n := rfl

@[simp] theorem cmpHi_tick (n : Nat) : (t.tick n).cmpHi = t.cmpHi := rfl

@[simp] theorem cmpLo_tick (n : Nat) : (t.tick n).cmpLo = t.cmpLo := rfl

@[simp] theorem mtimecmp_tick (n : Nat) : (t.tick n).mtimecmp = t.mtimecmp := rfl

/-- A tick latches the input when it comes to the compare value. -/
@[simp] theorem ip_tick (n : Nat) : (t.tick n).ip = true ↔
    t.ip = true ∨ t.mtime < t.mtimecmp ∧ t.mtimecmp ≤ t.mtime + n := by
  unfold tick latch
  rw [Bool.or_eq_true, decide_eq_true_eq]
  unfold Reached
  rw [Nat.not_le]
  rfl

theorem ip_latch (t' : MTimer) : (t.latch t').ip = true ↔
    t.ip = true ∨ t.mtime < t.mtimecmp ∧ t'.mtimecmp ≤ t'.mtime := by
  unfold latch
  rw [Bool.or_eq_true, decide_eq_true_eq]
  unfold Reached
  rw [Nat.not_le]

end MTimer

namespace Access

variable (t : MTimer) (x : U32)

/-- The access that clears the latch leaves the timer as it is. -/
@[simp] theorem mtimecmp_clearIp : (clearIp.exec t).mtimecmp = t.mtimecmp := rfl

@[simp] theorem cmpHi_clearIp : (clearIp.exec t).cmpHi = t.cmpHi := rfl

@[simp] theorem cmpLo_clearIp : (clearIp.exec t).cmpLo = t.cmpLo := rfl

@[simp] theorem ip_clearIp : (clearIp.exec t).ip = false := rfl

@[simp] theorem mtime_exec (a : Access) : (a.exec t).mtime = t.mtime := by
  cases a <;> rfl

@[simp] theorem mtimecmp_cmpHi : ((cmpHi x).exec t).mtimecmp = x.toNat * 2 ^ 32 + t.cmpLo.toNat :=
  rfl

@[simp] theorem mtimecmp_cmpLo : ((cmpLo x).exec t).mtimecmp = t.cmpHi.toNat * 2 ^ 32 + x.toNat :=
  rfl

@[simp] theorem cmpHi_cmpHi : ((cmpHi x).exec t).cmpHi = x := rfl

@[simp] theorem cmpLo_cmpHi : ((cmpHi x).exec t).cmpLo = t.cmpLo := rfl

@[simp] theorem cmpHi_cmpLo : ((cmpLo x).exec t).cmpHi = t.cmpHi := rfl

@[simp] theorem cmpLo_cmpLo : ((cmpLo x).exec t).cmpLo = x := rfl

@[simp] theorem ip_cmpHi : ((cmpHi x).exec t).ip = true ↔
    t.ip = true ∨ t.mtime < t.mtimecmp ∧ x.toNat * 2 ^ 32 + t.cmpLo.toNat ≤ t.mtime :=
  t.ip_latch _

@[simp] theorem ip_cmpLo : ((cmpLo x).exec t).ip = true ↔
    t.ip = true ∨ t.mtime < t.mtimecmp ∧ t.cmpHi.toNat * 2 ^ 32 + x.toNat ≤ t.mtime :=
  t.ip_latch _

end Access

/-! ## A start and a stop -/

section Runs

variable (gaps : Nat → Nat) (t : MTimer) (nextEvent : BitVec 64)

/-- The words of an event are the event. -/
theorem event_words : ((nextEvent >>> 32).setWidth 32).toNat * 2 ^ 32 +
    (nextEvent.setWidth 32).toNat = nextEvent.toNat := by
  have hlt := nextEvent.isLt
  rw [BitVec.toNat_setWidth, BitVec.toNat_setWidth, BitVec.toNat_ushiftRight,
    Nat.shiftRight_eq_div_pow]
  omega

theorem mtime_start : (run gaps 0 (timerEventStart nextEvent) t).mtime =
    t.mtime + gaps 0 + gaps 1 + gaps 2 + gaps 3 + gaps 4 := by
  simp [run, timerEventStart]

theorem mtimecmp_start :
    (run gaps 0 (timerEventStart nextEvent) t).mtimecmp = nextEvent.toNat := by
  simp only [run, timerEventStart, MTimer.mtimecmp_tick, Access.mtimecmp_cmpHi, MTimer.cmpLo_tick,
    Access.cmpLo_cmpLo, event_words]

/-- What latches the input during a start, from the clearing on: the old compare value, the maximum
with the old and with the new low word, the event. -/
theorem ip_start {m₁ m₂ m₃ m₄ m₅ : Nat} (h₁ : t.mtime + gaps 0 = m₁) (h₂ : m₁ + gaps 1 = m₂)
    (h₃ : m₂ + gaps 2 = m₃) (h₄ : m₃ + gaps 3 = m₄) (h₅ : m₄ + gaps 4 = m₅) :
    (run gaps 0 (timerEventStart nextEvent) t).ip = true ↔
      (m₁ < t.mtimecmp ∧ t.mtimecmp ≤ m₂) ∨
      (m₂ < t.mtimecmp ∧ timeLimit + t.cmpLo.toNat ≤ m₂) ∨
      (m₂ < timeLimit + t.cmpLo.toNat ∧ timeLimit + t.cmpLo.toNat ≤ m₃) ∨
      (m₃ < timeLimit + t.cmpLo.toNat ∧ timeLimit + nextEvent.toNat % 2 ^ 32 ≤ m₃) ∨
      (m₃ < timeLimit + nextEvent.toNat % 2 ^ 32 ∧ timeLimit + nextEvent.toNat % 2 ^ 32 ≤ m₄) ∨
      (m₄ < timeLimit + nextEvent.toNat % 2 ^ 32 ∧ nextEvent.toNat ≤ m₄) ∨
      (m₄ < nextEvent.toNat ∧ nextEvent.toNat ≤ m₅) := by
  have hhigh : (0xffffffff#32).toNat * 2 ^ 32 = timeLimit := by decide
  have hlow : (nextEvent.setWidth 32).toNat = nextEvent.toNat % 2 ^ 32 := BitVec.toNat_setWidth _ _
  subst h₁ h₂ h₃ h₄ h₅
  simp only [run, timerEventStart, MTimer.ip_tick, MTimer.mtime_tick, MTimer.mtimecmp_tick,
    MTimer.cmpLo_tick, MTimer.cmpHi_tick, Access.mtime_exec, Access.ip_cmpHi, Access.ip_cmpLo,
    Access.ip_clearIp, Access.mtimecmp_cmpHi, Access.mtimecmp_cmpLo, Access.mtimecmp_clearIp,
    Access.cmpHi_cmpHi, Access.cmpLo_cmpHi, Access.cmpLo_cmpLo, Access.cmpLo_clearIp, event_words,
    Bool.false_eq_true, false_or, or_assoc]
  rw [← hhigh, ← hlow]
  rfl

/-- After a stop, the compare value is the maximum, and only this could latch the input. -/
theorem run_stop : (run gaps 0 timerEventStop t).mtimecmp = 2 ^ 64 - 1 ∧
    ((run gaps 0 timerEventStop t).ip = true →
      2 ^ 64 - 1 ≤ (run gaps 0 timerEventStop t).mtime) := by
  constructor
  · simp [run, timerEventStop]
  · simp [run, timerEventStop]

end Runs

/-- **After a stop** no interrupt comes. -/
theorem event_stop_clear (gaps : Nat → Nat) (t : MTimer) :
    StaysClear (run gaps 0 timerEventStop t) := by
  intro n hn
  obtain ⟨hcmp, hip⟩ := run_stop gaps t
  have htl : timeLimit = 2 ^ 64 - 2 ^ 32 := rfl
  rw [← Bool.not_eq_true, MTimer.ip_tick, hcmp]
  rintro (h | ⟨-, h⟩)
  · have := hip h
    omega
  · omega

/-- After `esp32s31_timer_init` no interrupt comes. -/
theorem event_init (gaps : Nat → Nat) (t : MTimer) : StaysClear (run gaps 0 timerInit t) := by
  have hrun : run gaps 0 timerInit t =
      run (fun i => gaps (i + 1)) 0 timerEventStop (Access.clearIp.exec (t.tick (gaps 0))) := by
    simp [run, timerInit, timerEventStop]
  rw [hrun]
  exact event_stop_clear _ _

/-- The compare value is the event: the latch is right from now on when it is right now. -/
theorem latchesAt_iff {t : MTimer} {event : Nat} (hcmp : t.mtimecmp = event)
    (hlimit : t.mtime ≤ timeLimit) : LatchesAt t event ↔ (t.ip = true ↔ event ≤ t.mtime) := by
  unfold LatchesAt
  simp only [MTimer.ip_tick, hcmp]
  constructor
  · intro h
    have hno : ¬ (t.mtime < event ∧ event ≤ t.mtime) := by omega
    simpa [hno] using h 0 hlimit
  · intro h n _
    constructor
    · rintro (hip | ⟨-, hle⟩)
      · exact Nat.le_add_right_of_le (h.mp hip)
      · exact hle
    · intro hle
      by_cases hnow : event ≤ t.mtime
      · exact Or.inl (h.mpr hnow)
      · exact Or.inr ⟨by omega, hle⟩

/-- **An event is neither lost nor early** when nothing disturbs its start, and only then; after a
stop no interrupt comes. -/
theorem event_start_iff (gaps : Nat → Nat) (t : MTimer) (nextEvent : BitVec 64)
    (hevent : nextEvent.toNat < timeLimit)
    (hlimit : t.mtime + gaps 0 + gaps 1 + gaps 2 + gaps 3 + gaps 4 ≤ timeLimit) :
    (LatchesAt (run gaps 0 (timerEventStart nextEvent) t) nextEvent.toNat ↔
      Undisturbed gaps t nextEvent.toNat) ∧
    StaysClear (run gaps 0 timerEventStop t) := by
  constructor
  · rw [latchesAt_iff (mtimecmp_start gaps t nextEvent) (by rw [mtime_start]; exact hlimit),
      ip_start gaps t nextEvent rfl rfl rfl rfl rfl, mtime_start]
    have hold : t.mtimecmp % 2 ^ 32 = t.cmpLo.toNat := by
      have := t.cmpLo.isLt
      unfold MTimer.mtimecmp
      omega
    have htl : timeLimit = 2 ^ 64 - 2 ^ 32 := rfl
    unfold Undisturbed
    omega
  · exact event_stop_clear gaps t

/-- An event in 1000 ticks; the old compare value is far away. -/
theorem event_start_next : LatchesAt (run (fun _ => 10) 0 (timerEventStart 1000)
      ⟨0, 0xffffffff, 0xffffffff, true⟩) 1000 ∧
    StaysClear (run (fun _ => 10) 0 timerEventStop ⟨0, 0xffffffff, 0xffffffff, true⟩) := by
  obtain ⟨hiff, hstop⟩ := event_start_iff (fun _ => 10) ⟨0, 0xffffffff, 0xffffffff, true⟩ 1000
    (by decide) (by decide)
  refine ⟨hiff.mpr ?_, hstop⟩
  unfold Undisturbed
  decide

/-- The old value, 15, comes between the clearing of the latch, at 10, and the first write, at 20:
the input is pending for an event in 1000 ticks. -/
theorem event_start_spurious : ¬ LatchesAt (run (fun _ => 10) 0 (timerEventStart 1000)
      ⟨0, 0, 15, false⟩) 1000 ∧
    (run (fun _ => 10) 0 (timerEventStart 1000) ⟨0, 0, 15, false⟩).ip = true ∧
    (run (fun _ => 10) 0 (timerEventStart 1000) ⟨0, 0, 15, false⟩).mtime = 50 := by
  refine ⟨fun h => ?_, by decide, by decide⟩
  have hnow := h 0 (by decide)
  revert hnow
  decide

end Esp32S31.Timer
