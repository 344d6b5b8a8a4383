import Mathlib.Data.List.Forall2
import Esp32S31.Timer.Event

/-!
# Reading the machine timer

`esp32s31_timer_value` (`platform.c` of OpenSBI) reads the 64-bit timer in two words while the timer
runs: the high word, the low word and the high word again, until the two high words agree.
`MTimer.mtime` counts on behind `2 ^ 64`; the registers show its low 64 bits.

* **`timer_reads`**: in any number of reads one after another, each returns the timer at an instant
  of its own, and the instants are in the order of the reads. So no read is below an earlier one,
  unless the 64-bit timer wraps between them; `timer_reads_wrap` is a run in which it does.
* `timerValue_returns`: a read returns exactly when one of its passes has no carry between the two
  high words. Two passes in less than the time from carry to carry are enough
  (`timerValue_second`).
-/

namespace Esp32S31.Timer

open Esp32S31.Lib

/-! ## The read -/

/-- `reg_read(ESP32S31_MTIME_HI)`. -/
def MTimer.readHi (t : MTimer) : U32 := .ofNat 32 (t.mtime / 2 ^ 32)

/-- `reg_read(ESP32S31_MTIME_LO)`. -/
def MTimer.readLo (t : MTimer) : U32 := .ofNat 32 t.mtime

/-- The ticks before each of the three reads of a pass. -/
structure Pass where
  hi : Nat
  lo : Nat
  tmp : Nat
  deriving DecidableEq

/-- `esp32s31_timer_value`, with the timer at its return: the ticks of each pass, and at most so
many passes. -/
def timerValue : Nat → (Nat → Pass) → MTimer → Option (BitVec 64 × MTimer)
  | 0, _, _ => none
  | passes + 1, ticks, t =>
    let t₁ := t.tick (ticks 0).hi
    let hi := t₁.readHi
    let t₂ := t₁.tick (ticks 0).lo
    let lo := t₂.readLo
    let t₃ := t₂.tick (ticks 0).tmp
    let tmp := t₃.readHi
    if hi ≠ tmp then timerValue passes (fun k => ticks (k + 1)) t₃
    else some (hi.setWidth 64 <<< 32 ||| lo.setWidth 64, t₃)

/-- A call: the ticks since the return of the one before, and those within it. -/
structure Call where
  idle : Nat
  ticks : Nat → Pass
  passes : Nat

/-- A read that has returned: the timer at the call and at the return, and the value. -/
structure Reading where
  call : Nat
  value : BitVec 64
  ret : Nat
  deriving DecidableEq

/-- Calls one after another. -/
def reads : List Call → MTimer → Option (List Reading)
  | [], _ => some []
  | c :: cs, t =>
    match timerValue c.passes c.ticks (t.tick c.idle) with
    | none => none
    | some (v, t') => (reads cs t').map (⟨(t.tick c.idle).mtime, v, t'.mtime⟩ :: ·)

/-! ## What a read is for -/

/-- The pass is shorter than the time from carry to carry. -/
def Pass.Short (p : Pass) : Prop := p.lo + p.tmp < 2 ^ 32

/-- The timer makes no carry between the two high words of the pass, which starts at `m`. -/
def Pass.Steady (p : Pass) (m : Nat) : Prop :=
  (m + p.hi) / 2 ^ 32 = (m + p.hi + p.lo + p.tmp) / 2 ^ 32

/-- The timer at the start of the pass `k`. -/
def passStart : (Nat → Pass) → Nat → Nat → Nat
  | _, m, 0 => m
  | ticks, m, k + 1 =>
    passStart (fun i => ticks (i + 1)) (m + (ticks 0).hi + (ticks 0).lo + (ticks 0).tmp) k

/-- The read returns the 64-bit timer at the instant `n`, between its call and its return. -/
def Reading.Shows (r : Reading) (n : Nat) : Prop :=
  r.call ≤ n ∧ n ≤ r.ret ∧ r.value = .ofNat 64 n

/-! ## One pass -/

/-- The low word read where the high word does not change makes the timer with it. -/
theorem words_value {n k : Nat} (h : n / 2 ^ 32 = k / 2 ^ 32) :
    (BitVec.ofNat 32 (k / 2 ^ 32)).setWidth 64 <<< 32 ||| (BitVec.ofNat 32 n).setWidth 64 =
      BitVec.ofNat 64 n := by
  apply BitVec.eq_of_toNat_eq
  rw [← h, BitVec.toNat_or, BitVec.toNat_shiftLeft, BitVec.toNat_setWidth, BitVec.toNat_setWidth,
    BitVec.toNat_ofNat, BitVec.toNat_ofNat, BitVec.toNat_ofNat]
  have hshift : (n / 2 ^ 32 % 2 ^ 32 % 2 ^ 64) <<< 32 % 2 ^ 64 = (n / 2 ^ 32 % 2 ^ 32) <<< 32 := by
    rw [Nat.shiftLeft_eq, Nat.shiftLeft_eq]
    omega
  have hlow : n % 2 ^ 32 % 2 ^ 64 = n % 2 ^ 32 := by omega
  rw [hshift, hlow, ← Nat.shiftLeft_add_eq_or_of_lt (Nat.mod_lt _ (by decide)), Nat.shiftLeft_eq]
  omega

/-- The timer at the end of a pass. -/
def MTimer.pass (t : MTimer) (p : Pass) : MTimer := ((t.tick p.hi).tick p.lo).tick p.tmp

@[simp] theorem MTimer.mtime_pass (t : MTimer) (p : Pass) :
    (t.pass p).mtime = t.mtime + p.hi + p.lo + p.tmp := rfl

/-- In a short pass the high words agree only when there is no carry between them. -/
theorem readHi_eq_iff {p : Pass} (hp : p.Short) (t : MTimer) :
    (t.tick p.hi).readHi = (t.pass p).readHi ↔ p.Steady t.mtime := by
  unfold Pass.Short at hp
  unfold MTimer.readHi Pass.Steady
  simp only [MTimer.mtime_tick, MTimer.mtime_pass, ← BitVec.toNat_inj, BitVec.toNat_ofNat]
  constructor
  · intro h
    omega
  · intro h
    rw [h]

section Passes

variable {ticks : Nat → Pass} {t : MTimer} (hshort : (ticks 0).Short) (passes : Nat)

include hshort

/-- A pass without a carry returns the timer at the instant of the low word. -/
theorem timerValue_steady (h : (ticks 0).Steady t.mtime) :
    timerValue (passes + 1) ticks t =
      some (.ofNat 64 (t.mtime + (ticks 0).hi + (ticks 0).lo), t.pass (ticks 0)) := by
  have hhi := (readHi_eq_iff hshort t).mpr h
  have hword : (t.mtime + (ticks 0).hi + (ticks 0).lo) / 2 ^ 32 =
      (t.mtime + (ticks 0).hi) / 2 ^ 32 := by
    unfold Pass.Steady at h
    omega
  have hvalue : (t.tick (ticks 0).hi).readHi.setWidth 64 <<< 32 |||
      ((t.tick (ticks 0).hi).tick (ticks 0).lo).readLo.setWidth 64 =
      .ofNat 64 (t.mtime + (ticks 0).hi + (ticks 0).lo) := words_value hword
  unfold timerValue
  dsimp only
  rw [hvalue]
  exact if_neg (not_not_intro hhi)

/-- A pass with a carry is followed by another one. -/
theorem timerValue_carry (h : ¬ (ticks 0).Steady t.mtime) :
    timerValue (passes + 1) ticks t =
      timerValue passes (fun k => ticks (k + 1)) (t.pass (ticks 0)) := by
  rw [timerValue]
  exact if_pos fun hhi => h ((readHi_eq_iff hshort t).mp hhi)

end Passes

/-! ## One read -/

section Read

variable {ticks : Nat → Pass} {t : MTimer} (hshort : ∀ k, (ticks k).Short)

include hshort

/-- **The instant of a read.** What it returns is the timer at an instant between its call and its
return, whatever carries and retries there are. -/
theorem timerValue_instant {passes : Nat} {v : BitVec 64} {t' : MTimer}
    (h : timerValue passes ticks t = some (v, t')) :
    ∃ n, t.mtime ≤ n ∧ n ≤ t'.mtime ∧ v = .ofNat 64 n := by
  induction passes generalizing ticks t with
  | zero => cases h
  | succ passes ih =>
    by_cases hsteady : (ticks 0).Steady t.mtime
    · rw [timerValue_steady (hshort 0) passes hsteady] at h
      cases h
      refine ⟨t.mtime + (ticks 0).hi + (ticks 0).lo, ?_, ?_, rfl⟩
      · omega
      · rw [MTimer.mtime_pass]
        omega
    · rw [timerValue_carry (hshort 0) passes hsteady] at h
      obtain ⟨n, hcall, hret, hv⟩ := ih (fun k => hshort (k + 1)) h
      rw [MTimer.mtime_pass] at hcall
      exact ⟨n, by omega, hret, hv⟩

/-- The passes that a read needs. -/
theorem timerValue_isSome (passes : Nat) : (timerValue passes ticks t).isSome = true ↔
    ∃ k, k < passes ∧ (ticks k).Steady (passStart ticks t.mtime k) := by
  induction passes generalizing ticks t with
  | zero => simp [timerValue]
  | succ passes ih =>
    by_cases hsteady : (ticks 0).Steady t.mtime
    · rw [timerValue_steady (hshort 0) passes hsteady]
      constructor
      · intro _
        exact ⟨0, Nat.succ_pos _, hsteady⟩
      · intro _
        rfl
    · rw [timerValue_carry (hshort 0) passes hsteady, ih fun k => hshort (k + 1)]
      constructor
      · rintro ⟨k, hk, h⟩
        exact ⟨k + 1, Nat.succ_lt_succ hk, h⟩
      · rintro ⟨k, hk, h⟩
        cases k with
        | zero => exact absurd h hsteady
        | succ k => exact ⟨k, Nat.lt_of_succ_lt_succ hk, h⟩

/-- **A read returns** exactly when one of its passes has no carry between the two high words. -/
theorem timerValue_returns : (∃ passes, (timerValue passes ticks t).isSome = true) ↔
    ∃ k, (ticks k).Steady (passStart ticks t.mtime k) := by
  simp only [timerValue_isSome hshort]
  constructor
  · rintro ⟨_, k, _, h⟩
    exact ⟨k, h⟩
  · rintro ⟨k, h⟩
    exact ⟨k + 1, k, Nat.lt_succ_self k, h⟩

/-- There is one carry at most in two passes that take less than the time from carry to carry. -/
theorem timerValue_second (hfast : (ticks 0).lo + (ticks 0).tmp + (ticks 1).hi + (ticks 1).lo +
    (ticks 1).tmp < 2 ^ 32) : (timerValue 2 ticks t).isSome = true := by
  rw [timerValue_isSome hshort]
  by_cases hsteady : (ticks 0).Steady t.mtime
  · exact ⟨0, by decide, hsteady⟩
  · refine ⟨1, by decide, ?_⟩
    simp only [Pass.Steady, passStart] at hsteady ⊢
    omega

end Read

/-! ## Reads one after another -/

/-- The values of two instants, where the 64-bit timer does not wrap between them. -/
theorem ofNat_le_ofNat {m n : Nat} (hle : m ≤ n) (hturn : m / 2 ^ 64 = n / 2 ^ 64) :
    BitVec.ofNat 64 m ≤ BitVec.ofNat 64 n := by
  rw [BitVec.le_def, BitVec.toNat_ofNat, BitVec.toNat_ofNat]
  omega

/-- What two readings say about their instants. -/
theorem Reading.Shows.le {a b : Reading} {m n : Nat} (ha : a.Shows m) (hb : b.Shows n)
    (hle : m ≤ n) (hturn : a.call / 2 ^ 64 = b.ret / 2 ^ 64) : a.value ≤ b.value := by
  obtain ⟨hcall, _, hm⟩ := ha
  obtain ⟨_, hret, hn⟩ := hb
  rw [hm, hn]
  exact ofNat_le_ofNat hle (by omega)

/-- The first of the calls, and the others from its return on. -/
theorem reads_cons {c : Call} {cs : List Call} {t : MTimer} {rs : List Reading}
    (h : reads (c :: cs) t = some rs) :
    ∃ v t' rs', timerValue c.passes c.ticks (t.tick c.idle) = some (v, t') ∧
      reads cs t' = some rs' ∧ rs = ⟨t.mtime + c.idle, v, t'.mtime⟩ :: rs' := by
  unfold reads at h
  cases hv : timerValue c.passes c.ticks (t.tick c.idle) with
  | none =>
    rw [hv] at h
    cases h
  | some r =>
    rw [hv] at h
    obtain ⟨rs', hrs', rfl⟩ := Option.map_eq_some_iff.mp h
    exact ⟨r.1, r.2, rs', rfl, hrs', rfl⟩

/-- Each reading has its instant, and the instants are in the order of the reads. -/
theorem reads_instants {cs : List Call} (hshort : ∀ c ∈ cs, ∀ k, (c.ticks k).Short) {t : MTimer}
    {rs : List Reading} (h : reads cs t = some rs) :
    ∃ ns, List.Forall₂ Reading.Shows rs ns ∧ (∀ n ∈ ns, t.mtime ≤ n) ∧ ns.Pairwise (· ≤ ·) := by
  induction cs generalizing t rs with
  | nil =>
    cases h
    exact ⟨[], List.Forall₂.nil, fun n hn => absurd hn List.not_mem_nil, List.Pairwise.nil⟩
  | cons c cs ih =>
    obtain ⟨v, t', rs', hv, hrs', rfl⟩ := reads_cons h
    obtain ⟨n, hcall, hret, hn⟩ := timerValue_instant (hshort c List.mem_cons_self) hv
    obtain ⟨ns, hshows, hlater, hsorted⟩ := ih (fun c hc => hshort c (List.mem_cons_of_mem _ hc))
      hrs'
    rw [MTimer.mtime_tick] at hcall
    refine ⟨n :: ns, List.Forall₂.cons ⟨hcall, hret, hn⟩ hshows, ?_, ?_⟩
    · intro m hm
      rcases List.mem_cons.mp hm with rfl | hm
      · omega
      · have := hlater m hm
        omega
    · exact List.Pairwise.cons (fun m hm => Nat.le_trans hret (hlater m hm)) hsorted

/-- **Reads of the timer.** Each of any number of reads returns the 64-bit timer at an instant
between its call and its return, whatever carries and retries there are, and the instants are in the
order of the reads: no read is below an earlier one, where the timer does not wrap from `2 ^ 64 - 1`
to 0 between the call of the one and the return of the other. -/
theorem timer_reads (cs : List Call) (t : MTimer) (hshort : ∀ c ∈ cs, ∀ k, (c.ticks k).Short)
    {rs : List Reading} (h : reads cs t = some rs) :
    (∃ ns, List.Forall₂ Reading.Shows rs ns ∧ ns.Pairwise (· ≤ ·)) ∧
      rs.Pairwise fun a b => a.call / 2 ^ 64 = b.ret / 2 ^ 64 → a.value ≤ b.value := by
  obtain ⟨ns, hshows, _, hsorted⟩ := reads_instants hshort h
  constructor
  · exact ⟨ns, hshows, hsorted⟩
  · rw [List.pairwise_iff_getElem] at hsorted ⊢
    intro i j hi hj hij
    have hlen := hshows.length_eq
    have ha := hshows.get hi (hlen ▸ hi)
    have hb := hshows.get hj (hlen ▸ hj)
    exact ha.le hb (hsorted i j _ _ hij)

/-- Two reads, one tick before a carry and behind it; the first one needs a second pass. -/
theorem timer_reads_carry : ∃ rs,
    reads [⟨0, fun _ => ⟨0, 1, 1⟩, 2⟩, ⟨5, fun _ => ⟨1, 1, 1⟩, 1⟩] ⟨2 ^ 32 - 1, 0, 0, false⟩ =
      some rs ∧
    rs.map (·.value) = [4294967298, 4294967306] ∧
    (∃ ns, List.Forall₂ Reading.Shows rs ns ∧ ns.Pairwise (· ≤ ·)) ∧
    rs.Pairwise fun a b => a.call / 2 ^ 64 = b.ret / 2 ^ 64 → a.value ≤ b.value := by
  have hreads : reads [⟨0, fun _ => ⟨0, 1, 1⟩, 2⟩, ⟨5, fun _ => ⟨1, 1, 1⟩, 1⟩]
      ⟨2 ^ 32 - 1, 0, 0, false⟩ =
        some [⟨4294967295, 4294967298, 4294967299⟩, ⟨4294967304, 4294967306, 4294967307⟩] := by
    decide
  exact ⟨_, hreads, by simp, timer_reads _ _ (by simp [Pass.Short]) hreads⟩

/-- A read at the last value of the 64-bit timer, and one after the next tick. -/
theorem timer_reads_wrap :
    ∃ cs t rs, (∀ c ∈ cs, ∀ k, (c.ticks k).Short) ∧ t.mtime < 2 ^ 64 ∧ reads cs t = some rs ∧
      ¬ rs.Pairwise fun a b => a.value ≤ b.value := by
  refine ⟨[⟨0, fun _ => ⟨0, 0, 0⟩, 1⟩, ⟨1, fun _ => ⟨0, 0, 0⟩, 1⟩], ⟨2 ^ 64 - 1, 0, 0, false⟩,
    [⟨2 ^ 64 - 1, BitVec.ofNat 64 (2 ^ 64 - 1), 2 ^ 64 - 1⟩, ⟨2 ^ 64, 0, 2 ^ 64⟩], ?_, ?_, ?_, ?_⟩
  · simp [Pass.Short]
  · decide
  · decide
  · decide

end Esp32S31.Timer
