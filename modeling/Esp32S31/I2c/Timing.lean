import Mathlib.Data.Nat.Log
import Esp32S31.Lib.Division
import Esp32S31.Lib.Field

/-!
# The timing of the I2C controller

`esp32s31_i2c_set_timing` divides the source clock for the periods of SCL and SDA, and
`esp32s31_i2c_probe` checks the rate before (`i2c-esp32s31.c`). A period is a high and a low half;
of the high half, the rise of SCL is the field WAIT_HIGH, which has seven bits where the others have
nine.

**`setTiming_fits_iff`**: the values fit their fields exactly when the wait is below 128 cycles. The
probe also accepts rates with longer waits, on both sides of 80 kHz; `setTiming_loses_wait` is one.
-/

namespace Esp32S31.I2c

open Esp32S31.Lib

/-! ## The model -/

/-- `I2C_MAX_FAST_MODE_PLUS_FREQ`. -/
def i2cMaxFastModePlusFreq : U32 := 1000000

/-- The checks of `esp32s31_i2c_probe` on the bus frequency and on the rate of the source clock. -/
def probeAccepts (busFreq rate : U32) : Bool :=
  !(busFreq = 0 || i2cMaxFastModePlusFreq < busFreq) &&
    !(rate < busFreq * 8 || busFreq * 1023 < rate)

/-- `order_base_2`. -/
def orderBase2 (n : U32) : U32 :=
  if 1 < n then BitVec.ofNat 32 (Nat.log 2 (n - 1).toNat) + 1 else 0

theorem periodField_lt : 8 < 32 := by decide

theorem toValue_lt : 4 < 32 := by decide

/-- The nine bits of a period. -/
def periodField : Field := ⟨8, 0, by decide, periodField_lt⟩

/-- `I2C_SCL_WAIT_HIGH`. -/
def sclWaitHigh : Field := ⟨15, 9, by decide, by decide⟩

/-- `I2C_TO_VALUE`. -/
def toValue : Field := ⟨4, 0, by decide, toValue_lt⟩

/-- `I2C_TO_EN`. -/
def toEn : Field := ⟨5, 5, by decide, by decide⟩

/-- The timing registers. -/
structure Timing where
  sclLowPeriod : U32
  sclHighPeriod : U32
  sdaHold : U32
  sdaSample : U32
  sclStartHold : U32
  sclRstartSetup : U32
  sclStopHold : U32
  sclStopSetup : U32
  i2cTo : U32
  sclStTimeOut : U32
  sclMainStTimeOut : U32

/-- `esp32s31_i2c_set_timing`, with the rate of the clock. -/
def setTiming (rate busFreq : U32) : Timing :=
  let half := divRoundUp rate (2 * busFreq)
  let wait := if 80000 ≤ busFreq then half / 2 - 2 else half / 4
  let order := orderBase2 (rate / 400)
  { sclLowPeriod := half - 1
    sclHighPeriod := (half - wait) ||| sclWaitHigh.prep wait
    sdaHold := half / 4 - 1
    sdaSample := half / 2 - 1
    sclStartHold := half - 1
    sclRstartSetup := half - 1
    sclStopHold := half - 1
    sclStopSetup := half - 1
    i2cTo := toValue.prep (if order < 31 then order else 31) ||| toEn.prep 1
    sclStTimeOut := 23
    sclMainStTimeOut := 23 }

/-! ## What the values are to be -/

/-- Half a period in source clock cycles, rounded up. -/
def halfCycles (rate busFreq : Nat) : Nat := rate ⌈/⌉ (2 * busFreq)

/-- The rise of SCL in source clock cycles. -/
def waitCycles (rate busFreq : Nat) : Nat :=
  if 80000 ≤ busFreq then halfCycles rate busFreq / 2 - 2 else halfCycles rate busFreq / 4

/-- The word is one period of `n` cycles, which the hardware counts from 0. -/
def IsPeriod (w : U32) (n : Nat) : Prop := w.toNat + 1 = n ∧ w.toNat < 2 ^ periodField.width

/-- The registers hold the timing: no value has lost bits or has gone below 0, the high and the wait
part are half a period, and a period is at least the requested one. -/
structure TimingFits (rate busFreq : Nat) (t : Timing) : Prop where
  low : IsPeriod t.sclLowPeriod (halfCycles rate busFreq)
  high : (periodField.get t.sclHighPeriod).toNat + waitCycles rate busFreq =
    halfCycles rate busFreq
  wait : (sclWaitHigh.get t.sclHighPeriod).toNat = waitCycles rate busFreq
  waitPos : 80000 ≤ busFreq → 2 ≤ halfCycles rate busFreq / 2
  highWord : t.sclHighPeriod.toNat < 2 ^ 16
  sdaHold : IsPeriod t.sdaHold (halfCycles rate busFreq / 4)
  sdaSample : IsPeriod t.sdaSample (halfCycles rate busFreq / 2)
  startHold : IsPeriod t.sclStartHold (halfCycles rate busFreq)
  rstartSetup : IsPeriod t.sclRstartSetup (halfCycles rate busFreq)
  stopHold : IsPeriod t.sclStopHold (halfCycles rate busFreq)
  stopSetup : IsPeriod t.sclStopSetup (halfCycles rate busFreq)
  timeOut : (toValue.get t.i2cTo).toNat = min (Nat.clog 2 (rate / 400)) 31
  timeOutEn : (toEn.get t.i2cTo).toNat = 1
  stTimeOut : t.sclStTimeOut.toNat < 2 ^ 5 ∧ t.sclMainStTimeOut.toNat < 2 ^ 5
  halves : (periodField.get t.sclHighPeriod).toNat + (sclWaitHigh.get t.sclHighPeriod).toNat =
    (periodField.get t.sclLowPeriod).toNat + 1
  period : rate ≤ busFreq * ((periodField.get t.sclLowPeriod).toNat + 1 +
    (periodField.get t.sclHighPeriod).toNat + (sclWaitHigh.get t.sclHighPeriod).toNat)

/-! ## The words of the computation -/

theorem toNat_orderBase2 (n : U32) : (orderBase2 n).toNat = Nat.clog 2 n.toNat := by
  have hn := n.isLt
  unfold orderBase2
  by_cases h : 1 < n
  · have h1 : 1 < n.toNat := h
    have hpred : (n - 1).toNat = n.toNat - 1 := by
      rw [BitVec.toNat_sub]
      simp only [BitVec.ofNat_eq_ofNat, BitVec.toNat_ofNat]
      omega
    have hlog : Nat.log 2 (n.toNat - 1) < 32 := Nat.log_lt_of_lt_pow (by omega) (by omega)
    have hle : ∀ y, Nat.log 2 (n.toNat - 1) + 1 ≤ y ↔ Nat.clog 2 n.toNat ≤ y := by
      intro y
      rw [Nat.clog_le_iff_le_pow (by decide), Nat.succ_le_iff,
        Nat.log_lt_iff_lt_pow (by decide) (by omega)]
      omega
    have heq : Nat.log 2 (n.toNat - 1) + 1 = Nat.clog 2 n.toNat :=
      Nat.le_antisymm ((hle _).mpr (Nat.le_refl _)) ((hle _).mp (Nat.le_refl _))
    rw [if_pos h, hpred, BitVec.toNat_add, ← heq]
    simp only [BitVec.ofNat_eq_ofNat, BitVec.toNat_ofNat]
    omega
  · have h1 : ¬ 1 < n.toNat := h
    rw [if_neg h, Nat.clog_of_right_le_one (by omega)]
    rfl

section Accepted

variable {busFreq rate : U32}

/-- What the checks of the probe say. -/
theorem probeAccepts_iff : probeAccepts busFreq rate = true ↔
    (0 < busFreq.toNat ∧ busFreq.toNat ≤ 1000000) ∧
      8 * busFreq.toNat ≤ rate.toNat ∧ rate.toNat ≤ 1023 * busFreq.toNat := by
  have hb := busFreq.isLt
  have hzero : busFreq = 0 ↔ busFreq.toNat = 0 := by
    rw [← BitVec.toNat_inj]
    rfl
  have hmax : i2cMaxFastModePlusFreq < busFreq ↔ 1000000 < busFreq.toNat := Iff.rfl
  have hlow : rate < busFreq * 8 ↔ rate.toNat < busFreq.toNat * 8 % 2 ^ 32 := by
    rw [BitVec.lt_def, BitVec.toNat_mul]
    rfl
  have hhigh : busFreq * 1023 < rate ↔ busFreq.toNat * 1023 % 2 ^ 32 < rate.toNat := by
    rw [BitVec.lt_def, BitVec.toNat_mul]
    rfl
  unfold probeAccepts
  simp only [Bool.and_eq_true, Bool.not_eq_true', Bool.or_eq_false_iff, decide_eq_false_iff_not,
    hzero, hmax, hlow, hhigh]
  omega

variable (h : probeAccepts busFreq rate = true)

include h

/-- Half a period is 4 to 512 cycles. -/
theorem halfCycles_range : 4 ≤ halfCycles rate.toNat busFreq.toNat ∧
    halfCycles rate.toNat busFreq.toNat ≤ 512 := by
  obtain ⟨⟨hpos, -⟩, hmin, hmax⟩ := probeAccepts_iff.mp h
  have hle : ∀ c, halfCycles rate.toNat busFreq.toNat ≤ c ↔ rate.toNat ≤ 2 * busFreq.toNat * c :=
    fun c => ceilDiv_le_iff_le_mul (by omega)
  constructor
  · by_contra hlt
    have := (hle 3).mp (by omega)
    omega
  · exact (hle 512).mpr (by omega)

/-- The rounded quotient of `esp32s31_i2c_set_timing`. -/
theorem toNat_halfCycles :
    (divRoundUp rate (2 * busFreq)).toNat = halfCycles rate.toNat busFreq.toNat := by
  obtain ⟨⟨hpos, hfreq⟩, -, hmax⟩ := probeAccepts_iff.mp h
  have htwo : (2 * busFreq).toNat = 2 * busFreq.toNat := by
    rw [BitVec.toNat_mul]
    simp only [BitVec.ofNat_eq_ofNat, BitVec.toNat_ofNat]
    omega
  rw [toNat_divRoundUp_lt (by omega) (by omega), htwo]
  rfl

/-- The wait part fits its seven bits. -/
theorem waitCycles_lt_iff : waitCycles rate.toNat busFreq.toNat < 128 ↔
    if 80000 ≤ busFreq.toNat then rate.toNat ≤ 518 * busFreq.toNat
    else rate.toNat ≤ 1022 * busFreq.toNat := by
  obtain ⟨⟨hpos, -⟩, -, -⟩ := probeAccepts_iff.mp h
  have hle : ∀ c, halfCycles rate.toNat busFreq.toNat ≤ c ↔ rate.toNat ≤ 2 * busFreq.toNat * c :=
    fun c => ceilDiv_le_iff_le_mul (by omega)
  unfold waitCycles
  split
  · have := hle 259
    omega
  · have := hle 511
    omega

omit h in
theorem isPeriod_sub_one {x : U32} {n : Nat} (hx : x.toNat = n) (h1 : 1 ≤ n) (h2 : n ≤ 512) :
    IsPeriod (x - 1) n := by
  have hsub : (x - 1).toNat = n - 1 := by
    rw [BitVec.toNat_sub, hx]
    simp only [BitVec.ofNat_eq_ofNat, BitVec.toNat_ofNat]
    omega
  have hw : periodField.width = 9 := rfl
  unfold IsPeriod
  rw [hsub, hw]
  omega

end Accepted

/-- The two fields of SCL_HIGH_PERIOD. -/
theorem get_highPeriod {x : U32} (hx : x.toNat < 512) (w : U32) :
    (periodField.get (x ||| sclWaitHigh.prep w)).toNat = x.toNat ∧
      (sclWaitHigh.get (x ||| sclWaitHigh.prep w)).toNat = w.toNat % 128 ∧
      (x ||| sclWaitHigh.prep w).toNat < 2 ^ 16 := by
  have hpw : periodField.width = 9 ∧ periodField.lo = 0 := ⟨rfl, rfl⟩
  have hsw : sclWaitHigh.width = 7 ∧ sclWaitHigh.lo = 9 := ⟨rfl, rfl⟩
  have hzero : sclWaitHigh.get x = 0#32 := by
    apply BitVec.eq_of_toNat_eq
    rw [Field.toNat_get, hsw.1, hsw.2]
    simp only [BitVec.toNat_ofNat]
    omega
  refine ⟨?_, ?_, ?_⟩
  · rw [Field.get_or, periodField.get_prep_other (by simp [periodField, sclWaitHigh]),
      BitVec.or_zero, Field.toNat_get, hpw.1, hpw.2]
    omega
  · rw [Field.get_or, hzero, BitVec.zero_or, Field.toNat_get_prep]
    simp [hsw.1]
  · rw [BitVec.toNat_or]
    exact Nat.or_lt_two_pow (by omega) (sclWaitHigh.toNat_prep_lt w)


/-- The timeout: 2 to the order of 2.5 ms, as far as the field goes. -/
theorem toNat_order (rate : U32) :
    (if orderBase2 (rate / 400) < 31 then orderBase2 (rate / 400) else 31).toNat =
      min (Nat.clog 2 (rate.toNat / 400)) 31 := by
  have hclog : (orderBase2 (rate / 400)).toNat = Nat.clog 2 (rate.toNat / 400) := by
    rw [toNat_orderBase2, BitVec.toNat_udiv]
    rfl
  have hlt : orderBase2 (rate / 400) < 31 ↔ Nat.clog 2 (rate.toNat / 400) < 31 := by
    rw [← hclog]
    rfl
  by_cases hc : Nat.clog 2 (rate.toNat / 400) < 31
  · rw [if_pos (hlt.mpr hc), hclog]
    omega
  · rw [if_neg (fun hle => hc (hlt.mp hle)), Nat.min_eq_right (by omega)]
    rfl

/-- The two fields of the timeout register. -/
theorem get_i2cTo (x : U32) : (toValue.get (toValue.prep x ||| toEn.prep 1)).toNat = x.toNat % 32 ∧
    (toEn.get (toValue.prep x ||| toEn.prep 1)).toNat = 1 := by
  have hwidth : toValue.width = 5 := rfl
  constructor
  · rw [Field.get_or, toValue.get_prep_other (g := toEn) (by simp [toValue, toEn]), BitVec.or_zero,
      Field.toNat_get_prep]
    simp [hwidth]
  · rw [Field.get_or, toEn.get_prep_other (g := toValue) (by simp [toValue, toEn]), BitVec.zero_or]
    decide

section Result

variable {busFreq rate : U32} (h : probeAccepts busFreq rate = true)

include h

/-- The computation of the wait part does not go below 0. -/
theorem toNat_wait :
    (if 80000 ≤ busFreq then divRoundUp rate (2 * busFreq) / 2 - 2
      else divRoundUp rate (2 * busFreq) / 4).toNat = waitCycles rate.toNat busFreq.toNat := by
  obtain ⟨hmin, hmax⟩ := halfCycles_range h
  have hhalf := toNat_halfCycles h
  have hfreq : 80000 ≤ busFreq ↔ 80000 ≤ busFreq.toNat := Iff.rfl
  unfold waitCycles
  by_cases hf : 80000 ≤ busFreq.toNat
  · rw [if_pos (hfreq.mpr hf), if_pos hf, BitVec.toNat_sub, toNat_half, hhalf]
    simp only [BitVec.ofNat_eq_ofNat, BitVec.toNat_ofNat]
    omega
  · rw [if_neg (fun hle => hf (hfreq.mp hle)), if_neg hf, BitVec.toNat_udiv, hhalf]
    rfl

/-- **The timing fits its fields** exactly when the wait part does: below 80 kHz up to 1022 source
clock cycles per period, from there on up to 518. -/
theorem setTiming_fits_iff :
    TimingFits rate.toNat busFreq.toNat (setTiming rate busFreq) ↔
      if 80000 ≤ busFreq.toNat then rate.toNat ≤ 518 * busFreq.toNat
      else rate.toNat ≤ 1022 * busFreq.toNat := by
  obtain ⟨hmin, hmax⟩ := halfCycles_range h
  obtain ⟨⟨hpos, -⟩, -, -⟩ := probeAccepts_iff.mp h
  have hhalf := toNat_halfCycles h
  have hwait := toNat_wait h
  have hceil : rate.toNat ≤ 2 * busFreq.toNat * halfCycles rate.toNat busFreq.toNat :=
    (ceilDiv_le_iff_le_mul (by omega)).mp (Nat.le_refl _)
  rw [← waitCycles_lt_iff h]
  have hwle : waitCycles rate.toNat busFreq.toNat ≤ halfCycles rate.toNat busFreq.toNat / 2 ∧
      halfCycles rate.toNat busFreq.toNat ≤ waitCycles rate.toNat busFreq.toNat + 384 := by
    unfold waitCycles
    split <;> omega
  generalize hw : (if 80000 ≤ busFreq then divRoundUp rate (2 * busFreq) / 2 - 2
      else divRoundUp rate (2 * busFreq) / 4) = wait at hwait
  generalize hx : divRoundUp rate (2 * busFreq) = half at hhalf hw
  have hhigh : (half - wait).toNat =
      halfCycles rate.toNat busFreq.toNat - waitCycles rate.toNat busFreq.toNat := by
    rw [BitVec.toNat_sub, hhalf, hwait]
    omega
  have hquarter : (half / 4).toNat = halfCycles rate.toNat busFreq.toNat / 4 := by
    rw [BitVec.toNat_udiv, hhalf]
    rfl
  have htwo : (half / 2).toNat = halfCycles rate.toNat busFreq.toNat / 2 := by
    rw [toNat_half, hhalf]
  obtain ⟨hget, hgetWait, hword⟩ := get_highPeriod (x := half - wait) (by omega) wait
  rw [hwait] at hgetWait
  have hlow := isPeriod_sub_one hhalf (by omega) hmax
  have hgetLow : (periodField.get (half - 1)).toNat = (half - 1).toNat := by
    have hpw : periodField.width = 9 ∧ periodField.lo = 0 := ⟨rfl, rfl⟩
    have hlt := hlow.2
    rw [hpw.1] at hlt
    rw [Field.toNat_get, hpw.1, hpw.2]
    omega
  unfold setTiming
  dsimp only
  rw [hx, hw]
  constructor
  · intro hfit
    have hfield := hfit.wait
    dsimp only at hfield
    omega
  · intro hlt
    have hsum := hlow.1
    refine
      { low := hlow
        high := by rw [hget, hhigh]; omega
        wait := by rw [hgetWait]; omega
        waitPos := fun _ => by omega
        highWord := hword
        sdaHold := isPeriod_sub_one hquarter (by omega) (by omega)
        sdaSample := isPeriod_sub_one htwo (by omega) (by omega)
        startHold := hlow
        rstartSetup := hlow
        stopHold := hlow
        stopSetup := hlow
        timeOut := ?_
        timeOutEn := ?_
        stTimeOut := by dsimp only; decide
        halves := by dsimp only; omega
        period := ?_ }
    · rw [(get_i2cTo _).1, toNat_order]
      omega
    · exact (get_i2cTo _).2
    · dsimp only
      have hperiod : (periodField.get (half - 1)).toNat + 1 +
          (periodField.get (half - wait ||| sclWaitHigh.prep wait)).toNat +
          (sclWaitHigh.get (half - wait ||| sclWaitHigh.prep wait)).toNat =
            2 * halfCycles rate.toNat busFreq.toNat := by omega
      rw [hperiod, ← Nat.mul_assoc, Nat.mul_comm busFreq.toNat 2]
      exact hceil

end Result

/-- A 40 MHz crystal and a bus of 100 kHz are accepted, and the timing fits. -/
theorem setTiming_fits_100k : probeAccepts 100000 40000000 = true ∧
    TimingFits 40000000 100000 (setTiming 40000000 100000) := by
  have haccepts : probeAccepts 100000 40000000 = true := by decide
  exact ⟨haccepts, (setTiming_fits_iff haccepts).mpr (by decide)⟩

/-- With a bus of 39119 Hz the same crystal is accepted too: the wait of 128 cycles is lost, and
the period is shorter than the requested one. -/
theorem setTiming_loses_wait : probeAccepts 39119 40000000 = true ∧
    ¬ TimingFits 40000000 39119 (setTiming 40000000 39119) ∧
    waitCycles 40000000 39119 = 128 ∧
    sclWaitHigh.get (setTiming 40000000 39119).sclHighPeriod = 0 := by
  refine ⟨by decide, fun hfit => ?_, by decide, by decide⟩
  have hwait := hfit.wait
  revert hwait
  decide

end Esp32S31.I2c
