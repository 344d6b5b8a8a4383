import Esp32S31.Lib.Division
import Esp32S31.Lib.Field

/-!
# The baud rate of the UART

`esp32_uart_set_baud` divides the clock in steps of 1/16, and `esp32_uart_set_termios` advertises
the bauds whose divider is in the range of its fields (`esp32_uart.c`). The limits of the range and
the divider are rounded in different ways; for clocks up to 267 MHz they agree.

* **`setTermios_sets_iff`**: an advertised baud is set, with the nearest divider, exactly when it is
  not 0 and no sum of the divisions passes 32 bits (`Exact`). `setTermios_falls_back` is a clock of
  268 MHz.
* `exact_of_clock`: each advertised baud of a clock below that is so.
-/

namespace Esp32S31.Serial

open Esp32S31.Lib

/-! ## The model -/

/-- `UART_CLKDIV`, `UART_CLKDIV_FRAG`. -/
def uartClkdiv : Field := ⟨11, 0, by decide, by decide⟩
def uartClkdivFrag : Field := ⟨23, 20, by decide, by decide⟩

/-- `ESP32_UART_DIV16_MIN`, `ESP32_UART_DIV16_MAX`. -/
def uartDiv16Min : U32 := 16 * 8
def uartDiv16Max : U32 := 16 * uartClkdiv.mask + 15

/-- `esp32_uart_set_baud`: the word of `UART_CLKDIV_SYNC_REG`; `none` is false. -/
def setBaud (uartclk baud : U32) : Option U32 :=
  if baud = 0 then none
  else
    let div16 := divRoundClosest (uartclk * 16) baud
    if div16 < uartDiv16Min || uartDiv16Max < div16 then none
    else some (uartClkdiv.prep (div16 >>> 4) ||| uartClkdivFrag.prep (div16 &&& 15))

/-- The range that `esp32_uart_set_termios` gives to `uart_get_baud_rate`. -/
def baudMin (uartclk : U32) : U32 := divRoundUp (uartclk * 16) uartDiv16Max
def baudMax (uartclk : U32) : U32 := uartclk * 16 / uartDiv16Min

/-- `esp32_uart_set_termios`, from the result of `uart_get_baud_rate` on: the baud and the word of
the divider, if one was written. -/
def setTermios (uartclk baud : U32) : U32 × Option U32 :=
  match setBaud uartclk baud with
  | some w => (baud, some w)
  | none =>
    match setBaud uartclk 115200 with
    | some w => (115200, some w)
    | none => (baud, none)

/-! ## What is to be set -/

/-- The divider of a word, in steps of 1/16. -/
def divider (w : U32) : Nat := 16 * (uartClkdiv.get w).toNat + (uartClkdivFrag.get w).toNat

/-- The baud is set: the fields are together the nearest divider, from 8 to 4095 15/16. -/
structure IsSet (uartclk baud : Nat) (w : U32) : Prop where
  nearest : Nearest (16 * uartclk) baud (divider w)
  least : 16 * 8 ≤ divider w
  most : divider w ≤ 16 * 4095 + 15

/-- `esp32_uart_set_termios` sets the baud, and not another one. -/
def Sets (uartclk baud : U32) : Prop :=
  ∃ w, setBaud uartclk baud = some w ∧ setTermios uartclk baud = (baud, some w) ∧
    IsSet uartclk.toNat baud.toNat w

/-- The sums of the divisions are exact: that of the divider does not wrap, and the baud is not
below the lower limit, as it can be when the sum of this limit has wrapped. -/
def Exact (uartclk baud : Nat) : Prop :=
  0 < baud ∧ 16 * uartclk + baud / 2 < 2 ^ 32 ∧ 16 * uartclk + baud / 2 < 65536 * baud

instance (uartclk baud : Nat) : Decidable (Exact uartclk baud) :=
  inferInstanceAs (Decidable (_ ∧ _ ∧ _))

/-! ## The divider -/

theorem div16_limits : uartDiv16Min.toNat = 128 ∧ uartDiv16Max.toNat = 65535 := by decide

/-- The two fields of a divider in range. -/
theorem divider_prep {x : U32} (hx : x.toNat ≤ 65535) :
    divider (uartClkdiv.prep (x >>> 4) ||| uartClkdivFrag.prep (x &&& 15)) = x.toNat := by
  have hw : uartClkdiv.width = 12 ∧ uartClkdivFrag.width = 4 := ⟨rfl, rfl⟩
  have hint : (x >>> 4).toNat = x.toNat / 16 := by
    rw [BitVec.toNat_ushiftRight, Nat.shiftRight_eq_div_pow]
  have hfrac : (x &&& 15).toNat = x.toNat % 16 := by
    rw [BitVec.toNat_and]
    exact Nat.and_two_pow_sub_one_eq_mod x.toNat 4
  unfold divider
  rw [Field.get_or, Field.get_or,
    uartClkdiv.get_prep_other (g := uartClkdivFrag) (by simp [uartClkdiv, uartClkdivFrag]),
    uartClkdivFrag.get_prep_other (g := uartClkdiv) (by simp [uartClkdiv, uartClkdivFrag]),
    BitVec.or_zero, BitVec.zero_or, Field.toNat_get_prep, Field.toNat_get_prep, hw.1, hw.2, hint,
    hfrac]
  omega

section Clock

variable {uartclk baud : U32} (hclk : 16 * uartclk.toNat < 2 ^ 32)

include hclk

theorem toNat_steps : (uartclk * 16).toNat = 16 * uartclk.toNat := by
  rw [BitVec.toNat_mul]
  simp only [BitVec.ofNat_eq_ofNat, BitVec.toNat_ofNat]
  omega

/-- The upper limit: the divider is 8 or more. -/
theorem le_baudMax_iff : baud ≤ baudMax uartclk ↔ 128 * baud.toNat ≤ 16 * uartclk.toNat := by
  have hle : baud ≤ baudMax uartclk ↔ baud.toNat ≤ (baudMax uartclk).toNat := Iff.rfl
  rw [hle, baudMax, BitVec.toNat_udiv, toNat_steps hclk, div16_limits.1,
    Nat.le_div_iff_mul_le (by decide), Nat.mul_comm]

/-- The lower limit, while its sum does not wrap: the divider is 4095 15/16 or less. -/
theorem baudMin_le_iff (h : 16 * uartclk.toNat + 65535 ≤ 2 ^ 32) :
    baudMin uartclk ≤ baud ↔ 16 * uartclk.toNat ≤ 65535 * baud.toNat := by
  have hle : baudMin uartclk ≤ baud ↔ (baudMin uartclk).toNat ≤ baud.toNat := Iff.rfl
  have hmax := div16_limits.2
  rw [hle, baudMin, toNat_divRoundUp_lt (by rw [toNat_steps hclk, hmax]; exact h)
    (by rw [hmax]; decide), toNat_steps hclk, hmax, ceilDiv_le_iff_le_mul (by decide)]

omit hclk in
/-- What `esp32_uart_set_baud` accepts. -/
theorem setBaud_eq_some (hbaud : 0 < baud.toNat) (w : U32) : setBaud uartclk baud = some w ↔
    (16 * 8 ≤ (divRoundClosest (uartclk * 16) baud).toNat ∧
      (divRoundClosest (uartclk * 16) baud).toNat ≤ 65535) ∧
    uartClkdiv.prep (divRoundClosest (uartclk * 16) baud >>> 4) |||
      uartClkdivFrag.prep (divRoundClosest (uartclk * 16) baud &&& 15) = w := by
  have hne : baud ≠ 0 := by
    rintro rfl
    exact absurd hbaud (by decide)
  have hmin : divRoundClosest (uartclk * 16) baud < uartDiv16Min ↔
      (divRoundClosest (uartclk * 16) baud).toNat < 128 := by
    rw [BitVec.lt_def, div16_limits.1]
  have hmax : uartDiv16Max < divRoundClosest (uartclk * 16) baud ↔
      65535 < (divRoundClosest (uartclk * 16) baud).toNat := by
    rw [BitVec.lt_def, div16_limits.2]
  unfold setBaud
  rw [if_neg hne]
  dsimp only
  split
  · next hout =>
    simp only [Bool.or_eq_true, decide_eq_true_eq, hmin, hmax] at hout
    constructor
    · intro h
      cases h
    · rintro ⟨h, -⟩
      omega
  · next hin =>
    simp only [Bool.or_eq_true, decide_eq_true_eq, hmin, hmax] at hin
    rw [Option.some.injEq]
    constructor
    · intro h
      exact ⟨by omega, h⟩
    · exact And.right

/-- **An advertised baud is set** exactly when the sums of the divisions are exact. -/
theorem setTermios_sets_iff (hmin : baudMin uartclk ≤ baud) (hmax : baud ≤ baudMax uartclk) :
    Sets uartclk baud ↔ Exact uartclk.toNat baud.toNat := by
  have hsteps := toNat_steps hclk
  have hupper := (le_baudMax_iff hclk).mp hmax
  constructor
  · rintro ⟨w, hset, -, -⟩
    have hpos : 0 < baud.toNat := by
      by_contra h0
      have hzero : baud = 0 := BitVec.eq_of_toNat_eq (by simp; omega)
      unfold setBaud at hset
      rw [if_pos hzero] at hset
      cases hset
    obtain ⟨⟨h8, hle⟩, -⟩ := (setBaud_eq_some hpos w).mp hset
    have hsum : 16 * uartclk.toNat + baud.toNat / 2 < 2 ^ 32 := by
      by_contra hwrap
      rw [toNat_divRoundClosest_wrap (by omega)] at h8
      omega
    rw [toNat_divRoundClosest_lt (by omega), hsteps] at hle
    exact ⟨hpos, hsum, (Nat.div_lt_iff_lt_mul hpos).mp (Nat.lt_succ_of_le hle)⟩
  · rintro ⟨hpos, hsum, hlow⟩
    have hdiv : (divRoundClosest (uartclk * 16) baud).toNat =
        (16 * uartclk.toNat + baud.toNat / 2) / baud.toNat := by
      rw [toNat_divRoundClosest_lt (by omega), hsteps]
    have h8 : 16 * 8 ≤ (divRoundClosest (uartclk * 16) baud).toNat := by
      rw [hdiv, Nat.le_div_iff_mul_le hpos]
      omega
    have hle : (divRoundClosest (uartclk * 16) baud).toNat ≤ 65535 := by
      rw [hdiv]
      exact Nat.le_of_lt_succ ((Nat.div_lt_iff_lt_mul hpos).mpr hlow)
    have hset := (setBaud_eq_some hpos _).mpr ⟨⟨h8, hle⟩, rfl⟩
    have hfields := divider_prep hle
    refine ⟨_, hset, ?_, ?_, ?_, ?_⟩
    · unfold setTermios
      rw [hset]
    · rw [hfields, hdiv]
      exact nearest_div hpos
    · rw [hfields]
      exact h8
    · rw [hfields]
      exact hle

/-- With a clock up to 267 MHz, no advertised baud loses its sums. -/
theorem exact_of_clock (hpos : 0 < uartclk.toNat)
    (h : 16 * uartclk.toNat + uartclk.toNat / 16 < 2 ^ 32) (hmin : baudMin uartclk ≤ baud)
    (hmax : baud ≤ baudMax uartclk) : Exact uartclk.toNat baud.toNat := by
  have hupper := (le_baudMax_iff hclk).mp hmax
  have hlower := (baudMin_le_iff hclk (by omega)).mp hmin
  unfold Exact
  omega

end Clock

/-- The console: 115200 baud from 40 MHz. -/
theorem setTermios_sets_115200 : baudMin 40000000 ≤ 115200 ∧ 115200 ≤ baudMax 40000000 ∧
    Sets 40000000 115200 :=
  ⟨by decide, by decide, (setTermios_sets_iff (by decide) (by decide) (by decide)).mpr (by decide)⟩

/-- From 268 MHz, the highest advertised baud is refused, and 115200 is set. -/
theorem setTermios_falls_back : baudMin 268000000 ≤ 33500000 ∧ 33500000 ≤ baudMax 268000000 ∧
    16 * 268000000 < 2 ^ 32 ∧ ¬ Sets 268000000 33500000 ∧
    (setTermios 268000000 33500000).1 = 115200 := by
  refine ⟨by decide, by decide, by decide, ?_, by decide⟩
  have hnone : setBaud 268000000 33500000 = none := by decide
  rintro ⟨w, hset, -, -⟩
  rw [hnone] at hset
  cases hset

end Esp32S31.Serial
