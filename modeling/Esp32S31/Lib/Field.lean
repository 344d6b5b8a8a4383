import Esp32S31.Lib.Word

/-!
# Fields of a register

A register word is a row of bit fields, each a run of bits (`GENMASK(hi, lo)`). `prep` moves a value
to its field, as `FIELD_PREP` does, and `get` takes it out again, as `FIELD_GET` does. A value that
is too large loses its high bits in `prep`, so a value fits exactly when `get` gives it back
(`get_prep_iff`); other fields of the word do not disturb it (`get_or`, `get_prep_other`).
-/

namespace Esp32S31.Lib

/-- The bits `lo` to `hi` of a word. -/
structure Field where
  hi : Nat
  lo : Nat
  le : lo ≤ hi
  lt : hi < 32

namespace Field

variable (f : Field)

/-- The number of bits. -/
def width : Nat := f.hi + 1 - f.lo

/-- `GENMASK(hi, lo)`. -/
def mask : U32 := BitVec.ofNat 32 (2 ^ f.width - 1) <<< f.lo

/-- `FIELD_PREP`. -/
def prep (v : U32) : U32 := (v <<< f.lo) &&& f.mask

/-- `FIELD_GET`. -/
def get (w : U32) : U32 := (w &&& f.mask) >>> f.lo

theorem getLsbD_mask {i : Nat} (hi : i < 32) :
    f.mask.getLsbD i = decide (f.lo ≤ i ∧ i ≤ f.hi) := by
  have hle := f.le
  unfold mask width
  rw [BitVec.getLsbD_shiftLeft, U32.getLsbD_low _ _ (by omega)]
  by_cases h : i < f.lo
  · simp [h, Nat.not_le_of_lt h]
  · have hiff : i - f.lo < f.hi + 1 - f.lo ↔ f.lo ≤ i ∧ i ≤ f.hi := by omega
    simp [h, hi, hiff]

/-- The bits of a field, from 0 on. -/
theorem getLsbD_get (w : U32) (i : Nat) :
    (f.get w).getLsbD i = (w.getLsbD (f.lo + i) && decide (i < f.width)) := by
  have hlt := f.lt
  unfold get width
  rw [BitVec.getLsbD_ushiftRight, BitVec.getLsbD_and]
  by_cases h : f.lo + i < 32
  · rw [f.getLsbD_mask h]
    congr 2
    simp only [eq_iff_iff]
    omega
  · simp [BitVec.getLsbD_of_ge w (f.lo + i) (by omega)]

theorem getLsbD_prep (v : U32) {i : Nat} (hi : i < 32) :
    (f.prep v).getLsbD i = (decide (f.lo ≤ i ∧ i ≤ f.hi) && v.getLsbD (i - f.lo)) := by
  unfold prep
  rw [BitVec.getLsbD_and, BitVec.getLsbD_shiftLeft, f.getLsbD_mask hi]
  by_cases h : f.lo ≤ i ∧ i ≤ f.hi
  · simp [h, hi]
  · simp [h]

theorem toNat_prep_lt (v : U32) : (f.prep v).toNat < 2 ^ (f.hi + 1) := by
  apply Nat.lt_pow_two_of_testBit
  intro i hi
  by_cases h : i < 32
  · have hbit := f.getLsbD_prep v h
    rw [decide_eq_false (by omega), Bool.false_and] at hbit
    exact hbit
  · exact Nat.testBit_lt_two_pow
      (Nat.lt_of_lt_of_le (f.prep v).isLt (Nat.pow_le_pow_right (by decide) (by omega)))

/-- The value of a field. -/
theorem toNat_get (w : U32) : (f.get w).toNat = w.toNat / 2 ^ f.lo % 2 ^ f.width := by
  have hget : f.get w = (w >>> f.lo) &&& BitVec.ofNat 32 (2 ^ f.width - 1) := by
    apply BitVec.eq_of_getLsbD_eq
    intro i hi
    rw [getLsbD_get, BitVec.getLsbD_and, BitVec.getLsbD_ushiftRight, U32.getLsbD_low _ _ hi]
  have hle : 2 ^ f.width ≤ 2 ^ 32 :=
    Nat.pow_le_pow_right (by decide) (by have := f.lt; unfold width; omega)
  have hpos : 0 < 2 ^ f.width := Nat.two_pow_pos _
  have hmask : (BitVec.ofNat 32 (2 ^ f.width - 1)).toNat = 2 ^ f.width - 1 := by
    rw [BitVec.toNat_ofNat]
    exact Nat.mod_eq_of_lt (by omega)
  rw [hget, BitVec.toNat_and, hmask, Nat.and_two_pow_sub_one_eq_mod, BitVec.toNat_ushiftRight,
    Nat.shiftRight_eq_div_pow]

@[simp] theorem get_or (x y : U32) : f.get (x ||| y) = f.get x ||| f.get y := by
  apply BitVec.eq_of_getLsbD_eq
  intro i _
  simp only [getLsbD_get, BitVec.getLsbD_or]
  exact Bool.and_or_distrib_right _ _ _

/-- `FIELD_PREP` keeps the low bits of the value. -/
theorem toNat_get_prep (v : U32) : (f.get (f.prep v)).toNat = v.toNat % 2 ^ f.width := by
  have hle := f.le
  have hlt := f.lt
  have hmod : v.toNat % 2 ^ f.width < 2 ^ 32 := Nat.lt_of_le_of_lt (Nat.mod_le _ _) v.isLt
  have hget : f.get (f.prep v) = BitVec.ofNat 32 (v.toNat % 2 ^ f.width) := by
    apply BitVec.eq_of_getLsbD_eq
    intro i hi
    rw [getLsbD_get, BitVec.getLsbD_ofNat, Nat.testBit_mod_two_pow, decide_eq_true hi,
      Bool.true_and]
    by_cases h : i < f.width
    · have hin : f.lo ≤ f.lo + i ∧ f.lo + i ≤ f.hi := by
        unfold width at h
        omega
      rw [f.getLsbD_prep v (by omega), decide_eq_true hin, Nat.add_sub_cancel_left]
      simp [h, BitVec.getLsbD]
    · simp [h]
  rw [hget, BitVec.toNat_ofNat, Nat.mod_eq_of_lt hmod]

/-- **A value fits** exactly when the field holds it. -/
theorem get_prep_iff (v : U32) : f.get (f.prep v) = v ↔ v.toNat < 2 ^ f.width := by
  rw [← BitVec.toNat_inj, toNat_get_prep]
  constructor
  · intro h
    rw [← h]
    exact Nat.mod_lt _ (Nat.two_pow_pos _)
  · exact Nat.mod_eq_of_lt

/-- A value of one field does not show in another. -/
theorem get_prep_other {g : Field} (h : g.hi < f.lo ∨ f.hi < g.lo) (v : U32) :
    f.get (g.prep v) = 0#32 := by
  have hf := f.lt
  apply BitVec.eq_of_getLsbD_eq
  intro i _
  rw [getLsbD_get, BitVec.getLsbD_zero]
  by_cases hw : i < f.width
  · have hout : ¬ (g.lo ≤ f.lo + i ∧ f.lo + i ≤ g.hi) := by
      unfold width at hw
      omega
    rw [g.getLsbD_prep v (by unfold width at hw; omega), decide_eq_false hout]
    simp
  · simp [hw]

end Field

end Esp32S31.Lib
