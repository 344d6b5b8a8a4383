import Mathlib.Algebra.Order.Floor.Div
import Esp32S31.Lib.Word

/-!
# Divisions of words that round

`DIV_ROUND_UP` and `DIV_ROUND_CLOSEST` add to the dividend before they divide, and the sum of two
words wraps. While it does not, the first is the ceiling division of Mathlib and the second a
nearest quotient (`Nearest`); once it does, what they divide is the small rest of the sum.
-/

namespace Esp32S31.Lib

/-- `DIV_ROUND_UP`. -/
def divRoundUp (n d : U32) : U32 := (n + d - 1) / d

/-- `DIV_ROUND_CLOSEST`. -/
def divRoundClosest (n d : U32) : U32 := (n + d / 2) / d

/-- `q` is a nearest quotient: twice the rest is at most the divisor, on either side. -/
def Nearest (n d q : Nat) : Prop := 2 * n ≤ (2 * q + 1) * d ∧ 2 * (q * d) ≤ 2 * n + d

theorem toNat_divRoundUp_lt {n d : U32} (h : n.toNat + d.toNat ≤ 2 ^ 32) (hd : 0 < d.toNat) :
    (divRoundUp n d).toNat = n.toNat ⌈/⌉ d.toNat := by
  have hn := n.isLt
  unfold divRoundUp
  rw [BitVec.toNat_udiv, Nat.ceilDiv_eq_add_pred_div, BitVec.toNat_sub, BitVec.toNat_add]
  congr 1
  simp only [BitVec.ofNat_eq_ofNat, BitVec.toNat_ofNat]
  omega

/-- Behind the wrap, the sum is smaller than the divisor. -/
theorem toNat_divRoundUp_wrap {n d : U32} (h : 2 ^ 32 < n.toNat + d.toNat) :
    (divRoundUp n d).toNat = 0 := by
  have hn := n.isLt
  have hd := d.isLt
  unfold divRoundUp
  rw [BitVec.toNat_udiv, BitVec.toNat_sub, BitVec.toNat_add]
  simp only [BitVec.ofNat_eq_ofNat, BitVec.toNat_ofNat]
  exact Nat.div_eq_of_lt (by omega)

theorem toNat_half (d : U32) : (d / 2).toNat = d.toNat / 2 := by
  rw [BitVec.toNat_udiv]
  rfl

theorem toNat_divRoundClosest_lt {n d : U32} (h : n.toNat + d.toNat / 2 < 2 ^ 32) :
    (divRoundClosest n d).toNat = (n.toNat + d.toNat / 2) / d.toNat := by
  unfold divRoundClosest
  rw [BitVec.toNat_udiv, BitVec.toNat_add, toNat_half, Nat.mod_eq_of_lt h]

theorem toNat_divRoundClosest_wrap {n d : U32} (h : 2 ^ 32 ≤ n.toNat + d.toNat / 2) :
    (divRoundClosest n d).toNat = 0 := by
  have hn := n.isLt
  unfold divRoundClosest
  rw [BitVec.toNat_udiv, BitVec.toNat_add, toNat_half]
  exact Nat.div_eq_of_lt (by omega)

/-- Half a divisor more, and the rounding down is to the nearest. -/
theorem nearest_div {n d : Nat} (hd : 0 < d) : Nearest n d ((n + d / 2) / d) := by
  have hle := Nat.div_mul_le_self (n + d / 2) d
  have hlt : n + d / 2 < ((n + d / 2) / d + 1) * d := Nat.lt_mul_of_div_lt (Nat.lt_succ_self _) hd
  unfold Nearest
  rw [Nat.add_mul] at hlt ⊢
  rw [Nat.mul_assoc]
  omega

end Esp32S31.Lib
