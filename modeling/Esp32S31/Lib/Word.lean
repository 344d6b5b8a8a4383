import Mathlib.Algebra.GroupWithZero.Nat
import Mathlib.Logic.Basic

/-!
# 32-bit words

The words of the hardware and of the C sources are `BitVec 32`, so that every sum and difference
wraps as theirs does. A free-running counter is `BitVec.ofNat 32 n` for an unbounded `n`; the
difference of two counters is the true distance while that is below `2 ^ 32` (`toNat_ofNat_sub`).
-/

namespace Esp32S31.Lib

/-- `u32`. -/
abbrev U32 := BitVec 32

namespace U32

/-- The distance of two counters, wrapped or not. -/
theorem toNat_ofNat_sub {h t : Nat} (hle : t ≤ h) (hlt : h - t < 2 ^ 32) :
    (BitVec.ofNat 32 h - BitVec.ofNat 32 t).toNat = h - t := by
  rw [BitVec.toNat_sub, BitVec.toNat_ofNat, BitVec.toNat_ofNat]
  omega

/-- `x & (size - 1)` for a power of two is the remainder. -/
theorem toNat_and_mask {x size : U32} {k : Nat} (hk : size.toNat = 2 ^ k) :
    (x &&& (size - 1)).toNat = x.toNat % size.toNat := by
  have hpos : 0 < 2 ^ k := Nat.two_pow_pos k
  have h1 : (size - 1).toNat = 2 ^ k - 1 := by
    have hlt := size.isLt
    rw [BitVec.toNat_sub, hk]
    simp only [BitVec.ofNat_eq_ofNat, BitVec.toNat_ofNat]
    omega
  rw [BitVec.toNat_and, h1, hk, Nat.and_two_pow_sub_one_eq_mod]

/-- The bits of `1 << k`. -/
theorem getLsbD_one_shiftLeft (k : Nat) {i : Nat} (hi : i < 32) : (1#32 <<< k).getLsbD i = decide
    (i = k) := by
  rw [BitVec.getLsbD_shiftLeft, BitVec.getLsbD_one, decide_eq_true hi, Bool.true_and]
  by_cases h : i < k
  · simp [h, show i ≠ k by omega]
  · by_cases he : i = k
    · simp [he]
    · simp [he, show i - k ≠ 0 by omega]

theorem getLsbD_low (k i : Nat) (hi : i < 32) : (BitVec.ofNat 32 (2 ^ k - 1)).getLsbD i = decide
    (i < k) := by
  rw [BitVec.getLsbD_ofNat, Nat.testBit_two_pow_sub_one, decide_eq_true hi, Bool.true_and]

/-- `x & ~(size - 1)` for a power of two drops the low bits. -/
theorem toNat_and_not_low (k : Nat) (x : U32) :
    (x &&& ~~~BitVec.ofNat 32 (2 ^ k - 1)).toNat = x.toNat / 2 ^ k * 2 ^ k := by
  have h : x &&& ~~~BitVec.ofNat 32 (2 ^ k - 1) = (x >>> k) <<< k := by
    apply BitVec.eq_of_getLsbD_eq
    intro i hi
    rw [BitVec.getLsbD_and, BitVec.getLsbD_not, getLsbD_low k i hi, BitVec.getLsbD_shiftLeft,
      BitVec.getLsbD_ushiftRight]
    by_cases hk : i < k
    · simp [hk]
    · simp [hk, hi, show k + (i - k) = i by omega]
  have hle : x.toNat / 2 ^ k * 2 ^ k < 2 ^ 32 := Nat.lt_of_le_of_lt (Nat.div_mul_le_self _ _) x.isLt
  rw [h, BitVec.toNat_shiftLeft, BitVec.toNat_ushiftRight, Nat.shiftRight_eq_div_pow,
    Nat.shiftLeft_eq, Nat.mod_eq_of_lt hle]

/-- `x & ~3` drops the two low bits. -/
theorem toNat_and_not_three (x : U32) : (x &&& ~~~3#32).toNat = x.toNat / 4 * 4 :=
    toNat_and_not_low 2 x

/-! ## Words as bytes, low byte first -/

/-- The four bytes of a word in memory. -/
def toBytes (x : U32) : List UInt8 :=
  [.ofNat x.toNat, .ofNat (x.toNat / 2 ^ 8), .ofNat (x.toNat / 2 ^ 16), .ofNat (x.toNat / 2 ^ 24)]

/-- The word that bytes in memory are. -/
def ofBytes (bs : List UInt8) : U32 :=
  .ofNat 32 (bs.foldr (fun b acc => b.toNat + 2 ^ 8 * acc) 0)

@[simp] theorem length_toBytes (x : U32) : (toBytes x).length = 4 := rfl

@[simp] theorem ofBytes_toBytes (x : U32) : ofBytes (toBytes x) = x := by
  have := x.isLt
  apply BitVec.eq_of_toNat_eq
  simp only [ofBytes, toBytes, List.foldr_cons, List.foldr_nil, UInt8.toNat_ofNat',
    BitVec.toNat_ofNat]
  omega

end U32

end Esp32S31.Lib
