import Mathlib.Algebra.GroupWithZero.Nat
import Mathlib.Data.List.Basic
import Esp32S31.Lib.Word

/-!
# The addresses in the eFuses

`esp32s31-efuse.c` gives nvmem the eFuse blocks byte by byte,
    but reads their registers as words. The
factory address of the chip is in the bytes 0x50 to 0x55, the last byte first; the four interfaces
derive their addresses from it (`esp32s31_efuse_mac_pp`).

* `efuseRead_eq_slice`: a read of any bytes is that part of the words, low byte first, whatever the
  alignment.
* **`mac_addresses`**: the four addresses of a chip are all different, the two odd ones are locally
  administered, and none is a group address unless the factory address is one.
-/

namespace Esp32S31.Efuse

open Esp32S31.Lib

/-- Byte `i` of a word. -/
def byteOf (w : U32) (i : Nat) : UInt8 := UInt8.ofNat (w >>> (8 * i)).toNat

/-- `esp32s31_efuse_read`, with the read registers by their offset. -/
def efuseRead (regs : Nat → U32) : Nat → Nat → List UInt8
  | _, 0 => []
  | offset, bytes + 1 =>
    byteOf (regs (offset / 4 * 4)) (offset % 4) :: efuseRead regs (offset + 1) bytes

/-- `ETH_ALEN`. -/
def ethAlen : Nat := 6

/-- The bits of the first byte: a group address, and one that is locally administered. -/
def macGroup : UInt8 := 0x01
def macLocal : UInt8 := 0x02

/-- `esp32s31_efuse_mac_pp`: the address of an interface from the bytes of the cell; `none` is
-EINVAL. -/
def efuseMacPp (index : Int) (data : List UInt8) : Option (List UInt8) :=
  if data.length ≠ ethAlen ∨ index < 0 ∨ index > 3 then none
  else
    let mac := data.reverse
    let mac := mac.modify 5 (· + UInt8.ofNat (index / 2).toNat)
    if index % 2 = 1 then
      some (mac.modify 0 fun universal =>
        if universal ||| 0x02 =
          universal then (universal ||| 0x02) ^^^ 0x04 else universal ||| 0x02)
    else some mac

/-- The words of the registers as bytes. -/
def image (regs : Nat → U32) (words : Nat) : List UInt8 :=
  (List.range words).flatMap fun i => (List.range 4).map (byteOf (regs (4 * i)))

/-! ## Reads -/

theorem efuseRead_length (regs : Nat → U32) (offset bytes : Nat) :
    (efuseRead regs offset bytes).length = bytes := by
  induction bytes generalizing offset with
  | zero => rfl
  | succ bytes ih => rw [efuseRead, List.length_cons, ih]

theorem getElem?_efuseRead (regs : Nat → U32) {offset bytes i : Nat} (h : i < bytes) :
    (efuseRead regs offset bytes)[i]? =
      some (byteOf (regs ((offset + i) / 4 * 4)) ((offset + i) % 4)) := by
  induction bytes generalizing offset i with
  | zero => exact absurd h (Nat.not_lt_zero i)
  | succ bytes ih =>
    cases i with
    | zero => rfl
    | succ i =>
      rw [efuseRead, List.getElem?_cons_succ, ih (Nat.lt_of_succ_lt_succ h),
        Nat.add_right_comm offset 1 i, Nat.add_assoc offset i 1]

theorem image_succ (regs : Nat → U32) (words : Nat) :
    image regs (words + 1) = image regs words ++ (List.range 4).map (byteOf (regs (4 * words))) :=
      by
  simp [image, List.range_succ]

theorem image_length (regs : Nat → U32) (words : Nat) : (image regs words).length = 4 * words := by
  induction words with
  | zero => rfl
  | succ words ih =>
    rw [image_succ, List.length_append, ih, List.length_map, List.length_range]
    omega

theorem getElem?_image (regs : Nat → U32) {words i : Nat} (h : i < 4 * words) :
    (image regs words)[i]? = some (byteOf (regs (i / 4 * 4)) (i % 4)) := by
  induction words with
  | zero => exact absurd h (Nat.not_lt_zero i)
  | succ words ih =>
    rw [image_succ]
    by_cases hi : i < 4 * words
    · rw [List.getElem?_append_left (by rw [image_length]; exact hi)]
      exact ih hi
    · have hdiv : i / 4 = words := by omega
      have hmod : i - 4 * words = i % 4 := by omega
      rw [List.getElem?_append_right (by rw [image_length]; omega), image_length, hmod, hdiv,
        Nat.mul_comm words 4, List.getElem?_map, List.getElem?_range (Nat.mod_lt i (by decide))]
      rfl

/-- **A read is a part of the words**, at any alignment. -/
theorem efuseRead_eq_slice (regs : Nat → U32) {offset bytes words : Nat}
    (h : offset + bytes ≤ 4 * words) :
    efuseRead regs offset bytes = ((image regs words).drop offset).take bytes := by
  refine List.ext_getElem? fun i => ?_
  by_cases hi : i < bytes
  · rw [getElem?_efuseRead regs hi, List.getElem?_take_of_lt hi, List.getElem?_drop,
      getElem?_image regs (by omega)]
  · have hle : bytes ≤ i := Nat.le_of_not_lt hi
    rw [List.getElem?_eq_none (by rw [efuseRead_length]; exact hle),
      List.getElem?_take_eq_none hle]

/-! ## Addresses -/

/-- The address of interface `index`, from the registers. -/
def macAddress (regs : Nat → U32) (index : Int) : Option (List UInt8) :=
  efuseMacPp index (efuseRead regs 0x50 ethAlen)

/-- The first byte of an odd interface. -/
def localByte (b : UInt8) : UInt8 :=
  if b ||| 0x02 = b then (b ||| 0x02) ^^^ 0x04 else b ||| 0x02

theorem localByte_spec (b : UInt8) : localByte b ≠ b ∧ localByte b &&& macLocal = macLocal ∧
    localByte b &&& macGroup = b &&& macGroup := by
  have hall : ∀ n : Fin 256, let b := UInt8.ofNat n.val
      localByte b ≠ b ∧ localByte b &&& macLocal = macLocal ∧
        localByte b &&& macGroup = b &&& macGroup := by decide +kernel
  simpa using hall ⟨b.toNat, b.toNat_lt⟩

theorem add_one_ne (b : UInt8) : b + 1 ≠ b := by simp

/-- The four addresses, from the bytes of the eFuses. -/
theorem efuseMacPp_six (a b c d e f : UInt8) :
    efuseMacPp 0 [a, b, c, d, e, f] = some [f, e, d, c, b, a] ∧
    efuseMacPp 1 [a, b, c, d, e, f] = some [localByte f, e, d, c, b, a] ∧
    efuseMacPp 2 [a, b, c, d, e, f] = some [f, e, d, c, b, a + 1] ∧
    efuseMacPp 3 [a, b, c, d, e, f] = some [localByte f, e, d, c, b, a + 1] := by
  refine ⟨?_, ?_, rfl, rfl⟩
  · simp [efuseMacPp, ethAlen]
  · simp [efuseMacPp, ethAlen, localByte]

/-- **The addresses of a chip are all different**, each odd one is locally administered, and each is
a group address only if the factory address is one. -/
theorem mac_addresses (regs : Nat → U32) : ∃ m : Nat → List UInt8,
    (∀ k : Nat, k < 4 → macAddress regs k = some (m k) ∧ (m k).length = ethAlen ∧
      (m k).getD 0 0 &&& macGroup = byteOf (regs 0x54) 1 &&& macGroup ∧
      (k % 2 = 1 → (m k).getD 0 0 &&& macLocal = macLocal)) ∧
    ∀ j k : Nat, j < 4 → k < 4 → j ≠ k → m j ≠ m k := by
  obtain ⟨h0, h1, h2, h3⟩ := efuseMacPp_six (byteOf (regs 0x50) 0) (byteOf (regs 0x50) 1)
    (byteOf (regs 0x50) 2) (byteOf (regs 0x50) 3) (byteOf (regs 0x54) 0) (byteOf (regs 0x54) 1)
  obtain ⟨hne, hlocal, hgroup⟩ := localByte_spec (byteOf (regs 0x54) 1)
  have hadd := add_one_ne (byteOf (regs 0x50) 0)
  refine ⟨fun k => [if k % 2 = 1 then localByte (byteOf (regs 0x54) 1) else byteOf (regs 0x54) 1,
    byteOf (regs 0x54) 0, byteOf (regs 0x50) 3, byteOf (regs 0x50) 2, byteOf (regs 0x50) 1,
    if 2 ≤ k then byteOf (regs 0x50) 0 + 1 else byteOf (regs 0x50) 0], fun k hk => ?_,
    fun j k hj hk hjk => ?_⟩
  · refine ⟨?_, rfl, ?_, fun hodd => ?_⟩
    · obtain rfl | rfl | rfl | rfl : k = 0 ∨ k = 1 ∨ k = 2 ∨ k = 3 := by omega
      · exact h0
      · exact h1
      · exact h2
      · exact h3
    · simp only [List.getD_cons_zero]
      split
      · exact hgroup
      · rfl
    · simp only [List.getD_cons_zero, if_pos hodd]
      exact hlocal
  · intro heq
    simp only [List.cons.injEq, and_true, true_and] at heq
    obtain ⟨hfirst, hlast⟩ := heq
    -- the parities differ, or the halves do
    by_cases hpar : j % 2 = k % 2
    · by_cases hhalf : 2 ≤ j
      · rw [if_pos hhalf, if_neg (by omega)] at hlast
        exact hadd hlast
      · rw [if_neg hhalf, if_pos (by omega)] at hlast
        exact hadd hlast.symm
    · by_cases hodd : j % 2 = 1
      · rw [if_pos hodd, if_neg (by omega)] at hfirst
        exact hne hfirst
      · rw [if_neg hodd, if_pos (by omega)] at hfirst
        exact hne hfirst.symm

end Esp32S31.Efuse
