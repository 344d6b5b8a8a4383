import Esp32S31.Shm.Ring

/-!
# Records in a ring

A frame `f` at position `p` is the block `record f` there: the frame length as four bytes, then the
frame; it takes `width f` positions, a multiple of 4. This file says what the two copies of
`Ring.lean` do in these terms (`ringCopyIn_eq`, `ringCopyOut_eq`) and that the byte stores of a push
put the record at the head (`PushReq.Carries`).
-/

namespace Esp32S31.Shm

open Esp32S31.Lib Circular

/-- The bytes of a record, without its padding. -/
def record (f : List UInt8) : List UInt8 := U32.toBytes (.ofNat 32 f.length) ++ f

/-- The positions that a record takes. -/
def width (f : List UInt8) : Nat := 4 + (f.length + 3) / 4 * 4

@[simp] theorem length_record (f : List UInt8) : (record f).length = 4 + f.length := by
  simp [record]

theorem length_record_le (f : List UInt8) : (record f).length ≤ width f := by
  rw [length_record, width]
  omega

/-! ## The ring size -/

namespace ShmRing

variable (r : ShmRing)

/-- The number of cells of the data area. -/
abbrev area (r : ShmRing) : Nat := r.size.toNat

theorem area_dvd : r.area ∣ 2 ^ 32 := by
  obtain ⟨k, hk, h⟩ := r.pow2
  rw [area, h]
  exact Nat.pow_dvd_pow 2 (by omega)

theorem area_pos : 0 < r.area := by
  obtain ⟨k, -, h⟩ := r.pow2
  rw [area, h]
  exact Nat.two_pow_pos k

theorem area_lt : r.area < 2 ^ 32 := r.size.isLt

/-- A counter names the cell of its unbounded position. -/
theorem ofNat_mod_area (p : Nat) : (BitVec.ofNat 32 p).toNat % r.area = p % r.area := by
  rw [BitVec.toNat_ofNat, Nat.mod_mod_of_dvd _ r.area_dvd]

theorem toNat_mask (pos : U32) : (pos &&& (r.size - 1)).toNat = pos.toNat % r.area := by
  obtain ⟨k, -, h⟩ := r.pow2
  exact U32.toNat_and_mask h

theorem toNat_firstPart (pos len : U32) :
    (firstPart r pos len).toNat = min len.toNat (r.area - pos.toNat % r.area) := by
  have hm := r.toNat_mask pos
  have hlt := Nat.mod_lt pos.toNat r.area_pos
  have hsub : (r.size - (pos &&& (r.size - 1))).toNat = r.area - pos.toNat % r.area := by
    rw [BitVec.toNat_sub_of_le (by rw [BitVec.le_def, hm]; exact Nat.le_of_lt hlt), hm]
  unfold firstPart
  simp only [BitVec.lt_def, hsub]
  split <;> omega

end ShmRing

/-! ## The copies -/

theorem copyTo_eq {n : Nat} : ∀ (xs : List UInt8) (p : Nat), p % n + xs.length ≤ n →
    copyTo (p % n) xs = blockWrites n p xs
  | [], _, _ => rfl
  | [x], _, _ => rfl
  | x :: y :: xs, p, h => by
    simp only [List.length_cons] at h
    have h1 : (p + 1) % n = p % n + 1 := succ_mod (by omega)
    have ih := copyTo_eq (y :: xs) (p + 1) (by rw [h1]; simp only [List.length_cons]; omega)
    rw [h1] at ih
    rw [copyTo, ih]
    rfl

theorem copyFrom_eq {n : Nat} : ∀ (k p : Nat), p % n + k ≤ n →
    copyFrom (p % n) k = cells n p k
  | 0, _, _ => rfl
  | 1, _, _ => rfl
  | k + 2, p, h => by
    have h1 : (p + 1) % n = p % n + 1 := succ_mod (by omega)
    have ih := copyFrom_eq (k + 1) (p + 1) (by rw [h1]; omega)
    rw [h1] at ih
    rw [copyFrom, ih]
    rfl

/-- The piece after the end of the data area starts at the cell 0. -/
theorem wrap_mod {n p k : Nat} (hn : 0 < n) (h : k = n - p % n) : (p + k) % n = 0 := by
  have := Nat.mod_lt p hn
  rw [Nat.add_mod, h]
  rcases Nat.eq_zero_or_pos (p % n) with h0 | h0
  · simp [h0]
  · rw [Nat.mod_eq_of_lt (show n - p % n < n by omega), show p % n + (n - p % n) = n by omega,
      Nat.mod_self]

/-- **`ring_copy_in` stores a block at its position**, however it wraps. -/
theorem ringCopyIn_eq {r : ShmRing} {pos : U32} {src : List UInt8} (h : src.length ≤ r.area) :
    ringCopyIn r pos src = blockWrites r.area pos.toNat src := by
  have hlt := Nat.mod_lt pos.toNat r.area_pos
  have hlen : (BitVec.ofNat 32 src.length).toNat = src.length := by
    rw [BitVec.toNat_ofNat, Nat.mod_eq_of_lt (Nat.lt_of_le_of_lt h r.area_lt)]
  unfold ringCopyIn
  simp only [r.toNat_mask, r.toNat_firstPart, hlen]
  set k := min src.length (r.area - pos.toNat % r.area) with hk
  have htake : (src.take k).length = k := by rw [List.length_take]; omega
  conv_rhs => rw [← List.take_append_drop k src, blockWrites_append, htake]
  rw [copyTo_eq (src.take k) pos.toNat (by rw [htake]; omega)]
  congr 1
  rcases Nat.lt_or_ge k src.length with hlt' | hge
  · have h0 : (pos.toNat + k) % r.area = 0 := wrap_mod r.area_pos (by omega)
    have hd : (src.drop k).length ≤ r.area := by rw [List.length_drop]; omega
    have := copyTo_eq (src.drop k) (pos.toNat + k) (by rw [h0]; omega)
    rwa [h0] at this
  · rw [List.drop_eq_nil_of_le hge]
    rfl

/-- **`ring_copy_out` loads the cells of its positions.** -/
theorem ringCopyOut_eq {r : ShmRing} {pos len : U32} (h : len.toNat ≤ r.area) :
    ringCopyOut r pos len = cells r.area pos.toNat len.toNat := by
  have hlt := Nat.mod_lt pos.toNat r.area_pos
  have hf := r.toNat_firstPart pos len
  have hsub : (len - firstPart r pos len).toNat = len.toNat - (firstPart r pos len).toNat :=
    BitVec.toNat_sub_of_le (by rw [BitVec.le_def, hf]; exact Nat.min_le_left _ _)
  unfold ringCopyOut
  simp only [r.toNat_mask, hsub, hf]
  set k := min len.toNat (r.area - pos.toNat % r.area) with hk
  rw [copyFrom_eq k pos.toNat (by omega)]
  rw [show len.toNat = k + (len.toNat - k) by omega, cells_append, show k + (len.toNat - k) - k =
    len.toNat - k by omega]
  congr 1
  rcases Nat.lt_or_ge k len.toNat with hlt' | hge
  · have h0 : (pos.toNat + k) % r.area = 0 := wrap_mod r.area_pos (by omega)
    have := copyFrom_eq (n := r.area) (len.toNat - k) (pos.toNat + k) (by rw [h0]; omega)
    rwa [h0] at this
  · rw [show len.toNat - k = 0 by omega]
    rfl

theorem toNat_recordLen {len : U32} (h : len.toNat < 2 ^ 31) :
    (recordLen len).toNat = 4 + (len.toNat + 3) / 4 * 4 := by
  unfold recordLen
  rw [BitVec.toNat_add, U32.toNat_and_not_three, BitVec.toNat_add]
  simp only [BitVec.toNat_ofNat]
  omega

/-- The record length of a frame is its width. -/
theorem toNat_recordLen_ofNat {f : List UInt8} (h : f.length < 2 ^ 31) :
    (recordLen (.ofNat 32 f.length)).toNat = width f := by
  have h1 : (BitVec.ofNat 32 f.length).toNat = f.length := by
    rw [BitVec.toNat_ofNat, Nat.mod_eq_of_lt (by omega)]
  rw [toNat_recordLen (by rw [h1]; exact h), h1, width]

/-! ## The stores of a push -/

/-- The push `q` adds the frame `f` to the ring `r`: its length is the frame's, and its byte stores
put the record at the head. -/
structure PushReq.Carries (q : PushReq) (r : ShmRing) (f : List UInt8) : Prop where
  len : q.len = .ofNat 32 f.length
  window : ∀ h, InWindow r.area h (h + width f) (q.stores (.ofNat 32 h))
  lands : ∀ h m, At r.area (put m (q.stores (.ofNat 32 h))) h (record f)

/-- Stores of the frame behind the length, then of the length, put the record. -/
theorem carries_of_stores {r : ShmRing} {q : PushReq} {f : List UInt8} (hf : width f ≤ r.area)
    (hlen : q.len = .ofNat 32 f.length)
    (hst : ∀ h, q.stores (.ofNat 32 h) = blockWrites r.area (h + 4) f ++
      blockWrites r.area h (U32.toBytes (.ofNat 32 f.length))) : q.Carries r f := by
  have hw : 4 + f.length ≤ width f := by rw [width]; omega
  refine ⟨hlen, fun h => ?_, fun h m => ?_⟩
  · rw [hst h]
    exact ((blockWrites_inWindow f (h + 4)).mono (by omega) (by omega)).append
      ((blockWrites_inWindow _ h).mono (Nat.le_refl _) (by rw [U32.length_toBytes]; omega))
  · rw [hst h, put_append, record, at_append, U32.length_toBytes]
    refine ⟨at_put_blockWrites _ h _ (by rw [U32.length_toBytes]; omega), ?_⟩
    have hwin := blockWrites_inWindow (n := r.area) (U32.toBytes (.ofNat 32 f.length)) h
    rw [U32.length_toBytes] at hwin
    rw [at_put_window hwin (.inr ⟨Nat.le_refl _, by omega⟩)]
    exact at_put_blockWrites f (h + 4) m (by omega)

theorem toNat_add_ofNat_mod {r : ShmRing} (h k : Nat) :
    (BitVec.ofNat 32 h + BitVec.ofNat 32 k).toNat % r.area = (h + k) % r.area := by
  rw [← BitVec.ofNat_add, r.ofNat_mod_area]

theorem espShmPush_carries {f : List UInt8} (hf : width f ≤ toFw.area) :
    (espShmPush f).Carries toFw f := by
  have hw : 4 + f.length ≤ width f := by rw [width]; omega
  refine carries_of_stores hf rfl fun h => ?_
  have h4 : (4 : U32) = BitVec.ofNat 32 4 := rfl
  show ringCopyIn toFw (.ofNat 32 h + 4) f ++ _ = _
  rw [ringCopyIn_eq (by omega), ringCopyIn_eq (by rw [U32.length_toBytes]; omega), h4,
    blockWrites_congr f (toNat_add_ofNat_mod h 4), blockWrites_congr _ (toFw.ofNat_mod_area h)]

theorem ringPush_carries {r : ShmRing} {hdr payload : List UInt8}
    (hf : width (hdr ++ payload) ≤ r.area) : (ringPush r hdr payload).Carries r
      (hdr ++ payload) := by
  have hw : 4 + (hdr ++ payload).length ≤ width (hdr ++ payload) := by rw [width]; omega
  rw [List.length_append] at hw
  have hlen : (ringPush r hdr payload).len = .ofNat 32 (hdr ++ payload).length := by
    rw [List.length_append, BitVec.ofNat_add]
    rfl
  refine carries_of_stores hf hlen fun h => ?_
  have h4 : (4 : U32) = BitVec.ofNat 32 4 := rfl
  show ringCopyIn r (.ofNat 32 h + 4) hdr ++ ringCopyIn r (.ofNat 32 h + 4 + .ofNat 32 hdr.length)
    payload ++ ringCopyIn r (.ofNat 32 h) (U32.toBytes (ringPush r hdr payload).len) = _
  rw [hlen, ringCopyIn_eq (by omega), ringCopyIn_eq (by omega),
    ringCopyIn_eq (by rw [U32.length_toBytes]; omega), blockWrites_append, h4, ← BitVec.ofNat_add,
    ← BitVec.ofNat_add, blockWrites_congr hdr (r.ofNat_mod_area (h + 4)),
    blockWrites_congr payload (r.ofNat_mod_area (h + 4 + hdr.length)),
    blockWrites_congr _ (r.ofNat_mod_area h)]

end Esp32S31.Shm
