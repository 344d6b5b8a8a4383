import Mathlib.Algebra.GroupWithZero.Nat

/-!
# Strings behind their lengths

A list of byte strings as one string, each behind a byte with its length, and the way back.
-/

namespace Esp32S31.Lib.Counted

/-- The strings, each behind its length. -/
def encode : List (List UInt8) → List UInt8
  | [] => []
  | s :: ss => .ofNat s.length :: s ++ encode ss

/-- At most `n` strings; `none` where the last one ends behind the data, or data is left. -/
def decodeFrom : Nat → List UInt8 → Option (List (List UInt8))
  | _, [] => some []
  | 0, _ :: _ => none
  | n + 1, l :: d =>
    if l.toNat ≤ d.length then (decodeFrom n (d.drop l.toNat)).map (d.take l.toNat :: ·) else none

/-- The strings that the data consists of. -/
def decode (d : List UInt8) : Option (List (List UInt8)) := decodeFrom d.length d

variable {ss : List (List UInt8)}

theorem length_encode_cons (s : List UInt8) (ss : List (List UInt8)) :
    (encode (s :: ss)).length = 1 + s.length + (encode ss).length := by
  simp only [encode, List.length_append, List.length_cons]
  omega

theorem length_encode (ss : List (List UInt8)) :
    (encode ss).length = (ss.map fun s => 1 + s.length).sum := by
  induction ss with
  | nil => rfl
  | cons s ss ih => rw [length_encode_cons, ih, List.map_cons, List.sum_cons]

/-- Each string takes a byte at least. -/
theorem length_le_encode : ss.length ≤ (encode ss).length := by
  induction ss with
  | nil => exact Nat.le_refl _
  | cons s ss ih =>
    rw [length_encode_cons, List.length_cons]
    omega

theorem decodeFrom_encode (h : ∀ s ∈ ss, s.length < 256) {n : Nat} (hn : ss.length ≤ n) :
    decodeFrom n (encode ss) = some ss := by
  induction ss generalizing n with
  | nil => cases n <;> rfl
  | cons s ss ih =>
    obtain ⟨n, rfl⟩ : ∃ m, n = m + 1 := ⟨n - 1, by rw [List.length_cons] at hn; omega⟩
    have hs : (UInt8.ofNat s.length).toNat = s.length := by
      rw [UInt8.toNat_ofNat']
      exact Nat.mod_eq_of_lt (h s List.mem_cons_self)
    have hss := ih (fun t ht => h t (List.mem_cons_of_mem s ht)) (Nat.le_of_succ_le_succ hn)
    simp [encode, decodeFrom, hs, hss]

/-- **The way back.** -/
theorem decode_encode (h : ∀ s ∈ ss, s.length < 256) : decode (encode ss) = some ss :=
  decodeFrom_encode h length_le_encode

end Esp32S31.Lib.Counted
