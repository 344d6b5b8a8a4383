import Mathlib.Logic.Basic
import Mathlib.Data.List.TakeDrop

/-!
# Checked accesses to an array

A load or a store of several bytes, `none` where it leaves the array. A function that is written
with them and never ends in `none` has no access outside its arrays.
-/

namespace Esp32S31.Lib.Slice

variable {α : Type}

/-- An array of `n` elements. -/
abbrev Arr (α : Type) (n : Nat) : Type := { l : List α // l.length = n }

/-- The `n` elements from `i` on. -/
def slice? (a : List α) (i n : Nat) : Option (List α) :=
  if i + n ≤ a.length then some ((a.drop i).take n) else none

/-- `memcpy(a + i, d, d.length)`. -/
def store? {n : Nat} (a : Arr α n) (i : Nat) (d : List α) : Option (Arr α n) :=
  if h : i + d.length ≤ n then
    some ⟨a.1.take i ++ d ++ a.1.drop (i + d.length), by
      have := a.2
      simp only [List.length_append, List.length_take, List.length_drop]
      omega⟩
  else none

theorem slice?_of_le {a : List α} {i n : Nat} (h : i + n ≤ a.length) :
    slice? a i n = some ((a.drop i).take n) := if_pos h

theorem slice?_length {a d : List α} {i n : Nat} (h : slice? a i n = some d) : d.length = n := by
  unfold slice? at h
  split at h
  · next hn =>
    cases h
    rw [List.length_take, List.length_drop]
    omega
  · cases h

/-- A store at the start. -/
theorem store?_zero {n : Nat} {a : Arr α n} {d : List α} (h : d.length ≤ n) :
    ∃ a', store? a 0 d = some a' ∧ a'.1 = d ++ a.1.drop d.length := by
  refine ⟨_, dif_pos (by omega), ?_⟩
  exact congrArg (fun k => d ++ a.1.drop k) (Nat.zero_add d.length)

/-- A store behind the `i` elements `p`. -/
theorem store?_append {n i : Nat} {a : Arr α n} {p x d : List α} (ha : a.1 = p ++ x)
    (hp : p.length = i) (h : i + d.length ≤ n) :
    ∃ a', store? a i d = some a' ∧ a'.1 = p ++ d ++ x.drop d.length := by
  subst hp
  refine ⟨_, dif_pos h, ?_⟩
  simp only [ha, List.take_left, List.drop_append, Nat.add_sub_cancel_left,
    List.drop_eq_nil_of_le (Nat.le_add_right p.length d.length), List.nil_append]

/-- The first elements. -/
theorem slice?_left (p x : List α) : slice? (p ++ x) 0 p.length = some p := by
  rw [slice?_of_le (by rw [List.length_append]; omega), List.drop_zero, List.take_left]

/-- A string and the element that ends it, where both fit. -/
theorem store?_terminated {n : Nat} {a : Arr α n} {s : List α} (h : s.length < n) (e : α) :
    ∃ a', store? a 0 (s ++ [e]) = some a' ∧ ∃ x, a'.1 = s ++ e :: x := by
  obtain ⟨a', hstore, ha⟩ := store?_zero (a := a) (d := s ++ [e])
    (by rw [List.length_append, List.length_singleton]; omega)
  refine ⟨a', hstore, a.1.drop (s ++ [e]).length, ?_⟩
  rw [ha, List.append_assoc]
  rfl

end Esp32S31.Lib.Slice
