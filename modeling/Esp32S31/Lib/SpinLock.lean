import Mathlib.Logic.Basic
import Mathlib.Tactic.ByContra

/-!
# A lock word

Parties take a lock with a test-and-set and set it to 0 again. `Locked` says that the word is set
exactly while a party holds the lock, and that no two parties do. There is one rule for each way a
party can move.
-/

namespace Esp32S31.Lib

/-- The lock word `lock`, with the parties that hold the lock. -/
structure Locked {ι : Type} (lock : Bool) (holds : ι → Prop) : Prop where
  set_iff : lock = true ↔ ∃ i, holds i
  one : ∀ i j, holds i → holds j → i = j

namespace Locked

variable {ι : Type} {lock : Bool} {holds holds' : ι → Prop} {i : ι}

/-- Nobody holds a lock that is 0. -/
theorem free (h : Locked false holds) (i : ι) : ¬ holds i := fun hi => nomatch h.set_iff.mpr ⟨i, hi⟩

theorem held (h : Locked lock holds) (hi : holds i) : lock = true := h.set_iff.mpr ⟨i, hi⟩

theorem none (hno : ∀ i, ¬ holds i) : Locked false holds where
  set_iff := ⟨nofun, fun ⟨i, hi⟩ => absurd hi (hno i)⟩
  one i _ hi := absurd hi (hno i)

theorem congr (h : Locked lock holds) (hh : ∀ j, holds' j ↔ holds j) : Locked lock holds' where
  set_iff := h.set_iff.trans (exists_congr fun j => (hh j).symm)
  one i j hi hj := h.one i j ((hh i).mp hi) ((hh j).mp hj)

/-- A party finds the word 0 and sets it. -/
theorem take (h : Locked false holds) (hi : holds' i) (hh : ∀ j, j ≠ i → (holds' j ↔ holds j)) :
    Locked true holds' := by
  have honly : ∀ j, holds' j → j = i := by
    intro j hj
    by_contra hne
    exact h.free j ((hh j hne).mp hj)
  exact ⟨⟨fun _ => ⟨i, hi⟩, fun _ => rfl⟩, fun j k hj hk => (honly j hj).trans (honly k hk).symm⟩

/-- The holder sets the word to 0. -/
theorem release (h : Locked lock holds) (hi : holds i) (hno : ¬ holds' i)
    (hh : ∀ j, j ≠ i → (holds' j ↔ holds j)) : Locked false holds' := by
  refine .none fun j hj => ?_
  by_cases hji : j = i
  · exact hno (hji ▸ hj)
  · exact hji (h.one j i ((hh j hji).mp hj) hi)

end Locked

end Esp32S31.Lib
