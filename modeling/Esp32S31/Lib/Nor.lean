import Mathlib.Algebra.GroupWithZero.Nat

/-!
# What is known of a NOR memory

The cells of a NOR memory are programmed with an AND and erased in ranges, and an operation that
fails leaves anything in its range. `Known` is what a user can know of such a memory from the
operations that it has asked for: the value of a cell, or nothing.

* `Agree`: the memory holds what is known.
* `Agree.program`, `Agree.erase`, `Agree.forget`: how an operation of the memory carries it over.
* `program_append`, `erase_add`: an operation may be carried out in pieces.
-/

namespace Esp32S31.Lib.Nor

variable {α : Type}

/-- What is known of each cell. -/
abbrev Known (α : Type) := Nat → Option α

/-- `o` is one of the `len` cells from `start` on. -/
def Within (start len o : Nat) : Prop := start ≤ o ∧ o < start + len

instance (start len o : Nat) : Decidable (Within start len o) := inferInstanceAs (Decidable (_ ∧ _))

/-- The memory `w` holds what is known. -/
def Agree (k : Known α) (w : Nat → α) : Prop := ∀ o v, k o = some v → w o = v

namespace Known

/-- Nothing is known of the range. -/
def forget (k : Known α) (start len : Nat) : Known α := fun o =>
  if Within start len o then none else k o

/-- The range is erased to `blank`. -/
def erase (k : Known α) (blank : α) (start len : Nat) : Known α := fun o =>
  if Within start len o then some blank else k o

/-- The cells from `dst` on are programmed with `buf`. -/
def program [AndOp α] (k : Known α) (dst : Nat) (buf : List α) : Known α := fun o =>
  if dst ≤ o then
    match buf[o - dst]? with
    | some v => (k o).map (· &&& v)
    | none => k o
  else k o

end Known

/-! ## Ranges -/

theorem within_add {start m n o : Nat} :
    Within start (m + n) o ↔ Within start m o ∨ Within (start + m) n o := by
  unfold Within
  omega

theorem not_within_zero (start o : Nat) : ¬ Within start 0 o := by
  unfold Within
  omega

variable {k : Known α} {w w' : Nat → α} {start len dst : Nat} {buf : List α}

theorem Known.forget_of_within {o : Nat} (h : Within start len o) : k.forget start len o = none :=
  if_pos h

theorem Known.forget_of_not {o : Nat} (h : ¬ Within start len o) : k.forget start len o = k o :=
  if_neg h

section Program

variable [AndOp α]

theorem Known.program_of_within {o : Nat} (h : Within dst buf.length o) :
    ∃ v, buf[o - dst]? = some v ∧ k.program dst buf o = (k o).map (· &&& v) := by
  obtain ⟨hle, hlt⟩ := h
  have hidx : o - dst < buf.length := by omega
  have hget : buf[o - dst]? = some buf[o - dst] := List.getElem?_eq_getElem hidx
  refine ⟨_, hget, ?_⟩
  unfold program
  rw [if_pos hle, hget]

theorem Known.program_of_not {o : Nat} (h : ¬ Within dst buf.length o) :
    k.program dst buf o = k o := by
  unfold program
  by_cases hle : dst ≤ o
  · have hge : buf.length ≤ o - dst := by
      unfold Within at h
      omega
    rw [if_pos hle, List.getElem?_eq_none hge]
  · rw [if_neg hle]

end Program

/-! ## Operations of the memory -/

/-- An operation that changes only the range. -/
theorem Agree.forget (h : Agree k w) (hw : ∀ o, ¬ Within start len o → w' o = w o) :
    Agree (k.forget start len) w' := by
  intro o v hk
  by_cases ho : Within start len o
  · rw [Known.forget_of_within ho] at hk
    cases hk
  · rw [Known.forget_of_not ho] at hk
    rw [hw o ho]
    exact h o v hk

/-- What is known after a failed operation stays right when the range changes again. -/
theorem Agree.forgotten (h : Agree (k.forget start len) w)
    (hw : ∀ o, ¬ Within start len o → w' o = w o) : Agree (k.forget start len) w' := by
  intro o v hk
  by_cases ho : Within start len o
  · rw [Known.forget_of_within ho] at hk
    cases hk
  · rw [hw o ho]
    exact h o v hk

/-- An erase leaves `blank` in its range. -/
theorem Agree.erase {blank : α} (h : Agree k w) (hin : ∀ o, Within start len o → w' o = blank)
    (hout : ∀ o, ¬ Within start len o → w' o = w o) : Agree (k.erase blank start len) w' := by
  intro o v hk
  unfold Known.erase at hk
  by_cases ho : Within start len o
  · rw [if_pos ho] at hk
    rw [hin o ho]
    exact Option.some.inj hk
  · rw [if_neg ho] at hk
    rw [hout o ho]
    exact h o v hk

/-- A program leaves the AND of the old and the new value. -/
theorem Agree.program [AndOp α] (h : Agree k w)
    (hin : ∀ i v, buf[i]? = some v → w' (dst + i) = w (dst + i) &&& v)
    (hout : ∀ o, ¬ Within dst buf.length o → w' o = w o) : Agree (k.program dst buf) w' := by
  intro o v hk
  by_cases ho : Within dst buf.length o
  · obtain ⟨b, hb, hprog⟩ := Known.program_of_within (k := k) ho
    rw [hprog] at hk
    obtain ⟨u, hu, rfl⟩ := Option.map_eq_some_iff.mp hk
    have hnew := hin _ b hb
    rw [Nat.add_sub_cancel' ho.1, h o u hu] at hnew
    exact hnew
  · rw [Known.program_of_not ho] at hk
    rw [hout o ho]
    exact h o v hk

/-! ## Pieces -/

theorem erase_zero (blank : α) (k : Known α) (start : Nat) : k.erase blank start 0 = k :=
  funext fun _ => if_neg (not_within_zero _ _)

/-- **An erase in pieces.** -/
theorem erase_add (blank : α) (k : Known α) (start m n : Nat) :
    k.erase blank start (m + n) = (k.erase blank start m).erase blank (start + m) n := by
  funext o
  unfold Known.erase
  by_cases h2 : Within (start + m) n o
  · rw [if_pos h2, if_pos (within_add.mpr (Or.inr h2))]
  · rw [if_neg h2]
    by_cases h1 : Within start m o
    · rw [if_pos h1, if_pos (within_add.mpr (Or.inl h1))]
    · rw [if_neg h1, if_neg fun h => (within_add.mp h).elim h1 h2]

variable [AndOp α]

theorem program_nil (k : Known α) (dst : Nat) : k.program dst [] = k :=
  funext fun _ => Known.program_of_not (not_within_zero _ _)

/-- **A program in pieces.** -/
theorem program_append (k : Known α) (dst : Nat) (xs ys : List α) :
    k.program dst (xs ++ ys) = (k.program dst xs).program (dst + xs.length) ys := by
  funext o
  by_cases hle : dst + xs.length ≤ o
  · -- behind the first piece
    have hx : k.program dst xs o = k o := Known.program_of_not fun h => by
      have := h.2
      omega
    have hget : (xs ++ ys)[o - dst]? = ys[o - (dst + xs.length)]? := by
      rw [List.getElem?_append_right (by omega), Nat.sub_sub]
    rw [Known.program, Known.program, if_pos hle, if_pos (by omega), hget, hx]
  · have hy : (k.program dst xs).program (dst + xs.length) ys o = k.program dst xs o :=
      Known.program_of_not fun h => hle h.1
    rw [hy, Known.program, Known.program]
    by_cases hd : dst ≤ o
    · rw [if_pos hd, if_pos hd, List.getElem?_append_left (by omega)]
    · rw [if_neg hd, if_neg hd]

end Esp32S31.Lib.Nor
