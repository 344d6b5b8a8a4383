import Mathlib.Algebra.GroupWithZero.Nat
import Mathlib.Logic.Function.Basic
import Mathlib.Algebra.BigOperators.Group.List.Basic

/-!
# Blocks in a circular memory

A memory of `n` cells is addressed by unbounded positions: position `p` is cell `p % n`. A block
is *at* a position when its cells hold it (`At`), however it wraps over the end. Writes come as a
list in program order and may be carried out in any number of parts (`put`).

The frame rule is `at_put_window`: writes inside a window leave a block alone when block and window
do not meet within one turn of the memory (`Apart`). `Laid` is a sequence of records one after the
other.
-/

namespace Esp32S31.Lib.Circular

variable {β : Type} {n : Nat}

/-- Carry out a list of cell writes in order. -/
def put (m : Nat → β) (ws : List (Nat × β)) : Nat → β :=
  ws.foldl (fun m w => Function.update m w.1 w.2) m

/-- The writes that put `xs` at position `p`, in ascending order. -/
def blockWrites (n : Nat) : Nat → List β → List (Nat × β)
  | _, [] => []
  | p, x :: xs => (p % n, x) :: blockWrites n (p + 1) xs

/-- The cells of the `k` positions from `p`. -/
def cells (n : Nat) : Nat → Nat → List Nat
  | _, 0 => []
  | p, k + 1 => p % n :: cells n (p + 1) k

/-- The block `xs` is in the memory at position `p`. -/
def At (n : Nat) (m : Nat → β) : Nat → List β → Prop
  | _, [] => True
  | p, x :: xs => m (p % n) = x ∧ At n m (p + 1) xs

/-- Every write is to the cell of a position in `[lo, hi)`. -/
def InWindow (n lo hi : Nat) (ws : List (Nat × β)) : Prop :=
  ∀ w ∈ ws, ∃ a, lo ≤ a ∧ a < hi ∧ w.1 = a % n

/-- Two positions less than `n` apart are different cells. -/
theorem mod_ne {a b : Nat} (h : a < b) (hb : b < a + n) : a % n ≠ b % n := by
  intro e
  have h1 : (b - a) % n = 0 := by
    have := Nat.sub_mod_eq_zero_of_mod_eq e.symm
    exact this
  rw [Nat.mod_eq_of_lt (by omega)] at h1
  omega

/-- Below the end of the memory the next position is the next cell. -/
theorem succ_mod {p : Nat} (h : p % n + 1 < n) : (p + 1) % n = p % n + 1 := by
  rw [Nat.add_mod, Nat.mod_eq_of_lt (show 1 < n by omega), Nat.mod_eq_of_lt h]

@[simp] theorem put_nil (m : Nat → β) : put m [] = m := rfl

@[simp] theorem put_cons (m : Nat → β) (w : Nat × β) (ws : List (Nat × β)) :
    put m (w :: ws) = put (Function.update m w.1 w.2) ws := rfl

theorem put_append (m : Nat → β) (ws vs : List (Nat × β)) :
    put m (ws ++ vs) = put (put m ws) vs := List.foldl_append

/-- A cell that no write names keeps its value. -/
theorem put_of_not_mem : ∀ (ws : List (Nat × β)) (m : Nat → β) {c : Nat},
    (∀ w ∈ ws, w.1 ≠ c) → put m ws c = m c
  | [], _, _, _ => rfl
  | w :: ws, m, c, h => by
    rw [put_cons, put_of_not_mem ws _ fun v hv => h v (List.mem_cons_of_mem w hv)]
    exact Function.update_of_ne (h w List.mem_cons_self).symm _ _

theorem at_append (m : Nat → β) : ∀ (xs ys : List β) (p : Nat),
    At n m p (xs ++ ys) ↔ At n m p xs ∧ At n m (p + xs.length) ys
  | [], ys, p => by simp [At]
  | x :: xs, ys, p => by
    simp only [List.cons_append, At, at_append m xs ys (p + 1), List.length_cons, and_assoc]
    rw [show p + 1 + xs.length = p + (xs.length + 1) by omega]

/-- A block depends only on its own cells. -/
theorem at_congr {m m' : Nat → β} : ∀ (xs : List β) (p : Nat),
    (∀ a, p ≤ a → a < p + xs.length → m' (a % n) = m (a % n)) → (At n m' p xs ↔ At n m p xs)
  | [], _, _ => Iff.rfl
  | x :: xs, p, h => by
    have ih := at_congr xs (p + 1) fun a h1 h2 =>
      h a (by omega) (by simp only [List.length_cons]; omega)
    simp only [At, ih, h p (Nat.le_refl _) (by simp only [List.length_cons]; omega)]

/-- The positions `[p, q)` and `[lo, hi)` do not meet in the memory: one is above the other, and
both fit into one turn. -/
def Apart (n p q lo hi : Nat) : Prop := q ≤ lo ∧ hi ≤ p + n ∨ hi ≤ p ∧ q ≤ lo + n

/-- **The frame rule.** Writes in a window leave a block apart from it alone. -/
theorem at_put_window {m : Nat → β} {ws : List (Nat × β)} {lo hi p : Nat} {xs : List β}
    (hw : InWindow n lo hi ws) (ha : Apart n p (p + xs.length) lo hi) :
    At n (put m ws) p xs ↔ At n m p xs := by
  refine at_congr xs p fun b h1 h2 => put_of_not_mem ws m fun w hmem => ?_
  obtain ⟨a, h3, h4, e⟩ := hw w hmem
  rw [e]
  rcases ha with ⟨h5, h6⟩ | ⟨h5, h6⟩
  · exact (mod_ne (by omega) (by omega)).symm
  · exact mod_ne (by omega) (by omega)

theorem blockWrites_append : ∀ (xs ys : List β) (p : Nat),
    blockWrites n p (xs ++ ys) = blockWrites n p xs ++ blockWrites n (p + xs.length) ys
  | [], _, _ => rfl
  | x :: xs, ys, p => by
    simp only [List.cons_append, blockWrites, blockWrites_append xs ys (p + 1), List.length_cons]
    rw [show p + 1 + xs.length = p + (xs.length + 1) by omega]

theorem blockWrites_inWindow : ∀ (xs : List β) (p : Nat),
    InWindow n p (p + xs.length) (blockWrites n p xs)
  | [], _ => fun _ h => absurd h List.not_mem_nil
  | x :: xs, p => fun w h => by
    rcases List.mem_cons.mp h with rfl | h
    · exact ⟨p, Nat.le_refl _, by simp only [List.length_cons]; omega, rfl⟩
    · obtain ⟨a, h1, h2, e⟩ := blockWrites_inWindow xs (p + 1) w h
      exact ⟨a, by omega, by simp only [List.length_cons]; omega, e⟩

/-- Only the cell that a position denotes matters for the writes of a block. -/
theorem blockWrites_congr : ∀ (xs : List β) {p q : Nat}, p % n = q % n →
    blockWrites n p xs = blockWrites n q xs
  | [], _, _, _ => rfl
  | x :: xs, p, q, h => by
    have h1 : (p + 1) % n = (q + 1) % n := by rw [Nat.add_mod, h, ← Nat.add_mod]
    simp only [blockWrites, h, blockWrites_congr xs h1]

theorem cells_congr : ∀ (k : Nat) {p q : Nat}, p % n = q % n → cells n p k = cells n q k
  | 0, _, _, _ => rfl
  | k + 1, p, q, h => by
    have h1 : (p + 1) % n = (q + 1) % n := by rw [Nat.add_mod, h, ← Nat.add_mod]
    simp only [cells, h, cells_congr k h1]

theorem InWindow.append {lo hi : Nat} {ws vs : List (Nat × β)} (hw : InWindow n lo hi ws)
    (hv : InWindow n lo hi vs) : InWindow n lo hi (ws ++ vs) := fun w h =>
  (List.mem_append.mp h).elim (hw w) (hv w)

theorem InWindow.mono {lo hi lo' hi' : Nat} {ws : List (Nat × β)} (h : InWindow n lo hi ws)
    (hl : lo' ≤ lo) (hh : hi ≤ hi') : InWindow n lo' hi' ws := fun w hw =>
  let ⟨a, h1, h2, e⟩ := h w hw
  ⟨a, Nat.le_trans hl h1, Nat.lt_of_lt_of_le h2 hh, e⟩

/-- Part of a list of writes stays in the window. -/
theorem InWindow.sub {lo hi : Nat} {ws vs : List (Nat × β)} (h : InWindow n lo hi ws)
    (hs : ∀ w ∈ vs, w ∈ ws) : InWindow n lo hi vs := fun w hw => h w (hs w hw)

/-- **A block no longer than the memory is there after its writes.** -/
theorem at_put_blockWrites : ∀ (xs : List β) (p : Nat) (m : Nat → β), xs.length ≤ n →
    At n (put m (blockWrites n p xs)) p xs
  | [], _, _, _ => trivial
  | x :: xs, p, m, h => by
    simp only [List.length_cons] at h
    refine ⟨?_, at_put_blockWrites xs (p + 1) _ (by omega)⟩
    show put (Function.update m (p % n) x) (blockWrites n (p + 1) xs) (p % n) = x
    rw [put_of_not_mem]
    · exact Function.update_self _ _ _
    · intro w hw
      obtain ⟨a, h1, h2, e⟩ := blockWrites_inWindow xs (p + 1) w hw
      rw [e]
      exact (mod_ne (by omega) (by omega)).symm

/-- Reading the cells of a block gives the block. -/
theorem map_cells_iff (m : Nat → β) : ∀ (xs : List β) (p : Nat),
    (cells n p xs.length).map m = xs ↔ At n m p xs
  | [], _ => by simp [cells, At]
  | x :: xs, p => by
    simp only [List.length_cons, cells, List.map_cons, List.cons.injEq, At,
      map_cells_iff m xs (p + 1)]

@[simp] theorem length_cells : ∀ (k p : Nat), (cells n p k).length = k
  | 0, _ => rfl
  | k + 1, p => congrArg (· + 1) (length_cells k (p + 1))

theorem cells_lt (hn : 0 < n) : ∀ (k p : Nat), ∀ o ∈ cells n p k, o < n
  | 0, _, _, ho => absurd ho List.not_mem_nil
  | k + 1, p, o, ho => by
    rcases List.mem_cons.mp ho with rfl | ho
    · exact Nat.mod_lt _ hn
    · exact cells_lt hn k (p + 1) o ho

theorem cells_append : ∀ (j k p : Nat), cells n p (j + k) = cells n p j ++ cells n (p + j) k
  | 0, k, p => by simp [cells]
  | j + 1, k, p => by
    rw [show j + 1 + k = (j + k) + 1 by omega]
    simp only [cells, cells_append j k (p + 1), List.cons_append]
    rw [show p + 1 + j = p + (j + 1) by omega]

/-! ## Records one after the other -/

section Records

variable {α : Type} (width : α → Nat) (enc : α → List β)

/-- The positions that a list of records takes. -/
def span (fs : List α) : Nat := (fs.map width).sum

@[simp] theorem span_nil : span width ([] : List α) = 0 := rfl

@[simp] theorem span_cons (f : α) (fs : List α) : span width
    (f :: fs) = width f + span width fs := by
  simp [span]

@[simp] theorem span_append (fs gs : List α) :
    span width (fs ++ gs) = span width fs + span width gs := by
  simp [span]

/-- The records `fs` are in the memory one after the other from position `p`. -/
def Laid (n : Nat) (m : Nat → β) : Nat → List α → Prop
  | _, [] => True
  | p, f :: fs => At n m p (enc f) ∧ Laid n m (p + width f) fs

variable {width enc}

theorem laid_append {m : Nat → β} : ∀ (fs gs : List α) (p : Nat),
    Laid width enc n m p (fs ++ gs) ↔
      Laid width enc n m p fs ∧ Laid width enc n m (p + span width fs) gs
  | [], _, _ => by simp [Laid]
  | f :: fs, gs, p => by
    simp only [List.cons_append, Laid, laid_append fs gs (p + width f), span_cons, and_assoc,
      Nat.add_assoc]

/-- Writes above the records, within `n` cells of their start, leave them alone. -/
theorem laid_put_window {m : Nat → β} {ws : List (Nat × β)} {lo hi : Nat}
    (hle : ∀ f, (enc f).length ≤ width f) (hw : InWindow n lo hi ws) : ∀ (fs : List α) (p : Nat),
    p + span width fs ≤ lo → hi ≤ p + n →
      (Laid width enc n (put m ws) p fs ↔ Laid width enc n m p fs)
  | [], _, _, _ => Iff.rfl
  | f :: fs, p, hp, hn => by
    rw [span_cons] at hp
    have := hle f
    have hf : Apart n p (p + (enc f).length) lo hi := .inl ⟨by omega, hn⟩
    simp only [Laid, at_put_window hw hf,
      laid_put_window hle hw fs (p + width f) (by omega) (by omega)]

end Records

end Esp32S31.Lib.Circular
