import Mathlib.Algebra.GroupWithZero.Nat
import Mathlib.Data.List.Basic

/-!
# An engine that follows a ring of descriptors

A DMA engine reads a descriptor, puts out its block, and goes on at the address that the descriptor
gives. `scan` is what it has put out after some descriptors, `none` where it found no descriptor.

* `flatten_pieces`: a list cut into pieces of one length, the last of which may be shorter.
* **`scan_ring`**: from any descriptor of a ring the engine always goes on, and what it puts out is
  the blocks of the ring in turn, over and over.
-/

namespace Esp32S31.Lib.Scan

variable {ι β : Type}

/-- A block, and the address of the next descriptor. -/
structure Node (ι β : Type) where
  block : List β
  next : ι

/-- What is put out from `p` on, and the address then. -/
def scan (fetch : ι → Option (Node ι β)) : Nat → ι → Option (List β × ι)
  | 0, p => some ([], p)
  | m + 1, p => (fetch p).bind fun d => (scan fetch m d.next).map fun x => (d.block ++ x.1, x.2)

/-- The blocks stand in a ring of descriptors at the addresses `place`. -/
def Ring (fetch : ι → Option (Node ι β)) (place : Nat → ι) (blocks : List (List β)) : Prop :=
  ∀ i (h : i < blocks.length), fetch (place i) = some ⟨blocks[i], place ((i + 1) % blocks.length)⟩

/-! ## Pieces -/

/-- **A list in pieces.** -/
theorem flatten_pieces (c : Nat) (xs : List β) (n : Nat) :
    ((List.range n).map fun i => (xs.drop (i * c)).take c).flatten = xs.take (n * c) := by
  induction n with
  | zero =>
    rw [Nat.zero_mul]
    rfl
  | succ n ih =>
    rw [List.range_succ, List.map_append, List.flatten_append, ih, Nat.succ_mul, List.take_add]
    congr 1
    exact List.append_nil _

/-- The length of what stands before block `i`. -/
def offset (blocks : List (List β)) (i : Nat) : Nat := (blocks.take i).flatten.length

variable {blocks : List (List β)}

theorem offset_succ {i : Nat} (h : i < blocks.length) :
    offset blocks (i + 1) = offset blocks i + blocks[i].length := by
  unfold offset
  rw [List.take_succ_eq_append_getElem h, List.flatten_append, List.length_append]
  congr 1
  exact congrArg List.length (List.append_nil _)

theorem offset_length : offset blocks blocks.length = blocks.flatten.length := by
  unfold offset
  rw [List.take_length]

/-- Block `i` in the whole. -/
theorem getElem?_flatten {i t : Nat} (h : i < blocks.length) (ht : t < blocks[i].length) :
    blocks.flatten[offset blocks i + t]? = blocks[i][t]? := by
  have hsplit : blocks = blocks.take i ++ blocks[i] :: blocks.drop (i + 1) := by
    rw [← List.drop_eq_getElem_cons h, List.take_append_drop]
  have hflat : blocks.flatten =
      (blocks.take i).flatten ++ (blocks[i] ++ (blocks.drop (i + 1)).flatten) := by
    conv_lhs => rw [hsplit, List.flatten_append, List.flatten_cons]
  unfold offset
  rw [hflat, List.getElem?_append_right (Nat.le_add_right _ _), Nat.add_sub_cancel_left,
    List.getElem?_append_left ht]

theorem offset_add_lt {i t : Nat} (h : i < blocks.length) (ht : t < blocks[i].length) :
    offset blocks i + t < blocks.flatten.length := by
  have hget := getElem?_flatten h ht
  rw [List.getElem?_eq_getElem ht] at hget
  exact (List.getElem?_eq_some_iff.mp hget).1

/-! ## The engine -/

/-- **The engine never leaves the ring**: it has put out what stands at the position, modulo the
length of the whole, and at least one item for each descriptor when no block is empty. -/
theorem scan_ring {fetch : ι → Option (Node ι β)} {place : Nat → ι} (hr : Ring fetch place blocks)
    (hne : ∀ b ∈ blocks, b ≠ []) (m : Nat) : ∀ {i : Nat}, i < blocks.length →
      ∃ xs j, scan fetch m (place i) = some (xs, place j) ∧ j < blocks.length ∧ m ≤ xs.length ∧
        ∀ t, t < xs.length →
          xs[t]? = blocks.flatten[(offset blocks i + t) % blocks.flatten.length]? := by
  induction m with
  | zero =>
    intro i hi
    exact ⟨[], i, rfl, hi, Nat.le_refl _, fun t ht => absurd ht (Nat.not_lt_zero _)⟩
  | succ m ih =>
    intro i hi
    have hn : (i + 1) % blocks.length < blocks.length := Nat.mod_lt _ (by omega)
    obtain ⟨xs, j, hs, hj, hm, hxs⟩ := ih hn
    have hpos : 0 < blocks[i].length := List.length_pos_iff.mpr (hne _ (List.getElem_mem hi))
    refine ⟨blocks[i] ++ xs, j, ?_, hj, ?_, fun t ht => ?_⟩
    · unfold scan
      rw [hr i hi, Option.bind_some, hs]
      rfl
    · rw [List.length_append]
      omega
    · rcases Nat.lt_or_ge t blocks[i].length with hlt | hge
      · rw [List.getElem?_append_left hlt, Nat.mod_eq_of_lt (offset_add_lt hi hlt),
          getElem?_flatten hi hlt]
      · rw [List.length_append] at ht
        rw [List.getElem?_append_right hge, hxs _ (by omega)]
        congr 1
        -- the next block follows, or the first one after the last
        rcases Nat.lt_or_ge (i + 1) blocks.length with hnext | hlast
        · rw [Nat.mod_eq_of_lt hnext, offset_succ hi]
          congr 1
          omega
        · have hend : i + 1 = blocks.length := by omega
          have hwhole : offset blocks i + blocks[i].length = blocks.flatten.length := by
            rw [← offset_succ hi, hend, offset_length]
          have hzero : offset blocks 0 = 0 := rfl
          have hsum : offset blocks i + t = blocks.flatten.length + (t - blocks[i].length) := by
            omega
          rw [hend, Nat.mod_self, hzero, Nat.zero_add, hsum, Nat.add_mod_left]

end Esp32S31.Lib.Scan
