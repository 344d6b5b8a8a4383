import Mathlib.Data.List.Basic
import Mathlib.Data.Nat.Bitwise
import Mathlib.Logic.Function.Basic
import Mathlib.Tactic.Ring

/-!
# Physical memory protection of RISC-V

Each entry has an address register and a configuration byte, which together say which addresses the
entry is for and what M-mode may do there. The lowest entry that takes a byte of an access decides
it: the entry must take all of the access, and in M-mode it refuses only when it is locked. A locked
entry ignores writes until the next reset, and keeps the address register below it when it starts
there (`tor`).

* `range_napot`: a naturally aligned range of a power of two is read back as it was encoded.
* `range_writes`: the ranges of locked entries survive every sequence of writes.
* `access_iff`: where the other entries have nothing to do with an access, locked entries without
  permissions refuse exactly the accesses that they meet.
-/

namespace Esp32S31.Lib

/-- An entry: `pmpaddr` (bits 33 to 2 of an address) and its byte of `pmpcfg`. -/
structure PmpEntry where
  addr : Nat
  cfg : BitVec 8

/-- The entries of a hart, from 0 to 15. -/
abbrev Pmp := Nat → PmpEntry

/-- Where a NAPOT register stops being all ones from below. -/
def trailingOnes : Nat → Nat → Nat
  | 0, _ => 0
  | fuel + 1, n => if n % 2 = 1 then trailingOnes fuel (n / 2) + 1 else 0

/-- The addresses of a NAPOT register, from the first to the one behind the last. -/
def napotRange (addr : Nat) : Nat × Nat :=
  let t := trailingOnes 32 addr
  let lo := 4 * (addr + 1 - 2 ^ t)
  (lo, lo + 2 ^ (t + 3))

/-- Some byte of the access is in the range. -/
def meets (r : Nat × Nat) (a n : Nat) : Bool := max r.1 a < min r.2 (a + n)

/-- All bytes of the access are in the range. -/
def within (r : Nat × Nat) (a n : Nat) : Bool := r.1 ≤ a ∧ a + n ≤ r.2

/-- A write of a CSR, to one entry; `csrw`, `csrs` and `csrc` give the byte by the old one. -/
inductive PmpWrite where
  | addr (i v : Nat)
  | cfg (i : Nat) (f : BitVec 8 → BitVec 8)

namespace Pmp

def locked (p : Pmp) (i : Nat) : Bool := i < 16 && (p i).cfg.getLsbD 7

/-- The A field. -/
def mode (p : Pmp) (i : Nat) : Nat := ((p i).cfg.toNat / 8) % 4

/-- The address register below an entry, where its TOR range starts. -/
def below (p : Pmp) : Nat → Nat
  | 0 => 0
  | i + 1 => (p i).addr

/-- The addresses of an entry. -/
def range (p : Pmp) (i : Nat) : Nat × Nat :=
  match p.mode i with
  | 0 => (0, 0)
  | 1 => (4 * p.below i, 4 * (p i).addr)
  | 2 => (4 * (p i).addr, 4 * (p i).addr + 4)
  | _ => napotRange (p i).addr

/-- An access of M-mode to `n` bytes, which needs the permission bits `need`. -/
def access (p : Pmp) (need : BitVec 8) (a n : Nat) : Bool :=
  match (List.range 16).find? fun i => meets (p.range i) a n with
  | none => true
  | some i => within (p.range i) a n && (!p.locked i || (p i).cfg &&& need = need)

def write (p : Pmp) : PmpWrite → Pmp
  | .addr i v =>
    if p.locked i || (p.locked (i + 1) && p.mode (i + 1) = 1) then p
    else Function.update p i { p i with addr := v % 2 ^ 32 }
  | .cfg i f => if p.locked i then p else Function.update p i { p i with cfg := f (p i).cfg }

end Pmp

/-! ## Aligned ranges -/

theorem trailingOnes_ones {t fuel : Nat} (h : t < fuel) (q : Nat) :
    trailingOnes fuel (q * 2 ^ (t + 1) + (2 ^ t - 1)) = t := by
  induction t generalizing fuel with
  | zero =>
    obtain ⟨fuel, rfl⟩ := Nat.exists_eq_add_of_lt h
    simp only [Nat.zero_add, trailingOnes]
    rw [if_neg]
    omega
  | succ t ih =>
    cases fuel with
    | zero => exact absurd h (Nat.not_lt_zero _)
    | succ fuel =>
      have hpow : 2 ^ (t + 1) = 2 * 2 ^ t := Nat.pow_succ' ..
      have hpow' : q * 2 ^ (t + 1 + 1) = 2 * (q * 2 ^ (t + 1)) := by
        rw [Nat.pow_succ' (n := t + 1), Nat.mul_left_comm]
      have hpos : 0 < 2 ^ t := Nat.two_pow_pos t
      rw [trailingOnes, if_pos (by omega)]
      have hhalf : (q * 2 ^ (t + 1 + 1) + (2 ^ (t + 1) - 1)) / 2 =
          q * 2 ^ (t + 1) + (2 ^ t - 1) := by omega
      rw [hhalf, ih (by omega)]

/-- The register of the range of `2 ^ (t + 3)` bytes from `q * 2 ^ (t + 3)`. -/
theorem napotRange_ones {t : Nat} (h : t < 32) (q : Nat) :
    napotRange (q * 2 ^ (t + 1) + (2 ^ t - 1)) =
      (q * 2 ^ (t + 3), q * 2 ^ (t + 3) + 2 ^ (t + 3)) := by
  have hlo : 4 * (q * 2 ^ (t + 1) + (2 ^ t - 1) + 1 - 2 ^ t) = q * 2 ^ (t + 3) := by
    have hpos : 0 < 2 ^ t := Nat.two_pow_pos t
    have hpow : q * 2 ^ (t + 3) = 4 * (q * 2 ^ (t + 1)) := by
      rw [show t + 3 = t + 1 + 2 by omega, Nat.pow_add 2 (t + 1) 2]
      ring
    omega
  unfold napotRange
  rw [trailingOnes_ones h]
  simp only [hlo]

/-- **The encoding of an aligned range.** -/
theorem range_napot {base t : Nat} (h : t < 32) (hbase : 2 ^ (t + 3) ∣ base) :
    napotRange ((base ||| (2 ^ (t + 2) - 1)) >>> 2) = (base, base + 2 ^ (t + 3)) := by
  obtain ⟨q, rfl⟩ := hbase
  have hor : 2 ^ (t + 3) * q ||| (2 ^ (t + 2) - 1) = 2 ^ (t + 3) * q + (2 ^ (t + 2) - 1) := by
    rw [Nat.two_pow_add_eq_or_of_lt]
    have hpow : 2 ^ (t + 3) = 2 * 2 ^ (t + 2) := Nat.pow_succ' ..
    have hpos : 0 < 2 ^ (t + 2) := Nat.two_pow_pos _
    omega
  have hshift : (2 ^ (t + 3) * q + (2 ^ (t + 2) - 1)) >>> 2 =
      q * 2 ^ (t + 1) + (2 ^ t - 1) := by
    have h3 : 2 ^ (t + 3) * q = 4 * (q * 2 ^ (t + 1)) := by
      rw [show t + 3 = t + 1 + 2 by omega, Nat.pow_add 2 (t + 1) 2]
      ring
    have h2 : 2 ^ (t + 2) = 4 * 2 ^ t := by
      rw [Nat.pow_add]
      omega
    have hpos : 0 < 2 ^ t := Nat.two_pow_pos t
    rw [Nat.shiftRight_eq_div_pow]
    omega
  rw [hor, hshift, napotRange_ones h, Nat.mul_comm]

/-! ## Locked entries -/

namespace Pmp

variable {p : Pmp} {i : Nat}

theorem write_locked (h : p.locked i = true) (w : PmpWrite) : p.write w i = p i := by
  cases w with
  | addr j v =>
    simp only [write]
    split
    · rfl
    · rename_i hn
      refine Function.update_of_ne ?_ ..
      rintro rfl
      exact hn (by simp [h])
  | cfg j f =>
    simp only [write]
    split
    · rfl
    · rename_i hn
      refine Function.update_of_ne ?_ ..
      rintro rfl
      exact hn h

/-- The register below a locked TOR entry is locked too. -/
theorem write_below (h : p.locked i = true) (hm : p.mode i = 1) (w : PmpWrite) :
    (p.write w).below i = p.below i := by
  cases i with
  | zero => rfl
  | succ i =>
    change (p.write w i).addr = (p i).addr
    cases w with
    | addr j v =>
      simp only [write]
      split
      · rfl
      · rename_i hn
        rw [Function.update_of_ne]
        rintro rfl
        exact hn (by simp [h, hm])
    | cfg j f =>
      simp only [write]
      split
      · rfl
      · by_cases hj : i = j
        · subst hj
          rw [Function.update_self]
        · rw [Function.update_of_ne hj]

theorem range_write (h : p.locked i = true) (w : PmpWrite) :
    (p.write w).range i = p.range i := by
  have hi : p.write w i = p i := write_locked h w
  have hmode : (p.write w).mode i = p.mode i := by rw [mode, mode, hi]
  unfold range
  rw [hmode, hi]
  split
  · rfl
  · rename_i hm
    rw [write_below h hm]
  · rfl
  · rfl

/-- **Locked entries stay.** -/
theorem range_writes (h : p.locked i = true) (ws : List PmpWrite) :
    ws.foldl write p i = p i ∧ (ws.foldl write p).range i = p.range i := by
  induction ws generalizing p with
  | nil => exact ⟨rfl, rfl⟩
  | cons w ws ih =>
    have hi : p.write w i = p i := write_locked h w
    have hl : (p.write w).locked i = true := by
      rw [locked, hi]
      exact h
    obtain ⟨h1, h2⟩ := ih hl
    rw [List.foldl_cons, h1, h2, hi, range_write h]
    exact ⟨rfl, rfl⟩

/-- **What locked entries without permissions refuse**, when the other entries take no part. -/
theorem access_iff {is : List Nat} {a n : Nat} {need : BitVec 8} (his : ∀ i ∈ is, i < 16)
    (hout : ∀ i < 16, i ∉ is → meets (p.range i) a n = false)
    (hlock : ∀ i ∈ is, p.locked i = true ∧ (p i).cfg &&& need ≠ need) :
    p.access need a n = true ↔ ∀ i ∈ is, meets (p.range i) a n = false := by
  unfold access
  split
  · rename_i hnone
    refine iff_of_true rfl fun i hi => ?_
    simpa using List.find?_eq_none.mp hnone i (List.mem_range.mpr (his i hi))
  · rename_i i hsome
    have hmeets := List.find?_some hsome
    have hi : i < 16 := List.mem_range.mp (List.mem_of_find?_eq_some hsome)
    have hmem : i ∈ is := by
      by_contra hn
      rw [hout i hi hn] at hmeets
      exact absurd hmeets (by simp)
    obtain ⟨hlocked, hneed⟩ := hlock i hmem
    refine iff_of_false ?_ fun hall => ?_
    · simp [hlocked, hneed]
    · rw [hall i hmem] at hmeets
      exact absurd hmeets (by simp)

end Pmp

end Esp32S31.Lib
