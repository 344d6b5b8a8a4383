import Esp32S31.Flash.Read
import Esp32S31.Flash.Service

/-!
# A write in pieces

`esp_shm_flash_write` with its commands taken as a whole: command `k` returns `rets k`, which may be
anything. The pieces are cut at the blocks of the mailbox here and checked against the sectors and
the window in the firmware (`flash_request_valid`).

* `Tiles`: pieces that lie in order and carry their part of the buffer.
* `hostStep_write`: the holder of the mutex goes the same way step by step.
* **`flash_write`**: the firmware accepts every piece, and `*retlen` says what was written.
-/

namespace Esp32S31.Flash

open Esp32S31.Lib

/-- The commands of a write with what they returned, what it returns, and `*retlen`. -/
structure WriteRun where
  calls : List (FlashCall × Int)
  ret : Int
  retlen : Nat
  deriving DecidableEq

/-- The loop of `esp_shm_flash_write`: `to`, what is left of `buf`, `*retlen`. -/
def espShmFlashWrite (rets : Nat → Int) : Nat → Nat → Nat → List UInt8 → Nat → Option WriteRun
  | 0, _, _, _, _ => none
  | fuel + 1, k, dst, rest, retlen =>
    if rest = [] then some ⟨[], 0, retlen⟩
    else if rets k ≠ 0 then some ⟨[(programCall dst rest, rets k)], rets k, retlen⟩
    else
      let n := programLen dst rest
      (espShmFlashWrite rets fuel (k + 1) (dst + n) (rest.drop n) (retlen + n)).map fun r =>
        { r with calls := (programCall dst rest, 0) :: r.calls }

/-- The pieces lie in order from `dst`, without gap or overlap, and each carries its part of `rest`.
-/
def Tiles : Nat → List UInt8 → List (FlashCall × Int) → Prop
  | _, _, [] => True
  | dst, rest, x :: xs =>
    x.1.cmd = .program ∧ x.1.addr.toNat = dst ∧ 0 < x.1.len.toNat ∧ x.1.len.toNat ≤ rest.length ∧
      x.1.buf = rest.take x.1.len.toNat ∧ Tiles (dst + x.1.len.toNat) (rest.drop x.1.len.toNat) xs

/-- The length of the pieces. -/
def pieces (xs : List (FlashCall × Int)) : Nat := (xs.map fun x => x.1.len.toNat).sum

/-- The length of the pieces whose commands returned 0. -/
def written (xs : List (FlashCall × Int)) : Nat := pieces (xs.filter fun x => x.2 = 0)

/-! ## One piece -/

theorem programLen_le (dst : Nat) (rest : List UInt8) : programLen dst rest ≤ rest.length :=
  Nat.min_le_left _ _

/-- A piece ends at the end of its mailbox block at the latest. -/
theorem programLen_block (dst : Nat) (rest : List UInt8) :
    dst % 0x800 + programLen dst rest ≤ 0x800 := by
  have hblock : programLen dst rest ≤ 0x800 - dst % 0x800 := Nat.min_le_right _ _
  have hlt : dst % 0x800 < 0x800 := Nat.mod_lt _ (by decide)
  omega

theorem programLen_pos {dst : Nat} {rest : List UInt8} (h : rest ≠ []) :
    0 < programLen dst rest := by
  have hlt : dst % flashDataSize.toNat < flashDataSize.toNat := Nat.mod_lt _ (by decide)
  exact Nat.lt_min.mpr ⟨List.length_pos_iff.mpr h, by omega⟩

@[simp] theorem programCall_len (dst : Nat) (rest : List UInt8) :
    (programCall dst rest).len.toNat = programLen dst rest := by
  have hblock := programLen_block dst rest
  exact Nat.mod_eq_of_lt (by omega)

theorem programCall_addr {dst : Nat} (rest : List UInt8) (h : dst < 2 ^ 32) :
    (programCall dst rest).addr.toNat = dst :=
  Nat.mod_eq_of_lt h

/-- The firmware accepts a piece that lies in the window. -/
theorem programCall_valid {size : U32} {dst : Nat} {rest : List UInt8} (hne : rest ≠ [])
    (h : dst + rest.length ≤ size.toNat) :
    flashRequestValid size FlashCmd.program.word (programCall dst rest).addr
      (programCall dst rest).len = true := by
  have hsize := size.isLt
  have hpos := List.length_pos_iff.mpr hne
  have hle := programLen_le dst rest
  have hblock := programLen_block dst rest
  rw [flashRequestValid_iff]
  unfold Allowed
  rw [programCall_len, programCall_addr rest (by omega)]
  exact ⟨by omega, by omega, Or.inr ⟨rfl, by omega, by omega⟩⟩

/-! ## The loop -/

/-- Step by step, the holder of the mutex places the same commands and returns the same. -/
theorem hostStep_write {rets : Nat → Int} {fuel k dst retlen : Nat} {rest : List UInt8}
    {r : WriteRun}
    (h : espShmFlashWrite rets (fuel + 1) k dst rest retlen = some r) (s : FlashSys) (chunk : Nat)
    (expired : Bool) :
    (r.calls = [] ∧ s.hostStep chunk expired (.write dst rest retlen none) =
    s.release (.write r.ret r.retlen)) ∨ ∃ c more, r.calls = (c, rets k) :: more ∧
      s.hostStep chunk expired (.write dst rest retlen none) =
        { s with lock := some (.write dst rest retlen (some (c, .readCmd))) } ∧
      (s.hostStep chunk expired (.write dst rest retlen (some (c, .done (rets k)))) =
          s.release (.write r.ret r.retlen) ∨
        ∃ dst' rest' retlen', espShmFlashWrite rets fuel (k + 1) dst' rest' retlen' =
            some { r with calls := more } ∧
          s.hostStep chunk expired (.write dst rest retlen (some (c, .done (rets k)))) =
            { s with lock := some (.write dst' rest' retlen' none) }) := by
  unfold espShmFlashWrite at h
  by_cases hrest : rest = []
  · rw [if_pos hrest] at h
    obtain rfl := Option.some.inj h
    exact Or.inl ⟨rfl, if_pos hrest⟩
  · rw [if_neg hrest] at h
    right
    by_cases hret : rets k ≠ 0
    · rw [if_pos hret] at h
      obtain rfl := Option.some.inj h
      exact ⟨_, [], rfl, if_neg hrest, Or.inl (if_pos hret)⟩
    · rw [if_neg hret] at h
      obtain ⟨r', h', rfl⟩ := Option.map_eq_some_iff.mp h
      refine ⟨_, r'.calls, ?_, if_neg hrest, Or.inr ⟨_, _, _, h', if_neg hret⟩⟩
      rw [not_not.mp hret]

/-- What the loop does from `dst` on. -/
structure WriteOk (size : U32) (rets : Nat → Int) (k dst : Nat) (rest : List UInt8) (retlen : Nat)
    (r : WriteRun) : Prop where
  /-- the firmware refuses no piece -/
  valid : ∀ x ∈ r.calls, flashRequestValid size x.1.cmd.word x.1.addr x.1.len = true
  tiles : Tiles dst rest r.calls
  /-- the commands returned what the pattern says -/
  rets : r.calls.map (·.2) = (List.range r.calls.length).map fun i => rets (k + i)
  whole : r.ret = 0 → pieces r.calls = rest.length ∧ ∀ x ∈ r.calls, x.2 = 0
  failed : r.ret ≠ 0 → ∃ before c, r.calls = before ++ [(c, r.ret)] ∧ ∀ x ∈ before, x.2 = 0
  retlen : r.retlen = retlen + written r.calls

theorem WriteOk.stop {size : U32} {rets : Nat → Int} {k dst retlen : Nat} :
    WriteOk size rets k dst [] retlen ⟨[], 0, retlen⟩ where
  valid _ hx := absurd hx List.not_mem_nil
  tiles := trivial
  rets := rfl
  whole _ := ⟨rfl, fun _ hx => absurd hx List.not_mem_nil⟩
  failed h := absurd rfl h
  retlen := rfl

section Piece

variable {size : U32} {rets : Nat → Int} {k dst retlen : Nat} {rest : List UInt8} (hne : rest ≠ [])
  (hwin : dst + rest.length ≤ size.toNat)

include hne hwin

/-- The next piece is in front of those that follow it. -/
theorem tiles_cons {ret : Int} {more : List (FlashCall × Int)}
    (h : Tiles (dst + programLen dst rest) (rest.drop (programLen dst rest)) more) :
    Tiles dst rest ((programCall dst rest, ret) :: more) := by
  have hsize := size.isLt
  have hpos := List.length_pos_iff.mpr hne
  refine ⟨rfl, programCall_addr rest (by omega), ?_, ?_, ?_, ?_⟩
  · rw [programCall_len]
    exact programLen_pos hne
  · rw [programCall_len]
    exact programLen_le dst rest
  · rw [programCall_len]
    rfl
  · rw [programCall_len]
    exact h

/-- A command that fails ends the write. -/
theorem WriteOk.fail (hret : rets k ≠ 0) :
    WriteOk size rets k dst rest retlen ⟨[(programCall dst rest, rets k)], rets k, retlen⟩ where
  valid x hx := by
    rw [List.mem_singleton.mp hx]
    exact programCall_valid hne hwin
  tiles := tiles_cons hne hwin trivial
  rets := rfl
  whole h := absurd h hret
  failed _ := ⟨[], _, rfl, fun _ hx => absurd hx List.not_mem_nil⟩
  retlen := by
    have : written [(programCall dst rest, rets k)] = 0 := by simp [written, pieces, hret]
    rw [this, Nat.add_zero]

/-- A command that returns 0 goes in front of the rest. -/
theorem WriteOk.cons {r : WriteRun} (hret : rets k = 0)
    (h : WriteOk size rets (k + 1) (dst + programLen dst rest) (rest.drop (programLen dst rest))
      (retlen + programLen dst rest) r) :
    WriteOk size rets k dst rest retlen { r with calls := (programCall dst rest, 0) :: r.calls }
      where
  valid x hx := by
    rcases List.mem_cons.mp hx with rfl | hx
    · exact programCall_valid hne hwin
    · exact h.valid x hx
  tiles := tiles_cons hne hwin h.tiles
  rets := by
    have hrest : (List.range r.calls.length).map (fun i => rets (k + 1 + i)) =
        (List.range r.calls.length).map ((fun i => rets (k + i)) ∘ Nat.succ) := by
      refine List.map_congr_left fun i _ => ?_
      rw [Function.comp_apply, Nat.add_assoc, Nat.add_comm 1 i]
    rw [List.map_cons, h.rets, hrest, List.length_cons, List.range_succ_eq_map, List.map_cons,
      List.map_map]
    exact congrArg (· :: _) hret.symm
  whole hr := by
    obtain ⟨hsum, hall⟩ := h.whole hr
    have hle := programLen_le dst rest
    constructor
    · rw [List.length_drop] at hsum
      unfold pieces at hsum ⊢
      rw [List.map_cons, List.sum_cons, programCall_len, hsum]
      omega
    · intro x hx
      rcases List.mem_cons.mp hx with rfl | hx
      · rfl
      · exact hall x hx
  failed hr := by
    obtain ⟨before, c, hcalls, hall⟩ := h.failed hr
    refine ⟨(programCall dst rest, 0) :: before, c, ?_, fun x hx => ?_⟩
    · rw [hcalls]
      rfl
    · rcases List.mem_cons.mp hx with rfl | hx
      · rfl
      · exact hall x hx
  retlen := by
    have hw : written ((programCall dst rest, 0) :: r.calls) = programLen dst rest +
        written r.calls := by
      simp [written, pieces]
    rw [hw, h.retlen, Nat.add_assoc]

end Piece

/-- The loop ends, since each piece has at least one byte. -/
theorem espShmFlashWrite_ends (rets : Nat → Int) {fuel : Nat} :
    ∀ {rest : List UInt8} (k dst retlen : Nat), rest.length < fuel →
      ∃ r, espShmFlashWrite rets fuel k dst rest retlen = some r := by
  induction fuel with
  | zero => exact fun _ _ _ h => absurd h (Nat.not_lt_zero _)
  | succ fuel ih =>
    intro rest k dst retlen h
    unfold espShmFlashWrite
    by_cases hrest : rest = []
    · rw [if_pos hrest]
      exact ⟨_, rfl⟩
    · rw [if_neg hrest]
      by_cases hret : rets k ≠ 0
      · rw [if_pos hret]
        exact ⟨_, rfl⟩
      · rw [if_neg hret]
        have hpos : 0 < programLen dst rest := programLen_pos hrest
        have hlen := List.length_pos_iff.mpr hrest
        have hdrop : (rest.drop (programLen dst rest)).length < fuel := by
          rw [List.length_drop]
          omega
        obtain ⟨r, hr⟩ := ih (k + 1) (dst + programLen dst rest) (retlen + programLen dst rest)
          hdrop
        exact ⟨_, Option.map_eq_some_iff.mpr ⟨r, hr, rfl⟩⟩

theorem espShmFlashWrite_ok {size : U32} {rets : Nat → Int} {fuel : Nat} :
    ∀ {k dst retlen : Nat} {rest : List UInt8} {r : WriteRun}, dst + rest.length ≤ size.toNat →
      espShmFlashWrite rets fuel k dst rest retlen = some r →
        WriteOk size rets k dst rest retlen r := by
  induction fuel with
  | zero => exact fun _ h => absurd h (by simp [espShmFlashWrite])
  | succ fuel ih =>
    intro k dst retlen rest r hwin h
    unfold espShmFlashWrite at h
    by_cases hrest : rest = []
    · rw [if_pos hrest] at h
      obtain rfl := Option.some.inj h
      rw [hrest]
      exact .stop
    · rw [if_neg hrest] at h
      by_cases hret : rets k ≠ 0
      · rw [if_pos hret] at h
        obtain rfl := Option.some.inj h
        exact .fail hrest hwin hret
      · rw [if_neg hret] at h
        obtain ⟨r', h', rfl⟩ := Option.map_eq_some_iff.mp h
        have hle := programLen_le dst rest
        exact .cons hrest hwin (not_not.mp hret) (ih (by rw [List.length_drop]; omega) h')

/-! ## The result -/

/-- **Every piece of a write is one that the firmware accepts.** The loop ends for every input. When
the range lies in the window, the pieces tile a prefix of it, all of it when the write returns 0,
and `*retlen` is the length of the pieces whose commands returned 0. -/
theorem flash_write (size : U32) (rets : Nat → Int) (dst : Nat) (buf : List UInt8) {fuel : Nat}
    (hfuel : buf.length < fuel) :
    ∃ r, espShmFlashWrite rets fuel 0 dst buf 0 = some r ∧
      (dst + buf.length ≤ size.toNat →
        (∀ x ∈ r.calls, flashRequestValid size x.1.cmd.word x.1.addr x.1.len = true) ∧
        Tiles dst buf r.calls ∧
        r.calls.map (·.2) = (List.range r.calls.length).map rets ∧
        (r.ret = 0 → pieces r.calls = buf.length ∧ r.retlen = buf.length) ∧
        (r.ret ≠ 0 → r.retlen = written r.calls ∧
          ∃ before c, r.calls = before ++ [(c, r.ret)] ∧ ∀ x ∈ before, x.2 = 0)) := by
  obtain ⟨r, hr⟩ := espShmFlashWrite_ends rets 0 dst 0 hfuel
  refine ⟨r, hr, fun hwin => ?_⟩
  have h := espShmFlashWrite_ok hwin hr
  have hretlen : r.retlen = written r.calls := by rw [h.retlen, Nat.zero_add]
  refine ⟨h.valid, h.tiles, ?_, fun h0 => ?_, fun h0 => ⟨hretlen, h.failed h0⟩⟩
  · rw [h.rets]
    exact List.map_congr_left fun i _ => by rw [Nat.zero_add]
  · obtain ⟨hsum, hall⟩ := h.whole h0
    have hw : written r.calls = pieces r.calls := by
      unfold written
      rw [List.filter_eq_self.mpr fun x hx => decide_eq_true (hall x hx)]
    exact ⟨hsum, by rw [hretlen, hw, hsum]⟩

/-- Three bytes over the end of a mailbox block: two pieces, the second of which fails. -/
theorem flash_write_two :
    ∃ r, espShmFlashWrite (fun k => if k = 0 then 0 else -eio) 4 0 0x7ff [1, 2, 3] 0 = some r ∧
      (∀ x ∈ r.calls, flashRequestValid 0x1000 x.1.cmd.word x.1.addr x.1.len = true) := by
  have hfuel : ([1, 2, 3] : List UInt8).length < 4 := by decide
  obtain ⟨r, hr, h⟩ := flash_write 0x1000 (fun k => if k = 0 then 0 else -eio) 0x7ff [1, 2, 3] hfuel
  exact ⟨r, hr, (h (by decide)).1⟩

end Esp32S31.Flash
