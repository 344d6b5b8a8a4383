import Esp32S31.Flash.Read
import Esp32S31.Flash.Service

/-!
# An erase in blocks

`esp_shm_flash_erase` with the firmware's side of each command (`shm_flash_service`): the MTD core
checks that the range lies in the window, but not that it is made of whole blocks. A range that
starts inside a block is refused by the firmware. A range that only ends inside one is not: the
driver asks for the whole last block.

`esp_flash_erase_region` is not part of the repository: an erase that returns 0 leaves `0xff` in its
range, one that fails leaves anything there (`junk`).

* `hostStep_erase`: the holder of the mutex goes the same way step by step.
* **`flash_erase_iff`**: exactly when an erase changes only what was asked.
* `flash_erase_over`: one byte to erase, and the byte behind it is lost.
-/

namespace Esp32S31.Flash

open Esp32S31.Lib

abbrev U64 := BitVec 64

/-! ## One command -/

/-- How a command goes. -/
inductive Outcome where
  /-- CMD is not 0 yet -/
  | busy
  /-- the firmware completes it in time; `flash_op`, where it is called, returns `res` -/
  | completed (res : U32)
  /-- the wait times out -/
  | late
  deriving DecidableEq, Repr

/-- `v` in the range, the rest as it was. -/
def overwrite (start len : Nat) (v w : Nat → UInt8) : Nat → UInt8 := fun o =>
  if start ≤ o ∧ o < start + len then v o else w o

/-- The status and the window after an event of the firmware; an operation leaves `v` in its range.
-/
def serve (base : U32) (v : Nat → UInt8) (b : U32 × (Nat → UInt8)) : ServiceEvent → U32 ×
    (Nat → UInt8)
  | .op (.write _ dst len) => (b.1, overwrite (dst - base).toNat len.toNat v b.2)
  | .op (.erase start len) => (b.1, overwrite (start - base).toNat len.toNat v b.2)
  | .status err => (err, b.2)
  | .clear => b

/-- The firmware serves the command. -/
def serviced (base size : U32) (v : Nat → UInt8) (c : FlashCall) (w : Nat → UInt8) (res : U32) :
    U32 × (Nat → UInt8) :=
  (shmFlashService base size c.cmd.word c.addr c.len res).foldl (serve base v) (0, w)

/-- `esp_shm_flash_cmd` for an erase: what it returns, and the window. -/
def eraseCmd (base size : U32) (junk : Nat → UInt8) (addr : U64) (w : Nat → UInt8) :
    Outcome → Int × (Nat → UInt8)
  | .busy => (-ebusy, w)
  | .completed res =>
    let b := serviced base size (if res = espOk then fun _ => 0xff else junk)
      (eraseCall addr.toNat) w res
    (if b.1 = 0 then 0 else -eio, b.2)
  | .late => (-etimedout, (serviced base size junk (eraseCall addr.toNat) w espOk).2)

/-! ## `esp_shm_flash_erase` -/

/-- What an erase returns, `fail_addr` where it is set, the window, and the commands with what they
returned. -/
structure EraseRun where
  ret : Int
  failAddr : Option U64
  window : Nat → UInt8
  calls : List (U64 × Int)

/-- The loop, up to `stop`; command `k` goes as `out k`. -/
def espShmFlashErase (base size : U32) (out : Nat → Outcome) (junk : Nat → UInt8) (stop : U64) :
    Nat → Nat → U64 → (Nat → UInt8) → Option EraseRun
  | 0, _, _, _ => none
  | fuel + 1, k, addr, w =>
    if addr < stop then
      let x := eraseCmd base size junk addr w (out k)
      if x.1 ≠ 0 then some ⟨x.1, some addr, x.2, [(addr, x.1)]⟩
      else
        (espShmFlashErase base size out junk stop fuel (k + 1) (addr + 0x10000) x.2).map fun r =>
          { r with calls := (addr, 0) :: r.calls }
    else some ⟨0, none, w, []⟩

/-- Only the range changes; on success all of it is erased, and on an error all of it before the
command that failed, whose address is `fail_addr`. -/
structure EraseOk (addr len : Nat) (w : Nat → UInt8) (r : EraseRun) : Prop where
  frame : ∀ o, o < addr ∨ addr + len ≤ o → r.window o = w o
  erased : r.ret = 0 → ∀ o, addr ≤ o → o < addr + len → r.window o = 0xff
  failed : r.ret ≠ 0 → ∃ before c, r.failAddr = some c ∧ r.calls = before ++ [(c, r.ret)] ∧
    (∀ x ∈ before, x.2 = 0) ∧ (addr ≤ c.toNat ∧ c.toNat < addr + len) ∧
    ∀ o, addr ≤ o → o < c.toNat → r.window o = 0xff

/-- The firmware erases at `addr`: a block of the window. -/
def BlockAt (size : U32) (addr : Nat) : Prop := addr % 0x10000 = 0 ∧ addr + 0x10000 ≤ size.toNat

/-- No command erases past the end of the range: it is made of whole blocks, or the command for the
block where it ends is refused, or comes after one that failed, or finds the mailbox busy. -/
def Contained (size : U32) (out : Nat → Outcome) (k addr len : Nat) : Prop :=
  len % 0x10000 = 0 ∨ ¬ BlockAt size (addr + len / 0x10000 * 0x10000) ∨
    (∃ j < len / 0x10000, out (k + j) ≠ .completed espOk) ∨ out (k + len / 0x10000) = .busy

/-! ## What a command does -/

theorem overwrite_of_not {start len o : Nat} {v w : Nat → UInt8}
    (h : ¬ (start ≤ o ∧ o < start + len)) : overwrite start len v w o = w o :=
  if_neg h

theorem overwrite_of_mem {start len o : Nat} {v w : Nat → UInt8} (h : start ≤ o ∧ o < start + len) :
    overwrite start len v w o = v o :=
  if_pos h

theorem errno_ne_zero : -ebusy ≠ 0 ∧ -eio ≠ 0 ∧ -etimedout ≠ 0 := by decide

section Command

variable {base size : U32} {addr : U64} (haddr : addr.toNat < 2 ^ 32)

include haddr

theorem eraseCall_valid :
    flashRequestValid size (eraseCall addr.toNat).cmd.word (eraseCall addr.toNat).addr
      (eraseCall addr.toNat).len = true ↔ BlockAt size addr.toNat := by
  have ha : (eraseCall addr.toNat).addr.toNat = addr.toNat := Nat.mod_eq_of_lt haddr
  have hl : (eraseCall addr.toNat).len.toNat = 0x10000 := rfl
  rw [flashRequestValid_iff]
  unfold Allowed BlockAt
  rw [ha, hl]
  constructor
  · rintro ⟨_, hle, ⟨_, hblock, _⟩ | ⟨hp, _⟩⟩
    · exact ⟨hblock, hle⟩
    · have hne : FlashCmd.erase.word ≠ FlashCmd.program.word := by decide
      exact absurd hp hne
  · rintro ⟨hblock, hle⟩
    exact ⟨by omega, hle, Or.inl ⟨rfl, hblock, rfl⟩⟩

theorem serviced_valid (h : BlockAt size addr.toNat) (v w : Nat → UInt8) (res : U32) :
    serviced base size v (eraseCall addr.toNat) w res = (res,
      overwrite addr.toNat 0x10000 v w) := by
  have hstart : (base + (eraseCall addr.toNat).addr - base).toNat = addr.toNat := by
    rw [BitVec.add_comm, BitVec.add_sub_cancel]
    exact Nat.mod_eq_of_lt haddr
  unfold serviced shmFlashService
  rw [if_neg (FlashCmd.word_ne_zero _), if_pos ((eraseCall_valid haddr).mpr h)]
  show (res, overwrite (base + (eraseCall addr.toNat).addr - base).toNat 0x10000 v w) = _
  rw [hstart]

theorem serviced_refused (h : ¬ BlockAt size addr.toNat) (v w : Nat → UInt8) (res : U32) :
    serviced base size v (eraseCall addr.toNat) w res = (espErrInvalidArg, w) := by
  unfold serviced shmFlashService
  rw [if_neg (FlashCmd.word_ne_zero _), if_neg fun hv => h ((eraseCall_valid haddr).mp hv)]
  rfl

/-- **What one command does.** It returns 0 only when the firmware erased the block; else the window
is as it was, or the block holds what the failed operation left. -/
theorem eraseCmd_cases (junk w : Nat → UInt8) (o : Outcome) :
    (o = .completed espOk ∧ BlockAt size addr.toNat ∧
      eraseCmd base size junk addr w o = (0, overwrite addr.toNat 0x10000 (fun _ => 0xff) w)) ∨
    ∃ ret w', ret ≠ 0 ∧ eraseCmd base size junk addr w o = (ret, w') ∧
      (w' = w ∧ (o = .busy ∨ ¬ BlockAt size addr.toNat) ∨
        w' = overwrite addr.toNat 0x10000 junk w ∧ o ≠ .busy ∧ o ≠ .completed espOk ∧
          BlockAt size addr.toNat) := by
  obtain ⟨hbusy, hio, htime⟩ := errno_ne_zero
  cases o with
  | busy => exact Or.inr ⟨_, _, hbusy, rfl, Or.inl ⟨rfl, Or.inl rfl⟩⟩
  | completed res =>
    unfold eraseCmd
    dsimp only
    by_cases hv : BlockAt size addr.toNat
    · rw [serviced_valid haddr hv]
      dsimp only
      by_cases hres : res = espOk
      · rw [hres]
        exact Or.inl ⟨rfl, hv, rfl⟩
      · rw [if_neg hres, if_neg (show ¬ res = 0 from hres)]
        exact Or.inr ⟨_, _, hio, rfl, Or.inr ⟨rfl, nofun, fun he => hres (Outcome.completed.inj he),
          hv⟩⟩
    · rw [serviced_refused haddr hv]
      exact Or.inr ⟨_, _, hio, rfl, Or.inl ⟨rfl, Or.inr hv⟩⟩
  | late =>
    unfold eraseCmd
    by_cases hv : BlockAt size addr.toNat
    · rw [serviced_valid haddr hv]
      exact Or.inr ⟨_, _, htime, rfl, Or.inr ⟨rfl, nofun, nofun, hv⟩⟩
    · rw [serviced_refused haddr hv]
      exact Or.inr ⟨_, _, htime, rfl, Or.inl ⟨rfl, Or.inr hv⟩⟩

end Command

/-! ## The condition, block by block -/

section Condition

variable {size : U32} {out : Nat → Outcome} {k addr len : Nat}

/-- A whole block goes well: the condition is that of the rest. -/
theorem contained_next (hlen : 0x10000 ≤ len) (hok : out k = .completed espOk) :
    Contained size out k addr len ↔
      Contained size out (k + 1) (addr + 0x10000) (len - 0x10000) := by
  have hdiv : len / 0x10000 = (len - 0x10000) / 0x10000 + 1 := by omega
  have hmod : (len - 0x10000) % 0x10000 = len % 0x10000 := by omega
  have hlast : addr + len / 0x10000 * 0x10000 =
      addr + 0x10000 + (len - 0x10000) / 0x10000 * 0x10000 := by omega
  have hbusy : k + 1 + (len - 0x10000) / 0x10000 = k + len / 0x10000 := by omega
  unfold Contained
  rw [hlast, hmod, hbusy]
  refine or_congr_right (or_congr_right (or_congr_left ?_))
  constructor
  · rintro ⟨j, hj, hne⟩
    cases j with
    | zero => exact absurd hok hne
    | succ j =>
      refine ⟨j, by omega, ?_⟩
      rw [Nat.add_assoc, Nat.add_comm 1 j]
      exact hne
  · rintro ⟨j, hj, hne⟩
    refine ⟨j + 1, by omega, ?_⟩
    rw [Nat.add_assoc, Nat.add_comm 1 j] at hne
    exact hne

/-- The block where the range ends. -/
theorem contained_last (hpos : 0 < len) (hlen : len < 0x10000) :
    Contained size out k addr len ↔ ¬ BlockAt size addr ∨ out k = .busy := by
  have hdiv : len / 0x10000 = 0 := Nat.div_eq_of_lt hlen
  have hmod : len % 0x10000 = len := Nat.mod_eq_of_lt hlen
  unfold Contained
  rw [hdiv, hmod, Nat.zero_mul, Nat.add_zero, Nat.add_zero]
  constructor
  · rintro (h | h | ⟨j, hj, _⟩ | h)
    · omega
    · exact Or.inl h
    · exact absurd hj (Nat.not_lt_zero _)
    · exact Or.inr h
  · rintro (h | h)
    · exact Or.inr (Or.inl h)
    · exact Or.inr (Or.inr (Or.inr h))

end Condition

/-! ## The loop -/

theorem EraseOk.stop (addr : Nat) (w : Nat → UInt8) : EraseOk addr 0 w ⟨0, none, w, []⟩ where
  frame _ _ := rfl
  erased _ _ h1 h2 := absurd (Nat.lt_of_le_of_lt h1 h2) (Nat.lt_irrefl _)
  failed h := absurd rfl h

/-- A command that fails ends the erase. -/
theorem EraseOk.fail {addr : U64} {len : Nat} {w w' : Nat → UInt8} {ret : Int} (hpos : 0 < len)
    (hret : ret ≠ 0)
    (hw : ∀ o, o < addr.toNat ∨ addr.toNat + len ≤ o → w' o = w o) :
    EraseOk addr.toNat len w ⟨ret, some addr, w', [(addr, ret)]⟩ where
  frame := hw
  erased h := absurd h hret
  failed _ := ⟨[], addr, rfl, rfl, fun _ hx => absurd hx List.not_mem_nil,
    ⟨Nat.le_refl _, by omega⟩, fun _ h1 h2 => absurd (Nat.lt_of_le_of_lt h1 h2) (Nat.lt_irrefl _)⟩

/-- A block that is erased goes in front of the rest. -/
theorem EraseOk.next {addr : U64} {len : Nat} {w : Nat → UInt8} {r : EraseRun}
    (hlen : 0x10000 ≤ len)
    (h : EraseOk (addr.toNat + 0x10000) (len - 0x10000)
      (overwrite addr.toNat 0x10000 (fun _ => 0xff) w) r) :
    EraseOk addr.toNat len w { r with calls := (addr, 0) :: r.calls } := by
  -- the rest leaves the block erased
  have hblock : ∀ o, addr.toNat ≤ o → o < addr.toNat + 0x10000 → r.window o = 0xff := by
    intro o h1 h2
    rw [h.frame o (Or.inl h2)]
    exact overwrite_of_mem ⟨h1, h2⟩
  constructor
  · intro o ho
    have hout : r.window o = overwrite addr.toNat 0x10000 (fun _ => 0xff) w o :=
      h.frame o (by omega)
    exact hout.trans (overwrite_of_not (by omega))
  · intro hr o h1 h2
    by_cases hlt : o < addr.toNat + 0x10000
    · exact hblock o h1 hlt
    · exact h.erased hr o (by omega) (by omega)
  · intro hr
    obtain ⟨before, c, hfail, hcalls, hall, hc, hff⟩ := h.failed hr
    refine ⟨(addr, 0) :: before, c, hfail, ?_, ?_, by omega, ?_⟩
    · rw [hcalls]
      rfl
    · intro x hx
      rcases List.mem_cons.mp hx with rfl | hx
      · rfl
      · exact hall x hx
    · intro o h1 h2
      by_cases hlt : o < addr.toNat + 0x10000
      · exact hblock o h1 hlt
      · exact hff o (by omega) h2

section Loop

variable {base size : U32} {out : Nat → Outcome} {junk : Nat → UInt8} {stop : U64}
  (hstop : stop.toNat ≤ size.toNat)

include hstop

/-- The address of the next block. -/
theorem next_toNat {addr : U64} (h : addr.toNat < stop.toNat) :
    (addr + 0x10000).toNat = addr.toNat + 0x10000 := by
  have hsize := size.isLt
  rw [BitVec.toNat_add]
  exact Nat.mod_eq_of_lt (by
    show addr.toNat + 0x10000 < _
    omega)

theorem espShmFlashErase_ends {fuel : Nat} :
    ∀ (k : Nat) (addr : U64) (w : Nat → UInt8), stop.toNat - addr.toNat < fuel →
      ∃ r, espShmFlashErase base size out junk stop fuel k addr w = some r := by
  induction fuel with
  | zero => exact fun _ _ _ h => absurd h (Nat.not_lt_zero _)
  | succ fuel ih =>
    intro k addr w h
    unfold espShmFlashErase
    by_cases hlt : addr < stop
    · rw [if_pos hlt]
      dsimp only
      by_cases hret : (eraseCmd base size junk addr w (out k)).1 ≠ 0
      · rw [if_pos hret]
        exact ⟨_, rfl⟩
      · rw [if_neg hret]
        have hlt' := BitVec.lt_def.mp hlt
        have hnext := next_toNat hstop hlt'
        obtain ⟨r, hr⟩ := ih (k + 1) (addr + 0x10000) (eraseCmd base size junk addr w (out k)).2
          (by omega)
        exact ⟨_, Option.map_eq_some_iff.mpr ⟨r, hr, rfl⟩⟩
    · rw [if_neg hlt]
      exact ⟨_, rfl⟩

/-- While no command erases past the end, the erase is as asked. -/
theorem espShmFlashErase_ok {fuel : Nat} :
    ∀ {k : Nat} {addr : U64} {w : Nat → UInt8} {r : EraseRun}, addr.toNat ≤ stop.toNat →
      Contained size out k addr.toNat (stop.toNat - addr.toNat) →
      espShmFlashErase base size out junk stop fuel k addr w = some r →
      EraseOk addr.toNat (stop.toNat - addr.toNat) w r := by
  induction fuel with
  | zero => exact fun _ _ h => absurd h (by simp [espShmFlashErase])
  | succ fuel ih =>
    intro k addr w r hle hc h
    unfold espShmFlashErase at h
    by_cases hlt : addr < stop
    · rw [if_pos hlt] at h
      dsimp only at h
      have hlt := BitVec.lt_def.mp hlt
      have hsize := size.isLt
      have hnext := next_toNat hstop hlt
      rcases @eraseCmd_cases base size addr (by omega) junk w (out k) with
        ⟨hok, hblock, hx⟩ | ⟨ret, w', hret, hx, hw⟩
      · rw [hx, if_neg (fun hne => hne rfl)] at h
        obtain ⟨r', h', rfl⟩ := Option.map_eq_some_iff.mp h
        -- a block that is erased is a whole one: the condition excludes that it is the last part
        have hwhole : 0x10000 ≤ stop.toNat - addr.toNat := by
          by_contra hpart
          rcases (contained_last (by omega) (by omega)).mp hc with hn | hb
          · exact hn hblock
          · rw [hok] at hb
            exact absurd hb nofun
        have hrest : stop.toNat - (addr + 0x10000).toNat = stop.toNat - addr.toNat - 0x10000 := by
          omega
        have hc' := (contained_next hwhole hok).mp hc
        rw [← hnext, ← hrest] at hc'
        have := ih (by omega) hc' h'
        rw [hnext, ← Nat.sub_sub] at this
        exact this.next hwhole
      · rw [hx, if_pos hret] at h
        obtain rfl := Option.some.inj h
        refine .fail (by omega) hret fun o ho => ?_
        rcases hw with ⟨rfl, _⟩ | ⟨rfl, hb, -, hblock⟩
        · rfl
        · refine overwrite_of_not fun hmem => ?_
          rcases Nat.lt_or_ge (stop.toNat - addr.toNat) 0x10000 with hpart | hwhole
          · rcases (contained_last (by omega) hpart).mp hc with hn | hbusy
            · exact hn hblock
            · exact hb hbusy
          · omega
    · rw [if_neg hlt] at h
      obtain rfl := Option.some.inj h
      have hend : stop.toNat - addr.toNat = 0 := by
        have := BitVec.le_def.mp (BitVec.not_lt.mp hlt)
        omega
      rw [hend]
      exact .stop _ _

/-- Else the byte behind the range does not survive. -/
theorem espShmFlashErase_over {fuel : Nat} (hjunk : junk stop.toNat = 1) :
    ∀ {k : Nat} {addr : U64} {w : Nat → UInt8} {r : EraseRun}, addr.toNat ≤ stop.toNat →
      ¬ Contained size out k addr.toNat (stop.toNat - addr.toNat) →
      espShmFlashErase base size out junk stop fuel k addr w = some r →
        r.window stop.toNat ≠ 0 := by
  induction fuel with
  | zero => exact fun _ _ h => absurd h (by simp [espShmFlashErase])
  | succ fuel ih =>
    intro k addr w r hle hc h
    have hmod : (stop.toNat - addr.toNat) % 0x10000 ≠ 0 := fun h0 => hc (Or.inl h0)
    have hlt : addr.toNat < stop.toNat := by omega
    have hsize := size.isLt
    have hnext := next_toNat hstop hlt
    unfold espShmFlashErase at h
    rw [if_pos (BitVec.lt_def.mpr hlt)] at h
    dsimp only at h
    have hcmd := @eraseCmd_cases base size addr (by omega) junk w (out k)
    rcases Nat.lt_or_ge (stop.toNat - addr.toNat) 0x10000 with hpart | hwhole
    · -- the last block: its command reaches past the end
      have hmem : addr.toNat ≤ stop.toNat ∧ stop.toNat < addr.toNat + 0x10000 := by omega
      have hn := mt (contained_last (by omega) hpart).mpr hc
      rw [not_or, not_not] at hn
      rcases hcmd with ⟨_, _, hx⟩ | ⟨ret, w', hret, hx, ⟨_, hb | hb⟩ | ⟨rfl, _⟩⟩
      · rw [hx, if_neg (fun hne => hne rfl)] at h
        obtain ⟨r', h', rfl⟩ := Option.map_eq_some_iff.mp h
        cases fuel with
        | zero => exact absurd h' (by simp [espShmFlashErase])
        | succ fuel =>
          unfold espShmFlashErase at h'
          rw [if_neg (BitVec.not_lt.mpr (BitVec.le_def.mpr (by omega)))] at h'
          obtain rfl := Option.some.inj h'
          show overwrite addr.toNat 0x10000 (fun _ => 0xff) w stop.toNat ≠ 0
          rw [overwrite_of_mem hmem]
          decide
      · exact absurd hb hn.2
      · exact absurd hn.1 hb
      · rw [hx, if_pos hret] at h
        obtain rfl := Option.some.inj h
        show overwrite addr.toNat 0x10000 junk w stop.toNat ≠ 0
        rw [overwrite_of_mem hmem, hjunk]
        decide
    · -- a whole block: it went well
      have hok : out k = .completed espOk := by
        by_contra hne
        exact hc (Or.inr (Or.inr (Or.inl ⟨0, by omega, hne⟩)))
      have hlast : BlockAt size addr.toNat := by
        have := not_not.mp fun hn => hc (Or.inr (Or.inl hn))
        unfold BlockAt at this ⊢
        omega
      rcases hcmd with ⟨_, _, hx⟩ | ⟨ret, w', hret, hx, ⟨_, hb | hb⟩ | ⟨_, _, hne, _⟩⟩
      · rw [hx, if_neg (fun hne => hne rfl)] at h
        obtain ⟨r', h', rfl⟩ := Option.map_eq_some_iff.mp h
        have hrest : stop.toNat - (addr + 0x10000).toNat = stop.toNat - addr.toNat - 0x10000 := by
          omega
        have hc' : ¬ Contained size out (k + 1)
            (addr + 0x10000).toNat (stop.toNat - (addr + 0x10000).toNat) := by
          rw [hrest, hnext, ← contained_next hwhole hok]
          exact hc
        have hover := ih (by omega) hc' h'
        exact hover
      · rw [hok] at hb
        exact absurd hb nofun
      · exact absurd hlast hb
      · exact absurd hok hne

/-- Step by step, the holder of the mutex places the same commands and returns the same. -/
theorem hostStep_erase {fuel k : Nat} {addr : U64} {w : Nat → UInt8} {r : EraseRun}
    (h : espShmFlashErase base size out junk stop (fuel + 1) k addr w = some r) (s : FlashSys)
      (chunk : Nat)
    (expired : Bool) :
    (r.calls = [] ∧ s.hostStep chunk expired (.erase addr.toNat stop.toNat none) =
      s.release (.erase r.ret none)) ∨
    ∃ ret w' more, r.calls = (addr, ret) :: more ∧
      eraseCmd base size junk addr w (out k) = (ret, w') ∧
      s.hostStep chunk expired (.erase addr.toNat stop.toNat none) =
        { s with lock := some (.erase addr.toNat stop.toNat (some (eraseCall addr.toNat,
          .readCmd))) } ∧
      (s.hostStep chunk expired (.erase addr.toNat stop.toNat (some (eraseCall addr.toNat,
          .done ret))) = s.release (.erase r.ret (r.failAddr.map BitVec.toNat)) ∨
        ∃ addr', espShmFlashErase base size out junk stop fuel (k + 1) addr' w' = some { r with
          calls := more } ∧
          s.hostStep chunk expired (.erase addr.toNat stop.toNat (some (eraseCall addr.toNat,
            .done ret))) = { s with lock := some (.erase addr'.toNat stop.toNat none) }) := by
  unfold espShmFlashErase at h
  by_cases hlt : addr < stop
  · have hlt' := BitVec.lt_def.mp hlt
    rw [if_pos hlt] at h
    dsimp only at h
    right
    by_cases hret : (eraseCmd base size junk addr w (out k)).1 ≠ 0
    · rw [if_pos hret] at h
      obtain rfl := Option.some.inj h
      exact ⟨_, _, [], rfl, rfl, if_pos hlt', Or.inl (if_pos hret)⟩
    · rw [if_neg hret] at h
      obtain ⟨r', h', rfl⟩ := Option.map_eq_some_iff.mp h
      refine ⟨0, _, r'.calls, rfl, Prod.ext (not_not.mp hret) rfl, if_pos hlt', Or.inr ⟨_, h', ?_⟩⟩
      rw [next_toNat hstop hlt']
      rfl
  · rw [if_neg hlt] at h
    obtain rfl := Option.some.inj h
    exact Or.inl ⟨rfl, if_neg fun hl => hlt (BitVec.lt_def.mpr hl)⟩

end Loop

/-! ## The result -/

/-- **Exactly when an erase changes only what was asked**, for a range that the MTD core admits and
whatever a failed operation leaves. -/
theorem flash_erase_iff {size : U32} {addr len : U64} (haddr : addr.toNat < size.toNat)
    (hlen : len.toNat ≤ size.toNat - addr.toNat) (base : U32) (out : Nat → Outcome) {fuel : Nat}
    (hfuel : len.toNat < fuel) :
    (∀ junk w, ∃ r, espShmFlashErase base size out junk (addr + len) fuel 0 addr w = some r ∧
      EraseOk addr.toNat len.toNat w r) ↔ Contained size out 0 addr.toNat len.toNat := by
  have hsize := size.isLt
  have hstop : (addr + len).toNat = addr.toNat + len.toNat := by
    rw [BitVec.toNat_add]
    exact Nat.mod_eq_of_lt (by omega)
  have hle : (addr + len).toNat ≤ size.toNat := by omega
  have hrange : (addr + len).toNat - addr.toNat = len.toNat := by omega
  constructor
  · intro h
    by_contra hc
    obtain ⟨r, hr, hok⟩ := h (fun _ => 1) (fun _ => 0)
    rw [← hrange] at hc
    refine espShmFlashErase_over hle rfl (by omega) hc hr ?_
    exact hok.frame _ (Or.inr (by omega))
  · intro hc junk w
    obtain ⟨r, hr⟩ : ∃ r, espShmFlashErase base size out junk (addr + len) fuel 0 addr w = some r :=
      espShmFlashErase_ends hle 0 addr w (by omega)
    rw [← hrange] at hc ⊢
    exact ⟨r, hr, espShmFlashErase_ok hle (by omega) hc hr⟩

/-- Two whole blocks, the second of which fails. -/
theorem flash_erase_two : ∃ r,
    espShmFlashErase 0x590000 0xa70000 (fun k => if k = 0 then .completed espOk else .late)
      (fun _ => 1)
        ((0x10000 : U64) + 0x20000) 0x20001 0 0x10000 (fun _ => 0) = some r ∧
      EraseOk (0x10000 : U64).toNat (0x20000 : U64).toNat (fun _ => 0) r := by
  have haddr : (0x10000 : U64).toNat < (0xa70000 : U32).toNat := by decide
  have hlen : (0x20000 : U64).toNat ≤ (0xa70000 : U32).toNat - (0x10000 : U64).toNat := by decide
  have hfuel : (0x20000 : U64).toNat < 0x20001 := by decide
  exact (flash_erase_iff haddr hlen 0x590000 _ hfuel).mpr (Or.inl (by decide)) (fun _ => 1)
    (fun _ => 0)

/-- One byte to erase, no command fails: the byte behind it is erased as well. -/
theorem flash_erase_over :
    ¬ ∃ r, espShmFlashErase 0x590000 0xa70000 (fun _ => .completed espOk) (fun _ => 0)
      ((0 : U64) + 1) 2 0 0
        (fun _ => 0) = some r ∧ EraseOk (0 : U64).toNat (1 : U64).toNat (fun _ => 0) r := by
  rintro ⟨r, hr, hok⟩
  have hbyte : (espShmFlashErase 0x590000 0xa70000 (fun _ => .completed espOk) (fun _ => 0)
      ((0 : U64) + 1) 2 0 0
      (fun _ => 0)).map (fun r => r.window 1) = some 0xff := by decide
  rw [hr] at hbyte
  have hframe : r.window 1 = 0 := hok.frame 1 (Or.inr (by decide))
  exact absurd ((Option.some.inj hbyte).symm.trans hframe) (by decide)

end Esp32S31.Flash
