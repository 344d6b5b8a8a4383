import Esp32S31.Flash.Mailbox

/-!
# The requests that the firmware carries out

`shm_flash_service` for one request: the flash operation that it calls, with absolute addresses, and
its stores to the mailbox, in order (`Mailbox` has the same function step by step,
`serviceStep_test`). `Allowed` says in numbers which requests `flash_request_valid` lets through.

* `flashRequestValid_iff`: no sum in the check wraps.
* **`flash_service`**: what happens for any content of the mailbox.
-/

namespace Esp32S31.Flash

open Esp32S31.Lib

/-- `ESP_SHM_FLASH_DATA`: the data area, from the start of the shared block. -/
def flashData : U32 := 0x800

/-- A call of the flash driver, with its arguments. -/
inductive FlashOp where
  /-- `esp_flash_write(NULL, src, dst, len)` -/
  | write (src dst len : U32)
  /-- `esp_flash_erase_region(NULL, start, len)` -/
  | erase (start len : U32)
  deriving DecidableEq, Repr

/-- What `shm_flash_service` does. -/
inductive ServiceEvent where
  | op (o : FlashOp)
  | status (err : U32)
  | clear
  deriving DecidableEq, Repr

/-- `flash_op`, with `s_base`. -/
def flashOp (base cmd addr len : U32) : FlashOp :=
  if cmd = FlashCmd.program.word then .write flashData (base + addr) len
    else .erase (base + addr) len

/-- `shm_flash_service` with the words that it has loaded; `res` is what `flash_op` returns. -/
def shmFlashService (base size cmd addr len res : U32) : List ServiceEvent :=
  if cmd = 0 then []
  else if flashRequestValid size cmd addr len then [.op (flashOp base cmd addr len), .status res,
    .clear]
  else [.status espErrInvalidArg, .clear]

/-- The task step by step goes the same way: it calls `flash_op`, or stores the status of the
refusal. -/
theorem serviceStep_test {size : U32} (a : OpAct) (kick : Bool) (b : Mailbox) {cmd : U32}
    (hcmd : cmd ≠ 0)
    (addr len base res : U32) :
    (serviceStep size a kick b (.test cmd addr len) = some (kick, b, .op ⟨cmd, addr, len, []⟩,
      false) ∧
      shmFlashService base size cmd addr len res = [.op (flashOp base cmd addr len), .status res,
        .clear]) ∨
    (serviceStep size a kick b (.test cmd addr len) =
        some (kick, b, .writeStatus ⟨cmd, addr, len, []⟩ espErrInvalidArg, false) ∧
      shmFlashService base size cmd addr len res = [.status espErrInvalidArg, .clear]) := by
  unfold serviceStep shmFlashService
  dsimp only
  rw [if_neg hcmd, if_neg hcmd]
  by_cases hv : flashRequestValid size cmd addr len = true
  · rw [if_pos hv, if_pos hv]
    exact Or.inl ⟨rfl, rfl⟩
  · rw [if_neg hv, if_neg hv]
    exact Or.inr ⟨rfl, rfl⟩

/-! ## The check -/

/-- A program of at most 2 KiB in one sector of the window, or an erase of one block of it. -/
def Allowed (size cmd addr len : U32) : Prop :=
  addr.toNat < size.toNat ∧ addr.toNat + len.toNat ≤ size.toNat ∧
    ((cmd = FlashCmd.erase.word ∧ addr.toNat % 0x10000 = 0 ∧ len.toNat = 0x10000) ∨
      (cmd = FlashCmd.program.word ∧ len.toNat ≤ 0x800 ∧ addr.toNat % 0x1000 + len.toNat ≤ 0x1000))

instance (size cmd addr len : U32) : Decidable (Allowed size cmd addr len) :=
  inferInstanceAs (Decidable (_ ∧ _))

/-- **The check lets exactly these through**: neither `size - addr` nor `addr % SECTOR + len` wraps.
-/
theorem flashRequestValid_iff (size cmd addr len : U32) :
    flashRequestValid size cmd addr len = true ↔ Allowed size cmd addr len := by
  have hblock : addr % flashBlock = 0 ↔ addr.toNat % 0x10000 = 0 := by
    rw [← BitVec.toNat_inj, BitVec.toNat_umod]
    rfl
  have hlen : len = flashBlock ↔ len.toNat = 0x10000 := by
    rw [← BitVec.toNat_inj]
    rfl
  have hdata : len ≤ flashDataSize ↔ len.toNat ≤ 0x800 := BitVec.le_def
  have hsector : len.toNat ≤ 0x800 →
      (addr % flashSector + len ≤ flashSector ↔ addr.toNat % 0x1000 + len.toNat ≤ 0x1000) := by
    intro hsmall
    have hmod : (addr % flashSector).toNat = addr.toNat % 0x1000 := BitVec.toNat_umod
    have hlt : addr.toNat % 0x1000 < 0x1000 := Nat.mod_lt _ (by decide)
    rw [BitVec.le_def, BitVec.toNat_add, hmod, Nat.mod_eq_of_lt (by omega)]
    rfl
  unfold flashRequestValid Allowed
  by_cases hrange : size ≤ addr ∨ size - addr < len
  · rw [if_pos hrange]
    constructor
    · intro h
      cases h
    · rintro ⟨h1, h2, _⟩
      rcases hrange with h | h
      · have := BitVec.le_def.mp h
        omega
      · have := BitVec.lt_def.mp h
        rw [BitVec.toNat_sub_of_le (BitVec.le_def.mpr (by omega))] at this
        omega
  · rw [not_or, BitVec.not_le, BitVec.not_lt] at hrange
    have h1 := BitVec.lt_def.mp hrange.1
    have h2 := BitVec.le_def.mp hrange.2
    rw [BitVec.toNat_sub_of_le (BitVec.le_def.mpr (by omega))] at h2
    rw [if_neg (by rw [not_or, BitVec.not_le, BitVec.not_lt]; exact hrange)]
    by_cases herase : cmd = FlashCmd.erase.word
    · rw [if_pos herase, decide_eq_true_eq, hblock, hlen]
      constructor
      · intro h
        exact ⟨h1, by omega, Or.inl ⟨herase, h⟩⟩
      · rintro ⟨_, _, ⟨_, h⟩ | ⟨hp, _⟩⟩
        · exact h
        · exact absurd (herase.symm.trans hp) (by decide)
    · rw [if_neg herase, decide_eq_true_eq, hdata]
      constructor
      · rintro ⟨hp, hsmall, hs⟩
        exact ⟨h1, by omega, Or.inr ⟨hp, hsmall, (hsector hsmall).mp hs⟩⟩
      · rintro ⟨_, _, ⟨he, _⟩ | ⟨hp, hsmall, hs⟩⟩
        · exact absurd he herase
        · exact ⟨hp, hsmall, (hsector hsmall).mpr hs⟩

/-! ## The operation -/

/-- The bytes from `start` on are in the window at `base`. -/
def InWindow (base size start len : U32) : Prop :=
  base.toNat ≤ start.toNat ∧ start.toNat + len.toNat ≤ base.toNat + size.toNat

/-- What the flash driver may be asked for: a program of at most 2 KiB, from the data area, in one
sector of the window, or an erase of one block of it. -/
def FlashOp.Safe (base size : U32) : FlashOp → Prop
  | .write src dst len => InWindow base size dst len ∧ len.toNat ≤ 0x800 ∧
      0x800 ≤ src.toNat ∧ src.toNat + len.toNat ≤ 0x1000 ∧
      (dst.toNat - base.toNat) % 0x1000 + len.toNat ≤ 0x1000
  | .erase start len => InWindow base size start len ∧ len.toNat = 0x10000 ∧
      (start.toNat - base.toNat) % 0x10000 = 0

theorem flashOp_safe {base size cmd addr len : U32} (hwin : base.toNat + size.toNat < 2 ^ 32)
    (h : Allowed size cmd addr len) : (flashOp base cmd addr len).Safe base size := by
  obtain ⟨hlt, hle, hcmd⟩ := h
  have hstart : (base + addr).toNat = base.toNat + addr.toNat := by
    rw [BitVec.toNat_add, Nat.mod_eq_of_lt (by omega)]
  have hin : InWindow base size (base + addr) len := by
    unfold InWindow
    rw [hstart]
    omega
  have hoff : (base + addr).toNat - base.toNat = addr.toNat := by omega
  unfold flashOp
  rcases hcmd with ⟨rfl, hblock, hlen⟩ | ⟨rfl, hlen, hsector⟩
  · rw [if_neg (by decide)]
    refine ⟨hin, hlen, ?_⟩
    rw [hoff]
    exact hblock
  · have hdata : flashData.toNat = 0x800 := rfl
    rw [if_pos rfl]
    refine ⟨hin, hlen, by omega, by omega, ?_⟩
    rw [hoff]
    exact hsector

/-- **The flash window holds.** Whatever the mailbox says, the flash driver is called only for a
request that is allowed, and then with what is safe; any other request gets a status that is not 0.
CMD is cleared last. -/
theorem flash_service {base size : U32} (hwin : base.toNat + size.toNat < 2 ^ 32)
    (cmd addr len res : U32) : (cmd = 0 → shmFlashService base size cmd addr len res = []) ∧
    (cmd ≠ 0 → Allowed size cmd addr len → ∃ o : FlashOp, o.Safe base size ∧
      shmFlashService base size cmd addr len res = [.op o, .status res, .clear]) ∧
    (cmd ≠ 0 → ¬ Allowed size cmd addr len → ∃ err, err ≠ espOk ∧
      shmFlashService base size cmd addr len res = [.status err, .clear]) := by
  unfold shmFlashService
  refine ⟨fun h => if_pos h, fun hcmd h => ?_, fun hcmd h => ?_⟩
  · rw [if_neg hcmd, if_pos ((flashRequestValid_iff _ _ _ _).mpr h)]
    exact ⟨_, flashOp_safe hwin h, rfl⟩
  · rw [if_neg hcmd, if_neg fun hv => h ((flashRequestValid_iff _ _ _ _).mp hv)]
    exact ⟨espErrInvalidArg, by decide, rfl⟩

/-- The window of the partition table: an erase of its last block. -/
theorem flash_service_last : ∃ o : FlashOp, o.Safe 0x590000 0xa70000 ∧
    shmFlashService 0x590000 0xa70000 3 0xa60000 0x10000 0 = [.op o, .status 0, .clear] := by
  have hwin : (0x590000 : U32).toNat + (0xa70000 : U32).toNat < 2 ^ 32 := by decide
  exact (flash_service hwin 3 0xa60000 0x10000 0).2.1 (by decide) (by decide)

end Esp32S31.Flash
