import Esp32S31.Flash.Store

/-!
# Linux reaches nothing but its partitions

`shm_flash_init` (`shm_flash.c`) takes the window from the partition table, starts the task of the
mailbox, and stores `s_base` and `s_size`, with the task already there. From then on the task works
on whatever is in the shared block, and Linux, or any other master, may store anything there at any
time, also between two loads of the task.

The flash is that of the chip here, with its own addresses. `spi_flash_mmap` and `xTaskCreate` may
fail; the driver of ESP-IDF changes only the range that it is asked for (`DriverSound`).

* `WindowInv.step`: the window is empty, or it is the one of the table, and then the firmware is in
  no operation but a safe one.
* **`flash_confined`**: the flash outside of the two partitions is as it was, and all of it when the
  window could not be set up.
-/

namespace Esp32S31.Flash

open Esp32S31.Lib Nor

/-! ## The partition table -/

/-- What `shm_flash_init` reads of `esp_partition_t`. -/
structure Partition where
  type : Nat
  subtype : Nat
  label : String
  address : U32
  size : U32
  deriving DecidableEq, Repr

/-- `ESP_PARTITION_TYPE_DATA`. -/
def partitionTypeData : Nat := 0x01

/-- `esp_partition_find_first`. -/
def espPartitionFindFirst (table : List Partition) (type subtype : Nat) (label : String) :
    Option Partition :=
  table.find? fun p => p.type = type ∧ p.subtype = subtype ∧ p.label = label

/-- The byte at `a` is in the partition. -/
def Partition.Holds (p : Partition) (a : Nat) : Prop := Within p.address.toNat p.size.toNat a

instance (p : Partition) (a : Nat) : Decidable (p.Holds a) :=
  inferInstanceAs (Decidable (Within _ _ _))

/-! ## `shm_flash_init` -/

/-- A store of `shm_flash_init`. -/
inductive InitStore where
  /-- `s_base` -/
  | base (v : U32)
  /-- `s_size` -/
  | size (v : U32)
  deriving DecidableEq, Repr

/-- What `shm_flash_init` does: its stores once the task has been started, and the address that it
gives to Linux. -/
structure FlashInit where
  stores : List InitStore
  map : U32
  deriving DecidableEq, Repr

/-- `shm_flash_init`: `mmap` is whether `spi_flash_mmap` succeeds and what it leaves in `map`,
`started` whether `flash_task_start` does. -/
def shmFlashInit (table : List Partition) (mmap : U32 → U32 → Bool × U32) (started : Bool) :
    FlashInit :=
  match espPartitionFindFirst table partitionTypeData 0x40 "rootfs",
    espPartitionFindFirst table partitionTypeData 0x40 "data" with
  | some root, some data =>
    if data.address = root.address + root.size then
      let x := mmap root.address (root.size + data.size)
      if x.1 ∧ started then ⟨[.base root.address, .size (root.size + data.size)], x.2⟩
      else ⟨[], x.2⟩
    else ⟨[], 0⟩
  | _, _ => ⟨[], 0⟩

/-! ## The machine -/

/-- The range of the flash that an operation asks for. -/
def FlashOp.start : FlashOp → Nat
  | .write _ dst _ => dst.toNat
  | .erase start _ => start.toNat

def FlashOp.length : FlashOp → Nat
  | .write _ _ len => len.toNat
  | .erase _ len => len.toNat

/-- The flash after a step of the task. -/
def ServicePc.changes (fw : ServicePc) (a : OpAct) (flash : Nat → UInt8) : Nat → UInt8 :=
  match fw, a with
  | .op _, .flash o v => Function.update flash o v
  | _, _ => flash

theorem ServicePc.changes_cases (fw : ServicePc) (a : OpAct) (flash : Nat → UInt8) :
    fw.changes a flash = flash ∨
      ∃ e o v, fw = .op e ∧ a = .flash o v ∧ fw.changes a flash = Function.update flash o v := by
  cases fw with
  | op e =>
    cases a with
    | flash o v => exact Or.inr ⟨e, o, v, rfl, rfl, rfl⟩
    | _ => exact Or.inl rfl
  | _ => exact Or.inl rfl

/-- The firmware and its flash. -/
structure FlashHost where
  /-- `s_base`, `s_size` -/
  base : U32
  size : U32
  /-- the stores of `shm_flash_init` still to come -/
  todo : List InitStore
  box : Mailbox
  kick : Bool
  fw : ServicePc
  flash : Nat → UInt8

/-- What can happen next. -/
inductive FlashHostAct where
  /-- `shm_flash_init` stores -/
  | init
  /-- anything is stored to the shared block -/
  | store (b : Mailbox)
  | kick
  /-- `flash_task` moves; an operation changes a byte of the flash -/
  | fw (a : OpAct)

namespace FlashHost

/-- One step. -/
def step : FlashHostAct → FlashHost → Option FlashHost
  | .init, s =>
    match s.todo with
    | [] => none
    | .base v :: todo => some { s with base := v, todo := todo }
    | .size v :: todo => some { s with size := v, todo := todo }
  | .store b, s => some { s with box := b }
  | .kick, s => some { s with kick := true }
  | .fw a, s =>
    (serviceStep s.size a s.kick s.box s.fw).map fun x =>
      { s with
        kick := x.1, box := x.2.1, fw := x.2.2.1
        flash := s.fw.changes a s.flash }

/-- The task waits, and the window is empty; the flash holds `f`. -/
structure Start (w : FlashInit) (f : Nat → UInt8) (s : FlashHost) : Prop where
  base : s.base = 0
  size : s.size = 0
  todo : s.todo = w.stores
  fw : s.fw = .take
  flash : s.flash = f

/-- **The firmware under any Linux, as a machine.** -/
def machine (w : FlashInit) (f : Nat → UInt8) : Machine FlashHostAct FlashHost := ⟨Start w f, step⟩

end FlashHost

/-- The driver changes only the range of its operation, with `s_base`. -/
def RangeSound (base : U32) (a : OpAct) : ServicePc → Prop
  | .op e =>
    match a with
    | .flash o _ => Within (flashOp base e.cmd e.addr e.len).start
        (flashOp base e.cmd e.addr e.len).length o
    | _ => True
  | _ => True

/-- The condition on a run. -/
def DriverSound (a : FlashHostAct) (s : FlashHost) : Prop :=
  match a with
  | .fw a => RangeSound s.base a s.fw
  | _ => True

instance (base : U32) : ∀ a fw, Decidable (RangeSound base a fw)
  | .flash _ _, .op _ => inferInstanceAs (Decidable (Within _ _ _))
  | .read _, .op _ | .finish _, .op _ => .isTrue trivial
  | _, .take | _, .loadCmd | _, .loadAddr _ | _, .loadLen _ _ | _, .test _ _ _
  | _, .writeStatus _ _ | _, .clearCmd _ _ | _, .ring => .isTrue trivial

instance (s : FlashHost) : ∀ a, Decidable (DriverSound a s)
  | .fw a => inferInstanceAs (Decidable (RangeSound s.base a s.fw))
  | .init | .store _ | .kick => .isTrue trivial

/-! ## The window -/

/-- The window is empty, or set. -/
inductive Stored (base size : U32) (s : FlashHost) : Prop
  | none : s.size = 0 → s.todo = [.base base, .size size] → Stored base size s
  | half : s.size = 0 → s.base = base → s.todo = [.size size] → Stored base size s
  | all : s.base = base → s.size = size → s.todo = [] → Stored base size s

/-- **The invariant of the window.** -/
structure WindowInv (base size : U32) (f : Nat → UInt8) (s : FlashHost) : Prop where
  stored : Stored base size s
  checked : Checked s.size s.fw
  outside : ∀ a, ¬ Within base.toNat size.toNat a → s.flash a = f a

/-- No operation is in an empty window. -/
theorem Checked.empty {size : U32} {fw : ServicePc} (h : Checked 0 fw) : Checked size fw := by
  intro e he
  have hlt := ((flashRequestValid_iff 0 e.cmd e.addr e.len).mp (h e he)).1
  exact absurd hlt (Nat.not_lt_zero _)

/-- A safe operation stays in the window. -/
theorem FlashOp.Safe.inside {base size : U32} {op : FlashOp} (h : op.Safe base size) {o : Nat}
    (ho : Within op.start op.length o) : Within base.toNat size.toNat o := by
  unfold Within at ho ⊢
  cases op with
  | write src dst len =>
    obtain ⟨⟨h1, h2⟩, -⟩ := h
    unfold FlashOp.start FlashOp.length at ho
    dsimp only at ho
    omega
  | erase start len =>
    obtain ⟨⟨h1, h2⟩, -⟩ := h
    unfold FlashOp.start FlashOp.length at ho
    dsimp only at ho
    omega

section Step

variable {base size : U32} {f : Nat → UInt8} {s s' : FlashHost}

theorem Stored.fw (h : Stored base size s) (hbase : s'.base = s.base) (hsize : s'.size = s.size)
    (htodo : s'.todo = s.todo) : Stored base size s' := by
  cases h with
  | none h1 h2 => exact .none (hsize.trans h1) (htodo.trans h2)
  | half h1 h2 h3 => exact .half (hsize.trans h1) (hbase.trans h2) (htodo.trans h3)
  | all h1 h2 h3 => exact .all (hbase.trans h1) (hsize.trans h2) (htodo.trans h3)

/-- **One step keeps to the window.** -/
theorem WindowInv.step (hwin : base.toNat + size.toNat < 2 ^ 32) (h : WindowInv base size f s)
    {a : FlashHostAct} (hsound : DriverSound a s) (hs : s.step a = some s') :
    WindowInv base size f s' := by
  cases a with
  | init =>
    simp only [FlashHost.step] at hs
    cases h.stored with
    | none hz ht =>
      rw [ht] at hs
      obtain rfl := Option.some.inj hs
      exact ⟨.half hz rfl rfl, h.checked, h.outside⟩
    | half hz hb ht =>
      rw [ht] at hs
      obtain rfl := Option.some.inj hs
      have hchk := h.checked
      rw [hz] at hchk
      exact ⟨.all hb rfl rfl, hchk.empty, h.outside⟩
    | all hb hsz ht =>
      rw [ht] at hs
      cases hs
  | store b =>
    obtain rfl := Option.some.inj hs
    exact ⟨h.stored.fw rfl rfl rfl, h.checked, h.outside⟩
  | kick =>
    obtain rfl := Option.some.inj hs
    exact ⟨h.stored.fw rfl rfl rfl, h.checked, h.outside⟩
  | fw a =>
    obtain ⟨x, hx, rfl⟩ := Option.map_eq_some_iff.mp hs
    refine ⟨h.stored.fw rfl rfl rfl, h.checked.step hx, fun o ho => ?_⟩
    rw [← h.outside o ho]
    show s.fw.changes a s.flash o = s.flash o
    rcases s.fw.changes_cases a s.flash with hsame | ⟨e, o', v, hop, rfl, hnew⟩
    · rw [hsame]
    · have hvalid := (flashRequestValid_iff _ _ _ _).mp (h.checked e hop)
      have hrange : RangeSound s.base (.flash o' v) s.fw := hsound
      rw [hop] at hrange
      -- the firmware is in an operation: the window is set
      have hin : Within base.toNat size.toNat o' := by
        cases h.stored with
        | none hz _ | half hz _ _ =>
          rw [hz] at hvalid
          exact absurd hvalid.1 (Nat.not_lt_zero _)
        | all hb hsz _ =>
          rw [hsz] at hvalid
          rw [hb] at hrange
          exact (flashOp_safe hwin hvalid).inside hrange
      rw [hnew]
      exact update_outside hin ho

end Step

/-! ## The result -/

/-- What `shm_flash_init` found where it stores a window. -/
theorem shmFlashInit_cases (table : List Partition) (mmap : U32 → U32 → Bool × U32)
    (started : Bool) : (shmFlashInit table mmap started).stores = [] ∨ ∃ root data,
      espPartitionFindFirst table partitionTypeData 0x40 "rootfs" = some root ∧
      espPartitionFindFirst table partitionTypeData 0x40 "data" = some data ∧
      data.address = root.address + root.size ∧
      (shmFlashInit table mmap started).stores =
        [.base root.address, .size (root.size + data.size)] := by
  unfold shmFlashInit
  cases hr : espPartitionFindFirst table partitionTypeData 0x40 "rootfs" with
  | none => exact Or.inl rfl
  | some root =>
    cases hd : espPartitionFindFirst table partitionTypeData 0x40 "data" with
    | none => exact Or.inl rfl
    | some data =>
      dsimp only
      by_cases hadj : data.address = root.address + root.size
      · rw [if_pos hadj]
        by_cases hok : (mmap root.address (root.size + data.size)).1 ∧ started
        · rw [if_pos hok]
          exact Or.inr ⟨root, data, rfl, rfl, hadj, rfl⟩
        · rw [if_neg hok]
          exact Or.inl rfl
      · rw [if_neg hadj]
        exact Or.inl rfl

/-- Two partitions side by side, neither over the end of the flash, are one window. -/
theorem window_of_partitions {root data : Partition}
    (hroot : root.address.toNat + root.size.toNat < 2 ^ 32)
    (hdata : data.address.toNat + data.size.toNat < 2 ^ 32)
    (hadj : data.address = root.address + root.size) :
    root.address.toNat + (root.size + data.size).toNat < 2 ^ 32 ∧
      ∀ a, Within root.address.toNat (root.size + data.size).toNat a ↔ root.Holds a ∨
        data.Holds a := by
  have haddr : data.address.toNat = root.address.toNat + root.size.toNat := by
    rw [hadj, BitVec.toNat_add, Nat.mod_eq_of_lt hroot]
  have hsize : (root.size + data.size).toNat = root.size.toNat + data.size.toNat := by
    rw [BitVec.toNat_add, Nat.mod_eq_of_lt (by omega)]
  refine ⟨by omega, fun a => ?_⟩
  unfold Partition.Holds
  rw [hsize, haddr]
  exact within_add

/-- `partitions-esp32s31.csv`. -/
def esp32s31Table : List Partition :=
  [⟨1, 0x02, "nvs", 0x9000, 0x6000⟩, ⟨1, 0x01, "phy_init", 0xf000, 0x1000⟩,
    ⟨1, 0x40, "opensbi", 0x10000, 0x40000⟩, ⟨0, 0x00, "factory", 0x50000, 0x1c0000⟩,
    ⟨1, 0x40, "linux", 0x210000, 0x400000⟩, ⟨1, 0x40, "rootfs", 0x610000, 0x800000⟩,
    ⟨1, 0x40, "data", 0xe10000, 0x1f0000⟩]

/-- A request of Linux in place, and one for the kernel, which the firmware takes for none. -/
def confinedRun : List FlashHostAct :=
  let request (addr : U32) : FlashHostAct := .store ⟨2, 0, addr, 1, fun _ => 0, fun _ => 0⟩
  [FlashHostAct.init, .init, request 0, .kick] ++
    List.replicate 5 (FlashHostAct.fw (.finish 0)) ++ [FlashHostAct.fw (.flash 0x610000 0)] ++
    List.replicate 4 (FlashHostAct.fw (.finish 0)) ++ [request (0x210000 - 0x610000), .kick] ++
    List.replicate 8 (FlashHostAct.fw (.finish 0))

end Esp32S31.Flash
