import Esp32S31.Flash.Mailbox
import Esp32S31.Lib.Machine

/-!
# Reads of the flash window

`esp_shm_flash_read`, `esp_shm_flash_write` and `esp_shm_flash_erase` (`esp_shm_flash.c`) run under
one mutex, from any number of tasks. The mutex is released when a wait times out, while the firmware
still works on the command, and a read does not look at CMD: a read after a timeout can see half of
a program or erase (`flash_read_torn`). In the runs in which CMD is 0 whenever a read takes the
mutex it never does (`flash_read_settled`).
-/

namespace Esp32S31.Flash

open Esp32S31.Lib

/-- The task that holds the mutex. -/
inductive FlashJob where
  /-- `esp_shm_flash_read`: the bytes copied so far -/
  | read (src len : Nat) (got : List UInt8)
  /-- `esp_shm_flash_write`: `to`, what is left of `buf`, `*retlen`, and the command in progress -/
  | write (dst : Nat) (rest : List UInt8) (retlen : Nat) (cmd : Option (FlashCall × CmdPc))
  /-- `esp_shm_flash_erase`: `addr`, the end, and the command in progress -/
  | erase (addr stop : Nat) (cmd : Option (FlashCall × CmdPc))

/-- What a call returned. -/
inductive FlashReturn where
  | read (src : Nat) (bytes : List UInt8)
  | write (ret : Int) (retlen : Nat)
  | erase (ret : Int) (failAddr : Option Nat)
  deriving DecidableEq, Repr

/-- The bytes of the next program of a write: up to the end of its mailbox block. -/
def programLen (dst : Nat) (rest : List UInt8) : Nat :=
  min rest.length (flashDataSize.toNat - dst % flashDataSize.toNat)

/-- The next program of a write. -/
def programCall (dst : Nat) (rest : List UInt8) : FlashCall where
  cmd := .program
  addr := .ofNat 32 dst
  len := .ofNat 32 (programLen dst rest)
  buf := rest.take (programLen dst rest)
  buf_length _ := by
    have h : programLen dst rest ≤ flashDataSize.toNat :=
      Nat.le_trans (Nat.min_le_right _ _) (Nat.sub_le _ _)
    have h2 : flashDataSize.toNat < 2 ^ 32 := flashDataSize.isLt
    rw [List.length_take, BitVec.toNat_ofNat, Nat.mod_eq_of_lt (by omega)]
    exact Nat.min_eq_left (Nat.min_le_left _ _)

/-- The next command of an erase. -/
def eraseCall (addr : Nat) : FlashCall := ⟨.erase, .ofNat 32 addr, flashBlock, [], nofun⟩

/-- The window with its users. -/
structure FlashSys where
  box : Mailbox
  kick : Bool
  fw : ServicePc
  /-- `flash->lock` -/
  lock : Option FlashJob
  /-- the contents of the window between two commands, at the start and after each command -/
  settled : List (Nat → UInt8)
  returned : List FlashReturn

/-- What can happen next. -/
inductive FlashAct where
  | readCall (src len : Nat)
  | writeCall (dst : Nat) (buf : List UInt8)
  | eraseCall (addr len : Nat)
  /-- the holder of the mutex moves -/
  | host (chunk : Nat) (expired : Bool)
  | kick
  | fw (a : OpAct)

namespace FlashSys

/-- A task takes the mutex. -/
def take (s : FlashSys) (j : FlashJob) : Option FlashSys :=
  match s.lock with
  | none => some { s with lock := some j }
  | some _ => none

/-- The holder releases the mutex and returns. -/
def release (s : FlashSys) (r : FlashReturn) : FlashSys :=
  { s with lock := none, returned := s.returned ++ [r] }

/-- The bytes of the window from `src`. -/
def bytes (w : Nat → UInt8) (src k : Nat) : List UInt8 := (List.range k).map fun i => w (src + i)

/-- The holder of the mutex moves. -/
def hostStep (s : FlashSys) (chunk : Nat) (expired : Bool) : FlashJob → FlashSys
  | .read src len got =>
    if got.length < len then
      { s with lock := some (.read src len
          (got ++ bytes s.box.window (src + got.length) (min (chunk + 1) (len - got.length)))) }
    else s.release (.read src got)
  | .write dst rest retlen none =>
    if rest = [] then s.release (.write 0 retlen)
    else { s with lock := some (.write dst rest retlen (some (programCall dst rest, .readCmd))) }
  | .write dst rest retlen (some (_, .done ret)) =>
    if ret ≠ 0 then s.release (.write ret retlen)
    else
      let n := programLen dst rest
      { s with lock := some (.write (dst + n) (rest.drop n) (retlen + n) none) }
  | .write dst rest retlen (some (c, pc)) =>
    { s with
      box := (cmdStep c chunk expired s.box pc).1
      lock := some (.write dst rest retlen (some (c, (cmdStep c chunk expired s.box pc).2.1))) }
  | .erase addr stop none =>
    if addr < stop then { s with lock := some (.erase addr stop (some (eraseCall addr, .readCmd))) }
    else s.release (.erase 0 none)
  | .erase addr stop (some (_, .done ret)) =>
    if ret ≠ 0 then s.release (.erase ret (some addr))
    else { s with lock := some (.erase (addr + flashBlock.toNat) stop none) }
  | .erase addr stop (some (c, pc)) =>
    { s with
      box := (cmdStep c chunk expired s.box pc).1
      lock := some (.erase addr stop (some (c, (cmdStep c chunk expired s.box pc).2.1))) }

/-- One step, with the size of the window. -/
def step (size : U32) : FlashAct → FlashSys → Option FlashSys
  | .readCall src len, s => s.take (.read src len [])
  | .writeCall dst buf, s => s.take (.write dst buf 0 none)
  | .eraseCall addr len, s => s.take (.erase addr (addr + len) none)
  | .host chunk expired, s => s.lock.map fun j => s.hostStep chunk expired j
  | .kick, s => some { s with kick := true }
  | .fw a, s =>
    (serviceStep size a s.kick s.box s.fw).map fun x => { s with
      kick := x.1, box := x.2.1, fw := x.2.2.1
      settled := match s.fw with
        | .clearCmd _ _ => s.settled ++ [s.box.window]
        | _ => s.settled }

/-- CMD is 0, the firmware waits, nothing happened yet. -/
structure Start (s : FlashSys) : Prop where
  cmd : s.box.cmd = 0
  fw : s.fw = .take
  settled : s.settled = [s.box.window]
  fresh : s.lock = none ∧ s.returned = []

/-- **The flash window as a machine.** -/
def machine (size : U32) : Machine FlashAct FlashSys := ⟨Start, step size⟩

/-- No read sees half of a command: while a read copies, the firmware is in no program or erase, and
what a read returned is a content of the window between two commands. -/
def ReadsSettled (s : FlashSys) : Prop :=
  (∀ src len got, s.lock = some (.read src len got) → s.fw.inOp = false) ∧
  ∀ src bs, .read src bs ∈ s.returned → ∃ w ∈ s.settled, bs = bytes w src bs.length

/-- No timed-out command is left in the mailbox when a read takes the mutex. -/
def QuietRead : FlashAct → FlashSys → Prop
  | .readCall _ _, s => s.box.cmd = 0
  | _, _ => True

instance : ∀ a s, Decidable (QuietRead a s)
  | .readCall _ _, s => inferInstanceAs (Decidable (s.box.cmd = 0))
  | .writeCall _ _, _ | .eraseCall _ _, _ | .host _ _, _ | .kick, _ | .fw _, _ => .isTrue trivial

/-! ## The invariant -/

/-- **The invariant of the window.** -/
structure Inv (s : FlashSys) : Prop where
  /-- the firmware works only while CMD is set, and then the window may be in between -/
  clear : s.box.cmd = 0 → s.fw.busy = false ∧ s.box.window ∈ s.settled
  read : ∀ src len got, s.lock = some (.read src len got) →
    s.box.cmd = 0 ∧ got = bytes s.box.window src got.length
  returned : ∀ src bs, .read src bs ∈ s.returned → ∃ w ∈ s.settled, bs = bytes w src bs.length

theorem Start.inv {s : FlashSys} (h : Start s) : Inv s := by
  obtain ⟨h0, h1, h2, h3, h4⟩ := h
  refine ⟨fun _ => ⟨by rw [h1]; rfl, by rw [h2]; exact List.mem_singleton.mpr rfl⟩,
    fun _ _ _ e => absurd (h3.symm.trans e) (by simp), fun _ _ hm => ?_⟩
  rw [h4] at hm
  exact absurd hm List.not_mem_nil

/-- A call never changes the window, and never clears CMD. -/
theorem cmdStep_window (c : FlashCall) (chunk : Nat) (expired : Bool) (b : Mailbox) (pc : CmdPc) :
    (cmdStep c chunk expired b pc).1.window = b.window ∧
      ((cmdStep c chunk expired b pc).1.cmd = 0 → b.cmd = 0) := by
  cases pc with
  | copyData todo => cases todo <;> exact ⟨rfl, id⟩
  | writeCmd => exact ⟨rfl, fun h => absurd h c.cmd.word_ne_zero⟩
  | _ => exact ⟨rfl, id⟩

theorem bytes_append (w : Nat → UInt8) (src j k : Nat) :
    bytes w src (j + k) = bytes w src j ++ bytes w (src + j) k := by
  unfold bytes
  rw [List.range_add, List.map_append, List.map_map]
  congr 1
  exact List.map_congr_left fun i _ => by simp [Nat.add_assoc]

@[simp] theorem length_bytes (w : Nat → UInt8) (src k : Nat) : (bytes w src k).length = k := by
  simp [bytes]

section Step

variable {s : FlashSys}

/-- Another holder, which is not a read. -/
theorem Inv.setLock (h : Inv s) {j : Option FlashJob}
    (hj : ∀ src len got, j = some (.read src len got) →
      s.box.cmd = 0 ∧ got = bytes s.box.window src got.length) : Inv { s with lock := j } :=
  ⟨h.clear, hj, h.returned⟩

theorem Inv.release (h : Inv s) {r : FlashReturn}
    (hr : ∀ src bs, r = .read src bs → ∃ w ∈ s.settled, bs = bytes w src bs.length) :
    Inv (s.release r) := by
  refine ⟨h.clear, nofun, fun src bs hm => ?_⟩
  rcases List.mem_append.mp hm with hm | hm
  · exact h.returned src bs hm
  · exact hr src bs (List.mem_singleton.mp hm).symm

/-- The firmware that is in an operation has loaded a command. -/
theorem Inv.not_inOp (h : Inv s) (h0 : s.box.cmd = 0) : s.fw.inOp = false := by
  have := (h.clear h0).1
  cases hfw : s.fw with
  | op e =>
    rw [hfw] at this
    exact absurd this (by simp [ServicePc.busy])
  | _ => rfl

/-- A step of a command of a write or erase. -/
theorem Inv.cmd (h : Inv s) {c : FlashCall} {chunk : Nat} {expired : Bool} {pc : CmdPc}
    {j : FlashJob} (hj : ∀ src len got, j ≠ .read src len got) :
    Inv { s with box := (cmdStep c chunk expired s.box pc).1, lock := some j } := by
  obtain ⟨hw, hc⟩ := cmdStep_window c chunk expired s.box pc
  refine ⟨fun h0 => ?_, fun src len got e => absurd (Option.some.inj e) (hj src len got),
    h.returned⟩
  show s.fw.busy = false ∧ (cmdStep c chunk expired s.box pc).1.window ∈ s.settled
  rw [hw]
  exact h.clear (hc h0)

theorem Inv.host (h : Inv s) {j : FlashJob} (hl : s.lock = some j) (chunk : Nat) (expired : Bool) :
    Inv (s.hostStep chunk expired j) := by
  cases j with
  | read src len got =>
    obtain ⟨h0, hg⟩ := h.read src len got hl
    simp only [hostStep]
    split
    · refine h.setLock fun src' len' got' e => ?_
      obtain ⟨rfl, rfl, rfl⟩ := FlashJob.read.inj (Option.some.inj e)
      refine ⟨h0, ?_⟩
      rw [List.length_append, length_bytes, bytes_append, ← hg]
    · refine h.release fun src' bs e => ?_
      obtain ⟨rfl, rfl⟩ := FlashReturn.read.inj e
      exact ⟨s.box.window, (h.clear h0).2, hg⟩
  | write dst rest retlen cmd =>
    cases cmd with
    | none =>
      simp only [hostStep]
      split
      · exact h.release nofun
      · exact h.setLock nofun
    | some x =>
      obtain ⟨c, pc⟩ := x
      cases pc with
      | done ret =>
        simp only [hostStep]
        split
        · exact h.release nofun
        · exact h.setLock nofun
      | _ => exact h.cmd nofun
  | erase addr stop cmd =>
    cases cmd with
    | none =>
      simp only [hostStep]
      split
      · exact h.setLock nofun
      · exact h.release nofun
    | some x =>
      obtain ⟨c, pc⟩ := x
      cases pc with
      | done ret =>
        simp only [hostStep]
        split
        · exact h.release nofun
        · exact h.setLock nofun
      | _ => exact h.cmd nofun

theorem Inv.fw (h : Inv s) {size : U32} {a : OpAct} {k : Bool} {b : Mailbox} {fw : ServicePc}
    {r : Bool} (hs : serviceStep size a s.kick s.box s.fw = some (k, b, fw, r)) :
    Inv { s with
      kick := k, box := b, fw := fw
      settled := match s.fw with
        | .clearCmd _ _ => s.settled ++ [s.box.window]
        | _ => s.settled } := by
  have hclear := h.clear
  have hread := h.read
  -- a step that leaves the mailbox alone
  have same : ∀ {k' fw'}, (s.box.cmd = 0 → fw'.busy = false) →
      Inv { s with kick := k', fw := fw' } := fun hb =>
    ⟨fun h0 => ⟨hb h0, (hclear h0).2⟩, hread, h.returned⟩
  cases hfw : s.fw with
  | take =>
    rw [hfw] at hs
    simp only [serviceStep] at hs
    split at hs
    · obtain ⟨rfl, rfl, rfl, -⟩ := hs
      exact same fun _ => rfl
    · exact absurd hs (by simp)
  | loadCmd =>
    rw [hfw] at hs
    obtain ⟨rfl, rfl, rfl, -⟩ := hs
    exact same fun h0 => by simp [ServicePc.busy, h0]
  | loadAddr cmd | loadLen cmd addr =>
    rw [hfw] at hs hclear
    obtain ⟨rfl, rfl, rfl, -⟩ := hs
    exact same fun h0 => (hclear h0).1
  | test cmd addr len =>
    rw [hfw] at hs hclear
    obtain ⟨rfl, rfl, rfl, -⟩ := hs
    refine same fun h0 => ?_
    have : cmd = 0 := by simpa [ServicePc.busy] using (hclear h0).1
    rw [if_pos this]
    rfl
  | op e =>
    rw [hfw] at hs hclear
    have hn : s.box.cmd ≠ 0 := fun h0 => absurd (hclear h0).1 (by simp [ServicePc.busy])
    cases a with
    | read o =>
      simp only [serviceStep] at hs
      split at hs
      · obtain ⟨rfl, rfl, rfl, -⟩ := hs
        exact same fun h0 => absurd h0 hn
      · exact absurd hs (by simp)
    | flash o v =>
      obtain ⟨rfl, rfl, rfl, -⟩ := hs
      exact ⟨fun h0 => absurd h0 hn, fun src len got e => absurd (hread src len got e).1 hn,
        h.returned⟩
    | finish err =>
      obtain ⟨rfl, rfl, rfl, -⟩ := hs
      exact same fun h0 => absurd h0 hn
  | writeStatus e err =>
    rw [hfw] at hs hclear
    have hn : s.box.cmd ≠ 0 := fun h0 => absurd (hclear h0).1 (by simp [ServicePc.busy])
    obtain ⟨rfl, rfl, rfl, -⟩ := hs
    exact ⟨fun h0 => absurd h0 hn, hread, h.returned⟩
  | clearCmd e err =>
    rw [hfw] at hs hclear
    have hn : s.box.cmd ≠ 0 := fun h0 => absurd (hclear h0).1 (by simp [ServicePc.busy])
    obtain ⟨rfl, rfl, rfl, -⟩ := hs
    refine ⟨fun _ => ⟨rfl, List.mem_append_right _ (List.mem_singleton.mpr rfl)⟩,
      fun src len got e => absurd (hread src len got e).1 hn, fun src bs hm => ?_⟩
    obtain ⟨w, hw, e⟩ := h.returned src bs hm
    exact ⟨w, List.mem_append_left _ hw, e⟩
  | ring =>
    rw [hfw] at hs
    obtain ⟨rfl, rfl, rfl, -⟩ := hs
    exact same fun _ => rfl

theorem Inv.take {s' : FlashSys} {j : FlashJob} (h : Inv s)
    (hj : ∀ src len got, j = .read src len got →
      s.box.cmd = 0 ∧ got = bytes s.box.window src got.length) (hs : s.take j = some s') :
    Inv s' := by
  simp only [FlashSys.take] at hs
  split at hs
  · obtain rfl := Option.some.inj hs
    exact h.setLock fun src len got e => hj src len got (Option.some.inj e)
  · exact absurd hs (by simp)

theorem Inv.step {size : U32} {s' : FlashSys} {a : FlashAct} (h : Inv s) (hc : QuietRead a s)
    (hs : s.step size a = some s') : Inv s' := by
  cases a with
  | readCall src len =>
    refine h.take (fun src' len' got e => ?_) hs
    obtain ⟨-, -, rfl⟩ := FlashJob.read.inj e
    exact ⟨hc, rfl⟩
  | writeCall dst buf => exact h.take (j := .write dst buf 0 none) nofun hs
  | eraseCall addr len => exact h.take (j := .erase addr (addr + len) none) nofun hs
  | host chunk expired =>
    obtain ⟨j, hl, rfl⟩ := Option.map_eq_some_iff.mp hs
    exact h.host hl chunk expired
  | kick =>
    obtain rfl := Option.some.inj hs
    exact ⟨h.clear, h.read, h.returned⟩
  | fw a =>
    obtain ⟨⟨k, b, fw, r⟩, e, rfl⟩ := Option.map_eq_some_iff.mp hs
    exact h.fw e

end Step

/-! ## The result -/

/-- **No torn read while no timed-out command is left.** In the runs in which CMD is 0 whenever a
read takes the mutex, no read sees half of a command. -/
theorem flash_read_settled {size : U32} {s : FlashSys} (h : (machine size).ReachWith QuietRead s) :
    ReadsSettled s := by
  have hi : Inv s := h.invariant (I := Inv) (fun _ h0 => Start.inv h0)
    fun _ _ _ _ hi hc hs => hi.step hc hs
  exact ⟨fun src len got e => hi.not_inOp (hi.read src len got e).1, hi.returned⟩

/-- An unused window. -/
def unused : FlashSys :=
  ⟨⟨0, 0, 0, 0, fun _ => 0, fun _ => 0⟩, false, .take, none, [fun _ => 0], []⟩

/-- A write of two bytes up to the point where the firmware is in the program. -/
def writeRun (expired : Bool) : List FlashAct :=
  [FlashAct.writeCall 0 [1, 2]] ++ List.replicate 8 (FlashAct.host 99 false) ++
    [FlashAct.host 0 expired, .kick] ++ List.replicate 5 (FlashAct.fw (.finish 0))

/-- A write, and a read after it. -/
theorem flash_read_settled_run : ∃ s, (machine 0x20000).ReachWith QuietRead s ∧
    .read 0 [1, 2] ∈ s.returned ∧ ReadsSettled s := by
  have h : ((machine 0x20000).runWith QuietRead
      (writeRun false ++ [FlashAct.fw (.flash 0 1), .fw (.flash 1 2)] ++
        List.replicate 4 (FlashAct.fw (.finish 0)) ++ List.replicate 4 (FlashAct.host 0 false) ++
        [FlashAct.readCall 0 2, .host 99 false, .host 0 false]) unused).map (·.returned) =
      some [.write 0 2, .read 0 [1, 2]] := by
    decide +kernel
  obtain ⟨s, hs, e⟩ := Option.map_eq_some_iff.mp h
  have h0 : (machine 0x20000).init unused := ⟨rfl, rfl, rfl, rfl, rfl⟩
  have hr := Machine.ReachWith.runWith (.init h0) hs
  refine ⟨s, hr, ?_, flash_read_settled hr⟩
  rw [e]
  exact List.mem_cons_of_mem _ List.mem_cons_self

/-- **A read after a timeout sees half of the program**: the wait of the write times out, the mutex
is free, and the firmware has programmed the first byte when the read copies both. -/
theorem flash_read_torn : ∃ s, (machine 0x20000).Reach s ∧ .read 0 [1, 0] ∈ s.returned ∧
    ¬ ReadsSettled s := by
  have h : ((machine 0x20000).run
      (writeRun true ++ [FlashAct.host 0 false, .fw (.flash 0 1), .readCall 0 2, .host 99 false,
        .host 0 false]) unused).map (fun s => (s.returned, s.settled.map fun w => bytes w 0 2)) =
      some ([.write (-etimedout) 0, .read 0 [1, 0]], [[0, 0]]) := by
    decide +kernel
  obtain ⟨s, hs, e⟩ := Option.map_eq_some_iff.mp h
  obtain ⟨e1, e2⟩ := Prod.mk.inj e
  have hm : FlashReturn.read 0 [1, 0] ∈ s.returned := by
    rw [e1]
    exact List.mem_cons_of_mem _ List.mem_cons_self
  refine ⟨s, Machine.Reach.run (.init ⟨rfl, rfl, rfl, rfl, rfl⟩) hs, hm, fun hr => ?_⟩
  obtain ⟨w, hw, hb⟩ := hr.2 0 [1, 0] hm
  have : bytes w 0 2 ∈ s.settled.map fun w => bytes w 0 2 := List.mem_map.mpr ⟨w, hw, rfl⟩
  rw [e2, List.mem_singleton] at this
  exact absurd (hb.trans this) (by decide)

end FlashSys

end Esp32S31.Flash
