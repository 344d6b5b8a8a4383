import Esp32S31.Flash.ExactlyOnce
import Esp32S31.Flash.Write
import Esp32S31.Flash.Erase
import Esp32S31.Lib.Nor

/-!
# The MTD device is a NOR store

The whole path of the flash window: the calls of the MTD core under the mutex, the mailbox, the task
of the firmware, and the flash. The memory is what `Lib.Nor` knows of it from the calls that have
returned: a write programs what `*retlen` counts, an erase erases whole blocks up to the one that
failed, and a call that failed leaves nothing known of the piece that it failed at, since the
firmware may work on it for long.

`StoreSys` adds to the window and its users what happened: the calls in the order in which they took
the mutex, the last command that was placed, and the window as it was before the firmware's current
operation. `Sound` is the condition on a run. `esp_flash_write` and `esp_flash_erase_region` are not
part of the repository: they change only their range, and where they return `ESP_OK` it is
programmed, or erased. The MTD core keeps a write or erase in the device.

* `Linked.step`: the window and its users are a run of the mailbox (`MailboxSys`).
* `Working.service`, `Calm.service`: what a step of the firmware leaves known, in a command and
  after one that timed out.
* **`flash_store`**: every read returns what is known.
-/

namespace Esp32S31.Flash

open Esp32S31.Lib Nor

/-- A call of the MTD core. -/
inductive MtdCall where
  | read (src len : Nat)
  | write (dst : Nat) (buf : List UInt8)
  | erase (addr len : Nat)
  deriving DecidableEq, Repr

/-- What is known of the window when a call has returned. -/
def mtdStore (size : U32) (k : Known UInt8) : MtdCall → FlashReturn → Known UInt8
  | .write dst buf, .write ret retlen =>
    let k := k.program dst (buf.take retlen)
    if ret = 0 ∨ ret = -ebusy then k
    else k.forget (dst + retlen) (programLen (dst + retlen) (buf.drop retlen))
  | .erase addr len, .erase _ none => k.erase 0xff addr ((len + 0xffff) / 0x10000 * 0x10000)
  | .erase addr _, .erase ret (some bad) =>
    let k := k.erase 0xff addr (bad - addr)
    if ret = -ebusy ∨ ¬ (bad % 0x10000 = 0 ∧ bad + 0x10000 ≤ size.toNat) then k
    else k.forget bad 0x10000
  | _, _ => k

/-- What is known after the calls, of a window that held `w` before. -/
def store (size : U32) (w : Nat → UInt8) (log : List (MtdCall × FlashReturn)) : Known UInt8 :=
  log.foldl (fun k x => mtdStore size k x.1 x.2) fun o => some (w o)

/-! ## The machine -/

/-- The command of a call, and where it is. -/
def FlashJob.command : FlashJob → Option (FlashCall × CmdPc)
  | .read _ _ _ => none
  | .write _ _ _ cmd | .erase _ _ cmd => cmd

/-- The call that a task makes. -/
def FlashAct.call : FlashAct → Option MtdCall
  | .readCall src len => some (.read src len)
  | .writeCall dst buf => some (.write dst buf)
  | .eraseCall addr len => some (.erase addr len)
  | _ => none

/-- The command that a step places. -/
def FlashAct.places (a : FlashAct) (s : FlashSys) : Option FlashCall :=
  match a, s.lock.bind FlashJob.command with
  | .host _ _, some (c, .writeCmd) => some c
  | _, _ => none

/-- The window with its users, and what happened. -/
structure StoreSys where
  sys : FlashSys
  /-- in the order in which they took the mutex -/
  calls : List MtdCall
  /-- the last command that was placed -/
  last : Option FlashCall
  /-- the window before the operation that the firmware is in -/
  before : Nat → UInt8

namespace StoreSys

/-- The calls that have returned, with what they returned: the mutex keeps them in order. -/
def log (s : StoreSys) : List (MtdCall × FlashReturn) := s.calls.zip s.sys.returned

/-- One step, with the size of the window. -/
def step (size : U32) (a : FlashAct) (s : StoreSys) : Option StoreSys :=
  (s.sys.step size a).map fun t =>
    { sys := t
      calls := s.calls ++ a.call.toList
      last := (a.places s.sys).or s.last
      before := if s.sys.fw.inOp then s.before else s.sys.box.window }

/-- The window holds `w`, and nothing happened yet. -/
structure Start (w : Nat → UInt8) (s : StoreSys) : Prop where
  sys : FlashSys.Start s.sys
  window : s.sys.box.window = w
  calls : s.calls = []
  last : s.last = none

/-- **The MTD device as a machine.** -/
def machine (size : U32) (w : Nat → UInt8) : Machine FlashAct StoreSys := ⟨Start w, step size⟩

end StoreSys

/-- What an operation that returns `ESP_OK` leaves of the window `w`. -/
def Exec.Carried (e : Exec) (w w' : Nat → UInt8) : Prop :=
  (e.cmd = FlashCmd.program.word → ∀ i < e.len.toNat, ∃ x ∈ e.reads, x.1 = i ∧
    w' (e.addr.toNat + i) = w (e.addr.toNat + i) &&& x.2) ∧
  (e.cmd = FlashCmd.erase.word → ∀ i < e.len.toNat, w' (e.addr.toNat + i) = 0xff)

instance (e : Exec) (w w' : Nat → UInt8) : Decidable (e.Carried w w') :=
  inferInstanceAs (Decidable (_ ∧ _))

/-- The MTD core admits the call. -/
def Admits (size : U32) : MtdCall → Prop
  | .read _ _ => True
  | .write dst buf => dst + buf.length ≤ size.toNat
  | .erase addr len => addr + len ≤ size.toNat

/-- The flash does what ESP-IDF says. -/
def FlashSound (a : OpAct) (before w : Nat → UInt8) : ServicePc → Prop
  | .op e =>
    match a with
    | .read _ => True
    | .flash o _ => Within e.addr.toNat e.len.toNat o
    | .finish err => err = espOk → e.Carried before w
  | _ => True

/-- The condition on a run. -/
def Sound (size : U32) (a : FlashAct) (s : StoreSys) : Prop :=
  match a with
  | .fw a => FlashSound a s.before s.sys.box.window s.sys.fw
  | a => ∀ c ∈ a.call, Admits size c

instance (size : U32) : ∀ c, Decidable (Admits size c)
  | .read _ _ => .isTrue trivial
  | .write _ _ | .erase _ _ => inferInstanceAs (Decidable (_ ≤ _))

instance (before w : Nat → UInt8) : ∀ a fw, Decidable (FlashSound a before w fw)
  | .flash _ _, .op _ => inferInstanceAs (Decidable (Within _ _ _))
  | .finish _, .op _ => inferInstanceAs (Decidable (_ → _))
  | .read _, .op _ => .isTrue trivial
  | .read _, .take | .flash _ _, .take | .finish _, .take => .isTrue trivial
  | _, .loadCmd | _, .loadAddr _ | _, .loadLen _ _ | _, .test _ _ _ | _, .writeStatus _ _
  | _, .clearCmd _ _ | _, .ring => .isTrue trivial

instance (size : U32) (s : StoreSys) : ∀ a, Decidable (Sound size a s)
  | .fw a => inferInstanceAs (Decidable (FlashSound a _ _ _))
  | .readCall _ _ | .writeCall _ _ | .eraseCall _ _ | .host _ _ | .kick =>
    inferInstanceAs (Decidable (∀ c ∈ FlashAct.call _, Admits size c))

/-! ## The window and its users are a run of the mailbox -/

/-- A call at another point of its command. -/
def FlashJob.at (cmd : Option (FlashCall × CmdPc)) : FlashJob → FlashJob
  | .read src len got => .read src len got
  | .write dst rest retlen _ => .write dst rest retlen cmd
  | .erase addr stop _ => .erase addr stop cmd

/-- The task is in a command. -/
theorem hostStep_command (s : FlashSys) (chunk : Nat) (expired : Bool) {j : FlashJob}
    {c : FlashCall} {pc : CmdPc} (hj : j.command = some (c, pc)) (hpc : ∀ r, pc ≠ .done r) :
    s.hostStep chunk expired j =
      { s with
        box := (cmdStep c chunk expired s.box pc).1
        lock := some (j.at (some (c, (cmdStep c chunk expired s.box pc).2.1))) } := by
  cases j with
  | read src len got => cases hj
  | write dst rest retlen cmd | erase addr stop cmd =>
    obtain rfl : cmd = some (c, pc) := hj
    cases pc with
    | done r => exact absurd rfl (hpc r)
    | _ => rfl

/-- The task is between two commands, or has released the mutex. -/
theorem hostStep_between (s : FlashSys) (chunk : Nat) (expired : Bool) {j : FlashJob}
    (hj : ∀ c pc, j.command = some (c, pc) → ∃ r, pc = .done r) :
    let t := s.hostStep chunk expired j
    t.box = s.box ∧ t.kick = s.kick ∧ t.fw = s.fw ∧
      (t.lock.bind FlashJob.command = none ∨
        j.command = none ∧ ∃ c, t.lock.bind FlashJob.command = some (c, .readCmd)) := by
  cases j with
  | read src len got =>
    unfold FlashSys.hostStep
    dsimp only
    split <;> exact ⟨rfl, rfl, rfl, Or.inl rfl⟩
  | write dst rest retlen cmd | erase addr stop cmd =>
    cases cmd with
    | none =>
      unfold FlashSys.hostStep
      dsimp only
      split <;> first
        | exact ⟨rfl, rfl, rfl, Or.inl rfl⟩
        | exact ⟨rfl, rfl, rfl, Or.inr ⟨rfl, _, rfl⟩⟩
    | some x =>
      obtain ⟨c, pc⟩ := x
      obtain ⟨r, rfl⟩ := hj c pc rfl
      unfold FlashSys.hostStep
      dsimp only
      split <;> exact ⟨rfl, rfl, rfl, Or.inl rfl⟩

/-- The mailbox under the window. -/
structure Linked (s : StoreSys) (m : MailboxSys) : Prop where
  inv : MailboxInv m
  box : m.box = s.sys.box
  kick : m.kick = s.sys.kick
  fw : m.fw = s.sys.fw
  host : m.host.map (fun h => (h.1, h.2.1)) = s.sys.lock.bind FlashJob.command
  last : m.placed.getLast? = s.last

theorem StoreSys.Start.linked {w : Nat → UInt8} {s : StoreSys} (h : Start w s) :
    ∃ m, Linked s m := by
  refine ⟨⟨s.sys.box, s.sys.kick, s.sys.fw, none, [], [], []⟩, ?_, rfl, rfl, rfl, ?_, ?_⟩
  · exact MailboxSys.Start.inv ⟨h.sys.cmd, h.sys.fw, rfl, rfl, rfl, rfl⟩
  · rw [h.sys.fresh.1]
    rfl
  · rw [h.last]
    rfl

namespace Linked

variable {size : U32} {s s' : StoreSys} {m : MailboxSys}

/-- The call in the mailbox is that of the task. -/
theorem host_eq (h : Linked s m) {c : FlashCall} {pc : CmdPc}
    (hc : s.sys.lock.bind FlashJob.command = some (c, pc)) : ∃ n, m.host = some (c, pc, n) := by
  have := h.host.trans hc
  obtain ⟨⟨c', pc', n⟩, hm, he⟩ := Option.map_eq_some_iff.mp this
  cases he
  exact ⟨n, hm⟩

/-- A step of the mailbox. -/
theorem mailbox (size : U32) (h : Linked s m) {a : MailboxAct} {m' : MailboxSys}
    (hm : m.step size a = some m')
    (hbox : m'.box = s'.sys.box) (hkick : m'.kick = s'.sys.kick) (hfw : m'.fw = s'.sys.fw)
    (hhost : m'.host.map (fun h => (h.1, h.2.1)) = s'.sys.lock.bind FlashJob.command)
    (hlast : m'.placed.getLast? = s'.last) : ∃ m', Linked s' m' :=
  ⟨m', h.inv.step hm, hbox, hkick, hfw, hhost, hlast⟩

theorem step {a : FlashAct} (h : Linked s m) (hs : s.step size a = some s') :
    ∃ m', Linked s' m' := by
  obtain ⟨t, ht, rfl⟩ := Option.map_eq_some_iff.mp hs
  have htake : ∀ {j : FlashJob}, s.sys.take j = some t → j.command = none →
      t.box = s.sys.box ∧ t.kick = s.sys.kick ∧ t.fw = s.sys.fw ∧ m.host = none ∧
        t.lock.bind FlashJob.command = none := by
    intro j hj hnone
    unfold FlashSys.take at hj
    cases hl : s.sys.lock with
    | some j' =>
      rw [hl] at hj
      cases hj
    | none =>
      rw [hl] at hj
      obtain rfl := Option.some.inj hj
      have hm := h.host
      rw [hl] at hm
      exact ⟨rfl, rfl, rfl, Option.map_eq_none_iff.mp hm, hnone⟩
  cases a with
  | readCall src len | writeCall dst buf | eraseCall addr len =>
    obtain ⟨hbox, hkick, hfw, hm, hl⟩ := htake ht rfl
    refine ⟨m, h.inv, h.box.trans hbox.symm, h.kick.trans hkick.symm, h.fw.trans hfw.symm, ?_,
      h.last⟩
    rw [hm, hl]
    rfl
  | kick =>
    obtain rfl := Option.some.inj ht
    exact h.mailbox size (a := .kick) rfl h.box rfl h.fw h.host h.last
  | fw a =>
    obtain ⟨x, hx, rfl⟩ := Option.map_eq_some_iff.mp ht
    rw [← h.kick, ← h.box, ← h.fw] at hx
    exact h.mailbox size (a := .fw a) (Option.map_eq_some_iff.mpr ⟨x, hx, rfl⟩) rfl rfl rfl h.host
      h.last
  | host chunk expired =>
    obtain ⟨j, hj, rfl⟩ := Option.map_eq_some_iff.mp ht
    have hcmd : s.sys.lock.bind FlashJob.command = j.command := by
      rw [hj]
      rfl
    by_cases hin : ∃ c pc, j.command = some (c, pc) ∧ ∀ r, pc ≠ .done r
    · obtain ⟨c, pc, hc, hpc⟩ := hin
      obtain ⟨n, hm⟩ := h.host_eq (hcmd.trans hc)
      have hstep : m.step size (.host chunk expired) = some
          { m with
            box := (cmdStep c chunk expired m.box pc).1
            host := some (c, (cmdStep c chunk expired m.box pc).2.1, n)
            placed := m.placed ++ pc.places c } := by
        simp only [MailboxSys.step, hm]
      rw [hostStep_command s.sys chunk expired hc hpc]
      refine h.mailbox size hstep ?_ h.kick h.fw ?_ ?_
      · rw [h.box]
      · rw [h.box]
        cases j with
        | read src len got => cases hc
        | write dst rest retlen cmd | erase addr stop cmd => rfl
      · have hplaces : (FlashAct.host chunk expired).places s.sys = (pc.places c).getLast? := by
          unfold FlashAct.places
          rw [hcmd, hc]
          cases pc <;> rfl
        rw [List.getLast?_append, h.last, hplaces]
    · have hdone : ∀ c pc, j.command = some (c, pc) → ∃ r, pc = .done r := fun c pc hc => by
        by_contra hn
        exact hin ⟨c, pc, hc, fun r hr => hn ⟨r, hr⟩⟩
      obtain ⟨hbox, hkick, hfw, hnext⟩ := hostStep_between s.sys chunk expired hdone
      have hlast : m.placed.getLast? = ((FlashAct.host chunk expired).places s.sys).or s.last := by
        unfold FlashAct.places
        rw [hcmd, h.last]
        cases hc : j.command with
        | none => rfl
        | some x =>
          obtain ⟨c, pc⟩ := x
          obtain ⟨r, rfl⟩ := hdone c pc hc
          rfl
      cases hc : j.command with
      | none =>
        have hm : m.host = none := Option.map_eq_none_iff.mp (h.host.trans (hcmd.trans hc))
        rcases hnext with hnone | ⟨-, c, hnew⟩
        · refine ⟨m, h.inv, h.box.trans hbox.symm, h.kick.trans hkick.symm, h.fw.trans hfw.symm, ?_,
            hlast⟩
          rw [hm, hnone]
          rfl
        · have hstep : m.step size (.call c) =
              some { m with host := some (c, .readCmd, m.placed.length) } := by
            simp only [MailboxSys.step, hm]
          refine h.mailbox size hstep (h.box.trans hbox.symm) (h.kick.trans hkick.symm)
            (h.fw.trans hfw.symm) ?_ hlast
          rw [hnew]
          rfl
      | some x =>
        obtain ⟨c, pc⟩ := x
        obtain ⟨r, rfl⟩ := hdone c pc hc
        obtain ⟨n, hm⟩ := h.host_eq (hcmd.trans hc)
        have hnone := hnext.resolve_right fun hr => by
          rw [hc] at hr
          cases hr.1
        have hstep : m.step size .ret = some { m with
            host := none
            returned := m.returned ++ [⟨c, r, n, m.placed.length⟩] } := by
          simp only [MailboxSys.step, hm]
        refine h.mailbox size hstep (h.box.trans hbox.symm) (h.kick.trans hkick.symm)
          (h.fw.trans hfw.symm) ?_ hlast
        rw [hnone]
        rfl

/-- A command in the mailbox is the last one that was placed, and the firmware has it from there. -/
theorem pending (h : Linked s m) (hn : s.sys.box.cmd ≠ 0) :
    ∃ c, s.last = some c ∧ FwOk s.sys.box c s.sys.fw := by
  have hset := h.inv.set
  rw [h.box, h.fw] at hset
  obtain ⟨c, hc⟩ := hset hn
  refine ⟨c, ?_, hc.fw⟩
  rw [← h.last, List.getLast?_eq_getElem?, hc.last]
  exact hc.call

theorem idle (h : Linked s m) (h0 : s.sys.box.cmd = 0) : s.sys.fw.busy = false := by
  have hclear := h.inv.clear
  rw [h.box, h.fw] at hclear
  exact (hclear h0).2

/-- The mailbox is free when a command is placed. -/
theorem free (h : Linked s m) {c : FlashCall}
    (hc : s.sys.lock.bind FlashJob.command = some (c, .writeCmd)) : s.sys.box.cmd = 0 := by
  obtain ⟨n, hm⟩ := h.host_eq hc
  have hhost := h.inv.host c .writeCmd n hm
  rw [h.box] at hhost
  exact hhost.2.1

end Linked

/-! ## What a command leaves known -/

namespace FlashCall

/-- The firmware carries the command out. -/
def Valid (size : U32) (c : FlashCall) : Prop :=
  flashRequestValid size c.cmd.word c.addr c.len = true

instance (size : U32) (c : FlashCall) : Decidable (c.Valid size) :=
  inferInstanceAs (Decidable (_ = _))

/-- What is known when the command has returned 0. -/
def apply (c : FlashCall) (k : Known UInt8) : Known UInt8 :=
  match c.cmd with
  | .program => k.program c.addr.toNat c.buf
  | .erase => k.erase 0xff c.addr.toNat c.len.toNat

/-- What is known when it has failed, or while the firmware may still work on it. -/
def spoil (size : U32) (c : FlashCall) (k : Known UInt8) : Known UInt8 :=
  if c.Valid size then k.forget c.addr.toNat c.len.toNat else k

variable {size : U32} {c : FlashCall} {k : Known UInt8}

theorem spoil_spoil : c.spoil size (c.spoil size k) = c.spoil size k := by
  unfold spoil
  by_cases hv : c.Valid size
  · rw [if_pos hv, if_pos hv]
    funext o
    by_cases ho : Within c.addr.toNat c.len.toNat o
    · rw [Known.forget_of_within ho, Known.forget_of_within ho]
    · rw [Known.forget_of_not ho]
  · rw [if_neg hv, if_neg hv]

end FlashCall

/-- No command is under way that the calls have not given up: what is known holds, also when the
firmware still works on one. -/
structure Calm (size : U32) (k : Known UInt8) (last : Option FlashCall) (b : Mailbox) : Prop where
  agree : Agree k b.window
  spoilt : b.cmd ≠ 0 → ∀ c, last = some c → c.spoil size k = k

/-- Where the firmware is with the command. -/
def Phase (size : U32) (k : Known UInt8) (c : FlashCall) (before w : Nat → UInt8) :
    ServicePc → Prop
  | .op _ => Agree k before ∧ ∀ o, ¬ Within c.addr.toNat c.len.toNat o → w o = before o
  | .writeStatus _ err | .clearCmd _ err => err = espOk → c.Valid size ∧ Agree (c.apply k) w
  | _ => Agree k w

/-- The command is placed, and the call waits for it. -/
structure Working (size : U32) (k : Known UInt8) (c : FlashCall) (b : Mailbox) (fw : ServicePc)
    (before : Nat → UInt8) : Prop where
  spoilt : Agree (c.spoil size k) b.window
  running : b.cmd ≠ 0 → Phase size k c before b.window fw
  done : b.cmd = 0 → b.status = espOk → c.Valid size ∧ Agree (c.apply k) b.window

/-- The firmware works only on what it has checked. -/
def Checked (size : U32) (fw : ServicePc) : Prop :=
  ∀ e, fw = .op e → flashRequestValid size e.cmd e.addr e.len = true

section Service

variable {size : U32} {k : Known UInt8} {c : FlashCall} {b b' : Mailbox} {fw fw' : ServicePc}
  {a : OpAct} {kick kick' ring : Bool}

/-- What an operation that returns `ESP_OK` leaves known. -/
theorem Exec.Carried.agree {e : Exec} {w w' : Nat → UInt8} (h : e.Carried w w') (hof : e.Of c)
    (hk : Agree k w) (hout : ∀ o, ¬ Within c.addr.toNat c.len.toNat o → w' o = w o) :
    Agree (c.apply k) w' := by
  unfold FlashCall.apply
  obtain ⟨hprogram, herase⟩ := h
  rw [hof.cmd, hof.addr, hof.len] at hprogram herase
  cases hc : c.cmd with
  | program =>
    have hlen := c.buf_length hc
    rw [hc] at hprogram
    refine hk.program (fun i v hi => ?_) ?_
    · have hlt : i < c.buf.length := (List.getElem?_eq_some_iff.mp hi).1
      obtain ⟨x, hx, rfl, hand⟩ := hprogram rfl i (hlen ▸ hlt)
      have hload := hof.reads x hx
      rw [hi] at hload
      rw [hand, Option.some.inj hload]
    · rw [hlen]
      exact hout
  | erase =>
    rw [hc] at herase
    refine hk.erase (fun o ho => ?_) hout
    obtain ⟨hle, hlt⟩ := ho
    have hbyte := herase rfl (o - c.addr.toNat) (by omega)
    rwa [Nat.add_sub_cancel' hle] at hbyte

/-- The firmware changes the window only in an operation, and never sets CMD. -/
theorem serviceStep_window (h : serviceStep size a kick b fw = some (kick', b', fw', ring)) :
    (b'.cmd ≠ 0 → b.cmd ≠ 0) ∧ (b'.window = b.window ∨
      ∃ e o v, fw = .op e ∧ a = .flash o v ∧ b'.window = Function.update b.window o v) := by
  cases fw with
  | take =>
    simp only [serviceStep] at h
    split at h
    · cases h
      exact ⟨id, Or.inl rfl⟩
    · cases h
  | op e =>
    cases a with
    | read o =>
      simp only [serviceStep] at h
      split at h
      · cases h
        exact ⟨id, Or.inl rfl⟩
      · cases h
    | flash o v =>
      cases h
      exact ⟨id, Or.inr ⟨e, o, v, rfl, rfl, rfl⟩⟩
    | finish err =>
      cases h
      exact ⟨id, Or.inl rfl⟩
  | clearCmd e err =>
    cases h
    exact ⟨fun hn => absurd rfl hn, Or.inl rfl⟩
  | _ =>
    cases h
    exact ⟨id, Or.inl rfl⟩

/-- A firmware without a command leaves the mailbox alone. -/
theorem serviceStep_idle (h : serviceStep size a kick b fw = some (kick', b', fw', ring))
    (hb : fw.busy = false) : b' = b := by
  cases fw with
  | take =>
    simp only [serviceStep] at h
    split at h
    · cases h
      rfl
    · cases h
  | op e | writeStatus e err | clearCmd e err => cases hb
  | _ =>
    cases h
    rfl

theorem Checked.step (h : serviceStep size a kick b fw = some (kick', b', fw', ring))
    (hc : Checked size fw) : Checked size fw' := by
  intro e he
  cases fw with
  | take =>
    simp only [serviceStep] at h
    split at h <;> cases h
    cases he
  | test cmd addr len =>
    simp only [serviceStep, Option.some.injEq, Prod.mk.injEq] at h
    obtain ⟨-, -, rfl, -⟩ := h
    split at he
    · cases he
    · split at he
      · cases he
        assumption
      · cases he
  | op e' =>
    cases a with
    | read o =>
      simp only [serviceStep] at h
      split at h
      · cases h
        cases he
        exact hc e' rfl
      · cases h
    | flash o v =>
      cases h
      exact hc e he
    | finish err =>
      cases h
      cases he
  | _ =>
    cases h
    cases he

theorem update_outside {start len o o' : Nat} {w : Nat → UInt8} {v : UInt8}
    (ho : Within start len o) (ho' : ¬ Within start len o') : Function.update w o v o' = w o' := by
  refine Function.update_of_ne (fun he => ?_) _ _
  rw [he] at ho'
  exact ho' ho

/-- A step of the firmware while no call waits for it. -/
theorem Calm.service {last : Option FlashCall} {before : Nat → UInt8} (h : Calm size k last b)
    (hs : serviceStep size a kick b fw = some (kick', b', fw', ring)) (hchk : Checked size fw)
    (hpend : b.cmd ≠ 0 → ∃ c, last = some c ∧ FwOk b c fw) (hidle : b.cmd = 0 → fw.busy = false)
    (hsound : FlashSound a before b.window fw) : Calm size k last b' := by
  obtain ⟨hcmd, hwin⟩ := serviceStep_window hs
  refine ⟨?_, fun hn => h.spoilt (hcmd hn)⟩
  rcases hwin with hw | ⟨e, o, v, rfl, rfl, hw⟩
  · rw [hw]
    exact h.agree
  · -- the operation of a command that was given up
    have hn : b.cmd ≠ 0 := fun h0 => by
      cases hidle h0
    obtain ⟨c, hlast, hof⟩ := hpend hn
    have hspoil := h.spoilt hn c hlast
    have hin : Within c.addr.toNat c.len.toNat o := by
      rw [← hof.addr, ← hof.len]
      exact hsound
    have hv : c.Valid size := by
      unfold FlashCall.Valid
      rw [← hof.cmd, ← hof.addr, ← hof.len]
      exact hchk e rfl
    unfold FlashCall.spoil at hspoil
    rw [if_pos hv] at hspoil
    have hk := h.agree
    rw [← hspoil] at hk ⊢
    rw [hw]
    exact hk.forgotten fun o' ho' => update_outside hin ho'

/-- **A step of the firmware while the call waits.** -/
theorem Working.service {before : Nat → UInt8} (h : Working size k c b fw before)
    (hs : serviceStep size a kick b fw = some (kick', b', fw', ring)) (hchk : Checked size fw)
    (hpend : b.cmd ≠ 0 → FwOk b c fw) (hidle : b.cmd = 0 → fw.busy = false)
    (hsound : FlashSound a before b.window fw) :
    Working size k c b' fw' (if fw.inOp then before else b.window) := by
  by_cases h0 : b.cmd = 0
  · obtain rfl := serviceStep_idle hs (hidle h0)
    exact ⟨h.spoilt, fun hn => absurd h0 hn, h.done⟩
  · have hphase := h.running h0
    have hof := hpend h0
    have hspoilt := h.spoilt
    cases fw with
    | take =>
      simp only [serviceStep] at hs
      split at hs <;> cases hs
      exact ⟨hspoilt, fun _ => hphase, h.done⟩
    | loadCmd | loadAddr cmd | loadLen cmd addr | ring =>
      cases hs
      exact ⟨hspoilt, fun _ => hphase, h.done⟩
    | test cmd addr len =>
      cases hs
      refine ⟨hspoilt, fun _ => ?_, h.done⟩
      by_cases hz : cmd = 0
      · rw [if_pos hz]
        exact hphase
      · rw [if_neg hz]
        by_cases hv : flashRequestValid size cmd addr len = true
        · rw [if_pos hv]
          exact ⟨hphase, fun _ _ => rfl⟩
        · rw [if_neg hv]
          exact fun herr => absurd herr (by decide)
    | op e =>
      obtain ⟨hbefore, hframe⟩ := hphase
      have hv : c.Valid size := by
        unfold FlashCall.Valid
        rw [← hof.cmd, ← hof.addr, ← hof.len]
        exact hchk e rfl
      cases a with
      | read o =>
        simp only [serviceStep] at hs
        split at hs <;> cases hs
        exact ⟨hspoilt, fun _ => ⟨hbefore, hframe⟩, h.done⟩
      | flash o v =>
        cases hs
        have hin : Within c.addr.toNat c.len.toNat o := by
          rw [← hof.addr, ← hof.len]
          exact hsound
        have hout : ∀ o', ¬ Within c.addr.toNat c.len.toNat o' →
            Function.update b.window o v o' = b.window o' := fun o' ho' => update_outside hin ho'
        refine ⟨?_, fun _ => ⟨hbefore, fun o' ho' => (hout o' ho').trans (hframe o' ho')⟩,
          fun hz => absurd hz h0⟩
        unfold FlashCall.spoil at hspoilt ⊢
        rw [if_pos hv] at hspoilt ⊢
        exact hspoilt.forgotten hout
      | finish err =>
        cases hs
        refine ⟨hspoilt, fun _ herr => ?_, fun hz => absurd hz h0⟩
        exact ⟨hv, (hsound herr).agree hof hbefore hframe⟩
    | writeStatus e err =>
      cases hs
      exact ⟨hspoilt, fun _ => hphase, fun hz => absurd hz h0⟩
    | clearCmd e err =>
      cases hs
      refine ⟨hspoilt, fun hn => absurd rfl hn, fun _ hst => hphase (hof.2.symm.trans hst)⟩

end Service

/-! ## The call in progress -/

/-- What is known when the command has returned `ret`. -/
def FlashCall.returned (size : U32) (c : FlashCall) (ret : Int) (k : Known UInt8) : Known UInt8 :=
  if ret = 0 then c.apply k else if ret = -ebusy then k else c.spoil size k

/-- What holds at each point of a command, `k` being what was known before it. -/
def At (size : U32) (k : Known UInt8) (c : FlashCall) (s : StoreSys) : CmdPc → Prop
  | .ring | .wait => s.last = some c ∧ Working size k c s.sys.box s.sys.fw s.before
  | .readStatus => s.sys.box.cmd = 0 ∧ Working size k c s.sys.box s.sys.fw s.before
  | .done ret => (ret = 0 → c.Valid size) ∧ Calm size (c.returned size ret k) s.last s.sys.box
  | _ => Calm size k s.last s.sys.box

def CommandOk (size : U32) (k : Known UInt8) (s : StoreSys) : Option (FlashCall × CmdPc) → Prop
  | none => Calm size k s.last s.sys.box
  | some (c, pc) => At size k c s pc

/-- How far the call is: `k₀` was known before it, `k` is known before its next command. -/
def Progress (size : U32) (k₀ k : Known UInt8) : MtdCall → FlashJob → Prop
  | .read src len, .read src' len' got =>
    src' = src ∧ len' = len ∧ k = k₀ ∧ got.length ≤ len ∧
      ∀ i v, i < got.length → k (src + i) = some v → got[i]? = some v
  | .write dst buf, .write dst' rest retlen cmd =>
    dst' = dst + retlen ∧ rest = buf.drop retlen ∧ retlen ≤ buf.length ∧
      dst + buf.length ≤ size.toNat ∧ k = k₀.program dst (buf.take retlen) ∧
      ∀ x ∈ cmd, rest ≠ [] ∧ x.1 = programCall dst' rest
  | .erase addr len, .erase addr' stop cmd =>
    ∃ n, addr' = addr + 0x10000 * n ∧ stop = addr + len ∧ stop ≤ size.toNat ∧
      (n = 0 ∨ 0x10000 * (n - 1) < len) ∧ k = k₀.erase 0xff addr (0x10000 * n) ∧
      ∀ x ∈ cmd, addr' < stop ∧ x.1 = eraseCall addr'
  | _, _ => False

/-- A read has returned what was known. -/
def ReadOk (k : Known UInt8) : MtdCall × FlashReturn → Prop
  | (.read src len, r) => ∃ bs, r = .read src bs ∧ bs.length = len ∧
      ∀ i v, i < len → k (src + i) = some v → bs[i]? = some v
  | _ => True

theorem FlashJob.at_command {j : FlashJob} {x : FlashCall × CmdPc} (h : j.command = some x)
    (y : Option (FlashCall × CmdPc)) : (j.at y).command = y := by
  cases j with
  | read src len got => cases h
  | write dst rest retlen cmd | erase addr stop cmd => rfl

/-- The call does not get on while it is in a command. -/
theorem Progress.at {size : U32} {k₀ k : Known UInt8} {call : MtdCall} {j : FlashJob}
    {c : FlashCall} {pc : CmdPc} (h : Progress size k₀ k call j) (hc : j.command = some (c, pc))
    (pc' : CmdPc) : Progress size k₀ k call (j.at (some (c, pc'))) := by
  cases j with
  | read src len got => cases hc
  | write dst rest retlen cmd =>
    obtain rfl : cmd = some (c, pc) := hc
    cases call with
    | write dst' buf =>
      obtain ⟨h1, h2, h3, h4, h5, h6⟩ := h
      refine ⟨h1, h2, h3, h4, h5, fun x hx => ?_⟩
      cases hx
      exact h6 (c, pc) rfl
    | _ => cases h
  | erase addr stop cmd =>
    obtain rfl : cmd = some (c, pc) := hc
    cases call with
    | erase addr' len =>
      obtain ⟨n, h1, h2, h3, h4, h5, h6⟩ := h
      refine ⟨n, h1, h2, h3, h4, h5, fun x hx => ?_⟩
      cases hx
      exact h6 (c, pc) rfl
    | _ => cases h

/-- **The invariant of the device.** -/
structure StoreInv (size : U32) (w : Nat → UInt8) (s : StoreSys) : Prop where
  linked : ∃ m, Linked s m
  checked : Checked size s.sys.fw
  reads : ∀ (i : Nat) x, s.log[i]? = some x → ReadOk (store size w (s.log.take i)) x
  free : s.sys.lock = none → s.calls.length = s.sys.returned.length ∧
    Calm size (store size w s.log) s.last s.sys.box
  held : ∀ j, s.sys.lock = some j → ∃ past call k, s.calls = past ++ [call] ∧
    past.length = s.sys.returned.length ∧ Progress size (store size w s.log) k call j ∧
      CommandOk size k s j.command

section Host

variable {size : U32} {k : Known UInt8} {c : FlashCall} {b : Mailbox} {fw : ServicePc}

/-- `before` counts only in an operation. -/
theorem Working.outside {before : Nat → UInt8} (h : Working size k c b fw before) :
    Working size k c b fw (if fw.inOp then before else b.window) := by
  refine ⟨h.spoilt, fun hn => ?_, h.done⟩
  have hphase := h.running hn
  cases fw <;> exact hphase

/-- The command is placed. -/
theorem Calm.place {last : Option FlashCall} (h : Calm size k last b) (hidle : fw.busy = false)
    (before : Nat → UInt8) :
    Working size k c { b with cmd := c.cmd.word } fw before := by
  refine ⟨?_, fun _ => ?_, fun h0 => absurd h0 c.cmd.word_ne_zero⟩
  · unfold FlashCall.spoil
    split
    · exact h.agree.forget fun _ _ => rfl
    · exact h.agree
  · cases fw with
    | op e | writeStatus e err | clearCmd e err => cases hidle
    | _ => exact h.agree

/-- **A step of the task in its command.** -/
theorem At.step {s : StoreSys} {pc : CmdPc} (h : At size k c s pc) (hpc : ∀ r, pc ≠ .done r)
    (hfree : pc = .writeCmd → s.sys.fw.busy = false) (chunk : Nat) (expired : Bool)
    {s' : StoreSys} (hbox : s'.sys.box = (cmdStep c chunk expired s.sys.box pc).1)
    (hfw : s'.sys.fw = s.sys.fw) (hlast : s'.last = (pc.places c).getLast?.or s.last)
    (hbefore : s'.before = if s.sys.fw.inOp then s.before else s.sys.box.window) :
    At size k c s' (cmdStep c chunk expired s.sys.box pc).2.1 := by
  cases pc with
  | done r => exact absurd rfl (hpc r)
  | readCmd =>
    have hcalm : Calm size k s'.last s'.sys.box := by
      rw [hbox, hlast]
      exact h
    show At size k c s' (if s.sys.box.cmd = 0 then .writeAddr else .done (-ebusy))
    split
    · exact hcalm
    · exact ⟨fun he => absurd he (by decide), hcalm⟩
  | writeAddr =>
    show Calm size k s'.last s'.sys.box
    rw [hbox, hlast]
    exact ⟨h.agree, h.spoilt⟩
  | writeLen =>
    have hcalm : Calm size k s'.last s'.sys.box := by
      rw [hbox, hlast]
      exact ⟨h.agree, h.spoilt⟩
    show At size k c s' (if c.cmd = .program then .copyData (Shm.copyTo 0 c.buf) else .writeCmd)
    split
    · exact hcalm
    · exact hcalm
  | copyData todo =>
    cases todo with
    | nil | cons x xs =>
      show Calm size k s'.last s'.sys.box
      rw [hbox, hlast]
      exact ⟨h.agree, h.spoilt⟩
  | writeCmd =>
    refine ⟨hlast, ?_⟩
    rw [hbox, hfw]
    exact Calm.place h (hfree rfl) _
  | ring =>
    refine ⟨hlast.trans h.1, ?_⟩
    rw [hbox, hfw, hbefore]
    exact h.2.outside
  | wait =>
    obtain ⟨hc, hw⟩ := h
    have hw' : Working size k c s'.sys.box s'.sys.fw s'.before := by
      rw [hbox, hfw, hbefore]
      exact hw.outside
    have hl : s'.last = some c := hlast.trans hc
    show At size k c s'
      (if s.sys.box.cmd = 0 then .readStatus else if expired then .done (-etimedout) else .wait)
    split
    · refine ⟨?_, hw'⟩
      rw [hbox]
      assumption
    · split
      · -- the call gives the command up
        refine ⟨fun he => absurd he (by decide), hw'.spoilt, fun _ c' hc' => ?_⟩
        obtain rfl := Option.some.inj (hl.symm.trans hc')
        exact FlashCall.spoil_spoil
      · exact ⟨hl, hw'⟩
  | readStatus =>
    obtain ⟨h0, hw⟩ := h
    have h0' : s'.sys.box.cmd = 0 := by
      rw [hbox]
      exact h0
    have hwin : s'.sys.box.window = s.sys.box.window := by
      rw [hbox]
      rfl
    have hcalm : ∀ {k'}, Agree k' s.sys.box.window → Calm size k' s'.last s'.sys.box := fun hk =>
      ⟨hwin ▸ hk, fun hn => absurd h0' hn⟩
    show At size k c s' (.done (if s.sys.box.status = 0 then 0 else -eio))
    by_cases hst : s.sys.box.status = 0
    · rw [if_pos hst]
      obtain ⟨hv, hk⟩ := hw.done h0 hst
      exact ⟨fun _ => hv, hcalm hk⟩
    · rw [if_neg hst]
      exact ⟨fun he => absurd he (by decide), hcalm hw.spoilt⟩

end Host

section Piece

variable {size : U32} {k k₀ : Known UInt8}

/-- The next piece of a write. -/
theorem program_apply {dst : Nat} {rest : List UInt8} (h : dst + rest.length ≤ size.toNat) :
    (programCall dst rest).apply k = k.program dst (rest.take (programLen dst rest)) := by
  have hsize := size.isLt
  show k.program (programCall dst rest).addr.toNat _ = _
  rw [programCall_addr rest (by omega)]
  rfl

theorem program_spoil {dst : Nat} {rest : List UInt8} (hne : rest ≠ [])
    (h : dst + rest.length ≤ size.toNat) :
    (programCall dst rest).spoil size k = k.forget dst (programLen dst rest) := by
  have hsize := size.isLt
  have hv : (programCall dst rest).Valid size := programCall_valid hne h
  unfold FlashCall.spoil
  rw [if_pos hv, programCall_addr rest (by omega), programCall_len]

/-- The next block of an erase. -/
theorem erase_valid {addr : Nat} (h : addr < 2 ^ 32) :
    (eraseCall addr).Valid size ↔ BlockAt size addr := by
  have hnat : (BitVec.ofNat 64 addr).toNat = addr := by
    rw [BitVec.toNat_ofNat]
    omega
  have hvalid := @eraseCall_valid size (BitVec.ofNat 64 addr) (by omega)
  rw [hnat] at hvalid
  exact hvalid

theorem erase_addr {addr : Nat} (h : addr < 2 ^ 32) : (eraseCall addr).addr.toNat = addr :=
  Nat.mod_eq_of_lt h

/-- The end of a write. -/
theorem write_failed {dst retlen : Nat} {buf : List UInt8} (hret : retlen ≤ buf.length)
    (hwin : dst + buf.length ≤ size.toNat) (hne : buf.drop retlen ≠ []) {ret : Int} (h0 : ret ≠ 0) :
    mtdStore size k₀ (.write dst buf) (.write ret retlen) =
      (programCall (dst + retlen) (buf.drop retlen)).returned size ret
        (k₀.program dst (buf.take retlen)) := by
  unfold FlashCall.returned mtdStore
  dsimp only
  rw [if_neg h0, program_spoil hne (by
    rw [List.length_drop]
    omega)]
  by_cases hb : ret = -ebusy
  · rw [if_pos hb, if_pos (Or.inr hb)]
  · rw [if_neg hb, if_neg (not_or.mpr ⟨h0, hb⟩)]

/-- A piece of a write that went well. -/
theorem write_next {dst retlen n : Nat} {buf : List UInt8} (hret : retlen ≤ buf.length) :
    (k₀.program dst (buf.take retlen)).program (dst + retlen) ((buf.drop retlen).take n) =
      k₀.program dst (buf.take (retlen + n)) := by
  rw [List.take_add, program_append, List.length_take_of_le hret]

/-- The end of an erase. -/
theorem erase_failed {addr len n : Nat} (haddr : addr + 0x10000 * n < 2 ^ 32) {ret : Int}
    (h0 : ret ≠ 0) :
    mtdStore size k₀ (.erase addr len) (.erase ret (some (addr + 0x10000 * n))) =
      (eraseCall (addr + 0x10000 * n)).returned size ret (k₀.erase 0xff addr (0x10000 * n)) := by
  have hdone : addr + 0x10000 * n - addr = 0x10000 * n := by omega
  unfold FlashCall.returned FlashCall.spoil mtdStore
  dsimp only
  rw [hdone, if_neg h0, erase_addr haddr]
  by_cases hb : ret = -ebusy
  · rw [if_pos hb, if_pos (Or.inl hb)]
  · rw [if_neg hb]
    by_cases hv : (addr + 0x10000 * n) % 0x10000 = 0 ∧ addr + 0x10000 * n + 0x10000 ≤ size.toNat
    · rw [if_pos ((erase_valid haddr).mpr hv), if_neg (not_or.mpr ⟨hb, not_not.mpr hv⟩)]
      rfl
    · rw [if_neg fun hc => hv ((erase_valid haddr).mp hc), if_pos (Or.inr hv)]

/-- A block of an erase that went well. -/
theorem erase_next {addr n : Nat} (haddr : addr + 0x10000 * n < 2 ^ 32) :
    (eraseCall (addr + 0x10000 * n)).apply (k₀.erase 0xff addr (0x10000 * n)) =
      k₀.erase 0xff addr (0x10000 * (n + 1)) := by
  rw [Nat.mul_succ, erase_add]
  show (k₀.erase 0xff addr (0x10000 * n)).erase 0xff _ 0x10000 = _
  rw [erase_addr haddr]

end Piece

/-! ## A step -/

namespace StoreInv

variable {size : U32} {w : Nat → UInt8} {s s' : StoreSys}

theorem store_append (log : List (MtdCall × FlashReturn)) (x : MtdCall × FlashReturn) :
    store size w (log ++ [x]) = mtdStore size (store size w log) x.1 x.2 :=
  List.foldl_append

/-- The log does not count the call in progress. -/
theorem log_held {past : List MtdCall} {call : MtdCall} (hcalls : s.calls = past ++ [call])
    (hlen : past.length = s.sys.returned.length) : s.log = past.zip s.sys.returned := by
  unfold StoreSys.log
  rw [hcalls]
  conv_lhs => rw [← List.append_nil s.sys.returned]
  rw [List.zip_append hlen, List.zip_nil_right, List.append_nil]

/-- A step that returns from no call. -/
theorem keep (h : StoreInv size w s) (hlinked : ∃ m, Linked s' m)
    (hchecked : Checked size s'.sys.fw) (hlog : s'.log = s.log)
    (hfree : s'.sys.lock = none → s'.calls.length = s'.sys.returned.length ∧
      Calm size (store size w s.log) s'.last s'.sys.box)
    (hheld : ∀ j, s'.sys.lock = some j → ∃ past call k, s'.calls = past ++ [call] ∧
      past.length = s'.sys.returned.length ∧ Progress size (store size w s.log) k call j ∧
        CommandOk size k s' j.command) : StoreInv size w s' where
  linked := hlinked
  checked := hchecked
  reads := hlog ▸ h.reads
  free := hlog ▸ hfree
  held := hlog ▸ hheld

/-- The holder releases the mutex. -/
theorem release (h : StoreInv size w s) (hlinked : ∃ m, Linked s' m) {past : List MtdCall}
    {call : MtdCall} (hcalls : s.calls = past ++ [call])
    (hlen : past.length = s.sys.returned.length) {r : FlashReturn}
    (hsys : s'.sys = s.sys.release r) (hcalls' : s'.calls = s.calls) (hlast : s'.last = s.last)
    (hread : ReadOk (store size w s.log) (call, r))
    (hcalm : Calm size (mtdStore size (store size w s.log) call r) s.last s.sys.box) :
    StoreInv size w s' := by
  have hlog : s'.log = s.log ++ [(call, r)] := by
    rw [log_held hcalls hlen]
    unfold StoreSys.log
    rw [hcalls', hsys, hcalls]
    exact List.zip_append hlen
  refine ⟨hlinked, ?_, fun i x hx => ?_, fun _ => ?_, fun j hj => ?_⟩
  · rw [hsys]
    exact h.checked
  · rw [hlog] at hx ⊢
    rcases Nat.lt_or_ge i s.log.length with hlt | hge
    · rw [List.getElem?_append_left hlt] at hx
      rw [List.take_append_of_le_length (Nat.le_of_lt hlt)]
      exact h.reads i x hx
    · have hi : i < (s.log ++ [(call, r)]).length := (List.getElem?_eq_some_iff.mp hx).1
      rw [List.length_append, List.length_singleton] at hi
      obtain rfl : i = s.log.length := by omega
      rw [List.getElem?_append_right (Nat.le_refl _), Nat.sub_self] at hx
      obtain rfl := Option.some.inj hx
      rw [List.take_append_of_le_length (Nat.le_refl _), List.take_length]
      exact hread
  · rw [hlog, store_append, hsys, hlast, hcalls', hcalls]
    refine ⟨?_, hcalm⟩
    show (past ++ [call]).length = (s.sys.returned ++ [r]).length
    rw [List.length_append, List.length_append, hlen]
    rfl
  · rw [hsys] at hj
    cases hj

/-- A step of the firmware. -/
theorem service (h : StoreInv size w s) {a : OpAct} {x : Bool × Mailbox × ServicePc × Bool}
    (hx : serviceStep size a s.sys.kick s.sys.box s.sys.fw = some x) {m : MailboxSys}
    (hm : Linked s m) (hsound : FlashSound a s.before s.sys.box.window s.sys.fw)
    (hlinked : ∃ m, Linked s' m) (hbox : s'.sys.box = x.2.1) (hfw : s'.sys.fw = x.2.2.1)
    (hlock : s'.sys.lock = s.sys.lock) (hret : s'.sys.returned = s.sys.returned)
    (hcalls : s'.calls = s.calls) (hlast : s'.last = s.last)
    (hbefore : s'.before = if s.sys.fw.inOp then s.before else s.sys.box.window) :
    StoreInv size w s' := by
  obtain ⟨kick, b, fw, ring⟩ := x
  have hcalm : ∀ {k}, Calm size k s.last s.sys.box → Calm size k s'.last s'.sys.box := by
    intro k hk
    rw [hlast, hbox]
    exact hk.service hx h.checked hm.pending hm.idle hsound
  have hwork : ∀ {k c}, s.last = some c → Working size k c s.sys.box s.sys.fw s.before →
      Working size k c s'.sys.box s'.sys.fw s'.before := by
    intro k c hc hk
    rw [hbox, hfw, hbefore]
    refine hk.service hx h.checked (fun hn => ?_) hm.idle hsound
    obtain ⟨c', hc', hof⟩ := hm.pending hn
    obtain rfl := Option.some.inj (hc.symm.trans hc')
    exact hof
  have hlog : s'.log = s.log := by
    unfold StoreSys.log
    rw [hcalls, hret]
  refine h.keep hlinked (hfw ▸ h.checked.step hx) hlog ?_ ?_
  · rw [hlock, hcalls, hret]
    exact fun hl => (h.free hl).imp_right hcalm
  · rw [hlock, hcalls, hret]
    intro j hj
    obtain ⟨past, call, k, hc, hl, hp, hcmd⟩ := h.held j hj
    refine ⟨past, call, k, hc, hl, hp, ?_⟩
    cases hjc : j.command with
    | none =>
      rw [hjc] at hcmd
      exact hcalm hcmd
    | some y =>
      obtain ⟨c, pc⟩ := y
      rw [hjc] at hcmd
      cases pc with
      | ring | wait => exact ⟨hlast.trans hcmd.1, hwork hcmd.1 hcmd.2⟩
      | readStatus =>
        obtain ⟨h0, hk⟩ := hcmd
        -- the firmware has nothing to do
        obtain rfl : b = s.sys.box := serviceStep_idle hx (hm.idle h0)
        show s'.sys.box.cmd = 0 ∧ Working size k c s'.sys.box s'.sys.fw s'.before
        rw [hbox]
        exact ⟨h0, hk.spoilt, fun hn => absurd h0 hn, hk.done⟩
      | done ret => exact hcmd.imp_right hcalm
      | _ => exact hcalm hcmd

/-- The task is in a command. -/
theorem command (h : StoreInv size w s) {m : MailboxSys} (hm : Linked s m) {j : FlashJob}
    (hj : s.sys.lock = some j) {c : FlashCall} {pc : CmdPc} (hc : j.command = some (c, pc))
    (hpc : ∀ r, pc ≠ .done r) {chunk : Nat} {expired : Bool} (hlinked : ∃ m, Linked s' m)
    (hsys : s'.sys = s.sys.hostStep chunk expired j) (hcalls : s'.calls = s.calls)
    (hlast : s'.last = (pc.places c).getLast?.or s.last)
    (hbefore : s'.before = if s.sys.fw.inOp then s.before else s.sys.box.window) :
    StoreInv size w s' := by
  rw [hostStep_command s.sys chunk expired hc hpc] at hsys
  obtain ⟨past, call, k, hpast, hlen, hp, hat⟩ := h.held j hj
  rw [hc] at hat
  refine h.keep hlinked ?_ ?_ (fun hl => ?_) fun j' hj' => ?_
  · rw [hsys]
    exact h.checked
  · unfold StoreSys.log
    rw [hsys, hcalls]
  · rw [hsys] at hl
    cases hl
  · have hfree : pc = .writeCmd → s.sys.fw.busy = false := fun hw => by
      refine hm.idle (hm.free (c := c) ?_)
      rw [hj, ← hw]
      exact hc
    have hnext := hat.step hpc hfree chunk expired (by rw [hsys]) (by rw [hsys]) hlast hbefore
    rw [hsys] at hj' ⊢
    obtain rfl := Option.some.inj hj'
    refine ⟨past, call, k, hcalls.trans hpast, hlen, hp.at hc _, ?_⟩
    rw [FlashJob.at_command hc]
    exact hnext

/-- The call gets on to another point, with the mailbox as it is. -/
theorem next (h : StoreInv size w s) (hlinked : ∃ m, Linked s' m) {past : List MtdCall}
    {call : MtdCall} (hpast : s.calls = past ++ [call]) (hlen : past.length = s.sys.returned.length)
    {j : FlashJob} (hsys : s'.sys = { s.sys with lock := some j }) (hcalls : s'.calls = s.calls)
    (hlast : s'.last = s.last) {k : Known UInt8}
    (hp : Progress size (store size w s.log) k call j) (hcalm : Calm size k s.last s.sys.box)
    (hcmd : ∀ x ∈ j.command, x.2 = .readCmd) : StoreInv size w s' := by
  refine h.keep hlinked ?_ ?_ (fun hl => ?_) fun j' hj' => ?_
  · rw [hsys]
    exact h.checked
  · unfold StoreSys.log
    rw [hsys, hcalls]
  · rw [hsys] at hl
    cases hl
  · have hcalm' : Calm size k s'.last s'.sys.box := by
      rw [hlast, hsys]
      exact hcalm
    rw [hsys] at hj' ⊢
    obtain rfl := Option.some.inj hj'
    refine ⟨past, call, k, hcalls.trans hpast, hlen, hp, ?_⟩
    cases hc : j.command with
    | none => exact hcalm'
    | some x =>
      obtain ⟨c, pc⟩ := x
      obtain rfl : pc = .readCmd := hcmd _ hc
      exact hcalm'

/-- A read gets on, or returns. -/
theorem read (h : StoreInv size w s) {src len : Nat} {got : List UInt8}
    (hj : s.sys.lock = some (.read src len got)) {chunk : Nat} (expired : Bool)
    (hlinked : ∃ m, Linked s' m)
    (hsys : s'.sys = s.sys.hostStep chunk expired (.read src len got)) (hcalls : s'.calls = s.calls)
    (hlast : s'.last = s.last) : StoreInv size w s' := by
  obtain ⟨past, call, k, hpast, hlen, hp, hcalm⟩ := h.held _ hj
  cases call with
  | write dst buf | erase addr len' => cases hp
  | read src' len' =>
    obtain ⟨rfl, rfl, rfl, hle, hgot⟩ := hp
    replace hcalm : Calm size (store size w s.log) s.last s.sys.box := hcalm
    unfold FlashSys.hostStep at hsys
    dsimp only at hsys
    split at hsys
    · -- the next part of the window, which holds what is known
      have hnew : ∀ i v, i < (got ++ FlashSys.bytes s.sys.box.window (src + got.length)
          (min (chunk + 1) (len - got.length))).length →
          store size w s.log (src + i) = some v →
            (got ++ FlashSys.bytes s.sys.box.window (src + got.length)
              (min (chunk + 1) (len - got.length)))[i]? = some v := by
        intro i v hi hk
        rw [List.length_append, FlashSys.length_bytes] at hi
        rcases Nat.lt_or_ge i got.length with hlt | hge
        · rw [List.getElem?_append_left hlt]
          exact hgot i v hlt hk
        · rw [List.getElem?_append_right hge]
          unfold FlashSys.bytes
          rw [List.getElem?_map, List.getElem?_range (by omega)]
          have hbyte := hcalm.agree _ v hk
          rw [← hbyte, Option.map_some]
          congr 2
          omega
      refine h.next hlinked hpast hlen hsys hcalls hlast (k := store size w s.log)
        ⟨rfl, rfl, rfl, ?_, hnew⟩ hcalm nofun
      rw [List.length_append, FlashSys.length_bytes]
      omega
    · refine h.release hlinked hpast hlen hsys hcalls hlast ⟨got, rfl, by omega, ?_⟩ hcalm
      exact fun i v hi => hgot i v (by omega)

/-- A write begins its next command, or returns. -/
theorem write (h : StoreInv size w s) {dst : Nat} {rest : List UInt8} {retlen : Nat}
    {cmd : Option (FlashCall × CmdPc)} (hj : s.sys.lock = some (.write dst rest retlen cmd))
    (hdone : ∀ c pc, cmd = some (c, pc) → ∃ r, pc = .done r) {chunk : Nat} {expired : Bool}
    (hlinked : ∃ m, Linked s' m)
    (hsys : s'.sys = s.sys.hostStep chunk expired (.write dst rest retlen cmd))
    (hcalls : s'.calls = s.calls) (hlast : s'.last = s.last) : StoreInv size w s' := by
  obtain ⟨past, call, k, hpast, hlen, hp, hcmd⟩ := h.held _ hj
  cases call with
  | read src len | erase addr len => cases hp
  | write dst' buf =>
    obtain ⟨rfl, rfl, hle, hwin, rfl, hcall⟩ := hp
    have hrest : dst' + retlen + (buf.drop retlen).length ≤ size.toNat := by
      rw [List.length_drop]
      omega
    cases cmd with
    | none =>
      have hcalm : Calm size ((store size w s.log).program dst' (buf.take retlen)) s.last
          s.sys.box := hcmd
      unfold FlashSys.hostStep at hsys
      dsimp only at hsys
      split at hsys
      · rename_i hnil
        refine h.release hlinked hpast hlen hsys hcalls hlast trivial ?_
        unfold mtdStore
        dsimp only
        rw [if_pos (Or.inl rfl)]
        exact hcalm
      · rename_i hne
        refine h.next hlinked hpast hlen hsys hcalls hlast
          ⟨rfl, rfl, hle, hwin, rfl, fun x hx => ?_⟩ hcalm fun x hx => ?_
        · cases hx
          exact ⟨hne, rfl⟩
        · cases hx
          rfl
    | some x =>
      obtain ⟨c, pc⟩ := x
      obtain ⟨r, rfl⟩ := hdone c pc rfl
      obtain ⟨hne, hc⟩ := hcall _ rfl
      dsimp only at hc
      obtain ⟨-, hcalm⟩ := hcmd
      unfold FlashSys.hostStep at hsys
      dsimp only at hsys
      split at hsys
      · rename_i hr
        refine h.release hlinked hpast hlen hsys hcalls hlast trivial ?_
        rw [write_failed hle hwin hne hr, ← hc]
        exact hcalm
      · rename_i hr
        obtain rfl := not_not.mp hr
        refine h.next hlinked hpast hlen hsys hcalls hlast
          ⟨Nat.add_assoc _ _ _, List.drop_drop, ?_, hwin, rfl, nofun⟩ ?_ nofun
        · have := programLen_le (dst' + retlen) (buf.drop retlen)
          rw [List.length_drop] at this
          omega
        · rw [hc] at hcalm
          have happly := hcalm
          unfold FlashCall.returned at happly
          rw [if_pos rfl, program_apply hrest, write_next hle] at happly
          exact happly

/-- An erase begins its next command, or returns. -/
theorem erase (h : StoreInv size w s) {addr stop : Nat} {cmd : Option (FlashCall × CmdPc)}
    (hj : s.sys.lock = some (.erase addr stop cmd))
    (hdone : ∀ c pc, cmd = some (c, pc) → ∃ r, pc = .done r) {chunk : Nat} {expired : Bool}
    (hlinked : ∃ m, Linked s' m)
    (hsys : s'.sys = s.sys.hostStep chunk expired (.erase addr stop cmd))
    (hcalls : s'.calls = s.calls) (hlast : s'.last = s.last) : StoreInv size w s' := by
  obtain ⟨past, call, k, hpast, hlen, hp, hcmd⟩ := h.held _ hj
  have hsize := size.isLt
  cases call with
  | read src len | write dst buf => cases hp
  | erase addr' len =>
    obtain ⟨n, rfl, rfl, hwin, hblocks, rfl, hcall⟩ := hp
    cases cmd with
    | none =>
      have hcalm : Calm size ((store size w s.log).erase 0xff addr' (0x10000 * n)) s.last
          s.sys.box := hcmd
      unfold FlashSys.hostStep at hsys
      dsimp only at hsys
      split at hsys
      · rename_i hlt
        refine h.next hlinked hpast hlen hsys hcalls hlast
          ⟨n, rfl, rfl, hwin, hblocks, rfl, fun x hx => ?_⟩ hcalm fun x hx => ?_
        · cases hx
          exact ⟨hlt, rfl⟩
        · cases hx
          rfl
      · -- as many blocks as the range has
        have hn : (len + 0xffff) / 0x10000 * 0x10000 = 0x10000 * n := by omega
        refine h.release hlinked hpast hlen hsys hcalls hlast trivial ?_
        unfold mtdStore
        dsimp only
        rw [hn]
        exact hcalm
    | some x =>
      obtain ⟨c, pc⟩ := x
      obtain ⟨r, rfl⟩ := hdone c pc rfl
      obtain ⟨hlt, hc⟩ := hcall _ rfl
      dsimp only at hlt hc
      obtain ⟨-, hcalm⟩ := hcmd
      rw [hc] at hcalm
      unfold FlashSys.hostStep at hsys
      dsimp only at hsys
      split at hsys
      · rename_i hr
        refine h.release hlinked hpast hlen hsys hcalls hlast trivial ?_
        rw [erase_failed (by omega) hr]
        exact hcalm
      · rename_i hr
        obtain rfl := not_not.mp hr
        have happly := hcalm
        unfold FlashCall.returned at happly
        rw [if_pos rfl, erase_next (by omega)] at happly
        refine h.next hlinked hpast hlen hsys hcalls hlast
          ⟨n + 1, ?_, rfl, hwin, Or.inr ?_, rfl, nofun⟩ happly nofun
        · show addr' + 0x10000 * n + 0x10000 = _
          omega
        · rw [Nat.add_sub_cancel]
          omega

/-- The task of the firmware is woken. -/
theorem kick (h : StoreInv size w s) (hlinked : ∃ m, Linked s' m)
    (hsys : s'.sys = { s.sys with kick := true }) (hcalls : s'.calls = s.calls)
    (hlast : s'.last = s.last)
    (hbefore : s'.before = if s.sys.fw.inOp then s.before else s.sys.box.window) :
    StoreInv size w s' := by
  have hlog : s'.log = s.log := by
    unfold StoreSys.log
    rw [hsys, hcalls]
  have hcalm : ∀ {k}, Calm size k s.last s.sys.box → Calm size k s'.last s'.sys.box := by
    intro k hk
    rw [hlast, hsys]
    exact hk
  have hwork : ∀ {k c}, Working size k c s.sys.box s.sys.fw s.before →
      Working size k c s'.sys.box s'.sys.fw s'.before := by
    intro k c hk
    rw [hbefore, hsys]
    exact hk.outside
  refine h.keep hlinked ?_ hlog ?_ ?_
  · rw [hsys]
    exact h.checked
  · rw [hcalls]
    intro hl
    rw [hsys] at hl ⊢
    obtain ⟨hlen, hk⟩ := h.free hl
    exact ⟨hlen, hlast ▸ hk⟩
  · rw [hcalls]
    intro j hj
    have hl : s.sys.lock = some j := by
      rw [hsys] at hj
      exact hj
    have hreturned : s'.sys.returned = s.sys.returned := by rw [hsys]
    obtain ⟨past, call, k, hpast, hlen, hp, hcmd⟩ := h.held j hl
    refine ⟨past, call, k, hpast, by rw [hreturned, hlen], hp, ?_⟩
    cases hjc : j.command with
    | none =>
      rw [hjc] at hcmd
      exact hcalm hcmd
    | some x =>
      obtain ⟨c, pc⟩ := x
      rw [hjc] at hcmd
      cases pc with
      | ring | wait => exact ⟨hlast.trans hcmd.1, hwork hcmd.2⟩
      | readStatus =>
        refine ⟨?_, hwork hcmd.2⟩
        rw [hsys]
        exact hcmd.1
      | done ret => exact hcmd.imp_right hcalm
      | _ => exact hcalm hcmd

/-- A task takes the mutex. -/
theorem take (h : StoreInv size w s) (hlinked : ∃ m, Linked s' m) {j : FlashJob} {call : MtdCall}
    (hs : s.sys.take j = some s'.sys) (hcalls : s'.calls = s.calls ++ [call])
    (hlast : s'.last = s.last) (hcmd : j.command = none)
    (hp : ∀ k, Progress size k k call j) : StoreInv size w s' := by
  unfold FlashSys.take at hs
  cases hl : s.sys.lock with
  | some j' =>
    rw [hl] at hs
    cases hs
  | none =>
    rw [hl] at hs
    have hsys := (Option.some.inj hs).symm
    obtain ⟨hlen, hcalm⟩ := h.free hl
    have hlog : s'.log = s.log := by
      have hreturned : s'.sys.returned = s.sys.returned := by rw [hsys]
      rw [log_held hcalls (by rw [hreturned, hlen]), hreturned]
      rfl
    refine h.keep hlinked ?_ hlog (fun hn => ?_) fun j' hj' => ?_
    · rw [hsys]
      exact h.checked
    · rw [hsys] at hn
      cases hn
    · refine ⟨s.calls, call, store size w s.log, hcalls, ?_, ?_, ?_⟩
      · rw [hsys]
        exact hlen
      · rw [hsys] at hj'
        obtain rfl := Option.some.inj hj'
        exact hp _
      · rw [hsys] at hj'
        obtain rfl := Option.some.inj hj'
        rw [hcmd]
        show Calm size _ s'.last s'.sys.box
        rw [hlast, hsys]
        exact hcalm

/-- **One step keeps the invariant.** -/
theorem step (h : StoreInv size w s) {a : FlashAct} (hsound : Sound size a s)
    (hs : s.step size a = some s') : StoreInv size w s' := by
  obtain ⟨m, hm⟩ := h.linked
  have hlinked := hm.step hs
  obtain ⟨t, ht, rfl⟩ := Option.map_eq_some_iff.mp hs
  have hnil : s.calls ++ [] = s.calls := List.append_nil _
  cases a with
  | readCall src len =>
    exact h.take hlinked ht rfl rfl rfl fun k => ⟨rfl, rfl, rfl, Nat.zero_le _, fun i v hi =>
      absurd hi (Nat.not_lt_zero _)⟩
  | writeCall dst buf =>
    refine h.take hlinked ht rfl rfl rfl fun k => ⟨rfl, rfl, Nat.zero_le _, ?_, ?_, nofun⟩
    · exact hsound (.write dst buf) rfl
    · exact (program_nil k dst).symm
  | eraseCall addr len =>
    refine h.take hlinked ht rfl rfl rfl fun k => ⟨0, rfl, rfl, ?_, Or.inl rfl, ?_, nofun⟩
    · exact hsound (.erase addr len) rfl
    · exact (erase_zero 0xff k addr).symm
  | kick =>
    obtain rfl := Option.some.inj ht
    exact h.kick hlinked rfl hnil rfl rfl
  | fw a =>
    obtain ⟨x, hx, rfl⟩ := Option.map_eq_some_iff.mp ht
    exact h.service hx hm hsound hlinked rfl rfl rfl rfl hnil rfl rfl
  | host chunk expired =>
    obtain ⟨j, hj, rfl⟩ := Option.map_eq_some_iff.mp ht
    have hcmd : s.sys.lock.bind FlashJob.command = j.command := by
      rw [hj]
      rfl
    by_cases hin : ∃ c pc, j.command = some (c, pc) ∧ ∀ r, pc ≠ .done r
    · obtain ⟨c, pc, hc, hpc⟩ := hin
      refine h.command hm hj hc hpc hlinked rfl hnil ?_ rfl
      unfold FlashAct.places
      rw [hcmd, hc]
      cases pc <;> rfl
    · have hdone : ∀ c pc, j.command = some (c, pc) → ∃ r, pc = .done r := fun c pc hc => by
        by_contra hn
        exact hin ⟨c, pc, hc, fun r hr => hn ⟨r, hr⟩⟩
      have hlast : ((FlashAct.host chunk expired).places s.sys).or s.last = s.last := by
        unfold FlashAct.places
        rw [hcmd]
        cases hc : j.command with
        | none => rfl
        | some x =>
          obtain ⟨c, pc⟩ := x
          obtain ⟨r, rfl⟩ := hdone c pc hc
          rfl
      cases j with
      | read src len got => exact h.read hj expired hlinked rfl hnil hlast
      | write dst rest retlen cmd => exact h.write hj hdone hlinked rfl hnil hlast
      | erase addr stop cmd => exact h.erase hj hdone hlinked rfl hnil hlast

theorem start (h : StoreSys.Start w s) : StoreInv size w s := by
  have hreturned := h.sys.fresh.2
  have hlog : s.log = [] := by
    unfold StoreSys.log
    rw [h.calls]
    rfl
  refine ⟨h.linked, fun e he => ?_, fun i x hx => ?_, fun _ => ⟨?_, ?_, ?_⟩, fun j hj => ?_⟩
  · rw [h.sys.fw] at he
    cases he
  · rw [hlog] at hx
    cases hx
  · rw [h.calls, hreturned]
    rfl
  · rw [hlog, h.window]
    intro o v hv
    exact Option.some.inj hv
  · exact fun hn => absurd h.sys.cmd hn
  · rw [h.sys.fresh.1] at hj
    cases hj

end StoreInv

/-! ## The result -/

/-- **The MTD device is a NOR store.** In every interleaving of the tasks that read, write and
erase, of the firmware and of the flash, in which any waits time out and any operations fail: each
read has returned as many bytes as it was asked for, and where the calls before it leave a byte
known, that byte. -/
theorem flash_store {size : U32} {w : Nat → UInt8} {s : StoreSys}
    (h : (StoreSys.machine size w).ReachWith (Sound size) s) {i : Nat} {src len : Nat}
    {r : FlashReturn} (hi : s.log[i]? = some (.read src len, r)) :
    ∃ bs, r = .read src bs ∧ bs.length = len ∧
      ∀ o v, o < len → store size w (s.log.take i) (src + o) = some v → bs[o]? = some v := by
  have hinv : StoreInv size w s := h.invariant (I := StoreInv size w)
    (fun _ h0 => StoreInv.start h0) fun _ _ _ _ hi hc hs => hi.step hc hs
  exact hinv.reads i _ hi

/-- An erased window. -/
def blankWindow : StoreSys :=
  ⟨⟨⟨0, 0, 0, 0, fun _ => 0, fun _ => 0xff⟩, false, .take, none, [fun _ => 0xff], []⟩, [], none,
    fun _ => 0xff⟩

/-- A write, a write whose wait times out, and a read while the firmware works on the second. -/
def storeRun : List FlashAct :=
  [FlashAct.writeCall 0 [1, 2]] ++ List.replicate 9 (FlashAct.host 99 false) ++ [FlashAct.kick] ++
    List.replicate 5 (FlashAct.fw (.finish 0)) ++
    [FlashAct.fw (.read 0), .fw (.read 1), .fw (.flash 0 1), .fw (.flash 1 2)] ++
    List.replicate 4 (FlashAct.fw (.finish 0)) ++ List.replicate 4 (FlashAct.host 0 false) ++
    [FlashAct.writeCall 2 [3]] ++ List.replicate 8 (FlashAct.host 99 false) ++
    [FlashAct.host 0 true, .host 0 false, .kick] ++ List.replicate 5 (FlashAct.fw (.finish 0)) ++
    [FlashAct.fw (.flash 2 0x7f), .readCall 0 3, .host 99 false, .host 0 false]

/-- The read returns the bytes of the first write. -/
theorem flash_store_two : ∃ s bs,
    (StoreSys.machine 0x20000 fun _ => 0xff).ReachWith (Sound 0x20000) s ∧
      s.log[2]? = some (.read 0 3, .read 0 bs) ∧ bs[0]? = some 1 ∧ bs[1]? = some 2 := by
  have h : ((StoreSys.machine 0x20000 fun _ => 0xff).runWith (Sound 0x20000) storeRun
      blankWindow).map StoreSys.log = some [(.write 0 [1, 2], .write 0 2),
        (.write 2 [3], .write (-etimedout) 0), (.read 0 3, .read 0 [1, 2, 0x7f])] := by
    decide +kernel
  obtain ⟨s, hs, hlog⟩ := Option.map_eq_some_iff.mp h
  have h0 : (StoreSys.machine 0x20000 fun _ => 0xff).init blankWindow :=
    ⟨⟨rfl, rfl, rfl, rfl, rfl⟩, rfl, rfl, rfl⟩
  have hr := Machine.ReachWith.runWith (.init h0) hs
  have hi : s.log[2]? = some (.read 0 3, .read 0 [1, 2, 0x7f]) := by
    rw [hlog]
    rfl
  obtain ⟨bs, hbs, -, hbytes⟩ := flash_store hr hi
  obtain ⟨-, rfl⟩ := FlashReturn.read.inj hbs
  rw [hlog] at hbytes
  exact ⟨s, _, hr, hi, hbytes 0 1 (by decide) (by decide), hbytes 1 2 (by decide) (by decide)⟩

end Esp32S31.Flash
