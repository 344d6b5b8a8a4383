import Esp32S31.Shm.Wakeups

/-!
# No lost doorbell, no missed space, and recovery

`Sys.Heard` says of the request word and of the flash command what `Doorbell.Inv` says of the rings.
`Sys.Sound` is all of it together, and holds in every state of the runs whose recovery stores leave
nobody behind (`Sys.recoveryOk`); with well-formed records there are none.

The recovery of `esp_shm_read` and `shm_read` stores the tail and returns: it looks neither at the
head again nor at WAIT. `recovery_stalls` is a run in which a frame is pushed before that store.
-/

namespace Esp32S31.Shm

open Esp32S31.Lib Esp32S31.Flash Doorbell

/-- The receive task has taken the request word since it woke, and will not before it sleeps. -/
def RecvPc.pastExchange : RecvPc → Bool
  | .serve _ .exchange => false
  | .serve _ _ | .read (.readHead _) | .read (.empty _) => true
  | _ => false

/-- The receive task has kicked the flash task since it woke, and will not before it sleeps. -/
def RecvPc.pastKick : RecvPc → Bool
  | .serve _ (.poweroff _) | .read (.readHead _) | .read (.empty _) => true
  | _ => false

/-- The flash task has found no command, or finished one, and sleeps next or sleeps. -/
def dozing : ServicePc → Bool
  | .take | .ring => true
  | .loadAddr cmd | .loadLen cmd _ | .test cmd _ _ => cmd = 0
  | _ => false

/-- The read goes on with a buffer. -/
def ReadPc.buffered : ReadPc → Bool
  | .writeTail _ buf | .readWait _ buf | .clearWait _ buf | .ring _ buf => buf.isSome
  | _ => true

namespace Sys

/-- **Requests and commands are heard**: none stays behind a thread that has looked, without a
doorbell to come. -/
structure Heard (s : Sys) : Prop where
  request : s.hostReq ≠ 0 → s.recv.pastExchange = true → s.rxBell ∨ ∃ i, s.requests i = .ring
  command : s.box.cmd ≠ 0 → s.kickSem = false → dozing s.flash = true → s.recv.pastKick = true →
    s.rxBell ∨ ∃ c, s.cmd = some (c, .ring)
  buffered : ∀ pc, s.recv = .read pc → pc.buffered = true

variable {s s' : Sys}

/-- Threads that do not look and do not set anything keep requests and commands heard. -/
theorem Heard.keep (h : s.Heard) (h1 : s'.hostReq = s.hostReq) (h2 : s'.recv = s.recv)
    (h3 : s'.requests = s.requests) (h4 : s'.box.cmd = s.box.cmd) (h5 : s'.kickSem = s.kickSem)
    (h6 : s'.flash = s.flash) (h7 : s'.cmd = s.cmd) (hb : s.rxBell → s'.rxBell) : s'.Heard where
  request hr hp := by
    rw [h1] at hr
    rw [h2] at hp
    rw [h3]
    exact (h.request hr hp).imp_left hb
  command hc hk hd hp := by
    rw [h4] at hc
    rw [h5] at hk
    rw [h6] at hd
    rw [h2] at hp
    rw [h7]
    exact (h.command hc hk hd hp).imp_left hb
  buffered := by
    rw [h2]
    exact h.buffered

/-- `shm_read` never goes on without a buffer. -/
theorem buffered_shmRead {chunk : Nat} {mem : Bool} {m : RingMem} {pc : ReadPc}
    (h : pc.buffered = true) : (readStep shmRead chunk mem m pc).2.buffered = true := by
  cases pc with
  | readHead tail =>
    simp only [readStep]
    split <;> rfl
  | readLen head tail got todo =>
    cases todo with
    | nil =>
      simp only [readStep]
      split <;> rfl
    | cons o os => rfl
  | alloc tail len => cases mem <;> rfl
  | copyOut tail len got todo => cases todo <;> rfl
  | readWait tail buf =>
    simp only [readStep]
    split
    · cases buf <;> rfl
    · exact h
  | ring tail buf => cases buf <;> rfl
  | writeTail tail buf => exact h
  | clearWait tail buf => exact h
  | _ => rfl

/-- With a buffer, a read that is not at its look at the head does not get there. -/
theorem not_past_of_read (chunk : Nat) (mem : Bool) (m : RingMem) {pc : ReadPc}
    (h : pc.buffered = true) (hp : ∀ t, pc ≠ .readHead t) (he : ∀ t, pc ≠ .empty t)
    (hr : pc ≠ .readTail) :
    (RecvPc.read (readStep shmRead chunk mem m pc).2).pastExchange = false ∧
      (RecvPc.read (readStep shmRead chunk mem m pc).2).pastKick = false := by
  cases pc with
  | readTail => exact absurd rfl hr
  | readHead tail => exact absurd rfl (hp tail)
  | empty tail => exact absurd rfl (he tail)
  | readLen head tail got todo =>
    cases todo with
    | nil =>
      simp only [readStep]
      split <;> exact ⟨rfl, rfl⟩
    | cons o os => exact ⟨rfl, rfl⟩
  | alloc tail len => cases mem <;> exact ⟨rfl, rfl⟩
  | copyOut tail len got todo => cases todo <;> exact ⟨rfl, rfl⟩
  | readWait tail buf =>
    simp only [readStep]
    split
    · cases buf with
      | none => cases h
      | some b => exact ⟨rfl, rfl⟩
    · exact ⟨rfl, rfl⟩
  | ring tail buf =>
    cases buf with
    | none => cases h
    | some b => exact ⟨rfl, rfl⟩
  | _ => exact ⟨rfl, rfl⟩

theorem Heard.stepRecv {chunk : Nat} {mem : Bool} (h : s.Heard)
    (hs : s.stepRecv chunk mem = some s') : s'.Heard := by
  cases hr : s.recv with
  | serve tail pc =>
    have hreq := h.request
    have hcmd := h.command
    rw [hr] at hreq hcmd
    cases pc with
    | exchange =>
      simp only [Sys.stepRecv, hr, Option.some.injEq] at hs
      subst hs
      exact ⟨fun h0 => absurd rfl h0, fun _ _ _ hp => (by cases hp), fun _ he => (by cases he)⟩
    | boot req =>
      simp only [Sys.stepRecv, hr, Option.some.injEq] at hs
      subst hs
      exact ⟨fun h0 _ => hreq h0 rfl, fun _ _ _ hp => (by cases hp), fun _ he => (by cases he)⟩
    | kick req =>
      simp only [Sys.stepRecv, hr, Option.some.injEq] at hs
      subst hs
      exact ⟨fun h0 _ => hreq h0 rfl, fun _ hk => (by cases hk), fun _ he => (by cases he)⟩
    | poweroff req =>
      simp only [Sys.stepRecv, hr, Option.some.injEq] at hs
      subst hs
      refine ⟨fun h0 _ => hreq h0 rfl, fun hc hk hd _ => hcmd hc hk hd rfl, fun pc he => ?_⟩
      have he : (if _ then RecvPc.off else .read (.readHead tail)) = .read pc := he
      split at he
      · cases he
      · cases he
        rfl
  | off =>
    simp only [Sys.stepRecv, hr] at hs
    cases hs
  | read pc =>
    have hbuf := h.buffered pc hr
    have hreq := h.request
    have hcmd := h.command
    rw [hr] at hreq hcmd
    have inner : (∀ t, pc ≠ .readHead t) → (∀ t, pc ≠ .empty t) → pc ≠ .readTail →
        some s' = some ({ s with
          toFw := (readStep shmRead chunk mem s.toFw pc).1
          recv := .read (readStep shmRead chunk mem s.toFw pc).2 }.ringHost pc.rings) →
        s'.Heard := fun h1 h2 h3 he => by
      obtain rfl := Option.some.inj he
      obtain ⟨hp1, hp2⟩ := not_past_of_read chunk mem s.toFw hbuf h1 h2 h3
      refine ⟨fun _ hp => (by cases hp1.symm.trans hp),
        fun _ _ _ hp => (by cases hp2.symm.trans hp), fun pc' he => ?_⟩
      obtain rfl := RecvPc.read.inj he
      exact buffered_shmRead hbuf
    cases pc with
    | readTail =>
      simp only [Sys.stepRecv, hr, Option.some.injEq] at hs
      subst hs
      exact ⟨fun _ hp => (by cases hp), fun _ _ _ hp => (by cases hp), fun _ he => (by cases he)⟩
    | empty tail =>
      simp only [Sys.stepRecv, hr, Option.ite_none_right_eq_some, Option.some.injEq] at hs
      obtain ⟨-, rfl⟩ := hs
      exact ⟨fun _ hp => (by cases hp), fun _ _ _ hp => (by cases hp), fun _ he => (by cases he)⟩
    | done ret =>
      simp only [Sys.stepRecv, hr, Option.some.injEq] at hs
      subst hs
      refine ⟨fun _ hp => (by cases hp), fun _ _ _ hp => (by cases hp), fun pc he => ?_⟩
      obtain rfl := RecvPc.read.inj he
      rfl
    | readHead tail =>
      simp only [Sys.stepRecv, hr, Option.some.injEq] at hs
      subst hs
      exact ⟨fun h0 _ => hreq h0 rfl, fun hc hk hd _ => hcmd hc hk hd rfl, fun pc he => by
        obtain rfl := RecvPc.read.inj he
        exact buffered_shmRead hbuf⟩
    | _ =>
      simp only [Sys.stepRecv, hr] at hs
      exact inner (by rintro _ ⟨⟩) (by rintro _ ⟨⟩) (by rintro ⟨⟩) hs.symm

/-- The handler gives the doorbell on. -/
theorem rxBell_isr (h : s.rxBell) (hs : s.stepIsr = some s') : s'.rxBell := by
  unfold Sys.stepIsr at hs
  split at hs
  · simp only [Option.ite_none_right_eq_some, Option.some.injEq] at hs
    obtain ⟨-, rfl⟩ := hs
    exact .inr (.inl rfl)
  · obtain rfl := Option.some.inj hs
    exact .inr (.inr rfl)
  · rename_i hi
    obtain rfl := Option.some.inj hs
    rcases h with h | h | h
    · exact .inl h
    · cases hi.symm.trans h
    · exact .inr (.inr h)

/-- A step of the flash task: it looks at the command again, or nothing was to be done. -/
theorem dozing_of_step {size : U32} {a : OpAct} {kick kick' : Bool} {b b' : Mailbox}
    {pc pc' : ServicePc} {r : Bool} (hs : serviceStep size a kick b pc = some (kick', b', pc', r))
    (hd : dozing pc' = true) (hc : b'.cmd ≠ 0) (hk : kick' = false) :
    dozing pc = true ∧ b.cmd ≠ 0 ∧ kick = false := by
  cases pc with
  | take =>
    simp only [serviceStep, Option.ite_none_right_eq_some, Option.some.injEq, Prod.mk.injEq] at hs
    obtain ⟨-, -, -, rfl, -⟩ := hs
    cases hd
  | loadCmd =>
    obtain ⟨rfl, rfl, rfl, -⟩ := hs
    exact absurd (of_decide_eq_true hd) hc
  | loadAddr cmd =>
    obtain ⟨rfl, rfl, rfl, -⟩ := hs
    exact ⟨hd, hc, hk⟩
  | loadLen cmd addr =>
    obtain ⟨rfl, rfl, rfl, -⟩ := hs
    exact ⟨hd, hc, hk⟩
  | test cmd addr len =>
    obtain ⟨rfl, rfl, rfl, -⟩ := hs
    refine ⟨?_, hc, hk⟩
    split at hd
    · rename_i h0
      exact decide_eq_true h0
    · split at hd <;> cases hd
  | op e =>
    cases a with
    | read o =>
      simp only [serviceStep, Option.ite_none_right_eq_some, Option.some.injEq, Prod.mk.injEq] at hs
      obtain ⟨-, -, -, rfl, -⟩ := hs
      cases hd
    | flash o v =>
      obtain ⟨rfl, rfl, rfl, -⟩ := hs
      cases hd
    | finish err =>
      obtain ⟨rfl, rfl, rfl, -⟩ := hs
      cases hd
  | writeStatus e err =>
    obtain ⟨rfl, rfl, rfl, -⟩ := hs
    cases hd
  | clearCmd e err =>
    obtain ⟨rfl, rfl, rfl, -⟩ := hs
    exact absurd rfl hc
  | ring =>
    obtain ⟨rfl, rfl, rfl, -⟩ := hs
    exact ⟨rfl, hc, hk⟩

/-- The doorbell comes after the command. -/
theorem cmdStep_hears (c : FlashCall) (chunk : Nat) (expired : Bool) (b : Mailbox) (pc : CmdPc) :
    (cmdStep c chunk expired b pc).2.1 = .ring ∨ (cmdStep c chunk expired b pc).2.2 = true ∨
      ((cmdStep c chunk expired b pc).1.cmd = b.cmd ∧ pc ≠ .ring) := by
  cases pc with
  | copyData todo => cases todo <;> exact .inr (.inr ⟨rfl, nofun⟩)
  | writeCmd => exact .inl rfl
  | ring => exact .inr (.inl rfl)
  | _ => exact .inr (.inr ⟨rfl, nofun⟩)

/-- **Every step keeps requests and commands heard.** -/
theorem Heard.step {hb : HeaderBytes} {size : U32} (a : SysAct) (h : s.Heard)
    (hs : Sys.step hb size a s = some s') : s'.Heard := by
  cases a with
  | isr =>
    have hbell := fun hb => rxBell_isr (s := s) hb hs
    simp only [Sys.step, Sys.stepIsr] at hs
    split at hs
    · simp only [Option.ite_none_right_eq_some, Option.some.injEq] at hs
      obtain ⟨-, rfl⟩ := hs
      exact h.keep rfl rfl rfl rfl rfl rfl rfl hbell
    · obtain rfl := Option.some.inj hs
      exact h.keep rfl rfl rfl rfl rfl rfl rfl hbell
    · obtain rfl := Option.some.inj hs
      exact h.keep rfl rfl rfl rfl rfl rfl rfl hbell
  | recv chunk mem => exact h.stepRecv hs
  | call handle buf =>
    simp only [Sys.step] at hs
    split at hs
    · obtain rfl := Option.some.inj hs
      exact h.keep rfl rfl rfl rfl rfl rfl rfl id
    · obtain rfl := Option.some.inj hs
      exact h.keep rfl rfl rfl rfl rfl rfl rfl id
    · cases hs
  | write chunk expired =>
    obtain rfl := Option.some.inj hs
    unfold Sys.stepWrite
    split <;> exact h.keep rfl rfl rfl rfl rfl rfl rfl id
  | flash a =>
    obtain ⟨x, hx, rfl⟩ := Option.map_eq_some_iff.mp hs
    refine ⟨h.request, fun hc hk hd hp => ?_, h.buffered⟩
    obtain ⟨hd, hc, hk⟩ := dozing_of_step hx hd hc hk
    exact h.command hc hk hd hp
  | bind =>
    simp only [Sys.step] at hs
    split at hs
    · obtain rfl := Option.some.inj hs
      exact h.keep rfl rfl rfl rfl rfl rfl rfl id
    · obtain rfl := Option.some.inj hs
      exact h.keep rfl rfl rfl rfl rfl rfl rfl id
    · cases hs
  | irq =>
    simp only [Sys.step, Sys.stepIrq] at hs
    split at hs
    · simp only [Option.ite_none_right_eq_some, Option.some.injEq] at hs
      obtain ⟨-, rfl⟩ := hs
      exact h.keep rfl rfl rfl rfl rfl rfl rfl id
    · obtain rfl := Option.some.inj hs
      exact h.keep rfl rfl rfl rfl rfl rfl rfl id
    · obtain rfl := Option.some.inj hs
      exact h.keep rfl rfl rfl rfl rfl rfl rfl id
    · obtain ⟨x, -, rfl⟩ := Option.map_eq_some_iff.mp hs
      exact h.keep rfl rfl rfl rfl rfl rfl rfl id
  | rx chunk mem =>
    simp only [Sys.step, Sys.stepRx] at hs
    split at hs
    · simp only [Option.ite_none_right_eq_some, Option.some.injEq] at hs
      obtain ⟨-, rfl⟩ := hs
      exact h.keep rfl rfl rfl rfl rfl rfl rfl id
    · obtain rfl := Option.some.inj hs
      exact h.keep rfl rfl rfl rfl rfl rfl rfl id
    · obtain rfl := Option.some.inj hs
      exact h.keep rfl rfl rfl rfl rfl rfl rfl id
    · obtain rfl := Option.some.inj hs
      exact h.keep rfl rfl rfl rfl rfl rfl rfl id
    · obtain rfl := Option.some.inj hs
      exact h.keep rfl rfl rfl rfl rfl rfl rfl fun hb => rxBell_ringFw (.inl hb)
  | tx a =>
    simp only [Sys.step] at hs
    have he : (s.tx.step s.toFw a).map (fun x => { s with toFw := x.1, tx := x.2.1 }.ringFw x.2.2) =
        some s' := by
      cases a with
      | irq => cases hs
      | remove => cases hs
      | _ =>
        simp only [Sys.stepTx, Option.ite_none_left_eq_some] at hs
        exact hs.2
    obtain ⟨x, -, rfl⟩ := Option.map_eq_some_iff.mp he
    exact h.keep rfl rfl rfl rfl rfl rfl rfl fun hb => rxBell_ringFw (.inl hb)
  | cmdCall c =>
    simp only [Sys.step, Option.ite_none_right_eq_some, Option.some.injEq] at hs
    obtain ⟨⟨hn, -⟩, rfl⟩ := hs
    refine ⟨h.request, fun hc hk hd hp => .inl ?_, h.buffered⟩
    refine (h.command hc hk hd hp).resolve_right ?_
    rintro ⟨c, hc⟩
    cases hn.symm.trans hc
  | cmd chunk expired =>
    simp only [Sys.step] at hs
    split at hs
    · rename_i hcm
      obtain rfl := Option.some.inj hs
      refine ⟨h.request, fun hc hk hd hp => .inl ?_, h.buffered⟩
      refine (h.command hc hk hd hp).resolve_right ?_
      rintro ⟨c, hc⟩
      cases hcm.symm.trans hc
    · rename_i c pc _ hcm
      obtain rfl := Option.some.inj hs
      refine ⟨fun h0 hp => (h.request h0 hp).imp_left fun hb => rxBell_ringFw (.inl hb),
        fun hc hk hd hp => ?_, h.buffered⟩
      rcases cmdStep_hears c chunk expired s.box pc with hr | hr | ⟨he, hne⟩
      · exact .inr ⟨c, by rw [← hr]; rfl⟩
      · exact .inl (rxBell_ringFw (.inr hr))
      · refine .inl (rxBell_ringFw (.inl ?_))
        have hc : s.box.cmd ≠ 0 := by
          rw [← he]
          exact hc
        refine (h.command hc hk hd hp).resolve_right ?_
        rintro ⟨c', hc'⟩
        cases hcm.symm.trans hc'
        exact hne rfl
    · cases hs
  | request i =>
    obtain rfl := Option.some.inj hs
    unfold stepRequest
    split
    · rename_i hi
      refine ⟨fun h0 hp => (h.request h0 hp).imp_right ?_, h.command, h.buffered⟩
      rintro ⟨j, hj⟩
      refine ⟨j, ?_⟩
      have hne : j ≠ i := fun he => by
        rw [he] at hj
        cases hi.symm.trans hj
      exact (Function.update_of_ne hne _ _).trans hj
    · exact ⟨fun _ _ => .inr ⟨i, Function.update_self _ _ _⟩, h.command, h.buffered⟩
    · exact ⟨fun _ _ => .inl (rxBell_ringFw (.inr rfl)), fun hc hk hd hp =>
        (h.command hc hk hd hp).imp_left fun hb => rxBell_ringFw (.inl hb), h.buffered⟩
  | poweroff i =>
    simp only [Sys.step, stepPoweroff] at hs
    split at hs
    · obtain rfl := Option.some.inj hs
      exact ⟨fun _ _ => .inr ⟨i, Function.update_self _ _ _⟩, h.command, h.buffered⟩
    · cases hs

/-! ## The invariant of the runs -/

/-- **What holds in every state.** -/
structure Sound (s : Sys) : Prop where
  threads : s.Local
  fw : Inv Shm.toFw.fits s.fwSide
  host : Inv Shm.toHost.fits s.hostSide
  heard : s.Heard

theorem Start.sound (h : Start s) : s.Sound where
  threads := by
    refine ⟨?_, by rw [h.write]; trivial, by rw [h.recv]; trivial, fun pc hr => ?_, fun _ =>
      ⟨h.irq, h.tx⟩⟩
    · rw [h.tx]
      exact ⟨fun _ => nofun, fun _ => nofun, .inl rfl, fun hq => (nomatch hq),
        fun hq => (nomatch hq)⟩
    · cases h.rx.1.symm.trans hr
  fw := .init (by show s.recv.cons = _; rw [h.recv]; rfl) (by show s.tx.prod = _; rw [h.tx]; rfl)
  host := by
    refine .init ?_ (by show s.write.prod = _; rw [h.write]; rfl)
    show rxCons s.probe s.rxQueued s.rx = _
    rw [h.rx.1, h.probe]
    rfl
  heard := by
    refine ⟨fun _ hp => ?_, fun _ _ _ hp => ?_, fun pc hr => ?_⟩
    · rw [h.recv] at hp
      cases hp
    · rw [h.recv] at hp
      cases hp
    · rw [h.recv] at hr
      cases hr
      rfl

theorem Sound.step {hb : HeaderBytes} {size : U32} (a : SysAct) (h : s.Sound) (hok : recoveryOk a s)
    (hs : Sys.step hb size a s = some s') : s'.Sound :=
  have hr := refines a h.threads hok hs
  ⟨h.threads.step a hs, h.fw.step hr.fw, h.host.step hr.host, h.heard.step a hs⟩

/-- **The invariant holds in the runs whose recovery stores leave nobody behind.** -/
theorem Sound.of_reach {hb : HeaderBytes} {size : U32}
    (h : (machine hb size).ReachWith recoveryOk s) : s.Sound :=
  h.invariant (fun _ h0 => Start.sound h0) fun a _ _ _ hi hok hs => hi.step a hok hs

/-! ## No lost doorbell -/

/-- The receive task is blocked in `xSemaphoreTake(s_rx_sem)` with the semaphore empty. -/
def recvAsleep (s : Sys) : Prop := (∃ tail, s.recv = .read (.empty tail)) ∧ s.rxSem = false

/-- The doorbell register of the firmware is set, or its handler has not given `s_rx_sem` yet. -/
def fwBell (s : Sys) : Prop := s.bellFw = true ∨ s.isr = .acked

/-- Linux has bound the transport, and no RX work is queued or running. -/
def rxAsleep (s : Sys) : Prop := s.probe = .bound ∧ s.rxQueued = false ∧ s.rx = none

/-- **No lost doorbell**: a consumer that sleeps has an empty ring or a doorbell to come: one that
is set, one that the kick flag of a flush or of `shm_write` forces, or one that the producer's look
at the tail will force. No request bit and no flash command stays behind. -/
structure NoLostDoorbell (s : Sys) : Prop where
  toFw : s.recvAsleep → s.toFw.head ≠ s.toFw.tail →
    s.fwBell ∨ s.tx.forced = true ∨ s.tx.prod = .stored s.toFw.tail
  toHost : s.rxAsleep → s.toHost.head ≠ s.toHost.tail →
    s.rxWorkBell ∨ s.write.forced = true ∨ s.write.prod = .stored s.toHost.tail
  request : s.recvAsleep → s.hostReq ≠ 0 → s.fwBell ∨ ∃ i, s.requests i = .ring
  command : s.recvAsleep → s.flash = .take → s.kickSem = false → s.box.cmd ≠ 0 →
    s.fwBell ∨ ∃ c, s.cmd = some (c, .ring)

/-- A doorbell that the sleeping receive task has not got is on its way. -/
theorem fwBell_of_asleep (h : s.rxBell) (ha : s.recvAsleep) : s.fwBell := by
  rcases h with h | h | h
  · exact .inl h
  · exact .inr h
  · cases ha.2.symm.trans h

theorem Sound.noLostDoorbell (h : s.Sound) : s.NoLostDoorbell where
  toFw ha hne := by
    obtain ⟨tail, hr⟩ := ha.1
    have hc : s.fwSide.cons = .asleep := by
      show s.recv.cons = _
      rw [hr]
      rfl
    rcases h.fw.wake hc hne with (hb | hf) | hp
    · exact .inl (fwBell_of_asleep hb ha)
    · exact .inr (.inl hf)
    · exact .inr (.inr hp)
  toHost ha hne := by
    have hc : s.hostSide.cons = .asleep := by
      show rxCons s.probe s.rxQueued s.rx = _
      rw [ha.1, ha.2.1, ha.2.2]
      rfl
    rcases h.host.wake hc hne with (hb | hf) | hp
    · exact .inl hb
    · exact .inr (.inl hf)
    · exact .inr (.inr hp)
  request ha hreq := by
    obtain ⟨tail, hr⟩ := ha.1
    exact (h.heard.request hreq (by rw [hr]; rfl)).imp_left fun hb => fwBell_of_asleep hb ha
  command ha hf hk hc := by
    obtain ⟨tail, hr⟩ := ha.1
    exact (h.heard.command hc hk (by rw [hf]; rfl) (by rw [hr]; rfl)).imp_left fun hb =>
      fwBell_of_asleep hb ha

/-- **No lost doorbell**, in every state of every run with well-formed records. -/
theorem no_lost_doorbell (hb : HeaderBytes) (size : U32) (s : Sys)
    (h : (machine hb size).ReachWith wellFormed s) : s.NoLostDoorbell :=
  (Sound.of_reach (h.mono fun _ _ hw => hw.recoveryOk)).noLostDoorbell

/-- The firmware has slept with both rings empty; Linux has bound the transport and has stored the
head of a first frame, and its look at the tail comes next. -/
def frameStoredRun : List SysAct :=
  List.replicate 6 (SysAct.recv 0 true) ++ [SysAct.bind, .bind,
    .tx (.write ⟨0, List.replicate 12 7, false⟩)] ++ List.replicate 6 (SysAct.tx (.flush 99))

theorem no_lost_doorbell_run : ∃ s, (machine (fun _ => .replicate 12 0) 0).ReachWith wellFormed s ∧
    s.recvAsleep ∧ s.toFw.head ≠ s.toFw.tail ∧ s.NoLostDoorbell := by
  have h : ((machine (fun _ => .replicate 12 0) 0).runWith wellFormed frameStoredRun
      (booted ⟨0, 0, 0, fun _ => 0⟩ ⟨0, 0, 0, fun _ => 0⟩)).map (fun s =>
        (s.recv, s.rxSem, s.toFw.head, s.toFw.tail)) =
      some (.read (.empty 0), false, 16, 0) := by
    decide +kernel
  obtain ⟨s, hs, e⟩ := Option.map_eq_some_iff.mp h
  simp only [Prod.mk.injEq] at e
  obtain ⟨e1, e2, e3, e4⟩ := e
  have hr := Machine.ReachWith.runWith (.init (booted_start _ _)) hs
  exact ⟨s, hr, ⟨⟨0, e1⟩, e2⟩, by rw [e3, e4]; decide, no_lost_doorbell _ 0 s hr⟩

/-! ## No missed space -/

/-- The consumer has stored the new tail, and its check of WAIT will ring. -/
def givesSpace (m : RingMem) : ReadPc → Prop
  | .readWait _ _ => m.wait ≠ 0
  | .clearWait _ _ | .ring _ _ => True
  | _ => False

/-- The doorbell register of Linux is set, or its handler has not looked at the queue yet. -/
def linuxBell (s : Sys) : Prop := s.bellHost = true ∨ s.irq ≠ .idle

instance (s : Sys) : Decidable s.linuxBell := inferInstanceAs (Decidable (_ ∨ _))

/-- The doorbell register of the firmware is set, or its handler has not given `s_space_sem` yet. -/
def fwSpaceBell (s : Sys) : Prop := s.bellFw = true ∨ s.isr ≠ .idle

/-- **No missed free space**: when the first frame of a producer that waits for room fits, a
doorbell to it is pending, or the consumer is before the check of WAIT that will ring. `toFwAgain`
and `toHostAgain` are about a producer that has set WAIT and not tried again yet: its request
stands, or the consumer that cleared it is about to ring, or a doorbell to it is pending. -/
structure NoMissedSpace (s : Sys) : Prop where
  toFw : ∀ skb rest, s.tx.txQueue = skb :: rest → s.tx.running = true → s.tx.txQuiesced = false →
    s.tx.workPending = false → s.tx.work = .idle → s.tx.txLock = none →
    Shm.toFw.fits (recordLen (.ofNat 32 skb.data.length)) s.toFw.head s.toFw.tail →
    s.linuxBell ∨ ∃ pc, s.recv = .read pc ∧ givesSpace s.toFw pc
  toHost : ∀ x, s.write = .take x → s.spaceSem = false →
    Shm.toHost.fits (recordLen x.push.len) s.toHost.head s.toHost.tail →
    s.fwSpaceBell ∨ ∃ pc, s.rx = some pc ∧ givesSpace s.toHost pc
  toFwAgain : ∀ n, s.tx.prod = .again n → s.toFw.wait ≠ 0 ∨ s.recv.cons = .ringing ∨ s.txWorkBell
  toHostAgain : ∀ n, s.write.prod = .again n →
    s.toHost.wait ≠ 0 ∨ rxCons s.probe s.rxQueued s.rx = .ringing ∨ s.spaceBell

/-- The three places of a read between the store of the tail and the doorbell. -/
theorem givesSpace_of_cons {m : RingMem} {null again : Bool} {pc : ReadPc}
    (h : pc.cons null again = .ringing ∨
      (m.wait ≠ 0 ∧ (pc.cons null again = .advanced ∨ pc.cons null again = .clearing))) :
    givesSpace m pc := by
  cases pc with
  | readWait tail buf => exact (h.resolve_left nofun).1
  | clearWait tail buf => trivial
  | ring tail buf => trivial
  | empty tail =>
    rcases h with h | ⟨-, h | h⟩ <;> (cases again <;> cases h)
  | done ret =>
    rcases h with h | ⟨-, h | h⟩ <;> (cases ret <;> cases null <;> cases again <;> cases h)
  | _ => rcases h with h | ⟨-, h | h⟩ <;> cases h

/-- What a consumer of which the protocol says that it rings is doing. -/
theorem recv_gives {m : RingMem} {pc : RecvPc} (h : pc.cons = .ringing ∨
    (m.wait ≠ 0 ∧ (pc.cons = .advanced ∨ pc.cons = .clearing))) :
    ∃ r, pc = .read r ∧ givesSpace m r := by
  cases pc with
  | read r => exact ⟨r, rfl, givesSpace_of_cons h⟩
  | _ => rcases h with h | ⟨-, h | h⟩ <;> cases h

theorem rx_gives {m : RingMem} {p : ProbePc} {q : Bool} {rx : Option ReadPc}
    (h : rxCons p q rx = .ringing ∨
      (m.wait ≠ 0 ∧ (rxCons p q rx = .advanced ∨ rxCons p q rx = .clearing))) :
    ∃ r, rx = some r ∧ givesSpace m r := by
  cases rx with
  | some r => exact ⟨r, rfl, givesSpace_of_cons h⟩
  | none =>
    have hne : rxCons p q none = .asleep ∨ rxCons p q none = .awake :=
      (ite_eq_or_eq (p = .bound ∧ q = false) Consumer.asleep .awake)
    rcases hne with hne | hne <;> rcases h with h | ⟨-, h | h⟩ <;> cases hne.symm.trans h

theorem Sound.noMissedSpace (h : s.Sound) : s.NoMissedSpace where
  toFw skb rest hq hrun hqui hwp hw hl hfit := by
    have hp : s.fwSide.prod = .stuck (recordLen (espShmPush skb.data).len) := by
      show s.tx.prod = _
      rw [HostTx.prod_of_free hl]
      refine (if_pos (by rw [hrun, hqui]; rfl)).trans ?_
      rw [HostTx.queueProd, hq]
    rcases h.fw.stuck _ hp with (hb | hb | hb) | hc | ⟨hwt, hnf | hc⟩
    · exact .inl hb
    · cases hwp.symm.trans hb
    · cases hw.symm.trans hb
    · exact .inr (recv_gives (.inl hc))
    · exact absurd hfit hnf
    · exact .inr (recv_gives (.inr ⟨hwt, hc⟩))
  toHost x hx hsem hfit := by
    have hp : s.hostSide.prod = .stuck (recordLen x.push.len) := by
      show s.write.prod = _
      rw [hx]
      rfl
    rcases h.host.stuck _ hp with (hb | hb | hb) | hc | ⟨hwt, hnf | hc⟩
    · exact .inl (.inl hb)
    · exact .inl (.inr hb)
    · cases hsem.symm.trans hb
    · exact .inr (rx_gives (.inl hc))
    · exact absurd hfit hnf
    · exact .inr (rx_gives (.inr ⟨hwt, hc⟩))
  toFwAgain n hn := h.fw.again n hn
  toHostAgain n hn := h.host.again n hn

/-- **No missed free space**, in every state of every run with well-formed records. -/
theorem no_missed_space (hb : HeaderBytes) (size : U32) (s : Sys)
    (h : (machine hb size).ReachWith wellFormed s) : s.NoMissedSpace :=
  (Sound.of_reach (h.mono fun _ _ hw => hw.recoveryOk)).noMissedSpace

/-- Linux waits for room in a full ring, and the firmware has just taken a record of 16 bytes out of
it: the load of WAIT comes next. -/
def frameTakenRun : List SysAct :=
  [SysAct.bind, .bind, .tx (.write ⟨0, List.replicate 12 7, false⟩)] ++
    List.replicate 12 (SysAct.tx (.flush 99)) ++ List.replicate 12 (SysAct.recv 99 true)

theorem no_missed_space_run : ∃ s, (machine (fun _ => .replicate 12 0) 0).ReachWith wellFormed s ∧
    s.tx.txQueue.length = 1 ∧ s.tx.txLock = none ∧ Shm.toFw.fits 16 s.toFw.head s.toFw.tail ∧
    s.NoMissedSpace := by
  have h : ((machine (fun _ => .replicate 12 0) 0).runWith wellFormed frameTakenRun
      (booted ⟨0x4000, 0, 0, fun o => if o = 0 then 12 else 0⟩ ⟨0, 0, 0, fun _ => 0⟩)).map (fun s =>
        (s.tx.txQueue.length, s.tx.txLock, s.toFw.head, s.toFw.tail)) =
      some (1, none, 0x4000, 16) := by
    decide +kernel
  obtain ⟨s, hs, e⟩ := Option.map_eq_some_iff.mp h
  simp only [Prod.mk.injEq] at e
  obtain ⟨e1, e2, e3, e4⟩ := e
  have hr := Machine.ReachWith.runWith (.init (booted_start _ _)) hs
  exact ⟨s, hr, e1, e2, by rw [e3, e4]; decide, no_missed_space _ 0 s hr⟩

/-! ## Recovery after a bad record -/

/-- **Recovery**: in every run whose recovery stores leave nobody behind, no direction stalls. -/
theorem recovery_wakes (hb : HeaderBytes) (size : U32) (s : Sys)
    (h : (machine hb size).ReachWith recoveryOk s) : s.NoLostDoorbell ∧ s.NoMissedSpace :=
  have hs := Sound.of_reach h
  ⟨hs.noLostDoorbell, hs.noMissedSpace⟩

/-- Linux drops the only record, a bad one, and nothing is pushed meanwhile. -/
theorem recovery_wakes_run :
    ∃ s, (machine (fun _ => .replicate 12 0) 0).ReachWith recoveryOk s ∧
      s.rx = some (.done .bad) ∧ s.NoLostDoorbell ∧ s.NoMissedSpace := by
  have h : ((machine (fun _ => .replicate 12 0) 0).runWith recoveryOk
      ([.bind, .bind, .rx 0 true, .rx 0 true, .rx 0 true, .rx 9 true, .rx 0 true, .rx 0 true])
      (booted ⟨0, 0, 0, fun _ => 0⟩ ⟨16, 0, 0, fun _ => 0⟩)).map (·.rx) =
      some (some (.done .bad)) := by
    decide +kernel
  obtain ⟨s, hs, e⟩ := Option.map_eq_some_iff.mp h
  have hr := Machine.ReachWith.runWith (.init (booted_start _ _)) hs
  exact ⟨s, hr, e, recovery_wakes _ 0 s hr⟩

/-- Linux finds a bad record and is about to store the tail; the firmware pushes a frame, looks at
the old tail and does not ring; then Linux stores the head that it read as the tail. -/
def framePushedRun : List SysAct :=
  [SysAct.bind, .bind, .rx 0 true, .rx 0 true, .rx 0 true, .rx 9 true, .rx 0 true,
    .call true (some ⟨0, 0, 0, 0, some [7]⟩)] ++ List.replicate 7 (SysAct.write 99 false) ++
    [SysAct.rx 0 true, .rx 0 true]

/-- Linux waits for room behind a bad record, which the firmware drops. -/
def spaceFreedRun : List SysAct :=
  [SysAct.bind, .bind, .tx (.write ⟨0, List.replicate 12 7, false⟩)] ++
    List.replicate 12 (SysAct.tx (.flush 99)) ++ List.replicate 9 (SysAct.recv 9 true)

/-- **A recovery can stall either direction**: a frame stays in the ring to Linux with nobody to
read it, and Linux keeps waiting for room in an empty ring. -/
theorem recovery_stalls :
    (∃ s, (machine (fun _ => .replicate 12 0) 0).Reach s ∧ ¬ s.NoLostDoorbell) ∧
    ∃ s, (machine (fun _ => .replicate 12 0) 0).Reach s ∧ ¬ s.NoMissedSpace := by
  constructor
  · have h : ((machine (fun _ => .replicate 12 0) 0).run framePushedRun
        (booted ⟨0, 0, 0, fun _ => 0⟩ ⟨16, 0, 0, fun _ => 0⟩)).map (fun s =>
          ((s.probe, s.rxQueued, s.rx), (s.toHost.head, s.toHost.tail), decide s.rxWorkBell,
            s.write.forced, decide (s.write.prod = .stored 16))) =
        some ((.bound, false, none), (36, 16), false, false, false) := by
      decide +kernel
    obtain ⟨s, hs, e⟩ := Option.map_eq_some_iff.mp h
    simp only [Prod.mk.injEq] at e
    obtain ⟨⟨e1, e2, e3⟩, ⟨e4, e5⟩, e6, e7, e8⟩ := e
    refine ⟨s, Machine.Reach.run (.init (booted_start _ _)) hs, fun hn => ?_⟩
    rcases hn.toHost ⟨e1, e2, e3⟩ (by rw [e4, e5]; decide) with hb | hf | hp
    · exact of_decide_eq_false e6 hb
    · exact absurd (e7.symm.trans hf) (by decide)
    · rw [e5] at hp
      exact of_decide_eq_false e8 hp
  · have h : ((machine (fun _ => .replicate 12 0) 0).run spaceFreedRun
        (booted ⟨0x4000, 0, 0, fun _ => 0⟩ ⟨0, 0, 0, fun _ => 0⟩)).map (fun s =>
          (s.tx, s.toFw.head, s.toFw.tail, decide s.linuxBell, s.recv)) =
        some ({ HostTx.bound with txQueue := [⟨0, List.replicate 12 7, false⟩] }, 0x4000, 0x4000,
          false, .read (.done .bad)) := by
      decide +kernel
    obtain ⟨s, hs, e⟩ := Option.map_eq_some_iff.mp h
    simp only [Prod.mk.injEq] at e
    obtain ⟨e1, e2, e3, e4, e5⟩ := e
    refine ⟨s, Machine.Reach.run (.init (booted_start _ _)) hs, fun hn => ?_⟩
    rcases hn.toFw ⟨0, List.replicate 12 7, false⟩ [] (by rw [e1]) (by rw [e1]; rfl)
      (by rw [e1]; rfl)
      (by rw [e1]; rfl) (by rw [e1]; rfl) (by rw [e1]; rfl) (by rw [e2, e3]; decide) with hb | hg
    · exact of_decide_eq_false e4 hb
    · obtain ⟨pc, hpc, hg⟩ := hg
      cases e5.symm.trans hpc
      exact hg

end Sys

end Esp32S31.Shm
