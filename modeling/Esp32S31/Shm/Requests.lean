import Mathlib.Logic.Function.Basic
import Esp32S31.Lib.Machine
import Esp32S31.Lib.Notice
import Esp32S31.Lib.Word

/-!
# The request word

Linux asks the firmware for a new boot event, and OpenSBI asks it for deep sleep, through one word
of the shared block and the doorbell of the firmware. Linux reads the word, writes it back with its
bit and rings (`esp_shm_request_ready_replay`, from any number of contexts); OpenSBI sets its bit
with one atomic operation, rings and never returns to Linux (`esp32s31_request_poweroff`); the
receive task of the firmware takes the word with an atomic exchange before it looks for frames
(`shm_service_host_requests` in `shm_read`), and sleeps on a semaphore that the interrupt handler of
the doorbell gives.

* **`request_noticed`**: while a request is in the word, somebody is about to ring, or a wake-up is
  on its way to the task, or the task takes the word before it sleeps.
* **`replay_kept`**: a boot event that was asked for stays asked for until the firmware takes the
  word, whatever the other contexts and OpenSBI write.
* **`poweroff_reached`**: the chip goes into deep sleep only when OpenSBI asked for it, and then it
  does, after a bounded number of steps.
-/

namespace Esp32S31.Shm

open Esp32S31.Lib

/-- `ESP_SHM_REQ_READY_REPLAY`, `ESP_SHM_REQ_POWEROFF`. -/
def reqReadyReplay : U32 := 1
def reqPoweroff : U32 := 2

/-- Where a context of Linux is in `esp_shm_request_ready_replay`. -/
inductive ReplayPc where
  | idle
  /-- it has read the word -/
  | read (req : U32)
  | ring
  deriving DecidableEq

/-- Where hart 1 is. -/
inductive HartPc where
  | linux
  /-- in `esp32s31_request_poweroff`, the bit is set -/
  | ring
  /-- `wfi` for ever -/
  | halted
  deriving DecidableEq

/-- Where the receive task of the firmware is. -/
inductive TaskPc where
  /-- before the exchange of `shm_service_host_requests` -/
  | service
  /-- it has taken the word -/
  | taken (req : U32)
  /-- before `shm_flash_kick` -/
  | kick (req : U32)
  /-- before the test for `ESP_SHM_REQ_POWEROFF` -/
  | power (req : U32)
  /-- before the load of the head -/
  | look
  /-- in `xSemaphoreTake` -/
  | block
  /-- it has a frame, and calls `shm_read` again after it -/
  | frame
  /-- in deep sleep -/
  | asleep
  deriving DecidableEq

structure ReqSys where
  req : U32
  contexts : Nat → ReplayPc
  hart : HartPc
  /-- the doorbell register of the firmware -/
  bell : Bool
  /-- `shm_doorbell_isr` has cleared the register and has not given the semaphore -/
  acked : Bool
  sem : Bool
  task : TaskPc
  /-- `s_boot_cap_valid` -/
  capValid : Bool
  /-- the boot events that the task has sent again -/
  events : Nat
  /-- a context has written its request, and the firmware has not taken the word since -/
  wanted : Bool
  /-- OpenSBI has asked for deep sleep -/
  off : Bool

inductive ReqAct where
  | context (i : Nat)
  /-- Linux rings for a frame -/
  | ring
  | hart
  /-- the firmware sends its first boot event -/
  | boot
  | isr
  /-- the task, which finds a frame or not -/
  | task (more : Bool)

namespace ReqSys

/-- A step of `esp_shm_request_ready_replay`. -/
def contextStep (i : Nat) (s : ReqSys) : ReqSys :=
  match s.contexts i with
  | .idle => { s with contexts := Function.update s.contexts i (.read s.req) }
  | .read req => { s with
      contexts := Function.update s.contexts i .ring
      req := req ||| reqReadyReplay
      wanted := true }
  | .ring => { s with contexts := Function.update s.contexts i .idle, bell := true }

/-- A step of `esp32s31_request_poweroff`. -/
def hartStep (s : ReqSys) : Option ReqSys :=
  match s.hart with
  | .linux => some { s with req := s.req ||| reqPoweroff, hart := .ring, off := true }
  | .ring => some { s with bell := true, hart := .halted }
  | .halted => none

/-- A step of `shm_doorbell_isr`. -/
def isrStep (s : ReqSys) : Option ReqSys :=
  if s.acked then some { s with acked := false, sem := true }
  else if s.bell then some { s with bell := false, acked := true }
  else none

/-- A step of the loop of `shm_read`. -/
def taskStep (more : Bool) (s : ReqSys) : Option ReqSys :=
  match s.task with
  | .service => some { s with req := 0, task := .taken s.req, wanted := false }
  | .taken req => some { s with
      task := .kick req
      events := if req &&& reqReadyReplay ≠ 0 ∧ s.capValid then s.events + 1 else s.events }
  | .kick req => some { s with task := .power req }
  | .power req => some { s with task := if req &&& reqPoweroff ≠ 0 then .asleep else .look }
  | .look => some { s with task := if more then .frame else .block }
  | .block => if s.sem then some { s with sem := false, task := .service } else none
  | .frame => some { s with task := .service }
  | .asleep => none

/-- The chip is on until the task puts it to sleep; Linux runs until it calls OpenSBI. -/
def step (a : ReqAct) (s : ReqSys) : Option ReqSys :=
  if s.task = .asleep then none
  else match a with
  | .context i => if s.hart = .linux then some (s.contextStep i) else none
  | .ring => if s.hart = .linux then some { s with bell := true } else none
  | .hart => s.hartStep
  | .boot => some { s with capValid := true }
  | .isr => s.isrStep
  | .task more => s.taskStep more

end ReqSys

/-- The shared block is cleared, and nobody has asked for anything. -/
def reqSys : Machine ReqAct ReqSys where
  init s := s.req = 0 ∧ (∀ i, s.contexts i = .idle) ∧ s.hart = .linux ∧ s.task = .service ∧
    s.wanted = false ∧ s.off = false
  step := ReqSys.step

/-- The steps behind a request for deep sleep. -/
def ReqAct.Internal : ReqAct → ReqSys → Prop
  | .hart, s => s.off = true
  | .isr, _ | .task _, _ => True
  | _, _ => False

/-! ## The bits -/

theorem replay_or_replay (r : U32) : (r ||| reqReadyReplay) &&& reqReadyReplay ≠ 0 := by
  rw [BitVec.and_or_distrib_right]
  intro h
  exact absurd (BitVec.or_eq_zero_iff.mp h).2 (by decide)

theorem replay_or_poweroff (r : U32) :
    (r ||| reqPoweroff) &&& reqReadyReplay = r &&& reqReadyReplay := by
  rw [BitVec.and_or_distrib_right, show reqPoweroff &&& reqReadyReplay = 0#32 by decide,
    BitVec.or_zero]

theorem poweroff_or_poweroff (r : U32) : (r ||| reqPoweroff) &&& reqPoweroff ≠ 0 := by
  rw [BitVec.and_or_distrib_right]
  intro h
  exact absurd (BitVec.or_eq_zero_iff.mp h).2 (by decide)

theorem poweroff_or_replay (r : U32) :
    (r ||| reqReadyReplay) &&& reqPoweroff = r &&& reqPoweroff := by
  rw [BitVec.and_or_distrib_right, show reqReadyReplay &&& reqPoweroff = 0#32 by decide,
    BitVec.or_zero]

/-! ## What a step can do -/

namespace ReqSys

/-- The word that the task has taken. -/
def holds (s : ReqSys) : Option U32 :=
  match s.task with
  | .taken req | .kick req | .power req => some req
  | _ => none

/-- The word behind the doorbell and the semaphore. -/
def notice (s : ReqSys) : Notice where
  work := s.req ≠ 0
  owed := (s.hart = .linux ∧ ∃ i, s.contexts i = .ring) ∨ s.hart = .ring
  rung := s.bell = true ∨ s.acked = true ∨ s.sem = true
  taking := s.task = .service ∨ s.task = .frame

/-- **What holds in every state.** -/
structure Inv (s : ReqSys) : Prop where
  noticed : s.task ≠ .asleep → s.notice.Inv
  wanted : s.wanted = true → s.req &&& reqReadyReplay ≠ 0
  hart : s.off = true ↔ s.hart ≠ .linux
  kept : s.off = true → s.task = .asleep ∨ s.req &&& reqPoweroff ≠ 0 ∨
    ∃ r, s.holds = some r ∧ r &&& reqPoweroff ≠ 0
  calm : s.off = false → s.task ≠ .asleep ∧ s.req &&& reqPoweroff = 0 ∧
    (∀ r, s.holds = some r → r &&& reqPoweroff = 0) ∧
    ∀ i r, s.contexts i = .read r → r &&& reqPoweroff = 0

variable {s s' : ReqSys}

theorem Inv.init (h : reqSys.init s) : s.Inv := by
  obtain ⟨hreq, hctx, hhart, htask, hwanted, hoff⟩ := h
  refine ⟨fun _ => Notice.Inv.of_idle fun hw => hw hreq, ?_, ?_, ?_, ?_⟩
  · simp [hwanted]
  · simp [hoff, hhart]
  · simp [hoff]
  · intro _
    simp [htask, hreq, holds, hctx]

/-- Only one context moves. -/
theorem context_of_ne {f : Nat → ReplayPc} {i j : Nat} {pc : ReplayPc} (h : j ≠ i) :
    Function.update f i pc j = f j := Function.update_of_ne h ..

/-- What the contexts have read, after one of them has moved. -/
theorem read_update {f : Nat → ReplayPc} {i : Nat} {pc : ReplayPc}
    (hread : ∀ j r, f j = .read r → r &&& reqPoweroff = 0)
    (hpc : ∀ r, pc = .read r → r &&& reqPoweroff = 0) (j : Nat) (r : U32)
    (hj : Function.update f i pc j = .read r) : r &&& reqPoweroff = 0 := by
  by_cases hji : j = i
  · subst hji
    rw [Function.update_self] at hj
    exact hpc r hj
  · rw [context_of_ne hji] at hj
    exact hread j r hj

theorem Inv.context (h : s.Inv) (i : Nat) (hl : s.hart = .linux) : (s.contextStep i).Inv := by
  have hoff : s.off = false := by
    have := h.hart
    simpa [hl] using this
  obtain ⟨hta, hreq, hholds, hread⟩ := h.calm hoff
  unfold contextStep
  cases hc : s.contexts i with
  | idle =>
    refine ⟨fun ht => (h.noticed ht).step (.keep id ?_ id id), h.wanted, h.hart, h.kept,
      fun _ => ⟨hta, hreq, hholds, read_update hread fun r hr => ?_⟩⟩
    · refine Or.imp (And.imp_right fun hr => ?_) id
      obtain ⟨j, hj⟩ := hr
      have hji : j ≠ i := by
        rintro rfl
        rw [hc] at hj
        exact absurd hj (by simp)
      exact ⟨j, (context_of_ne hji).trans hj⟩
    · obtain rfl := ReplayPc.read.inj hr
      exact hreq
  | read req =>
    refine ⟨fun ht => (h.noticed ht).step (.publish (.inl ⟨hl, i, Function.update_self ..⟩)),
      fun _ => replay_or_replay req, h.hart, fun hf => absurd hf (by simp [hoff]),
      fun _ => ⟨hta, ?_, hholds, read_update hread fun r hr => absurd hr (by simp)⟩⟩
    rw [poweroff_or_replay]
    exact hread i req hc
  | ring =>
    refine ⟨fun ht => (h.noticed ht).step (.ring (.inl rfl)), h.wanted, h.hart, h.kept,
      fun _ => ⟨hta, hreq, hholds, read_update hread fun r hr => absurd hr (by simp)⟩⟩

theorem Inv.hartStep (h : s.Inv) (hs : s.hartStep = some s') : s'.Inv := by
  unfold ReqSys.hartStep at hs
  cases hh : s.hart with
  | linux =>
    rw [hh] at hs
    obtain rfl := Option.some.inj hs
    refine ⟨fun ht => (h.noticed ht).step (.publish (.inr rfl)), fun hw => ?_, by simp,
      fun _ => .inr (.inl (poweroff_or_poweroff _)), fun hf => absurd hf (by simp)⟩
    rw [replay_or_poweroff]
    exact h.wanted hw
  | ring =>
    rw [hh] at hs
    obtain rfl := Option.some.inj hs
    have hoff : s.off = true := by
      rw [h.hart, hh]
      simp
    exact ⟨fun ht => (h.noticed ht).step (.ring (.inl rfl)), h.wanted, by simp [hoff], h.kept,
      fun hf => absurd hf (by simp [hoff])⟩
  | halted =>
    rw [hh] at hs
    exact absurd hs (by simp)

theorem Inv.isrStep (h : s.Inv) (hs : s.isrStep = some s') : s'.Inv := by
  unfold ReqSys.isrStep at hs
  split at hs
  · obtain rfl := Option.some.inj hs
    exact ⟨fun ht => (h.noticed ht).step (.ring (.inr (.inr rfl))), h.wanted, h.hart, h.kept,
      h.calm⟩
  split at hs
  · obtain rfl := Option.some.inj hs
    exact ⟨fun ht => (h.noticed ht).step (.ring (.inr (.inl rfl))), h.wanted, h.hart, h.kept,
      h.calm⟩
  · exact absurd hs (by simp)

/-- The task goes on with the word that it holds, or without one. -/
theorem Inv.goto (h : s.Inv) {task : TaskPc} {events : Nat}
    (htaking : s.notice.taking → task = .service ∨ task = .frame)
    (hholds : ({ s with task := task, events := events } : ReqSys).holds = s.holds)
    (ha : task ≠ .asleep) (ha' : s.task ≠ .asleep) :
    ({ s with task := task, events := events } : ReqSys).Inv where
  noticed _ := (h.noticed ha').step (.keep id id id htaking)
  wanted := h.wanted
  hart := h.hart
  kept hf := by
    rcases h.kept hf with hs | hr | hr
    · exact absurd hs ha'
    · exact .inr (.inl hr)
    · rw [← hholds] at hr
      exact .inr (.inr hr)
  calm hf := by
    obtain ⟨-, hreq, hr, hread⟩ := h.calm hf
    rw [← hholds] at hr
    exact ⟨ha, hreq, hr, hread⟩

theorem Inv.taskStep (h : s.Inv) {more : Bool} (hs : s.taskStep more = some s') : s'.Inv := by
  unfold ReqSys.taskStep at hs
  cases ht : s.task with
  | service =>
    rw [ht] at hs
    obtain rfl := Option.some.inj hs
    refine ⟨fun _ => (h.noticed (by simp [ht])).step (.take fun hw => hw rfl),
      fun hf => absurd hf (by simp), h.hart, fun hf => ?_, fun hf => ?_⟩
    · rcases h.kept hf with hs | hr | hr
      · exact absurd hs (by simp [ht])
      · exact .inr (.inr ⟨s.req, rfl, hr⟩)
      · exact absurd hr (by simp [holds, ht])
    · obtain ⟨-, hreq, -, hread⟩ := h.calm hf
      refine ⟨by simp, by simp, ?_, hread⟩
      intro r hr
      obtain rfl := Option.some.inj hr
      exact hreq
  | taken req =>
    rw [ht] at hs
    obtain rfl := Option.some.inj hs
    exact h.goto (fun hk => absurd hk (by simp [notice, ht])) (by simp [holds, ht]) (by simp)
      (by simp [ht])
  | kick req =>
    rw [ht] at hs
    obtain rfl := Option.some.inj hs
    exact h.goto (fun hk => absurd hk (by simp [notice, ht])) (by simp [holds, ht]) (by simp)
      (by simp [ht])
  | power req =>
    rw [ht] at hs
    obtain rfl := Option.some.inj hs
    by_cases hp : req &&& reqPoweroff = 0
    · rw [if_neg fun hn => hn hp]
      refine ⟨fun _ => (h.noticed (by simp [ht])).step (.keep id id id
        fun hk => absurd hk (by simp [notice, ht])), h.wanted, h.hart, fun hf => ?_, fun hf => ?_⟩
      · rcases h.kept hf with hs | hr | hr
        · exact absurd hs (by simp [ht])
        · exact .inr (.inl hr)
        · obtain ⟨r, hr, hne⟩ := hr
          simp only [holds, ht, Option.some.injEq] at hr
          exact absurd (hr ▸ hp) hne
      · obtain ⟨-, hreq, -, hread⟩ := h.calm hf
        exact ⟨by simp, hreq, fun r hr => absurd hr (by simp [holds]), hread⟩
    · rw [if_pos hp]
      refine ⟨fun hn => absurd rfl hn, h.wanted, h.hart, fun _ => .inl rfl, fun hf => ?_⟩
      exact absurd ((h.calm hf).2.2.1 req (by simp [holds, ht])) hp
  | look =>
    rw [ht] at hs
    obtain rfl := Option.some.inj hs
    refine h.goto (fun hk => absurd hk (by simp [notice, ht])) ?_ ?_ (by simp [ht])
    · cases more <;> simp [holds, ht]
    · cases more <;> simp
  | block =>
    rw [ht] at hs
    by_cases hsem : s.sem = true
    · rw [if_pos hsem] at hs
      obtain rfl := Option.some.inj hs
      refine ⟨fun _ => (h.noticed (by simp [ht])).step (.clear (.inl rfl)), h.wanted, h.hart,
        fun hf => ?_, fun hf => ?_⟩
      · rcases h.kept hf with hs | hr | hr
        · exact absurd hs (by simp [ht])
        · exact .inr (.inl hr)
        · exact absurd hr (by simp [holds, ht])
      · obtain ⟨-, hreq, -, hread⟩ := h.calm hf
        exact ⟨by simp, hreq, fun r hr => absurd hr (by simp [holds]), hread⟩
    · rw [if_neg hsem] at hs
      exact absurd hs (by simp)
  | frame =>
    rw [ht] at hs
    obtain rfl := Option.some.inj hs
    exact h.goto (fun _ => .inl rfl) (by simp [holds, ht]) (by simp) (by simp [ht])
  | asleep =>
    rw [ht] at hs
    exact absurd hs (by simp)

/-- The chip is on when something happens. -/
theorem step_cases {a : ReqAct} (hs : ReqSys.step a s = some s') : s.task ≠ .asleep ∧
    ((∃ i, a = .context i ∧ s.hart = .linux ∧ s' = s.contextStep i) ∨
      (a = .ring ∧ s.hart = .linux ∧ s' = { s with bell := true }) ∨
      (a = .hart ∧ s.hartStep = some s') ∨ (a = .boot ∧ s' = { s with capValid := true }) ∨
      (a = .isr ∧ s.isrStep = some s') ∨ ∃ more, a = .task more ∧ s.taskStep more = some s') := by
  unfold ReqSys.step at hs
  split at hs
  · exact absurd hs (by simp)
  · rename_i ha
    refine ⟨ha, ?_⟩
    cases a with
    | context i =>
      dsimp only at hs
      by_cases hl : s.hart = .linux
      · rw [if_pos hl] at hs
        exact .inl ⟨i, rfl, hl, (Option.some.inj hs).symm⟩
      · rw [if_neg hl] at hs
        exact absurd hs (by simp)
    | ring =>
      dsimp only at hs
      by_cases hl : s.hart = .linux
      · rw [if_pos hl] at hs
        exact .inr (.inl ⟨rfl, hl, (Option.some.inj hs).symm⟩)
      · rw [if_neg hl] at hs
        exact absurd hs (by simp)
    | hart => exact .inr (.inr (.inl ⟨rfl, hs⟩))
    | boot => exact .inr (.inr (.inr (.inl ⟨rfl, (Option.some.inj hs).symm⟩)))
    | isr => exact .inr (.inr (.inr (.inr (.inl ⟨rfl, hs⟩))))
    | task more => exact .inr (.inr (.inr (.inr (.inr ⟨more, rfl, hs⟩))))

theorem Inv.step {a : ReqAct} (h : s.Inv) (hs : ReqSys.step a s = some s') : s'.Inv := by
  obtain ⟨-, ⟨i, -, hl, rfl⟩ | ⟨-, -, rfl⟩ | ⟨-, hs⟩ | ⟨-, rfl⟩ | ⟨-, hs⟩ | ⟨more, -, hs⟩⟩ :=
    step_cases hs
  · exact h.context i hl
  · exact ⟨fun ht => (h.noticed ht).step (.ring (.inl rfl)), h.wanted, h.hart, h.kept, h.calm⟩
  · exact h.hartStep hs
  · exact ⟨h.noticed, h.wanted, h.hart, h.kept, h.calm⟩
  · exact h.isrStep hs
  · exact h.taskStep hs

theorem Inv.of_reach (hr : reqSys.Reach s) : s.Inv :=
  hr.invariant (fun _ h => .init h) fun _ _ _ _ h _ hs => h.step hs

end ReqSys

open ReqSys

/-- **A request is noticed.** -/
theorem request_noticed {s : ReqSys} (hr : reqSys.Reach s) (ha : s.task ≠ .asleep)
    (hreq : s.req ≠ 0) :
    ((s.hart = .linux ∧ ∃ i, s.contexts i = .ring) ∨ s.hart = .ring) ∨
      (s.bell = true ∨ s.acked = true ∨ s.sem = true) ∨ (s.task = .service ∨ s.task = .frame) :=
  (Inv.of_reach hr).noticed ha hreq

/-- **A boot event that was asked for stays asked for**, until the firmware takes the word. -/
theorem replay_kept {s : ReqSys} (hr : reqSys.Reach s) (hw : s.wanted = true) :
    s.req &&& reqReadyReplay ≠ 0 := (Inv.of_reach hr).wanted hw

/-- A context asks for a boot event while the task sleeps, and another one has read the word. -/
def requestExample : List ReqAct :=
  [.boot, .task false, .task false, .task false, .task false, .task false, .context 3, .context 5,
    .context 3]

def requestExampleStart : ReqSys where
  req := 0
  contexts _ := .idle
  hart := .linux
  bell := false
  acked := false
  sem := false
  task := .service
  capValid := false
  events := 0
  wanted := false
  off := false

theorem requestExampleStart_init : reqSys.init requestExampleStart :=
  ⟨rfl, fun _ => rfl, rfl, rfl, rfl, rfl⟩

theorem requestExample_some : (reqSys.run requestExample requestExampleStart).isSome = true := by
  decide +kernel

theorem request_noticed_replay :
    ∃ s, reqSys.run requestExample requestExampleStart = some s ∧ s.req ≠ 0 ∧
      (((s.hart = .linux ∧ ∃ i, s.contexts i = .ring) ∨ s.hart = .ring) ∨
        (s.bell = true ∨ s.acked = true ∨ s.sem = true) ∨
        (s.task = .service ∨ s.task = .frame)) := by
  obtain ⟨s, hs⟩ := Option.isSome_iff_exists.mp requestExample_some
  have hr : reqSys.Reach s := Machine.Reach.run (.init requestExampleStart_init) hs
  have hreq : (reqSys.run requestExample requestExampleStart).map ReqSys.req = some 1 := rfl
  have htask : (reqSys.run requestExample requestExampleStart).map ReqSys.task = some .block := rfl
  rw [hs] at hreq htask
  have hne : s.req ≠ 0 := by
    rw [Option.some.inj hreq]
    decide
  have hta : s.task ≠ .asleep := by
    rw [Option.some.inj htask]
    decide
  exact ⟨s, hs, hne, request_noticed hr hta hne⟩

theorem replay_kept_contexts :
    ∃ s, reqSys.run requestExample requestExampleStart = some s ∧ s.wanted = true ∧
      s.req &&& reqReadyReplay ≠ 0 := by
  obtain ⟨s, hs⟩ := Option.isSome_iff_exists.mp requestExample_some
  have hr : reqSys.Reach s := Machine.Reach.run (.init requestExampleStart_init) hs
  have hw : (reqSys.run requestExample requestExampleStart).map ReqSys.wanted = some true := rfl
  rw [hs] at hw
  exact ⟨s, hs, Option.some.inj hw, replay_kept hr (Option.some.inj hw)⟩

/-! ## Deep sleep -/

instance (a : ReqAct) (s : ReqSys) : Decidable (ReqAct.Internal a s) := by
  cases a <;> unfold ReqAct.Internal <;> infer_instance

namespace ReqSys

/-- The wake-up that is on its way. -/
def bellLeft (s : ReqSys) : Nat :=
  (if s.hart = .ring then 4 else 0) + (if s.bell then 3 else 0) + (if s.acked then 2 else 0) +
    if s.sem then 1 else 0

/-- The steps of the task until it sleeps, when the word asks for it or the task holds it. -/
def taskLeft (s : ReqSys) : Nat :=
  match s.task with
  | .service => 4
  | .taken req => if req &&& reqPoweroff ≠ 0 then 3 else 9
  | .kick req => if req &&& reqPoweroff ≠ 0 then 2 else 8
  | .power req => if req &&& reqPoweroff ≠ 0 then 1 else 7
  | .look => 6
  | .block => 5
  | .frame => 5
  | .asleep => 0

/-- A bound on the internal steps that are left. -/
def stepsLeft (s : ReqSys) : Nat := s.bellLeft + s.taskLeft

variable {s s' : ReqSys}

theorem stepsLeft_hart (hoff : s.hart ≠ .linux) (hs : s.hartStep = some s') :
    s'.stepsLeft + 1 ≤ s.stepsLeft := by
  unfold ReqSys.hartStep at hs
  cases hh : s.hart with
  | linux => exact absurd hh hoff
  | ring =>
    rw [hh] at hs
    obtain rfl := Option.some.inj hs
    unfold stepsLeft bellLeft
    rw [hh]
    change (0 + 3 + _ + _) + s.taskLeft + 1 ≤ _
    simp only [if_true]
    omega
  | halted =>
    rw [hh] at hs
    exact absurd hs (by simp)

theorem stepsLeft_isr (hs : s.isrStep = some s') : s'.stepsLeft + 1 ≤ s.stepsLeft := by
  unfold ReqSys.isrStep at hs
  by_cases hacked : s.acked = true
  · rw [if_pos hacked] at hs
    obtain rfl := Option.some.inj hs
    unfold stepsLeft bellLeft
    rw [hacked]
    change (_ + _ + 0 + 1) + s.taskLeft + 1 ≤ _
    simp only [if_true]
    omega
  · rw [if_neg hacked] at hs
    by_cases hbell : s.bell = true
    · rw [if_pos hbell] at hs
      obtain rfl := Option.some.inj hs
      unfold stepsLeft bellLeft
      rw [hbell]
      change (_ + 0 + 2 + _) + s.taskLeft + 1 ≤ _
      simp only [if_true]
      omega
    · rw [if_neg hbell] at hs
      exact absurd hs (by simp)

/-- While the request is in the word or with the task, the task comes closer to its sleep. -/
theorem stepsLeft_task {more : Bool} (hs : s.taskStep more = some s')
    (hkept : s.task = .asleep ∨ s.req &&& reqPoweroff ≠ 0 ∨
      ∃ r, s.holds = some r ∧ r &&& reqPoweroff ≠ 0) : s'.stepsLeft + 1 ≤ s.stepsLeft := by
  unfold ReqSys.taskStep at hs
  unfold stepsLeft
  cases ht : s.task with
  | service =>
    rw [ht] at hs
    obtain rfl := Option.some.inj hs
    have hreq : s.req &&& reqPoweroff ≠ 0 := by
      rcases hkept with h | h | h
      · exact absurd h (by simp [ht])
      · exact h
      · exact absurd h (by simp [holds, ht])
    simp only [taskLeft, ht, if_pos hreq]
    exact Nat.le_refl _
  | taken req =>
    rw [ht] at hs
    obtain rfl := Option.some.inj hs
    simp only [taskLeft, ht]
    change s.bellLeft + _ + 1 ≤ _
    split <;> omega
  | kick req =>
    rw [ht] at hs
    obtain rfl := Option.some.inj hs
    simp only [taskLeft, ht]
    change s.bellLeft + _ + 1 ≤ _
    split <;> omega
  | power req =>
    rw [ht] at hs
    obtain rfl := Option.some.inj hs
    simp only [taskLeft, ht]
    change s.bellLeft + _ + 1 ≤ _
    by_cases hp : req &&& reqPoweroff ≠ 0
    · rw [if_pos hp, if_pos hp]
      simp only
      omega
    · refine Nat.le_of_eq ?_
      rw [if_neg hp, if_neg hp]
  | look =>
    rw [ht] at hs
    obtain rfl := Option.some.inj hs
    simp only [taskLeft, ht]
    change s.bellLeft + _ + 1 ≤ _
    cases more <;> simp only [Bool.false_eq_true, if_false, if_true] <;> omega
  | block =>
    rw [ht] at hs
    by_cases hsem : s.sem = true
    · rw [if_pos hsem] at hs
      obtain rfl := Option.some.inj hs
      simp only [taskLeft, ht, bellLeft, hsem, if_true, Bool.false_eq_true, if_false]
      omega
    · rw [if_neg hsem] at hs
      exact absurd hs (by simp)
  | frame =>
    rw [ht] at hs
    obtain rfl := Option.some.inj hs
    simp only [taskLeft, ht]
    exact Nat.le_refl _
  | asleep =>
    rw [ht] at hs
    exact absurd hs (by simp)

/-- What a step behind a request for deep sleep leaves: the request stands, and less is to do. -/
theorem internal_step {a : ReqAct} (h : s.Inv) (hoff : s.off = true) (ha : a.Internal s)
    (h' : ReqSys.step a s = some s') : s'.off = true ∧ s'.stepsLeft + 1 ≤ s.stepsLeft := by
  obtain ⟨-, ⟨i, rfl, -, -⟩ | ⟨rfl, -, -⟩ | ⟨rfl, hs⟩ | ⟨rfl, -⟩ | ⟨rfl, hs⟩ | ⟨more, rfl, hs⟩⟩ :=
    step_cases h'
  · exact absurd ha id
  · exact absurd ha id
  · refine ⟨?_, stepsLeft_hart (h.hart.mp hoff) hs⟩
    unfold ReqSys.hartStep at hs
    cases hh : s.hart with
    | linux | ring =>
      rw [hh] at hs
      obtain rfl := Option.some.inj hs
      first | rfl | exact hoff
    | halted =>
      rw [hh] at hs
      exact absurd hs (by simp)
  · exact absurd ha id
  · refine ⟨?_, stepsLeft_isr hs⟩
    unfold ReqSys.isrStep at hs
    split at hs
    · obtain rfl := Option.some.inj hs
      exact hoff
    split at hs
    · obtain rfl := Option.some.inj hs
      exact hoff
    · exact absurd hs (by simp)
  · refine ⟨?_, stepsLeft_task hs (h.kept hoff)⟩
    unfold ReqSys.taskStep at hs
    cases ht : s.task with
    | block =>
      rw [ht] at hs
      dsimp only at hs
      split at hs
      · obtain rfl := Option.some.inj hs
        exact hoff
      · exact absurd hs (by simp)
    | asleep =>
      rw [ht] at hs
      exact absurd hs (by simp)
    | service | taken | kick | power | look | frame =>
      rw [ht] at hs
      obtain rfl := Option.some.inj hs
      exact hoff

/-- Where nothing can happen behind the request any more, the chip is in deep sleep. -/
theorem asleep_of_stuck (h : s.Inv) (hoff : s.off = true)
    (hstuck : ∀ a, ReqAct.Internal a s → ReqSys.step a s = none) : s.task = .asleep := by
  by_contra ha
  have hstep : ∀ a, ReqAct.Internal a s → (match a with
      | .hart => s.hartStep
      | .isr => s.isrStep
      | .task more => s.taskStep more
      | _ => none) = none := by
    intro a hi
    have hn := hstuck a hi
    unfold ReqSys.step at hn
    rw [if_neg ha] at hn
    cases a with
    | context | ring | boot => rfl
    | hart | isr | task => exact hn
  have hhart : s.hart ≠ .ring := by
    intro hr
    have hn := hstep .hart hoff
    simp only [ReqSys.hartStep, hr] at hn
    exact absurd hn (by simp)
  have hisr := hstep .isr trivial
  have hacked : ¬ s.acked = true := by
    intro hk
    simp only [ReqSys.isrStep, hk, if_true] at hisr
    exact absurd hisr (by simp)
  have hbell : ¬ s.bell = true := by
    intro hb
    simp only [ReqSys.isrStep, hb, if_neg hacked, if_true] at hisr
    exact absurd hisr (by simp)
  have htask := hstep (.task false) trivial
  have hblock : s.task = .block ∧ ¬ s.sem = true := by
    cases ht : s.task with
    | block =>
      refine ⟨rfl, fun hk => ?_⟩
      simp only [ReqSys.taskStep, ht, hk, if_true] at htask
      exact absurd htask (by simp)
    | asleep => exact absurd ht ha
    | service | taken | kick | power | look | frame =>
      simp only [ReqSys.taskStep, ht] at htask
      exact absurd htask (by simp)
  -- the request is in the word, and nobody is going to notice it
  have hreq : s.req ≠ 0 := by
    rcases h.kept hoff with hs | hr | hr
    · exact absurd hs ha
    · rintro h0
      exact hr (by rw [h0]; rfl)
    · exact absurd hr (by simp [holds, hblock.1])
  rcases h.noticed ha hreq with (⟨hl, -⟩ | hr) | (hb | hk | hm) | (ht | ht)
  · exact absurd hl (h.hart.mp hoff)
  · exact hhart hr
  · exact hbell hb
  · exact hacked hk
  · exact hblock.2 hm
  · rw [hblock.1] at ht
    exact absurd ht (by simp)
  · rw [hblock.1] at ht
    exact absurd ht (by simp)

end ReqSys

/-- **Deep sleep only when asked for, and then surely.** The chip does not go into deep sleep on its
own; once OpenSBI has asked for it, hart 1, the interrupt handler and the task take a bounded number
of steps, and where they can take no more, the chip is in deep sleep. -/
theorem poweroff_reached {s : ReqSys} (hr : reqSys.Reach s) :
    (s.task = .asleep → s.off = true) ∧
      ∀ (as : List ReqAct) (s' : ReqSys), s.off = true →
        reqSys.runWith ReqAct.Internal as s = some s' → as.length ≤ s.stepsLeft ∧
          ((∀ a, ReqAct.Internal a s' → reqSys.step a s' = none) → s'.task = .asleep) := by
  refine ⟨fun ha => ?_, fun as s' hoff h => ?_⟩
  · cases hoff : s.off with
    | true => rfl
    | false => exact absurd ha ((Inv.of_reach hr).calm hoff).1
  · obtain ⟨hlen, hi, hoff'⟩ := Machine.runWith_bounded (M := reqSys)
      (I := fun s => s.Inv ∧ s.off = true)
      (fun a s s' hi ha hs => ⟨⟨hi.1.step hs, (internal_step hi.1 hi.2 ha hs).1⟩,
        (internal_step hi.1 hi.2 ha hs).2⟩) ⟨Inv.of_reach hr, hoff⟩ h
    exact ⟨hlen, asleep_of_stuck hi hoff'⟩

/-- Linux powers off while it asks for a boot event. -/
def poweroffExample : List ReqAct := requestExample ++ [.hart]

/-- The doorbell wakes the task up, which puts the chip to sleep. -/
def poweroffExampleRun : List ReqAct :=
  [.hart, .isr, .isr, .task false, .task false, .task false, .task false, .task false]

theorem poweroffExample_some : ((reqSys.run poweroffExample requestExampleStart).bind
    (reqSys.runWith ReqAct.Internal poweroffExampleRun)).isSome = true := by
  decide +kernel

theorem poweroff_reached_example :
    ∃ s s', reqSys.run poweroffExample requestExampleStart = some s ∧
      reqSys.runWith ReqAct.Internal poweroffExampleRun s = some s' ∧
      poweroffExampleRun.length ≤ s.stepsLeft ∧
        ((∀ a, ReqAct.Internal a s' → reqSys.step a s' = none) → s'.task = .asleep) := by
  obtain ⟨s', hs'⟩ := Option.isSome_iff_exists.mp poweroffExample_some
  obtain ⟨s, hs, h⟩ := Option.bind_eq_some_iff.mp hs'
  have hr : reqSys.Reach s := Machine.Reach.run (.init requestExampleStart_init) hs
  have hoff : (reqSys.run poweroffExample requestExampleStart).map ReqSys.off = some true := rfl
  rw [hs] at hoff
  exact ⟨s, s', hs, h, (poweroff_reached hr).2 _ s' (Option.some.inj hoff) h⟩

end Esp32S31.Shm
