import Mathlib.Data.List.Perm.Basic
import Esp32S31.Irq.Clic
import Esp32S31.Lib.Machine
import Esp32S31.Lib.Notice

/-!
# The software interrupt for `irq_work`

A uniprocessor RISC-V kernel has no interrupt to itself, so the driver takes input 16:
`arch_irq_work_raise` sets its pending bit, and `esp32s31_irq_work_interrupt` clears it and runs the
work. A context that queues work (`irq_work_queue` of the kernel) adds it to the list with one
atomic step and calls `arch_irq_work_raise` only when the list was empty; `irq_work_run` takes the
whole list with one atomic step and runs it, and an item may queue more. Contexts interrupt each
other anywhere, also before the probe, when the raise does nothing.

* **`irq_work_noticed`**: behind the probe, queued work always has an interrupt to come, or a
  context about to raise it, or a handler about to take it.
* **`irq_work_drains`**: left alone, the contexts and the handler come to rest after a bounded
  number of steps, and then every item that was ever queued has run exactly once.
-/

namespace Esp32S31.Irq

open Esp32S31.Lib

variable {W : Type}

/-- Where `esp32s31_clic_probe` is. -/
inductive ProbePc where
  /-- before `esp32s31_clic_init_cpu` -/
  | initCpu
  /-- the writes of `esp32s31_irq_work_init` -/
  | setup
  | request
  /-- the last write of `esp32s31_irq_work_init` -/
  | raise
  | done
  /-- the interrupt could not be requested -/
  | failed
  deriving DecidableEq

/-- Where the handler of input 16 is. -/
inductive HandlerPc (W : Type) where
  | idle
  /-- before the clearing of the pending bit -/
  | entered
  /-- before `irq_work_run` takes the list -/
  | cleared
  | running (batch : List W)

/-- The list of raised work with the controller. -/
structure WorkSys (W : Type) where
  clic : Clic
  /-- `this_cpu_read(clic_per_cpu)` is not NULL -/
  bound : Bool
  probe : ProbePc
  list : List W
  /-- the contexts that found the list empty and have not called `arch_irq_work_raise` yet -/
  raising : Nat
  handler : HandlerPc W
  /-- everything that was queued, and everything that ran -/
  queued : List W
  ran : List W

inductive WorkAct (W : Type) where
  /-- the probe goes on; `request_irq` succeeds or not -/
  | probe (ok : Bool)
  /-- `llist_add` -/
  | queue (w : W)
  | raise
  | enter
  | clear
  /-- `llist_del_all` -/
  | take
  /-- one item of the list -/
  | item

/-- `arch_irq_work_raise`. -/
def archIrqWorkRaise (bound : Bool) (c : Clic) : Clic :=
  if bound then c.clicWriteb irqWorkId .ip 1 else c

/-- Input 16 interrupts S-mode. -/
def Clic.fires (c : Clic) : Bool :=
  (c.inputs irqWorkId).sMode && (c.inputs irqWorkId).ip = 1 && (c.inputs irqWorkId).ie = 1

namespace WorkSys

/-- A stage of the probe. -/
def probeStep (ok : Bool) (s : WorkSys W) : Option (WorkSys W) :=
  match s.probe with
  | .initCpu => some { s with clic := initCpu s.clic, bound := true, probe := .setup }
  | .setup => some { s with clic := irqWorkSetup s.clic, probe := .request }
  | .request =>
    some (if ok then { s with clic := irqEnable s.clic irqWorkId true, probe := .raise }
      else { s with probe := .failed })
  | .raise => some { s with clic := s.clic.clicWriteb irqWorkId .ip 1, probe := .done }
  | .done | .failed => none

def step : WorkAct W → WorkSys W → Option (WorkSys W)
  | .probe ok, s => s.probeStep ok
  | .queue w, s => some { s with
      list := w :: s.list
      raising := if s.list.isEmpty then s.raising + 1 else s.raising
      queued := w :: s.queued }
  | .raise, s =>
    match s.raising with
    | 0 => none
    | n + 1 => some { s with raising := n, clic := archIrqWorkRaise s.bound s.clic }
  | .enter, s =>
    match s.handler with
    | .idle => if s.clic.fires then some { s with handler := .entered } else none
    | _ => none
  | .clear, s =>
    match s.handler with
    | .entered => some { s with clic := s.clic.clicWriteb irqWorkId .ip 0, handler := .cleared }
    | _ => none
  | .take, s =>
    match s.handler with
    | .cleared => some { s with handler := .running s.list, list := [] }
    | _ => none
  | .item, s =>
    match s.handler with
    | .running [] => some { s with handler := .idle }
    | .running (w :: ws) => some { s with handler := .running ws, ran := w :: s.ran }
    | _ => none

/-- What the handler has taken and not run. -/
def batch (s : WorkSys W) : List W :=
  match s.handler with
  | .running ws => ws
  | _ => []

end WorkSys

/-- The controller as OpenSBI leaves it, before the driver. -/
def workSys (W : Type) : Machine (WorkAct W) (WorkSys W) where
  init s := (∃ c, s.clic = Sbi.timerInit c) ∧ s.bound = false ∧ s.probe = .initCpu ∧ s.list = [] ∧
    s.raising = 0 ∧ s.handler = .idle ∧ s.queued = [] ∧ s.ran = []
  step := WorkSys.step

/-- The steps that queue nothing: the contexts and the handler finish what there is. -/
def WorkAct.Internal : WorkAct W → WorkSys W → Prop
  | .raise, _ | .enter, _ | .clear, _ | .take, _ | .item, _ => True
  | .probe _, _ | .queue _, _ => False

/-! ## Input 16 -/

open Clic

/-- The probe has requested the interrupt. -/
def ProbePc.requested : ProbePc → Bool
  | .raise | .done => true
  | _ => false

/-- Input 16 belongs to S-mode in every state, and is enabled once it is requested. -/
structure Input16 (s : WorkSys W) : Prop where
  mode : (s.clic.inputs irqWorkId).sMode = true
  on : s.probe.requested = true → (s.clic.inputs irqWorkId).ie = 1
  bound : s.probe ≠ .initCpu → s.bound = true

theorem setIp_self {c : Clic} (h : (c.inputs irqWorkId).sMode = true) (v : BitVec 8) :
    (c.clicWriteb irqWorkId .ip v).inputs irqWorkId = { c.inputs irqWorkId with ip := v } := by
  rw [clicWriteb_eq, modify_self, if_pos h]
  rfl

/-- A write of the pending bit keeps the rest. -/
theorem Input16.ip {s : WorkSys W} (h : Input16 s) (v : BitVec 8) {s' : WorkSys W}
    (hc : s'.clic = s.clic.clicWriteb irqWorkId .ip v) (hp : s'.probe = s.probe)
    (hb : s'.bound = s.bound) : Input16 s' where
  mode := by
    rw [hc, setIp_self h.mode]
    exact h.mode
  on hr := by
    rw [hc, setIp_self h.mode]
    exact h.on (hp ▸ hr)
  bound hi := by
    rw [hb]
    exact h.bound (hp ▸ hi)

theorem Input16.same {s s' : WorkSys W} (h : Input16 s) (hc : s'.clic = s.clic)
    (hp : s'.probe = s.probe) (hb : s'.bound = s.bound) : Input16 s' where
  mode := by
    rw [hc]
    exact h.mode
  on hr := by
    rw [hc]
    exact h.on (hp ▸ hr)
  bound hi := by
    rw [hb]
    exact h.bound (hp ▸ hi)

theorem Input16.probeStep {s s' : WorkSys W} {ok : Bool} (h : Input16 s)
    (hs : s.probeStep ok = some s') : Input16 s' := by
  unfold WorkSys.probeStep at hs
  cases hp : s.probe with
  | initCpu =>
    rw [hp] at hs
    obtain rfl := Option.some.inj hs
    refine ⟨?_, fun hr => absurd hr (by simp [ProbePc.requested]), fun _ => rfl⟩
    rw [initCpu_inputs, if_pos (by decide), initialised, if_pos h.mode]
    rfl
  | setup =>
    rw [hp] at hs
    obtain rfl := Option.some.inj hs
    refine ⟨?_, fun hr => absurd hr (by simp [ProbePc.requested]),
      fun _ => h.bound (by simp [hp])⟩
    have hm := setIp_self h.mode 0
    have hm' : ((s.clic.clicWriteb irqWorkId .ip 0).inputs irqWorkId).sMode = true := by
      rw [hm]
      exact h.mode
    have ha : (((s.clic.clicWriteb irqWorkId .ip 0).clicWriteb irqWorkId .attr
        (attrModeS ||| attrTrigEdge)).inputs irqWorkId).sMode = true := by
      rw [clicWriteb_eq _ _ .attr, modify_self, if_pos hm']
      simp [Input.set, Input.sMode, attrModeS, attrTrigEdge]
    rw [irqWorkSetup, clicWriteb_eq _ _ .ctl, modify_self, if_pos ha]
    exact ha
  | request =>
    rw [hp] at hs
    obtain rfl := Option.some.inj hs
    cases ok with
    | true =>
      have he : (irqEnable s.clic irqWorkId true).inputs irqWorkId =
          { s.clic.inputs irqWorkId with ie := 1 } := by
        rw [irqEnable, clicWriteb_eq, modify_self, if_pos h.mode]
        rfl
      refine ⟨?_, fun _ => ?_, fun _ => h.bound (by simp [hp])⟩
      · simp only [if_true, he]
        exact h.mode
      · simp only [if_true, he]
    | false =>
      refine ⟨h.mode, fun hr => absurd hr (by simp [ProbePc.requested]),
        fun _ => h.bound (by simp [hp])⟩
  | raise =>
    rw [hp] at hs
    obtain rfl := Option.some.inj hs
    refine ⟨?_, fun _ => ?_, fun _ => h.bound (by simp [hp])⟩
    · simp only [setIp_self h.mode]
      exact h.mode
    · simp only [setIp_self h.mode]
      exact h.on (by rw [hp]; rfl)
  | done =>
    rw [hp] at hs
    exact absurd hs (by simp)
  | failed =>
    rw [hp] at hs
    exact absurd hs (by simp)

/-! ## A step -/

/-- **What a step can do**, apart from the probe. -/
inductive Moved (s s' : WorkSys W) : WorkAct W → Prop
  | queue (w : W) : s'.list = w :: s.list → s'.queued = w :: s.queued →
      (s.list = [] → s'.raising = s.raising + 1) → (s.list ≠ [] → s'.raising = s.raising) →
      s'.clic = s.clic → s'.handler = s.handler → s'.ran = s.ran → Moved s s' (.queue w)
  | raise : s.raising = s'.raising + 1 → s'.clic = archIrqWorkRaise s.bound s.clic →
      s'.list = s.list → s'.queued = s.queued → s'.handler = s.handler → s'.ran = s.ran →
      Moved s s' .raise
  | enter : s.handler = .idle → s.clic.fires = true → s'.handler = .entered → s'.list = s.list →
      s'.queued = s.queued → s'.raising = s.raising → s'.clic = s.clic → s'.ran = s.ran →
      Moved s s' .enter
  | clear : s.handler = .entered → s'.handler = .cleared →
      s'.clic = s.clic.clicWriteb irqWorkId .ip 0 → s'.list = s.list → s'.queued = s.queued →
      s'.raising = s.raising → s'.ran = s.ran → Moved s s' .clear
  | take : s.handler = .cleared → s'.handler = .running s.list → s'.list = [] →
      s'.queued = s.queued → s'.raising = s.raising → s'.clic = s.clic → s'.ran = s.ran →
      Moved s s' .take
  | run (w : W) (ws : List W) : s.handler = .running (w :: ws) → s'.handler = .running ws →
      s'.ran = w :: s.ran → s'.list = s.list → s'.queued = s.queued → s'.raising = s.raising →
      s'.clic = s.clic → Moved s s' .item
  | leave : s.handler = .running [] → s'.handler = .idle → s'.ran = s.ran → s'.list = s.list →
      s'.queued = s.queued → s'.raising = s.raising → s'.clic = s.clic → Moved s s' .item

theorem step_cases {a : WorkAct W} {s s' : WorkSys W} (hs : WorkSys.step a s = some s') :
    (∃ ok, a = .probe ok ∧ s.probeStep ok = some s') ∨
      (Moved s s' a ∧ s'.probe = s.probe ∧ s'.bound = s.bound) := by
  cases a with
  | probe ok => exact .inl ⟨ok, rfl, hs⟩
  | queue w =>
    obtain rfl := Option.some.inj hs
    refine .inr ⟨.queue w rfl rfl (fun h => ?_) (fun h => ?_) rfl rfl rfl, rfl, rfl⟩
    · simp [h]
    · simp [List.isEmpty_iff, h]
  | raise =>
    simp only [WorkSys.step] at hs
    cases hr : s.raising with
    | zero =>
      rw [hr] at hs
      exact absurd hs (by simp)
    | succ n =>
      rw [hr] at hs
      obtain rfl := Option.some.inj hs
      exact .inr ⟨.raise hr rfl rfl rfl rfl rfl, rfl, rfl⟩
  | enter =>
    simp only [WorkSys.step] at hs
    cases hh : s.handler with
    | idle =>
      rw [hh] at hs
      by_cases hf : s.clic.fires = true
      · rw [if_pos hf] at hs
        obtain rfl := Option.some.inj hs
        exact .inr ⟨.enter hh hf rfl rfl rfl rfl rfl rfl, rfl, rfl⟩
      · rw [if_neg hf] at hs
        exact absurd hs (by simp)
    | entered | cleared | running =>
      rw [hh] at hs
      exact absurd hs (by simp)
  | clear =>
    simp only [WorkSys.step] at hs
    cases hh : s.handler with
    | entered =>
      rw [hh] at hs
      obtain rfl := Option.some.inj hs
      exact .inr ⟨.clear hh rfl rfl rfl rfl rfl rfl, rfl, rfl⟩
    | idle | cleared | running =>
      rw [hh] at hs
      exact absurd hs (by simp)
  | take =>
    simp only [WorkSys.step] at hs
    cases hh : s.handler with
    | cleared =>
      rw [hh] at hs
      obtain rfl := Option.some.inj hs
      exact .inr ⟨.take hh rfl rfl rfl rfl rfl rfl, rfl, rfl⟩
    | idle | entered | running =>
      rw [hh] at hs
      exact absurd hs (by simp)
  | item =>
    simp only [WorkSys.step] at hs
    cases hh : s.handler with
    | running batch =>
      rw [hh] at hs
      cases batch with
      | nil =>
        obtain rfl := Option.some.inj hs
        exact .inr ⟨.leave hh rfl rfl rfl rfl rfl rfl, rfl, rfl⟩
      | cons w ws =>
        obtain rfl := Option.some.inj hs
        exact .inr ⟨.run w ws hh rfl rfl rfl rfl rfl rfl, rfl, rfl⟩
    | idle | entered | cleared =>
      rw [hh] at hs
      exact absurd hs (by simp)

/-! ## No work is left behind -/

/-- The list behind the pending bit of input 16. -/
def WorkSys.notice (s : WorkSys W) : Notice where
  work := s.probe = .done ∧ s.list ≠ []
  owed := 0 < s.raising
  rung := (s.clic.inputs irqWorkId).ip = 1
  taking := s.handler = .cleared

/-- What holds in every state. -/
structure WorkInv (s : WorkSys W) : Prop where
  input : Input16 s
  noticed : s.notice.Inv
  once : s.queued.Perm (s.ran ++ (s.batch ++ s.list))

theorem WorkInv.init {s : WorkSys W} (h : (workSys W).init s) : WorkInv s := by
  obtain ⟨⟨c, hc⟩, -, hp, hl, -, hh, hq, hr⟩ := h
  refine ⟨⟨?_, fun hreq => absurd hreq (by simp [hp, ProbePc.requested]), fun hn => absurd hp hn⟩,
    Notice.Inv.of_idle fun hw => hw.2 hl, ?_⟩
  · rw [hc, Input.sMode, timerInit_inputs c (Nat.le_refl _) (by decide)]
    rfl
  · rw [hq, hr, hl, WorkSys.batch, hh]
    exact List.Perm.refl _

theorem WorkInv.probeStep {s s' : WorkSys W} {ok : Bool} (h : WorkInv s)
    (hs : s.probeStep ok = some s') : WorkInv s' := by
  have hin := h.input.probeStep hs
  have hrest : s'.list = s.list ∧ s'.queued = s.queued ∧ s'.ran = s.ran ∧
      s'.handler = s.handler ∧ (s'.probe = .done → (s'.clic.inputs irqWorkId).ip = 1) := by
    unfold WorkSys.probeStep at hs
    cases hp : s.probe with
    | raise =>
      rw [hp] at hs
      obtain rfl := Option.some.inj hs
      refine ⟨rfl, rfl, rfl, rfl, fun _ => ?_⟩
      rw [setIp_self h.input.mode]
    | request =>
      rw [hp] at hs
      obtain rfl := Option.some.inj hs
      cases ok <;> exact ⟨rfl, rfl, rfl, rfl, fun hd => absurd hd (by simp)⟩
    | initCpu | setup =>
      rw [hp] at hs
      obtain rfl := Option.some.inj hs
      exact ⟨rfl, rfl, rfl, rfl, fun hd => absurd hd (by simp)⟩
    | done | failed =>
      rw [hp] at hs
      exact absurd hs (by simp)
  obtain ⟨hl, hq, hr, hh, hip⟩ := hrest
  refine ⟨hin, fun hw => .inr (.inl (hip hw.1)), ?_⟩
  have hb : s'.batch = s.batch := by
    unfold WorkSys.batch
    rw [hh]
  rw [hl, hq, hr, hb]
  exact h.once

/-- A raise behind the probe sets the pending bit. -/
theorem raise_ip {s : WorkSys W} (h : Input16 s) (hd : s.probe = .done) :
    ((archIrqWorkRaise s.bound s.clic).inputs irqWorkId).ip = 1 := by
  have hb : s.bound = true := h.bound (by simp [hd])
  rw [archIrqWorkRaise, if_pos hb, setIp_self h.mode]

theorem WorkInv.moved {s s' : WorkSys W} {a : WorkAct W} (h : WorkInv s) (hm : Moved s s' a)
    (hp : s'.probe = s.probe) (hb : s'.bound = s.bound) : WorkInv s' := by
  have hwork : s'.list = s.list → s'.notice.work → s.notice.work := by
    intro hl hw
    exact ⟨hp ▸ hw.1, hl ▸ hw.2⟩
  cases hm with
  | queue w hl hq hr0 hr1 hc hh hran =>
    refine ⟨h.input.same hc hp hb, h.noticed.step ?_, ?_⟩
    · by_cases he : s.list = []
      · exact .publish (by simp [WorkSys.notice, hr0 he])
      · exact .keep (fun hw => ⟨hp ▸ hw.1, he⟩)
          (fun ho => by simpa [WorkSys.notice, hr1 he] using ho)
          (fun hi => by simpa [WorkSys.notice, hc] using hi)
          (fun ht => by simpa [WorkSys.notice, hh] using ht)
    · have hbatch : s'.batch = s.batch := by
        unfold WorkSys.batch
        rw [hh]
      rw [hq, hran, hl, hbatch, ← List.append_assoc]
      refine (h.once.cons w).trans ?_
      rw [← List.append_assoc]
      exact List.perm_middle.symm
  | raise hr hc hl hq hh hran =>
    have hin : Input16 s' := by
      cases hbd : s.bound with
      | true => exact h.input.ip 1 (by rw [hc, archIrqWorkRaise, if_pos hbd]) hp hb
      | false => exact h.input.same (by rw [hc, archIrqWorkRaise, hbd]; rfl) hp hb
    refine ⟨hin, h.noticed.step ?_, ?_⟩
    · by_cases hd : s.probe = .done
      · refine .ring ?_
        simp only [WorkSys.notice, hc]
        exact raise_ip h.input hd
      · exact .take fun hw => hd (hp ▸ hw.1)
    · have hbatch : s'.batch = s.batch := by
        unfold WorkSys.batch
        rw [hh]
      rw [hq, hran, hl, hbatch]
      exact h.once
  | enter hi hf hh hl hq hr hc hran =>
    refine ⟨h.input.same hc hp hb, h.noticed.step (.keep (hwork hl)
      (fun ho => by simpa [WorkSys.notice, hr] using ho)
      (fun hip => by simpa [WorkSys.notice, hc] using hip)
      (fun ht => absurd ht (by simp [WorkSys.notice, hi]))), ?_⟩
    have hbatch : s'.batch = s.batch := by
      unfold WorkSys.batch
      rw [hh, hi]
    rw [hq, hran, hl, hbatch]
    exact h.once
  | clear he hh hc hl hq hr hran =>
    refine ⟨h.input.ip 0 hc hp hb, h.noticed.step (.clear hh), ?_⟩
    have hbatch : s'.batch = s.batch := by
      unfold WorkSys.batch
      rw [hh, he]
    rw [hq, hran, hl, hbatch]
    exact h.once
  | take hcl hh hl hq hr hc hran =>
    refine ⟨h.input.same hc hp hb, h.noticed.step (.take fun hw => hw.2 hl), ?_⟩
    have hb0 : s.batch = [] := by
      unfold WorkSys.batch
      rw [hcl]
    have hb1 : s'.batch = s.list := by
      unfold WorkSys.batch
      rw [hh]
    rw [hq, hran, hl, hb1, List.append_nil]
    have ho := h.once
    rwa [hb0, List.nil_append] at ho
  | run w ws hr0 hh hran hl hq hr hc =>
    refine ⟨h.input.same hc hp hb, h.noticed.step (.keep (hwork hl)
      (fun ho => by simpa [WorkSys.notice, hr] using ho)
      (fun hip => by simpa [WorkSys.notice, hc] using hip)
      (fun ht => absurd ht (by simp [WorkSys.notice, hr0]))), ?_⟩
    have hb0 : s.batch = w :: ws := by
      unfold WorkSys.batch
      rw [hr0]
    have hb1 : s'.batch = ws := by
      unfold WorkSys.batch
      rw [hh]
    rw [hq, hran, hl, hb1]
    have ho := h.once
    rw [hb0, List.cons_append] at ho
    exact ho.trans List.perm_middle
  | leave hr0 hh hran hl hq hr hc =>
    refine ⟨h.input.same hc hp hb, h.noticed.step (.keep (hwork hl)
      (fun ho => by simpa [WorkSys.notice, hr] using ho)
      (fun hip => by simpa [WorkSys.notice, hc] using hip)
      (fun ht => absurd ht (by simp [WorkSys.notice, hr0]))), ?_⟩
    have hbatch : s'.batch = s.batch := by
      unfold WorkSys.batch
      rw [hh, hr0]
    rw [hq, hran, hl, hbatch]
    exact h.once

theorem workInv_of_reach {s : WorkSys W} (hr : (workSys W).Reach s) : WorkInv s :=
  hr.invariant (fun _ h => .init h) fun _ _ _ _ h _ hs => by
    rcases step_cases hs with ⟨ok, -, hp⟩ | ⟨hm, hp, hb⟩
    · exact h.probeStep hp
    · exact h.moved hm hp hb

/-- **Queued work is noticed.** Behind the probe, a context is about to raise the work, or its
interrupt is pending, or the handler is about to take it. -/
theorem irq_work_noticed {s : WorkSys W} (hr : (workSys W).Reach s) (hd : s.probe = .done)
    (hl : s.list ≠ []) :
    0 < s.raising ∨ (s.clic.inputs irqWorkId).ip = 1 ∨ s.handler = .cleared :=
  (workInv_of_reach hr).noticed ⟨hd, hl⟩

/-! ## The work gets done -/

instance (a : WorkAct W) (s : WorkSys W) : Decidable (WorkAct.Internal a s) := by
  cases a <;> unfold WorkAct.Internal <;> infer_instance

namespace WorkSys

/-- What the handler has still to do. -/
def handlerLeft (s : WorkSys W) : Nat :=
  match s.handler with
  | .idle => if (s.clic.inputs irqWorkId).ip = 1 then 5 else 0
  | .entered => 4
  | .cleared => 3 + if (s.clic.inputs irqWorkId).ip = 1 then 5 else 0
  | .running ws => 1 + ws.length + if (s.clic.inputs irqWorkId).ip = 1 then 5 else 0

/-- A bound on the internal steps that are left. -/
def stepsLeft (s : WorkSys W) : Nat := 6 * s.raising + 2 * s.list.length + s.handlerLeft

end WorkSys

theorem handlerLeft_raise {s s' : WorkSys W} (hh : s'.handler = s.handler) :
    s'.handlerLeft ≤ s.handlerLeft + 5 := by
  have hite : ∀ p q : Prop, [Decidable p] → [Decidable q] →
      (if p then 5 else 0) ≤ (if q then 5 else 0) + 5 := by
    intro p q _ _
    split <;> split <;> omega
  have h := hite ((s'.clic.inputs irqWorkId).ip = 1) ((s.clic.inputs irqWorkId).ip = 1)
  unfold WorkSys.handlerLeft
  rw [hh]
  cases s.handler with
  | idle => exact h
  | entered => exact Nat.le_add_right ..
  | cleared =>
    simp only
    omega
  | running ws =>
    simp only
    omega

/-- An internal step leaves less to do. -/
theorem stepsLeft_step {a : WorkAct W} {s s' : WorkSys W} (h : Input16 s) (ha : a.Internal s)
    (hs : WorkSys.step a s = some s') : s'.stepsLeft + 1 ≤ s.stepsLeft := by
  rcases step_cases hs with ⟨ok, rfl, -⟩ | ⟨hm, -, -⟩
  · exact absurd ha (by simp [WorkAct.Internal])
  unfold WorkSys.stepsLeft
  cases hm with
  | queue => exact absurd ha (by simp [WorkAct.Internal])
  | raise hr _ hl _ hh _ =>
    have := handlerLeft_raise hh
    rw [hl, hr]
    omega
  | enter hi hf hh hl _ hr hc _ =>
    have hip : (s.clic.inputs irqWorkId).ip = 1 := by
      simp only [Clic.fires, Bool.and_eq_true, decide_eq_true_eq] at hf
      exact hf.1.2
    simp only [WorkSys.handlerLeft, hi, hh, hl, hr, hip, if_true]
    omega
  | clear he hh hc hl _ hr _ =>
    simp only [WorkSys.handlerLeft, he, hh, hl, hr, hc, setIp_self h.mode]
    exact Nat.le_refl _
  | take hcl hh hl _ hr hc _ =>
    simp only [WorkSys.handlerLeft, hcl, hh, hl, hr, hc, List.length_nil]
    omega
  | run w ws hr0 hh _ hl _ hr hc =>
    simp only [WorkSys.handlerLeft, hr0, hh, hl, hr, hc, List.length_cons]
    omega
  | leave hr0 hh _ hl _ hr hc =>
    simp only [WorkSys.handlerLeft, hr0, hh, hl, hr, hc, List.length_nil]
    omega

/-- Where no internal step is possible, nothing is queued, taken or owed. -/
theorem rest_of_stuck {s : WorkSys W} (h : WorkInv s) (hd : s.probe = .done)
    (hstuck : ∀ a, WorkAct.Internal a s → WorkSys.step a s = none) :
    s.list = [] ∧ s.batch = [] := by
  have hraise : s.raising = 0 := by
    have hn := hstuck .raise trivial
    simp only [WorkSys.step] at hn
    cases hr : s.raising with
    | zero => rfl
    | succ n =>
      rw [hr] at hn
      exact absurd hn (by simp)
  have hidle : s.handler = .idle ∧ ¬ s.clic.fires = true := by
    cases hh : s.handler with
    | idle =>
      refine ⟨rfl, fun hf => ?_⟩
      have hn := hstuck .enter trivial
      simp only [WorkSys.step, hh, hf, if_true] at hn
      exact absurd hn (by simp)
    | entered =>
      have hn := hstuck .clear trivial
      simp only [WorkSys.step, hh] at hn
      exact absurd hn (by simp)
    | cleared =>
      have hn := hstuck .take trivial
      simp only [WorkSys.step, hh] at hn
      exact absurd hn (by simp)
    | running batch =>
      have hn := hstuck .item trivial
      cases batch with
      | nil =>
        simp only [WorkSys.step, hh] at hn
        exact absurd hn (by simp)
      | cons w ws =>
        simp only [WorkSys.step, hh] at hn
        exact absurd hn (by simp)
  obtain ⟨hi, hf⟩ := hidle
  refine ⟨?_, by unfold WorkSys.batch; rw [hi]⟩
  by_contra hl
  rcases h.noticed ⟨hd, hl⟩ with ho | hip | ht
  · exact absurd hraise (Nat.pos_iff_ne_zero.mp ho)
  · refine hf ?_
    have hie := h.input.on (by rw [hd]; rfl)
    have hip' : (s.clic.inputs irqWorkId).ip = 1 := hip
    simp [Clic.fires, h.input.mode, hie, hip']
  · rw [show s.handler = .cleared from ht] at hi
    exact absurd hi (by simp)

/-- **The work gets done.** Behind the probe and without new work, the contexts and the handler take
a bounded number of steps, and where they can take no more, everything that was queued has run, each
item once. -/
theorem irq_work_drains {s s' : WorkSys W} (hr : (workSys W).Reach s) (hd : s.probe = .done)
    {as : List (WorkAct W)} (h : (workSys W).runWith WorkAct.Internal as s = some s') :
    as.length ≤ s.stepsLeft ∧
      ((∀ a, WorkAct.Internal a s' → (workSys W).step a s' = none) →
        s'.queued.Perm s'.ran) := by
  have hstep : ∀ a (s s' : WorkSys W), WorkInv s ∧ s.probe = .done → WorkAct.Internal a s →
      WorkSys.step a s = some s' →
      (WorkInv s' ∧ s'.probe = .done) ∧ s'.stepsLeft + 1 ≤ s.stepsLeft := by
    intro a s s' hi ha hs
    refine ⟨?_, stepsLeft_step hi.1.input ha hs⟩
    rcases step_cases hs with ⟨ok, rfl, -⟩ | ⟨hm, hp, hb⟩
    · exact absurd ha (by simp [WorkAct.Internal])
    · exact ⟨hi.1.moved hm hp hb, hp.trans hi.2⟩
  obtain ⟨hlen, hinv, hd'⟩ := Machine.runWith_bounded hstep ⟨workInv_of_reach hr, hd⟩ h
  refine ⟨hlen, fun hstuck => ?_⟩
  obtain ⟨hl, hb⟩ := rest_of_stuck hinv hd' hstuck
  simpa [hl, hb] using hinv.once

/-- A work item that is queued right behind the probe. -/
def workExample : List (WorkAct Nat) :=
  [.probe true, .queue 7, .raise, .probe true, .probe true, .probe true, .queue 8]

def workExampleStart : WorkSys Nat where
  clic := Sbi.timerInit ⟨fun _ => ⟨0, 0, 0, 0⟩, fun _ => 0, 0⟩
  bound := false
  probe := .initCpu
  list := []
  raising := 0
  handler := .idle
  queued := []
  ran := []

theorem workExample_some : ((workSys Nat).run workExample workExampleStart).isSome = true := rfl

theorem workExample_reach : (workSys Nat).Reach
    (((workSys Nat).run workExample workExampleStart).get workExample_some) :=
  Machine.Reach.run (.init ⟨⟨_, rfl⟩, rfl, rfl, rfl, rfl, rfl, rfl, rfl⟩) (Option.some_get _).symm

theorem irq_work_noticed_probe :
    let s := ((workSys Nat).run workExample workExampleStart).get workExample_some
    0 < s.raising ∨ (s.clic.inputs irqWorkId).ip = 1 ∨ s.handler = .cleared :=
  irq_work_noticed workExample_reach rfl (by simp [workExample, Machine.run, Machine.runWith,
    workSys, WorkSys.step, WorkSys.probeStep])

/-- The handler that runs them. -/
def workExampleRun : List (WorkAct Nat) := [.enter, .clear, .take, .item, .item, .item]

theorem workExampleRun_some : (((workSys Nat).run workExample workExampleStart).bind
    ((workSys Nat).runWith WorkAct.Internal workExampleRun)).isSome = true := by
  decide +kernel

theorem irq_work_drains_probe : ∃ s s', (workSys Nat).run workExample workExampleStart = some s ∧
    (workSys Nat).runWith WorkAct.Internal workExampleRun s = some s' ∧
    workExampleRun.length ≤ s.stepsLeft ∧
      ((∀ a, WorkAct.Internal a s' → (workSys Nat).step a s' = none) → s'.queued.Perm s'.ran) := by
  obtain ⟨s', hs'⟩ := Option.isSome_iff_exists.mp workExampleRun_some
  obtain ⟨s, hs, h⟩ := Option.bind_eq_some_iff.mp hs'
  have hr : (workSys Nat).Reach s :=
    Machine.Reach.run (.init ⟨⟨_, rfl⟩, rfl, rfl, rfl, rfl, rfl, rfl, rfl⟩) hs
  have hd : s.probe = .done := by
    obtain rfl := Option.some.inj hs
    rfl
  exact ⟨s, s', hs, h, irq_work_drains hr hd h⟩

end Esp32S31.Irq
