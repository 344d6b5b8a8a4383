import Esp32S31.I2c.Stages

/-!
# Where a call is

`Phase` says what holds before each step of `esp32s31_i2c_xfer`: before the list starts, while it
waits (`Stage`), and while it ends. Outside the wait the handler has nothing to do. `Sys.Inv` is the
invariant of the system, and `inv_reach` proves it.
-/

namespace Esp32S31.I2c

open Esp32S31.Lib Esp32s31I2c

/-- What a call has returned: it has refused the messages, or it has done the reference transaction
and returned their number, or something has gone wrong and it has returned an error. -/
def Xfer.Result (slave : Slave) (x : Xfer) (d : Esp32s31I2c) (r : Int) : Prop :=
  if x.msgs.any (fun m => m.flags &&& i2cMTen ≠ 0) then r = -eopnotsupp ∧
    (d.base.bus, d.mem) = (x.bus, x.mem)
  else r = x.msgs.length ∧ x.raised = false ∧ x.expired = false ∧
      (d.base.bus, d.mem) = reference slave x.msgs (x.bus, x.mem) ∨
    r < 0 ∧ (x.raised = true ∨ x.expired = true)

/-- The controller can run a list. -/
structure Fsm.Ready (fsm : Fsm) (configured : Bool) : Prop where
  idle : fsm = .idle
  configured : configured = true

namespace Xfer

variable (x : Xfer) (d : Esp32s31I2c)

/-- Nothing has gone wrong yet, and nothing is complete. -/
structure Fresh (done : Nat) : Prop where
  raised : x.raised = false
  expired : x.expired = false
  done : done = 0

/-- The driver has the messages of the call. -/
structure Begun : Prop where
  msgs : d.msgs = x.msgs
  msg : d.msg = 0
  pos : d.pos = 0
  addressed : d.addressed = false
  err : d.err = 0
  bus : d.base.bus = x.bus
  mem : d.mem = x.mem

/-- Something has gone wrong. -/
structure Wrong : Prop where
  err : d.err < 0
  why : x.raised = true ∨ x.expired = true

/-- The transfer is done, or something has gone wrong. -/
def Ended (slave : Slave) (fsm : Fsm) : Prop :=
  (fsm = .idle ∧ x.Done slave d ∧ x.raised = false ∧ x.expired = false) ∨ x.Wrong d

end Xfer

/-- **What holds before a step of the call.** -/
def Sys.Phase (slave : Slave) (s : Sys) : Prop :=
  match s.pc with
  | .idle ret => s.fsm.Ready s.configured ∧ ∀ r, ret = some r → s.xfer.Result slave s.drv r
  | .resetFifos => s.fsm.Ready s.configured ∧ s.xfer.Fresh s.done ∧ s.xfer.Begun s.drv
  | .intClr => s.fsm.Ready s.configured ∧ s.xfer.Fresh s.done ∧ s.xfer.Between slave s.drv
  | .fillStart =>
    s.fsm.Ready s.configured ∧ s.xfer.Fresh s.done ∧ s.raw &&& intMask = 0 ∧
      s.xfer.Between slave s.drv
  | .fill b => s.fsm.Ready s.configured ∧ s.xfer.Fresh s.done ∧ s.raw &&& intMask = 0 ∧
      ∃ d, s.xfer.Between slave d ∧ s.drv.fillRest b = d.fill
  | .intEna | .start => s.fsm.Ready s.configured ∧ s.xfer.Fresh s.done ∧ s.raw &&& intMask = 0 ∧
      ∃ d, s.xfer.Between slave d ∧ s.drv = d.fill
  | .wait => s.configured = true ∧ Stage slave s ∧ s.xfer.expired = false
  | .disable | .synchronize => s.configured = true ∧ Stage slave s ∧ s.xfer.expired = true
  | .timedOut => s.configured = true ∧ s.xfer.expired = true
  | .recover => s.configured = true ∧ s.xfer.Ended s.drv slave s.fsm
  | .resetAssert => s.xfer.Wrong s.drv
  | .resetDeassert | .setTiming | .initClr | .initEna | .confUpgate =>
    s.fsm = .idle ∧ s.xfer.Wrong s.drv
  | .clearBus | .poll => s.fsm.Ready s.configured ∧ s.xfer.Wrong s.drv
  | .ret => s.fsm.Ready s.configured ∧ s.xfer.Ended s.drv slave s.fsm

/-- The handler has its part in these steps. -/
def XferPc.waits : XferPc → Bool
  | .wait | .disable | .synchronize => true
  | _ => false

/-- The interrupts may be on. -/
def XferPc.on : XferPc → Bool
  | .start | .wait | .disable => true
  | _ => false

/-- **The invariant of the system.** -/
structure Sys.Inv (slave : Slave) (s : Sys) : Prop where
  ena : s.ena = intMask ∨ s.ena = 0
  off : s.pc.on = false → s.ena = 0
  alone : s.pc.waits = false → s.irq.alone = true
  ten : (∃ ret, s.pc = .idle ret) ∨ (s.xfer.msgs.any fun m => m.flags &&& i2cMTen ≠ 0) = false
  phase : s.Phase slave

section

variable {slave : Slave} {s s' : Sys}

/-! ## Steps of the handler and the controller -/

/-- Outside the wait there is no interrupt. -/
theorem Sys.Inv.status (h : s.Inv slave) (hw : s.pc.waits = false) : s.status = 0 := by
  have hphase := h.phase
  have hoff := h.off
  unfold Sys.Phase at hphase
  cases hpc : s.pc with
  | start =>
    simp only [hpc] at hphase
    rcases status_cases h.ena with h0 | h0
    · rw [h0]
      exact hphase.2.2.1
    · exact h0
  | wait | disable | synchronize =>
    rw [hpc] at hw
    cases hw
  | _ =>
    rw [hpc] at hoff
    unfold Sys.status
    rw [hoff rfl]
    exact BitVec.and_zero

/-- Outside the wait, where the handler is does not matter. -/
theorem Sys.Phase.irq (h : s.Phase slave) (hw : s.pc.waits = false) (p : IrqPc) :
    Sys.Phase slave { s with irq := p } := by
  unfold Sys.Phase at h ⊢
  dsimp only
  cases hpc : s.pc with
  | wait | disable | synchronize =>
    rw [hpc] at hw
    cases hw
  | _ =>
    simp only [hpc] at h
    exact h

/-- Outside the wait, a controller that goes on does no harm. -/
theorem Sys.Phase.controller (h : s.Phase slave) (hw : s.pc.waits = false) (hfsm : s.fsm ≠ .idle)
    (c : Controller)
    (raw : U32) (fsm : Fsm) {raised : Bool} (hr : s.xfer.raised = true → raised = true) :
    Sys.Phase slave { s with
      drv := s.drv.ran c
      raw := raw
      fsm := fsm
      xfer := { s.xfer with raised := raised } } := by
  have wrong (h : s.xfer.Wrong s.drv) : Xfer.Wrong { s.xfer with raised := raised } (s.drv.ran c) :=
    ⟨h.err, h.why.imp_left hr⟩
  unfold Sys.Phase at h ⊢
  dsimp only
  cases hpc : s.pc with
  | wait | disable | synchronize =>
    rw [hpc] at hw
    cases hw
  | timedOut =>
    simp only [hpc] at h
    exact h
  | recover =>
    simp only [hpc] at h
    obtain ⟨hconf, ⟨hidle, -⟩ | h⟩ := h
    · exact absurd hidle hfsm
    · exact ⟨hconf, Or.inr (wrong h)⟩
  | resetAssert =>
    simp only [hpc] at h
    exact wrong h
  | resetDeassert | setTiming | initClr | initEna | confUpgate =>
    simp only [hpc] at h
    exact absurd h.1 hfsm
  | _ =>
    simp only [hpc] at h
    exact absurd h.1.idle hfsm

/-- In the wait, the handler and the controller are at a stage. -/
theorem Sys.Phase.stage (h : s.Phase slave) (hw : s.pc.waits = true) : Stage slave s := by
  unfold Sys.Phase at h
  cases hpc : s.pc with
  | wait | disable | synchronize =>
    simp only [hpc] at h
    exact h.2.1
  | _ =>
    rw [hpc] at hw
    cases hw

/-- In the wait, the next stage is all that is left to show. -/
theorem Sys.Phase.of_stage (h : s.Phase slave) (hw : s.pc.waits = true) (hpc : s'.pc = s.pc)
    (hconf : s'.configured = s.configured) (hexp : s'.xfer.expired = s.xfer.expired)
    (hs : Stage slave s') : s'.Phase slave := by
  unfold Sys.Phase at h ⊢
  rw [hpc]
  cases hp : s.pc with
  | wait | disable | synchronize =>
    simp only [hp] at h
    exact ⟨hconf.trans h.1, hs, hexp.trans h.2.2⟩
  | _ =>
    rw [hp] at hw
    cases hw

theorem Sys.Inv.enter (h : s.Inv slave) (hs : s.enter = some s') : s'.Inv slave := by
  have hstep := hs
  unfold Sys.enter at hs
  obtain ⟨-, hs⟩ := Option.ite_none_right_eq_some.mp hs
  obtain rfl := Option.some.inj hs
  refine ⟨h.ena, h.off, fun _ => rfl, h.ten, ?_⟩
  cases hw : s.pc.waits with
  | false => exact h.phase.irq hw .status
  | true => exact h.phase.of_stage hw rfl rfl rfl ((h.phase.stage hw).enter hstep)

/-- What a step of the handler leaves alone. -/
theorem irqStep_frame (hs : s.irqStep = some s') :
    s'.pc = s.pc ∧ s'.configured = s.configured ∧ s'.xfer = s.xfer ∧
      (s'.ena = s.ena ∨ s'.ena = 0) := by
  rcases irqStep_cases hs with ⟨-, rfl⟩ | ⟨st, -, rfl⟩ | ⟨st, -, rfl⟩ | ⟨-, d, p, rfl, -⟩ | ⟨-,
    rfl⟩ | ⟨-, rfl⟩ | ⟨-, rfl⟩
  · exact ⟨rfl, rfl, rfl, Or.inl rfl⟩
  · exact ⟨rfl, rfl, rfl, Or.inl rfl⟩
  · exact ⟨rfl, rfl, rfl, Or.inl rfl⟩
  · exact ⟨rfl, rfl, rfl, Or.inl rfl⟩
  · exact ⟨rfl, rfl, rfl, Or.inl rfl⟩
  · exact ⟨rfl, rfl, rfl, Or.inr rfl⟩
  · exact ⟨rfl, rfl, rfl, Or.inl rfl⟩

theorem Sys.Inv.irq (h : s.Inv slave) (hs : s.irqStep = some s') : s'.Inv slave := by
  cases hw : s.pc.waits with
  | false =>
    obtain rfl := irqStep_quiet hs (h.alone hw) (h.status hw)
    exact ⟨h.ena, h.off, fun _ => rfl, h.ten, h.phase.irq hw .out⟩
  | true =>
    obtain ⟨hpc, hconf, hxfer, hena⟩ := irqStep_frame hs
    have hphase := h.phase.of_stage hw hpc hconf (congrArg Xfer.expired hxfer)
      ((h.phase.stage hw).irq h.ena hs)
    refine ⟨?_, fun hon => ?_, fun hw' => ?_, by rw [hpc, hxfer]; exact h.ten, hphase⟩
    · rcases hena with he | he
      · rw [he]
        exact h.ena
      · exact Or.inr he
    · rcases hena with he | he
      · rw [he]
        exact h.off (hpc ▸ hon)
      · exact he
    · rw [hpc, hw] at hw'
      cases hw'

theorem Sys.Inv.tick (h : s.Inv slave) (hs : s.tick slave = some s') : s'.Inv slave := by
  obtain ⟨⟨i, j, hfsm⟩, c, bits, fsm, rfl⟩ := tick_frame hs
  refine ⟨h.ena, h.off, h.alone, h.ten, ?_⟩
  cases hw : s.pc.waits with
  | false => exact h.phase.controller hw (by rw [hfsm]; nofun) c _ fsm fun hr => hr
  | true => exact h.phase.of_stage hw rfl rfl rfl ((h.phase.stage hw).tick hs)

theorem Sys.Inv.fail {bits : U32} {stops : Bool} (h : s.Inv slave)
    (hs : s.fail bits stops = some s') : s'.Inv slave := by
  obtain ⟨hfsm, -, rfl⟩ := fail_cases hs
  refine ⟨h.ena, h.off, h.alone, h.ten, ?_⟩
  cases hw : s.pc.waits with
  | false =>
    refine h.phase.controller hw ?_ s.drv.base _ _ fun _ => rfl
    intro h0
    rw [h0] at hfsm
    simp at hfsm
  | true => exact h.phase.of_stage hw rfl rfl rfl ((h.phase.stage hw).fail hs)

theorem Sys.Inv.stray {bits : U32} (h : s.Inv slave) (hs : s.stray bits = some s') :
    s'.Inv slave := by
  have hstep := hs
  unfold Sys.stray at hs
  obtain ⟨hfsm, hs⟩ := Option.ite_none_right_eq_some.mp hs
  obtain rfl := Option.some.inj hs
  refine ⟨h.ena, h.off, h.alone, h.ten, ?_⟩
  cases hw : s.pc.waits with
  | false => exact h.phase.controller hw (by rw [hfsm]; nofun) s.drv.base _ s.fsm fun hr => hr
  | true => exact h.phase.of_stage hw rfl rfl rfl ((h.phase.stage hw).stray hstep)

/-! ## Steps of the call -/

theorem Sys.Inv.woken (h : s.Inv slave) (hs : s.woken = some s') : s'.Inv slave := by
  unfold Sys.woken at hs
  obtain ⟨⟨hpc, hd⟩, hs⟩ := Option.ite_none_right_eq_some.mp hs
  obtain rfl := Option.some.inj hs
  have hphase := h.phase
  unfold Sys.Phase at hphase
  simp only [hpc] at hphase
  obtain ⟨hconf, hstage, hexp⟩ := hphase
  obtain ⟨halone, hena, -, hend⟩ := hstage.completed hd
  have hten := h.ten.resolve_left fun ⟨ret, hret⟩ => nomatch hpc.symm.trans hret
  refine ⟨Or.inr hena, fun _ => hena, fun _ => halone, Or.inr hten, hconf, ?_⟩
  rcases hend with ⟨hfsm, hdone, hraised⟩ | ⟨herr, hraised⟩
  · exact Or.inl ⟨hfsm, hdone, hraised, hexp⟩
  · exact Or.inr ⟨herr, Or.inl hraised⟩

theorem Sys.Inv.expire (h : s.Inv slave) (hs : s.expire = some s') : s'.Inv slave := by
  unfold Sys.expire at hs
  obtain ⟨⟨hpc, -⟩, hs⟩ := Option.ite_none_right_eq_some.mp hs
  obtain rfl := Option.some.inj hs
  have hphase := h.phase
  unfold Sys.Phase at hphase
  simp only [hpc] at hphase
  obtain ⟨hconf, hstage, -⟩ := hphase
  have hten := h.ten.resolve_left fun ⟨ret, hret⟩ => nomatch hpc.symm.trans hret
  exact ⟨h.ena, nofun, nofun, Or.inr hten, hconf, hstage.expired .disable true, rfl⟩

theorem Sys.Inv.call {msgs : List I2cMsg} (h : s.Inv slave) (hs : s.call msgs = some s') :
    s'.Inv slave := by
  unfold Sys.call at hs
  cases hpc : s.pc with
  | idle ret =>
    simp only [hpc] at hs
    have hphase := h.phase
    unfold Sys.Phase at hphase
    simp only [hpc] at hphase
    have hena : s.ena = 0 := h.off (by rw [hpc]; rfl)
    have halone := h.alone (by rw [hpc]; rfl)
    by_cases hten : (msgs.any fun m => m.flags &&& i2cMTen ≠ 0) = true
    · rw [if_pos hten] at hs
      obtain rfl := Option.some.inj hs
      refine ⟨Or.inr hena, fun _ => hena, fun _ => halone, Or.inl ⟨_, rfl⟩, hphase.1,
        fun r hr => ?_⟩
      obtain rfl := Option.some.inj hr
      exact (if_pos hten).mpr ⟨rfl, rfl⟩
    · rw [if_neg hten] at hs
      obtain rfl := Option.some.inj hs
      exact ⟨Or.inr hena, fun _ => hena, fun _ => halone, Or.inr (Bool.eq_false_iff.mpr hten),
        hphase.1, ⟨rfl, rfl, rfl⟩, ⟨rfl, rfl, rfl, rfl, rfl, rfl, rfl⟩⟩
  | _ =>
    simp only [hpc] at hs
    cases hs

/-- With empty FIFOs a call is before its first list. -/
theorem Xfer.Begun.between {x : Xfer} {d : Esp32s31I2c} (h : x.Begun d) :
    x.Between slave (d.ran { d.base with txFifo := [], rxFifo := [] }) := by
  have hp : Placed (d.ran { d.base with txFifo := [], rxFifo := [] }) := by
    unfold Placed
    rw [show (d.ran { d.base with txFifo := [], rxFifo := [] }).addressed = false from h.addressed]
    exact h.pos
  refine ⟨⟨hp, h.err, rfl, rfl, [], ?_, ?_⟩, h.msgs⟩
  · unfold rest
    rw [show (d.ran { d.base with txFifo := [], rxFifo := [] }).addressed = false from h.addressed,
      show (d.ran { d.base with txFifo := [], rxFifo := [] }).msg = 0 from h.msg]
    rfl
  · rw [← h.bus, ← h.mem]
    rfl

/-- **A step of the call.** -/
theorem Sys.Inv.xferStep (h : s.Inv slave) (hs : s.xferStep = some s') : s'.Inv slave := by
  have hphase := h.phase
  have hoff := h.off
  have halone := h.alone
  have hena := h.ena
  unfold Sys.xferStep at hs
  unfold Sys.Phase at hphase
  have hten : (∀ ret, s.pc ≠ .idle ret) →
      (s.xfer.msgs.any fun m => m.flags &&& i2cMTen ≠ 0) = false :=
    fun hne => h.ten.resolve_left fun ⟨ret, hret⟩ => hne ret hret
  cases hpc : s.pc with
  | idle ret | wait =>
    simp only [hpc] at hs
    cases hs
  | resetFifos =>
    simp only [hpc] at hs hphase hoff halone hten
    obtain rfl := Option.some.inj hs
    obtain ⟨hready, hfresh, hbegun⟩ := hphase
    exact ⟨hena, fun _ => hoff rfl, fun _ => halone rfl, Or.inr (hten nofun), hready, hfresh,
      hbegun.between⟩
  | intClr =>
    simp only [hpc] at hs hphase hoff halone hten
    obtain rfl := Option.some.inj hs
    obtain ⟨hready, hfresh, hbetween⟩ := hphase
    have hraw : s.raw &&& ~~~intMask &&& intMask = 0 := by
      rw [BitVec.and_assoc, BitVec.and_comm (~~~intMask), BitVec.and_not_self]
      exact BitVec.and_zero
    exact ⟨hena, fun _ => hoff rfl, fun _ => halone rfl, Or.inr (hten nofun), hready, hfresh, hraw,
      hbetween⟩
  | fillStart =>
    simp only [hpc] at hs hphase hoff halone hten
    obtain rfl := Option.some.inj hs
    obtain ⟨hready, hfresh, hraw, hbetween⟩ := hphase
    exact ⟨hena, fun _ => hoff rfl, fun _ => halone rfl, Or.inr (hten nofun), hready, hfresh, hraw,
      s.drv, hbetween, (fill_eq_rest s.drv).symm⟩
  | fill b =>
    simp only [hpc] at hs hphase hoff halone hten
    obtain ⟨hready, hfresh, hraw, d, hbetween, hrest⟩ := hphase
    cases ht : s.drv.fillTurn b with
    | some x =>
      simp only [ht] at hs
      obtain rfl := Option.some.inj hs
      exact ⟨hena, fun _ => hoff rfl, fun _ => halone rfl, Or.inr (hten nofun), hready, hfresh,
        hraw, d, hbetween, (fillRest_turn ht).trans hrest⟩
    | none =>
      simp only [ht] at hs
      obtain rfl := Option.some.inj hs
      exact ⟨hena, fun _ => hoff rfl, fun _ => halone rfl, Or.inr (hten nofun), hready, hfresh,
        hraw, d, hbetween, (fillRest_end ht).trans hrest⟩
  | intEna =>
    simp only [hpc] at hs hphase halone hten
    obtain rfl := Option.some.inj hs
    exact ⟨Or.inl rfl, nofun, fun _ => halone rfl, Or.inr (hten nofun), hphase⟩
  | start =>
    simp only [hpc] at hs hphase halone hten
    obtain rfl := Option.some.inj hs
    obtain ⟨hready, hfresh, hraw, d, hbetween, hdrv⟩ := hphase
    have hran : s.drv = d.fill.ran s.drv.base := by
      rw [hdrv]
      rfl
    exact ⟨hena, nofun, nofun, Or.inr (hten nofun), hready.configured,
      .running d ⟨⟨0, 0, rfl, by rw [← start_eq_rest, hdrv]⟩, halone rfl, hraw, hbetween, hran,
        hfresh.raised, hfresh.done⟩, hfresh.expired⟩
  | disable =>
    simp only [hpc] at hs hphase hten
    obtain rfl := Option.some.inj hs
    exact ⟨Or.inr rfl, fun _ => rfl, nofun, Or.inr (hten nofun), hphase.1,
      hphase.2.1.disabled .synchronize, hphase.2.2⟩
  | synchronize =>
    simp only [hpc] at hs hphase hoff hten
    obtain ⟨hi, hs⟩ := Option.ite_none_right_eq_some.mp hs
    obtain rfl := Option.some.inj hs
    refine ⟨hena, fun _ => hoff rfl, fun _ => ?_, Or.inr (hten nofun), hphase.1, hphase.2.2⟩
    exact (congrArg IrqPc.alone hi).trans rfl
  | timedOut =>
    simp only [hpc] at hs hphase hoff halone hten
    obtain rfl := Option.some.inj hs
    exact ⟨hena, fun _ => hoff rfl, fun _ => halone rfl, Or.inr (hten nofun), hphase.1,
      Or.inr ⟨show (-etimedout : Int) < 0 by decide, Or.inr hphase.2⟩⟩
  | recover =>
    simp only [hpc] at hs hphase hoff halone hten
    obtain ⟨hconf, hended⟩ := hphase
    by_cases hnack : s.drv.err = -enxio
    · rw [if_pos hnack] at hs
      obtain rfl := Option.some.inj hs
      exact ⟨hena, fun _ => hoff rfl, fun _ => halone rfl, Or.inr (hten nofun), ⟨rfl, hconf⟩,
        hended.imp_left fun h => ⟨rfl, h.2⟩⟩
    · rw [if_neg hnack] at hs
      by_cases herr : s.drv.err ≠ 0
      · rw [if_pos herr] at hs
        obtain rfl := Option.some.inj hs
        refine ⟨hena, fun _ => hoff rfl, fun _ => halone rfl, Or.inr (hten nofun), ?_⟩
        rcases hended with ⟨-, hdone, -⟩ | hwrong
        · exact absurd hdone.1 herr
        · exact hwrong
      · rw [if_neg herr] at hs
        obtain rfl := Option.some.inj hs
        refine ⟨hena, fun _ => hoff rfl, fun _ => halone rfl, Or.inr (hten nofun), ⟨?_, hconf⟩,
          hended⟩
        rcases hended with ⟨hfsm, -⟩ | hwrong
        · exact hfsm
        · exact absurd (Int.ne_of_lt hwrong.err) herr
  | resetAssert =>
    simp only [hpc] at hs hphase halone hten
    obtain rfl := Option.some.inj hs
    exact ⟨Or.inr rfl, fun _ => rfl, fun _ => halone rfl, Or.inr (hten nofun), rfl, hphase.err,
      hphase.why⟩
  | resetDeassert | setTiming | initClr =>
    simp only [hpc] at hs hphase hoff halone hten
    obtain rfl := Option.some.inj hs
    exact ⟨hena, fun _ => hoff rfl, fun _ => halone rfl, Or.inr (hten nofun), hphase⟩
  | initEna =>
    simp only [hpc] at hs hphase halone hten
    obtain rfl := Option.some.inj hs
    exact ⟨Or.inr rfl, fun _ => rfl, fun _ => halone rfl, Or.inr (hten nofun), hphase⟩
  | confUpgate =>
    simp only [hpc] at hs hphase hoff halone hten
    obtain rfl := Option.some.inj hs
    exact ⟨hena, fun _ => hoff rfl, fun _ => halone rfl, Or.inr (hten nofun), ⟨hphase.1, rfl⟩,
      hphase.2⟩
  | clearBus =>
    simp only [hpc] at hs hphase hoff halone hten
    obtain rfl := Option.some.inj hs
    exact ⟨hena, fun _ => hoff rfl, fun _ => halone rfl, Or.inr (hten nofun), hphase⟩
  | poll =>
    simp only [hpc] at hs hphase hoff halone hten
    obtain rfl := Option.some.inj hs
    exact ⟨hena, fun _ => hoff rfl, fun _ => halone rfl, Or.inr (hten nofun), hphase.1,
      Or.inr hphase.2⟩
  | ret =>
    simp only [hpc] at hs hphase hoff halone hten
    obtain rfl := Option.some.inj hs
    obtain ⟨hready, hended⟩ := hphase
    refine ⟨hena, fun _ => hoff rfl, fun _ => halone rfl, Or.inl ⟨_, rfl⟩, hready, fun r hr => ?_⟩
    obtain rfl := Option.some.inj hr
    refine (if_neg (Bool.eq_false_iff.mp (hten nofun))).mpr ?_
    rcases hended with ⟨-, hdone, hraised, hexp⟩ | hwrong
    · obtain ⟨herr, hmsgs, hres⟩ := hdone
      rw [if_neg (not_not_intro herr), hmsgs]
      exact Or.inl ⟨rfl, hraised, hexp, hres⟩
    · rw [if_pos (Int.ne_of_lt hwrong.err)]
      exact Or.inr ⟨hwrong.err, hwrong.why⟩

/-! ## The invariant -/

theorem inv_initialised (mem : MsgMem) (bus : List BusEvent) (irq : IrqPc) (h : irq.alone = true) :
    Sys.Inv slave { Sys.initialised mem bus with irq := irq } :=
  ⟨Or.inr rfl, fun _ => rfl, fun _ => h, Or.inl ⟨none, rfl⟩, ⟨rfl, rfl⟩, nofun⟩

theorem Sys.Inv.step {a : Act} (h : s.Inv slave) (hs : sysStep slave a s = some s') :
    s'.Inv slave := by
  cases a with
  | call msgs => exact h.call hs
  | xfer => exact h.xferStep hs
  | woken => exact h.woken hs
  | expire => exact h.expire hs
  | enter => exact h.enter hs
  | irq => exact h.irq hs
  | tick => exact h.tick hs
  | fail bits stops => exact h.fail hs
  | stray bits => exact h.stray hs

/-- **The invariant holds in every reachable state.** -/
theorem inv_reach (hr : (system slave).Reach s) : s.Inv slave := by
  refine hr.invariant ?_ fun a s s' _ h _ hs => h.step hs
  rintro s ⟨mem, bus, rfl⟩
  exact inv_initialised mem bus .out rfl

end

end Esp32S31.I2c
