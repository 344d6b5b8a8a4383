import Esp32S31.I2c.Lockstep

/-!
# A failed transfer leaves nothing behind

Between two calls the driver touches no buffer; a call returns the number of its messages when
nothing has gone wrong in it, and then it has done the whole transaction, and else an error; and the
next call runs as it would on a fresh controller.

Something has gone wrong also when the wait gives up while the handler completes the transfer: every
byte is transferred, and the call returns `-ETIMEDOUT` (`i2c_timeout_race`).
-/

namespace Esp32S31.I2c

open Esp32S31.Lib Esp32s31I2c

/-- A thread is at a step that may read or write the buffer of a message. -/
def Sys.usesBuffers (s : Sys) : Bool :=
  (match s.pc with
    | .fill _ => true
    | _ => false) ||
  match s.irq with
  | .drain _ _ _ | .fill _ => true
  | _ => false

section

variable {slave : Slave} {s s' : Sys}

/-- Between two calls only the handler moves, and finds nothing. -/
theorem Sys.Inv.idle_step (h : s.Inv slave) {ret : Option Int} (hpc : s.pc = .idle ret) {a : Act}
    (ha : ∀ msgs, a ≠ .call msgs) (hs : sysStep slave a s = some s') :
    ∃ p : IrqPc, p.alone = true ∧ s' = { s with irq := p } := by
  obtain ⟨hfsm, halone, hstatus, -, -⟩ := h.before (by rw [hpc]; exact Nat.zero_lt_succ 3)
  cases a with
  | call msgs => exact absurd rfl (ha msgs)
  | xfer =>
    have hs : s.xferStep = some s' := hs
    unfold Sys.xferStep at hs
    simp only [hpc] at hs
    cases hs
  | woken =>
    obtain ⟨⟨hw, -⟩, -⟩ := Option.ite_none_right_eq_some.mp (show s.woken = some s' from hs)
    exact absurd (hpc.symm.trans hw) nofun
  | expire =>
    obtain ⟨⟨hw, -⟩, -⟩ := Option.ite_none_right_eq_some.mp (show s.expire = some s' from hs)
    exact absurd (hpc.symm.trans hw) nofun
  | enter =>
    obtain ⟨-, hs⟩ := Option.ite_none_right_eq_some.mp (show s.enter = some s' from hs)
    exact ⟨.status, rfl, (Option.some.inj hs).symm⟩
  | irq => exact ⟨.out, rfl, irqStep_quiet hs halone hstatus⟩
  | tick =>
    obtain ⟨⟨i, j, hrun⟩, -⟩ := tick_frame (show s.tick slave = some s' from hs)
    exact absurd (hfsm.symm.trans hrun) nofun
  | fail bits stops =>
    obtain ⟨hrun, -⟩ := fail_cases (show s.fail bits stops = some s' from hs)
    rw [hfsm] at hrun
    simp at hrun
  | stray bits =>
    obtain ⟨hf, -⟩ := Option.ite_none_right_eq_some.mp (show s.stray bits = some s' from hs)
    exact absurd (hfsm.symm.trans hf) nofun

/-- Neither thread uses a buffer while there is no call. -/
theorem usesBuffers_idle {ret : Option Int} (hpc : s.pc = .idle ret) (h : s.irq.alone = true) :
    s.usesBuffers = false := by
  unfold Sys.usesBuffers
  rw [hpc]
  cases hi : s.irq with
  | out | status => rfl
  | _ =>
    rw [hi] at h
    cases h

/-- **Between two calls** no buffer is used. -/
theorem Sys.Inv.idle_run {ret : Option Int} (as : List Act) : ∀ {s : Sys}, s.Inv slave →
    s.pc = .idle ret → (∀ a ∈ as, ∀ msgs, a ≠ .call msgs) → (system slave).run as s = some s' →
    s'.usesBuffers = false ∧ s'.drv = s.drv ∧ s'.pc = .idle ret := by
  induction as with
  | nil =>
    intro s h hpc _ hs
    obtain rfl := Option.some.inj hs
    exact ⟨usesBuffers_idle hpc (h.alone (by rw [hpc]; rfl)), rfl, hpc⟩
  | cons a as ih =>
    intro s h hpc ha hs
    unfold Machine.run Machine.runWith at hs
    rw [if_pos trivial] at hs
    obtain ⟨s₁, h₁, h₂⟩ := Option.bind_eq_some_iff.mp hs
    obtain ⟨p, -, rfl⟩ := h.idle_step hpc (ha a List.mem_cons_self) h₁
    have h' : Sys.Inv slave { s with irq := p } := h.step (a := a) h₁
    have hrest := ih h' hpc (fun b hb => ha b (List.mem_cons_of_mem a hb)) h₂
    exact hrest

end

/-- **A failed transfer leaves nothing behind.** After a call, however it went: until the next one
no buffer is read or written; the result is the number of the messages when neither the controller
has reported an error nor the wait has given up, and then the whole transaction is done, and else an
error; and the next call, whatever happens in it and behind it, shows the same as on a fresh
controller. -/
theorem i2c_isolation (slave : Slave) {s : Sys} {ret : Option Int} (hr : (system slave).Reach s)
    (hpc : s.pc = .idle ret) :
    (∀ as s', (∀ a ∈ as, ∀ msgs, a ≠ .call msgs) → (system slave).run as s = some s' →
      s'.usesBuffers = false ∧ s'.drv = s.drv ∧ s'.pc = .idle ret) ∧
    (∀ r, ret = some r → s.xfer.Result slave s.drv r) ∧
    ∀ msgs as, ((system slave).run (.call msgs :: as) s).map Sys.view =
      ((system slave).run (.call msgs :: as)
        { Sys.initialised s.drv.mem s.drv.base.bus with irq := s.irq }).map Sys.view := by
  have hi : s.Inv slave := inv_reach hr
  have hphase := hi.phase
  unfold Sys.Phase at hphase
  simp only [hpc] at hphase
  obtain ⟨hready, hresult⟩ := hphase
  have halone := hi.alone (by rw [hpc]; rfl)
  refine ⟨fun as s' ha hs => hi.idle_run as hpc ha hs, hresult, fun msgs as => ?_⟩
  -- whatever the last call returned, the next one begins alike
  generalize ht : ({ Sys.initialised s.drv.mem s.drv.base.bus with irq := s.irq } : Sys) = t
  have hit : t.Inv slave := ht ▸ inv_initialised s.drv.mem s.drv.base.bus s.irq halone
  obtain ⟨s', t', hs', ht', halike⟩ : ∃ s' t', s.call msgs = some s' ∧ t.call msgs = some t' ∧
      Alike s' t' := by
    subst ht
    exact call_alike msgs hpc rfl rfl (hi.off (by rw [hpc]; rfl)).symm hready.idle.symm
      hready.configured.symm rfl rfl
  have hrun := halike.run as (hi.step (a := .call msgs) hs') (hit.step (a := .call msgs) ht')
  unfold Machine.run Machine.runWith
  rw [if_pos trivial, if_pos trivial, show (system slave).step (.call msgs) s = some s' from hs',
    show (system slave).step (.call msgs) t = some t' from ht']
  exact hrun

/-! ## The wait gives up while the handler completes the transfer -/

/-- A slave that sends its place on the bus. -/
def countingSlave : Slave := fun bus => .ofNat bus.length

/-- A read of one byte: the list runs to its STOP, the wait gives up, and only then the handler
drains the FIFO. -/
def raceRun : List Act :=
  .call [⟨0x48, 1, 1⟩] :: List.replicate 8 .xfer ++ List.replicate 6 .tick ++ [.expire, .enter] ++
    List.replicate 8 .irq ++ List.replicate 13 .xfer

/-- Of that run: the call has failed, and every byte of its message is transferred. -/
theorem race_run : ∃ s, (system countingSlave).run raceRun
    (.initialised (fun _ _ => 0) []) = some s ∧
    s.pc = .idle (some (-etimedout)) ∧ s.xfer.msgs = [⟨0x48, 1, 1⟩] ∧ s.xfer.raised = false ∧
    (s.drv.base.bus, s.drv.mem) = reference countingSlave s.xfer.msgs (s.xfer.bus, s.xfer.mem) :=
  ⟨_, rfl, rfl, rfl, rfl, rfl⟩

/-- **A call may fail that has transferred every byte.** -/
theorem i2c_timeout_race : ∃ s, (system countingSlave).run raceRun
    (.initialised (fun _ _ => 0) []) = some s ∧
    (s.drv.base.bus, s.drv.mem) = reference countingSlave s.xfer.msgs (s.xfer.bus, s.xfer.mem) ∧
    s.pc ≠ .idle (some s.xfer.msgs.length) ∧ s.pc = .idle (some (-etimedout)) := by
  obtain ⟨s, hrun, hpc, hmsgs, -, hres⟩ := race_run
  refine ⟨s, hrun, hres, ?_, hpc⟩
  rw [hpc, hmsgs]
  decide

/-- After that call: no buffer is used, the error is that of the wait, and the next call is not
affected. -/
theorem i2c_isolation_race : ∃ s, (system countingSlave).run raceRun
    (.initialised (fun _ _ => 0) []) = some s ∧ s.xfer.expired = true ∧
    (∀ as s', (∀ a ∈ as, ∀ msgs, a ≠ .call msgs) → (system countingSlave).run as s = some s' →
      s'.usesBuffers = false ∧ s'.drv = s.drv ∧ s'.pc = .idle (some (-etimedout))) ∧
    ∀ msgs as, ((system countingSlave).run (.call msgs :: as) s).map Sys.view =
      ((system countingSlave).run (.call msgs :: as)
        { Sys.initialised s.drv.mem s.drv.base.bus with irq := s.irq }).map Sys.view := by
  obtain ⟨s, hrun, hpc, hmsgs, hraised, -⟩ := race_run
  have hinit : (system countingSlave).Reach (.initialised (fun _ _ => 0) []) := .init ⟨_, _, rfl⟩
  obtain ⟨hbuffers, hresult, hnext⟩ := i2c_isolation countingSlave (hinit.run hrun) hpc
  have hres := hresult _ rfl
  unfold Xfer.Result at hres
  rw [hmsgs, if_neg (by decide)] at hres
  rcases hres with ⟨hnum, -⟩ | ⟨-, hwhy⟩
  · exact absurd hnum (by decide)
  · exact ⟨s, hrun, hwhy.resolve_left (by rw [hraised]; nofun), hbuffers, hnext⟩

end Esp32S31.I2c
