import Esp32S31.I2c.Phases

/-!
# A call in lockstep with one on a fresh controller

Two systems between calls with the same bus and the same buffers may differ in everything that an
old transfer leaves behind: the messages and the place in them, the read list, `err`, the
completion, the FIFOs, the interrupts and the command words. `Alike` says how much of it a call has
replaced so far; `Alike.step` takes both systems through the same step.

The command words are never all replaced. A list ends with END or STOP, and the words behind it are
not read.
-/

namespace Esp32S31.I2c

open Esp32S31.Lib Esp32s31I2c

/-! ## Command words -/

/-- The words from `i` on up to an END or STOP are the same. -/
def SameList (f g : Nat → U32) (i : Nat) : Prop :=
  ∃ n, i ≤ n ∧ (∀ k, i ≤ k → k ≤ n → g k = f k) ∧ (cmdOp (f n) = opEnd ∨ cmdOp (f n) = opStop)

section Words

variable {slave : Slave} {f g : Nat → U32} {i j : Nat}

theorem SameList.symm (h : SameList f g i) : SameList g f i := by
  obtain ⟨n, hn, hsame, hop⟩ := h
  refine ⟨n, hn, fun k hk hkn => (hsame k hk hkn).symm, ?_⟩
  rw [hsame n hn (Nat.le_refl n)]
  exact hop

theorem SameList.word (h : SameList f g i) : g i = f i := by
  obtain ⟨n, hn, hsame, -⟩ := h
  exact hsame i (Nat.le_refl i) hn

/-- Behind a word that is not the last. -/
theorem SameList.next (h : SameList f g i) (hend : cmdOp (f i) ≠ opEnd)
    (hstop : cmdOp (f i) ≠ opStop) : SameList f g (i + 1) := by
  obtain ⟨n, hn, hsame, hop⟩ := h
  have hne : i ≠ n := by
    rintro rfl
    exact hop.elim hend hstop
  exact ⟨n, by omega, fun k hk hkn => hsame k (by omega) hkn, hop⟩

/-- Other command words of a controller. -/
def Controller.listed (c : Controller) (f : Nat → U32) : Controller := { c with comd := f }

theorem sendBytes_listed (ack : Bool) : ∀ (n : Nat) (c : Controller),
    sendBytes ack n (c.listed f) = (sendBytes ack n c).map fun d => d.listed f
  | 0, _ => rfl
  | n + 1, c => by
    cases ht : c.txFifo with
    | nil =>
      have hl : (c.listed f).txFifo = [] := ht
      simp only [sendBytes, hl, ht, Option.map_none]
    | cons b bs =>
      have hl : (c.listed f).txFifo = b :: bs := ht
      simp only [sendBytes, hl, ht]
      exact sendBytes_listed ack n { c with txFifo := bs, bus := c.bus ++ [.write b ack] }

theorem receiveBytes_listed (nack : Bool) : ∀ (n : Nat) (c : Controller),
    receiveBytes slave nack n (c.listed f) = (receiveBytes slave nack n c).listed f
  | 0, _ => rfl
  | n + 1, c => receiveBytes_listed nack n
      { c with
        rxFifo := pushFifo c.rxFifo (slave c.bus)
        bus := c.bus ++ [.read (slave c.bus) nack] }

/-- The controller does not write the command words. -/
theorem sendBytes_comd {ack : Bool} {c c' : Controller} (h : sendBytes ack 1 c = some c') :
    c'.comd = c.comd := by
  cases ht : c.txFifo with
  | nil =>
    simp only [sendBytes, ht] at h
    cases h
  | cons b bs =>
    simp only [sendBytes, ht] at h
    obtain rfl := Option.some.inj h
    rfl

/-- **A step of the controller** with other words behind the list. -/
theorem ctlStep_listed {c c' : Controller} {bits : U32} {fsm : Fsm} (hl : SameList c.comd f i)
    (h : Sys.ctlStep slave c i j = some (c', bits, fsm)) :
    Sys.ctlStep slave (c.listed f) i j = some (c'.listed f, bits, fsm) ∧
      ∀ i' j', fsm = .run i' j' → SameList c'.comd f i' := by
  have hw : (c.listed f).comd i = c.comd i := hl.word
  unfold Sys.ctlStep at h ⊢
  dsimp only at h ⊢
  rw [hw]
  by_cases hi : i2cNcmds ≤ i
  · rw [if_pos hi] at h
    cases h
  rw [if_neg hi] at h ⊢
  by_cases hstop : cmdOp (c.comd i) = opStop
  · rw [if_pos hstop] at h ⊢
    cases h
    exact ⟨rfl, nofun⟩
  rw [if_neg hstop] at h ⊢
  by_cases hend : cmdOp (c.comd i) = opEnd
  · rw [if_pos hend] at h ⊢
    cases h
    exact ⟨rfl, nofun⟩
  rw [if_neg hend] at h ⊢
  have hnext := hl.next hend hstop
  by_cases hstart : cmdOp (c.comd i) = opRstart
  · rw [if_pos hstart] at h ⊢
    cases h
    refine ⟨rfl, fun i' j' he => ?_⟩
    cases he
    exact hnext
  rw [if_neg hstart] at h ⊢
  by_cases hwrite : cmdOp (c.comd i) = opWrite
  · rw [if_pos hwrite] at h ⊢
    by_cases hj : j < cmdBytes (c.comd i)
    · rw [if_pos hj] at h ⊢
      obtain ⟨c₁, hc, he⟩ := Option.map_eq_some_iff.mp h
      cases he
      rw [sendBytes_listed, hc]
      refine ⟨rfl, fun i' j' he => ?_⟩
      cases he
      rw [sendBytes_comd hc]
      exact hl
    · rw [if_neg hj] at h ⊢
      cases h
      refine ⟨rfl, fun i' j' he => ?_⟩
      cases he
      exact hnext
  rw [if_neg hwrite] at h ⊢
  by_cases hread : cmdOp (c.comd i) = opRead
  · rw [if_pos hread] at h ⊢
    by_cases hj : j < cmdBytes (c.comd i)
    · rw [if_pos hj] at h ⊢
      cases h
      refine ⟨?_, fun i' j' he => ?_⟩
      · rw [receiveBytes_listed]
      · cases he
        exact hl
    · rw [if_neg hj] at h ⊢
      cases h
      refine ⟨rfl, fun i' j' he => ?_⟩
      cases he
      exact hnext
  · rw [if_neg hread] at h
    cases h

theorem ctlStep_comd {c c' : Controller} {bits : U32} {fsm : Fsm}
    (h : Sys.ctlStep slave c i j = some (c', bits, fsm)) : c'.comd = c.comd := by
  unfold Sys.ctlStep at h
  dsimp only at h
  split at h
  · cases h
  split at h
  · cases h
    rfl
  split at h
  · cases h
    rfl
  split at h
  · cases h
    rfl
  split at h
  · split at h
    · obtain ⟨c₁, hc, he⟩ := Option.map_eq_some_iff.mp h
      cases he
      exact sendBytes_comd hc
    · cases h
      rfl
  split at h
  · split at h
    · cases h
      rfl
    · cases h
      rfl
  · cases h

/-- **A turn of the fill loop** with other words behind those that it has written. -/
theorem fillTurn_listed (s : Esp32s31I2c) (b : Batch) (h : ∀ k < b.cmd, f k = s.base.comd k) :
    (s.fillTurn b = none ∧ (s.listed f).fillTurn b = none) ∨
    ∃ s' b' f', s.fillTurn b = some (s', b') ∧ (s.listed f).fillTurn b = some (s'.listed f', b') ∧
      ∀ k < b'.cmd, f' k = s'.base.comd k := by
  rcases fillTurn_form s b with hn | ⟨ws, s', b', hcmd, -, hs⟩
  · exact Or.inl ⟨hn s.base.comd, hn f⟩
  · refine Or.inr ⟨s'.listed (putWords s.base.comd b.cmd ws), b', putWords f b.cmd ws,
      hs s.base.comd, hs f, ?_⟩
    rw [hcmd]
    exact putWords_congr ws b.cmd h

/-- **The end of the fill loop**: the lists are the same. -/
theorem fillEnd_listed (s : Esp32s31I2c) (b : Batch) (h : ∀ k < b.cmd, f k = s.base.comd k) :
    ∃ f', (s.listed f).fillEnd b = (s.fillEnd b).listed f' ∧
      SameList (s.fillEnd b).base.comd f' 0 := by
  generalize hw : cmdWord (if s.msg < s.msgs.length then opEnd else opStop) 0 0 = w
  refine ⟨Function.update f b.cmd w, by rw [← hw]; rfl, b.cmd, Nat.zero_le _, fun k _ hk => ?_, ?_⟩
  · have hcomd : (s.fillEnd b).base.comd = Function.update s.base.comd b.cmd w := by
      rw [← hw]
      rfl
    rw [hcomd]
    by_cases hkb : k = b.cmd
    · rw [hkb, Function.update_self, Function.update_self]
    · rw [Function.update_of_ne hkb, Function.update_of_ne hkb]
      exact h k (by omega)
  · have hword : (s.fillEnd b).base.comd b.cmd = w := by
      rw [← hw]
      exact Function.update_self _ _ _
    rw [hword, ← hw]
    split
    · exact Or.inl (by decide)
    · exact Or.inr (by decide)

end Words

/-! ## Alike -/

/-- How much of an old transfer the call has replaced. -/
def XferPc.level : XferPc → Nat
  | .idle _ => 0
  | .resetFifos => 1
  | .intClr => 2
  | .fillStart => 3
  | _ => 4

/-- Before the first list: what the call has replaced is the same. -/
structure Sys.Forgets (s t : Sys) : Prop where
  pc : t.pc = s.pc
  irq : t.irq = s.irq
  ena : t.ena = s.ena
  fsm : t.fsm = s.fsm
  configured : t.configured = s.configured
  bus : t.drv.base.bus = s.drv.base.bus
  mem : t.drv.mem = s.drv.mem
  call : 1 ≤ s.pc.level → t.done = s.done ∧ t.drv.err = s.drv.err ∧ t.drv.msgs = s.drv.msgs ∧
    t.drv.msg = s.drv.msg ∧ t.drv.pos = s.drv.pos ∧ t.drv.addressed = s.drv.addressed
  fifos : 2 ≤ s.pc.level → t.drv.base.txFifo = s.drv.base.txFifo ∧
    t.drv.base.rxFifo = s.drv.base.rxFifo
  raw : 3 ≤ s.pc.level → t.raw &&& intMask = s.raw &&& intMask

/-- The words that the driver or the controller still counts on are the same. -/
structure Sys.Listed (s : Sys) (f : Nat → U32) : Prop where
  fill : ∀ b, s.pc = .fill b ∨ s.irq = .fill b → ∀ k < b.cmd, f k = s.drv.base.comd k
  start : s.pc = .intEna ∨ s.pc = .start ∨ s.irq = .start → SameList s.drv.base.comd f 0
  run : ∀ i j, s.fsm = .run i j → SameList s.drv.base.comd f i

/-- The system with other command words, other interrupts than those of the driver, and another
record of the call. -/
def Sys.other (s : Sys) (f : Nat → U32) (raw : U32) (x : Xfer) : Sys :=
  { s with drv := s.drv.listed f, raw := raw, xfer := x }

/-- **Two systems that nobody can tell apart.** -/
inductive Alike (s t : Sys) : Prop
  | before (level : s.pc.level < 4) (forgets : s.Forgets t)
  | after (level : s.pc.level = 4) (f : Nat → U32) (raw : U32) (x : Xfer)
    (same : t = s.other f raw x)
      (mask : raw &&& intMask = s.raw &&& intMask) (listed : s.Listed f)

section Steps

variable {slave : Slave} {s t s' : Sys}

theorem Sys.Forgets.symm (h : s.Forgets t) : t.Forgets s := by
  have hpc := h.pc
  refine ⟨h.pc.symm, h.irq.symm, h.ena.symm, h.fsm.symm, h.configured.symm, h.bus.symm, h.mem.symm,
    fun hl => ?_, fun hl => ?_, fun hl => (h.raw (hpc ▸ hl)).symm⟩
  · obtain ⟨h1, h2, h3, h4, h5, h6⟩ := h.call (hpc ▸ hl)
    exact ⟨h1.symm, h2.symm, h3.symm, h4.symm, h5.symm, h6.symm⟩
  · obtain ⟨h1, h2⟩ := h.fifos (hpc ▸ hl)
    exact ⟨h1.symm, h2.symm⟩

theorem Sys.Listed.symm {f : Nat → U32} {raw : U32} {x : Xfer} (h : s.Listed f) :
    (s.other f raw x).Listed s.drv.base.comd where
  fill b hb k hk := (h.fill b hb k hk).symm
  start hp := (h.start hp).symm
  run i j hfsm := (h.run i j hfsm).symm

theorem Alike.symm (h : Alike s t) : Alike t s := by
  cases h with
  | before level forgets =>
    refine .before ?_ forgets.symm
    rw [forgets.pc]
    exact level
  | after level f raw x same mask listed =>
    subst same
    exact .after level s.drv.base.comd s.raw s.xfer rfl mask.symm listed.symm

/-- What an observer of the bus, the buffers and the call can see. -/
def Sys.view (s : Sys) : XferPc × IrqPc × Fsm × List BusEvent × MsgMem :=
  (s.pc, s.irq, s.fsm, s.drv.base.bus, s.drv.mem)

theorem Alike.view (h : Alike s t) : t.view = s.view := by
  unfold Sys.view
  cases h with
  | before level forgets => rw [forgets.pc, forgets.irq, forgets.fsm, forgets.bus, forgets.mem]
  | after level f raw x same mask listed =>
    subst same
    rfl

/-! ## Before the first list -/

theorem Sys.Inv.before (h : s.Inv slave) (hl : s.pc.level < 4) :
    s.fsm = .idle ∧ s.irq.alone = true ∧ s.status = 0 ∧ s.ena = 0 ∧ s.pc.waits = false := by
  have hphase := h.phase
  have hoff := h.off
  have halone := h.alone
  have hstatus := fun hw : s.pc.waits = false => h.status hw
  unfold Sys.Phase at hphase
  cases hpc : s.pc with
  | idle ret | resetFifos | intClr | fillStart =>
    simp only [hpc] at hphase
    rw [hpc] at hoff halone hstatus
    exact ⟨hphase.1.idle, halone rfl, hstatus rfl, hoff rfl, rfl⟩
  | _ =>
    rw [hpc] at hl
    exact absurd hl (Nat.lt_irrefl 4)

/-- Before the first list only the place of the handler can differ. -/
theorem Sys.Forgets.irq_any (h : s.Forgets t) (p : IrqPc) :
    Sys.Forgets { s with irq := p } { t with irq := p } :=
  ⟨h.pc, rfl, h.ena, h.fsm, h.configured, h.bus, h.mem, h.call, h.fifos, h.raw⟩

/-- The fresh list is empty: nothing is counted on yet. -/
theorem Sys.Listed.empty {f : Nat → U32} (hpc : s.pc = .fill ⟨0, 0, 0⟩) (hirq : s.irq.alone = true)
    (hfsm : s.fsm = .idle) : s.Listed f where
  fill b hb k hk := by
    rcases hb with hb | hb
    · obtain rfl := XferPc.fill.inj (hpc.symm.trans hb)
      exact absurd hk (Nat.not_lt_zero k)
    · rw [hb] at hirq
      cases hirq
  start hp := by
    rcases hp with hp | hp | hp
    · exact absurd (hpc.symm.trans hp) nofun
    · exact absurd (hpc.symm.trans hp) nofun
    · rw [hp] at hirq
      cases hirq
  run i j h := absurd (hfsm.symm.trans h) nofun

/-- **The call begins alike**, whatever the last one returned. -/
theorem call_alike {r r' : Option Int} (msgs : List I2cMsg) (hs : s.pc = .idle r)
    (ht : t.pc = .idle r')
    (hirq : t.irq = s.irq) (hena : t.ena = s.ena) (hfsm : t.fsm = s.fsm)
      (hconf : t.configured = s.configured)
    (hbus : t.drv.base.bus = s.drv.base.bus) (hmem : t.drv.mem = s.drv.mem) :
    ∃ s' t', s.call msgs = some s' ∧ t.call msgs = some t' ∧ Alike s' t' := by
  unfold Sys.call
  simp only [hs, ht]
  by_cases hten : (msgs.any fun m => m.flags &&& i2cMTen ≠ 0) = true
  · rw [if_pos hten, if_pos hten]
    exact ⟨_, _, rfl, rfl, .before (show 0 < 4 by decide) ⟨rfl, hirq, hena, hfsm, hconf, hbus, hmem,
      nofun, nofun, nofun⟩⟩
  · rw [if_neg hten, if_neg hten]
    exact ⟨_, _, rfl, rfl, .before (show 1 < 4 by decide) ⟨rfl, hirq, hena, hfsm, hconf, hbus, hmem,
      fun _ => ⟨rfl, rfl, rfl, rfl, rfl, rfl⟩, nofun, nofun⟩⟩

theorem Sys.Forgets.call_step {msgs : List I2cMsg} (h : s.Forgets t) (hs : s.call msgs = some s') :
    ∃ t', t.call msgs = some t' ∧ Alike s' t' := by
  cases hpc : s.pc with
  | idle ret =>
    obtain ⟨s₁, t', h₁, ht, ha⟩ :=
      call_alike msgs hpc (h.pc.trans hpc) h.irq h.ena h.fsm h.configured h.bus h.mem
    obtain rfl := Option.some.inj (h₁.symm.trans hs)
    exact ⟨t', ht, ha⟩
  | _ =>
    unfold Sys.call at hs
    simp only [hpc] at hs
    cases hs

/-- At the first list all that the call uses is replaced. -/
theorem Sys.Forgets.filling (h : s.Forgets t) (hl : 3 ≤ s.pc.level) :
    { t with drv := { t.drv with rx := [] }, pc := .fill ⟨0, 0, 0⟩ } =
      Sys.other { s with drv := { s.drv with rx := [] }, pc := .fill ⟨0, 0, 0⟩ } t.drv.base.comd
        t.raw t.xfer := by
  obtain ⟨-, hirq, hena, hfsm, hconf, hbus, hmem, hcall, hfifos, -⟩ := h
  obtain ⟨hdone, herr, hmsgs, hmsg, hpos, haddr⟩ := hcall (by omega)
  obtain ⟨htx, hrx⟩ := hfifos (by omega)
  obtain ⟨⟨⟨comd, tx, rx, bus⟩, mem, err, msgs, msg, pos, addr, rxs⟩, raw, ena, fsm, conf, done, pc,
      irq, x⟩ := t
  dsimp only at hirq hena hfsm hconf hbus hmem hdone herr hmsgs hmsg hpos haddr htx hrx
  subst hirq hena hfsm hconf hbus hmem hdone herr hmsgs hmsg hpos haddr htx hrx
  rfl

theorem Sys.Forgets.xfer_step (h : s.Forgets t) (hi : s.Inv slave) (hl : s.pc.level < 4)
    (hs : s.xferStep = some s') : ∃ t', t.xferStep = some t' ∧ Alike s' t' := by
  obtain ⟨hfsm, halone, -, -, -⟩ := hi.before hl
  have hcall := h.call
  have hfifos := h.fifos
  have hraw := h.raw
  have hfilling := h.filling
  unfold Sys.xferStep at hs ⊢
  rw [h.pc]
  cases hpc : s.pc with
  | idle ret =>
    simp only [hpc] at hs
    cases hs
  | resetFifos =>
    simp only [hpc] at hs hcall ⊢
    obtain rfl := Option.some.inj hs
    exact ⟨_, rfl, .before (show 2 < 4 by decide) ⟨rfl, h.irq, h.ena, h.fsm, h.configured, h.bus,
      h.mem, fun _ => hcall (by decide), fun _ => ⟨rfl, rfl⟩, nofun⟩⟩
  | intClr =>
    simp only [hpc] at hs hcall hfifos ⊢
    obtain rfl := Option.some.inj hs
    have hclear (raw : U32) : raw &&& ~~~intMask &&& intMask = 0 := by
      rw [BitVec.and_assoc, BitVec.and_comm (~~~intMask), BitVec.and_not_self]
      exact BitVec.and_zero
    exact ⟨_, rfl, .before (show 3 < 4 by decide) ⟨rfl, h.irq, h.ena, h.fsm, h.configured, h.bus,
      h.mem,
      fun _ => hcall (by decide), fun _ => hfifos (by decide),
        fun _ => (hclear t.raw).trans (hclear s.raw).symm⟩⟩
  | fillStart =>
    simp only [hpc] at hs hraw hfilling ⊢
    obtain rfl := Option.some.inj hs
    exact ⟨_, rfl, .after rfl t.drv.base.comd t.raw t.xfer (hfilling (by decide)) (hraw (by decide))
      (.empty rfl halone hfsm)⟩
  | _ =>
    rw [hpc] at hl
    exact absurd hl (Nat.lt_irrefl 4)

/-- **A step before the first list.** -/
theorem Sys.Forgets.step {a : Act} (h : s.Forgets t) (hi : s.Inv slave) (hit : t.Inv slave)
    (hl : s.pc.level < 4)
    (hs : sysStep slave a s = some s') : ∃ t', sysStep slave a t = some t' ∧ Alike s' t' := by
  obtain ⟨hfsm, halone, hstatus, -, hwaits⟩ := hi.before hl
  have hwait : s.pc ≠ .wait := by
    intro hpc
    rw [hpc] at hwaits
    cases hwaits
  cases a with
  | call msgs => exact h.call_step hs
  | xfer => exact h.xfer_step hi hl hs
  | woken =>
    obtain ⟨⟨hpc, -⟩, -⟩ := Option.ite_none_right_eq_some.mp (show s.woken = some s' from hs)
    exact absurd hpc hwait
  | expire =>
    obtain ⟨⟨hpc, -⟩, -⟩ := Option.ite_none_right_eq_some.mp (show s.expire = some s' from hs)
    exact absurd hpc hwait
  | enter =>
    obtain ⟨hout, hs⟩ := Option.ite_none_right_eq_some.mp (show s.enter = some s' from hs)
    obtain rfl := Option.some.inj hs
    exact ⟨{ t with irq := .status }, if_pos (h.irq.trans hout), .before hl (h.irq_any .status)⟩
  | irq =>
    have hs : s.irqStep = some s' := hs
    obtain ⟨hst, rfl⟩ := irqStep_alone hs halone
    obtain ⟨-, -, hstatus', -, -⟩ := hit.before (by rw [h.pc]; exact hl)
    refine ⟨{ t with irq := .out }, ?_, ?_⟩
    · have hti : t.irq = .status := h.irq.trans hst
      show t.irqStep = _
      unfold Sys.irqStep
      simp only [hti, hstatus', if_true]
    · rw [if_pos hstatus]
      exact .before hl (h.irq_any .out)
  | tick =>
    obtain ⟨⟨i, j, hrun⟩, -⟩ := tick_frame (show s.tick slave = some s' from hs)
    exact absurd (hfsm.symm.trans hrun) nofun
  | fail bits stops =>
    obtain ⟨hrun, -⟩ := fail_cases (show s.fail bits stops = some s' from hs)
    rw [hfsm] at hrun
    simp at hrun
  | stray bits =>
    obtain ⟨hfailed, -⟩ := Option.ite_none_right_eq_some.mp (show s.stray bits = some s' from hs)
    exact absurd (hfsm.symm.trans hfailed) nofun

/-! ## From the first list on -/

/-- The call counts on words of the list. -/
def XferPc.lists : XferPc → Bool
  | .fill _ | .intEna | .start => true
  | _ => false

/-- The handler counts on words of the list. -/
def IrqPc.lists : IrqPc → Bool
  | .fill _ | .start => true
  | _ => false

/-- What keeps the words. -/
theorem Sys.Listed.keep {f : Nat → U32} (h : s.Listed f) (hc : s'.drv.base.comd = s.drv.base.comd)
    (hpc : s'.pc = s.pc ∨ s'.pc.lists = false) (hirq : s'.irq = s.irq ∨ s'.irq.lists = false)
    (hfsm : s'.fsm = s.fsm ∨ ∀ i j, s'.fsm ≠ .run i j) : s'.Listed f := by
  have hpc' (hp : s'.pc.lists = true) : s'.pc = s.pc := hpc.resolve_right (by rw [hp]; rintro ⟨⟩)
  have hirq' (hp : s'.irq.lists = true) : s'.irq = s.irq :=
    hirq.resolve_right (by rw [hp]; rintro ⟨⟩)
  refine ⟨fun b hb => ?_, fun hp => ?_, fun i j hr => ?_⟩
  · rw [hc]
    rcases hb with hb | hb
    · exact h.fill b (Or.inl ((hpc' (by rw [hb]; rfl)).symm.trans hb))
    · exact h.fill b (Or.inr ((hirq' (by rw [hb]; rfl)).symm.trans hb))
  · rw [hc]
    rcases hp with hp | hp | hp
    · exact h.start (Or.inl ((hpc' (by rw [hp]; rfl)).symm.trans hp))
    · exact h.start (Or.inr (Or.inl ((hpc' (by rw [hp]; rfl)).symm.trans hp)))
    · exact h.start (Or.inr (Or.inr ((hirq' (by rw [hp]; rfl)).symm.trans hp)))
  · rw [hc]
    rcases hfsm with hf | hf
    · exact h.run i j (hf.symm.trans hr)
    · exact absurd hr (hf i j)

/-- Nobody counts on a word. -/
theorem Sys.Listed.nobody {f : Nat → U32} (hpc : s.pc.lists = false) (hirq : s.irq.lists = false)
    (hfsm : ∀ i j, s.fsm ≠ .run i j) : s.Listed f := by
  refine ⟨fun b hb => ?_, fun hp => ?_, fun i j hr => absurd hr (hfsm i j)⟩
  · rcases hb with hb | hb
    · rw [hb] at hpc
      cases hpc
    · rw [hb] at hirq
      cases hirq
  · rcases hp with hp | hp | hp
    · rw [hp] at hpc
      cases hpc
    · rw [hp] at hpc
      cases hpc
    · rw [hp] at hirq
      cases hirq

theorem IrqPc.lists_alone {p : IrqPc} (h : p.alone = true) : p.lists = false := by
  cases p with
  | out | status => rfl
  | _ => cases h

section After

variable {f : Nat → U32} {raw : U32} {x : Xfer}

/-- A turn of the fill loop in the call. -/
theorem Sys.Listed.filling {b : Batch} (hb : ∀ k < b.cmd, f k = s.drv.base.comd k)
    (hpc : s.pc = .fill b)
    (halone : s.irq.alone = true) (hfsm : s.fsm = .idle) : s.Listed f where
  fill b' h := by
    rcases h with h | h
    · obtain rfl := XferPc.fill.inj (hpc.symm.trans h)
      exact hb
    · rw [h] at halone
      cases halone
  start h := by
    rcases h with h | h | h
    · exact absurd (hpc.symm.trans h) nofun
    · exact absurd (hpc.symm.trans h) nofun
    · rw [h] at halone
      cases halone
  run i j h := absurd (hfsm.symm.trans h) nofun

/-- The filled list. -/
theorem Sys.Listed.filled (hlist : SameList s.drv.base.comd f 0) (hpc : ∀ b, s.pc ≠ .fill b)
    (halone : s.irq.alone = true) (hfsm : s.fsm = .idle) : s.Listed f where
  fill b h := by
    rcases h with h | h
    · exact absurd h (hpc b)
    · rw [h] at halone
      cases halone
  start _ := hlist
  run i j h := absurd (hfsm.symm.trans h) nofun

/-- The started list. -/
theorem Sys.Listed.started (hlist : SameList s.drv.base.comd f 0) (hpc : s.pc.lists = false)
    (hirq : s.irq.lists = false) (hfsm : s.fsm = .run 0 0) : s.Listed f where
  fill b h := by
    rcases h with h | h
    · rw [h] at hpc
      cases hpc
    · rw [h] at hirq
      cases hirq
  start _ := hlist
  run i j h := by
    cases hfsm.symm.trans h
    exact hlist

theorem Sys.Listed.xfer_step (h : s.Listed f) (hm : raw &&& intMask = s.raw &&& intMask)
    (hi : s.Inv slave)
    (hl : s.pc.level = 4) (hs : s.xferStep = some s') : ∃ t', (s.other f raw x).xferStep = some t' ∧
      Alike s' t' := by
  have hphase := hi.phase
  have halone := hi.alone
  unfold Sys.Phase at hphase
  unfold Sys.xferStep at hs ⊢
  cases hpc : s.pc with
  | idle ret | resetFifos | intClr | fillStart =>
    rw [hpc] at hl
    cases hl
  | wait =>
    simp only [hpc] at hs
    cases hs
  | fill b =>
    rw [hpc] at halone
    simp only [Sys.other, hpc] at hs hphase ⊢
    rcases fillTurn_listed s.drv b (h.fill b (Or.inl hpc)) with
      ⟨hn, hn'⟩ | ⟨d, b', f', hd, hd', hsame⟩
    · simp only [hn, hn'] at hs ⊢
      obtain rfl := Option.some.inj hs
      obtain ⟨f', hend, hlist⟩ := fillEnd_listed s.drv b (h.fill b (Or.inl hpc))
      rw [hend]
      exact ⟨_, rfl, .after rfl f' raw x rfl hm (.filled hlist nofun (halone rfl) hphase.1.idle)⟩
    · simp only [hd, hd'] at hs ⊢
      obtain rfl := Option.some.inj hs
      exact ⟨_, rfl, .after rfl f' raw x rfl hm (.filling hsame rfl (halone rfl) hphase.1.idle)⟩
  | intEna =>
    rw [hpc] at halone
    simp only [Sys.other, hpc] at hs hphase ⊢
    obtain rfl := Option.some.inj hs
    exact ⟨_, rfl, .after rfl f raw x rfl
      hm (.filled (h.start (Or.inl hpc)) nofun (halone rfl) hphase.1.idle)⟩
  | start =>
    rw [hpc] at halone
    simp only [Sys.other, hpc] at hs ⊢
    obtain rfl := Option.some.inj hs
    exact ⟨_, rfl, .after rfl f raw x rfl hm
      (.started (h.start (Or.inr (Or.inl hpc))) rfl (IrqPc.lists_alone (halone rfl)) rfl)⟩
  | synchronize =>
    simp only [Sys.other, hpc] at hs ⊢
    obtain ⟨hirq, hs⟩ := Option.ite_none_right_eq_some.mp hs
    obtain rfl := Option.some.inj hs
    rw [if_pos hirq]
    exact ⟨_, rfl, .after rfl f raw x rfl hm (h.keep rfl (Or.inr rfl) (Or.inl rfl) (Or.inl rfl))⟩
  | recover =>
    simp only [Sys.other, hpc] at hs ⊢
    have herr : (s.drv.listed f).err = s.drv.err := rfl
    rw [herr]
    by_cases hnack : s.drv.err = -enxio
    · rw [if_pos hnack] at hs ⊢
      obtain rfl := Option.some.inj hs
      exact ⟨_, rfl, .after rfl f raw x rfl hm (h.keep rfl (Or.inr rfl) (Or.inl rfl)
        (Or.inr nofun))⟩
    · rw [if_neg hnack] at hs ⊢
      by_cases herr : s.drv.err ≠ 0
      · rw [if_pos herr] at hs ⊢
        obtain rfl := Option.some.inj hs
        exact ⟨_, rfl, .after rfl f raw x rfl hm (h.keep rfl (Or.inr rfl) (Or.inl rfl)
          (Or.inl rfl))⟩
      · rw [if_neg herr] at hs ⊢
        obtain rfl := Option.some.inj hs
        exact ⟨_, rfl, .after rfl f raw x rfl hm (h.keep rfl (Or.inr rfl) (Or.inl rfl)
          (Or.inl rfl))⟩
  | resetAssert =>
    rw [hpc] at halone
    simp only [Sys.other, hpc] at hs ⊢
    obtain rfl := Option.some.inj hs
    exact ⟨_, rfl, .after rfl (fun _ => 0) 0 x rfl rfl (.nobody rfl (IrqPc.lists_alone (halone rfl))
      nofun)⟩
  | initClr =>
    simp only [Sys.other, hpc] at hs ⊢
    obtain rfl := Option.some.inj hs
    have hclear : raw &&& ~~~intMask &&& intMask = s.raw &&& ~~~intMask &&& intMask := by
      rw [BitVec.and_assoc, BitVec.and_assoc, BitVec.and_comm (~~~intMask), BitVec.and_not_self]
      exact BitVec.and_zero.trans BitVec.and_zero.symm
    exact ⟨_, rfl, .after rfl f _ x rfl hclear (h.keep rfl (Or.inr rfl) (Or.inl rfl) (Or.inl rfl))⟩
  | disable | timedOut | resetDeassert | setTiming | initEna | confUpgate | clearBus | poll =>
    simp only [Sys.other, hpc] at hs ⊢
    obtain rfl := Option.some.inj hs
    exact ⟨_, rfl, .after rfl f raw x rfl hm (h.keep rfl (Or.inr rfl) (Or.inl rfl) (Or.inl rfl))⟩
  | ret =>
    simp only [Sys.other, hpc] at hs ⊢
    obtain rfl := Option.some.inj hs
    exact ⟨_, rfl, .before (show 0 < 4 by decide) ⟨rfl, rfl, rfl, rfl, rfl, rfl, rfl, nofun, nofun,
      nofun⟩⟩

/-- Outside the fill loop of the call the call counts on no words. -/
theorem XferPc.lists_waits {p : XferPc} (h : p.waits = true) : p.lists = false := by
  cases p with
  | wait | disable | synchronize => rfl
  | _ => cases h

theorem mask_and (hm : raw &&& intMask = s.raw &&& intMask) (y : U32) :
    raw &&& y &&& intMask = s.raw &&& y &&& intMask := by
  rw [BitVec.and_assoc, BitVec.and_comm y, ← BitVec.and_assoc, hm, BitVec.and_assoc,
    BitVec.and_comm intMask, ← BitVec.and_assoc]

theorem Sys.Listed.irq_step (h : s.Listed f) (hm : raw &&& intMask = s.raw &&& intMask)
    (hi : s.Inv slave)
    (hl : s.pc.level = 4) (hs : s.irqStep = some s') : ∃ t', (s.other f raw x).irqStep = some t' ∧
      Alike s' t' := by
  have hstep := hs
  -- a handler behind `status` runs in the wait only
  have hwaits (hne : s.irq.alone = false) : s.pc.waits = true := by
    cases hw : s.pc.waits with
    | true => rfl
    | false => exact absurd ((hi.alone hw).symm.trans hne) (by rintro ⟨⟩)
  have hrun (hr : s.irq.refills = true) (hne : s.irq.alone = false) (i j : Nat) :
      s.fsm ≠ .run i j :=
    (hi.phase.stage (hwaits hne)).not_run hr i j
  unfold Sys.irqStep at hs ⊢
  cases hirq : s.irq with
  | out =>
    simp only [hirq] at hs
    cases hs
  | status =>
    simp only [Sys.other, hirq] at hs ⊢
    obtain rfl := Option.some.inj hs
    have hstatus : raw &&& s.ena = s.raw &&& s.ena := by
      rcases hi.ena with he | he
      · rw [he]
        exact hm
      · rw [he]
        exact BitVec.and_zero.trans BitVec.and_zero.symm
    refine ⟨_, rfl, .after hl f raw x ?_ hm (h.keep rfl (Or.inl rfl) (Or.inr ?_) (Or.inl rfl))⟩
    · unfold Sys.status Sys.other
      dsimp only
      rw [hstatus]
    · dsimp only
      split
      · rfl
      · rfl
  | intClr st =>
    simp only [Sys.other, hirq] at hs ⊢
    obtain rfl := Option.some.inj hs
    exact ⟨_, rfl, .after hl f _ x rfl (mask_and hm _)
      (h.keep rfl (Or.inl rfl) (Or.inr rfl) (Or.inl rfl))⟩
  | judge st =>
    simp only [Sys.other, hirq] at hs ⊢
    obtain rfl := Option.some.inj hs
    refine ⟨_, rfl, .after hl f raw x rfl hm (h.keep rfl (Or.inl rfl) (Or.inr ?_) (Or.inl rfl))⟩
    dsimp only
    split
    · rfl
    · split
      · rfl
      · split
        · rfl
        · rfl
  | drain more i j =>
    simp only [Sys.other, hirq] at hs ⊢
    have hrx : (s.drv.listed f).rx = s.drv.rx := rfl
    rw [hrx]
    cases hr : s.drv.rx[i]? with
    | some r =>
      simp only [hr] at hs ⊢
      by_cases hj : j < r.len
      · rw [if_pos hj] at hs ⊢
        obtain rfl := Option.some.inj hs
        exact ⟨_, rfl, .after hl f raw x rfl hm (h.keep rfl (Or.inl rfl) (Or.inr rfl) (Or.inl rfl))⟩
      · rw [if_neg hj] at hs ⊢
        obtain rfl := Option.some.inj hs
        exact ⟨_, rfl, .after hl f raw x rfl hm (h.keep rfl (Or.inl rfl) (Or.inr rfl) (Or.inl rfl))⟩
    | none =>
      simp only [hr] at hs ⊢
      obtain rfl := Option.some.inj hs
      refine ⟨_, rfl, .after hl f raw x rfl hm (h.keep rfl (Or.inl rfl) (Or.inr ?_) (Or.inl rfl))⟩
      cases more with
      | true => rfl
      | false => rfl
  | fillStart =>
    simp only [Sys.other, hirq] at hs ⊢
    obtain rfl := Option.some.inj hs
    rw [hirq] at hwaits hrun
    refine ⟨_, rfl, .after hl f raw x rfl hm ⟨fun b hb k hk => ?_, fun hp => ?_, fun i j hr => ?_⟩⟩
    · rcases hb with hb | hb
      · exact h.fill b (Or.inl hb) k hk
      · obtain rfl := IrqPc.fill.inj hb
        exact absurd hk (Nat.not_lt_zero k)
    · rcases hp with hp | hp | hp
      · exact h.start (Or.inl hp)
      · exact h.start (Or.inr (Or.inl hp))
      · cases hp
    · exact absurd hr (hrun rfl rfl i j)
  | fill b =>
    rw [hirq] at hwaits hrun
    have hlists := XferPc.lists_waits (hwaits rfl)
    simp only [Sys.other, hirq] at hs ⊢
    rcases fillTurn_listed s.drv b (h.fill b (Or.inr hirq)) with
      ⟨hn, hn'⟩ | ⟨d, b', f', hd, hd', hsame⟩
    · simp only [hn, hn'] at hs ⊢
      obtain rfl := Option.some.inj hs
      obtain ⟨f', hend, hlist⟩ := fillEnd_listed s.drv b (h.fill b (Or.inr hirq))
      rw [hend]
      refine ⟨_, rfl, .after hl f' raw x rfl hm ⟨fun b' hb => ?_, fun _ => hlist, fun i j hr => ?_⟩⟩
      · rcases hb with hb | hb
        · rw [show s.pc = .fill b' from hb] at hlists
          cases hlists
        · cases hb
      · exact absurd hr (hrun rfl rfl i j)
    · simp only [hd, hd'] at hs ⊢
      obtain rfl := Option.some.inj hs
      refine ⟨_, rfl, .after hl f' raw x rfl hm ⟨fun c hc => ?_, fun hp => ?_, fun i j hr => ?_⟩⟩
      · rcases hc with hc | hc
        · rw [show s.pc = .fill c from hc] at hlists
          cases hlists
        · obtain rfl := IrqPc.fill.inj hc
          exact hsame
      · rcases hp with hp | hp | hp
        · rw [show s.pc = .intEna from hp] at hlists
          cases hlists
        · rw [show s.pc = .start from hp] at hlists
          cases hlists
        · cases hp
      · exact absurd hr (hrun rfl rfl i j)
  | start =>
    rw [hirq] at hwaits
    simp only [Sys.other, hirq] at hs ⊢
    obtain rfl := Option.some.inj hs
    exact ⟨_, rfl, .after hl f raw x rfl hm
      (.started (h.start (Or.inr (Or.inr hirq))) (XferPc.lists_waits (hwaits rfl)) rfl rfl)⟩
  | disable | complete =>
    simp only [Sys.other, hirq] at hs ⊢
    obtain rfl := Option.some.inj hs
    exact ⟨_, rfl, .after hl f raw x rfl hm (h.keep rfl (Or.inl rfl) (Or.inr rfl) (Or.inl rfl))⟩

theorem Sys.Listed.tick_step (h : s.Listed f) (hm : raw &&& intMask = s.raw &&& intMask)
    (hl : s.pc.level = 4)
    (hs : s.tick slave = some s') : ∃ t', (s.other f raw x).tick slave = some t' ∧ Alike s' t' := by
  unfold Sys.tick at hs ⊢
  cases hfsm : s.fsm with
  | run i j =>
    simp only [Sys.other, hfsm] at hs ⊢
    obtain ⟨hconf, hs⟩ := Option.ite_none_right_eq_some.mp hs
    obtain ⟨⟨c, bits, fsm⟩, hc, rfl⟩ := Option.map_eq_some_iff.mp hs
    obtain ⟨hc', hnext⟩ := ctlStep_listed (h.run i j hfsm) hc
    have hbase : (s.drv.listed f).base = s.drv.base.listed f := rfl
    rw [if_pos hconf, hbase, hc']
    have hmask : (raw ||| bits) &&& intMask = (s.raw ||| bits) &&& intMask := by
      rw [BitVec.and_or_distrib_right, hm, BitVec.and_or_distrib_right]
    have hcomd : c.comd = s.drv.base.comd := ctlStep_comd hc
    refine ⟨_, rfl, .after hl f (raw ||| bits) x rfl hmask ⟨fun b hb => ?_, fun hp => ?_,
      fun i' j' hr => ?_⟩⟩
    · exact fun k hk => (h.fill b hb k hk).trans (congrFun hcomd.symm k)
    · exact (congrArg (SameList · f 0) hcomd).mpr (h.start hp)
    · exact hnext i' j' hr
  | _ =>
    simp only [hfsm] at hs
    cases hs

/-- **A step from the first list on.** -/
theorem Sys.Listed.step {a : Act} (h : s.Listed f) (hm : raw &&& intMask = s.raw &&& intMask)
    (hi : s.Inv slave)
    (hl : s.pc.level = 4) (hs : sysStep slave a s = some s') :
    ∃ t', sysStep slave a (s.other f raw x) = some t' ∧ Alike s' t' := by
  have hor (bits : U32) : (raw ||| bits) &&& intMask = (s.raw ||| bits) &&& intMask := by
    rw [BitVec.and_or_distrib_right, hm, BitVec.and_or_distrib_right]
  cases a with
  | call msgs =>
    have hs : s.call msgs = some s' := hs
    unfold Sys.call at hs
    cases hpc : s.pc with
    | idle ret =>
      rw [hpc] at hl
      cases hl
    | _ =>
      simp only [hpc] at hs
      cases hs
  | xfer => exact h.xfer_step hm hi hl hs
  | woken =>
    obtain ⟨hw, hs⟩ := Option.ite_none_right_eq_some.mp (show s.woken = some s' from hs)
    obtain rfl := Option.some.inj hs
    exact ⟨_, if_pos hw, .after rfl f raw x rfl hm (h.keep rfl (Or.inr rfl) (Or.inl rfl)
      (Or.inl rfl))⟩
  | expire =>
    obtain ⟨hw, hs⟩ := Option.ite_none_right_eq_some.mp (show s.expire = some s' from hs)
    obtain rfl := Option.some.inj hs
    exact ⟨_, if_pos hw, .after rfl f raw _ rfl hm (h.keep rfl (Or.inr rfl) (Or.inl rfl)
      (Or.inl rfl))⟩
  | enter =>
    obtain ⟨hout, hs⟩ := Option.ite_none_right_eq_some.mp (show s.enter = some s' from hs)
    obtain rfl := Option.some.inj hs
    exact ⟨_, if_pos hout, .after hl f raw x rfl hm (h.keep rfl (Or.inl rfl) (Or.inr rfl)
      (Or.inl rfl))⟩
  | irq => exact h.irq_step hm hi hl hs
  | tick => exact h.tick_step hm hl hs
  | fail bits stops =>
    have hs : s.fail bits stops = some s' := hs
    obtain ⟨hrun, hbits, rfl⟩ := fail_cases hs
    have ht : (s.other f raw x).fail bits stops = some { s.other f raw x with
        raw := raw ||| bits
        fsm := if stops then .failed else s.fsm
        xfer := { x with raised := true } } := by
      unfold Sys.fail Sys.other
      dsimp only
      rcases hrun with ⟨i, j, hf⟩ | hf
      · simp only [hf, if_pos hbits]
      · simp only [hf, if_pos hbits]
    refine ⟨_, ht, .after hl f (raw ||| bits) { x with raised := true } rfl (hor bits)
      (h.keep rfl (Or.inl rfl) (Or.inl rfl) ?_)⟩
    cases stops with
    | true => exact Or.inr nofun
    | false => exact Or.inl rfl
  | stray bits =>
    obtain ⟨hf, hs⟩ := Option.ite_none_right_eq_some.mp (show s.stray bits = some s' from hs)
    obtain rfl := Option.some.inj hs
    exact ⟨_, if_pos hf, .after hl f (raw ||| bits) x rfl (hor bits)
      (h.keep rfl (Or.inl rfl) (Or.inl rfl) (Or.inl rfl))⟩

end After

/-! ## Runs -/

/-- **Both systems take every step.** -/
theorem Alike.step {a : Act} (h : Alike s t) (hi : s.Inv slave) (hit : t.Inv slave)
    (hs : sysStep slave a s = some s') : ∃ t', sysStep slave a t = some t' ∧ Alike s' t' := by
  cases h with
  | before level forgets => exact forgets.step hi hit level hs
  | after level f raw x same mask listed =>
    subst same
    exact listed.step mask hi level hs

theorem Alike.step_none {a : Act} (h : Alike s t) (hi : s.Inv slave) (hit : t.Inv slave)
    (hs : sysStep slave a s = none) : sysStep slave a t = none := by
  cases ht : sysStep slave a t with
  | none => rfl
  | some t' =>
    obtain ⟨s', hs', -⟩ := h.symm.step hit hi ht
    exact absurd (hs.symm.trans hs') nofun

/-- **Every run shows the same** on both systems. -/
theorem Alike.run (as : List Act) : ∀ {s t : Sys}, Alike s t → s.Inv slave → t.Inv slave →
    ((system slave).run as s).map Sys.view = ((system slave).run as t).map Sys.view := by
  induction as with
  | nil =>
    intro s t h _ _
    exact congrArg some h.view.symm
  | cons a as ih =>
    intro s t h hi hit
    unfold Machine.run Machine.runWith
    rw [if_pos trivial, if_pos trivial]
    cases hs : (system slave).step a s with
    | none =>
      rw [show (system slave).step a t = none from h.step_none hi hit hs]
    | some s' =>
      obtain ⟨t', ht, h'⟩ := h.step hi hit hs
      rw [show (system slave).step a t = some t' from ht]
      exact ih h' (hi.step hs) (hit.step ht)

end Steps

end Esp32S31.I2c
