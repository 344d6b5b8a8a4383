import Esp32S31.I2c.Fill

/-!
# A transfer is the reference transaction

The lists that `esp32s31_i2c_fill` builds, run one after the other with `esp32s31_i2c_irq` between
them, put the steps of the reference transaction on the bus, each once and in order, and leave its
bytes in the buffers. The invariant is `Between`: what the lists so far have done is a first part of
the steps, and `rest` is the other.
-/

namespace Esp32S31.I2c

open Esp32S31.Lib Esp32s31I2c

/-! ## Steps and stored bytes -/

/-- Bytes stored one after the other at their places. -/
def store (mem : MsgMem) : List (Nat × Nat) → List UInt8 → MsgMem
  | t :: ts, b :: bs => store (Function.update mem t.1 (Function.update (mem t.1) t.2 b)) ts bs
  | _, _ => mem

theorem store_append : ∀ (ts : List (Nat × Nat)) (bs : List UInt8) (us : List (Nat × Nat))
    (cs : List UInt8) (mem : MsgMem), ts.length = bs.length →
    store mem (ts ++ us) (bs ++ cs) = store (store mem ts bs) us cs
  | [], [], _, _, _, _ => rfl
  | t :: ts, b :: bs, us, cs, mem, h =>
    store_append ts bs us cs (Function.update mem t.1 (Function.update (mem t.1) t.2 b))
      (Nat.succ.inj h)

/-- A store changes its places only. -/
theorem store_other {i k : Nat} : ∀ (ts : List (Nat × Nat)) (bs : List UInt8) (mem : MsgMem),
    (i, k) ∉ ts → store mem ts bs i k = mem i k
  | [], _, _, _ => rfl
  | _ :: _, [], _, _ => rfl
  | (j, l) :: ts, b :: bs, mem, h => by
    rw [List.mem_cons, not_or] at h
    rw [store, store_other ts bs _ h.2]
    by_cases hj : i = j
    · subst hj
      have hk : k ≠ l := fun hk => h.1 (by rw [hk])
      rw [Function.update_self, Function.update_of_ne hk]
    · rw [Function.update_of_ne hj]

/-- The steps, by the bus and by the buffers. -/
theorem foldl_runOp (slave : Slave) : ∀ (ops : List Op) (bus : List BusEvent) (mem : MsgMem),
    ops.foldl (runOp slave) (bus, mem) =
      (busAfter slave bus ops, store mem (gets ops) (received slave bus ops))
  | [], _, _ => rfl
  | .start :: ops, bus, mem => foldl_runOp slave ops (bus ++ [.start]) mem
  | .put b :: ops, bus, mem => foldl_runOp slave ops (bus ++ [.write b true]) mem
  | .get i k nack :: ops, bus, mem =>
    foldl_runOp slave ops (bus ++ [.read (slave bus) nack])
      (Function.update mem i (Function.update (mem i) k (slave bus)))

/-- What is received belongs into a read message. -/
theorem gets_msgsOps (mem : MsgMem) {k off : Nat} : ∀ (ms : List I2cMsg) (i : Nat),
    (k, off) ∈ gets (msgsOps mem i ms) →
    ∃ m, ∃ j, k = i + j ∧ ms[j]? = some m ∧ m.rd = true ∧ off < m.len
  | [], _, h => absurd h List.not_mem_nil
  | m :: ms, i, h => by
    rw [msgsOps, gets_append, List.mem_append] at h
    rcases h with h | h
    · have h : (k, off) ∈ gets (dataOps mem i m 0 m.len) := h
      cases hr : m.rd
      · rw [dataOps_write mem i hr, Performs.gets_map_put] at h
        exact absurd h List.not_mem_nil
      · rw [gets_dataOps mem i hr, List.mem_map] at h
        obtain ⟨a, ha, he⟩ := h
        obtain ⟨rfl, rfl⟩ := Prod.mk.inj he
        rw [List.mem_range'_1] at ha
        exact ⟨m, 0, rfl, rfl, hr, by omega⟩
    · obtain ⟨m', j, hk, hm, hr, hlt⟩ := gets_msgsOps mem ms (i + 1) h
      exact ⟨m', j + 1, by omega, hm, hr, hlt⟩

/-! ## `esp32s31_i2c_drain` -/

theorem drainBytes_eq (msg : Nat) : ∀ (bs : List UInt8) (off : Nat) (s : Esp32s31I2c)
    (t : List UInt8), s.base.rxFifo = bs ++ t →
    s.drainBytes msg off bs.length = { s with
      base := { s.base with rxFifo := t }
      mem := store s.mem ((List.range' off bs.length).map (msg, ·)) bs }
  | [], off, s, t, h => by
    have h : s.base.rxFifo = t := h
    subst h
    rfl
  | b :: bs, off, s, t, h => by
    rw [List.length_cons, Esp32s31I2c.drainBytes, drainBytes_eq msg bs (off + 1) _ t (by
      show s.base.rxFifo.tail = _
      rw [h]
      rfl), List.range'_succ]
    simp only [readData, h]
    rfl

/-- The buffers of the read commands get the bytes of the FIFO in order. -/
theorem drainAll_eq : ∀ (rx : List I2cRx) (s : Esp32s31I2c) (bs t : List UInt8),
    s.base.rxFifo = bs ++ t → (rx.flatMap I2cRx.targets).length = bs.length →
    rx.foldl (fun s r => s.drainBytes r.msg r.off r.len) s = { s with
      base := { s.base with rxFifo := t }
      mem := store s.mem (rx.flatMap I2cRx.targets) bs }
  | [], s, bs, t, h, hl => by
    obtain rfl : bs = [] := List.length_eq_zero_iff.mp hl.symm
    have h : s.base.rxFifo = t := h
    subst h
    rfl
  | r :: rx, s, bs, t, h, hl => by
    have hr : r.targets.length = r.len := by simp [I2cRx.targets]
    rw [List.flatMap_cons, List.length_append, hr] at hl
    have hlen : (bs.take r.len).length = r.len := by
      rw [List.length_take]
      omega
    have hd := drainBytes_eq r.msg (bs.take r.len) r.off s (bs.drop r.len ++ t)
      (by rw [← List.append_assoc, List.take_append_drop]; exact h)
    rw [hlen] at hd
    have hs : store s.mem (r.targets ++ rx.flatMap I2cRx.targets) bs =
        store (store s.mem r.targets (bs.take r.len)) (rx.flatMap I2cRx.targets)
          (bs.drop r.len) := by
      rw [← store_append _ _ _ _ _ (by rw [hr, hlen]), List.take_append_drop]
    rw [List.foldl_cons, hd, List.flatMap_cons, hs,
      drainAll_eq rx _ (bs.drop r.len) t rfl (by rw [List.length_drop]; omega)]
    rfl

/-- **`esp32s31_i2c_drain`** stores the bytes that the list received, each at its place. -/
theorem drain_eq {s : Esp32s31I2c} {ts : List (Nat × Nat)}
    (ht : s.rx.flatMap I2cRx.targets = ts) (hl : ts.length = s.base.rxFifo.length) :
    s.drain = { s with
      base := { s.base with rxFifo := [] }
      mem := store s.mem ts s.base.rxFifo
      rx := [] } := by
  rw [Esp32s31I2c.drain, drainAll_eq s.rx s s.base.rxFifo []
    (List.append_nil _).symm (by rw [ht, hl]), ht]

/-! ## `esp32s31_i2c_irq` -/

/-- The interrupt of an END: the next list. -/
theorem irq_end {s : Esp32s31I2c} (h : s.err = 0) : s.irq intEndDetect =
    (s.drain.fill, .restarted) := by
  have hs : { s with err := 0 } = s := by rw [← h]
  simp only [Esp32s31I2c.irq, h, hs, show intEndDetect ≠ 0 by decide,
    show intEndDetect &&& intNack = 0 by decide, show intEndDetect &&& intArbLost = 0 by decide,
    show intEndDetect &&& intTimeouts = 0 by decide,
    show intEndDetect &&& intEndDetect ≠ 0 by decide, ne_eq, not_true, not_false_eq_true, if_false,
    and_self, if_true]

/-- The interrupt of a STOP: the transfer is complete. -/
theorem irq_stop {s : Esp32s31I2c} (h : s.err = 0) : s.irq intTransComplete =
    (s.drain, .completed) := by
  have hs : { s with err := 0 } = s := by rw [← h]
  simp only [Esp32s31I2c.irq, h, hs, show intTransComplete ≠ 0 by decide,
    show intTransComplete &&& intNack = 0 by decide, show intTransComplete &&& intArbLost = 0 by
    decide, show intTransComplete &&& intTimeouts = 0 by decide,
    show intTransComplete &&& intEndDetect = 0 by decide,
    show intTransComplete &&& intTransComplete ≠ 0 by decide, ne_eq, not_true, not_false_eq_true,
    if_false, and_false, if_true]

/-! ## A whole transfer -/

/-- A list of at most seven commands runs up to its END or STOP. -/
theorem list_split (f : Nat → U32) {n : Nat} (h : n ≤ 7) : ∃ junk,
    (List.range i2cNcmds).map f = (List.range n).map f ++ f n :: junk := by
  refine ⟨((List.range (7 - n)).map fun k => f (n + (k + 1))), ?_⟩
  rw [show i2cNcmds = n + ((7 - n) + 1) by show 8 = _; omega, List.range_add, List.map_append,
    List.range_succ_eq_map]
  simp only [List.map_cons, List.map_map]
  rfl

theorem runList_stop (slave : Slave) (junk : List U32) (c : Controller) :
    runList slave (cmdWord opStop 0 0 :: junk) c =
      some ({ c with bus := c.bus ++ [.stop] }, intTransComplete) :=
  if_pos (show cmdOp (cmdWord opStop 0 0) = opStop by decide)

theorem runList_end (slave : Slave) (junk : List U32) (c : Controller) :
    runList slave (cmdWord opEnd 0 0 :: junk) c = some (c, intEndDetect) :=
  (if_neg (show cmdOp (cmdWord opEnd 0 0) ≠ opStop by decide)).trans
    (if_pos (show cmdOp (cmdWord opEnd 0 0) = opEnd by decide))

/-- The state between two lists: `mem` holds what the messages write, `todo` are all the steps, and
what is done of them is on the bus and in the buffers. -/
structure Between (slave : Slave) (mem : MsgMem) (bus : List BusEvent) (s : Esp32s31I2c) :
    Prop where
  placed : Placed s
  err : s.err = 0
  txFifo : s.base.txFifo = []
  rxFifo : s.base.rxFifo = []
  done : ∃ ops, msgsOps mem 0 s.msgs = ops ++ rest mem s ∧
    ops.foldl (runOp slave) (bus, mem) = (s.base.bus, s.mem)

/-- The write buffers are as they were. -/
theorem Between.unwritten {slave : Slave} {mem : MsgMem} {bus : List BusEvent} {s : Esp32s31I2c}
    (h : Between slave mem bus s) : Unwritten mem s := by
  intro i m hm hw
  obtain ⟨ops, ho, hd⟩ := h.done
  rw [foldl_runOp] at hd
  rw [← (Prod.mk.inj hd).2]
  funext k
  refine store_other _ _ _ fun hk => ?_
  obtain ⟨m', j, hj, hm', hr, -⟩ := gets_msgsOps mem s.msgs 0 (by
    rw [ho, gets_append]
    exact List.mem_append_left _ hk)
  rw [show j = i by omega, hm] at hm'
  obtain rfl : m = m' := Option.some.inj hm'
  rw [hw] at hr
  exact absurd hr (by decide)

/-- The controller after the commands of a list that performs `ops`. -/
def Controller.performed (c : Controller) (slave : Slave) (ops : List Op) : Controller :=
  { c with txFifo := [], rxFifo := received slave c.bus ops, bus := busAfter slave c.bus ops }

/-- **One list**: the controller runs it up to its END or STOP, and draining it is again a state
between two lists, with fewer steps left. -/
theorem Between.list {slave : Slave} {mem : MsgMem} {bus : List BusEvent} {s : Esp32s31I2c}
    (h : Between slave mem bus s) : ∃ ops c, rest mem s = ops ++ rest mem s.fill ∧
      (rest mem s ≠ [] → ops ≠ []) ∧ s.fill.msgs = s.msgs ∧ s.fill.err = 0 ∧
      s.fill.rx.flatMap I2cRx.targets = gets ops ∧ (gets ops).length = c.rxFifo.length ∧
      s.fill.base.start slave =
        (if rest mem s.fill = [] then some ({ c with bus := c.bus ++ [.stop] }, intTransComplete)
        else some (c, intEndDetect)) ∧
      Between slave mem bus (s.fill.ran c).drain := by
  obtain ⟨ops, n, hr, hne, hf, hp, hlast⟩ := fill_spec mem h.placed h.unwritten h.txFifo
  generalize s.fill = t at hr hf hp hlast ⊢
  obtain ⟨junk, hl⟩ := list_split t.base.comd hf.cmd
  have hrun := (hf.performs slave).run t.base [] (by rw [hf.fifo, List.append_nil]) (by
    rw [hf.rxFifo, h.rxFifo, ← hf.rx, List.length_nil, Nat.zero_add]
    exact hf.rxLe)
  rw [hf.rxFifo, h.rxFifo, List.nil_append] at hrun
  have hrun : _ = some (t.base.performed slave ops) := hrun
  have hlen : (gets ops).length = (t.base.performed slave ops).rxFifo.length :=
    (length_received slave ops t.base.bus).symm
  have herr : t.err = 0 := hf.same.2.1.trans h.err
  refine ⟨ops, t.base.performed slave ops, hr, hne, hf.same.2.2, herr, hf.targets, hlen, ?_, ?_⟩
  · rw [Controller.start, hl, runList_append slave _ junk _ _ (hf.performs slave).goes_on, hrun,
      hlast]
    by_cases hz : rest mem t = []
    · rw [if_pos hz, if_pos hz]
      exact runList_stop slave junk _
    · rw [if_neg hz, if_neg hz]
      exact runList_end slave junk _
  · have hdrain := drain_eq (s := t.ran (t.base.performed slave ops)) hf.targets hlen
    obtain ⟨ops₀, ho, hd⟩ := h.done
    rw [hdrain]
    refine ⟨hp, herr, rfl, rfl, ops₀ ++ ops, ?_, ?_⟩
    · refine (congrArg (msgsOps mem 0) hf.same.2.2).trans ?_
      rw [ho, hr, ← List.append_assoc]
      rfl
    · rw [List.foldl_append, hd, foldl_runOp, ← hf.same.1, ← hf.bus]
      rfl

/-- **All lists** up to the one with STOP: all steps, and the STOP. -/
theorem Between.transfer {slave : Slave} {mem : MsgMem} {bus : List BusEvent} :
    ∀ (fuel : Nat) (s : Esp32s31I2c), Between slave mem bus s → (rest mem s).length < fuel →
    ∃ s', Esp32s31I2c.transfer slave fuel s.fill = some s' ∧ s'.err = 0 ∧
      (s'.base.bus, s'.mem) = (fun y : List BusEvent × MsgMem => (y.1 ++ [.stop], y.2))
        ((msgsOps mem 0 s.msgs).foldl (runOp slave) (bus, mem))
  | 0, _, _, hl => absurd hl (Nat.not_lt_zero _)
  | fuel + 1, s, h, hl => by
    obtain ⟨ops, c, hr, hne, hmsgs, herr, ht, hlen, hstart, hb⟩ := h.list
    have hdrain := drain_eq (s := s.fill.ran c) ht hlen
    by_cases hz : rest mem s.fill = []
    · rw [if_pos hz] at hstart
      have hstop := irq_stop (s := s.fill.ran { c with bus := c.bus ++ [.stop] }) herr
      obtain ⟨ops₀, ho, hd⟩ := hb.done
      rw [hdrain] at ho hd
      refine ⟨(s.fill.ran { c with bus := c.bus ++ [.stop] }).drain,
        by simp only [Esp32s31I2c.transfer, hstart, hstop], ?_, ?_⟩
      · rw [drain_eq (s := s.fill.ran { c with bus := c.bus ++ [.stop] }) ht hlen]
        exact herr
      · rw [drain_eq (s := s.fill.ran { c with bus := c.bus ++ [.stop] }) ht hlen,
          ← hmsgs, show msgsOps mem 0 s.fill.msgs = ops₀ ++ rest mem s.fill from ho, hz,
          List.append_nil, hd]
        rfl
    · rw [if_neg hz] at hstart
      have hend := irq_end (s := s.fill.ran c) herr
      have hrest : rest mem (s.fill.ran c).drain = rest mem s.fill := by
        rw [hdrain]
        rfl
      have hshort : (rest mem s.fill).length < (rest mem s).length := by
        have h0 := List.length_pos_iff.mpr (hne fun h0 =>
          hz (List.append_eq_nil_iff.mp (hr.symm.trans h0)).2)
        rw [hr, List.length_append]
        omega
      obtain ⟨s', hs', he, hb'⟩ :=
        Between.transfer fuel (s.fill.ran c).drain hb (by rw [hrest]; omega)
      refine ⟨s', by simp only [Esp32s31I2c.transfer, hstart, hend]; exact hs', he, ?_⟩
      rw [hb', hdrain]
      exact congrArg (fun ms => (fun y : List BusEvent × MsgMem => (y.1 ++ [.stop], y.2))
        ((msgsOps mem 0 ms).foldl (runOp slave) (bus, mem))) hmsgs

/-- **A transfer is the reference transaction**: whatever the messages and the slave, the driver
comes to an end without an error; the bus has seen the reference transaction, the read buffers hold
what it puts there, and no other byte of memory has changed. -/
theorem i2c_transfer_eq_reference (slave : Slave) (s : Esp32s31I2c) (msgs : List I2cMsg)
    (hten : ∀ m ∈ msgs, m.flags &&& i2cMTen = 0) (fuel : Nat)
    (hfuel : (msgsOps s.mem 0 msgs).length < fuel) :
    ∃ s' : Esp32s31I2c, s.xfer slave fuel msgs = some (s', (msgs.length : Int)) ∧
      (s'.base.bus, s'.mem) = reference slave msgs (s.base.bus, s.mem) ∧
      ∀ i k, (∀ m, msgs[i]? = some m → m.rd = true → m.len ≤ k) → s'.mem i k = s.mem i k := by
  have hany : (msgs.any fun m => m.flags &&& i2cMTen ≠ 0) = false := by
    rw [List.any_eq_false]
    intro m hm
    simp [hten m hm]
  have h0 : Between slave s.mem s.base.bus { s with
      msgs := msgs, msg := 0, pos := 0, addressed := false, err := 0
      base := { s.base with txFifo := [], rxFifo := [] } } :=
    ⟨rfl, rfl, rfl, rfl, [], rfl, rfl⟩
  obtain ⟨s', hs', herr, hb⟩ := Between.transfer fuel _ h0 hfuel
  refine ⟨s', ?_, hb, fun i k hik => ?_⟩
  · unfold Esp32s31I2c.xfer
    rw [hany, if_neg (by decide)]
    refine (congrArg (Option.map _) hs').trans ?_
    rw [Option.map_some, if_neg (not_not_intro herr)]
  · rw [foldl_runOp] at hb
    rw [(Prod.mk.inj hb).2]
    refine store_other _ _ _ fun hk => ?_
    obtain ⟨m, j, hj, hm, hr, hlt⟩ := gets_msgsOps s.mem msgs 0 hk
    have := hik m (by rw [show i = j by omega]; exact hm) hr
    omega

/-- A register write of two bytes and a read of forty from a slave that counts: more than one list.
-/
theorem i2c_transfer_eq_reference_run :
    ∃ s' : Esp32s31I2c,
      Esp32s31I2c.xfer (fun bus => .ofNat bus.length) 60
        ⟨⟨fun _ => 0, [], [], []⟩, fun _ k => .ofNat k, 0, [], 0, 0, false, []⟩
        [⟨0x48, 0, 2⟩, ⟨0x48, 1, 40⟩] = some (s', 2) ∧
      (s'.base.bus, s'.mem) = reference (fun bus => .ofNat bus.length) [⟨0x48, 0, 2⟩, ⟨0x48, 1, 40⟩]
        ([], fun _ k => .ofNat k) ∧
      ∀ i k, (∀ m, [(⟨0x48, 0, 2⟩ : I2cMsg), ⟨0x48, 1, 40⟩][i]? = some m → m.rd = true →
        m.len ≤ k) → s'.mem i k = .ofNat k :=
  i2c_transfer_eq_reference (fun bus => .ofNat bus.length)
    ⟨⟨fun _ => 0, [], [], []⟩, fun _ k => .ofNat k, 0, [], 0, 0, false, []⟩
    [⟨0x48, 0, 2⟩, ⟨0x48, 1, 40⟩] (by decide) 60 (by decide)

end Esp32S31.I2c
