import Esp32S31.I2c.Concurrent
import Esp32S31.I2c.Transfer

/-!
# What is left of a step

The handler and the controller stop in the middle of what `Esp32s31I2c.irq` and `Controller.start`
do at once. What is left is a function of the place, and a step of the thread keeps it.

* **`irqStep_rest`**: the handler, step by step, comes to the driver of `Esp32s31I2c.irq`.
* **`ctlStep_rest`**: the controller, byte by byte, comes to the end of `Controller.start`.
-/

namespace Esp32S31.I2c

open Esp32S31.Lib

namespace Esp32s31I2c

variable {s s' : Esp32s31I2c} {b b' : Batch}

/-! ## The handler -/

/-- `esp32s31_i2c_fill` from a turn of its loop on. -/
def fillRest (s : Esp32s31I2c) (b : Batch) : Esp32s31I2c :=
  (fillLoop i2cNcmds s b).1.fillEnd (fillLoop i2cNcmds s b).2

theorem fill_eq_rest (s : Esp32s31I2c) : s.fill = fillRest { s with rx := [] } ⟨0, 0, 0⟩ := rfl

/-- More turns than there are commands change nothing. -/
theorem fillLoop_succ : ∀ (n : Nat) (s : Esp32s31I2c) (b : Batch), 7 < b.cmd + n →
    fillLoop (n + 1) s b = fillLoop n s b
  | 0, s, b, h => by
    cases ht : s.fillTurn b with
    | none => simp only [fillLoop, ht]
    | some x =>
      have := fillTurn_cmd (show s.fillTurn b = some (x.1, x.2) from ht)
      omega
  | n + 1, s, b, h => by
    cases ht : s.fillTurn b with
    | none => simp only [fillLoop, ht]
    | some x =>
      have := fillTurn_cmd (show s.fillTurn b = some (x.1, x.2) from ht)
      have ih := fillLoop_succ n x.1 x.2 (by omega)
      unfold fillLoop
      rw [ht]
      exact ih

theorem fillRest_turn (h : s.fillTurn b = some (s', b')) : s'.fillRest b' = s.fillRest b := by
  have hcmd := fillTurn_cmd h
  have hloop : fillLoop i2cNcmds s b = fillLoop i2cNcmds s' b' := by
    refine Eq.trans ?_ (fillLoop_succ 7 s' b' (by omega)).symm
    unfold i2cNcmds fillLoop
    rw [h]
    rfl
  unfold fillRest
  rw [hloop]

theorem fillRest_end (h : s.fillTurn b = none) : s.fillEnd b = s.fillRest b := by
  have hloop : fillLoop i2cNcmds s b = (s, b) := by
    unfold i2cNcmds fillLoop
    rw [h]
  unfold fillRest
  rw [hloop]

/-- The read commands `rx` are drained. -/
def drained (rx : List I2cRx) (s : Esp32s31I2c) : Esp32s31I2c :=
  { rx.foldl (fun s r => s.drainBytes r.msg r.off r.len) s with rx := [] }

/-- `esp32s31_i2c_drain` from a byte of a read command on. -/
def drainRest (s : Esp32s31I2c) (i j : Nat) : Esp32s31I2c :=
  match s.rx[i]? with
  | none => { s with rx := [] }
  | some r => drained (s.rx.drop (i + 1)) (s.drainBytes r.msg (r.off + j) (r.len - j))

theorem drainRest_some {i j : Nat} {r : I2cRx} (h : s.rx[i]? = some r) :
    s.drainRest i j = drained (s.rx.drop (i + 1)) (s.drainBytes r.msg (r.off + j) (r.len - j)) := by
  unfold drainRest
  rw [h]

theorem drainRest_none {i j : Nat} (h : s.rx[i]? = none) : s.drainRest i j =
    { s with rx := [] } := by
  unfold drainRest
  rw [h]

theorem drain_eq_rest (s : Esp32s31I2c) : s.drain = s.drainRest 0 0 := by
  unfold drain drainRest
  cases s.rx with
  | nil => rfl
  | cons r rx => rfl

theorem drainRest_byte {i j : Nat} {r : I2cRx} (hr : s.rx[i]? = some r) (hj : j < r.len) :
    (s.readData r.msg (r.off + j)).drainRest i (j + 1) = s.drainRest i j := by
  have hr' : (s.readData r.msg (r.off + j)).rx[i]? = some r := hr
  obtain ⟨k, hk⟩ : ∃ k, r.len - j = k + 1 := ⟨r.len - j - 1, by omega⟩
  rw [drainRest_some hr, drainRest_some hr', hk, show r.len - (j + 1) = k by omega]
  rfl

theorem drainRest_next {i j : Nat} {r : I2cRx} (hr : s.rx[i]? = some r) (hj : r.len ≤ j) :
    s.drainRest (i + 1) 0 = s.drainRest i j := by
  rw [drainRest_some hr, Nat.sub_eq_zero_of_le hj]
  cases hn : s.rx[i + 1]? with
  | none =>
    rw [drainRest_none hn, List.drop_eq_nil_of_le (List.getElem?_eq_none_iff.mp hn)]
    rfl
  | some r' =>
    obtain ⟨hlt, rfl⟩ := List.getElem?_eq_some_iff.mp hn
    rw [drainRest_some hn, List.drop_eq_getElem_cons hlt]
    rfl

/-- `Esp32s31I2c.irq` from a step of the handler on. -/
def irqRest : IrqPc → Esp32s31I2c → Esp32s31I2c
  | .intClr status, d | .judge status, d => (d.irq status).1
  | .drain more i j, d => if more then (d.drainRest i j).fill else d.drainRest i j
  | .fillStart, d => d.fill
  | .fill b, d => d.fillRest b
  | _, d => d

/-- The branches of `Esp32s31I2c.irq`. -/
theorem irq_fst (s : Esp32s31I2c) (status : U32) :
    (s.irq status).1 =
      let err := errOf status s.err
      let s : Esp32s31I2c := { s with err := err }
      if err = 0 ∧ status &&& intEndDetect ≠ 0 then s.drain.fill
      else if err ≠ 0 then s
      else if status &&& intTransComplete ≠ 0 then s.drain
      else s := by
  unfold irq
  by_cases h : status = 0
  · subst h
    have he : errOf 0 s.err = s.err := rfl
    simp only [he]
    rw [if_pos trivial, if_neg (fun h => h.2 rfl)]
    by_cases h0 : s.err = 0
    · rw [if_neg (not_not_intro h0), if_neg (fun h => h rfl)]
    · rw [if_pos h0]
  · rw [if_neg h]
    simp only [apply_ite Prod.fst]
    rfl

theorem irqRest_judge (status : U32) (d : Esp32s31I2c) : irqRest (.judge status) d =
    (d.irq status).1 := rfl

theorem irqRest_drain (more : Bool) (i j : Nat) (d : Esp32s31I2c) :
    irqRest (.drain more i j) d = if more then (d.drainRest i j).fill else d.drainRest i j := rfl

/-- The judgement of a status. -/
theorem irqRest_judged (status : U32) (d : Esp32s31I2c) :
    irqRest (if errOf status d.err = 0 ∧ status &&& intEndDetect ≠ 0 then .drain true 0 0
      else if errOf status d.err ≠ 0 then .disable
      else if status &&& intTransComplete ≠ 0 then .drain false 0 0
      else .out) { d with err := errOf status d.err } = (d.irq status).1 := by
  rw [irq_fst]
  dsimp only
  by_cases hend : errOf status d.err = 0 ∧ status &&& intEndDetect ≠ 0
  · rw [if_pos hend, if_pos hend, irqRest_drain, if_pos rfl, drain_eq_rest]
  · rw [if_neg hend, if_neg hend]
    by_cases herr : errOf status d.err ≠ 0
    · rw [if_pos herr, if_pos herr]
      rfl
    · rw [if_neg herr, if_neg herr]
      by_cases hstop : status &&& intTransComplete ≠ 0
      · rw [if_pos hstop, if_pos hstop, irqRest_drain, if_neg (by simp), drain_eq_rest]
      · rw [if_neg hstop, if_neg hstop]
        rfl

/-- **Step by step the handler comes to `Esp32s31I2c.irq`.** -/
theorem irqStep_rest {s s' : Sys} (h : s.irqStep = some s') (hpc : s.irq ≠ .status) :
    irqRest s'.irq s'.drv = irqRest s.irq s.drv := by
  unfold Sys.irqStep at h
  cases hi : s.irq with
  | out => simp only [hi] at h; cases h
  | status => exact absurd hi hpc
  | intClr status =>
    simp only [hi] at h
    obtain rfl := Option.some.inj h
    rfl
  | judge status =>
    simp only [hi] at h
    obtain rfl := Option.some.inj h
    exact irqRest_judged status s.drv
  | drain more i j =>
    simp only [hi] at h
    cases hr : s.drv.rx[i]? with
    | some r =>
      simp only [hr] at h
      by_cases hj : j < r.len
      · rw [if_pos hj] at h
        obtain rfl := Option.some.inj h
        dsimp only
        rw [irqRest_drain, irqRest_drain, drainRest_byte hr hj]
      · rw [if_neg hj] at h
        obtain rfl := Option.some.inj h
        dsimp only
        rw [irqRest_drain, irqRest_drain, drainRest_next hr (Nat.le_of_not_lt hj)]
    | none =>
      simp only [hr] at h
      obtain rfl := Option.some.inj h
      dsimp only
      rw [irqRest_drain, drainRest_none hr]
      cases more with
      | true => rfl
      | false => rfl
  | fillStart =>
    simp only [hi] at h
    obtain rfl := Option.some.inj h
    exact (fill_eq_rest s.drv).symm
  | fill b =>
    simp only [hi] at h
    cases ht : s.drv.fillTurn b with
    | some x =>
      simp only [ht] at h
      obtain rfl := Option.some.inj h
      exact fillRest_turn ht
    | none =>
      simp only [ht] at h
      obtain rfl := Option.some.inj h
      exact fillRest_end ht
  | start | disable | complete =>
    simp only [hi] at h
    obtain rfl := Option.some.inj h
    rfl

end Esp32s31I2c

/-! ## The controller -/

section Controller

variable {slave : Slave} {c c' : Controller} {i j : Nat}

/-- The commands from `i` on. -/
def Controller.listFrom (c : Controller) (i : Nat) : List U32 :=
    (List.range' i (i2cNcmds - i)).map c.comd

/-- `Controller.start` from a byte of a command on. -/
def ctlRest (slave : Slave) (c : Controller) (i j : Nat) : Option (Controller × U32) :=
  match c.listFrom i with
  | [] => none
  | w :: ws =>
    if cmdOp w = opWrite then (sendBytes (w &&& cmdAckCheck ≠ 0) (cmdBytes w - j) c).bind
      (runList slave ws)
    else if cmdOp w = opRead then runList slave ws (receiveBytes slave (w &&& cmdAckValue ≠ 0)
      (cmdBytes w - j) c)
    else runList slave (w :: ws) c

theorem listFrom_cons (h : i < i2cNcmds) : c.listFrom i = c.comd i :: c.listFrom (i + 1) := by
  unfold Controller.listFrom
  rw [show i2cNcmds - i = (i2cNcmds - (i + 1)) + 1 by omega, List.range'_succ]
  rfl

theorem ctlRest_cons (h : i < i2cNcmds) : ctlRest slave c i j =
    if cmdOp (c.comd i) = opWrite then
      (sendBytes (c.comd i &&& cmdAckCheck ≠ 0) (cmdBytes (c.comd i) - j) c).bind
        (runList slave (c.listFrom (i + 1)))
    else if cmdOp (c.comd i) = opRead then
      runList slave (c.listFrom (i + 1))
        (receiveBytes slave (c.comd i &&& cmdAckValue ≠ 0) (cmdBytes (c.comd i) - j) c)
    else runList slave (c.comd i :: c.listFrom (i + 1)) c := by
  unfold ctlRest
  rw [listFrom_cons h]

/-- At the first byte of a command. -/
theorem ctlRest_zero : ctlRest slave c i 0 = runList slave (c.listFrom i) c := by
  unfold ctlRest
  cases c.listFrom i with
  | nil => rfl
  | cons w ws =>
    dsimp only
    by_cases hw : cmdOp w = opWrite
    · rw [if_pos hw, runList, hw, if_neg (by decide), if_neg (by decide), execCmd, hw,
        if_neg (by decide), if_pos rfl]
      rfl
    · rw [if_neg hw]
      by_cases hr : cmdOp w = opRead
      · rw [if_pos hr, runList, hr, if_neg (by decide), if_neg (by decide), execCmd, hr,
          if_neg (by decide), if_neg (by decide), if_pos rfl]
        rfl
      · rw [if_neg hr]

theorem start_eq_rest : c.start slave = ctlRest slave c 0 0 := by
  rw [ctlRest_zero]
  unfold Controller.start Controller.listFrom
  rw [List.range_eq_range']
  rfl

theorem ctlRest_stop (hi : i < i2cNcmds) (hop : cmdOp (c.comd i) = opStop) :
    ctlRest slave c i j = some ({ c with bus := c.bus ++ [.stop] }, intTransComplete) := by
  rw [ctlRest_cons hi, hop, if_neg (by decide), if_neg (by decide), runList, hop, if_pos rfl]

theorem ctlRest_end (hi : i < i2cNcmds) (hop : cmdOp (c.comd i) = opEnd) :
    ctlRest slave c i j = some (c, intEndDetect) := by
  rw [ctlRest_cons hi, hop, if_neg (by decide), if_neg (by decide), runList, hop,
    if_neg (by decide), if_pos rfl]

theorem ctlRest_rstart (hi : i < i2cNcmds) (hop : cmdOp (c.comd i) = opRstart) :
    ctlRest slave { c with bus := c.bus ++ [.start] } (i + 1) 0 = ctlRest slave c i j := by
  rw [ctlRest_zero, ctlRest_cons hi, hop, if_neg (by decide), if_neg (by decide), runList, hop,
    if_neg (by decide), if_neg (by decide), execCmd, hop, if_pos rfl]
  rfl

/-- All bytes of a command are behind it. -/
theorem ctlRest_next (hi : i < i2cNcmds)
    (hop : cmdOp (c.comd i) = opWrite ∨ cmdOp (c.comd i) = opRead)
    (hj : cmdBytes (c.comd i) ≤ j) : ctlRest slave c (i + 1) 0 = ctlRest slave c i j := by
  rw [ctlRest_zero, ctlRest_cons hi, Nat.sub_eq_zero_of_le hj]
  rcases hop with hop | hop
  · rw [hop, if_pos rfl]
    rfl
  · rw [hop, if_neg (by decide), if_pos rfl]
    rfl

theorem ctlRest_write (hi : i < i2cNcmds) (hop : cmdOp (c.comd i) = opWrite)
    (hj : j < cmdBytes (c.comd i))
    (hc : sendBytes (c.comd i &&& cmdAckCheck ≠ 0) 1 c = some c') :
    ctlRest slave c' i (j + 1) = ctlRest slave c i j := by
  cases hf : c.txFifo with
  | nil =>
    simp only [sendBytes, hf] at hc
    cases hc
  | cons b bs =>
    simp only [sendBytes, hf] at hc
    obtain rfl := Option.some.inj hc
    rw [ctlRest_cons hi, ctlRest_cons hi, if_pos hop, if_pos hop,
      show cmdBytes (c.comd i) - j = (cmdBytes (c.comd i) - (j + 1)) + 1 by omega, sendBytes, hf]
    rfl

theorem ctlRest_read (hi : i < i2cNcmds) (hop : cmdOp (c.comd i) = opRead)
    (hj : j < cmdBytes (c.comd i)) :
    ctlRest slave (receiveBytes slave (c.comd i &&& cmdAckValue ≠ 0) 1 c) i (j + 1) = ctlRest slave
      c i j := by
  have hcomd : (receiveBytes slave (c.comd i &&& cmdAckValue ≠ 0) 1 c).comd = c.comd := rfl
  rw [ctlRest_cons hi, ctlRest_cons hi, hcomd, hop, if_neg (by decide), if_pos rfl,
    if_neg (by decide), if_pos rfl,
    show cmdBytes (c.comd i) - j = (cmdBytes (c.comd i) - (j + 1)) + 1 by omega]
  rfl

/-- **Byte by byte the controller comes to the end of `Controller.start`.** -/
theorem ctlStep_rest {bits : U32} {fsm : Fsm} (h : Sys.ctlStep slave c i j = some (c', bits, fsm)) :
    (bits = 0 ∧ ∃ i' j', fsm = .run i' j' ∧ ctlRest slave c' i' j' = ctlRest slave c i j) ∨
    (bits = intEndDetect ∧ fsm = .held ∧ ctlRest slave c i j = some (c', intEndDetect)) ∨
    (bits = intTransComplete ∧ fsm = .idle ∧
      ctlRest slave c i j = some (c', intTransComplete)) := by
  unfold Sys.ctlStep at h
  dsimp only at h
  by_cases hi : i2cNcmds ≤ i
  · rw [if_pos hi] at h
    cases h
  rw [if_neg hi] at h
  have hi := Nat.lt_of_not_le hi
  by_cases hstop : cmdOp (c.comd i) = opStop
  · rw [if_pos hstop] at h
    cases h
    exact Or.inr (Or.inr ⟨rfl, rfl, ctlRest_stop hi hstop⟩)
  rw [if_neg hstop] at h
  by_cases hend : cmdOp (c.comd i) = opEnd
  · rw [if_pos hend] at h
    cases h
    exact Or.inr (Or.inl ⟨rfl, rfl, ctlRest_end hi hend⟩)
  rw [if_neg hend] at h
  left
  by_cases hstart : cmdOp (c.comd i) = opRstart
  · rw [if_pos hstart] at h
    cases h
    exact ⟨rfl, _, _, rfl, ctlRest_rstart hi hstart⟩
  rw [if_neg hstart] at h
  by_cases hw : cmdOp (c.comd i) = opWrite
  · rw [if_pos hw] at h
    by_cases hj : j < cmdBytes (c.comd i)
    · rw [if_pos hj] at h
      obtain ⟨c₁, hc, he⟩ := Option.map_eq_some_iff.mp h
      cases he
      exact ⟨rfl, _, _, rfl, ctlRest_write hi hw hj hc⟩
    · rw [if_neg hj] at h
      cases h
      exact ⟨rfl, _, _, rfl, ctlRest_next hi (Or.inl hw) (Nat.le_of_not_lt hj)⟩
  rw [if_neg hw] at h
  by_cases hr : cmdOp (c.comd i) = opRead
  · rw [if_pos hr] at h
    by_cases hj : j < cmdBytes (c.comd i)
    · rw [if_pos hj] at h
      cases h
      exact ⟨rfl, _, _, rfl, ctlRest_read hi hr hj⟩
    · rw [if_neg hj] at h
      cases h
      exact ⟨rfl, _, _, rfl, ctlRest_next hi (Or.inr hr) (Nat.le_of_not_lt hj)⟩
  · rw [if_neg hr] at h
    cases h

end Controller

end Esp32S31.I2c
