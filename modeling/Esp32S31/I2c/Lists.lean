import Esp32S31.I2c.Transfer

/-!
# The lists of a transfer

`fillWrites` are the register writes of `esp32s31_i2c_fill` in their order (`fill_writes`), so that
what the function asks of the hardware can be counted. `Queued ws s b` is the invariant of its loop;
`fill_within` says that a list keeps the limits, whatever the messages.

`lists` are the states in which a transfer calls `esp32s31_i2c_fill`. **`i2c_lists`**: they are
finitely many, each list keeps the limits and queues a command as long as a message is left, and the
last one, and only that, ends with STOP.
-/

namespace Esp32S31.I2c

open Esp32S31.Lib Esp32s31I2c

/-! ## The register writes -/

/-- A write to `I2C_COMD(n)` or to `I2C_DATA`. -/
inductive I2cWrite where
  | comd (n : Nat) (w : U32)
  | data (b : UInt8)
  deriving DecidableEq, Repr

/-- `writel`. -/
def Controller.write (c : Controller) : I2cWrite → Controller
  | .comd n w => { c with comd := Function.update c.comd n w }
  | .data b => { c with txFifo := pushFifo c.txFifo b }

/-- The slots of the list that are written. -/
def slotsOf (ws : List I2cWrite) : List Nat := ws.filterMap fun
  | .comd n _ => some n
  | .data _ => none

/-- The commands that are written. -/
def wordsOf (ws : List I2cWrite) : List U32 := ws.filterMap fun
  | .comd _ w => some w
  | .data _ => none

/-- The bytes that are written to the TX FIFO. -/
def dataOf (ws : List I2cWrite) : List UInt8 := ws.filterMap fun
  | .comd _ _ => none
  | .data b => some b

/-- The bytes that the commands with this opcode ask for. -/
def bytesOf (op : U32) (ws : List U32) : Nat := ((ws.filter (cmdOp · = op)).map cmdBytes).sum

namespace Esp32s31I2c

/-- The writes of `esp32s31_i2c_queue_addr`. -/
def queueAddrWrites (b : Batch) (m : I2cMsg) : List I2cWrite :=
  [.comd b.cmd (cmdWord opRstart 0 0), .data m.addrByte,
    .comd (b.cmd + 1) (cmdWord opWrite 1 cmdAckCheck)]

/-- The writes of `esp32s31_i2c_queue_read`. -/
def queueReadWrites (s : Esp32s31I2c) (b : Batch) (m : I2cMsg) : List I2cWrite :=
  let left := m.len - s.pos
  let n := min left (i2cFifoSize - b.rx)
  let last := if n = left then 1 else 0
  let bulk := n - last
  (if bulk = 0 then [] else [.comd b.cmd (cmdWord opRead bulk 0)]) ++
    if last = 0 then []
    else [.comd (b.cmd + if bulk = 0 then 0 else 1) (cmdWord opRead 1 cmdAckValue)]

/-- The writes of `esp32s31_i2c_queue_write`. -/
def queueWriteWrites (s : Esp32s31I2c) (b : Batch) (m : I2cMsg) : List I2cWrite :=
  let n := min (m.len - s.pos) (i2cFifoSize - b.tx)
  .comd b.cmd (cmdWord opWrite n cmdAckCheck) ::
    (List.range' s.pos n).map fun k => .data (s.mem s.msg k)

/-- The writes of one turn that queues something. -/
def turnWrites (s : Esp32s31I2c) (b : Batch) : List I2cWrite :=
  match s.msgs[s.msg]? with
  | none => []
  | some m =>
    if !s.addressed then queueAddrWrites b m
    else if m.rd then s.queueReadWrites b m
    else s.queueWriteWrites b m

/-- The writes of the loop. -/
def loopWrites : Nat → Esp32s31I2c → Batch → List I2cWrite
  | 0, _, _ => []
  | n + 1, s, b =>
    match s.fillTurn b with
    | none => []
    | some (s', b') => s.turnWrites b ++ loopWrites n s' b'

/-- The writes of `esp32s31_i2c_fill`. -/
def fillWrites (s : Esp32s31I2c) : List I2cWrite :=
  let (t, b) := fillLoop i2cNcmds { s with rx := [] } ⟨0, 0, 0⟩
  loopWrites i2cNcmds { s with rx := [] } ⟨0, 0, 0⟩ ++
    [.comd b.cmd (cmdWord (if t.msg < t.msgs.length then opEnd else opStop) 0 0)]

end Esp32s31I2c

section Writes

variable {s s' : Esp32s31I2c} {b b' : Batch} {m : I2cMsg}

theorem queueAddr_writes (h : s.queueAddr b m = some (s', b')) :
    s'.base = (queueAddrWrites b m).foldl Controller.write s.base := by
  simp only [Esp32s31I2c.queueAddr, Option.ite_none_left_eq_some, Option.some.injEq,
    Prod.mk.injEq] at h
  obtain ⟨-, rfl, -⟩ := h
  rfl

theorem queueRead_writes (h : s.queueRead b m = some (s', b')) :
    s'.base = (s.queueReadWrites b m).foldl Controller.write s.base := by
  simp only [Esp32s31I2c.queueRead, Option.ite_none_left_eq_some, Option.some.injEq,
    Prod.mk.injEq] at h
  obtain ⟨-, rfl, -⟩ := h
  unfold queueReadWrites
  dsimp only
  split <;> split <;> split <;> rfl

/-- The loop that fills the FIFO. -/
theorem writeBytes_writes (n : Nat) (s : Esp32s31I2c) : (s.writeBytes n).base =
    ((List.range' s.pos n).map fun k => .data (s.mem s.msg k)).foldl Controller.write s.base := by
  induction n generalizing s with
  | zero => rfl
  | succ n ih =>
    rw [writeBytes, ih, List.range'_succ, List.map_cons, List.foldl_cons]
    rfl

theorem queueWrite_writes (h : s.queueWrite b m = some (s', b')) :
    s'.base = (s.queueWriteWrites b m).foldl Controller.write s.base := by
  simp only [Esp32s31I2c.queueWrite, Option.ite_none_left_eq_some, Option.some.injEq,
    Prod.mk.injEq] at h
  obtain ⟨-, rfl, -⟩ := h
  exact writeBytes_writes _ (s.cmd _ _ _ _)

theorem fillTurn_writes (h : s.fillTurn b = some (s', b')) :
    s'.base = (s.turnWrites b).foldl Controller.write s.base := by
  unfold Esp32s31I2c.fillTurn at h
  unfold turnWrites
  cases hm : s.msgs[s.msg]? with
  | none =>
    rw [hm] at h
    cases h
  | some m =>
    rw [hm] at h
    obtain ⟨⟨t, c⟩, hq, he⟩ := Option.map_eq_some_iff.mp h
    obtain ⟨rfl, rfl⟩ := Prod.mk.inj he
    have hbase : (if t.pos = m.len then t.nextMsg else t).base = t.base := by
      split <;> rfl
    rw [hbase]
    dsimp only
    split at hq
    · next ha =>
      rw [if_pos ha]
      exact queueAddr_writes hq
    · next ha =>
      rw [if_neg ha]
      split at hq
      · next hrd =>
        rw [if_pos hrd]
        exact queueRead_writes hq
      · next hrd =>
        rw [if_neg hrd]
        exact queueWrite_writes hq

theorem fillLoop_writes (n : Nat) (s : Esp32s31I2c) (b : Batch) :
    (fillLoop n s b).1.base = (loopWrites n s b).foldl Controller.write s.base := by
  induction n generalizing s b with
  | zero => rfl
  | succ n ih =>
    unfold fillLoop loopWrites
    cases ht : s.fillTurn b with
    | none => rfl
    | some x =>
      dsimp only
      rw [ih, List.foldl_append, fillTurn_writes ht]

/-- **`esp32s31_i2c_fill` is these register writes.** -/
theorem fill_writes (s : Esp32s31I2c) :
    s.fill.base = s.fillWrites.foldl Controller.write s.base := by
  unfold Esp32s31I2c.fill fillWrites
  dsimp only
  rw [List.foldl_append, ← fillLoop_writes i2cNcmds { s with rx := [] } ⟨0, 0, 0⟩]
  rfl

end Writes

/-! ## The limits -/

/-- A command that is not END or STOP: RSTART, or a data command of 1 to 32 bytes. -/
def ListWord (w : U32) : Prop :=
  cmdOp w = opRstart ∧ cmdBytes w = 0 ∨
    (cmdOp w = opWrite ∨ cmdOp w = opRead) ∧ 1 ≤ cmdBytes w ∧ cmdBytes w ≤ i2cFifoSize

/-- **The invariant of the loop**: the commands so far, in their slots, and what they use. -/
structure Queued (ws : List I2cWrite) (s : Esp32s31I2c) (b : Batch) : Prop where
  slots : slotsOf ws = List.range b.cmd
  cmd : b.cmd ≤ i2cNcmds - 1
  words : ∀ w ∈ wordsOf ws, ListWord w
  tx : (dataOf ws).length = b.tx
  txBytes : bytesOf opWrite (wordsOf ws) = b.tx
  txLe : b.tx ≤ i2cFifoSize
  rx : (s.rx.map I2cRx.len).sum = b.rx
  rxBytes : bytesOf opRead (wordsOf ws) = b.rx
  rxLe : b.rx ≤ i2cFifoSize
  entries : s.rx.length ≤ b.cmd

@[simp] theorem slotsOf_append (ws vs : List I2cWrite) :
    slotsOf (ws ++ vs) = slotsOf ws ++ slotsOf vs := List.filterMap_append

@[simp] theorem wordsOf_append (ws vs : List I2cWrite) :
    wordsOf (ws ++ vs) = wordsOf ws ++ wordsOf vs := List.filterMap_append

@[simp] theorem dataOf_append (ws vs : List I2cWrite) :
    dataOf (ws ++ vs) = dataOf ws ++ dataOf vs := List.filterMap_append

@[simp] theorem bytesOf_append (op : U32) (ws vs : List U32) :
    bytesOf op (ws ++ vs) = bytesOf op ws + bytesOf op vs := by
  simp [bytesOf]

@[simp] theorem slotsOf_comd (n : Nat) (w : U32) (ws : List I2cWrite) :
    slotsOf (.comd n w :: ws) = n :: slotsOf ws := rfl

@[simp] theorem wordsOf_comd (n : Nat) (w : U32) (ws : List I2cWrite) :
    wordsOf (.comd n w :: ws) = w :: wordsOf ws := rfl

@[simp] theorem dataOf_comd (n : Nat) (w : U32) (ws : List I2cWrite) :
    dataOf (.comd n w :: ws) = dataOf ws := rfl

@[simp] theorem slotsOf_data (b : UInt8) (ws : List I2cWrite) :
    slotsOf (.data b :: ws) = slotsOf ws := rfl

@[simp] theorem wordsOf_data (b : UInt8) (ws : List I2cWrite) :
    wordsOf (.data b :: ws) = wordsOf ws := rfl

@[simp] theorem dataOf_data (b : UInt8) (ws : List I2cWrite) :
    dataOf (.data b :: ws) = b :: dataOf ws := rfl

@[simp] theorem of_nil : slotsOf [] = [] ∧ wordsOf [] = [] ∧ dataOf [] = [] := ⟨rfl, rfl, rfl⟩

/-- A command for each slot. -/
theorem length_wordsOf (ws : List I2cWrite) : (wordsOf ws).length = (slotsOf ws).length := by
  induction ws with
  | nil => rfl
  | cons v ws ih =>
    cases v with
    | comd n w => simp [ih]
    | data b => simp [ih]

/-- Bytes for the FIFO only. -/
theorem of_map_data (bs : List UInt8) : slotsOf (bs.map .data) = [] ∧
    wordsOf (bs.map .data) = [] ∧ dataOf (bs.map .data) = bs := by
  induction bs with
  | nil => exact of_nil
  | cons b bs ih => simp [ih]

/-- The fields of a WRITE, and what it counts for. -/
theorem write_word {n : Nat} (h : n ≤ 32) : cmdOp (cmdWord opWrite n cmdAckCheck) = opWrite ∧
    cmdBytes (cmdWord opWrite n cmdAckCheck) = n := by
  have := Performs.fields_write ⟨n, by omega⟩
  exact ⟨this.1, this.2.1⟩

theorem read_word {n : Nat} (h : n ≤ 32) (nack : Bool) :
    cmdOp (cmdWord opRead n (if nack then cmdAckValue else 0)) = opRead ∧
      cmdBytes (cmdWord opRead n (if nack then cmdAckValue else 0)) = n := by
  have := Performs.fields_read ⟨n, by omega⟩ nack
  exact ⟨this.1, this.2.1⟩

theorem bytesOf_single (op w : U32) : bytesOf op [w] = if cmdOp w = op then cmdBytes w else 0 := by
  by_cases h : cmdOp w = op
  · simp [bytesOf, h]
  · simp [bytesOf, h]

/-- What some writes from slot `c` on add: `k` commands with `t` bytes to send and `r` to receive.
-/
structure Piece (vs : List I2cWrite) (c k t r : Nat) : Prop where
  slots : slotsOf vs = List.range' c k
  words : ∀ w ∈ wordsOf vs, ListWord w
  tx : (dataOf vs).length = t
  txBytes : bytesOf opWrite (wordsOf vs) = t
  rxBytes : bytesOf opRead (wordsOf vs) = r

namespace Piece

theorem nil (c : Nat) : Piece [] c 0 0 0 := by
  constructor <;> simp [bytesOf]

theorem append {vs us : List I2cWrite} {c k t r k' t' r' : Nat} (h : Piece vs c k t r)
    (h' : Piece us (c + k) k' t' r') : Piece (vs ++ us) c (k + k') (t + t') (r + r') where
  slots := by rw [slotsOf_append, h.slots, h'.slots, List.range'_append_1]
  words w hw := by
    rw [wordsOf_append] at hw
    exact (List.mem_append.mp hw).elim (h.words w) (h'.words w)
  tx := by rw [dataOf_append, List.length_append, h.tx, h'.tx]
  txBytes := by rw [wordsOf_append, bytesOf_append, h.txBytes, h'.txBytes]
  rxBytes := by rw [wordsOf_append, bytesOf_append, h.rxBytes, h'.rxBytes]

/-- A RESTART and the address. -/
theorem addr (b : Batch) (m : I2cMsg) : Piece (queueAddrWrites b m) b.cmd 2 1 0 where
  slots := rfl
  words w hw := by
    rcases List.mem_cons.mp hw with rfl | hw
    · exact Or.inl (by decide)
    · obtain rfl := List.mem_singleton.mp hw
      exact Or.inr (by decide)
  tx := rfl
  txBytes := show bytesOf opWrite [cmdWord opRstart 0 0, cmdWord opWrite 1 cmdAckCheck] = 1 by
    decide
  rxBytes := show bytesOf opRead [cmdWord opRstart 0 0, cmdWord opWrite 1 cmdAckCheck] = 0 by
    decide

/-- A WRITE and its bytes. -/
theorem write (c : Nat) {bs : List UInt8} (h0 : 1 ≤ bs.length) (h32 : bs.length ≤ 32) :
    Piece (.comd c (cmdWord opWrite bs.length cmdAckCheck) :: bs.map .data) c 1 bs.length 0 := by
  obtain ⟨hop, hbytes⟩ := write_word h32
  obtain ⟨hslots, hwords, hdata⟩ := of_map_data bs
  constructor
  · rw [slotsOf_comd, hslots]
    rfl
  · intro w hw
    rw [wordsOf_comd, hwords] at hw
    obtain rfl := List.mem_singleton.mp hw
    exact Or.inr ⟨Or.inl hop, by omega, by rw [hbytes]; exact h32⟩
  · rw [dataOf_comd, hdata]
  · rw [wordsOf_comd, hwords, bytesOf_single, if_pos hop, hbytes]
  · rw [wordsOf_comd, hwords, bytesOf_single, hop, if_neg (by decide)]

/-- A READ. -/
theorem read (c : Nat) {n : Nat} (h0 : 1 ≤ n) (h32 : n ≤ 32) (nack : Bool) :
    Piece [.comd c (cmdWord opRead n (if nack then cmdAckValue else 0))] c 1 0 n := by
  obtain ⟨hop, hbytes⟩ := read_word h32 nack
  constructor
  · rfl
  · intro w hw
    obtain rfl := List.mem_singleton.mp hw
    exact Or.inr ⟨Or.inr hop, by omega, by rw [hbytes]; exact h32⟩
  · rfl
  · rw [wordsOf_comd, of_nil.2.1, bytesOf_single, hop, if_neg (by decide)]
  · rw [wordsOf_comd, of_nil.2.1, bytesOf_single, if_pos hop, hbytes]

end Piece

theorem writeBytes_rx (n : Nat) (s : Esp32s31I2c) : (s.writeBytes n).rx = s.rx := by
  induction n generalizing s with
  | zero => rfl
  | succ n ih =>
    rw [writeBytes, ih]
    rfl

section Turn

variable {ws vs : List I2cWrite} {s s' : Esp32s31I2c} {b b' : Batch} {m : I2cMsg}

theorem Queued.add (h : Queued ws s b) {k t r : Nat} (hp : Piece vs b.cmd k t r)
    (hb : b' = ⟨b.cmd + k, b.tx + t, b.rx + r⟩) (hk : b.cmd + k ≤ i2cNcmds - 1)
    (ht : b.tx + t ≤ i2cFifoSize) (hr : b.rx + r ≤ i2cFifoSize)
    (hrx : (s'.rx.map I2cRx.len).sum = (s.rx.map I2cRx.len).sum + r)
    (he : s'.rx.length ≤ s.rx.length + k) : Queued (ws ++ vs) s' b' := by
  subst hb
  have hent := h.entries
  constructor
  · have happ := List.range'_append_1 (s := 0) (m := b.cmd) (n := k)
    rw [Nat.zero_add] at happ
    rw [slotsOf_append, h.slots, hp.slots, List.range_eq_range', List.range_eq_range', happ]
  · exact hk
  · intro w hw
    rw [wordsOf_append] at hw
    exact (List.mem_append.mp hw).elim (h.words w) (hp.words w)
  · rw [dataOf_append, List.length_append, h.tx, hp.tx]
  · rw [wordsOf_append, bytesOf_append, h.txBytes, hp.txBytes]
  · exact ht
  · rw [hrx, h.rx]
  · rw [wordsOf_append, bytesOf_append, h.rxBytes, hp.rxBytes]
  · exact hr
  · dsimp only
    omega

theorem Queued.queueAddr (h : Queued ws s b) (hq : s.queueAddr b m = some (s', b')) :
    Queued (ws ++ queueAddrWrites b m) s' b' := by
  simp only [Esp32s31I2c.queueAddr, Option.ite_none_left_eq_some, Option.some.injEq,
    Prod.mk.injEq, not_or] at hq
  obtain ⟨⟨hcmd, htx⟩, rfl, rfl⟩ := hq
  have htle := h.txLe
  exact h.add (Piece.addr b m) rfl (by omega) (by omega) h.rxLe rfl (Nat.le_add_right _ _)

theorem Queued.queueWrite (h : Queued ws s b) (hq : s.queueWrite b m = some (s', b')) :
    Queued (ws ++ s.queueWriteWrites b m) s' b' := by
  simp only [Esp32s31I2c.queueWrite, Option.ite_none_left_eq_some, Option.some.injEq,
    Prod.mk.injEq, not_or] at hq
  obtain ⟨⟨hn, hcmd⟩, rfl, rfl⟩ := hq
  have htle := h.txLe
  have h32 : i2cFifoSize = 32 := rfl
  unfold queueWriteWrites
  dsimp only
  generalize hnd : min (m.len - s.pos) (i2cFifoSize - b.tx) = n at hn ⊢
  have hlen : ((List.range' s.pos n).map (s.mem s.msg)).length = n := by simp
  have hp := Piece.write b.cmd (hlen.symm ▸ Nat.pos_of_ne_zero hn) (by omega)
  rw [hlen, List.map_map] at hp
  have hrx : ((s.cmd b.cmd opWrite n cmdAckCheck).writeBytes n).rx = s.rx := by
    rw [writeBytes_rx]
    rfl
  exact h.add hp rfl (by omega) (by omega) h.rxLe (by rw [hrx]; rfl) (by rw [hrx]; omega)

theorem Queued.queueRead (h : Queued ws s b) (hq : s.queueRead b m = some (s', b')) :
    Queued (ws ++ s.queueReadWrites b m) s' b' := by
  simp only [Esp32s31I2c.queueRead, Option.ite_none_left_eq_some, Option.some.injEq,
    Prod.mk.injEq, not_or] at hq
  unfold queueReadWrites
  dsimp only
  generalize hnd : min (m.len - s.pos) (i2cFifoSize - b.rx) = n at hq ⊢
  generalize hl : (if n = m.len - s.pos then 1 else 0) = last at hq ⊢
  obtain ⟨⟨hn, hcmd⟩, rfl, rfl⟩ := hq
  have hlast : last = 0 ∨ last = 1 := by
    rw [← hl]
    split
    · exact Or.inr rfl
    · exact Or.inl rfl
  have h32 : i2cFifoSize = 32 := rfl
  have hrle := h.rxLe
  -- the bytes before the last one
  have hbulk : Piece (if n - last = 0 then [] else [.comd b.cmd (cmdWord opRead (n - last) 0)])
      b.cmd (if n - last = 0 then 0 else 1) 0 (n - last) := by
    by_cases h0 : n - last = 0
    · rw [if_pos h0, if_pos h0, h0]
      exact Piece.nil b.cmd
    · rw [if_neg h0, if_neg h0]
      exact Piece.read b.cmd (by omega) (by omega) false
  have hlastp (c : Nat) : Piece (if last = 0 then [] else [.comd c (cmdWord opRead 1 cmdAckValue)])
      c last 0 last := by
    rcases hlast with rfl | rfl
    · exact Piece.nil c
    · exact Piece.read c (Nat.le_refl 1) (by decide) true
  have hp := hbulk.append (hlastp (b.cmd + if n - last = 0 then 0 else 1))
  rw [show n - last + last = n by omega] at hp
  refine h.add hp ?_ (by omega) h.txLe (by omega) ?_ ?_
  · rw [Nat.add_assoc]
    rfl
  · split <;> split <;> simp [Esp32s31I2c.cmd]
  · have hone : 1 ≤ (if n - last = 0 then 0 else 1) + last := by
      split <;> omega
    split <;> split <;> simp [Esp32s31I2c.cmd] <;> omega

theorem Queued.turn (h : Queued ws s b) (ht : s.fillTurn b = some (s', b')) :
    Queued (ws ++ s.turnWrites b) s' b' := by
  unfold Esp32s31I2c.fillTurn at ht
  unfold turnWrites
  cases hm : s.msgs[s.msg]? with
  | none =>
    rw [hm] at ht
    cases ht
  | some m =>
    rw [hm] at ht
    obtain ⟨⟨t, c⟩, hq, he⟩ := Option.map_eq_some_iff.mp ht
    obtain ⟨rfl, rfl⟩ := Prod.mk.inj he
    have hnext (ws : List I2cWrite) (hc : Queued ws t c) :
        Queued ws (if t.pos = m.len then t.nextMsg else t) c := by
      split
      · exact { hc with }
      · exact hc
    dsimp only
    refine hnext _ ?_
    split at hq
    · next ha =>
      rw [if_pos ha]
      exact h.queueAddr hq
    · next ha =>
      rw [if_neg ha]
      split at hq
      · next hrd =>
        rw [if_pos hrd]
        exact h.queueRead hq
      · next hrd =>
        rw [if_neg hrd]
        exact h.queueWrite hq

theorem Queued.loop (n : Nat) (h : Queued ws s b) :
    Queued (ws ++ loopWrites n s b) (fillLoop n s b).1 (fillLoop n s b).2 := by
  induction n generalizing ws s b with
  | zero =>
    unfold loopWrites
    rw [List.append_nil]
    exact h
  | succ n ih =>
    unfold fillLoop loopWrites
    cases ht : s.fillTurn b with
    | none =>
      rw [List.append_nil]
      exact h
    | some x =>
      have := ih (h.turn ht)
      rw [List.append_assoc] at this
      exact this

end Turn

/-- The list that `esp32s31_i2c_fill` writes keeps the limits of the hardware and of `rx`. -/
structure Within (s : Esp32s31I2c) : Prop where
  writes : s.fill.base = s.fillWrites.foldl Controller.write s.base
  /-- each slot once, from the first on -/
  slots : slotsOf s.fillWrites = List.range (wordsOf s.fillWrites).length
  cmds : (wordsOf s.fillWrites).length ≤ i2cNcmds
  tx : (dataOf s.fillWrites).length ≤ i2cFifoSize
  /-- the WRITEs send what is in the FIFO -/
  txBytes : bytesOf opWrite (wordsOf s.fillWrites) = (dataOf s.fillWrites).length
  rx : bytesOf opRead (wordsOf s.fillWrites) ≤ i2cFifoSize
  /-- the READs receive what `rx` has a place for -/
  rxBytes : bytesOf opRead (wordsOf s.fillWrites) = (s.fill.rx.map I2cRx.len).sum
  entries : s.fill.rx.length ≤ i2cNcmds
  words : ∀ w ∈ (wordsOf s.fillWrites).dropLast, ListWord w

/-- The list that `esp32s31_i2c_fill` writes ends with this command. -/
def EndsWith (s : Esp32s31I2c) (op : U32) : Prop :=
  (wordsOf s.fillWrites).getLast? = some (cmdWord op 0 0)

/-- The list that `esp32s31_i2c_fill` writes: the commands of the loop, and END or STOP. -/
theorem fill_queued (s : Esp32s31I2c) : ∃ ws b, Queued ws s.fill b ∧
    b = (fillLoop i2cNcmds { s with rx := [] } ⟨0, 0, 0⟩).2 ∧ s.fillWrites =
      ws ++ [.comd b.cmd (cmdWord (if s.fill.msg < s.fill.msgs.length then opEnd else opStop) 0 0)]
    := by
  have h0 : Queued [] { s with rx := [] } ⟨0, 0, 0⟩ := by
    constructor <;> simp [bytesOf]
  have h := h0.loop i2cNcmds
  rw [List.nil_append] at h
  exact ⟨_, _, { h with }, rfl, rfl⟩

/-- **Any list keeps the limits**, whatever the messages and the place in them. -/
theorem fill_within (s : Esp32s31I2c) : Within s := by
  obtain ⟨ws, b, hq, -, hw⟩ := fill_queued s
  have hcmd := hq.cmd
  have h8 : i2cNcmds = 8 := rfl
  generalize hend :
    cmdWord (if s.fill.msg < s.fill.msgs.length then opEnd else opStop) 0 0 = e at hw
  have hop : cmdOp e = opEnd ∨ cmdOp e = opStop := by
    rw [← hend]
    split
    · exact Or.inl (by decide)
    · exact Or.inr (by decide)
  have hwords : wordsOf s.fillWrites = wordsOf ws ++ [e] := by
    rw [hw, wordsOf_append]
    rfl
  have hdata : dataOf s.fillWrites = dataOf ws := by
    rw [hw, dataOf_append]
    exact List.append_nil _
  have hslots : slotsOf s.fillWrites = List.range (b.cmd + 1) := by
    rw [hw, slotsOf_append, hq.slots, List.range_succ]
    rfl
  have hlen : (wordsOf s.fillWrites).length = b.cmd + 1 := by
    rw [length_wordsOf, hslots, List.length_range]
  have hnone {op : U32} (h : op = opWrite ∨ op = opRead) : bytesOf op [e] = 0 := by
    rw [bytesOf_single, if_neg]
    rcases hop with hop | hop <;> rcases h with rfl | rfl <;> rw [hop] <;> decide
  constructor
  · exact fill_writes s
  · rw [hslots, hlen]
  · omega
  · rw [hdata, hq.tx]
    exact hq.txLe
  · rw [hdata, hwords, bytesOf_append, hq.txBytes, hnone (Or.inl rfl), hq.tx, Nat.add_zero]
  · rw [hwords, bytesOf_append, hq.rxBytes, hnone (Or.inr rfl)]
    exact hq.rxLe
  · rw [hwords, bytesOf_append, hq.rxBytes, hnone (Or.inr rfl), hq.rx, Nat.add_zero]
  · exact Nat.le_trans hq.entries (by omega)
  · rw [hwords, List.dropLast_concat]
    exact hq.words

theorem fill_endsWith (s : Esp32s31I2c) :
    EndsWith s (if s.fill.msg < s.fill.msgs.length then opEnd else opStop) := by
  obtain ⟨ws, b, -, -, hw⟩ := fill_queued s
  unfold EndsWith
  rw [hw, wordsOf_append]
  exact List.getLast?_concat

theorem fillLoop_cmd (n : Nat) (s : Esp32s31I2c) (b : Batch) : b.cmd ≤ (fillLoop n s b).2.cmd := by
  induction n generalizing s b with
  | zero => exact Nat.le_refl _
  | succ n ih =>
    unfold fillLoop
    cases ht : s.fillTurn b with
    | none => exact Nat.le_refl _
    | some x => exact Nat.le_trans (Nat.le_of_lt (fillTurn_cmd ht).1) (ih x.1 x.2)

/-- **A list makes progress** where a message is left: it has a command besides END or STOP. -/
theorem fill_progress {s : Esp32s31I2c} (hp : Placed s) (h : s.msg < s.msgs.length) :
    (wordsOf s.fillWrites).dropLast ≠ [] := by
  obtain ⟨ws, b, hq, hb, hw⟩ := fill_queued s
  have hpos : 0 < b.cmd := by
    have hfresh := fillTurn_fresh (s := { s with rx := [] }) hp h
    rw [hb, show i2cNcmds = 7 + 1 from rfl]
    unfold fillLoop
    cases ht : fillTurn { s with rx := [] } ⟨0, 0, 0⟩ with
    | none => exact absurd ht hfresh
    | some x => exact Nat.lt_of_lt_of_le (fillTurn_cmd ht).1 (fillLoop_cmd 7 x.1 x.2)
  have hlen : (wordsOf ws).length = b.cmd := by
    rw [length_wordsOf, hq.slots, List.length_range]
  have hwords : (wordsOf s.fillWrites).dropLast = wordsOf ws := by
    rw [hw, wordsOf_append]
    exact List.dropLast_concat
  intro hnil
  rw [hwords] at hnil
  rw [hnil, List.length_nil] at hlen
  omega

/-! ## The lists of a transfer -/

/-- The states in which the lists of a transfer are filled, from `s` on: the controller runs each,
and the handler calls `esp32s31_i2c_fill` for the next one (`irq_restarted`). -/
def lists (slave : Slave) : Nat → Esp32s31I2c → Option (List Esp32s31I2c)
  | 0, _ => none
  | fuel + 1, s =>
    match s.fill.base.start slave with
    | none => none
    | some (c, status) =>
      match ((s.fill.ran c).irq status).2 with
      | .restarted => (lists slave fuel (s.fill.ran c).drain).map (s :: ·)
      | .completed => some [s]
      | .handled => none

/-- Where the handler starts the next list, it has drained the last one and filled the next. -/
theorem irq_restarted {s t : Esp32s31I2c} {status : U32} (h : s.irq status = (t, .restarted)) :
    t = s.drain.fill := by
  unfold Esp32s31I2c.irq at h
  dsimp only at h
  generalize herr : (if status &&& intNack ≠ 0 then -enxio
    else if status &&& intArbLost ≠ 0 then -eagain
    else if status &&& intTimeouts ≠ 0 then -etimedout else s.err) = err at h
  by_cases hz : status = 0
  · rw [if_pos hz] at h
    cases h
  · rw [if_neg hz] at h
    by_cases hend : err = 0 ∧ status &&& intEndDetect ≠ 0
    · obtain ⟨rfl, -⟩ := id hend
      -- no error now means that there was none before
      have hs : s.err = 0 := by
        split at herr
        · exact absurd herr (by decide)
        · split at herr
          · exact absurd herr (by decide)
          · split at herr
            · exact absurd herr (by decide)
            · exact herr
      have hsame : { s with err := 0 } = s := by rw [← hs]
      rw [if_pos hend, hsame] at h
      exact (Prod.mk.inj h).1.symm
    · rw [if_neg hend] at h
      split at h
      · cases h
      · split at h <;> cases h

/-- These are the lists that the transfer runs. -/
theorem lists_isSome (slave : Slave) (fuel : Nat) (s : Esp32s31I2c) :
    (lists slave fuel s).isSome = (transfer slave fuel s.fill).isSome := by
  induction fuel generalizing s with
  | zero => rfl
  | succ fuel ih =>
    unfold lists transfer
    cases hc : s.fill.base.start slave with
    | none => rfl
    | some x =>
      obtain ⟨c, status⟩ := x
      dsimp only
      cases hi : (s.fill.ran c).irq status with
      | mk t e =>
        cases e with
        | handled => rfl
        | completed => rfl
        | restarted =>
          dsimp only
          rw [Option.isSome_map, ih, irq_restarted hi]

/-- `esp32s31_i2c_xfer` up to its first list. -/
def xferStart (s : Esp32s31I2c) (msgs : List I2cMsg) : Esp32s31I2c :=
  { s with
    msgs := msgs, msg := 0, pos := 0, addressed := false, err := 0
    base := { s.base with txFifo := [], rxFifo := [] } }

theorem xfer_eq_start (slave : Slave) (fuel : Nat) (s : Esp32s31I2c) (msgs : List I2cMsg) :
    s.xfer slave fuel msgs = if msgs.any (fun m => m.flags &&& i2cMTen ≠ 0) then
      some (s, -eopnotsupp)
    else (transfer slave fuel (xferStart s msgs).fill).map fun s =>
      (s, if s.err ≠ 0 then s.err else msgs.length) := rfl

/-- The lists from a state between two lists on: all but the last end with END. -/
theorem Between.lists {slave : Slave} {mem : MsgMem} {bus : List BusEvent} (fuel : Nat)
    {s : Esp32s31I2c} (h : Between slave mem bus s) (hl : (rest mem s).length < fuel) :
    ∃ init last, I2c.lists slave fuel s = some (init ++ [last]) ∧
      (∀ t ∈ init ++ [last], Placed t) ∧ (∀ t ∈ init, EndsWith t opEnd) ∧
      EndsWith last opStop := by
  induction fuel generalizing s with
  | zero => exact absurd hl (Nat.not_lt_zero _)
  | succ fuel ih =>
    obtain ⟨ops, c, hr, hne, hmsgs, herr, ht, hlen, hstart, hb⟩ := h.list
    have hplaced : Placed s.fill := by
      have hp := hb.placed
      rw [drain_eq (s := s.fill.ran c) ht hlen] at hp
      exact hp
    have hends := fill_endsWith s
    by_cases hz : rest mem s.fill = []
    · rw [if_pos hz] at hstart
      have hstop := irq_stop (s := s.fill.ran { c with bus := c.bus ++ [.stop] }) herr
      rw [if_neg (Nat.not_lt.mpr ((rest_eq_nil mem hplaced).mp hz))] at hends
      refine ⟨[], s, ?_, ?_, ?_, hends⟩
      · simp only [I2c.lists, hstart, hstop, List.nil_append]
      · intro t hmem
        obtain rfl := List.mem_singleton.mp hmem
        exact h.placed
      · intro t hmem
        cases hmem
    · rw [if_neg hz] at hstart
      have hend := irq_end (s := s.fill.ran c) herr
      have hrest : rest mem (s.fill.ran c).drain = rest mem s.fill := by
        rw [drain_eq (s := s.fill.ran c) ht hlen]
        rfl
      have hshort : (rest mem s.fill).length < (rest mem s).length := by
        have h0 := List.length_pos_iff.mpr (hne fun h0 =>
          hz (List.append_eq_nil_iff.mp (hr.symm.trans h0)).2)
        rw [hr, List.length_append]
        omega
      obtain ⟨init, last, hls, hpl, hinit, hlast⟩ := ih hb (by rw [hrest]; omega)
      have hleft : s.fill.msg < s.fill.msgs.length :=
        Nat.lt_of_not_le fun hle => hz ((rest_eq_nil mem hplaced).mpr hle)
      rw [if_pos hleft] at hends
      refine ⟨s :: init, last, ?_, ?_, ?_, hlast⟩
      · simp only [I2c.lists, hstart, hend, hls, Option.map_some, List.cons_append]
      · intro t hmem
        rw [List.cons_append] at hmem
        rcases List.mem_cons.mp hmem with rfl | hmem
        · exact h.placed
        · exact hpl t hmem
      · intro t hmem
        rcases List.mem_cons.mp hmem with rfl | hmem
        · exact hends
        · exact hinit t hmem

/-- **The lists of a transfer**, whatever the messages and the slave: they are finitely many; each
keeps the limits and has a command besides END or STOP where a message is left; the last one, and
only that, ends with STOP. -/
theorem i2c_lists (slave : Slave) (s : Esp32s31I2c) (msgs : List I2cMsg) :
    ∃ fuel init last, lists slave fuel (xferStart s msgs) = some (init ++ [last]) ∧
      (transfer slave fuel (xferStart s msgs).fill).isSome = true ∧
      (∀ t ∈ init ++ [last], Within t ∧
        (t.msg < t.msgs.length → (wordsOf t.fillWrites).dropLast ≠ [])) ∧
      (∀ t ∈ init, EndsWith t opEnd) ∧ EndsWith last opStop := by
  have h0 : Between slave s.mem s.base.bus (xferStart s msgs) :=
    ⟨rfl, rfl, rfl, rfl, [], rfl, rfl⟩
  obtain ⟨init, last, hls, hpl, hinit, hlast⟩ := h0.lists _ (Nat.lt_succ_self _)
  refine ⟨_, init, last, hls, ?_, ?_, hinit, hlast⟩
  · rw [← lists_isSome, hls]
    rfl
  · intro t hmem
    exact ⟨fill_within t, fill_progress (hpl t hmem)⟩

end Esp32S31.I2c
