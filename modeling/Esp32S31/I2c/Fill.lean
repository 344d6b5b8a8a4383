import Esp32S31.I2c.Performs

/-!
# What a filled list does

`rest s` are the steps of the transaction that the driver has still to queue, by `msg`, `pos` and
`addressed`. `Filled s₀ s b ops` is the invariant of the loop of `esp32s31_i2c_fill`: the turns so
far have queued the steps `ops` off the front, with the commands, the FIFO bytes and the places that
perform them, within the limits. `Filled.turn` is one turn, `fill_spec` the whole function.
-/

namespace Esp32S31.I2c

open Esp32S31.Lib Esp32s31I2c

/-- The places of a read command. -/
def I2cRx.targets (r : I2cRx) : List (Nat × Nat) := (List.range' r.off r.len).map (r.msg, ·)

/-! ## Data bytes -/

section Data

variable (mem : MsgMem) (i : Nat) (m : I2cMsg)

theorem dataOps_add : ∀ (j k p : Nat),
    dataOps mem i m p (j + k) = dataOps mem i m p j ++ dataOps mem i m (p + j) k
  | 0, k, p => by rw [Nat.zero_add, Nat.add_zero]; rfl
  | j + 1, k, p => by
    rw [show j + 1 + k = (j + k) + 1 by omega, dataOps, dataOps, dataOps_add j k (p + 1),
      List.cons_append, show p + 1 + j = p + (j + 1) by omega]

variable {m}

theorem dataOps_write (h : m.rd = false) : ∀ (n p : Nat),
    dataOps mem i m p n = ((List.range' p n).map (mem i)).map .put
  | 0, _ => rfl
  | n + 1, p => by
    rw [dataOps, dataOps_write h n (p + 1), h, List.range'_succ]
    rfl

/-- The bytes of a read before its last one. -/
theorem dataOps_bulk (h : m.rd = true) : ∀ (n p : Nat), p + n < m.len →
    dataOps mem i m p n = Performs.getAll false ((List.range' p n).map (i, ·))
  | 0, _, _ => rfl
  | n + 1, p, hlt => by
    have hne : ¬ p + 1 = m.len := by omega
    rw [dataOps, dataOps_bulk h n (p + 1) (by omega), h, List.range'_succ]
    simp only [if_true, decide_eq_false hne]
    rfl

/-- The last byte of a read. -/
theorem dataOps_last (h : m.rd = true) {p : Nat} (hp : p + 1 = m.len) :
    dataOps mem i m p 1 = Performs.getAll true [(i, p)] := by
  rw [dataOps, h]
  simp only [if_true, decide_eq_true hp]
  rfl

theorem gets_dataOps (h : m.rd = true) : ∀ (n p : Nat),
    gets (dataOps mem i m p n) = (List.range' p n).map (i, ·)
  | 0, _ => rfl
  | n + 1, p => by
    rw [dataOps, h, List.range'_succ]
    exact congrArg ((i, p) :: ·) (gets_dataOps h n (p + 1))

theorem puts_dataOps (h : m.rd = true) : ∀ (n p : Nat), puts (dataOps mem i m p n) = []
  | 0, _ => rfl
  | n + 1, p => by
    rw [dataOps, h]
    exact puts_dataOps h n (p + 1)

end Data

/-! ## The loop of `esp32s31_i2c_fill` -/

/-- The steps that are still to queue. -/
def rest (mem : MsgMem) (s : Esp32s31I2c) : List Op :=
  if s.addressed then
    (match s.msgs[s.msg]? with
      | some m => dataOps mem s.msg m s.pos (m.len - s.pos)
      | none => []) ++ msgsOps mem (s.msg + 1) (s.msgs.drop (s.msg + 1))
  else msgsOps mem s.msg (s.msgs.drop s.msg)

/-- The place in the messages: the next byte of an addressed message, or before a message. -/
def Placed (s : Esp32s31I2c) : Prop :=
  if s.addressed then ∃ m, s.msgs[s.msg]? = some m ∧ s.pos < m.len else s.pos = 0

/-- The write buffers have their first content. -/
def Unwritten (mem : MsgMem) (s : Esp32s31I2c) : Prop :=
  ∀ i m, s.msgs[i]? = some m → m.rd = false → s.mem i = mem i

/-- **The invariant of the loop**: what the turns so far have queued. -/
structure Filled (s₀ s : Esp32s31I2c) (b : Batch) (ops : List Op) : Prop where
  performs : ∀ slave, Performs slave ((List.range b.cmd).map s.base.comd) ops
  cmd : b.cmd ≤ 7
  fifo : s.base.txFifo = puts ops
  tx : b.tx = (puts ops).length
  txLe : b.tx ≤ i2cFifoSize
  rx : b.rx = (gets ops).length
  rxLe : b.rx ≤ i2cFifoSize
  targets : s.rx.flatMap I2cRx.targets = gets ops
  slots : s.rx.length ≤ b.cmd
  rxFifo : s.base.rxFifo = s₀.base.rxFifo
  bus : s.base.bus = s₀.base.bus
  same : s.mem = s₀.mem ∧ s.err = s₀.err ∧ s.msgs = s₀.msgs

/-- Writing one more command extends the list. -/
theorem map_range_update {f : Nat → U32} (n : Nat) (w : U32) :
    (List.range (n + 1)).map (Function.update f n w) = (List.range n).map f ++ [w] := by
  rw [List.range_succ, List.map_append]
  congr 1
  · refine List.map_congr_left fun k hk => ?_
    exact Function.update_of_ne (Nat.ne_of_lt (List.mem_range.mp hk)) _ _
  · exact congrArg (fun x => [x]) (Function.update_self _ _ _)

/-- A pushed byte is in the FIFO while there is room. -/
theorem pushFifo_eq {f : List UInt8} {b : UInt8} (h : f.length < i2cFifoSize) :
    pushFifo f b = f ++ [b] := if_pos h

section Turn

variable {s₀ s s' : Esp32s31I2c} {b b' : Batch} {ops : List Op} {m : I2cMsg}

/-- What the queue functions leave alone. -/
structure SameBus (s s' : Esp32s31I2c) : Prop where
  rxFifo : s'.base.rxFifo = s.base.rxFifo
  bus : s'.base.bus = s.base.bus
  mem : s'.mem = s.mem
  err : s'.err = s.err
  msgs : s'.msgs = s.msgs

/-- More commands `ws`, with their bytes and places, for more steps. -/
theorem Filled.extend (h : Filled s₀ s b ops) {ws : List U32} {more : List Op} (rs : List I2cRx)
    (hw : ∀ slave, Performs slave ws more)
    (hc : (List.range b'.cmd).map s'.base.comd = (List.range b.cmd).map s.base.comd ++ ws)
    (h7 : b'.cmd ≤ 7) (hf : s'.base.txFifo = s.base.txFifo ++ puts more)
    (ht : b'.tx = b.tx + (puts more).length) (htl : b'.tx ≤ i2cFifoSize)
    (hr : b'.rx = b.rx + (gets more).length) (hrl : b'.rx ≤ i2cFifoSize)
    (hrs : s'.rx = s.rx ++ rs) (hg : rs.flatMap I2cRx.targets = gets more)
    (hl : rs.length ≤ ws.length) (hs : SameBus s s') : Filled s₀ s' b' (ops ++ more) where
  performs slave := by rw [hc]; exact (h.performs slave).append (hw slave)
  cmd := h7
  fifo := by rw [hf, h.fifo, puts_append]
  tx := by rw [ht, h.tx, puts_append, List.length_append]
  txLe := htl
  rx := by rw [hr, h.rx, gets_append, List.length_append]
  rxLe := hrl
  targets := by rw [hrs, List.flatMap_append, h.targets, hg, gets_append]
  slots := by
    have hn := congrArg List.length hc
    simp only [List.length_append, List.length_map, List.length_range] at hn
    have := h.slots
    rw [hrs, List.length_append]
    omega
  rxFifo := hs.rxFifo.trans h.rxFifo
  bus := hs.bus.trans h.bus
  same := ⟨hs.mem.trans h.same.1, hs.err.trans h.same.2.1, hs.msgs.trans h.same.2.2⟩

/-- **A queued address** is a START and the address byte. -/
theorem Filled.queueAddr (h : Filled s₀ s b ops) (hq : s.queueAddr b m = some (s', b')) :
    Filled s₀ s' b' (ops ++ [.start, .put m.addrByte]) ∧ b.cmd < b'.cmd ∧
      s' = { s with base := s'.base, addressed := true } := by
  unfold Esp32s31I2c.queueAddr at hq
  split at hq
  · exact absurd hq (by simp)
  · rename_i hc
    rw [not_or] at hc
    obtain ⟨hc, ht⟩ := hc
    have h7 : i2cNcmds - 1 = 7 := rfl
    have htx := h.txLe
    have hroom : s.base.txFifo.length < i2cFifoSize := by
      rw [h.fifo, ← h.tx]
      omega
    obtain ⟨rfl, rfl⟩ := Prod.mk.inj (Option.some.inj hq)
    have hw : ∀ slave, Performs slave [cmdWord opRstart 0 0, cmdWord opWrite 1 cmdAckCheck]
        [.start, .put m.addrByte] := fun slave =>
      Performs.rstart.append (Performs.write [m.addrByte] (show 1 ≤ 32 by omega))
    refine ⟨h.extend [] hw ?_ ?_ (pushFifo_eq hroom) rfl ?_ rfl h.rxLe
      (List.append_nil _).symm rfl (Nat.zero_le _) ⟨rfl, rfl, rfl, rfl, rfl⟩,
      by show b.cmd < b.cmd + 2; omega, rfl⟩
    · show (List.range (b.cmd + 1 + 1)).map (Function.update (Function.update _ _ _) _ _) = _
      rw [map_range_update, map_range_update, List.append_assoc]
      rfl
    · show b.cmd + 2 ≤ 7
      omega
    · show b.tx + 1 ≤ i2cFifoSize
      omega

/-- The loop that fills the FIFO. -/
theorem writeBytes_eq : ∀ (n : Nat) (s : Esp32s31I2c),
    s.base.txFifo.length + n ≤ i2cFifoSize →
    s.writeBytes n = { s with
      base := { s.base with txFifo := s.base.txFifo ++ (List.range' s.pos n).map (s.mem s.msg) }
      pos := s.pos + n }
  | 0, s, _ => by
    simp only [Esp32s31I2c.writeBytes, List.range'_zero, List.map_nil, List.append_nil,
      Nat.add_zero]
  | n + 1, s, h => by
    have hp : pushFifo s.base.txFifo (s.mem s.msg s.pos) =
        s.base.txFifo ++ [s.mem s.msg s.pos] := pushFifo_eq (by omega)
    rw [Esp32s31I2c.writeBytes, writeBytes_eq n _ (by
      show (pushFifo _ _).length + n ≤ _
      rw [hp, List.length_append, List.length_singleton]
      omega)]
    simp only [Esp32s31I2c.writeData, hp, List.range'_succ, List.map_cons, List.append_assoc,
      List.singleton_append, show s.pos + 1 + n = s.pos + (n + 1) by omega]

/-- **A queued write** is data bytes of the message. -/
theorem Filled.queueWrite (h : Filled s₀ s b ops) (hq : s.queueWrite b m = some (s', b')) :
    ∃ n, 0 < n ∧ n ≤ m.len - s.pos ∧
      Filled s₀ s' b' (ops ++ ((List.range' s.pos n).map (s.mem s.msg)).map .put) ∧
      b.cmd < b'.cmd ∧ s' = { s with base := s'.base, pos := s.pos + n } := by
  unfold Esp32s31I2c.queueWrite at hq
  simp only at hq
  generalize hn : min (m.len - s.pos) (i2cFifoSize - b.tx) = n at hq
  split at hq
  · exact absurd hq (by simp)
  · rename_i hc
    rw [not_or] at hc
    obtain ⟨hn0, hc⟩ := hc
    have h7 : i2cNcmds - 1 = 7 := rfl
    have htx := h.txLe
    have hroom : s.base.txFifo.length + n ≤ i2cFifoSize := by
      rw [h.fifo, ← h.tx]
      omega
    obtain ⟨rfl, rfl⟩ := Prod.mk.inj (Option.some.inj hq)
    rw [writeBytes_eq n (s.cmd _ _ _ _) hroom]
    have hlen : ((List.range' s.pos n).map (s.mem s.msg)).length = n := by simp
    have hw : ∀ slave, Performs slave [cmdWord opWrite n cmdAckCheck]
        (((List.range' s.pos n).map (s.mem s.msg)).map .put) := fun slave => by
      have hw : Performs slave _ _ := Performs.write ((List.range' s.pos n).map (s.mem s.msg))
        (by rw [hlen]; omega)
      rwa [hlen] at hw
    have hputs := Performs.puts_map_put ((List.range' s.pos n).map (s.mem s.msg))
    have hgets := Performs.gets_map_put ((List.range' s.pos n).map (s.mem s.msg))
    refine ⟨n, by omega, by omega, h.extend [] hw ?_ ?_ ?_ ?_ ?_ ?_ h.rxLe
      (List.append_nil _).symm ?_ (Nat.zero_le _) ⟨rfl, rfl, rfl, rfl, rfl⟩,
      by show b.cmd < b.cmd + 1; omega, rfl⟩
    · exact map_range_update _ _
    · show b.cmd + 1 ≤ 7
      omega
    · rw [hputs]
      rfl
    · rw [hputs, hlen]
    · show b.tx + n ≤ i2cFifoSize
      omega
    · rw [hgets]
      rfl
    · rw [hgets]
      rfl

/-- **A queued read** is data bytes of the message, the last one with a NACK. -/
theorem Filled.queueRead (h : Filled s₀ s b ops) (mem : MsgMem) (hm : m.rd = true)
    (hq : s.queueRead b m = some (s', b')) :
    ∃ n, 0 < n ∧ n ≤ m.len - s.pos ∧
      Filled s₀ s' b' (ops ++ dataOps mem s.msg m s.pos n) ∧
      b.cmd < b'.cmd ∧ s' = { s with base := s'.base, rx := s'.rx, pos := s.pos + n } := by
  unfold Esp32s31I2c.queueRead at hq
  simp only at hq
  generalize hn : min (m.len - s.pos) (i2cFifoSize - b.rx) = n at hq
  have h7 : i2cNcmds - 1 = 7 := rfl
  have h32 : i2cFifoSize = 32 := rfl
  have hrx := h.rxLe
  have hgets := gets_dataOps mem s.msg hm n s.pos
  have hputs := puts_dataOps mem s.msg hm n s.pos
  have hlen : ((List.range' s.pos n).map (s.msg, ·)).length = n := by simp
  -- the parts that do not depend on how the bytes are split into commands
  have key : ∀ (ws : List U32) {f : Nat → U32} {c : Nat},
      (∀ slave, Performs slave ws (dataOps mem s.msg m s.pos n)) →
      (List.range c).map f = (List.range b.cmd).map s.base.comd ++ ws → c ≤ 7 → 1 ≤ ws.length →
      Filled s₀ { s with
          base := { s.base with comd := f }
          rx := s.rx ++ [⟨s.msg, s.pos, n⟩]
          pos := s.pos + n } { b with cmd := c, rx := b.rx + n }
        (ops ++ dataOps mem s.msg m s.pos n) := fun ws f c hw hc h7 hl =>
    h.extend [⟨s.msg, s.pos, n⟩] hw hc h7 (by rw [hputs]; exact (List.append_nil _).symm)
      (by rw [hputs]; rfl) h.txLe (by rw [hgets, hlen]) (by show b.rx + n ≤ _; omega) rfl
      (by rw [hgets]; exact List.append_nil _) hl ⟨rfl, rfl, rfl, rfl, rfl⟩
  have hread : ∀ {slave} {k p : Nat}, p + k < m.len → k ≤ 32 →
      Performs slave [cmdWord opRead k 0] (dataOps mem s.msg m p k) := fun {slave k p} hlt hk => by
    have hk' : ((List.range' p k).map (s.msg, ·)).length = k := by simp
    have hr : Performs slave _ _ := Performs.read ((List.range' p k).map (s.msg, ·)) false
      (by rw [hk']; exact hk)
    rw [hk'] at hr
    rw [dataOps_bulk mem s.msg hm k p hlt]
    exact hr
  have hlast : ∀ {slave} {p : Nat}, p + 1 = m.len →
      Performs slave [cmdWord opRead 1 cmdAckValue] (dataOps mem s.msg m p 1) :=
        fun {slave p} hp => by
    rw [dataOps_last mem s.msg hm hp]
    exact Performs.read [(s.msg, p)] true (show 1 ≤ 32 by omega)
  by_cases hl : n = m.len - s.pos
  · by_cases h1 : n - 1 = 0
    · simp only [if_pos hl, if_pos h1, Nat.one_ne_zero, if_false] at hq
      split at hq
      · exact absurd hq (by simp)
      · rename_i hc
        rw [not_or] at hc
        obtain rfl : n = 1 := by omega
        obtain ⟨rfl, rfl⟩ := Prod.mk.inj (Option.some.inj hq)
        refine ⟨1, by omega, by omega, key [cmdWord opRead 1 cmdAckValue]
          (fun _ => hlast (by omega)) (map_range_update _ _) (by omega) (Nat.le_refl 1), ?_, rfl⟩
        show b.cmd < b.cmd + 0 + 1
        omega
    · simp only [if_pos hl, if_neg h1, Nat.one_ne_zero, if_false] at hq
      split at hq
      · exact absurd hq (by simp)
      · rename_i hc
        rw [not_or] at hc
        obtain ⟨rfl, rfl⟩ := Prod.mk.inj (Option.some.inj hq)
        have hsplit : dataOps mem s.msg m s.pos n =
            dataOps mem s.msg m s.pos (n - 1) ++ dataOps mem s.msg m (s.pos + (n - 1)) 1 := by
          rw [← dataOps_add, show n - 1 + 1 = n by omega]
        refine ⟨n, by omega, by omega, key
          [cmdWord opRead (n - 1) 0, cmdWord opRead 1 cmdAckValue]
          (fun _ => by rw [hsplit]; exact (hread (by omega) (by omega)).append (hlast (by omega)))
          ?_ (by omega) (Nat.le_succ 1), ?_, rfl⟩
        · show (List.range (b.cmd + 1 + 1)).map (Function.update (Function.update _ _ _) _ _) = _
          rw [map_range_update, map_range_update, List.append_assoc]
          rfl
        · show b.cmd < b.cmd + 1 + 1
          omega
  · by_cases h1 : n - 0 = 0
    · exact absurd hq (by simp [show n = 0 by omega])
    · simp only [if_neg hl, if_neg h1, if_true] at hq
      split at hq
      · exact absurd hq (by simp)
      · rename_i hc
        rw [not_or] at hc
        obtain ⟨rfl, rfl⟩ := Prod.mk.inj (Option.some.inj hq)
        refine ⟨n, by omega, by omega, key [cmdWord opRead n 0]
          (fun _ => hread (by omega) (by omega)) (map_range_update _ _) (by omega) (Nat.le_refl 1),
          ?_, rfl⟩
        show b.cmd < b.cmd + 1 + 0
        omega

/-- After a queue function, the place is the next byte of the message, or before the next message.
-/
theorem rest_settle (mem : MsgMem) (hm : s.msgs[s.msg]? = some m) (ha : s.addressed = true)
    (hp : s.pos ≤ m.len) (hs : s' = if s.pos = m.len then s.nextMsg else s) :
    Placed s' ∧ rest mem s' = dataOps mem s.msg m s.pos (m.len - s.pos) ++
      msgsOps mem (s.msg + 1) (s.msgs.drop (s.msg + 1)) := by
  subst hs
  by_cases hl : s.pos = m.len
  · rw [if_pos hl, hl, Nat.sub_self]
    exact ⟨rfl, rfl⟩
  · rw [if_neg hl]
    refine ⟨?_, ?_⟩
    · rw [Placed, if_pos ha]
      exact ⟨m, hm, by omega⟩
    · rw [rest, if_pos ha, hm]

/-- Going to the next message changes nothing that `Filled` is about. -/
theorem Filled.settle (h : Filled s₀ s b ops) (hs : s' = if s.pos = m.len then s.nextMsg else s) :
    Filled s₀ s' b ops := by
  subst hs
  split
  · exact { h with }
  · exact h

/-- **One turn**: it queues some steps off the front. -/
theorem Filled.turn (mem : MsgMem) (h : Filled s₀ s b ops) (hp : Placed s) (hu : Unwritten mem s)
    (ht : s.fillTurn b = some (s', b')) :
    ∃ more, more ≠ [] ∧ rest mem s = more ++ rest mem s' ∧ Filled s₀ s' b' (ops ++ more) ∧
      Placed s' := by
  unfold Esp32s31I2c.fillTurn at ht
  split at ht
  · exact absurd ht (by simp)
  rename_i m hm
  obtain ⟨⟨t, c⟩, hq, he⟩ := Option.map_eq_some_iff.mp ht
  obtain ⟨hs, rfl⟩ := Prod.mk.inj he
  cases ha : s.addressed
  · rw [ha, Bool.not_false, if_pos rfl] at hq
    rw [Placed, ha] at hp
    obtain ⟨hf, -, htq⟩ := h.queueAddr hq
    have hpos : t.pos = 0 := by
      rw [htq]
      exact hp
    have hmsg : t.msg = s.msg ∧ t.msgs = s.msgs ∧ t.addressed = true := by
      rw [htq]
      exact ⟨rfl, rfl, rfl⟩
    obtain ⟨hp', hr⟩ := rest_settle mem (s := t) (m := m) (by rw [hmsg.1, hmsg.2.1]; exact hm)
      hmsg.2.2 (by omega) hs.symm
    refine ⟨_, List.cons_ne_nil _ _, ?_, hf.settle hs.symm, hp'⟩
    obtain ⟨hlt, hget⟩ := List.getElem?_eq_some_iff.mp hm
    rw [hr, hpos, Nat.sub_zero, hmsg.1, hmsg.2.1, rest, ha, if_neg (by decide),
      List.drop_eq_getElem_cons hlt, hget]
    rfl
  · rw [ha] at hq
    rw [Placed, if_pos ha] at hp
    obtain ⟨m', hm', hlt⟩ := hp
    obtain rfl : m' = m := Option.some.inj (hm'.symm.trans hm)
    -- what a queued piece of `n` data bytes leaves
    have key : ∀ n, 0 < n → n ≤ m'.len - s.pos → t.msg = s.msg → t.msgs = s.msgs →
        t.addressed = true → t.pos = s.pos + n →
        Filled s₀ t c (ops ++ dataOps mem s.msg m' s.pos n) →
        ∃ more, more ≠ [] ∧ rest mem s = more ++ rest mem s' ∧ Filled s₀ s' c (ops ++ more) ∧
          Placed s' := fun n h0 hn h1 h2 h3 h4 hf => by
      obtain ⟨hp', hr⟩ := rest_settle mem (s := t) (m := m') (by rw [h1, h2]; exact hm) h3
        (by omega) hs.symm
      refine ⟨_, ?_, ?_, hf.settle hs.symm, hp'⟩
      · obtain ⟨k, rfl⟩ := Nat.exists_eq_succ_of_ne_zero (Nat.ne_of_gt h0)
        exact List.cons_ne_nil _ _
      · rw [hr, rest, if_pos ha, hm, h1, h2, h4, ← List.append_assoc, ← dataOps_add,
          show n + (m'.len - (s.pos + n)) = m'.len - s.pos by omega]
    by_cases hrd : m'.rd = true
    · rw [if_neg (by decide), if_pos hrd] at hq
      obtain ⟨n, h0, hn, hf, -, htq⟩ := h.queueRead mem hrd hq
      exact key n h0 hn (by rw [htq]) (by rw [htq]) (by rw [htq]; exact ha) (by rw [htq]) hf
    · rw [if_neg (by decide), if_neg hrd] at hq
      obtain ⟨n, h0, hn, hf, -, htq⟩ := h.queueWrite hq
      rw [hu s.msg m' hm (by simpa using hrd),
        ← dataOps_write mem s.msg (by simpa using hrd) n s.pos] at hf
      exact key n h0 hn (by rw [htq]) (by rw [htq]) (by rw [htq]; exact ha) (by rw [htq]) hf

/-- Each turn takes a command, and one slot stays free. -/
theorem fillTurn_cmd (ht : s.fillTurn b = some (s', b')) : b.cmd < b'.cmd ∧ b'.cmd ≤ 7 := by
  have h7 : i2cNcmds - 1 = 7 := rfl
  unfold Esp32s31I2c.fillTurn at ht
  split at ht
  · exact absurd ht (by simp)
  obtain ⟨⟨t, c⟩, hq, he⟩ := Option.map_eq_some_iff.mp ht
  obtain ⟨-, rfl⟩ := Prod.mk.inj he
  split at hq
  · simp only [Esp32s31I2c.queueAddr, Option.ite_none_left_eq_some, not_or] at hq
    obtain ⟨hc, hq⟩ := hq
    obtain ⟨-, rfl⟩ := Prod.mk.inj (Option.some.inj hq)
    exact ⟨by show b.cmd < b.cmd + 2; omega, by show b.cmd + 2 ≤ 7; omega⟩
  split at hq
  · rename_i m _ _ _
    simp only [Esp32s31I2c.queueRead, Option.ite_none_left_eq_some, not_or] at hq
    generalize min (m.len - s.pos) (i2cFifoSize - b.rx) = n at hq
    obtain ⟨hc, hq⟩ := hq
    obtain ⟨-, rfl⟩ := Prod.mk.inj (Option.some.inj hq)
    dsimp only
    split <;> split at hc <;> split <;> split at hc <;> omega
  · simp only [Esp32s31I2c.queueWrite, Option.ite_none_left_eq_some, not_or] at hq
    obtain ⟨hc, hq⟩ := hq
    obtain ⟨-, rfl⟩ := Prod.mk.inj (Option.some.inj hq)
    exact ⟨by show b.cmd < b.cmd + 1; omega, by show b.cmd + 1 ≤ 7; omega⟩

/-- The loop ends because a turn queues nothing: the bound on its turns is never what ends it. -/
theorem fillLoop_done : ∀ (n : Nat) (s : Esp32s31I2c) (b : Batch), 7 < b.cmd + n →
    (fillLoop n s b).1.fillTurn (fillLoop n s b).2 = none
  | 0, s, b, h => by
    cases ht : s.fillTurn b with
    | none => exact ht
    | some x =>
      have := fillTurn_cmd (show s.fillTurn b = some (x.1, x.2) from ht)
      omega
  | n + 1, s, b, h => by
    cases ht : s.fillTurn b with
    | none =>
      simp only [fillLoop, ht]
    | some x =>
      have := fillTurn_cmd (show s.fillTurn b = some (x.1, x.2) from ht)
      simp only [fillLoop, ht]
      exact fillLoop_done n x.1 x.2 (by omega)

/-- **The loop**: it queues a first part of the steps, and one step at least if its first turn does.
-/
theorem Filled.loop (mem : MsgMem) : ∀ (n : Nat) (s : Esp32s31I2c) (b : Batch) (ops : List Op),
    Filled s₀ s b ops → Placed s → Unwritten mem s →
    ∃ more, rest mem s = more ++ rest mem (fillLoop n s b).1 ∧
      Filled s₀ (fillLoop n s b).1 (fillLoop n s b).2 (ops ++ more) ∧ Placed (fillLoop n s b).1 ∧
      (0 < n → s.fillTurn b ≠ none → more ≠ [])
  | 0, s, b, ops, h, hp, _ =>
    ⟨[], rfl, by rw [List.append_nil]; exact h, hp, fun h0 => absurd h0 (Nat.lt_irrefl 0)⟩
  | n + 1, s, b, ops, h, hp, hu => by
    cases ht : s.fillTurn b with
    | none =>
      simp only [fillLoop, ht]
      exact ⟨[], rfl, by rw [List.append_nil]; exact h, hp, fun _ hne => absurd rfl hne⟩
    | some x =>
      obtain ⟨more, hne, hr, hf, hp'⟩ :=
        h.turn mem hp hu (show s.fillTurn b = some (x.1, x.2) from ht)
      have hu' : Unwritten mem x.1 := by
        intro i m hm hw
        rw [hf.same.1, ← h.same.1]
        rw [hf.same.2.2, ← h.same.2.2] at hm
        exact hu i m hm hw
      obtain ⟨more', hr', hf', hp'', -⟩ := Filled.loop mem n x.1 x.2 (ops ++ more) hf hp' hu'
      simp only [fillLoop, ht]
      exact ⟨more ++ more', by rw [hr, hr', List.append_assoc], by rwa [← List.append_assoc], hp'',
        fun _ _ => List.append_ne_nil_of_left_ne_nil hne more'⟩

end Turn

/-- Nothing is left exactly when the driver is past the last message. -/
theorem rest_eq_nil (mem : MsgMem) {s : Esp32s31I2c} (hp : Placed s) :
    rest mem s = [] ↔ s.msgs.length ≤ s.msg := by
  cases ha : s.addressed
  · rw [rest, ha, if_neg (by decide)]
    constructor
    · intro h
      by_contra hc
      rw [List.drop_eq_getElem_cons (by omega)] at h
      exact absurd h (List.cons_ne_nil _ _)
    · intro h
      rw [List.drop_eq_nil_of_le h]
      rfl
  · rw [Placed, if_pos ha] at hp
    obtain ⟨m, hm, hlt⟩ := hp
    obtain ⟨hmsg, -⟩ := List.getElem?_eq_some_iff.mp hm
    refine ⟨fun h => ?_, fun h => absurd hmsg (by omega)⟩
    obtain ⟨k, hk⟩ := Nat.exists_eq_succ_of_ne_zero (Nat.sub_ne_zero_of_lt hlt)
    rw [rest, if_pos ha, hm] at h
    simp only [hk] at h
    exact absurd h (List.cons_ne_nil _ _)

/-- A fresh list has room for a step. -/
theorem fillTurn_fresh {s : Esp32s31I2c} (hp : Placed s) (h : s.msg < s.msgs.length) :
    s.fillTurn ⟨0, 0, 0⟩ ≠ none := by
  unfold Esp32s31I2c.fillTurn
  rw [List.getElem?_eq_getElem h]
  cases ha : s.addressed
  · simp [Esp32s31I2c.queueAddr, i2cNcmds, i2cFifoSize]
  · rw [Placed, if_pos ha] at hp
    obtain ⟨m, hm, hlt⟩ := hp
    rw [List.getElem?_eq_getElem h] at hm
    obtain rfl : s.msgs[s.msg] = m := Option.some.inj hm
    have h0 : min (s.msgs[s.msg].len - s.pos) (i2cFifoSize - 0) ≠ 0 := by
      have : i2cFifoSize = 32 := rfl
      omega
    generalize hn : min (s.msgs[s.msg].len - s.pos) (i2cFifoSize - 0) = n at h0
    simp only [Bool.not_true, Bool.false_eq_true, if_false, Esp32s31I2c.queueRead,
      Esp32s31I2c.queueWrite, hn, i2cNcmds]
    split
    · rw [if_neg (by split <;> split <;> omega)]
      simp
    · rw [if_neg (by omega)]
      simp

/-- **`esp32s31_i2c_fill`**: with an empty TX FIFO, the list performs a first part of the steps that
are left, at least one if there is one; it ends with STOP exactly when nothing is left. -/
theorem fill_spec (mem : MsgMem) {s : Esp32s31I2c} (hp : Placed s) (hu : Unwritten mem s)
    (ht : s.base.txFifo = []) :
    ∃ ops n, rest mem s = ops ++ rest mem s.fill ∧ (rest mem s ≠ [] → ops ≠ []) ∧
      Filled s s.fill n ops ∧ Placed s.fill ∧
      s.fill.base.comd n.cmd = cmdWord (if rest mem s.fill = [] then opStop else opEnd) 0 0 := by
  have h0 : Filled s { s with rx := [] } ⟨0, 0, 0⟩ [] :=
    ⟨fun _ => .nil, by decide, ht, rfl, by decide, rfl, by decide, rfl, Nat.le_refl 0, rfl, rfl,
      rfl, rfl, rfl⟩
  obtain ⟨more, hr, hf, hpl, hne⟩ := h0.loop mem i2cNcmds _ _ _ hp hu
  have hr : rest mem s = _ := hr
  generalize hx : fillLoop i2cNcmds { s with rx := [] } ⟨0, 0, 0⟩ = x at hr hf hpl
  have he : s.fill = x.1.cmd x.2.cmd (if x.1.msg < x.1.msgs.length then opEnd else opStop) 0 0 := by
    unfold Esp32s31I2c.fill
    rw [hx]
  have hre : rest mem s.fill = rest mem x.1 := by
    rw [he]
    rfl
  refine ⟨more, x.2, by rw [hre]; exact hr, fun hs => ?_, ?_, by rw [he]; exact hpl, ?_⟩
  · have hlt : s.msg < s.msgs.length :=
      Nat.lt_of_not_le fun hle => hs ((rest_eq_nil mem hp).mpr hle)
    exact hne (by decide) (fillTurn_fresh (s := { s with rx := [] }) hp hlt)
  · -- the last command stands behind the list
    rw [he]
    refine { hf with performs := fun slave => ?_ }
    have hc : (List.range x.2.cmd).map (x.1.cmd x.2.cmd
        (if x.1.msg < x.1.msgs.length then opEnd else opStop) 0 0).base.comd =
        (List.range x.2.cmd).map x.1.base.comd := List.map_congr_left fun k hk =>
      Function.update_of_ne (Nat.ne_of_lt (List.mem_range.mp hk)) _ _
    rw [hc]
    exact hf.performs slave
  · rw [hre, he]
    refine (Function.update_self _ _ _).trans ?_
    by_cases hl : x.1.msg < x.1.msgs.length
    · rw [if_pos hl, if_neg fun h => absurd ((rest_eq_nil mem hpl).mp h) (Nat.not_le_of_lt hl)]
    · rw [if_neg hl, if_pos ((rest_eq_nil mem hpl).mpr (Nat.le_of_not_lt hl))]

end Esp32S31.I2c
