import Esp32S31.I2c.Reference

/-!
# Lists of commands that perform steps of a transaction

`Performs ws ops`: on a controller whose TX FIFO starts with the bytes of `ops`, and whose RX FIFO
has room for those that it receives, the command words `ws` put exactly `ops` on the bus. Lists that
perform steps are put together with `Performs.append`; the commands of the driver are the three unit
lemmas.
-/

namespace Esp32S31.I2c

open Esp32S31.Lib Esp32s31I2c

/-- The bytes to the slave. -/
def puts (ops : List Op) : List UInt8 := ops.filterMap fun
  | .put b => some b
  | _ => none

/-- Where the bytes from the slave belong. -/
def gets (ops : List Op) : List (Nat × Nat) := ops.filterMap fun
  | .get msg off _ => some (msg, off)
  | _ => none

/-- The bus after one step. -/
def opBus (slave : Slave) (bus : List BusEvent) : Op → List BusEvent
  | .start => bus ++ [.start]
  | .put b => bus ++ [.write b true]
  | .get _ _ nack => bus ++ [.read (slave bus) nack]

/-- The bus after some steps. -/
def busAfter (slave : Slave) (bus : List BusEvent) (ops : List Op) : List BusEvent :=
  ops.foldl (opBus slave) bus

/-- The bytes from the slave. -/
def received (slave : Slave) : List BusEvent → List Op → List UInt8
  | _, [] => []
  | bus, .get msg off nack :: ops =>
    slave bus :: received slave (opBus slave bus (.get msg off nack)) ops
  | bus, op :: ops => received slave (opBus slave bus op) ops

@[simp] theorem puts_append (xs ys : List Op) : puts (xs ++ ys) = puts xs ++ puts ys :=
  List.filterMap_append

@[simp] theorem gets_append (xs ys : List Op) : gets (xs ++ ys) = gets xs ++ gets ys :=
  List.filterMap_append

@[simp] theorem busAfter_append (slave : Slave) (bus : List BusEvent) (xs ys : List Op) :
    busAfter slave bus (xs ++ ys) = busAfter slave (busAfter slave bus xs) ys := List.foldl_append

@[simp] theorem received_append (slave : Slave) : ∀ (xs ys : List Op) (bus : List BusEvent),
    received slave bus (xs ++ ys) = received slave bus xs ++ received slave (busAfter slave bus xs)
      ys
  | [], _, _ => rfl
  | .get msg off nack :: xs, ys, bus => by
    have ih := received_append slave xs ys (opBus slave bus (.get msg off nack))
    simp only [List.cons_append, received, ih]
    rfl
  | .start :: xs, ys, bus => received_append slave xs ys (opBus slave bus .start)
  | .put b :: xs, ys, bus => received_append slave xs ys (opBus slave bus (.put b))

theorem length_received (slave : Slave) : ∀ (ops : List Op) (bus : List BusEvent),
    (received slave bus ops).length = (gets ops).length
  | [], _ => rfl
  | .get msg off nack :: ops, bus => by
    have ih := length_received slave ops (opBus slave bus (.get msg off nack))
    simp only [received, List.length_cons, ih]
    rfl
  | .start :: ops, bus => length_received slave ops (opBus slave bus .start)
  | .put b :: ops, bus => length_received slave ops (opBus slave bus (.put b))

/-- The command words `ws` put the steps `ops` on the bus. -/
structure Performs (slave : Slave) (ws : List U32) (ops : List Op) : Prop where
  run : ∀ (c : Controller) (t : List UInt8), c.txFifo = puts ops ++ t →
    c.rxFifo.length + (gets ops).length ≤ i2cFifoSize →
    ws.foldlM (execCmd slave) c = some { c with
      txFifo := t
      rxFifo := c.rxFifo ++ received slave c.bus ops
      bus := busAfter slave c.bus ops }
  goes_on : ∀ w ∈ ws, cmdOp w ≠ opStop ∧ cmdOp w ≠ opEnd

namespace Performs

variable {slave : Slave}

theorem nil : Performs slave [] [] where
  run c t h _ := by
    have h : c.txFifo = t := h
    subst h
    simp only [List.foldlM_nil, received, busAfter, List.foldl_nil, List.append_nil]
    rfl
  goes_on _ h := absurd h List.not_mem_nil

theorem append {ws vs : List U32} {xs ys : List Op} (hx : Performs slave ws xs)
    (hy : Performs slave vs ys) : Performs slave (ws ++ vs) (xs ++ ys) where
  run c t h hr := by
    rw [puts_append, List.append_assoc] at h
    rw [gets_append, List.length_append] at hr
    rw [List.foldlM_append, hx.run c (puts ys ++ t) h (by omega)]
    refine (hy.run _ t rfl ?_).trans ?_
    · rw [List.length_append, length_received]
      omega
    · simp only [busAfter_append, received_append, List.append_assoc]
  goes_on w h := (List.mem_append.mp h).elim (hx.goes_on w) (hy.goes_on w)

/-- RSTART. -/
theorem rstart : Performs slave [cmdWord opRstart 0 0] [.start] where
  run c t h _ := by
    have h : c.txFifo = t := h
    subst h
    have he : execCmd slave c (cmdWord opRstart 0 0) = some { c with bus := c.bus ++ [.start] } :=
      if_pos (by decide)
    rw [List.foldlM_cons, he]
    simp only [received, List.append_nil]
    rfl
  goes_on w h := by
    rw [List.mem_singleton.mp h]
    decide

theorem fields_write : ∀ n : Fin 33, cmdOp (cmdWord opWrite n cmdAckCheck) = opWrite ∧
    cmdBytes (cmdWord opWrite n cmdAckCheck) = n ∧
    decide (cmdWord opWrite n cmdAckCheck &&& cmdAckCheck ≠ 0) = true := by
  decide +kernel

theorem fields_read : ∀ (n : Fin 33) (nack : Bool),
    cmdOp (cmdWord opRead n (if nack then cmdAckValue else 0)) = opRead ∧
    cmdBytes (cmdWord opRead n (if nack then cmdAckValue else 0)) = n ∧
    decide (cmdWord opRead n (if nack then cmdAckValue else 0) &&& cmdAckValue ≠ 0) = nack := by
  decide +kernel

theorem puts_map_put : ∀ bs : List UInt8, puts (bs.map .put) = bs
  | [] => rfl
  | b :: bs => by
    have ih := puts_map_put bs
    exact congrArg (b :: ·) ih

theorem gets_map_put : ∀ bs : List UInt8, gets (bs.map .put) = []
  | [] => rfl
  | _ :: bs => gets_map_put bs

theorem received_map_put : ∀ (bs : List UInt8) (bus : List BusEvent),
    received slave bus (bs.map .put) = []
  | [], _ => rfl
  | _ :: bs, _ => received_map_put bs _

theorem sendBytes_eq : ∀ (bs : List UInt8) (c : Controller) (t : List UInt8), c.txFifo = bs ++ t →
    sendBytes true bs.length c = some { c with
      txFifo := t, bus := busAfter slave c.bus (bs.map .put) }
  | [], c, t, h => by
    have h : c.txFifo = t := h
    subst h
    rfl
  | b :: bs, c, t, h => by
    rw [List.length_cons, sendBytes, h, List.cons_append]
    exact sendBytes_eq bs _ t rfl

/-- WRITE with ACK check. -/
theorem write (bs : List UInt8) (hb : bs.length ≤ i2cFifoSize) :
    Performs slave [cmdWord opWrite bs.length cmdAckCheck] (bs.map .put) := by
  obtain ⟨h1, h2, h3⟩ := fields_write ⟨bs.length, Nat.lt_succ_of_le hb⟩
  refine ⟨fun c t h _ => ?_, fun w h => ?_⟩
  · rw [puts_map_put] at h
    have he : execCmd slave c (cmdWord opWrite bs.length cmdAckCheck) = some { c with
        txFifo := t, bus := busAfter slave c.bus (bs.map .put) } := by
      unfold execCmd
      rw [h1, h2, h3, if_neg (by decide), if_pos rfl]
      exact sendBytes_eq bs c t h
    rw [List.foldlM_cons, he, received_map_put, List.append_nil]
    rfl
  · rw [List.mem_singleton.mp h, h1]
    decide

/-- The steps that receive the bytes at `ts`. -/
def getAll (nack : Bool) (ts : List (Nat × Nat)) : List Op := ts.map fun t => .get t.1 t.2 nack

theorem puts_getAll (nack : Bool) : ∀ ts, puts (getAll nack ts) = []
  | [] => rfl
  | _ :: ts => puts_getAll nack ts

theorem gets_getAll (nack : Bool) : ∀ ts, gets (getAll nack ts) = ts
  | [] => rfl
  | t :: ts => congrArg (t :: ·) (gets_getAll nack ts)

theorem receiveBytes_eq (nack : Bool) : ∀ (ts : List (Nat × Nat)) (c : Controller),
    c.rxFifo.length + ts.length ≤ i2cFifoSize →
    receiveBytes slave nack ts.length c = { c with
      rxFifo := c.rxFifo ++ received slave c.bus (getAll nack ts)
      bus := busAfter slave c.bus (getAll nack ts) }
  | [], c, _ => by
    show c = { c with rxFifo := c.rxFifo ++ [], bus := c.bus }
    rw [List.append_nil]
  | t :: ts, c, h => by
    rw [List.length_cons] at h
    have hp : pushFifo c.rxFifo (slave c.bus) = c.rxFifo ++ [slave c.bus] := if_pos (by omega)
    rw [List.length_cons, receiveBytes, hp, receiveBytes_eq nack ts _ (by
      simp only [List.length_append, List.length_singleton]
      omega)]
    simp only [List.append_assoc]
    rfl

/-- READ. -/
theorem read (ts : List (Nat × Nat)) (nack : Bool) (ht : ts.length ≤ i2cFifoSize) :
    Performs slave [cmdWord opRead ts.length (if nack then cmdAckValue else 0)]
      (getAll nack ts) := by
  obtain ⟨h1, h2, h3⟩ := fields_read ⟨ts.length, Nat.lt_succ_of_le ht⟩ nack
  refine ⟨fun c t h hr => ?_, fun w h => ?_⟩
  · rw [puts_getAll] at h
    rw [gets_getAll] at hr
    have h : c.txFifo = t := h
    subst h
    have he : execCmd slave c (cmdWord opRead ts.length (if nack then cmdAckValue else 0)) =
        some { c with
          rxFifo := c.rxFifo ++ received slave c.bus (getAll nack ts)
          bus := busAfter slave c.bus (getAll nack ts) } := by
      unfold execCmd
      rw [h1, h2, h3, if_neg (by decide), if_neg (by decide), if_pos rfl,
        receiveBytes_eq nack ts c hr]
    rw [List.foldlM_cons, he]
    rfl
  · rw [List.mem_singleton.mp h, h1]
    decide

end Performs

end Esp32S31.I2c
