import Esp32S31.I2c.Fill

/-!
# A turn of the fill loop and the command registers

A turn of `esp32s31_i2c_fill` writes command words one after the other, and reads none: what it does
otherwise is the same whatever the registers hold (`fillTurn_form`).
-/

namespace Esp32S31.I2c

open Esp32S31.Lib Esp32s31I2c

/-- Words written one after the other from register `n` on. -/
def putWords (f : Nat → U32) : Nat → List U32 → Nat → U32
  | _, [] => f
  | n, w :: ws => putWords (Function.update f n w) (n + 1) ws

theorem putWords_congr {f g : Nat → U32} : ∀ (ws : List U32) (n : Nat), (∀ k < n, f k = g k) →
    ∀ k < n + ws.length, putWords f n ws k = putWords g n ws k := by
  intro ws
  induction ws generalizing f g with
  | nil => exact fun n h => h
  | cons w ws ih =>
    intro n h k hk
    refine ih (n + 1) (fun j hj => ?_) k (by rw [List.length_cons] at hk; omega)
    by_cases hjn : j = n
    · rw [hjn, Function.update_self, Function.update_self]
    · rw [Function.update_of_ne hjn, Function.update_of_ne hjn]
      exact h j (by omega)

namespace Esp32s31I2c

/-- Other command registers. -/
def listed (s : Esp32s31I2c) (f : Nat → U32) : Esp32s31I2c :=
    { s with base := { s.base with comd := f } }

variable {s : Esp32s31I2c} {b : Batch} {m : I2cMsg}

theorem cmd_listed (f : Nat → U32) (n : Nat) (op : U32) (bytes : Nat) (flags : U32) :
    (s.listed f).cmd n op bytes flags = s.listed (Function.update f n (cmdWord op bytes flags)) :=
      rfl

theorem writeBytes_listed (f : Nat → U32) : ∀ (n : Nat) (s : Esp32s31I2c),
    (s.listed f).writeBytes n = (s.writeBytes n).listed f
  | 0, _ => rfl
  | n + 1, s => writeBytes_listed f n { s.writeData (s.mem s.msg s.pos) with pos := s.pos + 1 }

theorem writeBytes_same : ∀ (n : Nat) (s : Esp32s31I2c), SameBus s (s.writeBytes n)
  | 0, _ => ⟨rfl, rfl, rfl, rfl, rfl⟩
  | n + 1, s => by
    obtain ⟨h1, h2, h3, h4, h5⟩ :=
      writeBytes_same n { s.writeData (s.mem s.msg s.pos) with pos := s.pos + 1 }
    exact ⟨h1, h2, h3, h4, h5⟩

/-- What a step of the loop does: nothing, or words that do not depend on the registers. -/
def Turns (s : Esp32s31I2c) (b : Batch) (step : Esp32s31I2c → Option (Esp32s31I2c × Batch)) :
    Prop :=
  (∀ f, step (s.listed f) = none) ∨
  ∃ ws s' b', b'.cmd = b.cmd + ws.length ∧ SameBus s s' ∧
    ∀ f, step (s.listed f) = some (s'.listed (putWords f b.cmd ws), b')

theorem queueAddr_form (s : Esp32s31I2c) (b : Batch) (m : I2cMsg) :
    Turns s b fun s => s.queueAddr b m := by
  by_cases hc : i2cNcmds - 1 < b.cmd + 3 ∨ b.tx = i2cFifoSize
  · exact Or.inl fun f => if_pos hc
  · refine Or.inr ⟨[cmdWord opRstart 0 0, cmdWord opWrite 1 cmdAckCheck],
      { s.writeData m.addrByte with addressed := true },
      { b with cmd := b.cmd + 2, tx := b.tx + 1 }, rfl, ⟨rfl, rfl, rfl, rfl, rfl⟩, fun f => ?_⟩
    exact if_neg hc

theorem queueWrite_form (s : Esp32s31I2c) (b : Batch) (m : I2cMsg) :
    Turns s b fun s => s.queueWrite b m := by
  by_cases hc : min (m.len - s.pos) (i2cFifoSize - b.tx) = 0 ∨ i2cNcmds - 1 < b.cmd + 1
  · exact Or.inl fun f => if_pos hc
  · refine Or.inr ⟨[cmdWord opWrite (min (m.len - s.pos) (i2cFifoSize - b.tx)) cmdAckCheck],
      s.writeBytes (min (m.len - s.pos) (i2cFifoSize - b.tx)),
      { b with cmd := b.cmd + 1, tx := b.tx + min (m.len - s.pos) (i2cFifoSize - b.tx) }, rfl,
      writeBytes_same _ _, fun f => ?_⟩
    unfold queueWrite
    dsimp only
    rw [if_neg (show ¬ (min (m.len - (s.listed f).pos) (i2cFifoSize - b.tx) = 0 ∨ _) from hc),
      cmd_listed, writeBytes_listed]
    rfl

theorem queueRead_form (s : Esp32s31I2c) (b : Batch) (m : I2cMsg) :
    Turns s b fun s => s.queueRead b m := by
  unfold Turns
  unfold queueRead
  dsimp only
  -- the parts that do not depend on the registers
  have hpos (f : Nat → U32) : (s.listed f).pos = s.pos := rfl
  simp only [hpos]
  generalize hn : min (m.len - s.pos) (i2cFifoSize - b.rx) = n
  generalize hlast : (if n = m.len - s.pos then 1 else 0) = last
  have hle : last = 0 ∨ last = 1 := by
    rw [← hlast]
    split
    · exact Or.inr rfl
    · exact Or.inl rfl
  by_cases hc : n = 0 ∨ i2cNcmds - 1 < b.cmd + (if n - last = 0 then 0 else 1) + last
  · exact Or.inl fun f => if_pos hc
  · right
    simp only [if_neg hc]
    refine ⟨(if n - last = 0 then [] else [cmdWord opRead (n - last) 0]) ++
      (if last = 0 then [] else [cmdWord opRead 1 cmdAckValue]),
      { s with rx := s.rx ++ [⟨s.msg, s.pos, n⟩], pos := s.pos + n },
      { b with cmd := b.cmd + (if n - last = 0 then 0 else 1) + last, rx := b.rx + n }, ?_,
      ⟨rfl, rfl, rfl, rfl, rfl⟩, fun f => ?_⟩
    · rw [List.length_append, apply_ite List.length, apply_ite List.length]
      rcases hle with rfl | rfl
      · rw [if_pos rfl]
        rfl
      · rw [if_neg Nat.one_ne_zero, Nat.add_assoc]
        rfl
    · rcases hle with rfl | rfl
      · by_cases hb : n - 0 = 0
        · simp only [if_pos hb]
          rfl
        · simp only [if_neg hb]
          rfl
      · by_cases hb : n - 1 = 0
        · simp only [if_pos hb]
          rfl
        · simp only [if_neg hb]
          rfl

/-- **A turn of the loop** is the same whatever the registers hold. -/
theorem fillTurn_form (s : Esp32s31I2c) (b : Batch) : Turns s b fun s => s.fillTurn b := by
  unfold Turns fillTurn
  have hmsg (f : Nat → U32) : (s.listed f).msgs[(s.listed f).msg]? = s.msgs[s.msg]? := rfl
  have haddr (f : Nat → U32) : (s.listed f).addressed = s.addressed := rfl
  simp only [hmsg, haddr]
  cases s.msgs[s.msg]? with
  | none => exact Or.inl fun _ => rfl
  | some m =>
    dsimp only
    -- a queue function, and the next message behind it
    have settle {step : Esp32s31I2c → Option (Esp32s31I2c × Batch)} (h : Turns s b step) :
        Turns s b fun s => (step s).map fun x =>
          (if x.1.pos = m.len then x.1.nextMsg else x.1, x.2) := by
      rcases h with h | ⟨ws, s', b', hcmd, hsame, h⟩
      · exact Or.inl fun f => by simp only [h, Option.map_none]
      · refine Or.inr ⟨ws, if s'.pos = m.len then s'.nextMsg else s', b', hcmd, ?_, fun f => ?_⟩
        · obtain ⟨h1, h2, h3, h4, h5⟩ := hsame
          split
          · exact ⟨h1, h2, h3, h4, h5⟩
          · exact ⟨h1, h2, h3, h4, h5⟩
        · simp only [h, Option.map_some]
          have hpos : (s'.listed (putWords f b.cmd ws)).pos = s'.pos := rfl
          rw [hpos]
          by_cases hp : s'.pos = m.len
          · rw [if_pos hp, if_pos hp]
            rfl
          · rw [if_neg hp, if_neg hp]
    cases s.addressed with
    | false => exact settle (queueAddr_form s b m)
    | true =>
      cases m.rd with
      | true => exact settle (queueRead_form s b m)
      | false => exact settle (queueWrite_form s b m)

theorem fillTurn_same {s' : Esp32s31I2c} {b' : Batch} (h : s.fillTurn b = some (s', b')) :
    SameBus s s' := by
  rcases fillTurn_form s b with hn | ⟨ws, t, c, -, hsame, ht⟩
  · exact absurd ((hn s.base.comd).symm.trans h) nofun
  · have he := (ht s.base.comd).symm.trans h
    obtain ⟨rfl, -⟩ := Prod.mk.inj (Option.some.inj he)
    obtain ⟨h1, h2, h3, h4, h5⟩ := hsame
    exact ⟨h1, h2, h3, h4, h5⟩

end Esp32s31I2c

end Esp32S31.I2c
