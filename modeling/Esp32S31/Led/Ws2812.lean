import Mathlib.Algebra.GroupWithZero.Nat
import Mathlib.Data.List.Induction
import Esp32S31.Lib.Word

/-!
# The colour of the LED

`leds-esp32s31-ws2812.c` sends a colour as 24 words of the RMT, one word for a bit: a high pulse
whose length says what the bit is, and a low pulse. A word of duration 0 ends the sequence, and the
line stays low. The LED shifts the bits in, and shows them when the line has been low for long
enough; so a set waits until `WS2812_RESET_US` are over since the end of the last one.

The LED and the RMT are as their data sheets say: an LED reads a high pulse as a 1 from some length
on (`one`), and latches after some low time (`reset`), which lie between the pulses of the driver.

* `leds_frame`: an LED that has latched shifts in the 24 bits of the colour, the highest first.
* **`leds_show_last`**: after any sets, at whatever times, the LED shows the colour of the one
  before the last, and the last one as soon as the line has been low for `WS2812_RESET_US`.
-/

namespace Esp32S31.Led

open Esp32S31.Lib

/-! ## The driver -/

/-- `WS2812_T0H`, `WS2812_T0L`, `WS2812_T1H`, `WS2812_T1L`, in ticks of 50 ns. -/
def ws2812T0h : U32 := 8
def ws2812T0l : U32 := 17
def ws2812T1h : U32 := 16
def ws2812T1l : U32 := 9

/-- `WS2812_RESET_US`. -/
def ws2812ResetUs : Nat := 300

/-- `RMT_WORD`. -/
def rmtWord (d0 l0 d1 l1 : U32) : U32 := d0 ||| l0 <<< 15 ||| d1 <<< 16 ||| l1 <<< 31

/-- What `esp32s31_ws2812_send` writes to the RAM of the channel. -/
def sendWords (grb : U32) : List U32 :=
  (List.range 24).map (fun i =>
    if grb.getLsbD (23 - i) then rmtWord ws2812T1h 1 ws2812T1l 0
    else rmtWord ws2812T0h 1 ws2812T0l 0) ++ [0]

/-- The colour of `esp32s31_ws2812_set`. -/
def grb (red green blue : BitVec 8) : U32 :=
  green.setWidth 32 <<< 16 ||| red.setWidth 32 <<< 8 ||| blue.setWidth 32

/-! ## The line -/

/-- A level of the line for some nanoseconds. -/
structure Pulse where
  high : Bool
  ns : Nat
  deriving DecidableEq

/-- The RMT plays its RAM until a duration of 0. -/
def rmtPulses : List U32 → List Pulse
  | [] => []
  | w :: ws =>
    let d0 := w.toNat % 2 ^ 15
    let d1 := w.toNat / 2 ^ 16 % 2 ^ 15
    if d0 = 0 then []
    else if d1 = 0 then [⟨w.getLsbD 15, 50 * d0⟩]
    else ⟨w.getLsbD 15, 50 * d0⟩ :: ⟨w.getLsbD 31, 50 * d1⟩ :: rmtPulses ws

/-- What an LED is sure about: where a 1 starts, and when it latches, in nanoseconds. -/
structure Ws2812 where
  one : Nat
  reset : Nat
  zero_lt : 50 * ws2812T0h.toNat < one
  one_le : one ≤ 50 * ws2812T1h.toNat
  lt_reset : 50 * ws2812T0l.toNat < reset
  reset_le : reset ≤ 1000 * ws2812ResetUs

/-- An LED: the bits so far, the low time so far, and what it shows. -/
structure LedState where
  bits : List Bool
  low : Nat
  shown : List Bool
  deriving DecidableEq

namespace Ws2812

variable (led : Ws2812)

/-- The line has a level for a time. -/
def pulse (s : LedState) (p : Pulse) : LedState :=
  if p.high then { s with bits := s.bits ++ [decide (led.one ≤ p.ns)], low := 0 }
  else if s.low + p.ns < led.reset then { s with low := s.low + p.ns }
  else
    { bits := []
      low := s.low + p.ns
      shown := if s.bits.length < 24 then s.shown else s.bits.take 24 }

end Ws2812

/-! ## Sets -/

/-- A call of `esp32s31_ws2812_set`: the time since the last one has returned, the colour, and how
long the end of the frame takes to be noticed. -/
structure SetCall where
  after : Nat
  grb : U32
  noticed : Nat

structure LedSys where
  now : Nat
  /-- `sent` -/
  sent : Nat
  led : LedState

/-- The line is low for some nanoseconds. -/
def LedSys.wait (led : Ws2812) (s : LedSys) (ns : Nat) : LedSys :=
  { s with now := s.now + ns, led := led.pulse s.led ⟨false, ns⟩ }

@[simp] theorem LedSys.wait_now (led : Ws2812) (s : LedSys) (ns : Nat) :
    (s.wait led ns).now = s.now + ns := rfl

@[simp] theorem LedSys.wait_sent (led : Ws2812) (s : LedSys) (ns : Nat) :
    (s.wait led ns).sent = s.sent := rfl

/-- `esp32s31_ws2812_send`, in nanoseconds. -/
def LedSys.send (led : Ws2812) (s : LedSys) (c : SetCall) : LedSys :=
  let s := s.wait led c.after
  let gap := (s.now - s.sent) / 1000
  let s := if gap < ws2812ResetUs then s.wait led (1000 * (ws2812ResetUs - gap)) else s
  let pulses := rmtPulses (sendWords c.grb)
  let s := { s with
    now := s.now + (pulses.map Pulse.ns).sum
    led := pulses.foldl led.pulse s.led }
  let s := s.wait led c.noticed
  { s with sent := s.now }

/-- The bits of a colour, the highest first. -/
def bitsOf (grb : U32) : List Bool := (List.range 24).map fun i => grb.getLsbD (23 - i)

/-! ## A frame -/

/-- The two pulses of a bit. -/
def bitPulses (b : Bool) : List Pulse :=
  if b then [⟨true, 800⟩, ⟨false, 450⟩] else [⟨true, 400⟩, ⟨false, 850⟩]

theorem rmtPulses_word (b : Bool) (ws : List U32) :
    rmtPulses ((if b then rmtWord ws2812T1h 1 ws2812T1l 0 else rmtWord ws2812T0h 1 ws2812T0l 0) ::
      ws) = bitPulses b ++ rmtPulses ws := by
  cases b <;> rfl

theorem rmtPulses_words (f : Nat → Bool) (is : List Nat) :
    rmtPulses (is.map (fun i => if f i then rmtWord ws2812T1h 1 ws2812T1l 0
      else rmtWord ws2812T0h 1 ws2812T0l 0) ++ [0]) = (is.map f).flatMap bitPulses := by
  induction is with
  | nil => rfl
  | cons i is ih =>
    rw [List.map_cons, List.cons_append, rmtPulses_word, ih, List.map_cons, List.flatMap_cons]

/-- **The line plays the bits of the colour.** -/
theorem rmtPulses_sendWords (grb : U32) :
    rmtPulses (sendWords grb) = (bitsOf grb).flatMap bitPulses :=
  rmtPulses_words (fun i => grb.getLsbD (23 - i)) (List.range 24)

namespace Ws2812

variable (led : Ws2812)

/-- A bit is shifted in. -/
theorem foldl_bitPulses (s : LedState) (b : Bool) : ∃ low < led.reset,
    (bitPulses b).foldl led.pulse s = ⟨s.bits ++ [b], low, s.shown⟩ := by
  have hone := led.one_le
  have hzero := led.zero_lt
  have hreset := led.lt_reset
  simp only [ws2812T1h, ws2812T0h, ws2812T0l, BitVec.reduceToNat] at hone hzero hreset
  cases b with
  | true =>
    refine ⟨450, by omega, ?_⟩
    simp only [bitPulses, if_true, List.foldl_cons, List.foldl_nil, pulse, Bool.false_eq_true,
      if_false, Nat.zero_add, decide_eq_true hone]
    rw [if_pos (by omega)]
  | false =>
    refine ⟨850, by omega, ?_⟩
    have hnot : decide (led.one ≤ 400) = false := decide_eq_false (by omega)
    simp only [bitPulses, Bool.false_eq_true, if_false, List.foldl_cons, List.foldl_nil, pulse,
      if_true, Nat.zero_add, hnot]
    rw [if_pos (by omega)]

/-- **The LED shifts the bits in**, and shows what it has shown. -/
theorem leds_frame (bs : List Bool) (s : LedState) : ∃ low, (bs = [] ∨ low < led.reset) ∧
    (bs.flatMap bitPulses).foldl led.pulse s = ⟨s.bits ++ bs, low, s.shown⟩ := by
  induction bs using List.reverseRecOn with
  | nil => exact ⟨s.low, .inl rfl, by simp⟩
  | append_singleton bs b ih =>
    obtain ⟨low, -, hbs⟩ := ih
    obtain ⟨low', hlt, hb⟩ := led.foldl_bitPulses ⟨s.bits ++ bs, low, s.shown⟩ b
    refine ⟨low', .inr hlt, ?_⟩
    rw [List.flatMap_append, List.foldl_append, hbs, List.flatMap_cons, List.flatMap_nil,
      List.append_nil, hb, List.append_assoc]

end Ws2812

/-- The bits of a component, the highest first. -/
def byteBits (v : BitVec 8) : List Bool := (List.range 8).map fun i => v.getLsbD (7 - i)

/-- **The wire order**: green, red, blue. -/
theorem bitsOf_grb (red green blue : BitVec 8) :
    bitsOf (grb red green blue) = byteBits green ++ byteBits red ++ byteBits blue := by
  simp [bitsOf, byteBits, grb, List.range_succ]

theorem bitsOf_length (grb : U32) : (bitsOf grb).length = 24 := by
  simp [bitsOf]

/-! ## Runs -/

/-- The LED shows the colour `cur`, or it shows `prev` and has all bits of `cur`, but the line has
not been low for long enough. -/
structure Shows (led : Ws2812) (s : LedSys) (cur prev : List Bool) : Prop where
  sent : s.sent ≤ s.now
  shown : (s.led.bits = [] ∧ s.led.shown = cur) ∨
    (s.led.bits = cur ∧ cur.length = 24 ∧ s.now - s.sent ≤ s.led.low ∧ s.led.low < led.reset ∧
      s.led.shown = prev)

section Runs

variable {led : Ws2812} {s : LedSys} {cur prev : List Bool}

theorem Shows.wait (h : Shows led s cur prev) (ns : Nat) : Shows led (s.wait led ns) cur prev := by
  have hsent := h.sent
  refine ⟨Nat.le_trans hsent (Nat.le_add_right ..), ?_⟩
  simp only [LedSys.wait, Ws2812.pulse, Bool.false_eq_true, if_false]
  rcases h.shown with ⟨hb, hs⟩ | ⟨hb, hlen, hlow, -, hs⟩
  · refine .inl ?_
    split
    · exact ⟨hb, hs⟩
    · simp [hb, hs]
  · split
    · rename_i hlt
      refine .inr ⟨hb, hlen, ?_, hlt, hs⟩
      dsimp only
      omega
    · refine .inl ⟨rfl, ?_⟩
      rw [hb, hlen, if_neg (by decide), List.take_of_length_le (Nat.le_of_eq hlen)]

/-- **The gap is long enough**: before a frame, the LED shows the last colour. -/
theorem Shows.gap (h : Shows led s cur prev) {t : LedSys}
    (ht : t = if (s.now - s.sent) / 1000 < ws2812ResetUs then
      s.wait led (1000 * (ws2812ResetUs - (s.now - s.sent) / 1000)) else s) :
    t.led.bits = [] ∧ t.led.shown = cur ∧ s.now ≤ t.now := by
  have hdiv := Nat.div_add_mod (s.now - s.sent) 1000
  have hmod := Nat.mod_lt (s.now - s.sent) (Nat.succ_pos 999)
  generalize (s.now - s.sent) / 1000 = gap at ht hdiv
  have hshows : Shows led t cur prev ∧ 1000 * ws2812ResetUs ≤ t.now - t.sent ∧ s.now ≤ t.now := by
    have hsent := h.sent
    subst ht
    split
    · refine ⟨h.wait _, ?_, Nat.le_add_right ..⟩
      rw [LedSys.wait_now, LedSys.wait_sent, Nat.mul_sub]
      omega
    · exact ⟨h, by omega, Nat.le_refl _⟩
  obtain ⟨hs, hgap, hnow⟩ := hshows
  rcases hs.shown with ⟨hb, hc⟩ | ⟨-, -, hlow, hlt, -⟩
  · exact ⟨hb, hc, hnow⟩
  · exact absurd (Nat.le_trans (Nat.le_trans led.reset_le hgap) hlow) (Nat.not_le_of_lt hlt)

/-- **A set**: the new colour is with the LED, which has shown the last one meanwhile. -/
theorem Shows.send (h : Shows led s cur prev) (c : SetCall) :
    Shows led (s.send led c) (bitsOf c.grb) cur := by
  unfold LedSys.send
  dsimp only
  obtain ⟨hbits, hshown, -⟩ := (h.wait c.after).gap rfl
  generalize (if ((s.wait led c.after).now - (s.wait led c.after).sent) / 1000 < ws2812ResetUs then
    _ else _) = t at hbits hshown ⊢
  obtain ⟨low, hlow, hframe⟩ := led.leds_frame (bitsOf c.grb) t.led
  have hlen : (bitsOf c.grb).length = 24 := bitsOf_length c.grb
  have hlt : low < led.reset := hlow.resolve_left fun hnil => by
    rw [hnil] at hlen
    exact absurd hlen (by simp)
  rw [rmtPulses_sendWords, hframe, hbits, hshown, List.nil_append]
  refine ⟨Nat.le_refl _, ?_⟩
  simp only [LedSys.wait, Ws2812.pulse, Bool.false_eq_true, if_false]
  split
  · rename_i hn
    exact .inr ⟨rfl, hlen, by simp, hn, rfl⟩
  · refine .inl ⟨rfl, ?_⟩
    rw [hlen, if_neg (by decide), List.take_of_length_le (Nat.le_of_eq hlen)]

/-- The colour before the last one of some sets, and the last one, from what the LED shows first. -/
theorem Shows.sends (h : Shows led s cur prev) (cs : List SetCall) :
    ∃ prev', Shows led (cs.foldl (LedSys.send led) s)
      ((cs.getLast?.map (bitsOf ·.grb)).getD cur) prev' := by
  induction cs using List.reverseRecOn with
  | nil => exact ⟨prev, h⟩
  | append_singleton cs c ih =>
    obtain ⟨prev', ih⟩ := ih
    rw [List.foldl_append, List.getLast?_concat]
    exact ⟨_, ih.send c⟩

end Runs

/-- **The LED shows the last colour.** After any sets, at whatever times, it shows the colour of the
last one or that of the one before, no other; and the last one once the line has been low for
`WS2812_RESET_US` behind it. -/
theorem leds_show_last (led : Ws2812) {s : LedSys} (h0 : s.led.bits = []) (ht : s.sent ≤ s.now)
    (cs : List SetCall) (c : SetCall) :
    let t := (cs ++ [c]).foldl (LedSys.send led) s
    (t.led.shown = bitsOf c.grb ∨
      t.led.shown = (cs.getLast?.map (bitsOf ·.grb)).getD s.led.shown) ∧
    ∀ ns, 1000 * ws2812ResetUs ≤ ns → (t.wait led ns).led.shown = bitsOf c.grb := by
  have hs : Shows led s s.led.shown [] := ⟨ht, .inl ⟨h0, rfl⟩⟩
  obtain ⟨prev, hcs⟩ := hs.sends cs
  have hc := hcs.send c
  rw [List.foldl_append]
  refine ⟨?_, fun ns hns => ?_⟩
  · rcases hc.shown with ⟨-, hs⟩ | ⟨-, -, -, -, hs⟩
    · exact .inl hs
    · exact .inr hs
  · rcases (hc.wait ns).shown with ⟨-, hs⟩ | ⟨-, -, hlow, hlt, -⟩
    · exact hs
    · have hsent := hc.sent
      rw [LedSys.wait_now, LedSys.wait_sent] at hlow
      have hreset := led.reset_le
      omega

/-- An LED whose 1 starts at 0.6 us and which latches after 280 us. -/
def ws2812b : Ws2812 := ⟨600, 280000, by decide, by decide, by decide, by decide⟩

/-- Red, then green right behind it. -/
theorem leds_show_last_green :
    (([⟨5000000, grb 255 0 0, 1000⟩] ++ [⟨0, grb 0 255 0, 1000⟩] : List SetCall).foldl
      (LedSys.send ws2812b) ⟨0, 0, ⟨[], 0, []⟩⟩ |>.wait ws2812b 300000).led.shown =
      bitsOf (grb 0 255 0) :=
  (leds_show_last ws2812b rfl (Nat.le_refl 0) [⟨5000000, grb 255 0 0, 1000⟩]
    ⟨0, grb 0 255 0, 1000⟩).2 300000 (by decide)

end Esp32S31.Led
