import Esp32S31.Pinctrl.Driver

/-!
# Who changes a field of a GPIO_PIN word

Of the accesses of the driver only four kinds change a GPIO_PIN word (`OpAccess`), and each changes
one field of the word of its own pin. The enable bits of hart 0 have no owner in Linux.

**`pin_words_owned`**: over every run after the probe, for every pin. A handler passes on the pins
that it found at its read, so a pin that is masked after the read still comes (`passed_masked`).
-/

namespace Esp32S31.Pinctrl.Kernel

open Esp32S31.Lib

/-! ## The accesses -/

/-- The access changes no GPIO_PIN word. -/
def Access.Harmless : Access → Prop
  | .write off _ => off < 0xf4 ∨ 0x2f4 ≤ off
  | .pinRmw _ _ _ => False
  | _ => True

/-- The call is a pin configuration of the pin. -/
def Op.Configures (op : Op) (pin : Nat) : Prop :=
  match op with
  | .pinConfigSet p _ | .gpioSetConfig p _ _ => p.val = pin
  | .pinConfigGroupSet (some pins) _ => ∃ p ∈ pins, p.val = pin
  | _ => False

/-- What an access of a call is. -/
inductive OpAccess (op : Op) : Access → Prop
  | harmless {a : Access} (h : a.Harmless) : OpAccess op a
  | mask (pin : Fin npins) (h : op = .irqMask pin) : OpAccess op (.pinRmw pin (irqEna pin) 0#32)
  | unmask (pin : Fin npins) (h : op = .irqUnmask pin) : OpAccess op (.pinRmw pin 0#32 (irqEna pin))
  | setType (pin : Fin npins) (type x : U32) (h : op = .irqSetType pin type) (hok : op.effect.2 = 0)
      (hx : x &&& ~~~pinIntTypeMask = 0#32) : OpAccess op (.pinRmw pin pinIntTypeMask x)
  | config (pin : Nat) (h : op.Configures pin) (clr set : U32)
    (hclr : clr &&& ~~~pinPadDriver = 0#32)
      (hset : set &&& ~~~pinPadDriver = 0#32) : OpAccess op (.pinRmw pin clr set)

theorem mem_untilError {rs : List Effect} {a : Access} (h : a ∈ (untilError rs).1) :
    ∃ r ∈ rs, a ∈ r.1 := by
  induction rs with
  | nil => cases h
  | cons r rs ih =>
    unfold untilError at h
    split at h
    · exact ⟨r, List.mem_cons_self, h⟩
    · rcases List.mem_append.mp h with h | h
      · exact ⟨r, List.mem_cons_self, h⟩
      · obtain ⟨q, hq, ha⟩ := ih h
        exact ⟨q, List.mem_cons_of_mem r hq, ha⟩

theorem writeBit_harmless (pin : Nat) {reg0 reg1 : Nat} (h0 : reg0 < 0xf4) (h1 : reg1 < 0xf4) :
    (writeBit pin reg0 reg1).Harmless := by
  unfold writeBit bank
  split
  · exact Or.inl h0
  · exact Or.inl h1

/-- The mux writes IN_SEL, OUT_SEL, the IO MUX and CNNT. -/
theorem muxOne_harmless {pin : Nat} {mux : U32} {a : Access} (h : a ∈ (muxOne pin mux).1) :
    a.Harmless := by
  unfold muxOne at h
  dsimp only at h
  split at h
  · cases h
  · simp only [List.mem_append, List.mem_singleton] at h
    rcases h with ((h | h) | h) | h
    · split at h
      · obtain rfl := List.mem_singleton.mp h
        exact Or.inr (by unfold gpioInSel; omega)
      · cases h
    · split at h
      · obtain rfl := List.mem_singleton.mp h
        exact Or.inr (by unfold gpioOutSel; omega)
      · cases h
    · rw [h]
      trivial
    · obtain ⟨c, -, rfl⟩ := List.mem_map.mp h
      trivial

/-- A pin configuration changes the IO MUX, or the open-drain bit of its pin. -/
theorem configOne_access {op : Op} {pin : Nat} (hop : op.Configures pin) {param : Param} {arg : U32}
    {a : Access} (h : a ∈ (configOne pin param arg).1) : OpAccess op a := by
  cases param with
  | driveOpenDrain =>
    obtain rfl := List.mem_singleton.mp h
    exact .config pin hop _ _ (by decide) (by decide)
  | drivePushPull =>
    obtain rfl := List.mem_singleton.mp h
    exact .config pin hop _ _ (by decide) (by decide)
  | driveStrength =>
    unfold configOne at h
    dsimp only at h
    split at h
    · cases h
    · obtain rfl := List.mem_singleton.mp h
      exact .harmless trivial
  | other => cases h
  | biasDisable =>
    obtain rfl := List.mem_singleton.mp h
    exact .harmless trivial
  | biasPullUp =>
    obtain rfl := List.mem_singleton.mp h
    exact .harmless trivial
  | biasPullDown =>
    obtain rfl := List.mem_singleton.mp h
    exact .harmless trivial
  | inputEnable =>
    obtain rfl := List.mem_singleton.mp h
    exact .harmless trivial

theorem pinConfigSet_access {op : Op} {pin : Nat} (hop : op.Configures pin)
    {configs : List (Param × U32)}
    {a : Access} (h : a ∈ (pinConfigSet configs pin).1) : OpAccess op a := by
  obtain ⟨r, hr, ha⟩ := mem_untilError h
  obtain ⟨c, -, rfl⟩ := List.mem_map.mp hr
  exact configOne_access hop ha

/-- A type that is accepted stays within its field. -/
theorem irqSetType_access {op : Op} {pin : Fin npins} {type : U32} (hop : op = .irqSetType pin type)
    {a : Access} (h : a ∈ (irqSetType pin type).1) : OpAccess op a := by
  have hfield : ∀ n ∈ intType, BitVec.ofNat 32 n <<< 7 &&& ~~~pinIntTypeMask = 0#32 := by decide
  have hmem : intType.getD (type &&& 0xf#32).toNat 0 ∈ intType := by
    rw [List.getD_eq_getElem?_getD]
    cases hget : intType[(type &&& 0xf#32).toNat]? with
    | none => decide
    | some n => exact List.mem_of_getElem? hget
  have heff : op.effect = irqSetType pin type := by
    rw [hop]
    rfl
  unfold irqSetType at h heff
  dsimp only at h heff
  split at h
  · cases h
  · next hn =>
    rw [if_neg hn] at heff
    rcases List.mem_cons.mp h with rfl | h
    · exact .setType pin type _ hop (by rw [heff]) (hfield _ hmem)
    · obtain rfl := List.mem_singleton.mp h
      exact .harmless (writeBit_harmless _ (by decide) (by decide))

/-- **The accesses of every call.** -/
theorem Op.access {op : Op} {a : Access} (h : a ∈ op.effect.1) : OpAccess op a := by
  have hbit : ∀ {pin reg0 reg1 : Nat}, reg0 < 0xf4 → reg1 < 0xf4 →
      OpAccess op (writeBit pin reg0 reg1) :=
    fun h0 h1 => .harmless (writeBit_harmless _ h0 h1)
  cases op with
  | setMux group =>
    cases group with
    | none => cases h
    | some pins =>
      obtain ⟨r, hr, ha⟩ := mem_untilError h
      obtain ⟨p, -, rfl⟩ := List.mem_map.mp hr
      exact .harmless (muxOne_harmless ha)
  | gpioRequestEnable pin =>
    rcases List.mem_cons.mp h with rfl | h
    · exact hbit (by decide) (by decide)
    · rcases List.mem_cons.mp h with rfl | h
      · exact .harmless (Or.inr (by unfold gpioOutSel; omega))
      · rw [List.mem_singleton.mp h]
        exact .harmless trivial
  | pinConfigGet pin =>
    rw [List.eq_of_mem_replicate (n := 2) h]
    exact .harmless trivial
  | pinConfigSet pin configs =>
    have hop : (Op.pinConfigSet pin configs).Configures pin := rfl
    exact pinConfigSet_access hop h
  | pinConfigGroupSet group configs =>
    cases group with
    | none => cases h
    | some pins =>
      obtain ⟨r, hr, ha⟩ := mem_untilError h
      obtain ⟨p, hp, rfl⟩ := List.mem_map.mp hr
      obtain ⟨q, hq, rfl⟩ := List.mem_map.mp hp
      have hop : (Op.pinConfigGroupSet (some pins) configs).Configures q := ⟨q, hq, rfl⟩
      exact pinConfigSet_access hop ha
  | gpioSetConfig pin param arg =>
    have hop : (Op.gpioSetConfig pin param arg).Configures pin := rfl
    exact configOne_access hop h
  | gpioGet pin =>
    rw [List.mem_singleton.mp h]
    exact .harmless trivial
  | gpioSet pin value =>
    rw [List.mem_singleton.mp h]
    split
    · exact hbit (by decide) (by decide)
    · exact hbit (by decide) (by decide)
  | gpioGetDirection pin =>
    rw [List.mem_singleton.mp h]
    exact .harmless trivial
  | gpioDirectionInput pin =>
    rw [List.mem_singleton.mp h]
    exact hbit (by decide) (by decide)
  | gpioDirectionOutput pin value =>
    rcases List.mem_append.mp h with h | h
    · rw [List.mem_singleton.mp h]
      split
      · exact hbit (by decide) (by decide)
      · exact hbit (by decide) (by decide)
    · rw [List.mem_singleton.mp h]
      exact hbit (by decide) (by decide)
  | irqAck pin =>
    rw [List.mem_singleton.mp h]
    exact hbit (by decide) (by decide)
  | irqMask pin =>
    rw [List.mem_singleton.mp h]
    exact .mask pin rfl
  | irqUnmask pin =>
    rw [List.mem_singleton.mp h]
    exact .unmask pin rfl
  | irqSetType pin type => exact irqSetType_access rfl h

/-! ## The words -/

section Words

variable (h : Hw) {pin : Nat}

/-- A write outside of the GPIO_PIN words. -/
theorem pad_write {off : Nat} (hoff : off < 0xf4 ∨ 0x2f4 ≤ off) (val : U32) (hpin : pin < npins) :
    (h.write off val).pad pin = h.pad pin := by
  unfold npins at hpin
  unfold Hw.write
  split
  · next base hbase =>
    have hall : ∀ base ∈ w1Bases, base ≤ 0x80 := by decide
    have hle := hall base (List.mem_of_find?_eq_some hbase)
    refine Function.update_of_ne ?_ _ _
    unfold gpioPin
    omega
  · refine Function.update_of_ne ?_ _ _
    unfold gpioPin
    omega

theorem pad_harmless {a : Access} (ha : a.Harmless) (hpin : pin < npins) :
    (a.exec h).pad pin = h.pad pin := by
  cases a with
  | write off val => exact pad_write h ha val hpin
  | pinRmw => cases ha
  | read => rfl
  | iomuxRmw => rfl
  | cnntOr => rfl

/-- A read-modify-write changes the word of its pin only. -/
theorem pad_pinRmw (p : Nat) (clr set : U32) : ((Access.pinRmw p clr set).exec h).pad pin =
    if pin = p then h.pad pin &&& ~~~clr ||| set else h.pad pin := by
  unfold Access.exec Hw.pad
  dsimp only
  by_cases hp : pin = p
  · rw [hp, Function.update_self, if_pos rfl]
  · rw [if_neg hp, Function.update_of_ne]
    unfold gpioPin
    omega

end Words

/-- The bits of a word after a read-modify-write. -/
theorem getLsbD_rmw (x clr set : U32) {i : Nat} (hi : i < 32) :
    (x &&& ~~~clr ||| set).getLsbD i = (x.getLsbD i && !clr.getLsbD i || set.getLsbD i) := by
  rw [BitVec.getLsbD_or, BitVec.getLsbD_and, BitVec.getLsbD_not, decide_eq_true hi, Bool.true_and]

/-- A value within a field has no bit outside of it. -/
theorem getLsbD_outside {x mask : U32} (hx : x &&& ~~~mask = 0#32) {i : Nat} (hi : i < 32)
    (hm : mask.getLsbD i = false) : x.getLsbD i = false := by
  have hbit := congrArg (fun v : U32 => v.getLsbD i) hx
  rw [BitVec.getLsbD_and, BitVec.getLsbD_not, hm, decide_eq_true hi, BitVec.getLsbD_zero] at hbit
  simpa using hbit

theorem getLsbD_irqEna (pin : Nat) {i : Nat} (hi : i < 32) :
    (irqEna pin).getLsbD i = decide (i = 15 + pin / 32) := by
  unfold irqEna pinIntEna
  rw [U32.getLsbD_one_shiftLeft _ hi]
  congr 1
  exact propext ⟨fun h => by omega, fun h => by omega⟩

/-! ## One access -/

section OneAccess

variable {op : Op} {a : Access} (h : Hw) {pin : Nat}

theorem masks_harmless (ha : a.Harmless) (u : Nat → Bool) : op.masks a u = u := by
  unfold Op.masks
  split
  · cases ha
  · cases ha
  · rfl

theorem masks_config (hop : op.Configures pin) (u : Nat → Bool) : op.masks a u = u := by
  unfold Op.masks
  split
  · cases hop
  · cases hop
  · rfl

/-- A bit of a word changes only as the enable bit of its pin, in the type or as the open-drain bit.
-/
theorem OpAccess.bit_same (ha : OpAccess op a) (hpin : pin < npins) {i : Nat} (hi : i < 32)
    (hena : i ≠ 15 + pin / 32) (htype : pinIntTypeMask.getLsbD i = false)
    (hdrv : pinPadDriver.getLsbD i = false) :
    ((a.exec h).pad pin).getLsbD i = (h.pad pin).getLsbD i := by
  have hfree : (irqEna pin).getLsbD i = false := by
    rw [getLsbD_irqEna _ hi]
    exact decide_eq_false hena
  cases ha with
  | harmless ha => rw [pad_harmless h ha hpin]
  | mask p _ =>
    rw [pad_pinRmw]
    split
    · next hp => rw [getLsbD_rmw _ _ _ hi, ← hp, hfree, BitVec.getLsbD_zero, Bool.not_false,
        Bool.and_true, Bool.or_false]
    · rfl
  | unmask p _ =>
    rw [pad_pinRmw]
    split
    · next hp => rw [getLsbD_rmw _ _ _ hi, ← hp, hfree, BitVec.getLsbD_zero, Bool.not_false,
        Bool.and_true, Bool.or_false]
    · rfl
  | setType p _ x _ _ hx =>
    rw [pad_pinRmw]
    split
    · rw [getLsbD_rmw _ _ _ hi, htype, getLsbD_outside hx hi htype, Bool.not_false, Bool.and_true,
        Bool.or_false]
    · rfl
  | config p _ clr set hclr hset =>
    rw [pad_pinRmw]
    split
    · rw [getLsbD_rmw _ _ _ hi, getLsbD_outside hclr hi hdrv, getLsbD_outside hset hi hdrv,
        Bool.not_false, Bool.and_true, Bool.or_false]
    · rfl

/-- The enable bit of a pin follows `irq_mask` and `irq_unmask` of the pin. -/
theorem OpAccess.enable (ha : OpAccess op a) (hpin : pin < npins) {u : Nat → Bool}
    (hu : (h.pad pin).getLsbD (15 + pin / 32) = u pin) :
    ((a.exec h).pad pin).getLsbD (15 + pin / 32) = op.masks a u pin := by
  have hi : 15 + pin / 32 < 32 := by
    unfold npins at hpin
    omega
  have hown : (irqEna pin).getLsbD (15 + pin / 32) = true := by
    rw [getLsbD_irqEna _ hi]
    exact decide_eq_true rfl
  have hbits : ∀ n < 2, pinIntTypeMask.getLsbD (15 + n) = false ∧
      pinPadDriver.getLsbD (15 + n) = false := by
    decide
  obtain ⟨htype, hdrv⟩ := hbits (pin / 32) (by unfold npins at hpin; omega)
  cases ha with
  | harmless ha => rw [pad_harmless h ha hpin, masks_harmless ha, hu]
  | mask p hop =>
    rw [pad_pinRmw, hop]
    dsimp only [Op.masks]
    split
    · next hp =>
      rw [getLsbD_rmw _ _ _ hi, ← hp, hown, Function.update_self, Bool.not_true, Bool.and_false,
        Bool.false_or]
      exact BitVec.getLsbD_zero
    · next hp => rw [Function.update_of_ne hp, hu]
  | unmask p hop =>
    rw [pad_pinRmw, hop]
    dsimp only [Op.masks]
    split
    · next hp => rw [getLsbD_rmw _ _ _ hi, ← hp, hown, Function.update_self, Bool.or_true]
    · next hp => rw [Function.update_of_ne hp, hu]
  | setType p _ x hop _ hx =>
    rw [pad_pinRmw, hop]
    dsimp only [Op.masks]
    split
    · rw [getLsbD_rmw _ _ _ hi, htype, getLsbD_outside hx hi htype, Bool.not_false, Bool.and_true,
        Bool.or_false, hu]
    · exact hu
  | config p hop clr set hclr hset =>
    rw [pad_pinRmw, masks_config hop]
    split
    · rw [getLsbD_rmw _ _ _ hi, getLsbD_outside hclr hi hdrv, getLsbD_outside hset hi hdrv,
        Bool.not_false, Bool.and_true, Bool.or_false, hu]
    · exact hu

end OneAccess

/-! ## The probe -/

/-- The loop of the probe clears the two lines of Linux in each word, and nothing else there. -/
theorem irqInit_pad {count : Nat} (hcount : 2 ≤ count) (h : Hw) {pin : Nat} (hpin : pin < npins) :
    (irqInit count h).pad pin = h.pad pin &&& ~~~(pinIntEna 2 ||| pinIntEna 3) := by
  have hloop : ∀ n, ((List.range n).foldl (fun h pin =>
      (Access.pinRmw pin (pinIntEna 2 ||| pinIntEna 3) 0#32).exec h) h).pad pin =
      if pin < n then h.pad pin &&& ~~~(pinIntEna 2 ||| pinIntEna 3) else h.pad pin := by
    intro n
    induction n with
    | zero => rfl
    | succ n ih =>
      rw [List.range_succ, List.foldl_append, List.foldl_cons, List.foldl_nil, pad_pinRmw, ih]
      by_cases hn : pin = n
      · rw [if_pos hn, if_neg (by omega), if_pos (by omega), BitVec.or_zero]
      · rw [if_neg hn]
        by_cases hlt : pin < n
        · rw [if_pos hlt, if_pos (by omega)]
        · rw [if_neg hlt, if_neg (by omega)]
  unfold irqInit
  rw [if_neg (by omega), hloop, if_pos hpin]

/-! ## Every run -/

/-- What a thread may be in. -/
def TaskOk (count : Nat) : Task → Prop
  | .call op todo => (∀ a ∈ todo, a ∈ op.effect.1) ∧ (op.isIrq = true → 2 ≤ count)
  | .handler _ => 2 ≤ count
  | .passing bank todo seen => ∀ pin ∈ todo, pin < npins ∧ pin / 32 = bank ∧ seen pin = true

/-- The words of the pins, in terms of the start and of the pins that are unmasked. -/
structure PadsOk (count : Nat) (h0 h : Hw) (unmasked : Nat → Bool) : Prop where
  hart0 : ∀ pin < npins, ∀ line < 2, (h.pad pin).getLsbD (13 + line) =
    (h0.pad pin).getLsbD (13 + line)
  enable : 2 ≤ count → ∀ pin < npins, (h.pad pin).getLsbD (15 + pin / 32) = unmasked pin
  other : 2 ≤ count → ∀ pin < npins, (h.pad pin).getLsbD (16 - pin / 32) = false
  still : count < 2 → ∀ pin < npins, ∀ line < 4,
    (h.pad pin).getLsbD (13 + line) = (h0.pad pin).getLsbD (13 + line)

structure Inv (count : Nat) (h0 : Hw) (s : State) : Prop where
  irqs : s.irqs = decide (2 ≤ count)
  tasks : ∀ t task, s.threads t = some task → TaskOk count task
  pads : PadsOk count h0 s.hw s.unmasked
  passed : ∀ e ∈ s.passed, e.pin < npins ∧ e.pin / 32 = e.bank ∧ e.seen = true

section Run

variable {count : Nat} {h0 : Hw} {s : State}

theorem PadsOk.init : PadsOk count h0 (irqInit count h0) fun _ => false := by
  have hours : ∀ i : Fin 4, (pinIntEna 2 ||| pinIntEna 3).getLsbD (13 + i) =
      decide (2 ≤ i.val) := by decide
  have hbit : ∀ pin < npins, ∀ line < 4, 2 ≤ count →
      ((irqInit count h0).pad pin).getLsbD (13 + line) =
      ((h0.pad pin).getLsbD (13 + line) && decide (line < 2)) := by
    intro pin hpin line hline hcount
    rw [irqInit_pad hcount h0 hpin, BitVec.getLsbD_and, BitVec.getLsbD_not, hours ⟨line, hline⟩,
      decide_eq_true (show 13 + line < 32 by omega), Bool.true_and]
    congr 1
    by_cases h2 : 2 ≤ line
    · rw [decide_eq_true h2, decide_eq_false (by omega)]
      rfl
    · rw [decide_eq_false h2, decide_eq_true (by omega)]
      rfl
  have hnone : count < 2 → irqInit count h0 = h0 := fun hlt => if_pos hlt
  refine ⟨fun pin hpin line hline => ?_, fun hcount pin hpin => ?_, fun hcount pin hpin => ?_,
    fun hlt pin _ line _ => by rw [hnone hlt]⟩
  · by_cases hcount : 2 ≤ count
    · rw [hbit pin hpin line (by omega) hcount, decide_eq_true hline, Bool.and_true]
    · rw [hnone (by omega)]
  · have := hbit pin hpin (2 + pin / 32) (by unfold npins at hpin; omega) hcount
    rw [show 13 + (2 + pin / 32) = 15 + pin / 32 by omega] at this
    rw [this, decide_eq_false (by omega), Bool.and_false]
  · have := hbit pin hpin (3 - pin / 32) (by unfold npins at hpin; omega) hcount
    rw [show 13 + (3 - pin / 32) = 16 - pin / 32 by unfold npins at hpin; omega] at this
    rw [this, decide_eq_false (by unfold npins at hpin; omega), Bool.and_false]

/-- One access of a call. -/
theorem PadsOk.access {h : Hw} {u : Nat → Bool} (hp : PadsOk count h0 h u) {op : Op} {a : Access}
    (ha : a ∈ op.effect.1) (hirq : op.isIrq = true → 2 ≤ count) :
    PadsOk count h0 (a.exec h) (op.masks a u) := by
  have hacc := Op.access ha
  have htype : ∀ i : Fin 4, pinIntTypeMask.getLsbD (13 + i) = false ∧
      pinPadDriver.getLsbD (13 + i) = false := by
    decide
  have hsame : ∀ pin < npins, ∀ line < 4, line ≠ 2 + pin / 32 →
      ((a.exec h).pad pin).getLsbD (13 + line) = (h.pad pin).getLsbD (13 + line) := by
    intro pin hpin line hline hne
    exact hacc.bit_same h hpin (by omega) (by omega) (htype ⟨line, hline⟩).1 (htype ⟨line, hline⟩).2
  refine ⟨fun pin hpin line hline => ?_, fun hcount pin hpin => ?_, fun hcount pin hpin => ?_,
    fun hlt pin hpin line hline => ?_⟩
  · rw [hsame pin hpin line (by omega) (by omega)]
    exact hp.hart0 pin hpin line hline
  · exact hacc.enable h hpin (hp.enable hcount pin hpin)
  · have := hsame pin hpin (3 - pin / 32) (by omega) (by unfold npins at hpin; omega)
    rw [show 13 + (3 - pin / 32) = 16 - pin / 32 by unfold npins at hpin; omega] at this
    rw [this]
    exact hp.other hcount pin hpin
  · -- no interrupt chip, so the access is none of its callbacks
    rw [← hp.still hlt pin hpin line hline]
    have hirq' : op.isIrq = false := by
      cases hop : op.isIrq with
      | true => exact absurd (hirq hop) (by omega)
      | false => rfl
    cases hacc with
    | harmless hh => rw [pad_harmless h hh hpin]
    | mask p hop => rw [hop] at hirq'; cases hirq'
    | unmask p hop => rw [hop] at hirq'; cases hirq'
    | setType p type x hop => rw [hop] at hirq'; cases hirq'
    | config p _ clr set hclr hset =>
      have hdrv := (htype ⟨line, hline⟩).2
      rw [pad_pinRmw]
      split
      · rw [getLsbD_rmw _ _ _ (by omega), getLsbD_outside hclr (by omega) hdrv,
          getLsbD_outside hset (by omega) hdrv, Bool.not_false, Bool.and_true, Bool.or_false]
      · rfl

/-- The pins that a handler finds are unmasked pins of its bank. -/
theorem PadsOk.found {h : Hw} {u : Nat → Bool} (hp : PadsOk count h0 h u) (hcount : 2 ≤ count)
    {bank : Fin 2} {pin : Nat} (hpin : pin ∈ h.intPins (2 + bank) bank) :
    pin < npins ∧ pin / 32 = bank ∧ u pin = true := by
  obtain ⟨hlt, hcond⟩ := List.mem_filter.mp hpin
  simp only [Bool.and_eq_true, decide_eq_true_eq] at hcond
  obtain ⟨⟨hbank, -⟩, hena⟩ := hcond
  have hpin' := List.mem_range.mp hlt
  refine ⟨hpin', hbank, ?_⟩
  rw [← hp.enable hcount pin hpin', ← hena, hbank]
  congr 1
  omega

/-- The tasks after one thread has moved. -/
theorem tasks_update {threads : Nat → Option Task}
    (h : ∀ t task, threads t = some task → TaskOk count task)
    (t : Nat) {new : Option Task} (hnew : ∀ task, new = some task → TaskOk count task) :
    ∀ t' task, Function.update threads t new t' = some task → TaskOk count task := by
  intro t' task ht'
  by_cases he : t' = t
  · rw [he, Function.update_self] at ht'
    exact hnew task ht'
  · rw [Function.update_of_ne he] at ht'
    exact h t' task ht'

theorem Inv.runTask (hi : Inv count h0 s) {t : Nat} {task : Task} (ht : s.threads t = some task) :
    Inv count h0 (runTask s t task) := by
  have hok := hi.tasks t task ht
  cases task with
  | call op todo =>
    cases todo with
    | nil => exact ⟨hi.irqs, tasks_update hi.tasks t nofun, hi.pads, hi.passed⟩
    | cons a todo =>
      refine ⟨hi.irqs, tasks_update hi.tasks t ?_,
        hi.pads.access (hok.1 a List.mem_cons_self) hok.2, hi.passed⟩
      rintro task ⟨⟩
      exact ⟨fun b hb => hok.1 b (List.mem_cons_of_mem a hb), hok.2⟩
  | handler bank =>
    refine ⟨hi.irqs, tasks_update hi.tasks t ?_, hi.pads, hi.passed⟩
    rintro task ⟨⟩
    exact fun pin hpin => hi.pads.found hok hpin
  | passing bank todo seen =>
    cases todo with
    | nil => exact ⟨hi.irqs, tasks_update hi.tasks t nofun, hi.pads, hi.passed⟩
    | cons pin todo =>
      refine ⟨hi.irqs, tasks_update hi.tasks t ?_, hi.pads, fun e he => ?_⟩
      · rintro task ⟨⟩
        exact fun p hp => hok p (List.mem_cons_of_mem pin hp)
      · rcases List.mem_cons.mp he with rfl | he
        · exact hok pin List.mem_cons_self
        · exact hi.passed e he

/-- A status bit does not touch the words of the pins. -/
theorem pad_raise (h : Hw) (p : Fin npins) {pin : Nat} (hpin : pin < npins) :
    (h.write (bank p.val gpioStatus gpioStatus1 + gpioW1ts) (1#32 <<< (p.val % 32))).pad pin =
      h.pad pin := by
  refine pad_write h (Or.inl ?_) _ hpin
  unfold bank
  split <;> decide

/-- **The step lemma.** -/
theorem Inv.step {s' : State} {a : Action} (hi : Inv count h0 s) (hs : Kernel.step a s = some s') :
    Inv count h0 s' := by
  cases a with
  | start t op =>
    unfold Kernel.step at hs
    dsimp only at hs
    split at hs
    · next hc =>
      cases hs
      refine ⟨hi.irqs, tasks_update hi.tasks t ?_, hi.pads, hi.passed⟩
      rintro task ⟨⟩
      refine ⟨fun a ha => ha, fun hop => ?_⟩
      have := hc.2 hop
      rw [hi.irqs] at this
      exact of_decide_eq_true this
    · cases hs
  | interrupt t bank =>
    unfold Kernel.step at hs
    dsimp only at hs
    split at hs
    · next hc =>
      cases hs
      refine ⟨hi.irqs, tasks_update hi.tasks t ?_, hi.pads, hi.passed⟩
      rintro task ⟨⟩
      have hirqs := hc.2
      rw [hi.irqs] at hirqs
      have hcount : 2 ≤ count := of_decide_eq_true hirqs
      exact hcount
    · cases hs
  | run t =>
    obtain ⟨task, ht, rfl⟩ := Option.map_eq_some_iff.mp hs
    exact hi.runTask ht
  | raise p =>
    cases hs
    refine ⟨hi.irqs, hi.tasks, ?_, hi.passed⟩
    refine ⟨fun pin hpin => ?_, fun hc pin hpin => ?_, fun hc pin hpin => ?_, fun hc pin hpin => ?_⟩
    · rw [pad_raise _ p hpin]
      exact hi.pads.hart0 pin hpin
    · rw [pad_raise _ p hpin]
      exact hi.pads.enable hc pin hpin
    · rw [pad_raise _ p hpin]
      exact hi.pads.other hc pin hpin
    · rw [pad_raise _ p hpin]
      exact hi.pads.still hc pin hpin

theorem inv_reach (hr : (driver count h0).Reach s) : Inv count h0 s := by
  refine hr.invariant ?_ fun a s s' _ hi _ hs => hi.step hs
  rintro s rfl
  exact ⟨rfl, nofun, .init, nofun⟩

end Run

/-! ## The owners -/

/-- The pins that a call is for. -/
def Op.pins : Op → List Nat
  | .setMux group => (group.getD []).map (·.1)
  | .pinConfigGroupSet group _ => (group.getD []).map (·.val)
  | .gpioRequestEnable pin | .pinConfigGet pin | .pinConfigSet pin _ | .gpioSetConfig pin _ _
  | .gpioGet pin | .gpioSet pin _ | .gpioGetDirection pin | .gpioDirectionInput pin
  | .gpioDirectionOutput pin _ | .irqAck pin | .irqMask pin | .irqUnmask pin | .irqSetType pin _ =>
    [pin]

theorem Op.Configures.mem {op : Op} {pin : Nat} (h : op.Configures pin) : pin ∈ op.pins := by
  unfold Op.Configures at h
  split at h
  · exact List.mem_singleton.mpr h.symm
  · exact List.mem_singleton.mpr h.symm
  · obtain ⟨p, hp, rfl⟩ := h
    exact List.mem_map.mpr ⟨p, hp, rfl⟩
  · cases h

/-- What a change of the word of `pin` from `x` to `y` by a call says about the call: the type field
is of a `set_type` that succeeds, the open-drain bit of the pin configuration, and the word of the
calls for the pin. -/
structure OwnedBy (op : Op) (pin : Fin npins) (x y : U32) : Prop where
  type : ∀ i, 7 ≤ i → i ≤ 9 → y.getLsbD i ≠ x.getLsbD i → ∃ type, op = .irqSetType pin type ∧
    op.effect.2 = 0
  openDrain : y.getLsbD 2 ≠ x.getLsbD 2 → op.Configures pin
  word : y ≠ x → pin.val ∈ op.pins

theorem OwnedBy.same (op : Op) (pin : Fin npins) (x : U32) : OwnedBy op pin x x :=
  ⟨fun _ _ _ h => absurd rfl h, fun h => absurd rfl h, fun h => absurd rfl h⟩

/-- The enable bits are neither in the type field nor the open-drain bit. -/
theorem OwnedBy.enable {op : Op} {pin : Fin npins} (hpin : pin.val ∈ op.pins) {x clr set : U32}
    (hclr : ∀ i, i ≤ 9 → clr.getLsbD i = false) (hset : ∀ i, i ≤ 9 → set.getLsbD i = false) :
    OwnedBy op pin x (x &&& ~~~clr ||| set) := by
  have hbit : ∀ i ≤ 9, (x &&& ~~~clr ||| set).getLsbD i = x.getLsbD i := by
    intro i hi
    rw [getLsbD_rmw _ _ _ (by omega), hclr i hi, hset i hi, Bool.not_false, Bool.and_true,
      Bool.or_false]
  exact ⟨fun i _ hi h => absurd (hbit i hi) h, fun h => absurd (hbit 2 (by decide)) h,
    fun _ => hpin⟩

theorem OpAccess.owned {op : Op} {a : Access} (ha : OpAccess op a) (h : Hw) (pin : Fin npins) :
    OwnedBy op pin (h.pad pin) ((a.exec h).pad pin) := by
  have hena : ∀ p i, i ≤ 9 → (irqEna p).getLsbD i = false := by
    intro p i hi
    rw [getLsbD_irqEna p (by omega)]
    exact decide_eq_false (by omega)
  have hzero : ∀ i, i ≤ 9 → (0#32).getLsbD i = false := fun i _ => BitVec.getLsbD_zero
  have hdrv : ∀ i : Fin 32, pinPadDriver.getLsbD i = decide (i.val = 2) := by decide
  cases ha with
  | harmless ha =>
    rw [pad_harmless h ha pin.isLt]
    exact .same _ _ _
  | mask p hop =>
    rw [pad_pinRmw]
    split
    · next hp => exact .enable (by rw [hop]; exact List.mem_singleton.mpr hp) (hena p) hzero
    · exact .same _ _ _
  | unmask p hop =>
    rw [pad_pinRmw]
    split
    · next hp => exact .enable (by rw [hop]; exact List.mem_singleton.mpr hp) hzero (hena p)
    · exact .same _ _ _
  | setType p type x hop hok hx =>
    rw [pad_pinRmw]
    split
    · next hp =>
      have hpp : p = pin := Fin.ext hp.symm
      have h2 : pinIntTypeMask.getLsbD 2 = false := by decide
      refine ⟨fun i _ _ _ => ⟨type, by rw [hop, hpp], hok⟩, fun hne => absurd ?_ hne,
        fun _ => by rw [hop]; exact List.mem_singleton.mpr hp⟩
      rw [getLsbD_rmw _ _ _ (by decide), h2, getLsbD_outside hx (by decide) h2, Bool.not_false,
        Bool.and_true, Bool.or_false]
    · exact .same _ _ _
  | config p hop clr set hclr hset =>
    rw [pad_pinRmw]
    split
    · next hp =>
      subst hp
      refine ⟨fun i hlo hhi hne => absurd ?_ hne, fun _ => hop, fun _ => hop.mem⟩
      have hi : pinPadDriver.getLsbD i = false := by
        refine (hdrv ⟨i, by omega⟩).trans (decide_eq_false ?_)
        dsimp only
        omega
      rw [getLsbD_rmw _ _ _ (by omega), getLsbD_outside hclr (by omega) hi,
        getLsbD_outside hset (by omega) hi, Bool.not_false, Bool.and_true, Bool.or_false]
    · exact .same _ _ _

/-- A step that changes the word of a pin is an access of a call that owns the change. -/
def StepOwned (s : State) (a : Action) (s' : State) (pin : Fin npins) : Prop :=
  s'.hw.pad pin = s.hw.pad pin ∨
    ∃ t op todo, a = .run t ∧ s.threads t = some (.call op todo) ∧
      OwnedBy op pin (s.hw.pad pin) (s'.hw.pad pin)

theorem step_owned {count : Nat} {h0 : Hw} {s s' : State} (hi : Inv count h0 s) {a : Action}
    (hs : Kernel.step a s = some s') (pin : Fin npins) : StepOwned s a s' pin := by
  cases a with
  | start t op =>
    unfold Kernel.step at hs
    dsimp only at hs
    split at hs
    · cases hs
      exact Or.inl rfl
    · cases hs
  | interrupt t bank =>
    unfold Kernel.step at hs
    dsimp only at hs
    split at hs
    · cases hs
      exact Or.inl rfl
    · cases hs
  | raise p =>
    cases hs
    exact Or.inl (pad_raise _ p pin.isLt)
  | run t =>
    obtain ⟨task, ht, rfl⟩ := Option.map_eq_some_iff.mp hs
    have hok := hi.tasks t task ht
    cases task with
    | handler bank => exact Or.inl rfl
    | passing bank todo seen =>
      cases todo with
      | nil => exact Or.inl rfl
      | cons p todo => exact Or.inl rfl
    | call op todo =>
      cases todo with
      | nil => exact Or.inl rfl
      | cons b todo =>
        exact Or.inr ⟨t, op, b :: todo, rfl, ht,
          (Op.access (hok.1 b List.mem_cons_self)).owned s.hw pin⟩

/-- **The fields of a GPIO_PIN word have one owner each.** In every state after the probe: the
enable bits of the lines 0 and 1 are as they were; with the interrupts of the device tree, the
enable bit of the line of the bank is set exactly for an unmasked pin and that of the other line
never, and without them neither changes; a handler passes on only pins of its bank that were
unmasked at its read; and a step changes the type field, the open-drain bit or the word of a pin
only as their owner. -/
theorem pin_words_owned (count : Nat) (h0 : Hw) (s : State) (hr : (driver count h0).Reach s) :
    (∀ pin < npins, ∀ line < 2, (s.hw.pad pin).getLsbD (13 + line) =
    (h0.pad pin).getLsbD (13 + line)) ∧
    (2 ≤ count → ∀ pin < npins, (s.hw.pad pin).getLsbD (15 + pin / 32) = s.unmasked pin ∧
      (s.hw.pad pin).getLsbD (16 - pin / 32) = false) ∧
    (count < 2 → ∀ pin < npins, ∀ line < 4,
      (s.hw.pad pin).getLsbD (13 + line) = (h0.pad pin).getLsbD (13 + line)) ∧
    (∀ e ∈ s.passed, e.pin < npins ∧ e.pin / 32 = e.bank ∧ e.seen = true) ∧
    ∀ a s', (driver count h0).step a s = some s' → ∀ pin : Fin npins, StepOwned s a s' pin := by
  have hi := inv_reach hr
  exact ⟨hi.pads.hart0, fun hc pin hpin => ⟨hi.pads.enable hc pin hpin, hi.pads.other hc pin hpin⟩,
    hi.pads.still, hi.passed, fun a s' hs pin => step_owned hi hs pin⟩

/-- Registers that are all zero. -/
def idleHw : Hw := ⟨fun _ => 0#32, fun _ => 0#32, 0#32⟩

def probed : State := ⟨irqInit 2 idleHw, true, fun _ => none, fun _ => false, []⟩

/-- Two pins are unmasked and pending, the handler reads both, and the second one is masked before
its turn. -/
def maskedRun : List Action :=
  [.start 0 (.irqUnmask 0), .run 0, .run 0, .start 0 (.irqUnmask 1), .run 0, .run 0, .raise 0,
    .raise 1, .interrupt 1 0, .run 1, .run 1, .start 0 (.irqMask 1), .run 0, .run 1]

theorem maskedRun_passed : ((driver 2 idleHw).run maskedRun probed).map (·.passed) =
    some [⟨0, 1, true, false⟩, ⟨0, 0, true, true⟩] := by
  decide +kernel

/-- A handler passes on a pin that is masked. -/
theorem passed_masked : ∃ s, (driver 2 idleHw).Reach s ∧ ∃ e ∈ s.passed, e.now = false := by
  obtain ⟨s, hs, hp⟩ := Option.map_eq_some_iff.mp maskedRun_passed
  have hstart : (driver 2 idleHw).Reach probed := .init rfl
  exact ⟨s, hstart.run hs, ⟨0, 1, true, false⟩, by rw [hp]; exact List.mem_cons_self, rfl⟩

theorem pin_words_owned_masked : ∃ s, (driver 2 idleHw).Reach s ∧ s.passed.length = 2 ∧
    ∀ e ∈ s.passed, e.pin < npins ∧ e.pin / 32 = e.bank ∧ e.seen = true := by
  obtain ⟨s, hs, hp⟩ := Option.map_eq_some_iff.mp maskedRun_passed
  have hstart : (driver 2 idleHw).Reach probed := .init rfl
  exact ⟨s, hstart.run hs, by rw [hp]; rfl, (pin_words_owned 2 idleHw s (hstart.run hs)).2.2.2.1⟩

end Esp32S31.Pinctrl.Kernel
