import Esp32S31.Pinctrl.Items
import Esp32S31.Pinctrl.Pins

/-!
# What `pinctrl set` is for

`SetDoes` says what the command should do with a list: refuse it, or change each pin that it names
and that is not refused once, and exit with 0 only if all of them were changed.

**`set_does_iff`**: it does so except for two kinds of lists. `main` counts from 1 with the numbers
of a header, so that a 0 is dropped without a word (`DropsZero`); and `sscanf` reads a number modulo
2^32, so that one of 2^32 and more may stand for another pin (`TakesWrapped`).
-/

namespace Esp32S31.Pinctrl

open Esp32S31.Lib Esp32S31.Lib.Text

/-! ## The numbers of the pins -/

/-- Two pins of a header have two GPIOs. -/
theorem padGpio_inj {hdr : Option KnownHeader} {m n gpio : Nat} (hm : padGpio hdr m = .gpio gpio)
    (hn : padGpio hdr n = .gpio gpio) : m = n := by
  have hranges : ∀ hdr ∈ headers, ∀ p ∈ hdr.ranges, ∀ q ∈ hdr.ranges, ∀ g ∈ p.gpio, ∀ h ∈ q.gpio,
      (p.first = q.first ∧ g = h) ∨ g + (p.last - p.first) < h ∨ h + (q.last - q.first) < g := by
    decide +kernel
  obtain ⟨hd, rfl, p, hp, g, hg, hpf, hpl, rfl⟩ := padGpio_range hm
  obtain ⟨hd', hhd, q, hq, g', hg', hqf, hql, heq⟩ := padGpio_range hn
  cases hhd
  rcases hranges hd.val hd.property p hp q hq g hg g' hg' with ⟨h1, h2⟩ | h | h
  · omega
  · omega
  · omega

theorem numToGpio_inj {pinMode : Bool} {b : Board} {m n gpio : Nat}
    (hm : numToGpio pinMode b m = .gpio gpio) (hn : numToGpio pinMode b n = .gpio gpio) :
    m = n := by
  unfold numToGpio at hm hn
  cases pinMode with
  | true => exact padGpio_inj hm hn
  | false =>
    simp only [Bool.false_eq_true, if_false] at hm hn
    split at hm
    · split at hn
      · cases hm
        cases hn
        rfl
      · cases hn
    · cases hm

/-- The pins of a header count from 1. -/
theorem numToGpio_first {pinMode : Bool} {b : Board} {n gpio : Nat}
    (h : numToGpio pinMode b n = .gpio gpio) : firstNum pinMode ≤ n := by
  have hfirst : ∀ hdr ∈ headers, ∀ pr ∈ hdr.ranges, 1 ≤ pr.first := by decide
  cases pinMode with
  | false => exact Nat.zero_le n
  | true =>
    simp only [numToGpio, if_true] at h
    obtain ⟨hd, -, pr, hpr, -, -, hle, -⟩ := padGpio_range h
    exact Nat.le_trans (hfirst hd.val hd.property pr hpr) hle

/-! ## The numbers of a run -/

/-- `do_gpio_set` does not change the GPIO: it must not, or it is to set a level of no output. -/
def Refused (force : Bool) (b : Board) (params : SetParams) (r : Regs) (gpio : Nat) : Prop :=
  setRefusal force b r gpio ≠ none ∨
    (params.drive.isSome = true ∧ params.fsel.getD (pinGet r gpio).mode ≠ .op)

/-- The number is a GPIO that is changed. -/
def Changes (force pinMode : Bool) (b : Board) (params : SetParams) (r : Regs) (num gpio : Nat) :
    Prop :=
  numToGpio pinMode b num = .gpio gpio ∧ ¬ Refused force b params r gpio

section Loop

variable {force pinMode : Bool} {b : Board} {params : SetParams} {r : Regs}

/-- What `do_gpio_set` does with a number. -/
theorem doGpioSet_changes {num gpio : Nat} (h : Changes force pinMode b params r num gpio) :
    (doGpioSet force pinMode b params r num).1 = 0 ∧
      (doGpioSet force pinMode b params r num).2.1 = setWrites params r gpio := by
  obtain ⟨hnum, hfree⟩ := h
  unfold Refused at hfree
  rw [not_or, not_not] at hfree
  unfold doGpioSet
  rw [hnum]
  dsimp only
  rw [hfree.1]
  simp [hfree.2]

theorem doGpioSet_refused {num : Nat} (h : ∀ gpio, ¬ Changes force pinMode b params r num gpio) :
    (doGpioSet force pinMode b params r num).1 = 1 ∧
      (doGpioSet force pinMode b params r num).2.1 = r := by
  unfold doGpioSet
  split
  · exact ⟨rfl, rfl⟩
  · exact ⟨rfl, rfl⟩
  · next gpio hnum =>
    split
    · exact ⟨rfl, rfl⟩
    · next hnone =>
      have hrefused : Refused force b params r gpio := by
        by_contra hfree
        exact h gpio ⟨hnum, hfree⟩
      rcases hrefused with hne | hdrive
      · exact absurd hnone hne
      · simp [hdrive]

/-- The change of another pin makes no difference. -/
theorem changes_congr {num gpio other : Nat} (hother : other < npins) (hne : gpio ≠ other) :
    Changes force pinMode b params (setWrites params r other) num gpio ↔
      Changes force pinMode b params r num gpio := by
  refine and_congr_right fun hnum => not_congr ?_
  have hgpio := numToGpio_lt hnum
  have honly := (setWrites_only (r := r) hother params).1
  have hsame := honly.other gpio hgpio hne
  have hmode : (pinGet (setWrites params r other) gpio).mode = (pinGet r gpio).mode := by
    refine pinGet_mode_congr (by rw [hsame.iomux]) (by rw [hsame.iomux]) hsame.enable ?_
    rw [matrixSignals_eq, matrixSignals_eq, hsame.outSel, inputRouted_congr honly.fixed]
  have hlines : (pinGet (setWrites params r other) gpio).intLines = (pinGet r gpio).intLines := by
    unfold pinGet
    dsimp only
    rw [hsame.pad]
  unfold Refused setRefusal
  rw [hmode, hlines]

/-- What a run over some numbers has done: the pins that it changed, each once. -/
structure RanOver (force pinMode : Bool) (b : Board) (params : SetParams) (r r' : Regs)
    (nums : Nat → Prop) (pins : List Nat) : Prop where
  nodup : pins.Nodup
  mem : ∀ g, g ∈ pins ↔ ∃ n, nums n ∧ Changes force pinMode b params r n g
  regs : r' = pins.foldl (setWrites params) r

theorem RanOver.lt {r' : Regs} {nums : Nat → Prop} {pins : List Nat}
    (h : RanOver force pinMode b params r r' nums pins) : ∀ g ∈ pins, g < npins := by
  intro g hg
  obtain ⟨n, -, hn⟩ := (h.mem g).mp hg
  exact numToGpio_lt hn.1

/-- `do_gpio_set` for one number after the other. -/
def setEach (force pinMode : Bool) (b : Board) (params : SetParams) (nums : List Nat)
    (s : Nat × Regs × List Message) : Nat × Regs × List Message :=
  nums.foldl (fun s num =>
    let t := doGpioSet force pinMode b params s.2.1 num
    (s.1 ||| t.1, t.2.1, s.2.2 ++ t.2.2)) s

theorem setLoop_eq (mask : Mask) (nums : List Nat) (s : Nat × Regs × List Message) :
    setLoop force pinMode b params mask nums s =
      setEach force pinMode b params (nums.filter (mask.getLsbD ·)) s := List.foldl_filter.symm

/-- The numbers left stand for other pins, which are as they were. -/
theorem changes_left {num n g g' : Nat} (hg : Changes force pinMode b params r num g)
    (hne : n ≠ num) : Changes force pinMode b params (setWrites params r g) n g' ↔
      Changes force pinMode b params r n g' := by
  have hother (h : numToGpio pinMode b n = .gpio g') : g' ≠ g := by
    rintro rfl
    exact hne (numToGpio_inj h hg.1)
  constructor
  · intro h
    exact (changes_congr (numToGpio_lt hg.1) (hother h.1)).mp h
  · intro h
    exact (changes_congr (numToGpio_lt hg.1) (hother h.1)).mpr h

/-- A number that is changed, and a run over the others. -/
theorem RanOver.cons {r' : Regs} {num g : Nat} {nums pins : List Nat} (hnew : num ∉ nums)
    (hg : Changes force pinMode b params r num g)
    (h : RanOver force pinMode b params (setWrites params r g) r' (· ∈ nums) pins) :
    RanOver force pinMode b params r r' (· ∈ num :: nums) (g :: pins) := by
  have hleft {n g' : Nat} (hn : n ∈ nums) :
      Changes force pinMode b params (setWrites params r g) n g' ↔
        Changes force pinMode b params r n g' := by
    refine changes_left hg ?_
    rintro rfl
    exact hnew hn
  refine ⟨List.nodup_cons.mpr ⟨fun hmem => ?_, h.nodup⟩, fun g' => ?_, h.regs⟩
  · obtain ⟨n, hn, hng⟩ := (h.mem g).mp hmem
    exact hnew (numToGpio_inj hng.1 hg.1 ▸ hn)
  · rw [List.mem_cons, h.mem g']
    constructor
    · rintro (rfl | ⟨n, hn, hng⟩)
      · exact ⟨num, List.mem_cons_self, hg⟩
      · exact ⟨n, List.mem_cons_of_mem num hn, (hleft hn).mp hng⟩
    · rintro ⟨n, hn, hng⟩
      rcases List.mem_cons.mp hn with rfl | hn
      · exact Or.inl (Pad.gpio.inj (hng.1.symm.trans hg.1))
      · exact Or.inr ⟨n, hn, (hleft hn).mpr hng⟩

/-- A number that is not changed. -/
theorem RanOver.skip {r' : Regs} {num : Nat} {nums pins : List Nat}
    (hno : ∀ g, ¬ Changes force pinMode b params r num g)
    (h : RanOver force pinMode b params r r' (· ∈ nums) pins) :
    RanOver force pinMode b params r r' (· ∈ num :: nums) pins := by
  refine ⟨h.nodup, fun g => ?_, h.regs⟩
  rw [h.mem g]
  constructor
  · rintro ⟨n, hn, hng⟩
    exact ⟨n, List.mem_cons_of_mem num hn, hng⟩
  · rintro ⟨n, hn, hng⟩
    rcases List.mem_cons.mp hn with rfl | hn
    · exact absurd hng (hno g)
    · exact ⟨n, hn, hng⟩

/-- **One number after the other**: the return value is 0 iff each of them was changed. -/
theorem setEach_ran {nums : List Nat} (hnodup : nums.Nodup) (r : Regs) (ret : Nat)
    (ms : List Message) :
    (∃ pins, RanOver force pinMode b params r (setEach force pinMode b params nums (ret, r, ms)).2.1
      (· ∈ nums) pins) ∧
    ((setEach force pinMode b params nums (ret, r, ms)).1 = 0 ↔
      ret = 0 ∧ ∀ n ∈ nums, ∃ g, Changes force pinMode b params r n g) := by
  induction nums generalizing r ret ms with
  | nil =>
    refine ⟨⟨[], List.nodup_nil, by simp, rfl⟩, ?_⟩
    simp [setEach]
  | cons num nums ih =>
    obtain ⟨hnew, hnodup⟩ := List.nodup_cons.mp hnodup
    rcases hnext : doGpioSet force pinMode b params r num with ⟨ret', r', ms'⟩
    have hcons : setEach force pinMode b params (num :: nums) (ret, r, ms) =
        setEach force pinMode b params nums (ret ||| ret', r', ms ++ ms') := by
      show setEach force pinMode b params nums _ = _
      dsimp only
      rw [hnext]
    rw [hcons, List.forall_mem_cons]
    obtain ⟨⟨pins, hpins⟩, hexit⟩ := ih hnodup r' (ret ||| ret') (ms ++ ms')
    by_cases hex : ∃ g, Changes force pinMode b params r num g
    · obtain ⟨g, hg⟩ := hex
      obtain ⟨hret, hregs⟩ := doGpioSet_changes hg
      rw [hnext] at hret hregs
      dsimp only at hret hregs
      subst hret hregs
      refine ⟨⟨g :: pins, hpins.cons hnew hg⟩, ?_⟩
      have hleft : ∀ n ∈ nums, (∃ g', Changes force pinMode b params (setWrites params r g) n g') ↔
          ∃ g', Changes force pinMode b params r n g' := by
        intro n hn
        refine exists_congr fun g' => changes_left hg ?_
        rintro rfl
        exact hnew hn
      rw [hexit, Nat.or_zero, forall₂_congr hleft]
      exact and_congr_right fun _ => (and_iff_right ⟨g, hg⟩).symm
    · have hno : ∀ g, ¬ Changes force pinMode b params r num g := fun g hg => hex ⟨g, hg⟩
      obtain ⟨hret, hregs⟩ := doGpioSet_refused hno
      rw [hnext] at hret hregs
      dsimp only at hret hregs
      subst hret hregs
      refine ⟨⟨pins, hpins.skip hno⟩, ?_⟩
      rw [hexit]
      constructor
      · rintro ⟨h0, -⟩
        exact absurd h0 (by rw [Nat.or_eq_zero_iff]; simp)
      · rintro ⟨-, h, -⟩
        exact absurd h hex

end Loop

/-! ## The command -/

/-- What `set` is asked: the list and the options are valid. A decimal number `n` of the list counts
as `value n`. -/
structure Asks (value : Nat → Nat) (pinMode : Bool) (b : Board) (list : Option Bytes)
    (opts : List Bytes) (text : Bytes) (params : SetParams) : Prop where
  given : list = some text
  valid : ListValid (itemNumber value pinMode b (lastNum pinMode b + 1)) text
  nonempty : opts ≠ []
  known : parseOpts opts = some params

/-- The numbers of the list. -/
def Names (value : Nat → Nat) (pinMode : Bool) (b : Board) (text : Bytes) (num : Nat) : Prop :=
  Listed (itemNumber value pinMode b (lastNum pinMode b + 1)) text num

/-- The options are those of the table. -/
theorem parseOpts_isSome {opts : List Bytes} : (parseOpts opts).isSome = true ↔
    ∀ arg ∈ opts, ∃ a ∈ setArgs, ascii a.1 = arg := by
  have hone (arg : Bytes) (params : SetParams) : (parseSetArg arg params).isSome = true ↔
      ∃ a ∈ setArgs, ascii a.1 = arg := by
    unfold parseSetArg
    rw [Option.isSome_map, List.find?_isSome]
    simp
  have hall (params : SetParams) :
      (opts.foldlM (fun params arg => parseSetArg arg params) params).isSome = true ↔
        ∀ arg ∈ opts, ∃ a ∈ setArgs, ascii a.1 = arg := by
    induction opts generalizing params with
    | nil => simp
    | cons arg opts ih =>
      rw [List.foldlM_cons, List.forall_mem_cons, ← hone arg params]
      cases parseSetArg arg params with
      | none => simp
      | some next => simp [ih next]
  exact hall {}

section Command

variable {force pinFlag : Bool} {list : Option Bytes} {opts : List Bytes} {r : Regs} {b : Board}
  {text : Bytes} {params : SetParams}

/-- **`main`** with a list and options that it takes. -/
theorem setCommand_asks (force : Bool) (r : Regs)
    (h : Asks asU32 (effectivePinMode pinFlag b) b list opts text params) :
    (∃ pins, RanOver force (effectivePinMode pinFlag b) b params r
      (setCommand force pinFlag list opts r b).2.1
      (Names asU32 (effectivePinMode pinFlag b) b text) pins) ∧
    ((setCommand force pinFlag list opts r b).1 = 0 ↔
      ∀ n, Names asU32 (effectivePinMode pinFlag b) b text n →
        firstNum (effectivePinMode pinFlag b) ≤ n →
          ∃ g, Changes force (effectivePinMode pinFlag b) b params r n g) := by
  generalize hpm : effectivePinMode pinFlag b = pinMode at h ⊢
  obtain ⟨mask, hmask⟩ := listMask_valid h.valid
  obtain ⟨-, hbits⟩ := listMask_done.mp hmask
  have hne : mask ≠ 0 := by
    rintro rfl
    obtain ⟨n, hn⟩ := h.valid.listed
    exact absurd ((hbits n).mpr hn) (by simp)
  have hrun : setCommand force pinFlag list opts r b = setEach force pinMode b params
      ((List.range' (firstNum pinMode) (lastNum pinMode b + 1 - firstNum pinMode)).filter
        (mask.getLsbD ·)) (0, r, []) := by
    rw [← setLoop_eq]
    unfold setCommand
    dsimp only
    rw [hpm, h.given, Option.map_some, hmask]
    dsimp only
    rw [if_neg h.nonempty, h.known]
    dsimp only
    rw [if_neg hne]
  have hnums (n : Nat) : n ∈ (List.range' (firstNum pinMode)
      (lastNum pinMode b + 1 - firstNum pinMode)).filter (mask.getLsbD ·) ↔
        Names asU32 pinMode b text n ∧ firstNum pinMode ≤ n := by
    rw [List.mem_filter, List.mem_range'_1, hbits]
    constructor
    · rintro ⟨hn, hlisted⟩
      exact ⟨hlisted, hn.1⟩
    · rintro ⟨hlisted, hn⟩
      have := hlisted.le fun _ _ => itemNumber_le
      exact ⟨by omega, hlisted⟩
  have hnodup : ((List.range' (firstNum pinMode)
      (lastNum pinMode b + 1 - firstNum pinMode)).filter (mask.getLsbD ·)).Nodup :=
    (List.nodup_range' _).filter _
  obtain ⟨⟨pins, hpins⟩, hexit⟩ : (∃ pins, RanOver force pinMode b params r _ _ pins) ∧ _ :=
    setEach_ran hnodup r 0 []
  rw [hrun]
  refine ⟨⟨pins, hpins.nodup, fun g => ?_, hpins.regs⟩, ?_⟩
  · rw [hpins.mem g]
    refine exists_congr fun n => ?_
    rw [hnums, and_assoc]
    exact and_congr_right fun _ => and_iff_right_of_imp fun hn => numToGpio_first hn.1
  · rw [hexit]
    simp only [hnums, and_imp, true_and]

/-- **`main`** refuses everything else. -/
theorem setCommand_refuses
    (h : ∀ text params, ¬ Asks asU32 (effectivePinMode pinFlag b) b list opts text params) :
    setCommand force pinFlag list opts r b = (1, r, []) := by
  unfold setCommand
  dsimp only
  split
  · next mask hmask =>
    obtain ⟨text, rfl, hdone⟩ := Option.map_eq_some_iff.mp hmask
    split
    · rfl
    · next hopts =>
      split
      · rfl
      · next params hparams =>
        exact absurd ⟨rfl, (listMask_done.mp hdone).1, hopts, hparams⟩ (h text params)
  · rfl

/-- A list that is valid is taken, with the same numbers. -/
theorem Asks.taken {pinMode : Bool} (h : Asks id pinMode b list opts text params) :
    Asks asU32 pinMode b list opts text params ∧
      ∀ n, Names id pinMode b text n ↔ Names asU32 pinMode b text n := by
  have hmax : lastNum pinMode b + 1 ≤ 2 ^ 32 := by
    have := lastNum_le pinMode b
    omega
  obtain ⟨hvalid, hsame⟩ := h.valid.mono fun _ _ => itemNumber_asU32 hmax
  exact ⟨⟨h.given, hvalid, h.nonempty, h.known⟩, hsame⟩

end Command

/-- The registers `r'` are `r` with a change of each pin that the list names and that is not
refused, once: these pins are as their own change leaves them, and the others are as before. -/
def ChangesList (force pinMode : Bool) (b : Board) (params : SetParams) (text : Bytes)
    (r r' : Regs) : Prop :=
  ∃ pins, RanOver force pinMode b params r r' (Names id pinMode b text) pins ∧
    (∀ g ∈ pins, Untouched (setWrites params r g) r' g) ∧
    ∀ q < npins, q ∉ pins → Untouched r r' q

/-- **What `set` is for.** It refuses a list or an option that is not valid, and changes nothing
then. Else it changes the pins that the list names and that are not refused, each once and as the
options say, and no other. It exits with 0 only if the list names a pin and each of its numbers is a
pin that was changed. -/
structure SetDoes (force pinFlag : Bool) (list : Option Bytes) (opts : List Bytes) (r : Regs)
    (b : Board) : Prop where
  refuses : (∀ text params, ¬ Asks id (effectivePinMode pinFlag b) b list opts text params) →
    (setCommand force pinFlag list opts r b).1 ≠ 0 ∧
      (setCommand force pinFlag list opts r b).2.1 = r
  changes : ∀ text params, Asks id (effectivePinMode pinFlag b) b list opts text params →
    ChangesList force (effectivePinMode pinFlag b) b params text r
      (setCommand force pinFlag list opts r b).2.1
  status : ∀ text params, Asks id (effectivePinMode pinFlag b) b list opts text params →
    (setCommand force pinFlag list opts r b).1 = 0 →
      (∃ n, Names id (effectivePinMode pinFlag b) b text n) ∧
      ∀ n, Names id (effectivePinMode pinFlag b) b text n →
        ∃ g, Changes force (effectivePinMode pinFlag b) b params r n g

/-- With the numbers of a header, 0 is in the list, and every other number of it is changed. -/
def DropsZero (force pinFlag : Bool) (list : Option Bytes) (opts : List Bytes) (r : Regs)
    (b : Board) : Prop :=
  effectivePinMode pinFlag b = true ∧ ∃ text params, Asks id true b list opts text params ∧
    Names id true b text 0 ∧
    ∀ n, Names id true b text n → n ≠ 0 → ∃ g, Changes force true b params r n g

/-- With its decimal numbers modulo 2^32, every number of the list but a 0 with `-p` is a pin that
is changed, or one of these pins is not yet as the options say. -/
def ActsWrapped (force pinMode : Bool) (b : Board) (params : SetParams) (text : Bytes) (r : Regs) :
    Prop :=
  (∀ n, Names asU32 pinMode b text n → firstNum pinMode ≤ n →
    ∃ g, Changes force pinMode b params r n g) ∨
  ∃ n g, Names asU32 pinMode b text n ∧ Changes force pinMode b params r n g ∧
    setWrites params r g ≠ r

/-- The list is valid only with its decimal numbers modulo 2^32, and is acted on then. -/
def TakesWrapped (force pinFlag : Bool) (list : Option Bytes) (opts : List Bytes) (r : Regs)
    (b : Board) : Prop :=
  (∀ text params, ¬ Asks id (effectivePinMode pinFlag b) b list opts text params) ∧
  ∃ text params, Asks asU32 (effectivePinMode pinFlag b) b list opts text params ∧
    ActsWrapped force (effectivePinMode pinFlag b) b params text r

section Iff

variable {force pinFlag : Bool} {list : Option Bytes} {opts : List Bytes} {r : Regs} {b : Board}

/-- A list that is valid. -/
theorem changes_of_asks {text : Bytes} {params : SetParams}
    (h : Asks id (effectivePinMode pinFlag b) b list opts text params) :
    ChangesList force (effectivePinMode pinFlag b) b params text r
      (setCommand force pinFlag list opts r b).2.1 := by
  obtain ⟨hasks, hsame⟩ := h.taken
  obtain ⟨⟨pins, hpins⟩, -⟩ := setCommand_asks force r hasks
  have hlt := hpins.lt
  have hnodup := hpins.nodup
  refine ⟨pins, ⟨hnodup, fun g => ?_, hpins.regs⟩, ?_, ?_⟩
  · rw [hpins.mem g]
    simp only [hsame]
  · intro g hg
    rw [hpins.regs]
    exact foldl_own hlt hnodup hg r
  · intro q hq hne
    rw [hpins.regs]
    exact foldl_untouched hlt hq hne r

/-- A list that is taken is as if it was refused iff not all of its pins are changed, and none of
those that are is then other than before. -/
theorem refuses_of_taken {text : Bytes} {params : SetParams}
    (h : Asks asU32 (effectivePinMode pinFlag b) b list opts text params) :
    ((setCommand force pinFlag list opts r b).1 ≠ 0 ∧
      (setCommand force pinFlag list opts r b).2.1 = r) ↔
      ¬ ActsWrapped force (effectivePinMode pinFlag b) b params text r := by
  obtain ⟨⟨pins, hpins⟩, hexit⟩ := setCommand_asks force r h
  have hkept : (setCommand force pinFlag list opts r b).2.1 = r ↔
      ∀ g ∈ pins, setWrites params r g = r := by
    rw [hpins.regs]
    exact foldl_eq_self hpins.lt hpins.nodup r
  unfold ActsWrapped
  rw [not_or, Ne, hexit, hkept]
  refine and_congr_right fun _ => ?_
  constructor
  · rintro hall ⟨n, g, hn, hg, hne⟩
    exact hne (hall g ((hpins.mem g).mpr ⟨n, hn, hg⟩))
  · intro hno g hmem
    obtain ⟨n, hn, hg⟩ := (hpins.mem g).mp hmem
    by_contra hne
    exact hno ⟨n, g, hn, hg, hne⟩

/-- Without a 0 that is dropped the exit code is right. -/
theorem status_of_asks {text : Bytes} {params : SetParams}
    (h : Asks id (effectivePinMode pinFlag b) b list opts text params) :
    (setCommand force pinFlag list opts r b).1 = 0 ↔
      ∀ n, Names id (effectivePinMode pinFlag b) b text n →
        firstNum (effectivePinMode pinFlag b) ≤ n →
          ∃ g, Changes force (effectivePinMode pinFlag b) b params r n g := by
  obtain ⟨hasks, hsame⟩ := h.taken
  rw [(setCommand_asks force r hasks).2]
  simp only [hsame]

/-- The 0 of a header. -/
theorem not_setDoes_of_dropsZero (h : DropsZero force pinFlag list opts r b) :
    ¬ SetDoes force pinFlag list opts r b := by
  obtain ⟨hpm, text, params, hasks, h0, hall⟩ := h
  rw [← hpm] at hasks h0 hall
  intro hdoes
  have hexit : (setCommand force pinFlag list opts r b).1 = 0 := by
    refine (status_of_asks hasks).mpr fun n hn hfirst => hall n hn ?_
    rw [hpm] at hfirst
    exact Nat.ne_of_gt hfirst
  obtain ⟨g, hg⟩ := (hdoes.status text params hasks hexit).2 0 h0
  have hfirst := numToGpio_first hg.1
  rw [hpm] at hfirst
  exact absurd hfirst (by decide)

/-- The numbers of 2^32 and more. -/
theorem not_setDoes_of_takesWrapped (h : TakesWrapped force pinFlag list opts r b) :
    ¬ SetDoes force pinFlag list opts r b := by
  obtain ⟨hno, text, params, hasks, hbad⟩ := h
  intro hdoes
  exact (refuses_of_taken hasks).mp (hdoes.refuses hno) hbad

/-- **`set` does what its list says or fails**, but for a 0 with `-p` and for numbers of 2^32 and
more. -/
theorem set_does_iff (force pinFlag : Bool) (list : Option Bytes) (opts : List Bytes) (r : Regs)
    (b : Board) : SetDoes force pinFlag list opts r b ↔
      ¬ DropsZero force pinFlag list opts r b ∧ ¬ TakesWrapped force pinFlag list opts r b := by
  constructor
  · intro h
    exact ⟨fun hzero => not_setDoes_of_dropsZero hzero h,
      fun hwrap => not_setDoes_of_takesWrapped hwrap h⟩
  · rintro ⟨hzero, hwrap⟩
    refine ⟨fun hno => ?_, fun text params h => changes_of_asks h, fun text params h hexit => ?_⟩
    · by_cases htaken : ∃ text params,
        Asks asU32 (effectivePinMode pinFlag b) b list opts text params
      · obtain ⟨text, params, h⟩ := htaken
        exact (refuses_of_taken h).mpr fun hbad => hwrap ⟨hno, text, params, h, hbad⟩
      · rw [setCommand_refuses fun text params h => htaken ⟨text, params, h⟩]
        exact ⟨Nat.one_ne_zero, rfl⟩
    · have hall := (status_of_asks h).mp hexit
      refine ⟨h.valid.listed, fun n hn => ?_⟩
      by_cases hfirst : firstNum (effectivePinMode pinFlag b) ≤ n
      · exact hall n hn hfirst
      · -- only a 0 with `-p` comes before the first number
        exfalso
        cases hpm : effectivePinMode pinFlag b with
        | false =>
          rw [hpm] at hfirst
          exact hfirst (Nat.zero_le n)
        | true =>
          rw [hpm] at hfirst h hn hall
          have h0 : n = 0 := Nat.lt_one_iff.mp (Nat.not_le.mp hfirst)
          subst h0
          exact hzero ⟨hpm, text, params, h, hn,
            fun n hn hne => hall n hn (Nat.one_le_iff_ne_zero.mpr hne)⟩

end Iff

/-- The board of a snapshot of the Function-CoreBoard, without names. -/
def coreboard : Board :=
  { boardInit with
    compatible := ascii "esp,esp32s31-function-coreboard-1"
    haveLines := true
    hdr := boardHeader (ascii "esp,esp32s31-function-coreboard-1") }

/-- **`pinctrl -p set 0 ip`** exits with 0 and changes nothing, and **`pinctrl set 4294967301 ip`**
changes GPIO5. -/
theorem set_not_does :
    ¬ SetDoes false true (some (ascii "0")) [ascii "ip"]
      ⟨true, fun _ => 0#32, fun _ => 0#32, 0#32⟩ coreboard ∧
    ¬ SetDoes false false (some (ascii "4294967301")) [ascii "ip"]
      ⟨true, fun _ => 0#32, fun _ => 0#32, 0#32⟩ coreboard := by
  have hopts : parseOpts [ascii "ip"] = some { fsel := some .ip } := by rfl
  constructor
  · have hnum : itemNumber id true coreboard (lastNum true coreboard + 1) (ascii "0") = some 0 := by
      decide +kernel
    obtain ⟨hvalid, hnames⟩ := listed_number (by decide) (by decide) hnum
    refine not_setDoes_of_dropsZero ⟨by decide +kernel, ascii "0", _,
      ⟨rfl, hvalid, by decide, hopts⟩, (hnames 0).mpr rfl, fun n hn hne => ?_⟩
    exact absurd ((hnames n).mp hn) hne
  · have hnone : itemNumber id false coreboard (lastNum false coreboard + 1)
        (ascii "4294967301") = none := by
      decide +kernel
    have hnum : itemNumber asU32 false coreboard (lastNum false coreboard + 1)
        (ascii "4294967301") = some 5 := by
      decide +kernel
    obtain ⟨hvalid, hnames⟩ := listed_number (by decide) (by decide) hnum
    refine not_setDoes_of_takesWrapped ⟨fun text params h => ?_, ascii "4294967301", _,
      ⟨rfl, hvalid, by decide, hopts⟩, Or.inl fun n hn _ => ⟨5, ?_⟩⟩
    · obtain rfl := Option.some.inj h.given
      obtain ⟨first, last, hspan⟩ := (listValid_one (by decide)).mp h.valid
      have hfirst := ((span_one (by decide)).mp hspan).2
      exact absurd (hnone.symm.trans hfirst) (by simp)
    · obtain rfl := (hnames n).mp hn
      refine ⟨by decide, ?_⟩
      rintro (hne | hdrive)
      · exact hne (by decide +kernel)
      · exact absurd hdrive.1 (by decide)

end Esp32S31.Pinctrl
