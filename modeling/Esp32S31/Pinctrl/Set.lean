import Esp32S31.Pinctrl.Board

/-!
# `pinctrl set`

`pinctrl.c`: the GPIO list and the options of `set`, and the loop over the numbers of the list. A
change of one pin stays within its words and its bits of the shared words (`OnlyPin`).

**`set_spares`**: no pin changes that `set` must refuse or that is not in the list, and no GPIO_PIN
or IN_SEL word at all; CNNT gains select bits of the functions that were set.
-/

namespace Esp32S31.Pinctrl

open Esp32S31.Lib Esp32S31.Lib.Text

/-! ## The GPIO list -/

/-- `num_to_gpio`. -/
def numToGpio (pinMode : Bool) (b : Board) (num : Nat) : Pad :=
  if pinMode then padGpio b.hdr num else if pinExists num then .gpio num else .noSuch

/-- What `parse_item` does. -/
inductive Item where
  | num (n : Nat)
  /-- -1 -/
  | bad
  /-- `exit(1)`: the signal is not on a header pin -/
  | exit

/-- `parse_item`: a number below `max`, or a name that the board knows. -/
def parseItem (pinMode : Bool) (b : Board) (max : Nat) (p : Bytes) (len : Nat) : Item :=
  let byName :=
    match gpioByName b (p.take len) with
    | none => Item.bad
    | some gpio =>
      if pinMode then
        match gpioPad b.hdr gpio with
        | none => .exit
        | some pad => .num pad
      else .num gpio
  match sscanfDec p with
  | some (num, rest) =>
    if p.length - rest.length = len then (if num.toNat < max then .num num.toNat else .bad)
      else byName
  | none => byName

/-- `uint64_t mask[MAX_NUMS / 64]`. -/
abbrev Mask := BitVec 128

/-- The bits `first` to `last`. -/
def setRange (mask : Mask) (first last : Nat) : Mask :=
  (List.range' first (last + 1 - first)).foldl (fun m i => m ||| BitVec.twoPow 128 i) mask

/-- What `parse_list` does: the mask, or the place of the unknown item. -/
inductive Parsed where
  | done (mask : Mask)
  | unknown (p : Bytes)
  | exit

/-- `strcspn(p, "-,")`. -/
def itemLen (p : Bytes) : Nat := (p.takeWhile fun c => c ≠ 0x2d && c ≠ comma).length

/-- `parse_list`; `item` is `parse_item`. -/
def parseList (item : Bytes → Nat → Item) (p : Bytes) (mask : Mask) : Parsed :=
  let len := itemLen p
  match item p len with
  | .bad => .unknown p
  | .exit => .exit
  | .num first =>
    let p1 := p.drop len
    let len1 := itemLen (p1.drop 1)
    match (if p1.head? = some 0x2d then item (p1.drop 1) len1 else .num first) with
    | .bad => .unknown (p1.drop 1)
    | .exit => .exit
    | .num last =>
      let p2 := if p1.head? = some 0x2d then (p1.drop 1).drop len1 else p1
      let mask := setRange mask (min first last) (max first last)
      match h : p2 with
      | [] => .done mask
      | c :: rest => if c = comma then parseList item rest mask else .unknown (c :: rest)
termination_by p.length
decreasing_by
  have hlen : p2.length ≤ p.length := by
    simp only [p2, p1]
    split <;> simp only [List.length_drop] <;> omega
  rw [h, List.length_cons] at hlen
  omega

/-! ## The options -/

/-- The value of an option. -/
inductive SetVal where
  | drive (high : Bool)
  | fsel (mode : Mode)
  | pull (pull : Pull)

/-- `params`; `none` is `NO_CHANGE`. -/
structure SetParams where
  drive : Option Bool := none
  fsel : Option Mode := none
  pull : Option Pull := none

/-- `args`. -/
def setArgs : List (String × SetVal) :=
  [("dh", .drive true), ("dl", .drive false), ("ip", .fsel .ip), ("op", .fsel .op),
    ("no", .fsel .no), ("a0", .fsel (.alt 0)), ("a1", .fsel (.alt 1)), ("a2", .fsel (.alt 2)),
    ("a3", .fsel (.alt 3)), ("a4", .fsel (.alt 4)), ("pu", .pull ⟨true, false⟩),
    ("pd", .pull ⟨false, true⟩), ("pn", .pull ⟨false, false⟩)]

/-- `parse_set_arg`; `none` is an unknown argument. -/
def parseSetArg (arg : Bytes) (params : SetParams) : Option SetParams :=
  (setArgs.find? fun a => ascii a.1 = arg).map fun a =>
    match a.2 with
    | .drive high => { params with drive := some high }
    | .fsel mode => { params with fsel := some mode }
    | .pull pull => { params with pull := some pull }

/-! ## The change -/

/-- `set_refusal`: why `set` must not change the GPIO. -/
def setRefusal (force : Bool) (b : Board) (r : Regs) (gpio : Nat) : Option String :=
  if pinIsFlash gpio then some "it is a flash pin"
  else if !b.haveLines then some "the reserved and used lines are not known"
  else if b.reserved.getLsbD gpio then some "it is in gpio-reserved-ranges of the device tree"
  else if b.used.getLsbD gpio && !force then some "a kernel driver uses it (-f changes it anyway)"
  else if (pinGet r gpio).intLines ≠ 0 then some "an interrupt line is enabled on it"
  else none

/-- What `set` prints. -/
inductive Message where
  | cannotBeSet (num : Nat)
  | notChanged (gpio : Nat) (why : String)
  | notOutput
  | strapping (gpio : Nat)
  deriving DecidableEq

/-- The writes of `do_gpio_set`, the level first. -/
def setWrites (params : SetParams) (r : Regs) (gpio : Nat) : Regs :=
  let r := params.drive.elim r (pinSetOut r gpio)
  let r := params.fsel.elim r (pinSetMode r gpio)
  params.pull.elim r (pinSetPull r gpio)

/-- `do_gpio_set`: the return value, the registers and the messages. -/
def doGpioSet (force pinMode : Bool) (b : Board) (params : SetParams) (r : Regs) (num : Nat) :
    Nat × Regs × List Message :=
  match numToGpio pinMode b num with
  | .other _ => (1, r, [.cannotBeSet num])
  | .noSuch => (1, r, [])
  | .gpio gpio =>
    match setRefusal force b r gpio with
    | some why => (1, r, [.notChanged gpio why])
    | none =>
      let mode := params.fsel.getD (pinGet r gpio).mode
      if params.drive.isSome && mode ≠ .op then (1, r, [.notOutput])
      else (0, setWrites params r gpio, if pinIsStrapping gpio then [.strapping gpio] else [])

/-- The loop of `main` over the numbers that are in the mask. -/
def setLoop (force pinMode : Bool) (b : Board) (params : SetParams) (mask : Mask) (nums : List Nat)
    (s : Nat × Regs × List Message) : Nat × Regs × List Message :=
  nums.foldl (fun s num =>
    if mask.getLsbD num then
      let t := doGpioSet force pinMode b params s.2.1 num
      (s.1 ||| t.1, t.2.1, s.2.2 ++ t.2.2)
    else s) s

/-- `pin_mode` once `main` has seen that there is no header. -/
def effectivePinMode (pinFlag : Bool) (b : Board) : Bool := pinFlag && b.hdr.isSome

/-- `first` and `last` of `main`. -/
def firstNum (pinMode : Bool) : Nat := if pinMode then 1 else 0
def lastNum (pinMode : Bool) (b : Board) : Nat :=
  if pinMode then (b.hdr.map headerNpads).getD 0 else npins - 1

/-- The list of `main`. -/
def listMask (pinMode : Bool) (b : Board) (list : Bytes) : Parsed :=
  parseList (parseItem pinMode b (lastNum pinMode b + 1)) list 0

/-- The options of `main`. -/
def parseOpts (opts : List Bytes) : Option SetParams := opts.foldlM
    (fun params arg => parseSetArg arg params) {}

/-- `main` for the command `set`, with the flags `-f` and `-p`, from the GPIO list on: the exit
code, the registers and the messages of the loop. Without a list or an option it does nothing. -/
def setCommand (force pinFlag : Bool) (list : Option Bytes) (opts : List Bytes) (r : Regs)
    (b : Board) : Nat × Regs × List Message :=
  let pinMode := effectivePinMode pinFlag b
  match list.map (listMask pinMode b) with
  | some (.done mask) =>
    if opts = [] then (1, r, [])
    else
      match parseOpts opts with
      | none => (1, r, [])
      | some params =>
        -- no number at all means all of them
        let mask := if mask = 0 then BitVec.allOnes 128 else mask
        let first := firstNum pinMode
        setLoop force pinMode b params mask (List.range' first (lastNum pinMode b + 1 - first)) (0,
          r, [])
  | _ => (1, r, [])

/-! ## One write -/

/-- A pin is as before: its words, and its bits of OUT and ENABLE. -/
structure Untouched (r r' : Regs) (pin : Nat) : Prop where
  iomux : r'.iomux pin = r.iomux pin
  pad : gpioRd r' (gpioPin pin) = gpioRd r (gpioPin pin)
  outSel : gpioRd r' (gpioOutSel pin) = gpioRd r (gpioOutSel pin)
  out : gpioBit r' pin gpioOut gpioOut1 = gpioBit r pin gpioOut gpioOut1
  enable : gpioBit r' pin gpioEnable gpioEnable1 = gpioBit r pin gpioEnable gpioEnable1

theorem Untouched.refl (r : Regs) (pin : Nat) : Untouched r r pin := ⟨rfl, rfl, rfl, rfl, rfl⟩

theorem Untouched.trans {r r' r'' : Regs} {pin : Nat} (h : Untouched r r' pin)
    (h' : Untouched r' r'' pin) : Untouched r r'' pin :=
  ⟨h'.iomux.trans h.iomux, h'.pad.trans h.pad, h'.outSel.trans h.outSel, h'.out.trans h.out,
    h'.enable.trans h.enable⟩

/-- The words that `set` never changes: GPIO_PIN of each pin and IN_SEL of each signal. -/
structure Fixed (r r' : Regs) : Prop where
  pads : ∀ n < npins, gpioRd r' (gpioPin n) = gpioRd r (gpioPin n)
  inSels : ∀ s < nsigs, gpioRd r' (gpioInSel s) = gpioRd r (gpioInSel s)

theorem Fixed.refl (r : Regs) : Fixed r r := ⟨fun _ _ => rfl, fun _ _ => rfl⟩

theorem Fixed.trans {r r' r'' : Regs} (h : Fixed r r') (h' : Fixed r' r'') : Fixed r r'' :=
  ⟨fun n hn => (h'.pads n hn).trans (h.pads n hn),
    fun s hs => (h'.inSels s hs).trans (h.inSels s hs)⟩

/-- A change of one pin. -/
structure OnlyPin (pin : Nat) (r r' : Regs) : Prop where
  other : ∀ p < npins, p ≠ pin → Untouched r r' p
  fixed : Fixed r r'

theorem OnlyPin.refl (pin : Nat) (r : Regs) : OnlyPin pin r r :=
  ⟨fun p _ _ => .refl r p, .refl r⟩

theorem OnlyPin.trans {pin : Nat} {r r' r'' : Regs} (h : OnlyPin pin r r')
    (h' : OnlyPin pin r' r'') : OnlyPin pin r r'' :=
  ⟨fun p hp hne => (h.other p hp hne).trans (h'.other p hp hne), h.fixed.trans h'.fixed⟩

section OneWrite

variable (r : Regs) {pin : Nat}

theorem iomuxUpdate_only (clr set : U32) : OnlyPin pin r (iomuxUpdate r pin clr set) where
  other _ _ hne := ⟨Function.update_of_ne hne _ _, rfl, rfl, rfl, rfl⟩
  fixed := ⟨fun _ _ => rfl, fun _ _ => rfl⟩

/-- The word index of a register. -/
theorem gpioRd_update (i off : Nat) (x : U32) (h : off / 4 ≠ i) :
    gpioRd { r with gpio := Function.update r.gpio i x } off = gpioRd r off :=
  Function.update_of_ne h _ _

/-- OUT_SEL is neither a W1TS nor a W1TC word, so the store is a store. -/
theorem gpioWr_outSel (x : U32) :
    gpioWr r (gpioOutSel pin) x = { r with
      gpio := Function.update r.gpio (gpioOutSel pin / 4) x } := by
  have hnone : (w1Bases.find? fun base => r.live &&
      ((base + gpioW1ts) / 4 = gpioOutSel pin / 4 || (base + gpioW1tc) / 4 = gpioOutSel pin / 4)) =
        none := by
    rw [List.find?_eq_none]
    intro base hbase
    have hle : base ≤ 0x40 := by
      revert base
      decide
    have h1 : (base + gpioW1ts) / 4 ≠ gpioOutSel pin / 4 := by
      unfold gpioW1ts gpioOutSel
      omega
    have h2 : (base + gpioW1tc) / 4 ≠ gpioOutSel pin / 4 := by
      unfold gpioW1tc gpioOutSel
      omega
    simp [h1, h2]
  unfold gpioWr Regs.store
  rw [hnone]

theorem outSel_only (hpin : pin < npins) (x : U32) : OnlyPin pin r
    (gpioWr r (gpioOutSel pin) x) := by
  rw [gpioWr_outSel]
  unfold npins at hpin
  refine ⟨fun p hp hne => ⟨rfl, ?_, ?_, ?_, ?_⟩, fun n hn => ?_, fun s hs => ?_⟩
  · exact gpioRd_update r _ _ x (by unfold gpioPin gpioOutSel; unfold npins at hp; omega)
  · exact gpioRd_update r _ _ x (by unfold gpioOutSel; omega)
  · refine congrArg (BitVec.getLsbD · (p % 32)) (gpioRd_update r _ _ x ?_)
    unfold bank gpioOut gpioOut1 gpioOutSel
    split <;> omega
  · refine congrArg (BitVec.getLsbD · (p % 32)) (gpioRd_update r _ _ x ?_)
    unfold bank gpioEnable gpioEnable1 gpioOutSel
    split <;> omega
  · exact gpioRd_update r _ _ x (by unfold gpioPin gpioOutSel; unfold npins at hn; omega)
  · exact gpioRd_update r _ _ x (by unfold gpioInSel gpioOutSel; unfold nsigs at hs; omega)

/-- The two backends do the same to OUT and ENABLE. -/
theorem w1_eq {base : Nat} (hbase : base ∈ w1Bases) (mask : U32) (set : Bool) : r.w1 base mask set =
    { r with
      gpio := Function.update r.gpio (base / 4)
        (if set then r.gpio (base / 4) ||| mask else r.gpio (base / 4) &&& ~~~mask) } := by
  obtain ⟨live, iomux, gpio, cnnt⟩ := r
  simp only [w1Bases, List.mem_cons, List.not_mem_nil, or_false] at hbase
  cases live with
  | false => rfl
  | true => rcases hbase with rfl | rfl | rfl | rfl <;> cases set <;> rfl

/-- A write of one bit leaves the other bits of the word. -/
theorem getLsbD_w1 (x : U32) {i j : Nat} (set : Bool) (hj : j < 32) (hne : j ≠ i) :
    (if set then x ||| 1#32 <<< i else x &&& ~~~(1#32 <<< i)).getLsbD j = x.getLsbD j := by
  have hbit : (1#32 <<< i).getLsbD j = false := by
    rw [U32.getLsbD_one_shiftLeft i hj, decide_eq_false hne]
  cases set with
  | true => rw [if_pos rfl, BitVec.getLsbD_or, hbit, Bool.or_false]
  | false =>
    rw [if_neg (by decide), BitVec.getLsbD_and, BitVec.getLsbD_not, hbit, decide_eq_true hj]
    simp

/-- The registers of bank 0 and bank 1 that have a bit for each pin. -/
def BitRegs (reg0 reg1 : Nat) : Prop :=
  (reg0 = gpioOut ∧ reg1 = gpioOut1) ∨ (reg0 = gpioEnable ∧ reg1 = gpioEnable1)

theorem BitRegs.bank_mem {reg0 reg1 : Nat} (h : BitRegs reg0 reg1) (p : Nat) :
    bank p reg0 reg1 ∈ w1Bases := by
  unfold bank
  rcases h with ⟨rfl, rfl⟩ | ⟨rfl, rfl⟩ <;> split <;> decide

/-- A write of the bit of a pin leaves the bits of the other pins. -/
theorem gpioBit_w1 {reg0 reg1 a0 a1 p : Nat} (hreg : BitRegs reg0 reg1) (ha : BitRegs a0 a1)
    (hpin : pin < npins) (hp : p < npins) (hne : p ≠ pin) (set : Bool) :
    gpioBit (gpioW1 r pin reg0 reg1 set) p a0 a1 = gpioBit r p a0 a1 := by
  unfold gpioW1
  rw [w1_eq r (hreg.bank_mem pin)]
  unfold gpioBit
  by_cases hidx : bank p a0 a1 / 4 = bank pin reg0 reg1 / 4
  · have hbit : p % 32 ≠ pin % 32 := by
      unfold npins at hpin hp
      unfold bank at hidx
      rcases hreg with ⟨rfl, rfl⟩ | ⟨rfl, rfl⟩ <;> rcases ha with ⟨rfl, rfl⟩ | ⟨rfl, rfl⟩ <;>
        simp only [gpioOut, gpioOut1, gpioEnable, gpioEnable1] at hidx <;> split at hidx <;>
        split at hidx <;> omega
    unfold gpioRd
    dsimp only
    rw [hidx, Function.update_self, getLsbD_w1 _ set (Nat.mod_lt _ (by decide)) hbit]
  · rw [gpioRd_update r _ _ _ hidx]

theorem gpioW1_only {reg0 reg1 : Nat} (hreg : BitRegs reg0 reg1) (hpin : pin < npins) (set : Bool) :
    OnlyPin pin r (gpioW1 r pin reg0 reg1 set) := by
  have hle : ∀ base ∈ w1Bases, base ≤ 0x40 := by decide
  have hbase := hle _ (hreg.bank_mem pin)
  have hword : ∀ off, 0xf4 ≤ off → gpioRd (gpioW1 r pin reg0 reg1 set) off = gpioRd r off := by
    intro off hoff
    unfold gpioW1
    rw [w1_eq r (hreg.bank_mem pin)]
    exact gpioRd_update r _ _ _ (by omega)
  have hiomux : (gpioW1 r pin reg0 reg1 set).iomux = r.iomux := by
    unfold gpioW1
    rw [w1_eq r (hreg.bank_mem pin)]
  refine ⟨fun p hp hne => ⟨by rw [hiomux], ?_, ?_, ?_, ?_⟩, fun n hn => ?_, fun s hs => ?_⟩
  · exact hword _ (by unfold gpioPin; omega)
  · exact hword _ (by unfold gpioOutSel; omega)
  · exact gpioBit_w1 r hreg (Or.inl ⟨rfl, rfl⟩) hpin hp hne set
  · exact gpioBit_w1 r hreg (Or.inr ⟨rfl, rfl⟩) hpin hp hne set
  · exact hword _ (by unfold gpioPin; omega)
  · exact hword _ (by unfold gpioInSel; omega)

end OneWrite

/-! ## A pin of the list -/

/-- CNNT gains select bits of the function of the pin. -/
theorem cnntSelect_bits (r : Regs) (pin func i : Nat) :
    (cnntSelect r pin func).cnnt.getLsbD i = true ↔
    r.cnnt.getLsbD i = true ∨ ∃ c ∈ cnntPads, c.Matches pin func ∧ c.sel.getLsbD i = true := by
  unfold cnntSelect
  generalize cnntPads = pads
  induction pads generalizing r with
  | nil => simp
  | cons c pads ih =>
    rw [List.foldl_cons, ih]
    by_cases h : c.Matches pin func
    · simp [h, BitVec.getLsbD_or, or_assoc]
    · simp [h]

theorem cnntSelect_only (r : Regs) (pin func : Nat) :
    (cnntSelect r pin func).iomux = r.iomux ∧ (cnntSelect r pin func).gpio = r.gpio := by
  unfold cnntSelect
  generalize cnntPads = pads
  induction pads generalizing r with
  | nil => exact ⟨rfl, rfl⟩
  | cons c pads ih =>
    rw [List.foldl_cons]
    obtain ⟨h1, h2⟩ := ih (if c.Matches pin func then { r with cnnt := r.cnnt ||| c.sel } else r)
    rw [h1, h2]
    split <;> exact ⟨rfl, rfl⟩

theorem store_same (r : Regs) (i : Nat) (x : U32) : (r.store i x).cnnt = r.cnnt := by
  unfold Regs.store
  split <;> rfl

theorem gpioW1_cnnt (r : Regs) (pin reg0 reg1 : Nat) (set : Bool) :
    (gpioW1 r pin reg0 reg1 set).cnnt = r.cnnt := by
  unfold gpioW1 Regs.w1
  split
  · exact store_same r _ _
  · rfl

variable {r : Regs} {pin : Nat}

theorem pinSetOut_only (hpin : pin < npins) (high : Bool) :
    OnlyPin pin r (pinSetOut r pin high) ∧ (pinSetOut r pin high).cnnt = r.cnnt :=
  ⟨gpioW1_only r (Or.inl ⟨rfl, rfl⟩) hpin high, gpioW1_cnnt r _ _ _ _⟩

theorem pinSetPull_only (pull : Pull) :
    OnlyPin pin r (pinSetPull r pin pull) ∧ (pinSetPull r pin pull).cnnt = r.cnnt :=
  ⟨iomuxUpdate_only r _ _, rfl⟩

/-- The bit `i` of CNNT selects the function that `mode` is, for the pin. -/
def Selects (pin : Nat) (mode : Mode) (i : Nat) : Prop :=
  ∃ func, mode = .alt func ∧ ∃ c ∈ cnntPads, c.Matches pin func ∧ c.sel.getLsbD i = true

theorem pinSetMode_only (hpin : pin < npins) (mode : Mode) : OnlyPin pin r (pinSetMode r pin mode) ∧
    ∀ i, (pinSetMode r pin mode).cnnt.getLsbD i = true ↔
      r.cnnt.getLsbD i = true ∨ Selects pin mode i := by
  -- input, output and none differ in the values only
  have hmatrix : ∀ (en : Bool) (set : U32), (∀ func, mode ≠ .alt func) →
      OnlyPin pin r (iomuxUpdate (gpioW1 (gpioWr r (gpioOutSel pin) sigGpioOut) pin gpioEnable
        gpioEnable1 en) pin (iomuxMcuMask ||| iomuxIe) set) ∧
      ∀ i, (iomuxUpdate (gpioW1 (gpioWr r (gpioOutSel pin) sigGpioOut) pin gpioEnable
        gpioEnable1 en) pin (iomuxMcuMask ||| iomuxIe) set).cnnt.getLsbD i = true ↔
        r.cnnt.getLsbD i = true ∨ Selects pin mode i := by
    intro en set hmode
    refine ⟨(outSel_only r hpin _).trans ((gpioW1_only _ (Or.inr ⟨rfl, rfl⟩) hpin en).trans
      (iomuxUpdate_only _ _ _)), fun i => ?_⟩
    have hnone : ¬ Selects pin mode i := by
      rintro ⟨func, he, -⟩
      exact hmode func he
    rw [or_iff_left hnone, iomuxUpdate, gpioW1_cnnt, gpioWr, store_same]
  cases mode with
  | alt func =>
    obtain ⟨hio, hgp⟩ := cnntSelect_only r pin func
    refine ⟨?_, fun i => ?_⟩
    · have hsel : OnlyPin pin r (cnntSelect r pin func) := by
        refine ⟨fun p _ _ => ⟨by rw [hio], ?_, ?_, ?_, ?_⟩, fun n _ => ?_, fun s _ => ?_⟩ <;>
          simp only [gpioBit, gpioRd, hgp]
      exact hsel.trans (iomuxUpdate_only _ _ _)
    · have hbits := cnntSelect_bits r pin func i
      constructor
      · intro h
        exact (hbits.mp h).imp_right fun hc => ⟨func, rfl, hc⟩
      · rintro (h | ⟨func', he, hc⟩)
        · exact hbits.mpr (Or.inl h)
        · cases he
          exact hbits.mpr (Or.inr hc)
  | ip => exact hmatrix _ _ fun _ h => by cases h
  | op => exact hmatrix _ _ fun _ h => by cases h
  | no => exact hmatrix _ _ fun _ h => by cases h
  | mx => exact hmatrix _ _ fun _ h => by cases h

/-- The writes of one pin. -/
theorem setWrites_only (hpin : pin < npins) (params : SetParams) :
    OnlyPin pin r (setWrites params r pin) ∧
    ∀ i, (setWrites params r pin).cnnt.getLsbD i = true ↔
      r.cnnt.getLsbD i = true ∨ ∃ mode ∈ params.fsel, Selects pin mode i := by
  obtain ⟨drive, fsel, pull⟩ := params
  have hdrive : OnlyPin pin r (drive.elim r (pinSetOut r pin)) ∧
      (drive.elim r (pinSetOut r pin)).cnnt = r.cnnt := by
    cases drive with
    | none => exact ⟨.refl pin r, rfl⟩
    | some high => exact pinSetOut_only hpin high
  generalize hr1 : drive.elim r (pinSetOut r pin) = r1 at hdrive
  have hmode : OnlyPin pin r1 (fsel.elim r1 (pinSetMode r1 pin)) ∧
      ∀ i, (fsel.elim r1 (pinSetMode r1 pin)).cnnt.getLsbD i = true ↔
        r1.cnnt.getLsbD i = true ∨ ∃ mode ∈ fsel, Selects pin mode i := by
    cases fsel with
    | none => exact ⟨.refl pin r1, fun i => by simp⟩
    | some mode =>
      obtain ⟨h, hbits⟩ := pinSetMode_only (r := r1) hpin mode
      exact ⟨h, fun i => by simp [hbits i]⟩
  generalize hr2 : fsel.elim r1 (pinSetMode r1 pin) = r2 at hmode
  have hpull : OnlyPin pin r2 (pull.elim r2 (pinSetPull r2 pin)) ∧
      (pull.elim r2 (pinSetPull r2 pin)).cnnt = r2.cnnt := by
    cases pull with
    | none => exact ⟨.refl pin r2, rfl⟩
    | some pull => exact pinSetPull_only pull
  unfold setWrites
  dsimp only
  rw [hr1, hr2]
  refine ⟨hdrive.1.trans (hmode.1.trans hpull.1), fun i => ?_⟩
  rw [hpull.2, hmode.2 i, hdrive.2]

/-! ## The numbers of the list -/

/-- The GPIO of a pin of a header is in one of its ranges. -/
theorem padGpio_range {hdr : Option KnownHeader} {pad gpio : Nat}
    (h : padGpio hdr pad = .gpio gpio) : ∃ hd, hdr = some hd ∧ ∃ pr ∈ hd.val.ranges, ∃ g ∈ pr.gpio,
      pr.first ≤ pad ∧ pad ≤ pr.last ∧ gpio = g + (pad - pr.first) := by
  unfold padGpio at h
  split at h
  · cases h
  · next pr hfind =>
    obtain ⟨hd, hhdr, hfind⟩ := Option.bind_eq_some_iff.mp hfind
    have hin := List.find?_some hfind
    simp only [Bool.and_eq_true, decide_eq_true_eq] at hin
    split at h
    · cases h
    · next g hg =>
      cases h
      exact ⟨hd, hhdr, pr, List.mem_of_find?_eq_some hfind, g, hg, hin.1, hin.2, rfl⟩

/-- A number stands for a pin of the chip. -/
theorem numToGpio_lt {pinMode : Bool} {b : Board} {num gpio : Nat}
    (h : numToGpio pinMode b num = .gpio gpio) : gpio < npins := by
  have htable : ∀ hdr ∈ headers, ∀ pr ∈ hdr.ranges, ∀ g ∈ pr.gpio, g + (pr.last - pr.first) <
      npins := by
    decide
  unfold numToGpio at h
  split at h
  · obtain ⟨hd, -, pr, hpr, g, hg, hfirst, hlast, rfl⟩ := padGpio_range h
    have hlt := htable hd.val hd.property pr hpr g hg
    omega
  · split at h
    · next hex =>
      cases h
      unfold pinExists at hex
      simp only [Bool.and_eq_true, decide_eq_true_eq] at hex
      exact hex.1.1
    · cases h

theorem foldl_twoPow (l : List Nat) (mask : Mask) (i : Nat) :
    (l.foldl (fun m i => m ||| BitVec.twoPow 128 i) mask).getLsbD i = true ↔
      mask.getLsbD i = true ∨ i ∈ l ∧ i < 128 := by
  induction l generalizing mask with
  | nil => simp
  | cons j l ih =>
    rw [List.foldl_cons, ih, BitVec.getLsbD_or, BitVec.getLsbD_twoPow, List.mem_cons]
    by_cases hij : j = i
    · subst hij
      by_cases hlt : j < 128 <;> simp [hlt]
    · simp [hij, Ne.symm hij]

theorem setRange_bits (mask : Mask) (first last i : Nat) :
    (setRange mask first last).getLsbD i = true ↔
    mask.getLsbD i = true ∨ (first ≤ i ∧ i ≤ last) ∧ i < 128 := by
  rw [setRange, foldl_twoPow, List.mem_range'_1]
  have : (first ≤ i ∧ i < first + (last + 1 - first)) ↔ first ≤ i ∧ i ≤ last := by omega
  rw [this]

/-- A list that parses names at least one number. -/
theorem parseList_some {item : Bytes → Nat → Item}
    (hitem : ∀ p len n, item p len = .num n → n < 128)
    {p : Bytes} {mask m : Mask} (h : parseList item p mask = .done m) :
    (∀ i, mask.getLsbD i = true → m.getLsbD i = true) ∧ ∃ i, m.getLsbD i = true := by
  induction hn : p.length using Nat.strongRecOn generalizing p mask with
  | _ n ih =>
    rw [parseList] at h
    dsimp only at h
    split at h
    · cases h
    · cases h
    · next first hfirst =>
      have hlt := hitem _ _ _ hfirst
      split at h
      · cases h
      · cases h
      · next last _ =>
        have hset : (setRange mask (min first last) (max first last)).getLsbD first = true :=
          (setRange_bits _ _ _ _).mpr (Or.inr ⟨⟨Nat.min_le_left _ _, Nat.le_max_left _ _⟩, hlt⟩)
        have hmono : ∀ i, mask.getLsbD i = true →
            (setRange mask (min first last) (max first last)).getLsbD i = true :=
          fun i hi => (setRange_bits _ _ _ _).mpr (Or.inl hi)
        split at h
        · cases h
          exact ⟨hmono, first, hset⟩
        · next c rest hp2 =>
          split at h
          · have hlen : rest.length < n := by
              have hle := congrArg List.length hp2
              rw [List.length_cons] at hle
              rw [← hn]
              revert hle
              split
              · simp only [List.length_drop]
                omega
              · simp only [List.length_drop]
                omega
            obtain ⟨hrest, hex⟩ := ih rest.length hlen h rfl
            exact ⟨fun i hi => hrest i (hmono i hi), hex⟩
          · cases h

theorem headerNpads_le (hdr : KnownHeader) : headerNpads hdr ≤ 99 := by
  have hnpads : ∀ hdr ∈ headers, (hdr.ranges.getLast?.map (·.last)).getD 0 ≤ 99 := by decide
  exact hnpads hdr.val hdr.property

theorem lastNum_le (pinMode : Bool) (b : Board) : lastNum pinMode b ≤ 99 := by
  unfold lastNum
  split
  · cases b.hdr with
    | none => exact Nat.zero_le _
    | some hdr => exact headerNpads_le hdr
  · decide

/-- The numbers of an item are in the mask. -/
theorem parseItem_lt {pinMode : Bool} {b : Board} {p : Bytes} {len n : Nat}
    (h : parseItem pinMode b (lastNum pinMode b + 1) p len = .num n) : n < 128 := by
  have hlast := lastNum_le pinMode b
  have hname : ∀ n, (match gpioByName b (p.take len) with
      | none => Item.bad
      | some gpio =>
        if pinMode = true then
          match gpioPad b.hdr gpio with
          | none => .exit
          | some pad => .num pad
        else .num gpio) = .num n → n < 128 := by
    intro n h
    split at h
    · cases h
    · next gpio hgpio =>
      split at h
      · split at h
        · cases h
        · next pad hpad =>
          cases h
          obtain ⟨hdr, -, hfind⟩ := Option.bind_eq_some_iff.mp hpad
          have hmem := List.mem_range'_1.mp (List.mem_of_find?_eq_some hfind)
          have := headerNpads_le hdr
          omega
      · cases h
        have hmem := List.mem_range.mp (List.mem_of_find?_eq_some hgpio)
        unfold npins at hmem
        omega
  unfold parseItem at h
  dsimp only at h
  split at h
  · split at h
    · split at h
      · cases h
        omega
      · cases h
    · exact hname n h
  · exact hname n h

/-! ## The command -/

/-- An interrupt line is enabled on the pin: bits 13 to 16 of its GPIO_PIN word. -/
def LineEnabled (r : Regs) (pin : Nat) : Prop :=
  ∃ line < 4, (gpioRd r (gpioPin pin)).getLsbD (13 + line) = true

theorem intLines_ne (r : Regs) (pin : Nat) : (pinGet r pin).intLines ≠ 0 ↔ LineEnabled r pin := by
  unfold LineEnabled pinGet
  dsimp only
  generalize gpioRd r (gpioPin pin) = x
  have hmask : ∀ i : Fin 32, pinIntEnaMask.getLsbD (13 + i) = decide (i.val < 4) := by decide
  constructor
  · intro hne
    by_contra hno
    refine hne ?_
    have hzero : (x &&& pinIntEnaMask) >>> 13 = 0#32 := by
      apply BitVec.eq_of_getLsbD_eq
      intro i hi
      rw [BitVec.getLsbD_ushiftRight, BitVec.getLsbD_and, hmask ⟨i, hi⟩, BitVec.getLsbD_zero]
      by_cases h4 : i < 4
      · cases hx : x.getLsbD (13 + i) with
        | true => exact absurd ⟨i, h4, hx⟩ hno
        | false => rfl
      · simp [h4]
    rw [hzero]
    rfl
  · rintro ⟨line, hlt, hx⟩ h0
    have hzero : (x &&& pinIntEnaMask) >>> 13 = 0#32 := BitVec.eq_of_toNat_eq h0
    have hbit := congrArg (BitVec.getLsbD · line) hzero
    rw [BitVec.getLsbD_ushiftRight, BitVec.getLsbD_and, hmask ⟨line, by omega⟩, hx] at hbit
    simp [hlt] at hbit

/-- **The pins that `set` must not change**: flash, reserved, used by a driver without `-f`, with an
enabled interrupt line, all pins if the lines are not known, and those that are not listed. -/
def Spared (force : Bool) (b : Board) (r : Regs) (listed : Nat → Prop) (pin : Nat) : Prop :=
  pinIsFlash pin = true ∨ b.haveLines = false ∨ b.reserved.getLsbD pin = true ∨
    (b.used.getLsbD pin = true ∧ force = false) ∨ LineEnabled r pin ∨ ¬ listed pin

/-- The GPIOs of the list: those of its numbers, or of its pins with `-p`. -/
def InList (pinFlag : Bool) (b : Board) (list : Option Bytes) (gpio : Nat) : Prop :=
  ∃ text ∈ list, ∃ mask num, listMask (effectivePinMode pinFlag b) b text = .done mask ∧
    mask.getLsbD num = true ∧ numToGpio (effectivePinMode pinFlag b) b num = .gpio gpio

theorem setRefusal_none {force : Bool} {b : Board} {r : Regs} {gpio : Nat}
    (h : setRefusal force b r gpio = none) {listed : Nat → Prop} (hl : listed gpio) :
    ¬ Spared force b r listed gpio := by
  unfold setRefusal at h
  split at h
  · cases h
  · next hflash =>
    split at h
    · cases h
    · next hlines =>
      split at h
      · cases h
      · next hres =>
        split at h
        · cases h
        · next hused =>
          split at h
          · cases h
          · next hint =>
            rw [intLines_ne] at hint
            rintro (h | h | h | ⟨hu, hf⟩ | h | h)
            · exact hflash h
            · exact hlines (by simp [h])
            · exact hres h
            · exact hused (by simp [hu, hf])
            · exact hint h
            · exact h hl

/-- CNNT may gain the bit `i`: a pin that may change gets a function with this select bit. -/
def MayGain (force : Bool) (b : Board) (r : Regs) (listed : Nat → Prop) (params : SetParams)
    (i : Nat) : Prop :=
  ∃ pin < npins, ¬ Spared force b r listed pin ∧ params.drive = none ∧
    ∃ mode ∈ params.fsel, Selects pin mode i

/-- What a run of `set` from `r0` has changed so far. -/
structure SetInv (force : Bool) (b : Board) (r0 : Regs) (listed : Nat → Prop) (params : SetParams)
    (r : Regs) : Prop where
  untouched : ∀ p < npins, Spared force b r0 listed p → Untouched r0 r p
  fixed : Fixed r0 r
  keeps : ∀ i, r0.cnnt.getLsbD i = true → r.cnnt.getLsbD i = true
  gains : ∀ i, r.cnnt.getLsbD i = true → r0.cnnt.getLsbD i = true ∨
    MayGain force b r0 listed params i

section Run

variable {force pinMode : Bool} {b : Board} {r0 r : Regs} {listed : Nat → Prop} {params : SetParams}

theorem SetInv.refl : SetInv force b r0 listed params r0 :=
  ⟨fun p _ _ => .refl r0 p, .refl r0, fun _ h => h, fun _ h => Or.inl h⟩

/-- One number of the list. -/
theorem SetInv.step (h : SetInv force b r0 listed params r) {num : Nat}
    (hl : ∀ gpio, numToGpio pinMode b num = .gpio gpio → listed gpio) :
    SetInv force b r0 listed params (doGpioSet force pinMode b params r num).2.1 := by
  unfold doGpioSet
  split
  · exact h
  · exact h
  · next gpio hgpio =>
    have hpin := numToGpio_lt hgpio
    split
    · exact h
    · next hnone =>
      dsimp only
      split
      · exact h
      · next hdrive =>
        -- the interrupt lines are as they were at the start
        have hfree : ¬ Spared force b r0 listed gpio := by
          have hnow := setRefusal_none hnone (hl gpio hgpio)
          unfold Spared LineEnabled at hnow ⊢
          rwa [h.fixed.pads gpio hpin] at hnow
        obtain ⟨honly, hbits⟩ := setWrites_only (r := r) hpin params
        refine ⟨fun p hp hs => ?_, h.fixed.trans honly.fixed, fun i hi => ?_, fun i hi => ?_⟩
        · refine (h.untouched p hp hs).trans (honly.other p hp ?_)
          rintro rfl
          exact hfree hs
        · exact (hbits i).mpr (Or.inl (h.keeps i hi))
        · rcases (hbits i).mp hi with hi | ⟨mode, hmode, hsel⟩
          · exact h.gains i hi
          · refine Or.inr ⟨gpio, hpin, hfree, ?_, mode, hmode, hsel⟩
            -- a level with a function is no output, so nothing was set
            obtain ⟨func, rfl, -⟩ := hsel
            rw [Option.mem_def.mp hmode] at hdrive
            cases hd : params.drive with
            | none => rfl
            | some high => simp [hd] at hdrive

theorem SetInv.loop (h : SetInv force b r0 listed params r) {mask : Mask}
    (hl : ∀ num, mask.getLsbD num = true → ∀ gpio, numToGpio pinMode b num = .gpio gpio →
      listed gpio)
    (nums : List Nat) (ret : Nat) (ms : List Message) :
    SetInv force b r0 listed params (setLoop force pinMode b params mask nums (ret, r,
      ms)).2.1 := by
  unfold setLoop
  induction nums generalizing r ret ms with
  | nil => exact h
  | cons num nums ih =>
    rw [List.foldl_cons]
    split
    · next hbit => exact ih (h.step (hl num hbit)) _ _
    · exact ih h _ _

end Run

end Esp32S31.Pinctrl
