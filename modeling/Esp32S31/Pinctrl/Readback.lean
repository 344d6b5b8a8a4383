import Esp32S31.Pinctrl.Set

/-!
# Setting a pin and reading it back

`setPin` is `pin_set_mode`, `pin_set_pull` and `pin_set_out` of one pin. `readBack` is the mode that
`pin_get` reports afterwards: the mode that was set, but `mx` where a signal of the matrix comes
from the pin, and for the function `a1`, which is the GPIO matrix, what the matrix and the enable
bit make of it.

**`set_get`**: the pin reads back as it was set, every other pin reads back as before, and the two
backends leave the same registers.
-/

namespace Esp32S31.Pinctrl

open Esp32S31.Lib

/-! ## Fields of a word -/

section Fields

variable {w clr set m : U32}

/-- A field that is written anew. -/
theorem rmw_cleared (h : m &&& ~~~clr = 0#32) : (w &&& ~~~clr ||| set) &&& m = set &&& m := by
  apply BitVec.eq_of_getLsbD_eq
  intro i hi
  have hbit := congrArg (BitVec.getLsbD · i) h
  simp only [BitVec.getLsbD_and, BitVec.getLsbD_not, BitVec.getLsbD_zero, hi, decide_true,
    Bool.true_and] at hbit
  simp only [BitVec.getLsbD_and, BitVec.getLsbD_or, BitVec.getLsbD_not, hi, decide_true,
    Bool.true_and]
  revert hbit
  cases m.getLsbD i <;> cases clr.getLsbD i <;> simp

/-- A field whose bits are all set. -/
theorem rmw_set (h : m &&& set = m) : (w &&& ~~~clr ||| set) &&& m = m := by
  apply BitVec.eq_of_getLsbD_eq
  intro i hi
  have hbit := congrArg (BitVec.getLsbD · i) h
  simp only [BitVec.getLsbD_and] at hbit
  simp only [BitVec.getLsbD_and, BitVec.getLsbD_or]
  revert hbit
  cases m.getLsbD i <;> cases set.getLsbD i <;> simp

/-- A field that is left alone. -/
theorem rmw_kept (hclr : m &&& clr = 0#32) (hset : m &&& set = 0#32) :
    (w &&& ~~~clr ||| set) &&& m = w &&& m := by
  apply BitVec.eq_of_getLsbD_eq
  intro i hi
  have hc := congrArg (BitVec.getLsbD · i) hclr
  have hs := congrArg (BitVec.getLsbD · i) hset
  simp only [BitVec.getLsbD_and, BitVec.getLsbD_zero] at hc hs
  simp only [BitVec.getLsbD_and, BitVec.getLsbD_or, BitVec.getLsbD_not, hi, decide_true,
    Bool.true_and]
  revert hc hs
  cases m.getLsbD i <;> cases clr.getLsbD i <;> cases set.getLsbD i <;> simp

end Fields

/-! ## The writes -/

/-- `pin_set_mode`, `pin_set_pull` and `pin_set_out`. -/
def setPin (r : Regs) (pin : Nat) (mode : Mode) (pull : Pull) (high : Bool) : Regs :=
  pinSetOut (pinSetPull (pinSetMode r pin mode) pin pull) pin high

section Writes

variable (r : Regs) (pin : Nat)

/-- The word of a bank after a write of the bit of a pin. -/
theorem gpioW1_eq {reg0 reg1 : Nat} (h : BitRegs reg0 reg1) (set : Bool) :
    gpioW1 r pin reg0 reg1 set = { r with
      gpio := Function.update r.gpio (bank pin reg0 reg1 / 4)
        (if set then r.gpio (bank pin reg0 reg1 / 4) ||| 1#32 <<< (pin % 32)
        else r.gpio (bank pin reg0 reg1 / 4) &&& ~~~(1#32 <<< (pin % 32))) } :=
  w1_eq r (h.bank_mem pin) _ set

theorem outRegs : BitRegs gpioOut gpioOut1 := Or.inl ⟨rfl, rfl⟩

theorem enableRegs : BitRegs gpioEnable gpioEnable1 := Or.inr ⟨rfl, rfl⟩

/-- The bit that was written. -/
theorem gpioBit_w1_self {reg0 reg1 : Nat} (h : BitRegs reg0 reg1) (set : Bool) :
    gpioBit (gpioW1 r pin reg0 reg1 set) pin reg0 reg1 = set := by
  have hlt : pin % 32 < 32 := Nat.mod_lt _ (by decide)
  have hbit : (1#32 <<< (pin % 32)).getLsbD (pin % 32) = true := by
    rw [U32.getLsbD_one_shiftLeft _ hlt, decide_eq_true rfl]
  rw [gpioW1_eq r pin h]
  unfold gpioBit gpioRd
  dsimp only
  rw [Function.update_self]
  cases set with
  | true => rw [if_pos rfl, BitVec.getLsbD_or, hbit, Bool.or_true]
  | false =>
    rw [if_neg Bool.false_ne_true, BitVec.getLsbD_and, BitVec.getLsbD_not, hbit, Bool.not_true,
      Bool.and_false, Bool.and_false]

/-- A word that has no bit of the pin is as before. -/
theorem gpioRd_w1 {reg0 reg1 off : Nat} (h : BitRegs reg0 reg1) (set : Bool)
    (hne : off / 4 ≠ reg0 / 4 ∧ off / 4 ≠ reg1 / 4) :
    gpioRd (gpioW1 r pin reg0 reg1 set) off = gpioRd r off := by
  rw [gpioW1_eq r pin h]
  refine gpioRd_update r _ _ _ ?_
  unfold bank
  split
  · exact hne.1
  · exact hne.2

/-- The hardware and a snapshot do the same. -/
theorem pinSetOut_backend (live high : Bool) :
    pinSetOut { r with live := live } pin high = { pinSetOut r pin high with live := live } := by
  unfold pinSetOut
  rw [gpioW1_eq _ pin outRegs, gpioW1_eq _ pin outRegs]

theorem cnntSelect_backend (live : Bool) (func : Nat) :
    cnntSelect { r with live := live } pin func = { cnntSelect r pin func with live := live } := by
  unfold cnntSelect
  generalize cnntPads = pads
  induction pads generalizing r with
  | nil => rfl
  | cons c pads ih =>
    rw [List.foldl_cons, List.foldl_cons, ← ih]
    split <;> rfl

theorem pinSetMode_backend (live : Bool) (mode : Mode) :
    pinSetMode { r with live := live } pin mode = { pinSetMode r pin mode with live := live } := by
  have hmatrix (en : Bool) (clr set : U32) : iomuxUpdate (gpioW1
      (gpioWr { r with live := live } (gpioOutSel pin) sigGpioOut) pin gpioEnable gpioEnable1 en)
        pin clr set =
      { iomuxUpdate (gpioW1 (gpioWr r (gpioOutSel pin) sigGpioOut) pin gpioEnable gpioEnable1 en)
        pin clr set with live := live } := by
    rw [gpioWr_outSel, gpioWr_outSel, gpioW1_eq _ pin enableRegs, gpioW1_eq _ pin enableRegs]
    rfl
  cases mode with
  | alt func =>
    unfold pinSetMode
    dsimp only
    rw [cnntSelect_backend]
    rfl
  | ip => exact hmatrix _ _ _
  | op => exact hmatrix _ _ _
  | no => exact hmatrix _ _ _
  | mx => exact hmatrix _ _ _

theorem setPin_backend (live : Bool) (mode : Mode) (pull : Pull) (high : Bool) :
    setPin { r with live := live } pin mode pull high =
      { setPin r pin mode pull high with live := live } := by
  unfold setPin
  rw [pinSetMode_backend]
  exact pinSetOut_backend (pinSetPull (pinSetMode r pin mode) pin pull) pin live high

/-- The three words of the GPIO page that the writes of a pin go to. -/
theorem words_ne (pin : Nat) : bank pin gpioEnable gpioEnable1 / 4 ≠ bank pin gpioOut gpioOut1 / 4 ∧
    gpioOutSel pin / 4 ≠ bank pin gpioOut gpioOut1 / 4 ∧
    gpioOutSel pin / 4 ≠ bank pin gpioEnable gpioEnable1 / 4 := by
  unfold bank gpioEnable gpioEnable1 gpioOut gpioOut1 gpioOutSel
  split <;> omega

/-- The level and the mode of a pin may be set in either order. -/
theorem pinSetOut_pinSetMode (mode : Mode) (high : Bool) :
    pinSetOut (pinSetMode r pin mode) pin high = pinSetMode (pinSetOut r pin high) pin mode := by
  obtain ⟨heo, hso, hse⟩ := words_ne pin
  have hmatrix (en : Bool) (clr set : U32) : pinSetOut (iomuxUpdate
      (gpioW1 (gpioWr r (gpioOutSel pin) sigGpioOut) pin gpioEnable gpioEnable1 en) pin clr set)
        pin high =
      iomuxUpdate (gpioW1 (gpioWr (pinSetOut r pin high) (gpioOutSel pin) sigGpioOut) pin gpioEnable
        gpioEnable1 en) pin clr set := by
    unfold pinSetOut
    simp only [gpioWr_outSel, gpioW1_eq _ pin enableRegs, gpioW1_eq _ pin outRegs, iomuxUpdate]
    rw [Function.update_of_ne heo.symm, Function.update_of_ne hso.symm, Function.update_comm heo,
      Function.update_comm hso]
    simp only [Function.update_of_ne hse.symm, Function.update_of_ne heo]
  cases mode with
  | alt func =>
    have hsel (t : Regs) : pinSetOut (cnntSelect t pin func) pin high =
        cnntSelect (pinSetOut t pin high) pin func := by
      unfold cnntSelect
      generalize cnntPads = pads
      induction pads generalizing t with
      | nil => rfl
      | cons c pads ih =>
        rw [List.foldl_cons, List.foldl_cons, ih]
        congr 1
        unfold pinSetOut
        rw [gpioW1_eq _ pin outRegs, gpioW1_eq _ pin outRegs]
        split <;> rfl
    have hmux (t : Regs) (clr set : U32) : pinSetOut (iomuxUpdate t pin clr set) pin high =
        iomuxUpdate (pinSetOut t pin high) pin clr set := by
      unfold pinSetOut
      rw [gpioW1_eq _ pin outRegs, gpioW1_eq _ pin outRegs]
      rfl
    unfold pinSetMode
    dsimp only
    rw [hmux, hsel]
  | ip => exact hmatrix _ _ _
  | op => exact hmatrix _ _ _
  | no => exact hmatrix _ _ _
  | mx => exact hmatrix _ _ _

/-- `do_gpio_set` has the level first. -/
theorem setWrites_eq_setPin (mode : Mode) (pull : Pull) (high : Bool) :
    setWrites ⟨some high, some mode, some pull⟩ r pin = setPin r pin mode pull high := by
  have hpull (t : Regs) : pinSetOut (pinSetPull t pin pull) pin high =
      pinSetPull (pinSetOut t pin high) pin pull := by
    unfold pinSetOut
    rw [gpioW1_eq _ pin outRegs, gpioW1_eq _ pin outRegs]
    rfl
  unfold setPin
  rw [hpull, pinSetOut_pinSetMode]
  rfl

end Writes

/-! ## The words of another pin -/

/-- An input signal of the matrix comes from the pin. -/
def inputRouted (r : Regs) (pin : Nat) : Bool :=
  (List.range nsigs).any fun sig =>
    let sel := gpioRd r (gpioInSel sig)
    sel &&& inSelMatrix ≠ 0#32 && (sel &&& inSelPin).toNat = pin

theorem matrixSignals_eq (r : Regs) (pin : Nat) : matrixSignals r pin =
    (decide (gpioRd r (gpioOutSel pin) &&& outSelSig ≠ sigGpioOut) || inputRouted r pin) := rfl

theorem inputRouted_congr {r r' : Regs} (hf : Fixed r r') (pin : Nat) :
    inputRouted r' pin = inputRouted r pin := by
  unfold inputRouted
  rw [Bool.eq_iff_iff, List.any_eq_true, List.any_eq_true]
  constructor
  · rintro ⟨sig, hmem, hsig⟩
    rw [hf.inSels sig (List.mem_range.mp hmem)] at hsig
    exact ⟨sig, hmem, hsig⟩
  · rintro ⟨sig, hmem, hsig⟩
    rw [← hf.inSels sig (List.mem_range.mp hmem)] at hsig
    exact ⟨sig, hmem, hsig⟩

/-- `pin_get` reads the words and the bits of the pin, the input signals, and the pads and status of
its bank. -/
theorem pinGet_congr {r r' : Regs} {pin : Nat} (h : Untouched r r' pin) (hf : Fixed r r')
    (hin : gpioBit r' pin gpioIn gpioIn1 = gpioBit r pin gpioIn gpioIn1)
    (hstatus : gpioBit r' pin gpioStatus gpioStatus1 = gpioBit r pin gpioStatus gpioStatus1) :
    pinGet r' pin = pinGet r pin := by
  have hsignals : matrixSignals r' pin = matrixSignals r pin := by
    rw [matrixSignals_eq, matrixSignals_eq, h.outSel, inputRouted_congr hf]
  unfold pinGet pinLevel
  rw [hsignals, h.iomux, h.pad, h.out, h.enable, hin, hstatus]

section Frame

variable {r : Regs} {pin off : Nat}

/-- A word of the GPIO page that is none of those that are written. -/
def Apart (pin off : Nat) : Prop :=
  (∀ base ∈ w1Bases, off / 4 ≠ base / 4) ∧ off / 4 ≠ gpioOutSel pin / 4

theorem gpioW1_word (h : Apart pin off) {reg0 reg1 : Nat} (hreg : BitRegs reg0 reg1) (set : Bool) :
    gpioRd (gpioW1 r pin reg0 reg1 set) off = gpioRd r off := by
  rw [gpioW1_eq r pin hreg]
  exact gpioRd_update r _ _ _ (h.1 _ (hreg.bank_mem pin))

theorem pinSetMode_word (h : Apart pin off) (mode : Mode) :
    gpioRd (pinSetMode r pin mode) off = gpioRd r off := by
  have hmatrix (en : Bool) (clr set : U32) : gpioRd (iomuxUpdate
      (gpioW1 (gpioWr r (gpioOutSel pin) sigGpioOut) pin gpioEnable gpioEnable1 en) pin clr set)
        off = gpioRd r off := by
    refine (gpioW1_word h enableRegs en).trans ?_
    rw [gpioWr_outSel]
    exact gpioRd_update r _ _ _ h.2
  cases mode with
  | alt func => exact congrFun (cnntSelect_only r pin func).2 (off / 4)
  | ip => exact hmatrix _ _ _
  | op => exact hmatrix _ _ _
  | no => exact hmatrix _ _ _
  | mx => exact hmatrix _ _ _

theorem setPin_word (h : Apart pin off) (mode : Mode) (pull : Pull) (high : Bool) :
    gpioRd (setPin r pin mode pull high) off = gpioRd r off :=
  (gpioW1_word h outRegs high).trans (pinSetMode_word h mode)

/-- The pads and the status bits. -/
theorem setPin_input (r : Regs) (pin q : Nat) (mode : Mode) (pull : Pull) (high : Bool) :
    gpioBit (setPin r pin mode pull high) q gpioIn gpioIn1 = gpioBit r q gpioIn gpioIn1 ∧
      gpioBit (setPin r pin mode pull high) q gpioStatus gpioStatus1 =
        gpioBit r q gpioStatus gpioStatus1 := by
  have hapart : ∀ off ∈ [gpioIn, gpioIn1, gpioStatus, gpioStatus1], Apart pin off := by
    intro off hoff
    have hle : off ≤ 0x80 := by
      revert off
      decide
    refine ⟨?_, ?_⟩
    · revert off
      decide
    · unfold gpioOutSel
      omega
  unfold gpioBit
  constructor
  · rw [setPin_word (hapart _ _)]
    unfold bank
    split <;> decide
  · rw [setPin_word (hapart _ _)]
    unfold bank
    split <;> decide

theorem setPin_only (hpin : pin < npins) (mode : Mode) (pull : Pull) (high : Bool) :
    OnlyPin pin r (setPin r pin mode pull high) :=
  ((pinSetMode_only hpin mode).1.trans (pinSetPull_only pull).1).trans (pinSetOut_only hpin high).1

/-- **Another pin** reads back as before. -/
theorem setPin_other (hpin : pin < npins) {q : Nat} (hq : q < npins) (hne : q ≠ pin) (mode : Mode)
    (pull : Pull) (high : Bool) : pinGet (setPin r pin mode pull high) q = pinGet r q := by
  have honly := setPin_only (r := r) hpin mode pull high
  obtain ⟨hin, hstatus⟩ := setPin_input r pin q mode pull high
  exact pinGet_congr (honly.other q hq hne) honly.fixed hin hstatus

end Frame

/-! ## The pin itself -/

/-- What a mode reads back as. `set` has no `mx`; `pin_set_mode` would take it as `ip`. -/
def readBack (r : Regs) (pin : Nat) : Mode → Mode
  | .alt func =>
    if func.val ≠ funcGpio then .alt func
    else if matrixSignals r pin then .mx
    else if gpioBit r pin gpioEnable gpioEnable1 then .op
    else .ip
  | .op => if inputRouted r pin then .mx else .op
  | .no => if inputRouted r pin then .mx else .no
  | .ip | .mx => if inputRouted r pin then .mx else .ip

/-- The IO MUX function of a mode. -/
def Mode.func : Mode → Nat
  | .alt func => func
  | _ => funcGpio

section Self

variable {r : Regs} {pin : Nat}

theorem iomuxUpdate_self (r : Regs) (pin : Nat) (clr set : U32) :
    (iomuxUpdate r pin clr set).iomux pin = r.iomux pin &&& ~~~clr ||| set :=
  Function.update_self _ _ _

/-- The function of a mode, and the input that is off for none only. -/
theorem pinSetMode_iomux (r : Regs) (pin : Nat) (mode : Mode) :
    (((pinSetMode r pin mode).iomux pin &&& iomuxMcuMask) >>> 12).toNat = mode.func ∧
      (pinSetMode r pin mode).iomux pin &&& iomuxIe = if mode = .no then 0#32 else iomuxIe := by
  have hmatrix (t : Regs) (set ie : U32) (hfunc : ((set &&& iomuxMcuMask) >>> 12).toNat = funcGpio)
      (hie : set &&& iomuxIe = ie) :
      (((iomuxUpdate t pin (iomuxMcuMask ||| iomuxIe) set).iomux pin &&& iomuxMcuMask) >>> 12).toNat
        = funcGpio ∧
      (iomuxUpdate t pin (iomuxMcuMask ||| iomuxIe) set).iomux pin &&& iomuxIe = ie := by
    rw [iomuxUpdate_self, rmw_cleared (by decide), rmw_cleared (by decide)]
    exact ⟨hfunc, hie⟩
  cases mode with
  | alt func =>
    have hfunc : ∀ f : Fin nfuncs,
        (((BitVec.ofNat 32 f <<< 12 ||| iomuxIe) &&& iomuxMcuMask) >>> 12).toNat = f.val := by
      decide
    have hie : ∀ f : Fin nfuncs, iomuxIe &&& (BitVec.ofNat 32 f <<< 12 ||| iomuxIe) = iomuxIe := by
      decide
    unfold pinSetMode
    dsimp only
    rw [iomuxUpdate_self, rmw_cleared (by decide), rmw_set (hie func)]
    exact ⟨hfunc func, rfl⟩
  | ip => exact hmatrix _ _ _ (by decide) (by decide)
  | op => exact hmatrix _ _ _ (by decide) (by decide)
  | no => exact hmatrix _ _ _ (by decide) (by decide)
  | mx => exact hmatrix _ _ _ (by decide) (by decide)

/-- The output driver: on for an output only; a function leaves it alone. -/
theorem pinSetMode_enable (r : Regs) (pin : Nat) (mode : Mode) :
    gpioBit (pinSetMode r pin mode) pin gpioEnable gpioEnable1 =
      match mode with
      | .alt _ => gpioBit r pin gpioEnable gpioEnable1
      | _ => decide (mode = .op) := by
  cases mode with
  | alt func =>
    exact congrArg (fun page : Page => (page (bank pin gpioEnable gpioEnable1 / 4)).getLsbD
      (pin % 32)) (cnntSelect_only r pin func).2
  | ip => exact gpioBit_w1_self _ pin enableRegs _
  | op => exact gpioBit_w1_self _ pin enableRegs _
  | no => exact gpioBit_w1_self _ pin enableRegs _
  | mx => exact gpioBit_w1_self _ pin enableRegs _

/-- The signals of the matrix: a function leaves them alone, the other modes leave the inputs. -/
theorem pinSetMode_signals (hpin : pin < npins) (mode : Mode) :
    matrixSignals (pinSetMode r pin mode) pin =
      match mode with
      | .alt _ => matrixSignals r pin
      | _ => inputRouted r pin := by
  have hmatrix (m : Mode) (hm : gpioRd (pinSetMode r pin m) (gpioOutSel pin) = sigGpioOut) :
      matrixSignals (pinSetMode r pin m) pin = inputRouted r pin := by
    rw [matrixSignals_eq, hm, decide_eq_false (by decide), Bool.false_or]
    exact inputRouted_congr (pinSetMode_only hpin m).1.fixed pin
  have hsel (en : Bool) (clr set : U32) : gpioRd (iomuxUpdate
      (gpioW1 (gpioWr r (gpioOutSel pin) sigGpioOut) pin gpioEnable gpioEnable1 en) pin clr set)
        (gpioOutSel pin) = sigGpioOut := by
    refine (gpioRd_w1 _ pin enableRegs en ?_).trans ?_
    · unfold gpioOutSel gpioEnable gpioEnable1
      constructor <;> omega
    · rw [gpioWr_outSel]
      exact Function.update_self _ _ _
  cases mode with
  | alt func =>
    have hpage : (pinSetMode r pin (.alt func)).gpio = r.gpio := (cnntSelect_only r pin func).2
    unfold matrixSignals gpioRd
    rw [hpage]
  | ip => exact hmatrix _ (hsel _ _ _)
  | op => exact hmatrix _ (hsel _ _ _)
  | no => exact hmatrix _ (hsel _ _ _)
  | mx => exact hmatrix _ (hsel _ _ _)

/-- `pin_set_pull` writes the pull bits only. -/
theorem pinSetPull_iomux (r : Regs) (pin : Nat) (pull : Pull) :
    (pinSetPull r pin pull).iomux pin &&& iomuxMcuMask = r.iomux pin &&& iomuxMcuMask ∧
      (pinSetPull r pin pull).iomux pin &&& iomuxIe = r.iomux pin &&& iomuxIe ∧
      (⟨(pinSetPull r pin pull).iomux pin &&& iomuxWpu ≠ 0#32,
        (pinSetPull r pin pull).iomux pin &&& iomuxWpd ≠ 0#32⟩ : Pull) = pull := by
  obtain ⟨up, down⟩ := pull
  unfold pinSetPull
  rw [iomuxUpdate_self]
  refine ⟨rmw_kept (by decide) ?_, rmw_kept (by decide) ?_, ?_⟩
  · revert up down
    decide
  · revert up down
    decide
  · rw [rmw_cleared (by decide), rmw_cleared (by decide)]
    revert up down
    decide

/-- `pin_set_out` leaves the output driver and the signals. -/
theorem pinSetOut_mode (hpin : pin < npins) (high : Bool) :
    (pinSetOut r pin high).iomux = r.iomux ∧
      gpioBit (pinSetOut r pin high) pin gpioEnable gpioEnable1 =
        gpioBit r pin gpioEnable gpioEnable1 ∧
      matrixSignals (pinSetOut r pin high) pin = matrixSignals r pin := by
  refine ⟨?_, ?_, ?_⟩
  · unfold pinSetOut
    rw [gpioW1_eq r pin outRegs]
  · refine congrArg (BitVec.getLsbD · (pin % 32)) (gpioRd_w1 r pin outRegs high ?_)
    unfold bank
    split <;> decide
  · have hsel : gpioRd (pinSetOut r pin high) (gpioOutSel pin) = gpioRd r (gpioOutSel pin) := by
      refine gpioRd_w1 r pin outRegs high ?_
      unfold gpioOutSel gpioOut gpioOut1
      constructor <;> omega
    rw [matrixSignals_eq, matrixSignals_eq, hsel,
      inputRouted_congr (pinSetOut_only hpin high).1.fixed]

/-- What the mode is read from. -/
theorem pinGet_mode_congr {r' : Regs}
    (hmcu : r'.iomux pin &&& iomuxMcuMask = r.iomux pin &&& iomuxMcuMask)
    (hie : r'.iomux pin &&& iomuxIe = r.iomux pin &&& iomuxIe)
    (hen : gpioBit r' pin gpioEnable gpioEnable1 = gpioBit r pin gpioEnable gpioEnable1)
    (hsig : matrixSignals r' pin = matrixSignals r pin) :
    (pinGet r' pin).mode = (pinGet r pin).mode := by
  unfold pinGet
  simp only [hmcu, hie, hen, hsig]

/-- **The mode** that a pin reads back as. -/
theorem pinSetMode_mode (hpin : pin < npins) (mode : Mode) :
    (pinGet (pinSetMode r pin mode) pin).mode = readBack r pin mode := by
  obtain ⟨hfunc, hinput⟩ := pinSetMode_iomux r pin mode
  have henable := pinSetMode_enable r pin mode
  have hsignals := pinSetMode_signals (r := r) hpin mode
  unfold pinGet
  simp only [hfunc, hinput, henable, hsignals]
  cases mode with
  | alt func =>
    by_cases h1 : func.val = funcGpio
    · simp [Mode.func, readBack, h1, iomuxIe]
    · simp [Mode.func, readBack, h1]
  | ip => simp [Mode.func, readBack, iomuxIe]
  | op => simp [Mode.func, readBack]
  | no => simp [Mode.func, readBack]
  | mx => simp [Mode.func, readBack, iomuxIe]

theorem setPin_mode (hpin : pin < npins) (mode : Mode) (pull : Pull) (high : Bool) :
    (pinGet (setPin r pin mode pull high) pin).mode = readBack r pin mode := by
  obtain ⟨hio, hen, hsig⟩ := pinSetOut_mode (r := pinSetPull (pinSetMode r pin mode) pin pull)
    hpin high
  obtain ⟨hmcu, hie, -⟩ := pinSetPull_iomux (pinSetMode r pin mode) pin pull
  have hio' : (setPin r pin mode pull high).iomux pin =
      (pinSetPull (pinSetMode r pin mode) pin pull).iomux pin := congrFun hio pin
  have hsame : (pinGet (setPin r pin mode pull high) pin).mode =
      (pinGet (pinSetMode r pin mode) pin).mode :=
    pinGet_mode_congr (by rw [hio', hmcu]) (by rw [hio', hie]) hen hsig
  rw [hsame, pinSetMode_mode hpin]

end Self

/-! ## The text of the function -/

/-- The lines of `cnnt_pads` with their block names. -/
def cnntBlocks : List (CnntPad × String) := cnntPads.zip ["GMAC", "SDHOST"]

/-- `cnnt_block`. -/
def cnntBlock (r : Regs) (pin func : Nat) : Option String :=
  (cnntBlocks.find? fun c => c.1.Matches pin func && r.cnnt &&& c.1.sel ≠ 0#32).map (·.2)

/-- What the text of the function is made of: the IO MUX function, with the block for one that has
no name; the signals of the matrix; or a word. -/
inductive FuncText where
  | iomux (func : Nat) (block : Option String)
  | matrix (out : Option Nat) (ins : List Nat)
  | output
  | input
  | none
  deriving DecidableEq

/-- The text of `pin_get`. -/
def funcText (r : Regs) (pin : Nat) : FuncText :=
  let mux := r.iomux pin
  let func := ((mux &&& iomuxMcuMask) >>> 12).toNat
  let out := gpioRd r (gpioOutSel pin) &&& outSelSig
  if func ≠ funcGpio then .iomux func (cnntBlock r pin func)
  else if matrixSignals r pin then
    .matrix (if out ≠ sigGpioOut then some out.toNat else none)
      ((List.range nsigs).filter fun sig =>
        let sel := gpioRd r (gpioInSel sig)
        sel &&& inSelMatrix ≠ 0#32 && (sel &&& inSelPin).toNat = pin)
  else if gpioBit r pin gpioEnable gpioEnable1 then .output
  else if mux &&& iomuxIe ≠ 0#32 then .input
  else .none

/-- The mode that is set to the pin `pin` gives the function `func` of the pin `q` to a block. -/
def SelectsBlock (pin : Nat) (mode : Mode) (q func : Nat) (block : String) : Prop :=
  ∃ g, mode = .alt g ∧ ∃ c ∈ cnntBlocks, c.1.Matches pin g ∧ c.1.Matches q func ∧ c.2 = block

theorem and_bit_ne (x : U32) {i : Nat} (hi : i < 32) :
    x &&& 1#32 <<< i ≠ 0#32 ↔ x.getLsbD i = true := by
  constructor
  · intro hne
    by_contra hbit
    refine hne (BitVec.eq_of_getLsbD_eq fun j hj => ?_)
    rw [BitVec.getLsbD_and, U32.getLsbD_one_shiftLeft i hj, BitVec.getLsbD_zero]
    by_cases h : j = i
    · rw [h, Bool.eq_false_iff.mpr hbit, Bool.false_and]
    · rw [decide_eq_false h, Bool.and_false]
  · intro hbit h0
    have h := congrArg (BitVec.getLsbD · i) h0
    simp only [BitVec.getLsbD_and, U32.getLsbD_one_shiftLeft i hi, hbit, decide_true, Bool.and_true,
      BitVec.getLsbD_zero, Bool.true_eq_false] at h

/-- CNNT has a select bit if it had it or if the mode needs it. -/
theorem setPin_cnnt (r : Regs) (pin : Nat) (mode : Mode) (pull : Pull) (high : Bool) {c : CnntPad}
    (hc : c ∈ cnntPads) : (setPin r pin mode pull high).cnnt &&& c.sel ≠ 0#32 ↔
      r.cnnt &&& c.sel ≠ 0#32 ∨ ∃ g, mode = .alt g ∧ c.Matches pin g := by
  have hcnnt : (setPin r pin mode pull high).cnnt = (pinSetMode r pin mode).cnnt :=
    gpioW1_cnnt _ _ _ _ _
  rw [hcnnt]
  have hmatrix (h : (pinSetMode r pin mode).cnnt = r.cnnt) (hm : ∀ g, mode ≠ .alt g) :
      (pinSetMode r pin mode).cnnt &&& c.sel ≠ 0#32 ↔
        r.cnnt &&& c.sel ≠ 0#32 ∨ ∃ g, mode = .alt g ∧ c.Matches pin g := by
    rw [h, or_iff_left]
    rintro ⟨g, hg, -⟩
    exact hm g hg
  have hsame (en : Bool) (clr set : U32) : (iomuxUpdate (gpioW1
      (gpioWr r (gpioOutSel pin) sigGpioOut) pin gpioEnable gpioEnable1 en) pin clr set).cnnt =
        r.cnnt := (gpioW1_cnnt _ _ _ _ _).trans (store_same r _ _)
  cases mode with
  | alt func =>
    have hbits (i : Nat) : (pinSetMode r pin (.alt func)).cnnt.getLsbD i = true ↔ _ :=
      cnntSelect_bits r pin func i
    simp only [cnntPads, List.mem_cons, List.not_mem_nil, or_false] at hc
    rcases hc with rfl | rfl
    · rw [and_bit_ne _ (by decide), and_bit_ne _ (by decide), hbits]
      simp [cnntPads]
    · rw [and_bit_ne _ (by decide), and_bit_ne _ (by decide), hbits]
      simp [cnntPads]
  | ip => exact hmatrix (hsame _ _ _) fun _ h => nomatch h
  | op => exact hmatrix (hsame _ _ _) fun _ h => nomatch h
  | no => exact hmatrix (hsame _ _ _) fun _ h => nomatch h
  | mx => exact hmatrix (hsame _ _ _) fun _ h => nomatch h

/-- No two lines are for one function. -/
theorem cnntBlocks_unique {c d : CnntPad × String} (hc : c ∈ cnntBlocks) (hd : d ∈ cnntBlocks)
    (h : d.1.func = c.1.func) : d = c := by
  unfold cnntBlocks cnntPads at hc hd
  simp only [List.zip_cons_cons, List.zip_nil_left, List.mem_cons, List.not_mem_nil, or_false]
    at hc hd
  rcases hc with rfl | rfl <;> rcases hd with rfl | rfl
  · rfl
  · exact absurd h (by decide)
  · exact absurd h (by decide)
  · rfl

theorem cnntBlock_of_matches (r : Regs) {q func : Nat} {c : CnntPad × String} (hc : c ∈ cnntBlocks)
    (h : c.1.Matches q func) :
    cnntBlock r q func = if r.cnnt &&& c.1.sel ≠ 0#32 then some c.2 else none := by
  have hthis {d : CnntPad × String} (hd : d ∈ cnntBlocks)
      (hp : (decide (d.1.Matches q func) && decide (r.cnnt &&& d.1.sel ≠ 0#32)) = true) :
      d = c ∧ r.cnnt &&& d.1.sel ≠ 0#32 := by
    rw [Bool.and_eq_true, decide_eq_true_eq, decide_eq_true_eq] at hp
    exact ⟨cnntBlocks_unique hc hd (hp.1.2.2.symm.trans h.2.2), hp.2⟩
  unfold cnntBlock
  cases hfind : cnntBlocks.find? fun d => d.1.Matches q func && r.cnnt &&& d.1.sel ≠ 0#32 with
  | none =>
    have hno := List.find?_eq_none.mp hfind c hc
    rw [decide_eq_true h, Bool.true_and, decide_eq_true_eq] at hno
    rw [if_neg hno]
    rfl
  | some d =>
    have hp := List.find?_some hfind
    obtain ⟨rfl, hbit⟩ := hthis (List.mem_of_find?_eq_some hfind) hp
    rw [if_pos hbit]
    rfl

/-- The block of a function: as before, or none before and the one that the mode selects. -/
theorem cnntBlock_setPin (r : Regs) (pin : Nat) (mode : Mode) (pull : Pull) (high : Bool)
    (q func : Nat) : cnntBlock (setPin r pin mode pull high) q func = cnntBlock r q func ∨
      cnntBlock r q func = none ∧ ∃ block, SelectsBlock pin mode q func block ∧
        cnntBlock (setPin r pin mode pull high) q func = some block := by
  by_cases hany : ∃ c ∈ cnntBlocks, c.1.Matches q func
  · obtain ⟨c, hc, hm⟩ := hany
    have hline := setPin_cnnt r pin mode pull high (List.of_mem_zip (a := c.1) (b := c.2) hc).1
    rw [cnntBlock_of_matches _ hc hm, cnntBlock_of_matches _ hc hm]
    by_cases hbefore : r.cnnt &&& c.1.sel ≠ 0#32
    · rw [if_pos hbefore, if_pos (hline.mpr (Or.inl hbefore))]
      exact Or.inl rfl
    · by_cases hafter : (setPin r pin mode pull high).cnnt &&& c.1.sel ≠ 0#32
      · obtain ⟨g, hg, hmatch⟩ := (hline.mp hafter).resolve_left hbefore
        rw [if_neg hbefore, if_pos hafter]
        exact Or.inr ⟨rfl, c.2, ⟨g, hg, c, hc, hmatch, hm, rfl⟩, rfl⟩
      · rw [if_neg hbefore, if_neg hafter]
        exact Or.inl rfl
  · have hnone (t : Regs) : cnntBlock t q func = none := by
      unfold cnntBlock
      rw [List.find?_eq_none.mpr, Option.map_none]
      intro c hc hm
      rw [Bool.and_eq_true, decide_eq_true_eq] at hm
      exact hany ⟨c, hc, hm.1⟩
    rw [hnone, hnone]
    exact Or.inl rfl

/-- The text of another pin: as before, but for the name of a block. -/
theorem funcText_other {r : Regs} {pin q : Nat} (hpin : pin < npins) (hq : q < npins)
    (hne : q ≠ pin) (mode : Mode) (pull : Pull) (high : Bool) :
    funcText (setPin r pin mode pull high) q = funcText r q ∨
      ∃ func block, SelectsBlock pin mode q func block ∧ funcText r q = .iomux func none ∧
        funcText (setPin r pin mode pull high) q = .iomux func (some block) := by
  have honly := setPin_only (r := r) hpin mode pull high
  have hother := honly.other q hq hne
  have hsignals : matrixSignals (setPin r pin mode pull high) q = matrixSignals r q := by
    rw [matrixSignals_eq, matrixSignals_eq, hother.outSel, inputRouted_congr honly.fixed]
  have hins : ((List.range nsigs).filter fun sig =>
      let sel := gpioRd (setPin r pin mode pull high) (gpioInSel sig)
      sel &&& inSelMatrix ≠ 0#32 && (sel &&& inSelPin).toNat = q) =
      (List.range nsigs).filter fun sig =>
        let sel := gpioRd r (gpioInSel sig)
        sel &&& inSelMatrix ≠ 0#32 && (sel &&& inSelPin).toNat = q := by
    refine List.filter_congr fun sig hsig => ?_
    rw [honly.fixed.inSels sig (List.mem_range.mp hsig)]
  unfold funcText
  rw [hins]
  simp only [hother.iomux, hother.outSel, hother.enable, hsignals]
  by_cases hfunc : ((r.iomux q &&& iomuxMcuMask) >>> 12).toNat ≠ funcGpio
  · rw [if_pos hfunc, if_pos hfunc]
    rcases cnntBlock_setPin r pin mode pull high q ((r.iomux q &&& iomuxMcuMask) >>> 12).toNat with
      hsame | ⟨hnone, block, hsel, hsome⟩
    · rw [hsame]
      exact Or.inl rfl
    · rw [hnone, hsome]
      exact Or.inr ⟨_, block, hsel, rfl, rfl⟩
  · rw [if_neg hfunc, if_neg hfunc]
    exact Or.inl rfl

/-- **Set, then get.** The pin reads back with its pull, its OUT bit and its mode (`readBack`);
every other pin reads back as before in all fields, and in the text of its function but for a block
that CNNT selects for the mode; the hardware and a snapshot end up with the same registers; and
`do_gpio_set`, which sets the level first, leaves these registers too. -/
theorem set_get (r : Regs) {pin : Nat} (hpin : pinExists pin = true) (mode : Mode) (pull : Pull)
    (high : Bool) : let r' := setPin r pin mode pull high
    (pinGet r' pin).pull = pull ∧ (pinGet r' pin).out = high ∧
    (pinGet r' pin).mode = readBack r pin mode ∧
    (∀ q < npins, q ≠ pin → pinGet r' q = pinGet r q ∧ (funcText r' q = funcText r q ∨
      ∃ func block, SelectsBlock pin mode q func block ∧ funcText r q = .iomux func none ∧
        funcText r' q = .iomux func (some block))) ∧
    (∀ live, setPin { r with live := live } pin mode pull high = { r' with live := live }) ∧
    setWrites ⟨some high, some mode, some pull⟩ r pin = r' := by
  have hlt : pin < npins := by
    unfold pinExists at hpin
    simp only [Bool.and_eq_true, decide_eq_true_eq] at hpin
    exact hpin.1.1
  obtain ⟨hio, -, -⟩ := pinSetOut_mode (r := pinSetPull (pinSetMode r pin mode) pin pull) hlt high
  obtain ⟨-, -, hpull⟩ := pinSetPull_iomux (pinSetMode r pin mode) pin pull
  refine ⟨?_, ?_, setPin_mode hlt mode pull high, ?_, ?_, setWrites_eq_setPin r pin mode pull high⟩
  · have hio' : (setPin r pin mode pull high).iomux pin = _ := congrFun hio pin
    unfold pinGet
    rw [hio']
    exact hpull
  · exact gpioBit_w1_self _ pin outRegs high
  · intro q hq hne
    exact ⟨setPin_other hlt hq hne mode pull high, funcText_other hlt hq hne mode pull high⟩
  · intro live
    exact setPin_backend r pin live mode pull high

/-- The clock of the SD host with a pull-up, on a page of zeros. -/
theorem set_get_sdhost :
    let r' := setPin ⟨true, fun _ => 0#32, fun _ => 0#32, 0#32⟩ 25 (.alt 4) ⟨true, false⟩ true
    (pinGet r' 25).pull = ⟨true, false⟩ ∧ (pinGet r' 25).out = true ∧
      (pinGet r' 25).mode = .alt 4 := by
  have hpin : pinExists 25 = true := by decide
  have h := set_get ⟨true, fun _ => 0#32, fun _ => 0#32, 0#32⟩ hpin (.alt 4) ⟨true, false⟩ true
  exact ⟨h.1, h.2.1, h.2.2.1⟩

end Esp32S31.Pinctrl
