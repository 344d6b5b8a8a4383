import Esp32S31.Pinctrl.Driver
import Esp32S31.Pinctrl.Readback

/-!
# The tool and the driver on one pin

`pinctrl set` writes the registers behind the back of the driver, and should leave them as the
driver does. `Regs.hw` are the registers of the tool as the driver has them; each access of the
driver is a function of the tool on them (`exec_writeBit`, `exec_outSel`, `run_cnntSelect`).

**`tool_agrees`**: `ip` is a request and `direction_input`, `op` with a level a request and
`direction_output`, and `aK` is `esp32s31_mux_one` with the function `K`, with the input on; and
`pin_get` reports what the driver has set up. `muxed_not_a1`: the function 1 without a signal is
reported as what the enable bits say.
-/

namespace Esp32S31.Pinctrl

open Esp32S31.Lib

/-- The registers as the driver has them. -/
def Regs.hw (r : Regs) : Kernel.Hw := ⟨r.iomux, r.gpio, r.cnnt⟩

/-- The hardware as the tool has it. -/
def Kernel.Hw.regs (h : Kernel.Hw) : Regs := ⟨true, h.iomux, h.gpio, h.cnnt⟩

/-- Accesses one after the other. -/
def Kernel.Hw.run (h : Kernel.Hw) (accesses : List Kernel.Access) : Kernel.Hw :=
  accesses.foldl Kernel.Access.exec h

/-! ## The accesses of the driver -/

section Accesses

variable (r : Regs) (pin : Nat)

/-- A W1TS or W1TC word. -/
theorem exec_writeBit {reg0 reg1 : Nat} (h : BitRegs reg0 reg1) (set : Bool) :
    (Kernel.writeBit pin (reg0 + if set then gpioW1ts else gpioW1tc)
      (reg1 + if set then gpioW1ts else gpioW1tc)).exec r.hw = (gpioW1 r pin reg0 reg1 set).hw := by
  rw [gpioW1_eq r pin h]
  unfold Kernel.writeBit bank
  rcases h with ⟨rfl, rfl⟩ | ⟨rfl, rfl⟩ <;> cases set <;> split <;> rfl

/-- A word behind the W1TS and W1TC words. -/
theorem write_word (h : Kernel.Hw) {off : Nat} (hoff : 0xf4 ≤ off) (x : U32) :
    h.write off x = { h with gpio := Function.update h.gpio (off / 4) x } := by
  have hnone : (Kernel.w1Bases.find? fun base =>
      base + gpioW1ts = off || base + gpioW1tc = off) = none := by
    rw [List.find?_eq_none]
    intro base hbase
    have hle : base ≤ 0x80 := by
      revert base
      decide
    have h1 : base + gpioW1ts ≠ off := by
      unfold gpioW1ts
      omega
    have h2 : base + gpioW1tc ≠ off := by
      unfold gpioW1tc
      omega
    simp [h1, h2]
  unfold Kernel.Hw.write
  rw [hnone]

theorem exec_outSel (x : U32) :
    (Kernel.Access.write (gpioOutSel pin) x).exec r.hw = (gpioWr r (gpioOutSel pin) x).hw := by
  rw [gpioWr_outSel]
  exact write_word r.hw (by unfold gpioOutSel; omega) x

theorem run_cnntSelect (func : Nat) :
    r.hw.run (Kernel.cnntSelect pin func) = (cnntSelect r pin func).hw := by
  unfold Kernel.Hw.run Kernel.cnntSelect cnntSelect
  generalize cnntPads = pads
  induction pads generalizing r with
  | nil => rfl
  | cons c pads ih =>
    rw [List.foldl_cons, ← ih]
    by_cases h : c.Matches pin func
    · rw [List.filter_cons_of_pos (by simpa using h), if_pos h]
      rfl
    · rw [List.filter_cons_of_neg (by simpa using h), if_neg h]

end Accesses

/-! ## Input and output -/

section Direction

variable (r : Regs) (pin : Nat)

/-- The bits of a field may be set without clearing them first. -/
theorem rmw_or_cleared (w clr s t : U32) : w &&& ~~~clr ||| (s ||| t) =
    w &&& ~~~(clr ||| t) ||| (s ||| t) := by
  apply BitVec.eq_of_getLsbD_eq
  intro i hi
  simp only [BitVec.getLsbD_and, BitVec.getLsbD_or, BitVec.getLsbD_not, hi, decide_true,
    Bool.true_and]
  cases w.getLsbD i <;> cases clr.getLsbD i <;> cases t.getLsbD i <;> simp

/-- A bit that is cleared and then written is as if it was only written. -/
theorem bit_cleared (x b : U32) (set : Bool) :
    (if set then x &&& ~~~b ||| b else x &&& ~~~b &&& ~~~b) =
      if set then x ||| b else x &&& ~~~b := by
  cases set with
  | true =>
    apply BitVec.eq_of_getLsbD_eq
    intro i hi
    simp only [if_true, BitVec.getLsbD_and, BitVec.getLsbD_or, BitVec.getLsbD_not, hi, decide_true,
      Bool.true_and]
    cases x.getLsbD i <;> cases b.getLsbD i <;> simp
  | false =>
    simp only [Bool.false_eq_true, if_false, BitVec.and_assoc, BitVec.and_self]

/-- The registers of a request. -/
def requested (r : Regs) (pin : Nat) : Regs :=
  iomuxUpdate (gpioWr (gpioW1 r pin gpioEnable gpioEnable1 false) (gpioOutSel pin) sigGpioOut) pin
    iomuxMcuMask (BitVec.ofNat 32 funcGpio <<< 12 ||| iomuxIe)

theorem run_request : r.hw.run (Kernel.gpioRequestEnable pin).1 = (requested r pin).hw := by
  have hen : (Kernel.writeBit pin (gpioEnable + gpioW1tc) (gpioEnable1 + gpioW1tc)).exec r.hw =
      (gpioW1 r pin gpioEnable gpioEnable1 false).hw := exec_writeBit r pin enableRegs false
  unfold Kernel.gpioRequestEnable Kernel.Hw.run
  simp only [List.foldl_cons, List.foldl_nil, hen, exec_outSel]
  rfl

theorem run_input : r.hw.run (Kernel.gpioDirectionInput pin).1 =
    (gpioW1 r pin gpioEnable gpioEnable1 false).hw := exec_writeBit r pin enableRegs false

theorem run_output (high : Bool) : r.hw.run (Kernel.gpioDirectionOutput pin high).1 =
    (gpioW1 (pinSetOut r pin high) pin gpioEnable gpioEnable1 true).hw := by
  have hout : r.hw.run (Kernel.gpioSet pin high).1 = (pinSetOut r pin high).hw := by
    cases high with
    | true => exact exec_writeBit r pin outRegs true
    | false => exact exec_writeBit r pin outRegs false
  have hen := exec_writeBit (pinSetOut r pin high) pin enableRegs true
  unfold Kernel.gpioDirectionOutput Kernel.Hw.run
  rw [List.foldl_append]
  unfold Kernel.Hw.run at hout
  rw [hout]
  exact hen

/-- The output driver is switched after a request as `pin_set_mode` does it. -/
theorem requested_enable (en : Bool) : gpioW1 (requested r pin) pin gpioEnable gpioEnable1 en =
    pinSetMode r pin (if en then .op else .ip) := by
  obtain ⟨-, -, hse⟩ := words_ne pin
  have hmode : pinSetMode r pin (if en then .op else .ip) =
      iomuxUpdate (gpioW1 (gpioWr r (gpioOutSel pin) sigGpioOut) pin gpioEnable gpioEnable1 en) pin
        (iomuxMcuMask ||| iomuxIe) (BitVec.ofNat 32 funcGpio <<< 12 ||| iomuxIe) := by
    cases en <;> rfl
  rw [hmode]
  unfold requested
  simp only [gpioWr_outSel, gpioW1_eq _ pin enableRegs, iomuxUpdate]
  rw [rmw_or_cleared, Function.update_comm hse.symm]
  simp only [Function.update_of_ne hse.symm, Function.update_self, Function.update_idem]
  simp only [Bool.false_eq_true, if_false, bit_cleared]

/-- The level may be set before the output driver is on. -/
theorem pinSetOut_enable (high en : Bool) :
    gpioW1 (pinSetOut r pin high) pin gpioEnable gpioEnable1 en =
      pinSetOut (gpioW1 r pin gpioEnable gpioEnable1 en) pin high := by
  obtain ⟨heo, -, -⟩ := words_ne pin
  unfold pinSetOut
  simp only [gpioW1_eq _ pin enableRegs, gpioW1_eq _ pin outRegs]
  rw [Function.update_of_ne heo, Function.update_of_ne heo.symm, Function.update_comm heo.symm]

theorem run_append (h : Kernel.Hw) (as bs : List Kernel.Access) :
    h.run (as ++ bs) = (h.run as).run bs := List.foldl_append

/-- **`set ip`** is a request and `direction_input`. -/
theorem run_ip : r.hw.run ((Kernel.gpioRequestEnable pin).1 ++ (Kernel.gpioDirectionInput pin).1) =
    (pinSetMode r pin .ip).hw := by
  rw [run_append, run_request, run_input, requested_enable]
  rfl

/-- **`set op`** with a level is a request and `direction_output`. -/
theorem run_op (high : Bool) : r.hw.run ((Kernel.gpioRequestEnable pin).1 ++
    (Kernel.gpioDirectionOutput pin high).1) = (pinSetMode (pinSetOut r pin high) pin .op).hw := by
  rw [run_append, run_request, run_output, pinSetOut_enable, requested_enable,
    ← pinSetOut_pinSetMode]
  rfl

end Direction

/-! ## A function -/

section Mux

/-- `FIELD_GET(ESP32S31_MUX_FUNC, mux)`. -/
def muxFunc (mux : U32) : Nat := ((mux >>> 11) &&& 7#32).toNat

/-- The signal of a `pinmux` cell, and whether it is connected to the pin. -/
def muxSig (mux : U32) : Nat := (mux &&& 0x1ff#32).toNat
def muxIn (mux : U32) : Bool := mux.getLsbD 9
def muxOut (mux : U32) : Bool := mux.getLsbD 10

/-- The IN_SEL and OUT_SEL words that `esp32s31_mux_one` writes. -/
def routed (r : Regs) (pin : Nat) (mux : U32) : Regs :=
  let inSel := if muxFunc mux = funcGpio then inSelMatrix ||| BitVec.ofNat 32 pin
    else Kernel.inSelIomux
  let r := if muxIn mux then { r with
    gpio := Function.update r.gpio (gpioInSel (muxSig mux) / 4) inSel } else r
  if muxOut mux then { r with
    gpio := Function.update r.gpio (gpioOutSel pin / 4) (BitVec.ofNat 32 (muxSig mux)) } else r

/-- The registers after `esp32s31_mux_one`. -/
def muxed (r : Regs) (pin : Nat) (mux : U32) : Regs :=
  cnntSelect (iomuxUpdate (routed r pin mux) pin iomuxMcuMask
    (if muxIn mux then BitVec.ofNat 32 (muxFunc mux) <<< 12 ||| iomuxIe
      else BitVec.ofNat 32 (muxFunc mux) <<< 12)) pin (muxFunc mux)

variable {r : Regs} {pin : Nat} {mux : U32}

/-- A cell that is accepted. -/
theorem muxOne_ok (h : (Kernel.muxOne pin mux).2 = 0) : pin < npins ∧ muxSig mux < nsigs := by
  unfold Kernel.muxOne at h
  dsimp only at h
  split at h
  · exact absurd h (by decide)
  · next hok =>
    rw [not_or] at hok
    exact ⟨Nat.not_le.mp hok.1, Nat.not_le.mp hok.2⟩

theorem run_muxOne (h : (Kernel.muxOne pin mux).2 = 0) :
    r.hw.run (Kernel.muxOne pin mux).1 = (muxed r pin mux).hw := by
  obtain ⟨hpin, hsig⟩ := muxOne_ok h
  have hwrite (c : Bool) (t : Regs) {off : Nat} (hoff : 0xf4 ≤ off) (x : U32) :
      t.hw.run (if c then [.write off x] else []) =
        (if c then { t with gpio := Function.update t.gpio (off / 4) x } else t).hw := by
    cases c with
    | true => exact write_word t.hw hoff x
    | false => rfl
  have hok : ¬ (pin ≥ npins ∨ muxSig mux ≥ nsigs) := by
    rw [not_or]
    exact ⟨Nat.not_le.mpr hpin, Nat.not_le.mpr hsig⟩
  have hlist : (Kernel.muxOne pin mux).1 =
      (if muxIn mux then [.write (gpioInSel (muxSig mux)) (if muxFunc mux = funcGpio
        then inSelMatrix ||| BitVec.ofNat 32 pin else Kernel.inSelIomux)] else []) ++
      (if muxOut mux then [.write (gpioOutSel pin) (BitVec.ofNat 32 (muxSig mux))] else []) ++
      [.iomuxRmw pin iomuxMcuMask (if muxIn mux then
        BitVec.ofNat 32 (muxFunc mux) <<< 12 ||| iomuxIe
        else BitVec.ofNat 32 (muxFunc mux) <<< 12)] ++ Kernel.cnntSelect pin (muxFunc mux) :=
    congrArg Prod.fst (if_neg hok)
  rw [hlist, run_append, run_append, run_append, hwrite _ _ (by unfold gpioInSel; omega),
    hwrite _ _ (by unfold gpioOutSel; omega)]
  exact run_cnntSelect (iomuxUpdate (routed r pin mux) pin iomuxMcuMask _) pin (muxFunc mux)

/-- The IO MUX and CNNT are not part of the routing. -/
theorem routed_same (r : Regs) (pin : Nat) (mux : U32) :
    (routed r pin mux).iomux = r.iomux ∧ (routed r pin mux).cnnt = r.cnnt := by
  unfold routed
  cases muxIn mux <;> cases muxOut mux <;> exact ⟨rfl, rfl⟩

/-- The IO MUX word: the function, and the input on for an input signal. -/
theorem muxed_iomux (r : Regs) (pin : Nat) (mux : U32) : (muxed r pin mux).iomux pin =
    r.iomux pin &&& ~~~iomuxMcuMask ||| (if muxIn mux then
      BitVec.ofNat 32 (muxFunc mux) <<< 12 ||| iomuxIe
      else BitVec.ofNat 32 (muxFunc mux) <<< 12) := by
  unfold muxed
  rw [(cnntSelect_only _ pin _).1, iomuxUpdate_self, (routed_same r pin mux).1]

theorem muxed_cnnt (r : Regs) (pin : Nat) (mux : U32) :
    (muxed r pin mux).cnnt = (cnntSelect r pin (muxFunc mux)).cnnt := by
  apply BitVec.eq_of_getLsbD_eq
  intro i _
  unfold muxed
  rw [Bool.eq_iff_iff, cnntSelect_bits, cnntSelect_bits]
  show (routed r pin mux).cnnt.getLsbD i = true ∨ _ ↔ _
  rw [(routed_same r pin mux).2]

/-- The GPIO page is that of the routing. -/
theorem gpioRd_muxed (r : Regs) (pin : Nat) (mux : U32) (off : Nat) :
    gpioRd (muxed r pin mux) off = gpioRd (routed r pin mux) off :=
  congrFun (cnntSelect_only _ pin _).2 (off / 4)

/-- The output driver is left alone. -/
theorem muxed_enable (r : Regs) (pin : Nat) (mux : U32) :
    gpioBit (muxed r pin mux) pin gpioEnable gpioEnable1 =
      gpioBit r pin gpioEnable gpioEnable1 := by
  have hin : bank pin gpioEnable gpioEnable1 / 4 ≠ gpioInSel (muxSig mux) / 4 := by
    unfold bank gpioEnable gpioEnable1 gpioInSel
    split <;> omega
  have hout : bank pin gpioEnable gpioEnable1 / 4 ≠ gpioOutSel pin / 4 := (words_ne pin).2.2.symm
  unfold gpioBit
  rw [gpioRd_muxed]
  unfold routed gpioRd
  cases muxIn mux <;> cases muxOut mux <;>
    simp [Function.update_of_ne hin, Function.update_of_ne hout]

/-- The signal of an accepted cell is on the pin. -/
theorem muxed_signals (r : Regs) (hpin : pin < npins) (hsig : muxSig mux < nsigs)
    (hfunc : muxFunc mux = funcGpio) (h : muxIn mux = true ∨ muxOut mux = true) :
    matrixSignals (muxed r pin mux) pin = true := by
  rw [matrixSignals_eq, Bool.or_eq_true, decide_eq_true_eq]
  by_cases hout : muxOut mux = true
  · have hsel : gpioRd (muxed r pin mux) (gpioOutSel pin) = BitVec.ofNat 32 (muxSig mux) := by
      rw [gpioRd_muxed]
      unfold routed gpioRd
      rw [if_pos hout]
      exact Function.update_self _ _ _
    refine Or.inl ?_
    rw [hsel]
    intro heq
    have hnat := congrArg BitVec.toNat heq
    have hmask : outSelSig.toNat = 2 ^ 9 - 1 := rfl
    have hgpio : sigGpioOut.toNat = 256 := rfl
    unfold nsigs at hsig
    rw [BitVec.toNat_and, BitVec.toNat_ofNat, hmask, Nat.and_two_pow_sub_one_eq_mod, hgpio] at hnat
    omega
  · have hin := h.resolve_right hout
    refine Or.inr ?_
    unfold inputRouted
    rw [List.any_eq_true]
    refine ⟨muxSig mux, List.mem_range.mpr hsig, ?_⟩
    have hsel : gpioRd (muxed r pin mux) (gpioInSel (muxSig mux)) =
        inSelMatrix ||| BitVec.ofNat 32 pin := by
      rw [gpioRd_muxed]
      unfold routed gpioRd
      rw [if_neg hout, if_pos hin, if_pos hfunc]
      exact Function.update_self _ _ _
    have hpins : ∀ p : Fin npins, (inSelMatrix ||| BitVec.ofNat 32 p) &&& inSelMatrix ≠ 0#32 ∧
        ((inSelMatrix ||| BitVec.ofNat 32 p) &&& inSelPin).toNat = p := by
      decide
    obtain ⟨hm, hp⟩ := hpins ⟨pin, hpin⟩
    rw [hsel]
    simp [hm, hp]

/-- The function of the IO MUX word. -/
theorem muxed_func (r : Regs) (pin : Nat) (mux : U32) :
    (((muxed r pin mux).iomux pin &&& iomuxMcuMask) >>> 12).toNat = muxFunc mux := by
  have hlt : muxFunc mux < 8 := by
    have h7 : (7#32).toNat = 2 ^ 3 - 1 := rfl
    unfold muxFunc
    rw [BitVec.toNat_and, h7, Nat.and_two_pow_sub_one_eq_mod]
    exact Nat.mod_lt _ (by decide)
  have hfield : ∀ (f : Fin 8) (input : Bool), (((if input then BitVec.ofNat 32 f <<< 12 ||| iomuxIe
      else BitVec.ofNat 32 f <<< 12) &&& iomuxMcuMask) >>> 12).toNat = f := by
    decide
  rw [muxed_iomux, rmw_cleared (by decide)]
  exact hfield ⟨muxFunc mux, hlt⟩ (muxIn mux)

/-- A function other than 1 is reported as it is. -/
theorem muxed_mode_alt (r : Regs) (pin : Nat) {mux : U32} {func : Fin nfuncs}
    (hfunc : muxFunc mux = func) (hne : func.val ≠ funcGpio) :
    (pinGet (muxed r pin mux) pin).mode = .alt func := by
  unfold pinGet
  simp only [muxed_func, hfunc, if_pos hne, dif_pos func.isLt]

/-- The function 1 is the GPIO matrix. -/
theorem muxed_mode_gpio (hpin : pin < npins) (hsig : muxSig mux < nsigs)
    (hfunc : muxFunc mux = funcGpio) : (pinGet (muxed r pin mux) pin).mode =
      if matrixSignals (muxed r pin mux) pin then .mx
      else if gpioBit r pin gpioEnable gpioEnable1 then .op
      else if r.iomux pin &&& iomuxIe ≠ 0#32 then .ip else .no := by
  have hget : (pinGet (muxed r pin mux) pin).mode =
      if matrixSignals (muxed r pin mux) pin then .mx
      else if gpioBit r pin gpioEnable gpioEnable1 then .op
      else if (muxed r pin mux).iomux pin &&& iomuxIe ≠ 0#32 then .ip else .no := by
    unfold pinGet
    simp only [muxed_func, muxed_enable, hfunc]
    rfl
  rw [hget]
  by_cases hconn : matrixSignals (muxed r pin mux) pin = true
  · rw [if_pos hconn, if_pos hconn]
  · -- without an input signal the input is as before
    have hin : muxIn mux = false := by
      cases h : muxIn mux with
      | false => rfl
      | true => exact absurd (muxed_signals r hpin hsig hfunc (Or.inl h)) hconn
    have hie : (muxed r pin mux).iomux pin &&& iomuxIe = r.iomux pin &&& iomuxIe := by
      rw [muxed_iomux, hin, hfunc]
      exact rmw_kept (by decide) (by decide)
    rw [hie]

/-- What `pin_get` reports after `esp32s31_mux_one`. -/
theorem muxed_mode {func : Fin nfuncs} (hpin : pin < npins) (hsig : muxSig mux < nsigs)
    (hfunc : muxFunc mux = func) : (pinGet (muxed r pin mux) pin).mode =
      if func.val ≠ funcGpio then .alt func
      else if matrixSignals (muxed r pin mux) pin then .mx
      else if gpioBit r pin gpioEnable gpioEnable1 then .op
      else if r.iomux pin &&& iomuxIe ≠ 0#32 then .ip else .no := by
  by_cases hgpio : func.val = funcGpio
  · rw [if_neg (not_not_intro hgpio)]
    exact muxed_mode_gpio hpin hsig (hfunc.trans hgpio)
  · rw [if_pos hgpio]
    exact muxed_mode_alt r pin hfunc hgpio

/-- **`set aK`** leaves the words of `esp32s31_mux_one`, with the input on. -/
theorem setWrites_alt (r : Regs) (pin : Nat) {mux : U32} {func : Fin nfuncs}
    (hfunc : muxFunc mux = func) :
    (setWrites { fsel := some (.alt func) } r pin).iomux pin &&& iomuxMcuMask =
      (muxed r pin mux).iomux pin &&& iomuxMcuMask ∧
    (setWrites { fsel := some (.alt func) } r pin).iomux pin =
      (muxed r pin mux).iomux pin ||| iomuxIe ∧
    (setWrites { fsel := some (.alt func) } r pin).cnnt = (muxed r pin mux).cnnt := by
  have hword : (setWrites { fsel := some (.alt func) } r pin).iomux pin =
      r.iomux pin &&& ~~~iomuxMcuMask ||| (BitVec.ofNat 32 func <<< 12 ||| iomuxIe) := by
    show (iomuxUpdate (cnntSelect r pin func) pin _ _).iomux pin = _
    rw [iomuxUpdate_self, (cnntSelect_only r pin func).1]
  have hfield : ∀ f : Fin nfuncs, (BitVec.ofNat 32 f <<< 12 ||| iomuxIe) &&& iomuxMcuMask =
      (BitVec.ofNat 32 f <<< 12) &&& iomuxMcuMask := by
    decide
  refine ⟨?_, ?_, ?_⟩
  · rw [hword, muxed_iomux, rmw_cleared (by decide), rmw_cleared (by decide), hfunc]
    split
    · rfl
    · exact hfield func
  · rw [hword, muxed_iomux, hfunc]
    split
    · rw [BitVec.or_assoc, BitVec.or_assoc, BitVec.or_self]
    · rw [BitVec.or_assoc]
  · rw [muxed_cnnt, hfunc]
    rfl

end Mux

/-- The registers after a request and `direction_input`. -/
def asInput (r : Regs) (pin : Nat) : Kernel.Hw :=
  r.hw.run ((Kernel.gpioRequestEnable pin).1 ++ (Kernel.gpioDirectionInput pin).1)

/-- The registers after a request and `direction_output`. -/
def asOutput (r : Regs) (pin : Nat) (high : Bool) : Kernel.Hw :=
  r.hw.run ((Kernel.gpioRequestEnable pin).1 ++ (Kernel.gpioDirectionOutput pin high).1)

/-- The registers after `esp32s31_mux_one`. -/
def asMuxed (r : Regs) (pin : Nat) (mux : U32) : Kernel.Hw :=
  r.hw.run (Kernel.muxOne pin mux).1

/-- `pin_get` on the registers that the driver has set up. -/
theorem pinGet_hw (r : Regs) (pin : Nat) : pinGet r.hw.regs pin = pinGet r pin := rfl

theorem matrixSignals_hw (r : Regs) (pin : Nat) :
    matrixSignals r.hw.regs pin = matrixSignals r pin := rfl

/-- **The tool sets a pin as the driver does.** `ip` leaves the registers of a request and
`direction_input`, and `op` with a level those of a request and `direction_output`; `aK` leaves the
IO MUX word of `esp32s31_mux_one` with the function `K`, with the input on, and its CNNT word.
`pin_get` reports what the driver has set up: input or output, and the function `K`, but `mx` for an
input, an output or the function 1 with a signal of the matrix on the pin; the function 1 without
one is what the enable bits say. -/
theorem tool_agrees (r : Regs) {pin : Nat} (hpin : pinExists pin = true) :
    ((setWrites { fsel := some .ip } r pin).hw = asInput r pin ∧
      (pinGet (asInput r pin).regs pin).mode =
        if matrixSignals (asInput r pin).regs pin then .mx else .ip) ∧
    (∀ high, (setWrites { drive := some high, fsel := some .op } r pin).hw = asOutput r pin high ∧
      (pinGet (asOutput r pin high).regs pin).mode =
        if matrixSignals (asOutput r pin high).regs pin then .mx else .op) ∧
    ∀ (func : Fin nfuncs) (mux : U32), muxFunc mux = func → (Kernel.muxOne pin mux).2 = 0 →
      (setWrites { fsel := some (.alt func) } r pin).iomux pin &&& iomuxMcuMask =
        (asMuxed r pin mux).iomux pin &&& iomuxMcuMask ∧
      (setWrites { fsel := some (.alt func) } r pin).iomux pin =
        (asMuxed r pin mux).iomux pin ||| iomuxIe ∧
      (setWrites { fsel := some (.alt func) } r pin).cnnt = (asMuxed r pin mux).cnnt ∧
      (pinGet (asMuxed r pin mux).regs pin).mode =
        if func.val ≠ funcGpio then .alt func
        else if matrixSignals (asMuxed r pin mux).regs pin then .mx
        else if gpioBit r pin gpioEnable gpioEnable1 then .op
        else if r.iomux pin &&& iomuxIe ≠ 0#32 then .ip else .no := by
  have hlt : pin < npins := by
    unfold pinExists at hpin
    simp only [Bool.and_eq_true, decide_eq_true_eq] at hpin
    exact hpin.1.1
  refine ⟨⟨?_, ?_⟩, fun high => ⟨?_, ?_⟩, fun func mux hfunc hok => ?_⟩
  · exact (run_ip r pin).symm
  · unfold asInput
    rw [run_ip, pinGet_hw, matrixSignals_hw, pinSetMode_mode hlt, pinSetMode_signals hlt]
    rfl
  · exact (run_op r pin high).symm
  · unfold asOutput
    rw [run_op, pinGet_hw, matrixSignals_hw, pinSetMode_mode hlt, pinSetMode_signals hlt]
    rfl
  · unfold asMuxed
    rw [run_muxOne hok, pinGet_hw, matrixSignals_hw]
    exact ⟨(setWrites_alt r pin hfunc).1, (setWrites_alt r pin hfunc).2.1,
      (setWrites_alt r pin hfunc).2.2, muxed_mode hlt (muxOne_ok hok).2 hfunc⟩

/-- `tool_agrees` on GPIO 20 with its reset words, and the signal 96 on it as an output. -/
theorem tool_agrees_routed : pinExists 20 = true ∧
    (pinGet (asOutput ⟨true, fun _ => 0#32, fun _ => 96#32, 0#32⟩ 20 true).regs 20).mode =
      (if matrixSignals (asOutput ⟨true, fun _ => 0#32, fun _ => 96#32, 0#32⟩ 20 true).regs 20
        then .mx else .op) ∧
    (pinGet (asMuxed ⟨true, fun _ => 0#32, fun _ => 96#32, 0#32⟩ 20 0xc60#32).regs 20).mode =
      .mx := by
  obtain ⟨-, hout, hmux⟩ := tool_agrees ⟨true, fun _ => 0#32, fun _ => 96#32, 0#32⟩
    (by decide : pinExists 20 = true)
  exact ⟨by decide, (hout true).2, (hmux 1 0xc60#32 (by decide) (by decide)).2.2.2⟩

/-- **The function 1 without a signal.** `esp32s31_mux_one` takes a cell with the function 1 and
no signal, and `pin_get` then reports no mode, not `a1`. -/
theorem muxed_not_a1 : muxFunc (1#32 <<< 11) = 1 ∧ (Kernel.muxOne 5 (1#32 <<< 11)).2 = 0 ∧
    matrixSignals (asMuxed ⟨true, fun _ => 0#32, fun _ => 256#32, 0#32⟩ 5 (1#32 <<< 11)).regs 5 =
      false ∧
    (pinGet (asMuxed ⟨true, fun _ => 0#32, fun _ => 256#32, 0#32⟩ 5 (1#32 <<< 11)).regs 5).mode =
      .no := by
  decide +kernel

end Esp32S31.Pinctrl
