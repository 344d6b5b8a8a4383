import Mathlib.Logic.Function.Basic
import Esp32S31.Lib.Word

/-!
# The pin registers and the state of a pin

`esp32s31.c` and `esp32s31.h` of the tool `pinctrl`: the page of the IO MUX, the page of the GPIO
matrix and the CNNT word. They are the hardware (`live`) or a snapshot, where a store is only a
store; the hardware has a W1TS and a W1TC word behind OUT and ENABLE of each bank.
-/

namespace Esp32S31.Pinctrl

open Esp32S31.Lib

abbrev npins : Nat := 62
def nsigs : Nat := 256
abbrev nfuncs : Nat := 5
def pageWords : Nat := 1024

def iomuxWpd : U32 := 1#32 <<< 7
def iomuxWpu : U32 := 1#32 <<< 8
def iomuxIe : U32 := 1#32 <<< 9
def iomuxDrvMask : U32 := 3#32 <<< 10
def iomuxMcuMask : U32 := 7#32 <<< 12
def funcGpio : Nat := 1

def gpioOut : Nat := 0x04
def gpioOut1 : Nat := 0x10
def gpioEnable : Nat := 0x34
def gpioEnable1 : Nat := 0x40
def gpioW1ts : Nat := 4
def gpioW1tc : Nat := 8
def gpioIn : Nat := 0x64
def gpioIn1 : Nat := 0x68
def gpioStatus : Nat := 0x74
def gpioStatus1 : Nat := 0x80
def gpioPin (n : Nat) : Nat := 0xf4 + 4 * n
def gpioInSel (s : Nat) : Nat := 0x2f4 + 4 * s
def gpioOutSel (n : Nat) : Nat := 0xaf4 + 4 * n

def pinPadDriver : U32 := 1#32 <<< 2
def pinIntTypeMask : U32 := 7#32 <<< 7
def pinIntEnaMask : U32 := 0xf#32 <<< 13
def inSelPin : U32 := 0xff#32
def inSelMatrix : U32 := 1#32 <<< 9
def outSelSig : U32 := 0x1ff#32
def sigGpioOut : U32 := 256#32

/-- The words of a page, by index. -/
abbrev Page := Nat → U32

/-- `struct regs`: the hardware or a snapshot. -/
structure Regs where
  live : Bool
  iomux : Page
  gpio : Page
  cnnt : U32

/-- The registers that have a W1TS and a W1TC word. -/
def w1Bases : List Nat := [gpioOut, gpioOut1, gpioEnable, gpioEnable1]

/-- A store to the GPIO page: the hardware sets or clears bits for a W1TS or W1TC word. -/
def Regs.store (r : Regs) (i : Nat) (val : U32) : Regs :=
  match w1Bases.find? fun base =>
    r.live && ((base + gpioW1ts) / 4 = i || (base + gpioW1tc) / 4 = i) with
  | some base =>
    let old := r.gpio (base / 4)
    let new := if (base + gpioW1ts) / 4 = i then old ||| val else old &&& ~~~val
    { r with gpio := Function.update r.gpio (base / 4) new }
  | none => { r with gpio := Function.update r.gpio i val }

/-- `w1`: `live_w1` and `snap_w1`. -/
def Regs.w1 (r : Regs) (base : Nat) (mask : U32) (set : Bool) : Regs :=
  if r.live then r.store ((base + if set then gpioW1ts else gpioW1tc) / 4) mask
  else
    let old := r.gpio (base / 4)
    { r with gpio := Function.update r.gpio (base / 4) (if set then old ||| mask
      else old &&& ~~~mask) }

/-- `gpio_rd`, `gpio_wr`. -/
def gpioRd (r : Regs) (off : Nat) : U32 := r.gpio (off / 4)
def gpioWr (r : Regs) (off : Nat) (val : U32) : Regs := r.store (off / 4) val

/-- `bank`: bank 1 has pins 32 and higher. -/
def bank (pin reg0 reg1 : Nat) : Nat := if pin < 32 then reg0 else reg1

/-- `gpio_bit`. -/
def gpioBit (r : Regs) (pin reg0 reg1 : Nat) : Bool := (gpioRd r (bank pin reg0 reg1)).getLsbD
    (pin % 32)

/-- `gpio_w1`. -/
def gpioW1 (r : Regs) (pin reg0 reg1 : Nat) (set : Bool) : Regs :=
  r.w1 (bank pin reg0 reg1) (1#32 <<< (pin % 32)) set

/-! ## The state of a pin -/

/-- `enum mode`: the functions `a0` to `a4`, input, output, none, matrix. -/
inductive Mode where
  | alt (func : Fin nfuncs)
  | ip
  | op
  | no
  | mx
  deriving DecidableEq

/-- `enum pull`. -/
structure Pull where
  up : Bool
  down : Bool
  deriving DecidableEq

/-- `struct pin_state`, without the text of the function. -/
structure PinState where
  mode : Mode
  pull : Pull
  out : Bool
  level : Option Bool
  driveMa : Nat
  openDrain : Bool
  intType : Nat
  intLines : Nat
  intPending : Bool

/-- A line of `cnnt_pads`. -/
structure CnntPad where
  first : Nat
  last : Nat
  func : Nat
  sel : U32

/-- `cnnt_pads`: the IO MUX function of these pads also needs a select bit. -/
def cnntPads : List CnntPad := [⟨13, 19, 2, 1#32 <<< 1⟩, ⟨20, 25, 4, 1#32 <<< 0⟩]

/-- The line is for the function `func` of the pin. -/
def CnntPad.Matches (c : CnntPad) (pin func : Nat) : Prop := c.first ≤ pin ∧ pin ≤ c.last ∧
    func = c.func

instance (c : CnntPad) (pin func : Nat) : Decidable (c.Matches pin func) :=
  inferInstanceAs (Decidable (_ ∧ _))

/-- `pin_exists`: `iomux_funcs` has no line for 29 and 41. -/
def pinExists (pin : Nat) : Bool := pin < npins && pin ≠ 29 && pin ≠ 41

/-- `pin_is_flash`. -/
def pinIsFlash (pin : Nat) : Bool := 26 ≤ pin && pin ≤ 32

/-- `pin_is_strapping`. -/
def pinIsStrapping (pin : Nat) : Bool := pin = 36 || pin = 37 || pin = 60 || pin = 61

/-- `drive_ma`. -/
def driveMa : List Nat := [5, 10, 20, 40]

/-- `pin_level`: none with the input off. -/
def pinLevel (r : Regs) (pin : Nat) : Option Bool :=
  if r.iomux pin &&& iomuxIe = 0#32 then none else some (gpioBit r pin gpioIn gpioIn1)

/-- `matrix_signals`: a signal of the matrix is on the pin. -/
def matrixSignals (r : Regs) (pin : Nat) : Bool :=
  gpioRd r (gpioOutSel pin) &&& outSelSig ≠ sigGpioOut ||
    (List.range nsigs).any fun sig =>
      let sel := gpioRd r (gpioInSel sig)
      sel &&& inSelMatrix ≠ 0#32 && (sel &&& inSelPin).toNat = pin

/-- `pin_get`. -/
def pinGet (r : Regs) (pin : Nat) : PinState :=
  let mux := r.iomux pin
  let pad := gpioRd r (gpioPin pin)
  let func := ((mux &&& iomuxMcuMask) >>> 12).toNat
  let mode :=
    if func ≠ funcGpio then (if h : func < nfuncs then .alt ⟨func, h⟩ else .no)
    else if matrixSignals r pin then .mx
    else if gpioBit r pin gpioEnable gpioEnable1 then .op
    else if mux &&& iomuxIe ≠ 0#32 then .ip
    else .no
  { mode
    pull := ⟨mux &&& iomuxWpu ≠ 0#32, mux &&& iomuxWpd ≠ 0#32⟩
    out := gpioBit r pin gpioOut gpioOut1
    level := pinLevel r pin
    driveMa := driveMa.getD ((mux &&& iomuxDrvMask) >>> 10).toNat 0
    openDrain := pad &&& pinPadDriver ≠ 0#32
    intType := ((pad &&& pinIntTypeMask) >>> 7).toNat
    intLines := ((pad &&& pinIntEnaMask) >>> 13).toNat
    intPending := gpioBit r pin gpioStatus gpioStatus1 }

/-! ## Changes -/

/-- `iomux_update`. -/
def iomuxUpdate (r : Regs) (pin : Nat) (clr set : U32) : Regs :=
  { r with iomux := Function.update r.iomux pin (r.iomux pin &&& ~~~clr ||| set) }

/-- `cnnt_select`. -/
def cnntSelect (r : Regs) (pin func : Nat) : Regs :=
  cnntPads.foldl (fun r c => if c.Matches pin func then { r with cnnt := r.cnnt ||| c.sel }
    else r) r

/-- `pin_set_mode`: input, output and none use the GPIO registers through the matrix. -/
def pinSetMode (r : Regs) (pin : Nat) (mode : Mode) : Regs :=
  match mode with
  | .alt func =>
    let r := cnntSelect r pin func
    iomuxUpdate r pin iomuxMcuMask (BitVec.ofNat 32 func <<< 12 ||| iomuxIe)
  | _ =>
    let r := gpioWr r (gpioOutSel pin) sigGpioOut
    let r := gpioW1 r pin gpioEnable gpioEnable1 (mode = .op)
    iomuxUpdate r pin (iomuxMcuMask ||| iomuxIe)
      (BitVec.ofNat 32 funcGpio <<< 12 ||| if mode = .no then 0#32 else iomuxIe)

/-- `pin_set_pull`. -/
def pinSetPull (r : Regs) (pin : Nat) (pull : Pull) : Regs :=
  iomuxUpdate r pin (iomuxWpu ||| iomuxWpd)
    ((if pull.up then iomuxWpu else 0#32) ||| if pull.down then iomuxWpd else 0#32)

/-- `pin_set_out`. -/
def pinSetOut (r : Regs) (pin : Nat) (high : Bool) : Regs := gpioW1 r pin gpioOut gpioOut1 high

end Esp32S31.Pinctrl
