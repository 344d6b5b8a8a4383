import Mathlib.Data.List.Basic
import Esp32S31.Lib.Machine
import Esp32S31.Pinctrl.Registers

/-!
# The pin driver of Linux

`pinctrl-esp32s31.c`: each operation is a list of accesses to the registers and a return value. An
access is a read, a write, or a read-modify-write under the driver lock, and the calls of the kernel
run one access at a time in any order (`driver`). The hardware keeps the status bits of the pins and
gives each interrupt line of a bank the pending pins that are enabled on it.
-/

namespace Esp32S31.Pinctrl.Kernel

open Esp32S31.Lib

/-! ## The hardware -/

/-- The registers of the driver; the words by index. -/
structure Hw where
  iomux : Page
  gpio : Page
  cnnt : U32

/-- The registers that have a W1TS and a W1TC word behind them: also the status of each bank. -/
def w1Bases : List Nat := [gpioOut, gpioOut1, gpioEnable, gpioEnable1, gpioStatus, gpioStatus1]

/-- A write to the GPIO page. -/
def Hw.write (h : Hw) (off : Nat) (val : U32) : Hw :=
  match w1Bases.find? fun base => base + gpioW1ts = off || base + gpioW1tc = off with
  | some base =>
    let old := h.gpio (base / 4)
    let new := if base + gpioW1ts = off then old ||| val else old &&& ~~~val
    { h with gpio := Function.update h.gpio (base / 4) new }
  | none => { h with gpio := Function.update h.gpio (off / 4) val }

/-- The GPIO_PIN word of a pin. -/
def Hw.pad (h : Hw) (pin : Nat) : U32 := h.gpio (gpioPin pin / 4)

/-- The status bit of a pin. -/
def Hw.status (h : Hw) (pin : Nat) : Bool :=
  (h.gpio (bank pin gpioStatus gpioStatus1 / 4)).getLsbD (pin % 32)

/-- `ESP32S31_PIN_INT_ENA`. -/
def pinIntEna (line : Nat) : U32 := 1#32 <<< (13 + line)

/-- The pins that a read of `ESP32S31_GPIO_INT(line, bank)` finds: pending and enabled on the line.
-/
def Hw.intPins (h : Hw) (line bank : Nat) : List Nat :=
  (List.range npins).filter fun pin =>
    pin / 32 = bank && h.status pin && (h.pad pin).getLsbD (13 + line)

/-- An access of the driver. -/
inductive Access where
  | read
  /-- `writel` to the GPIO page -/
  | write (off : Nat) (val : U32)
  /-- `esp32s31_iomux_rmw` -/
  | iomuxRmw (pin : Nat) (clr set : U32)
  /-- `esp32s31_pin_rmw` -/
  | pinRmw (pin : Nat) (clr set : U32)
  /-- the locked part of `esp32s31_cnnt_select` -/
  | cnntOr (sel : U32)
  deriving DecidableEq

/-- What an access does to the registers. -/
def Access.exec (h : Hw) : Access → Hw
  | .read => h
  | .write off val => h.write off val
  | .iomuxRmw pin clr set =>
    { h with iomux := Function.update h.iomux pin (h.iomux pin &&& ~~~clr ||| set) }
  | .pinRmw pin clr set =>
    { h with gpio := Function.update h.gpio (gpioPin pin / 4) (h.pad pin &&& ~~~clr ||| set) }
  | .cnntOr sel => { h with cnnt := h.cnnt ||| sel }

/-! ## The operations -/

/-- `-EINVAL`, `-ENOTSUPP`. -/
def einval : Int := -22
def enotsupp : Int := -524

/-- What an operation does: its accesses and its return value. -/
abbrev Effect := List Access × Int

/-- A loop that ends at the first error. -/
def untilError : List Effect → Effect
  | [] => ([], 0)
  | r :: rs =>
    if r.2 ≠ 0 then r
    else
      let q := untilError rs
      (r.1 ++ q.1, q.2)

/-- The write of the bit of a pin in one of two registers. -/
def writeBit (pin reg0 reg1 : Nat) : Access := .write (bank pin reg0 reg1) (1#32 <<< (pin % 32))

/-- `esp32s31_cnnt_select`. -/
def cnntSelect (pin func : Nat) : List Access :=
  (cnntPads.filter fun c => c.Matches pin func).map fun c => .cnntOr c.sel

/-- `ESP32S31_IN_SEL_IOMUX`. -/
def inSelIomux : U32 := 0x80#32

/-- `esp32s31_mux_one`, with the fields of a `pinmux` cell. -/
def muxOne (pin : Nat) (mux : U32) : Effect :=
  let func := ((mux >>> 11) &&& 7#32).toNat
  let sig := (mux &&& 0x1ff#32).toNat
  let isIn := mux.getLsbD 9
  let isOut := mux.getLsbD 10
  let set := BitVec.ofNat 32 func <<< 12
  if pin ≥ npins ∨ sig ≥ nsigs then ([], einval)
  else
    ((if isIn then
        [.write (gpioInSel sig) (if func = funcGpio then inSelMatrix ||| BitVec.ofNat 32 pin
          else inSelIomux)]
      else []) ++
      (if isOut then [.write (gpioOutSel pin) (BitVec.ofNat 32 sig)] else []) ++
      [.iomuxRmw pin iomuxMcuMask (if isIn then set ||| iomuxIe else set)] ++ cnntSelect pin func,
        0)

/-- `esp32s31_set_mux` for a group, if there is one. -/
def setMux (group : Option (List (Nat × U32))) : Effect :=
  match group with
  | none => ([], einval)
  | some pins => untilError (pins.map fun p => muxOne p.1 p.2)

/-- `esp32s31_gpio_request_enable`. -/
def gpioRequestEnable (pin : Nat) : Effect :=
  ([writeBit pin (gpioEnable + gpioW1tc) (gpioEnable1 + gpioW1tc),
    .write (gpioOutSel pin) sigGpioOut,
    .iomuxRmw pin iomuxMcuMask (BitVec.ofNat 32 funcGpio <<< 12 ||| iomuxIe)], 0)

/-- `enum pin_config_param`, those of the driver. -/
inductive Param where
  | biasDisable
  | biasPullUp
  | biasPullDown
  | inputEnable
  | driveStrength
  | driveOpenDrain
  | drivePushPull
  | other
  deriving DecidableEq

/-- `esp32s31_drive_field`. -/
def driveField (ma : U32) : Option U32 :=
  (driveMa.findIdx? fun d => BitVec.ofNat 32 d = ma).map fun i => BitVec.ofNat 32 i <<< 10

/-- `esp32s31_config_one`. -/
def configOne (pin : Nat) (param : Param) (arg : U32) : Effect :=
  let pull := iomuxWpu ||| iomuxWpd
  match param with
  | .biasDisable => ([.iomuxRmw pin pull 0#32], 0)
  | .biasPullUp => ([.iomuxRmw pin pull iomuxWpu], 0)
  | .biasPullDown => ([.iomuxRmw pin pull iomuxWpd], 0)
  | .inputEnable => ([.iomuxRmw pin iomuxIe (if arg ≠ 0#32 then iomuxIe else 0#32)], 0)
  | .driveStrength =>
    match driveField arg with
    | none => ([], einval)
    | some drv => ([.iomuxRmw pin iomuxDrvMask drv], 0)
  | .driveOpenDrain => ([.pinRmw pin 0#32 pinPadDriver], 0)
  | .drivePushPull => ([.pinRmw pin pinPadDriver 0#32], 0)
  | .other => ([], enotsupp)

/-- `esp32s31_pin_config_set`. -/
def pinConfigSet (configs : List (Param × U32)) (pin : Nat) : Effect :=
  untilError (configs.map fun c => configOne pin c.1 c.2)

/-- `esp32s31_pin_config_group_set`. -/
def pinConfigGroupSet (group : Option (List Nat)) (configs : List (Param × U32)) : Effect :=
  match group with
  | none => ([], einval)
  | some pins => untilError (pins.map (pinConfigSet configs))

/-- `esp32s31_gpio_set`. -/
def gpioSet (pin : Nat) (value : Bool) : Effect :=
  ([if value then writeBit pin (gpioOut + gpioW1ts) (gpioOut1 + gpioW1ts)
    else writeBit pin (gpioOut + gpioW1tc) (gpioOut1 + gpioW1tc)], 0)

/-- `esp32s31_gpio_direction_input`. -/
def gpioDirectionInput (pin : Nat) : Effect :=
  ([writeBit pin (gpioEnable + gpioW1tc) (gpioEnable1 + gpioW1tc)], 0)

/-- `esp32s31_gpio_direction_output`: the level before the output driver. -/
def gpioDirectionOutput (pin : Nat) (value : Bool) : Effect :=
  ((gpioSet pin value).1 ++ [writeBit pin (gpioEnable + gpioW1ts) (gpioEnable1 + gpioW1ts)], 0)

/-- `esp32s31_irq_ena`: line 2 for bank 0 and line 3 for bank 1. -/
def irqEna (pin : Nat) : U32 := pinIntEna (2 + pin / 32)

/-- `esp32s31_irq_ack`. -/
def irqAck (pin : Nat) : Effect := ([writeBit pin (gpioStatus + gpioW1tc) (gpioStatus1 + gpioW1tc)],
    0)

/-- `esp32s31_irq_mask`, `esp32s31_irq_unmask`. -/
def irqMask (pin : Nat) : Effect := ([.pinRmw pin (irqEna pin) 0#32], 0)
def irqUnmask (pin : Nat) : Effect := ([.pinRmw pin 0#32 (irqEna pin)], 0)

/-- `int_type`, by `IRQ_TYPE_*`: rising, falling, both, high, low. -/
def intType : List Nat := [0, 1, 2, 3, 5, 0, 0, 0, 4]

/-- `esp32s31_irq_set_type`. -/
def irqSetType (pin : Nat) (type : U32) : Effect :=
  let n := intType.getD (type &&& 0xf#32).toNat 0
  if n = 0 then ([], einval)
  else (.pinRmw pin pinIntTypeMask (BitVec.ofNat 32 n <<< 7) :: (irqAck pin).1, 0)

/-- `esp32s31_irq_init`: with the two parent interrupts, no pin has one of the lines of Linux. -/
def irqInit (count : Nat) (h : Hw) : Hw :=
  if count < 2 then h
  else (List.range npins).foldl (fun h pin =>
    (Access.pinRmw pin (pinIntEna 2 ||| pinIntEna 3) 0#32).exec h) h

/-- The calls of the kernel. The pins that the GPIO and pin control cores pass are pins of the chip;
those of a group come from the device tree. -/
inductive Op where
  | setMux (group : Option (List (Nat × U32)))
  | gpioRequestEnable (pin : Fin npins)
  | pinConfigGet (pin : Fin npins)
  | pinConfigSet (pin : Fin npins) (configs : List (Param × U32))
  | pinConfigGroupSet (group : Option (List (Fin npins))) (configs : List (Param × U32))
  | gpioSetConfig (pin : Fin npins) (param : Param) (arg : U32)
  | gpioGet (pin : Fin npins)
  | gpioSet (pin : Fin npins) (value : Bool)
  | gpioGetDirection (pin : Fin npins)
  | gpioDirectionInput (pin : Fin npins)
  | gpioDirectionOutput (pin : Fin npins) (value : Bool)
  | irqAck (pin : Fin npins)
  | irqMask (pin : Fin npins)
  | irqUnmask (pin : Fin npins)
  | irqSetType (pin : Fin npins) (type : U32)
  deriving DecidableEq

/-- What a call does; a read leaves the registers as they are. -/
def Op.effect : Op → Effect
  | .setMux group => Kernel.setMux group
  | .gpioRequestEnable pin => Kernel.gpioRequestEnable pin
  | .pinConfigGet _ => ([.read, .read], 0)
  | .pinConfigSet pin configs => Kernel.pinConfigSet configs pin
  | .pinConfigGroupSet group configs =>
    Kernel.pinConfigGroupSet (group.map fun pins => pins.map (·.val)) configs
  | .gpioSetConfig pin param arg => configOne pin param arg
  | .gpioGet _ => ([.read], 0)
  | .gpioSet pin value => Kernel.gpioSet pin value
  | .gpioGetDirection _ => ([.read], 0)
  | .gpioDirectionInput pin => Kernel.gpioDirectionInput pin
  | .gpioDirectionOutput pin value => Kernel.gpioDirectionOutput pin value
  | .irqAck pin => Kernel.irqAck pin
  | .irqMask pin => Kernel.irqMask pin
  | .irqUnmask pin => Kernel.irqUnmask pin
  | .irqSetType pin type => Kernel.irqSetType pin type

/-- A callback of the interrupt chip. -/
def Op.isIrq : Op → Bool
  | .irqAck _ | .irqMask _ | .irqUnmask _ | .irqSetType _ _ => true
  | _ => false

/-! ## The running driver -/

/-- What a thread is in: a call with the accesses still to come, or the handler of a bank, which
reads its line once and then passes on the pins that it found. `seen` are the pins that were
unmasked at the read. -/
inductive Task where
  | call (op : Op) (todo : List Access)
  | handler (bank : Fin 2)
  | passing (bank : Fin 2) (todo : List Nat) (seen : Nat → Bool)

/-- An interrupt that a handler passes on, and whether its pin was unmasked at the read and is now.
-/
structure Pass where
  bank : Fin 2
  pin : Nat
  seen : Bool
  now : Bool
  deriving DecidableEq

/-- The driver with its threads; `unmasked` are the pins whose last `irq_mask` or `irq_unmask` was
the latter, in the order of their locked parts. -/
structure State where
  hw : Hw
  irqs : Bool
  threads : Nat → Option Task
  unmasked : Nat → Bool
  passed : List Pass

/-- What can happen next. -/
inductive Action where
  | start (t : Nat) (op : Op)
  | interrupt (t : Nat) (bank : Fin 2)
  /-- the next access of a thread, or its end -/
  | run (t : Nat)
  /-- an edge or a level on a pin sets its status bit -/
  | raise (pin : Fin npins)
  deriving DecidableEq

/-- The ghost of an access of a call. -/
def Op.masks (op : Op) (a : Access) (unmasked : Nat → Bool) : Nat → Bool :=
  match op, a with
  | .irqMask pin, .pinRmw _ _ _ => Function.update unmasked pin.val false
  | .irqUnmask pin, .pinRmw _ _ _ => Function.update unmasked pin.val true
  | _, _ => unmasked

/-- One step of a thread. -/
def runTask (s : State) (t : Nat) : Task → State
  | .call _ [] => { s with threads := Function.update s.threads t none }
  | .call op (a :: todo) =>
    { s with
      hw := a.exec s.hw
      unmasked := op.masks a s.unmasked
      threads := Function.update s.threads t (some (.call op todo)) }
  | .handler bank =>
    -- the line of the bank: `ESP32S31_GPIO_INT(2 + bank, bank)`
    let pins := s.hw.intPins (2 + bank) bank
    { s with threads := Function.update s.threads t (some (.passing bank pins s.unmasked)) }
  | .passing _ [] _ => { s with threads := Function.update s.threads t none }
  | .passing bank (pin :: todo) seen =>
    { s with
      passed := ⟨bank, pin, seen pin, s.unmasked pin⟩ :: s.passed
      threads := Function.update s.threads t (some (.passing bank todo seen)) }

/-- One step of the driver. Without its parent interrupts it has no interrupt chip. -/
def step (a : Action) (s : State) : Option State :=
  match a with
  | .start t op =>
    if (s.threads t).isNone ∧ (op.isIrq = true → s.irqs = true) then
      some { s with threads := Function.update s.threads t (some (.call op op.effect.1)) }
    else none
  | .interrupt t bank =>
    if (s.threads t).isNone ∧ s.irqs = true then
      some { s with threads := Function.update s.threads t (some (.handler bank)) }
    else none
  | .run t => (s.threads t).map (runTask s t)
  | .raise pin =>
    let off := bank pin.val gpioStatus gpioStatus1 + gpioW1ts
    some { s with hw := s.hw.write off (1#32 <<< (pin.val % 32)) }

/-- The driver after its probe with `count` parent interrupts, from the registers `h`. -/
def driver (count : Nat) (h : Hw) : Machine Action State where
  init s := s = ⟨irqInit count h, 2 ≤ count, fun _ => none, fun _ => false, []⟩
  step := step

end Esp32S31.Pinctrl.Kernel
