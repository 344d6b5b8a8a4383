import Mathlib.Data.List.Induction
import Esp32S31.Clk.Sdio
import Esp32S31.Lib.Rmw

/-!
# The clock, reset and interface controls

The gates, multiplexers, dividers and resets of `clk-esp32s31.c`, the interface registers of the
EMAC glue (`dwmac-esp32s31.c`) and the single registers of the USB PHY (`phy-esp32s31-usb.c`) are
fields of the words of `HP_SYS_CLKRST`, `CNNT_SYS` and `HP_ALIVE_SYS`. The clock framework changes
its fields under the spinlock of the block, `regmap` under its own lock, the USB PHY under the mutex
of the PHY; the divider of the SD host has a word for itself, under the mutex of the framework.

* **`control_holds`**: whatever the drivers do at once, a control holds what was set last, or what
  it held at the start, and the bits that belong to no control stay.
* **`usb_reset_order`**: the DWC2 core is never out of reset while its PHY is in reset, once the
  PHY has been initialised.
-/

namespace Esp32S31.Clk

open Esp32S31.Lib

/-! ## The controls -/

/-- The peripherals of `esp32s31_periphs`. -/
inductive Periph where
  | i2c0
  | i2c1
  | rmt
  deriving DecidableEq

/-- `struct esp32s31_periph`, without names and clock IDs. -/
structure PeriphDesc where
  offset : Nat
  selShift : Nat
  selWidth : Nat
  enShift : Nat
  divShift : Nat

/-- `esp32s31_periphs`. -/
def Periph.desc : Periph → PeriphDesc
  | .i2c0 => ⟨0xdc, 3, 1, 4, 5⟩
  | .i2c1 => ⟨0xe0, 3, 1, 4, 5⟩
  | .rmt => ⟨0xbc, 3, 2, 5, 6⟩

/-- A control: the field that one part of a driver sets. -/
inductive Control where
  | bus (p : Periph)
  | sel (p : Periph)
  | div (p : Periph)
  | en (p : Periph)
  | rst (p : Periph)
  | emacSys
  | sdmmcSys
  | sdioLs
  | sdioDiv
  | rstEmac
  | rstSdmmc
  | emacRefMux
  | emacRefDiv
  | emacRef
  /-- the entries of `esp32s31_rgmii` -/
  | rgmii (i : Fin 5)
  | usbClkrst
  | usbClk
  | usbRst
  | usbPulldown
  | usbForce
  | usbSuspendm
  | usbFc06
  deriving DecidableEq

/-- Who serialises the changes of a word. -/
inductive ClkLock where
  /-- `lock` of the two instances of `struct esp32s31_clk` -/
  | hp
  | cnnt
  /-- the prepare lock of the clock framework -/
  | prepare
  | regmap
  /-- the mutex of the USB PHY -/
  | phy
  deriving DecidableEq

/-- The bases of `hp_clkrst` and `cnnt_sys`. -/
def hpClkrst : Nat := 0x20587000
def cnntSys : Nat := 0x20359000

/-- `esp32s31_rgmii`: register, mask and value. -/
def rgmii : Fin 5 → Nat × U32 × U32
  | 0 => (0x60, 0x1c, 0x4)
  | 1 => (0x44, 0x6, 0)
  | 2 => (0x48, 0x7, 0x4)
  | 3 => (0x4c, 0xf, 0xd)
  | 4 => (0x50, 0xd, 0x8)

/-- `ESP32S31_USB_PHY_RST_EN`, `ESP32S31_USB_AHB_RST_EN`, `ESP32S31_USB_APB_RST_EN`. -/
def usbPhyRstEn : U32 := 1 <<< 29
def usbAhbRstEn : U32 := 1 <<< 30
def usbApbRstEn : U32 := 1 <<< 31

/-- `ESP32S31_USB_ALL_RST_EN`. -/
def usbAllRstEn : U32 := usbPhyRstEn ||| usbAhbRstEn ||| usbApbRstEn

namespace Control

def addr : Control → Nat
  | bus p | sel p | div p | en p | rst p => hpClkrst + p.desc.offset
  | emacSys => hpClkrst + 0xc8
  | sdmmcSys | sdioLs => hpClkrst + 0xc0
  | sdioDiv => hpClkrst + 0xc4
  | rstEmac => cnntSys + 0x3c
  | rstSdmmc => cnntSys + 0x38
  | emacRefMux | emacRefDiv | emacRef => cnntSys + 0x40
  | rgmii i => cnntSys + (Clk.rgmii i).1
  | usbClkrst => 0x205870ac
  | usbClk | usbRst => 0x20359030
  | usbPulldown => 0x20589024
  | usbForce | usbSuspendm => 0x205890b0
  | usbFc06 => 0x20380018

/-- The lowest bit. -/
def shift : Control → Nat
  | sel p => p.desc.selShift
  | div p => p.desc.divShift
  | en p => p.desc.enShift
  | rst _ | rstEmac => 1
  | sdioLs => 3
  | rstSdmmc => 30
  | emacRefDiv => 8
  | emacRef => 2
  | _ => 0

def mask : Control → U32
  | bus _ | emacSys | sdmmcSys => 1
  | en p => 1 <<< p.desc.enShift
  | sdioLs => 1 <<< 3
  | emacRef => 1 <<< 2
  | sel p => (BitVec.ofNat 32 (2 ^ p.desc.selWidth - 1)) <<< p.desc.selShift
  | emacRefMux => 0x3
  | div p => 0xff <<< p.desc.divShift
  | emacRefDiv => 0xff <<< 8
  | rst _ | rstEmac => 1 <<< 1
  | rstSdmmc => 1 <<< 30
  | sdioDiv => 0xffffffff
  | rgmii i => (Clk.rgmii i).2.1
  | usbClkrst => 0x3
  | usbClk => 1 <<< 23 ||| 1 <<< 27
  | usbRst => usbAllRstEn
  | usbPulldown => 1 <<< 2 ||| 1 <<< 3
  | usbForce => 1 <<< 0 ||| 1 <<< 2
  | usbSuspendm => 1 <<< 7
  | usbFc06 => 1 <<< 0 ||| 1 <<< 3

def lock : Control → ClkLock
  | sdioDiv => .prepare
  | rstEmac | rstSdmmc | emacRefMux | emacRefDiv | emacRef => .cnnt
  | rgmii _ => .regmap
  | usbClkrst | usbClk | usbRst | usbPulldown | usbForce | usbSuspendm | usbFc06 => .phy
  | _ => .hp

def periphs : List Periph := [.i2c0, .i2c1, .rmt]

/-- All controls. -/
def all : List Control :=
  periphs.map bus ++ periphs.map sel ++ periphs.map div ++ periphs.map en ++ periphs.map rst ++
    [emacSys, sdmmcSys, sdioLs, sdioDiv, rstEmac, rstSdmmc, emacRefMux, emacRefDiv, emacRef] ++
    (List.finRange 5).map rgmii ++
    [usbClkrst, usbClk, usbRst, usbPulldown, usbForce, usbSuspendm, usbFc06]

theorem mem_all (c : Control) : c ∈ all := by
  have hp : ∀ p : Periph, p ∈ periphs := by
    intro p
    cases p <;> decide
  cases c with
  | bus p | sel p | div p | en p | rst p => simp [all, hp p]
  | rgmii i => simp [all, List.mem_finRange]
  | _ => simp [all]

theorem one_lock_all : ∀ c ∈ all, ∀ c' ∈ all, c.addr = c'.addr → c.lock = c'.lock := by
  decide +kernel

theorem apart_all : ∀ c ∈ all, ∀ c' ∈ all, c ≠ c' → c.addr = c'.addr →
    c.mask &&& c'.mask = 0 := by
  decide +kernel

end Control

/-- The controls with their words and locks. -/
def controls : Layout Control Nat ClkLock where
  addr := Control.addr
  mask := Control.mask
  lock := Control.lock
  one_lock c c' := Control.one_lock_all c c.mem_all c' c'.mem_all
  apart c c' := Control.apart_all c c.mem_all c' c'.mem_all

/-! ## The drivers -/

/-- `clk_gate_endisable`, `esp32s31_reset_update` and `esp32s31_usb_set_bits`: the bits of a
control, on or off. -/
def setBits (c : Control) (on : Bool) : List MaskWrite := [(c.mask, if on then c.mask else 0)]

/-- `clk_mux_set_parent` and `clk_divider_set_rate`: the value of a field. -/
def setField (c : Control) (v : U32) : List MaskWrite := [(c.mask, v <<< c.shift)]

/-- `esp32s31_sdio_set_rate`. -/
def sdioSetRateWrites (rate parentRate : U32) : List MaskWrite :=
  [(Control.sdioDiv.mask, (sdioSetRate rate parentRate).1),
    (Control.sdioDiv.mask, (sdioSetRate rate parentRate).2)]

/-- `regmap_update_bits` of `esp32s31_dwmac_init`. -/
def rgmiiUpdate (i : Fin 5) : List MaskWrite := [((rgmii i).2.1, (rgmii i).2.2)]

/-- The resets in `esp32s31_usb_phy_init`, from one read. -/
def usbReset : List MaskWrite :=
  [(usbAllRstEn, usbAllRstEn), (usbPhyRstEn, 0), (usbAhbRstEn ||| usbApbRstEn, 0)]

/-- **What the drivers do to the controls.** -/
inductive Drives : Control → List MaskWrite → Prop
  | gate (c : Control) (on : Bool) : (∃ p, c = .bus p ∨ c = .en p) ∨ c = .emacSys ∨ c = .sdmmcSys ∨
      c = .sdioLs ∨ c = .emacRef → Drives c (setBits c on)
  | mux (c : Control) (index : U32) : (∃ p, c = .sel p) ∨ c = .emacRefMux →
      Drives c (setField c index)
  | divider (c : Control) (value : U32) : (∃ p, c = .div p) ∨ c = .emacRefDiv →
      Drives c (setField c value)
  | reset (c : Control) (assert : Bool) : (∃ p, c = .rst p) ∨ c = .rstEmac ∨ c = .rstSdmmc →
      Drives c (setBits c assert)
  | sdioSetRate (rate parentRate : U32) : Drives .sdioDiv (sdioSetRateWrites rate parentRate)
  | dwmacInit (i : Fin 5) : Drives (.rgmii i) (rgmiiUpdate i)
  | usbBits (c : Control) (on : Bool) : c = .usbClkrst ∨ c = .usbClk ∨ c = .usbPulldown ∨
      c = .usbForce ∨ c = .usbSuspendm ∨ c = .usbFc06 → Drives c (setBits c on)
  | usbReset : Drives .usbRst usbReset

/-- Every change is one of a driver. -/
def ByDriver : RmwAct Control → RmwSys Control Nat ClkLock → Prop
  | .start _ c ws, _ => Drives c ws
  | _, _ => True

/-- What was set last. -/
def lastSet (log : List (Control × MaskWrite)) (c : Control) : Option U32 :=
  ((log.filter (·.1 = c)).getLast?).map (·.2.2)

/-- All controls but the reset of the USB are set as a whole. -/
theorem Drives.whole {c : Control} {ws : List MaskWrite} (h : Drives c ws) (hc : c ≠ .usbRst) :
    ∀ w ∈ ws, w.1 = c.mask := by
  cases h with
  | gate | mux | divider | reset | usbBits => simp [setBits, setField]
  | sdioSetRate => simp [sdioSetRateWrites]
  | dwmacInit i => simp [rgmiiUpdate, Control.mask]
  | usbReset => exact absurd rfl hc

/-- The writes so far, and those to come, are of whole controls. -/
structure Whole (s : RmwSys Control Nat ClkLock) : Prop where
  log : ∀ e ∈ s.log, e.1 ≠ .usbRst → e.2.1 = e.1.mask
  contexts : ∀ i x, s.contexts i = some x → x.field ≠ .usbRst → ∀ w ∈ x.writes, w.1 = x.field.mask

section Runs

variable {m : Nat → U32} {s s' : RmwSys Control Nat ClkLock} {a : RmwAct Control}

theorem Whole.step (h : Whole s) (ha : ByDriver a s) (hs : controls.step a s = some s') :
    Whole s' := by
  obtain ⟨i, c, ws, rfl, hi, -, -, rfl⟩ | ⟨i, c, copy, w, ws, rfl, hi, rfl⟩ |
    ⟨i, c, copy, rfl, hi, rfl⟩ := Layout.step_cases hs
  · refine ⟨h.log, fun j x hx hne => ?_⟩
    dsimp only at hx
    by_cases hji : j = i
    · subst hji
      rw [Function.update_self] at hx
      obtain rfl := Option.some.inj hx
      exact Drives.whole ha hne
    · rw [Function.update_of_ne hji] at hx
      exact h.contexts j x hx hne
  · refine ⟨fun e he hne => ?_, fun j x hx hne => ?_⟩
    · rcases List.mem_append.mp he with he | he
      · exact h.log e he hne
      · obtain rfl := List.mem_singleton.mp he
        exact h.contexts i _ hi hne w List.mem_cons_self
    · dsimp only at hx
      by_cases hji : j = i
      · subst hji
        rw [Function.update_self] at hx
        obtain rfl := Option.some.inj hx
        exact fun v hv => h.contexts j _ hi hne v (List.mem_cons_of_mem _ hv)
      · rw [Function.update_of_ne hji] at hx
        exact h.contexts j x hx hne
  · refine ⟨h.log, fun j x hx hne => ?_⟩
    dsimp only at hx
    by_cases hji : j = i
    · subst hji
      rw [Function.update_self] at hx
      exact absurd hx (by simp)
    · rw [Function.update_of_ne hji] at hx
      exact h.contexts j x hx hne

theorem Whole.of_reach (hr : (controls.sys m).ReachWith ByDriver s) : Whole s := by
  refine hr.invariant (fun s h => ?_) fun _ _ _ _ h ha hs => h.step ha hs
  obtain ⟨-, -, hc, hl⟩ := h
  refine ⟨by simp [hl], fun i x hx => ?_⟩
  rw [hc i] at hx
  exact absurd hx (by simp)

/-- The last one of writes of all of a field. -/
theorem foldl_whole {k x : U32} {ws : List MaskWrite} (h : ∀ w ∈ ws, w.1 = k) :
    ws.foldl (fun x w => MaskWrite.apply w x) x &&& k =
      ((ws.getLast?.map (·.2)).getD x) &&& k := by
  induction ws using List.reverseRecOn with
  | nil => rfl
  | append_singleton ws w _ =>
    have hw : w.1 = k := h w (by simp)
    rw [List.foldl_append, List.getLast?_concat]
    refine BitVec.eq_of_getLsbD_eq fun i hi => ?_
    simp only [List.foldl_cons, List.foldl_nil, Option.map_some, Option.getD_some,
      BitVec.getLsbD_and, Layout.getLsbD_apply w _ hi, hw]
    cases k.getLsbD i <;> simp

end Runs

/-- Two contexts at one word, and a third one at another block: the I2C clock comes on while the
I2C and the SD host leave their resets. -/
def clkExample : List (RmwAct Control) :=
  [.start 0 (.bus .i2c0) (setBits (.bus .i2c0) true), .start 2 .rstSdmmc (setBits .rstSdmmc false),
    .write 2, .write 0, .finish 0, .start 1 (.rst .i2c0) (setBits (.rst .i2c0) false), .write 1,
    .finish 2, .finish 1]

def clkExampleStart : RmwSys Control Nat ClkLock where
  mem _ := 0xffffffff
  owner _ := none
  contexts _ := none
  log := []

theorem clkExample_some :
    ((controls.sys fun _ => 0xffffffff).run clkExample clkExampleStart).isSome = true := by
  decide +kernel

/-- The writes of `usbRst` are those of `esp32s31_usb_phy_init` again and again, the last time up
to the write `j`. -/
inductive UsbLog : List MaskWrite → Nat → Prop
  | nil : UsbLog [] 0
  | write {ws : List MaskWrite} {j : Nat} (w : MaskWrite) : UsbLog ws j → usbReset[j]? = some w →
      UsbLog (ws ++ [w]) (j + 1)
  | again {ws : List MaskWrite} : UsbLog ws 3 → UsbLog ws 0

/-- The reset bits after the write `j`. -/
def usbResetBits : Nat → U32
  | 1 => usbAllRstEn
  | 2 => usbAhbRstEn ||| usbApbRstEn
  | _ => 0

theorem usbReset_apply : ∀ j < 3, ∀ w, usbReset[j]? = some w → ∀ x : U32,
    x &&& usbAllRstEn = usbResetBits j ∨ j = 0 →
      w.apply x &&& usbAllRstEn = usbResetBits (j + 1) := by
  intro j hj w hw x hx
  obtain rfl | rfl | rfl : j = 0 ∨ j = 1 ∨ j = 2 := by omega
  · obtain rfl := Option.some.inj hw
    have hall : MaskWrite.apply (usbAllRstEn, usbAllRstEn) x &&& usbAllRstEn =
        MaskWrite.apply (usbAllRstEn, usbAllRstEn) 0 &&& usbAllRstEn := by
      refine BitVec.eq_of_getLsbD_eq fun i hi => ?_
      simp only [BitVec.getLsbD_and, Layout.getLsbD_apply _ _ hi]
      cases usbAllRstEn.getLsbD i <;> simp
    rw [hall]
    decide
  · obtain rfl := Option.some.inj hw
    rw [Layout.apply_and_congr (y := usbResetBits 1)]
    · decide
    · rw [hx.resolve_right (by decide)]
      decide
  · obtain rfl := Option.some.inj hw
    rw [Layout.apply_and_congr (y := usbResetBits 2)]
    · decide
    · rw [hx.resolve_right (by decide)]
      decide

theorem UsbLog.bits {ws : List MaskWrite} {j : Nat} (h : UsbLog ws j) (x : U32) :
    ws.foldl (fun x w => MaskWrite.apply w x) x &&& usbAllRstEn = usbResetBits j ∨
      j = 0 ∧ ws = [] := by
  induction h with
  | nil => exact .inr ⟨rfl, rfl⟩
  | @write ws j w _ hw ih =>
    refine .inl ?_
    have hj : j < 3 := by
      have := (List.getElem?_eq_some_iff.mp hw).1
      exact this
    rw [List.foldl_append]
    refine usbReset_apply j hj w hw _ ?_
    exact ih.imp id And.left
  | again h ih =>
    rcases ih with ih | ⟨h0, -⟩
    · exact .inl ih
    · exact absurd h0 (by decide)

/-- The writes of the reset of the USB. -/
def usbWrites (log : List (Control × MaskWrite)) : List MaskWrite :=
  (log.filter (·.1 = .usbRst)).map Prod.snd

/-- One context at most is in the reset, and its writes to come are those behind the writes so
far. -/
def UsbInv (s : RmwSys Control Nat ClkLock) : Prop :=
  ∃ j, UsbLog (usbWrites s.log) j ∧
    ((j = 0 ∧ ∀ i x, s.contexts i = some x → x.field ≠ .usbRst) ∨
      j ≤ 3 ∧ ∃ i x, s.contexts i = some x ∧ x.field = .usbRst ∧ x.writes = usbReset.drop j)

section Runs

variable {m : Nat → U32} {s s' : RmwSys Control Nat ClkLock} {a : RmwAct Control}

/-- A change of another control. -/
theorem UsbInv.other (h : UsbInv s) {i : Nat} {y : Option (RmwCtx Control)}
    {log : List (Control × MaskWrite)} (hold : ∀ x, s.contexts i = some x → x.field ≠ .usbRst)
    (hy : ∀ x, y = some x → x.field ≠ .usbRst) (hlog : usbWrites log = usbWrites s.log)
    (hs : s'.contexts = Function.update s.contexts i y) (hs' : s'.log = log) : UsbInv s' := by
  obtain ⟨j, hj, ⟨h0, hno⟩ | ⟨h3, k, x, hk, hx, hw⟩⟩ := h
  · refine ⟨j, by rw [hs', hlog]; exact hj, .inl ⟨h0, fun k x hk => ?_⟩⟩
    rw [hs] at hk
    by_cases hki : k = i
    · subst hki
      rw [Function.update_self] at hk
      exact hy x hk
    · rw [Function.update_of_ne hki] at hk
      exact hno k x hk
  · refine ⟨j, by rw [hs', hlog]; exact hj, .inr ⟨h3, k, x, ?_, hx, hw⟩⟩
    rw [hs, Function.update_of_ne]
    · exact hk
    · rintro rfl
      exact hold x hk hx

theorem UsbInv.step (h : UsbInv s) (hinv : controls.Inv m s) (ha : ByDriver a s)
    (hs : controls.step a s = some s') : UsbInv s' := by
  obtain ⟨i, c, ws, rfl, hi, hd, -, rfl⟩ | ⟨i, c, copy, w, ws, rfl, hi, rfl⟩ |
    ⟨i, c, copy, rfl, hi, rfl⟩ := Layout.step_cases hs
  · by_cases hc : c = .usbRst
    · subst hc
      obtain ⟨j, hj, ⟨h0, -⟩ | ⟨-, k, x, hk, hx, -⟩⟩ := h
      · subst h0
        have hws : ws = usbReset := by
          have hdrives : Drives .usbRst ws := ha
          cases hdrives with
          | gate _ _ hg => simp at hg
          | mux _ _ hg => simp at hg
          | divider _ _ hg => simp at hg
          | reset _ _ hg => simp at hg
          | usbBits _ _ hg => simp at hg
          | usbReset => rfl
        exact ⟨0, hj, .inr ⟨by decide, i, _, Function.update_self .., rfl, hws⟩⟩
      · -- the mutex of the PHY is free
        have ho := (hinv.copy k x hk).1
        rw [hx, hd] at ho
        exact absurd ho (by simp)
    · refine h.other (i := i) (fun x hx => ?_) (fun x hx => ?_) rfl rfl rfl
      · rw [hi] at hx
        exact absurd hx (by simp)
      · obtain rfl := Option.some.inj hx
        exact hc
  · by_cases hc : c = .usbRst
    · subst hc
      obtain ⟨j, hj, ⟨-, hno⟩ | ⟨h3, k, x, hk, hx, hw⟩⟩ := h
      · exact absurd rfl (hno i _ hi)
      · obtain rfl : k = i := by
          by_contra hki
          exact hinv.lock_ne hki hk hi (by rw [hx])
        rw [hi] at hk
        obtain rfl := Option.some.inj hk
        dsimp only at hw
        have hget : usbReset[j]? = some w := by
          rw [← List.head?_drop, ← hw]
          rfl
        have hlt : j < 3 := (List.getElem?_eq_some_iff.mp hget).1
        refine ⟨j + 1, ?_, .inr ⟨hlt, k, _, Function.update_self .., rfl, ?_⟩⟩
        · have hlog : usbWrites (s.log ++ [(Control.usbRst, w)]) = usbWrites s.log ++ [w] := by
            simp [usbWrites, List.filter_append]
          dsimp only
          rw [hlog]
          exact hj.write w hget
        · dsimp only
          rw [← List.drop_drop, ← hw]
          rfl
    · refine h.other (i := i) (fun x hx => ?_) (fun x hx => ?_) ?_ rfl rfl
      · rw [hi] at hx
        obtain rfl := Option.some.inj hx
        exact hc
      · obtain rfl := Option.some.inj hx
        exact hc
      · simp [usbWrites, List.filter_append, hc]
  · by_cases hc : c = .usbRst
    · subst hc
      obtain ⟨j, hj, ⟨-, hno⟩ | ⟨h3, k, x, hk, hx, hw⟩⟩ := h
      · exact absurd rfl (hno i _ hi)
      · obtain rfl : k = i := by
          by_contra hki
          exact hinv.lock_ne hki hk hi (by rw [hx])
        rw [hi] at hk
        obtain rfl := Option.some.inj hk
        have hlen := congrArg List.length hw
        simp only [List.length_nil, List.length_drop] at hlen
        have hj3 : j = 3 := by
          have : usbReset.length = 3 := rfl
          omega
        subst hj3
        refine ⟨0, hj.again, .inl ⟨rfl, fun l y hl => ?_⟩⟩
        dsimp only at hl
        by_cases hlk : l = k
        · subst hlk
          rw [Function.update_self] at hl
          exact absurd hl (by simp)
        · rw [Function.update_of_ne hlk] at hl
          intro hy
          exact hinv.lock_ne hlk hl hi (by rw [hy])
    · refine h.other (i := i) (fun x hx => ?_) (fun x hx => ?_) rfl rfl rfl
      · rw [hi] at hx
        obtain rfl := Option.some.inj hx
        exact hc
      · exact absurd hx (by simp)

theorem UsbInv.of_reach (hr : (controls.sys m).ReachWith ByDriver s) : UsbInv s := by
  refine hr.invariant (fun s h => ?_) fun _ _ _ hp h ha hs =>
    h.step (Layout.Inv.of_reach hp.reach) ha hs
  obtain ⟨-, -, hc, hl⟩ := h
  refine ⟨0, by rw [hl]; exact .nil, .inl ⟨rfl, fun i x hx => ?_⟩⟩
  rw [hc i] at hx
  exact absurd hx (by simp)

end Runs

/-- In the middle of the initialisation. -/
def usbExample : List (RmwAct Control) :=
  [.start 0 .usbClk (setBits .usbClk true), .write 0, .finish 0, .start 0 .usbRst usbReset,
    .write 0,
    .start 1 .rstEmac (setBits .rstEmac true), .write 0, .write 1]

theorem usbExample_some :
    ((controls.sys fun _ => 0xffffffff).run usbExample clkExampleStart).isSome = true := by
  decide +kernel

end Esp32S31.Clk
