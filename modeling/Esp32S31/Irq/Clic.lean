import Mathlib.Data.List.Induction
import Mathlib.Logic.Function.Basic
import Esp32S31.Lib.Word

/-!
# The interrupt controller and its driver

The CLIC of the Linux hart has four byte registers for each input, and the interrupt matrix has a
word for each source that says to which input it goes. OpenSBI sets the local inputs up
(`esp32s31_timer_init` of `platform.c`) and gives the external ones to S-mode; the driver
(`irq-esp32s31-clic.c`) works in the S-mode window, where an input that belongs to M-mode reads as 0
and ignores writes.

**`clic_config`**: after any sequence of what the driver and OpenSBI do from the boot on, with
device tree specifiers that name the inputs 17 to 47, every input has the trigger, the mode and the
level that it was set up with, an input is enabled exactly as it was last masked or unmasked, the
machine timer input is untouched by Linux, and each word of the matrix is the one of the boot with
the route that was asked for last.
-/

namespace Esp32S31.Irq

open Esp32S31.Lib

/-! ## The hardware -/

/-- `ESP32S31_CLIC_INT_IP`, `_IE`, `_ATTR` and `_CTL`. -/
inductive ByteOff where
  | ip
  | ie
  | attr
  | ctl
  deriving DecidableEq

/-- The registers of an input. -/
structure Input where
  ip : BitVec 8
  ie : BitVec 8
  attr : BitVec 8
  ctl : BitVec 8
  deriving DecidableEq

namespace Input

def get (i : Input) : ByteOff → BitVec 8
  | .ip => i.ip
  | .ie => i.ie
  | .attr => i.attr
  | .ctl => i.ctl

def set (i : Input) (v : BitVec 8) : ByteOff → Input
  | .ip => { i with ip := v }
  | .ie => { i with ie := v }
  | .attr => { i with attr := v }
  | .ctl => { i with ctl := v }

/-- Everything but the pending bit. -/
def config (i : Input) : BitVec 8 × BitVec 8 × BitVec 8 := (i.ie, i.attr, i.ctl)

/-- The MODE field says S: the S-mode window shows the input. -/
def sMode (i : Input) : Bool := i.attr >>> 6 = 1#8

end Input

/-- The CLIC of the hart with its block of the interrupt matrix. -/
structure Clic where
  inputs : Nat → Input
  matrix : Nat → U32
  sintthresh : U32

namespace Clic

/-- A byte write of M-mode. -/
def write (c : Clic) (id : Nat) (off : ByteOff) (v : BitVec 8) : Clic :=
  { c with inputs := Function.update c.inputs id ((c.inputs id).set v off) }

/-- `clic_readb`. -/
def clicReadb (c : Clic) (id : Nat) (off : ByteOff) : BitVec 8 :=
  if (c.inputs id).sMode then (c.inputs id).get off else 0

/-- `clic_writeb`. -/
def clicWriteb (c : Clic) (id : Nat) (off : ByteOff) (v : BitVec 8) : Clic :=
  if (c.inputs id).sMode then c.write id off v else c

end Clic

/-- `CLIC_EXT_MIN_ID`, `CLIC_NR_IRQS`, `ESP32S31_CLIC_IRQ_WORK_ID`. -/
def clicExtMinId : Nat := 16
def clicNrIrqs : Nat := 48
def irqWorkId : Nat := clicExtMinId

/-- `CLIC_ATTR_TRIG_LEVEL`, `CLIC_ATTR_TRIG_EDGE`, `CLIC_ATTR_MODE_S` and, for OpenSBI,
`ESP32S31_CLIC_ATTR_MODE_M`. -/
def attrTrigLevel : BitVec 8 := 0x00
def attrTrigEdge : BitVec 8 := 0x02
def attrModeS : BitVec 8 := 0x40
def attrModeM : BitVec 8 := 0xc0

/-- `CLICCTL_MAKE`, with one level bit and three control bits. -/
def clicctlMake (level prio : BitVec 8) : BitVec 8 := (level <<< 7) ||| (prio <<< 5)

/-- `ESP32S31_MAX_PRIORITY`. -/
def maxPriority : BitVec 8 := 3

/-! ## OpenSBI -/

namespace Sbi

/-- `ESP32S31_CLIC_MTIMER_ID`, `ESP32S31_CLIC_SSOFT_ID`, `ESP32S31_CLIC_STIMER_ID`,
`ESP32S31_CLIC_CTL_MAX`. -/
def mtimerId : Nat := 7
def ssoftId : Nat := 1
def stimerId : Nat := 5
def ctlMax : BitVec 8 := 0xff

/-- `esp32s31_clic_setup`. -/
def clicSetup (c : Clic) (id : Nat) (attr : BitVec 8) : Clic :=
  (((c.write id .ip 0).write id .attr attr).write id .ctl ctlMax).write id .ie 1

/-- An external input goes to S-mode, disabled. -/
def giveInput (c : Clic) (id : Nat) : Clic :=
  (c.write id .ie 0).write id .attr (attrModeS ||| attrTrigLevel)

/-- What `esp32s31_timer_init` does to the inputs; the clearing at the end is the one of
`esp32s31_timer_event_stop`. -/
def timerInit (c : Clic) : Clic :=
  let c := { c with sintthresh := 0 }
  let c := (List.range' clicExtMinId (clicNrIrqs - clicExtMinId)).foldl giveInput c
  let c := clicSetup c mtimerId (attrModeM ||| attrTrigEdge)
  let c := clicSetup c stimerId (attrModeS ||| attrTrigEdge)
  let c := clicSetup c ssoftId (attrModeS ||| attrTrigEdge)
  c.write mtimerId .ip 0

end Sbi

/-! ## The driver -/

/-- `IRQ_TYPE_NONE`, `IRQ_TYPE_SENSE_MASK`, `IRQ_TYPE_LEVEL_MASK`. -/
def irqTypeNone : U32 := 0
def irqTypeSenseMask : U32 := 0xf
def irqTypeLevelMask : U32 := 0xc

/-- `-EINVAL`. -/
def einval : Int := -22

/-- `esp32s31_clic_irq_mask` and `esp32s31_clic_irq_unmask`, and those of the local chip, write
the same register. -/
def irqEnable (c : Clic) (hwirq : Nat) (enable : Bool) : Clic :=
  c.clicWriteb hwirq .ie (if enable then 1 else 0)

/-- `esp32s31_clic_set_type`. -/
def setType (c : Clic) (hwirq : Nat) (flowType : U32) : Int × Clic :=
  if flowType &&& irqTypeLevelMask = 0 then (einval, c)
  else (0, c.clicWriteb hwirq .attr (attrModeS ||| attrTrigLevel))

/-- `ESP32S31_INTMATRIX_CORE_STRIDE / sizeof(u32)`, `ESP32S31_INTMATRIX_MAP_MASK`,
`ESP32S31_INTMATRIX_PASS_LEVEL_MASK`, `ESP32S31_INTMATRIX_PASS_LEVEL_S`. -/
def intmatrixSources : Nat := 0x800 / 4
def intmatrixMapMask : U32 := 0x3f
def intmatrixPassLevelMask : U32 := 0x300
def intmatrixPassLevelS : U32 := 0x100

/-- The word of a source that goes to an input, made from the old word. -/
def routeWord (val : U32) (hwirq : Nat) : U32 :=
  (val &&& ~~~(intmatrixMapMask ||| intmatrixPassLevelMask)) |||
    ((BitVec.ofNat 32 hwirq &&& intmatrixMapMask) ||| intmatrixPassLevelS)

/-- `esp32s31_intmatrix_route`. -/
def intmatrixRoute (c : Clic) (source hwirq : Nat) : Clic :=
  if source ≥ intmatrixSources then c
  else { c with matrix := Function.update c.matrix source (routeWord (c.matrix source) hwirq) }

/-- `esp32s31_clic_parse_fwspec`: the input, the source and the type of the parameters. -/
def parseFwspec : List U32 → Option (Nat × Nat × U32)
  | [hwirq, source, type] => some (hwirq.toNat, source.toNat, type &&& irqTypeSenseMask)
  | _ => none

/-- `esp32s31_clic_domain_alloc`, as far as it concerns the hardware. -/
def domainAlloc (c : Clic) (fwspec : List U32) : Int × Clic :=
  match parseFwspec fwspec with
  | none => (einval, c)
  | some (hwirq, source, type) =>
    if hwirq ≥ clicNrIrqs then (einval, c)
    else
      let c := intmatrixRoute c source hwirq
      let c := c.clicWriteb hwirq .ctl (clicctlMake 1 maxPriority)
      (0, if type ≠ irqTypeNone then (setType c hwirq type).2 else c)

/-- One round of the loop of `esp32s31_clic_init_cpu`. -/
def initInput (c : Clic) (id : Nat) : Clic :=
  (((c.clicWriteb id .ip 0).clicWriteb id .ie 0).clicWriteb id .attr
    (attrModeS ||| attrTrigLevel)).clicWriteb id .ctl (clicctlMake 1 maxPriority)

/-- `esp32s31_clic_init_cpu`. -/
def initCpu (c : Clic) : Clic :=
  (List.range' clicExtMinId (clicNrIrqs - clicExtMinId)).foldl initInput { c with sintthresh := 0 }

/-- The writes at the start of `esp32s31_irq_work_init`. -/
def irqWorkSetup (c : Clic) : Clic :=
  ((c.clicWriteb irqWorkId .ip 0).clicWriteb irqWorkId .attr
    (attrModeS ||| attrTrigEdge)).clicWriteb irqWorkId .ctl (clicctlMake 1 maxPriority)

/-- To whom `esp32s31_clic_handle_irq` gives a trap. -/
inductive Dispatch where
  /-- `fallback_handle_irq`, with this value in `regs->cause` -/
  | fallback (cause : U32)
  | spurious (id : Nat)
  /-- `generic_handle_domain_irq` -/
  | domain (id : Nat)
  deriving DecidableEq

/-- `CLIC_CAUSE_EXCCODE_MASK`, `CAUSE_IRQ_FLAG`. -/
def clicCauseExccodeMask : U32 := 0xfff
def causeIrqFlag : U32 := 0x80000000

/-- `esp32s31_clic_handle_irq` up to the handler that it calls; behind a fallback it only restores
`regs->cause`. -/
def handleIrq (c : Clic) (cause : U32) : Dispatch × Clic :=
  let irqId := (cause &&& clicCauseExccodeMask).toNat
  if irqId < clicExtMinId then
    (.fallback (causeIrqFlag ||| BitVec.ofNat 32 irqId),
      if c.clicReadb irqId .attr &&& attrTrigEdge ≠ 0 then c.clicWriteb irqId .ip 0 else c)
  else if irqId ≥ clicNrIrqs then (.spurious irqId, c)
  else (.domain irqId, c)

/-! ## Runs -/

/-- What happens to the controller after the boot. -/
inductive Op where
  /-- `esp32s31_clic_domain_alloc` -/
  | alloc (fwspec : List U32)
  | setType (hwirq : Nat) (flowType : U32)
  /-- a mask or an unmask, of the external or of the local chip -/
  | enable (hwirq : Nat) (on : Bool)
  /-- a trap -/
  | handle (cause : U32)
  /-- `arch_irq_work_raise`, or the clearing in `esp32s31_irq_work_interrupt` -/
  | work (raise : Bool)
  /-- `sbi_timer_plat_sirq_set` and `sbi_timer_plat_sirq_clear` -/
  | sirq (on : Bool)
  /-- `sbi_ipi_plat_sirq_set` and `sbi_ipi_plat_sirq_clear` -/
  | ipi (on : Bool)
  /-- the hardware sets or clears a pending bit, or OpenSBI clears the one of the machine timer -/
  | pending (id : Nat) (on : Bool)

/-- A pending or an enable bit. -/
def bit (on : Bool) : BitVec 8 := if on then 1 else 0

def exec (c : Clic) : Op → Clic
  | .alloc fwspec => (domainAlloc c fwspec).2
  | .setType hwirq flowType => (setType c hwirq flowType).2
  | .enable hwirq on => irqEnable c hwirq on
  | .handle cause => (handleIrq c cause).2
  | .work raise => c.clicWriteb irqWorkId .ip (bit raise)
  | .sirq on => c.write Sbi.stimerId .ip (bit on)
  | .ipi on => c.write Sbi.ssoftId .ip (bit on)
  | .pending id on => c.write id .ip (bit on)

/-- OpenSBI, then the driver up to the handler of the software interrupt. -/
def boot (c : Clic) : Clic := irqWorkSetup (initCpu (Sbi.timerInit c))

/-- Device tree specifiers name the external inputs behind the one of the software interrupt, and
only theirs have a type. -/
def Op.Proper : Op → Prop
  | .alloc fwspec => ∀ hwirq source type, parseFwspec fwspec = some (hwirq, source, type) →
      irqWorkId < hwirq
  | .setType hwirq _ => irqWorkId < hwirq
  | _ => True

/-- The input that a source goes to by an operation, if the operation is about the source. -/
def Op.route (source : Nat) : Op → Option Nat
  | .alloc fwspec =>
    match parseFwspec fwspec with
    | some (hwirq, s, _) => if hwirq < clicNrIrqs ∧ s = source then some hwirq else none
    | none => none
  | _ => none

/-- What an operation says about the enable bit of an input. -/
def Op.enables (id : Nat) : Op → Option Bool
  | .enable hwirq on => if hwirq = id then some on else none
  | _ => none

/-- What the last operation that is about it says. -/
def last {β : Type} (f : Op → Option β) (ops : List Op) : Option β := (ops.filterMap f).getLast?

/-- How an input is set up. -/
structure Setup where
  attr : BitVec 8
  ctl : BitVec 8
  on : Bool

/-- The inputs of S-mode: the software interrupt and the timer of OpenSBI, the software interrupt
of the driver, and the external ones. -/
def setup (id : Nat) : Option Setup :=
  if id = Sbi.ssoftId ∨ id = Sbi.stimerId then
    some ⟨attrModeS ||| attrTrigEdge, Sbi.ctlMax, true⟩
  else if id = irqWorkId then
    some ⟨attrModeS ||| attrTrigEdge, clicctlMake 1 maxPriority, false⟩
  else if irqWorkId < id ∧ id < clicNrIrqs then
    some ⟨attrModeS ||| attrTrigLevel, clicctlMake 1 maxPriority, false⟩
  else none

/-- **The configuration after a run** from the controller `c₀`. -/
structure Config (c₀ : Clic) (ops : List Op) (c : Clic) : Prop where
  inputs : ∀ id s, setup id = some s → (c.inputs id).config =
    (bit ((last (Op.enables id) ops).getD s.on), s.attr, s.ctl)
  mtimer : (c.inputs Sbi.mtimerId).config = (1, attrModeM ||| attrTrigEdge, Sbi.ctlMax)
  matrix : ∀ source, c.matrix source =
    if source < intmatrixSources then
      (last (Op.route source) ops).elim (c₀.matrix source) (routeWord (c₀.matrix source))
    else c₀.matrix source
  threshold : c.sintthresh = 0

/-! ## One input at a time -/

namespace Clic

/-- Change one input. -/
def modify (c : Clic) (id : Nat) (g : Input → Input) : Clic :=
  { c with inputs := Function.update c.inputs id (g (c.inputs id)) }

variable (c : Clic) (id : Nat) (g : Input → Input)

@[simp] theorem modify_matrix : (c.modify id g).matrix = c.matrix := rfl

@[simp] theorem modify_sintthresh : (c.modify id g).sintthresh = c.sintthresh := rfl

@[simp] theorem modify_self : (c.modify id g).inputs id = g (c.inputs id) :=
  Function.update_self ..

@[simp] theorem modify_of_ne {j : Nat} (h : j ≠ id) : (c.modify id g).inputs j = c.inputs j :=
  Function.update_of_ne h ..

theorem modify_modify (g' : Input → Input) :
    (c.modify id g).modify id g' = c.modify id (g' ∘ g) := by
  simp [modify]

theorem write_eq (off : ByteOff) (v : BitVec 8) :
    c.write id off v = c.modify id (·.set v off) := rfl

theorem clicWriteb_eq (off : ByteOff) (v : BitVec 8) :
    c.clicWriteb id off v = c.modify id fun i => if i.sMode then i.set v off else i := by
  unfold clicWriteb write modify
  split <;> simp_all

/-- A loop over a range of inputs changes each of them once. -/
theorem foldl_modify (start n j : Nat) : ∀ c : Clic,
    ((List.range' start n).foldl (fun c id => c.modify id g) c).inputs j =
      if start ≤ j ∧ j < start + n then g (c.inputs j) else c.inputs j := by
  induction n generalizing start with
  | zero =>
    intro c
    exact (if_neg (by omega)).symm
  | succ n ih =>
    intro c
    rw [List.range'_succ, List.foldl_cons, ih]
    by_cases h : j = start
    · subst h
      rw [if_neg (by omega), if_pos (by omega), modify_self]
    · rw [modify_of_ne c start g h]
      by_cases hr : start + 1 ≤ j ∧ j < start + 1 + n
      · rw [if_pos hr, if_pos (by omega)]
      · rw [if_neg hr, if_neg (by omega)]

@[simp] theorem foldl_modify_matrix (ids : List Nat) : ∀ c : Clic,
    (ids.foldl (fun c id => c.modify id g) c).matrix = c.matrix := by
  induction ids with
  | nil => exact fun _ => rfl
  | cons id ids ih => exact fun c => ih (c.modify id g)

@[simp] theorem foldl_modify_sintthresh (ids : List Nat) : ∀ c : Clic,
    (ids.foldl (fun c id => c.modify id g) c).sintthresh = c.sintthresh := by
  induction ids with
  | nil => exact fun _ => rfl
  | cons id ids ih => exact fun c => ih (c.modify id g)

/-- A write of the pending bit changes no configuration. -/
@[simp] theorem config_write_ip (v : BitVec 8) (j : Nat) :
    ((c.write id .ip v).inputs j).config = (c.inputs j).config := by
  rw [write_eq]
  by_cases h : j = id
  · subst h
    simp [Input.set, Input.config]
  · rw [modify_of_ne c id _ h]

@[simp] theorem config_clicWriteb_ip (v : BitVec 8) (j : Nat) :
    ((c.clicWriteb id .ip v).inputs j).config = (c.inputs j).config := by
  unfold clicWriteb
  split
  · exact config_write_ip ..
  · rfl

theorem clicWriteb_of_ne (off : ByteOff) (v : BitVec 8) {j : Nat} (h : j ≠ id) :
    (c.clicWriteb id off v).inputs j = c.inputs j := by
  rw [clicWriteb_eq, modify_of_ne c id _ h]

/-- A write that does not change the register. -/
theorem clicWriteb_same {off : ByteOff} {v : BitVec 8} (h : (c.inputs id).get off = v) (j : Nat) :
    (c.clicWriteb id off v).inputs j = c.inputs j := by
  by_cases hj : j = id
  · subst hj
    rw [clicWriteb_eq, modify_self]
    split
    · subst h
      cases off <;> rfl
    · rfl
  · exact clicWriteb_of_ne c id off v hj

@[simp] theorem clicWriteb_matrix (off : ByteOff) (v : BitVec 8) :
    (c.clicWriteb id off v).matrix = c.matrix := by
  rw [clicWriteb_eq, modify_matrix]

@[simp] theorem clicWriteb_sintthresh (off : ByteOff) (v : BitVec 8) :
    (c.clicWriteb id off v).sintthresh = c.sintthresh := by
  rw [clicWriteb_eq, modify_sintthresh]

end Clic

/-! ## The boot -/

open Clic

theorem giveInput_eq (c : Clic) (id : Nat) : Sbi.giveInput c id = c.modify id fun i =>
    (i.set 0 .ie).set (attrModeS ||| attrTrigLevel) .attr := by
  simp only [Sbi.giveInput, write_eq, modify_modify]
  rfl

theorem clicSetup_eq (c : Clic) (id : Nat) (attr : BitVec 8) :
    Sbi.clicSetup c id attr = c.modify id fun _ => ⟨0, 1, attr, Sbi.ctlMax⟩ := by
  simp only [Sbi.clicSetup, write_eq, modify_modify]
  rfl

/-- What a round of the loop of `esp32s31_clic_init_cpu` makes of an input. -/
def initialised (i : Input) : Input :=
  if i.sMode then ⟨0, 0, attrModeS ||| attrTrigLevel, clicctlMake 1 maxPriority⟩ else i

theorem initInput_eq (c : Clic) (id : Nat) : initInput c id = c.modify id initialised := by
  simp only [initInput, clicWriteb_eq, modify_modify]
  congr 1
  funext i
  by_cases h : i.sMode
  · have h1 : (i.set 0 .ip).sMode = true := h
    have h2 : ((i.set 0 .ip).set 0 .ie).sMode = true := h
    have h3 : (((i.set 0 .ip).set 0 .ie).set (attrModeS ||| attrTrigLevel) .attr).sMode = true := by
      simp [Input.set, Input.sMode, attrModeS, attrTrigLevel]
    simp only [Function.comp_apply, h, h1, h2, h3, if_true, initialised]
    rfl
  · simp [h, initialised]

theorem timerInit_inputs (c : Clic) {id : Nat} (h : irqWorkId ≤ id) (hlt : id < clicNrIrqs) :
    ((Sbi.timerInit c).inputs id).attr = attrModeS ||| attrTrigLevel := by
  unfold irqWorkId clicExtMinId at h
  unfold clicNrIrqs at hlt
  simp only [Sbi.timerInit, clicSetup_eq, write_eq, funext₂ giveInput_eq]
  rw [modify_of_ne _ _ _ (by unfold Sbi.mtimerId; omega),
    modify_of_ne _ _ _ (by unfold Sbi.ssoftId; omega),
    modify_of_ne _ _ _ (by unfold Sbi.stimerId; omega),
    modify_of_ne _ _ _ (by unfold Sbi.mtimerId; omega), foldl_modify,
    if_pos (by unfold clicExtMinId clicNrIrqs; omega)]
  rfl

theorem timerInit_local (c : Clic) :
    (Sbi.timerInit c).inputs Sbi.ssoftId = ⟨0, 1, attrModeS ||| attrTrigEdge, Sbi.ctlMax⟩ ∧
      (Sbi.timerInit c).inputs Sbi.stimerId = ⟨0, 1, attrModeS ||| attrTrigEdge, Sbi.ctlMax⟩ ∧
      (Sbi.timerInit c).inputs Sbi.mtimerId = ⟨0, 1, attrModeM ||| attrTrigEdge, Sbi.ctlMax⟩ := by
  simp only [Sbi.timerInit, clicSetup_eq, write_eq]
  refine ⟨?_, ?_, ?_⟩
  · rw [modify_of_ne _ _ _ (by decide), modify_self]
  · rw [modify_of_ne _ _ _ (by decide), modify_of_ne _ _ _ (by decide), modify_self]
  · rw [modify_self, modify_of_ne _ _ _ (by decide), modify_of_ne _ _ _ (by decide), modify_self]
    rfl

/-- The loop of the driver sets up the external inputs, and no others. -/
theorem initCpu_inputs (c : Clic) (id : Nat) : (initCpu c).inputs id =
    if irqWorkId ≤ id ∧ id < clicNrIrqs then initialised (c.inputs id) else c.inputs id := by
  simp only [initCpu, funext₂ initInput_eq, foldl_modify]
  rfl

theorem irqWorkSetup_of_ne (c : Clic) {id : Nat} (h : id ≠ irqWorkId) :
    (irqWorkSetup c).inputs id = c.inputs id := by
  unfold irqWorkSetup
  rw [clicWriteb_of_ne _ _ _ _ h, clicWriteb_of_ne _ _ _ _ h, clicWriteb_of_ne _ _ _ _ h]

theorem boot_external (c : Clic) {id : Nat} (h : irqWorkId ≤ id) (hlt : id < clicNrIrqs) :
    (initCpu (Sbi.timerInit c)).inputs id =
      ⟨0, 0, attrModeS ||| attrTrigLevel, clicctlMake 1 maxPriority⟩ := by
  have hs : ((Sbi.timerInit c).inputs id).sMode = true := by
    unfold Input.sMode
    rw [timerInit_inputs c h hlt]
    rfl
  rw [initCpu_inputs, if_pos ⟨h, hlt⟩, initialised, if_pos hs]

theorem boot_local (c : Clic) {id : Nat} (h : id < irqWorkId) :
    (boot c).inputs id = (Sbi.timerInit c).inputs id := by
  unfold boot
  rw [irqWorkSetup_of_ne _ (by omega), initCpu_inputs, if_neg (by omega)]

/-- An S-mode input, after the boot. -/
theorem boot_config (c : Clic) {id : Nat} {s : Setup} (hs : setup id = some s) :
    ((boot c).inputs id).config = (bit s.on, s.attr, s.ctl) := by
  unfold setup at hs
  split at hs
  · obtain rfl := Option.some.inj hs
    rename_i hid
    obtain ⟨h1, h5, -⟩ := timerInit_local c
    rcases hid with rfl | rfl
    · rw [boot_local c (by decide), h1]
      rfl
    · rw [boot_local c (by decide), h5]
      rfl
  split at hs
  · obtain rfl := Option.some.inj hs
    rename_i hid
    subst hid
    have he := boot_external c (Nat.le_refl irqWorkId) (by decide)
    simp only [boot, irqWorkSetup, clicWriteb_eq, modify_self, he]
    rfl
  split at hs
  · obtain rfl := Option.some.inj hs
    rename_i hid
    unfold boot
    rw [irqWorkSetup_of_ne _ (by omega), boot_external c (by omega) hid.2]
    rfl
  · simp at hs

theorem boot_rest (c : Clic) : (boot c).matrix = c.matrix ∧ (boot c).sintthresh = 0 := by
  simp [boot, irqWorkSetup, initCpu, Sbi.timerInit, clicSetup_eq, write_eq, funext₂ giveInput_eq,
    funext₂ initInput_eq]

/-! ## A step -/

theorem routeWord_routeWord (v : U32) (h h' : Nat) :
    routeWord (routeWord v h) h' = routeWord v h' := by
  unfold routeWord intmatrixMapMask intmatrixPassLevelMask intmatrixPassLevelS
  generalize BitVec.ofNat 32 h = x
  generalize BitVec.ofNat 32 h' = y
  apply BitVec.eq_of_getLsbD_eq
  intro i hi
  simp only [BitVec.getLsbD_or, BitVec.getLsbD_and, BitVec.getLsbD_not, hi, decide_true,
    Bool.true_and]
  cases v.getLsbD i <;> cases x.getLsbD i <;> cases y.getLsbD i <;>
    cases (0x3f#32).getLsbD i <;> cases (0x300#32).getLsbD i <;> cases (0x100#32).getLsbD i <;> rfl

/-- The route of an operation. -/
theorem exec_matrix (c : Clic) (op : Op) (source : Nat) : (exec c op).matrix source =
    if source < intmatrixSources then
      (op.route source).elim (c.matrix source) (routeWord (c.matrix source))
    else c.matrix source := by
  cases op with
  | alloc fwspec =>
    cases hp : parseFwspec fwspec with
    | none => simp [exec, domainAlloc, Op.route, hp]
    | some r =>
      obtain ⟨hwirq, s, type⟩ := r
      by_cases hn : hwirq ≥ clicNrIrqs
      · simp [exec, domainAlloc, Op.route, hp, hn, Nat.not_lt.mpr hn]
      · have hm : ∀ c : Clic, (if type ≠ irqTypeNone then (setType c hwirq type).2 else c).matrix =
            c.matrix := by
          intro c
          unfold setType
          split <;> [split; skip] <;> simp
        simp only [exec, domainAlloc, Op.route, hp, hn, if_false, hm, clicWriteb_matrix,
          Nat.not_le.mp hn, true_and]
        unfold intmatrixRoute
        by_cases hs : s = source
        · subst hs
          by_cases hr : s < intmatrixSources
          · simp [hr, Nat.not_le.mpr hr]
          · simp [hr, Nat.not_lt.mp hr]
        · rw [if_neg hs, Option.elim_none, ite_self]
          split
          · rfl
          · exact Function.update_of_ne (Ne.symm hs) ..
  | setType hwirq flowType =>
    simp only [exec, setType]
    split <;> simp [Op.route]
  | handle cause =>
    simp only [exec, handleIrq, Op.route, Option.elim_none, ite_self]
    split <;> [split; split] <;> simp
  | enable hwirq on => simp [exec, irqEnable, Op.route]
  | work raise => simp [exec, Op.route]
  | sirq on => simp [exec, Op.route, write_eq]
  | ipi on => simp [exec, Op.route, write_eq]
  | pending id on => simp [exec, Op.route, write_eq]

theorem exec_sintthresh (c : Clic) (op : Op) : (exec c op).sintthresh = c.sintthresh := by
  have hset : ∀ (c : Clic) hwirq type, (setType c hwirq type).2.sintthresh = c.sintthresh := by
    intro c hwirq type
    unfold setType
    split <;> simp
  cases op with
  | alloc fwspec =>
    have hroute : ∀ s hwirq, (intmatrixRoute c s hwirq).sintthresh = c.sintthresh := by
      intro s hwirq
      unfold intmatrixRoute
      split <;> rfl
    simp only [exec, domainAlloc]
    split
    · rfl
    · split
      · rfl
      · split <;> simp [hset, hroute]
  | setType hwirq flowType => exact hset ..
  | handle cause =>
    simp only [exec, handleIrq]
    split <;> [split; split] <;> simp
  | enable hwirq on => simp [exec, irqEnable]
  | work raise => simp [exec]
  | sirq on => rfl
  | ipi on => rfl
  | pending id on => rfl

/-- A type is set only on an input that has it. -/
theorem setType_inputs (c : Clic) {hwirq id : Nat} {type : U32}
    (h : id = hwirq → (c.inputs id).attr = attrModeS ||| attrTrigLevel) :
    (setType c hwirq type).2.inputs id = c.inputs id := by
  unfold setType
  split
  · rfl
  · by_cases hid : id = hwirq
    · subst hid
      have ha : (c.inputs id).get .attr = attrModeS ||| attrTrigLevel := h rfl
      exact clicWriteb_same c id ha id
    · exact clicWriteb_of_ne c hwirq _ _ hid

/-- **A step changes no configuration** but an enable bit, where the input has the level and the
trigger of an external input if the operation is about one. -/
theorem exec_config {c : Clic} {op : Op} (hop : op.Proper) {id : Nat}
    (hs : (c.inputs id).sMode = true ∨ op.enables id = none)
    (hext : irqWorkId < id → id < clicNrIrqs →
      (c.inputs id).attr = attrModeS ||| attrTrigLevel ∧
        (c.inputs id).ctl = clicctlMake 1 maxPriority) (hid : id < clicNrIrqs) :
    ((exec c op).inputs id).config =
      (((op.enables id).map bit).getD (c.inputs id).ie, (c.inputs id).attr, (c.inputs id).ctl) := by
  cases op with
  | alloc fwspec =>
    cases hp : parseFwspec fwspec with
    | none =>
      simp only [exec, domainAlloc, hp]
      rfl
    | some r =>
      obtain ⟨hwirq, s, type⟩ := r
      have hlt := hop hwirq s type hp
      by_cases hn : hwirq ≥ clicNrIrqs
      · simp only [exec, domainAlloc, hp, hn, if_true]
        rfl
      · have hroute : (intmatrixRoute c s hwirq).inputs = c.inputs := by
          unfold intmatrixRoute
          split <;> rfl
        have hctl : ((intmatrixRoute c s hwirq).clicWriteb hwirq .ctl
            (clicctlMake 1 maxPriority)).inputs id = c.inputs id := by
          by_cases h : id = hwirq
          · subst h
            rw [clicWriteb_same, hroute]
            rw [hroute]
            exact (hext hlt hid).2
          · rw [clicWriteb_of_ne _ _ _ _ h, hroute]
        simp only [exec, domainAlloc, hp, hn, if_false]
        split
        · have hattr : id = hwirq → (((intmatrixRoute c s hwirq).clicWriteb hwirq .ctl
              (clicctlMake 1 maxPriority)).inputs id).attr = attrModeS ||| attrTrigLevel := by
            intro h
            rw [hctl]
            exact (hext (Nat.lt_of_lt_of_eq hlt h.symm) hid).1
          rw [setType_inputs _ hattr, hctl]
          rfl
        · rw [hctl]
          rfl
  | setType hwirq flowType =>
    have hi : (setType c hwirq flowType).2.inputs id = c.inputs id :=
      setType_inputs c fun h => (hext (Nat.lt_of_lt_of_eq hop h.symm) hid).1
    rw [exec, hi]
    rfl
  | enable hwirq on =>
    by_cases h : hwirq = id
    · subst h
      have hm : (c.inputs hwirq).sMode = true := hs.resolve_right (by simp [Op.enables])
      rw [exec, irqEnable, clicWriteb_eq, modify_self, if_pos hm, Op.enables, if_pos rfl]
      rfl
    · rw [exec, irqEnable, clicWriteb_of_ne _ _ _ _ (Ne.symm h), Op.enables, if_neg h]
      rfl
  | handle cause =>
    simp only [exec, handleIrq]
    split
    · split
      · rw [config_clicWriteb_ip]
        rfl
      · rfl
    · split <;> rfl
  | work raise => exact config_clicWriteb_ip ..
  | sirq on => exact config_write_ip ..
  | ipi on => exact config_write_ip ..
  | pending i on => exact config_write_ip ..

/-! ## A run -/

@[simp] theorem last_nil {β : Type} (f : Op → Option β) : last f [] = none := rfl

theorem last_append {β : Type} (f : Op → Option β) (ops : List Op) (op : Op) :
    last f (ops ++ [op]) = (f op).or (last f ops) := by
  unfold last
  cases h : f op <;> simp [h]

theorem setup_lt {id : Nat} {s : Setup} (hs : setup id = some s) : id < clicNrIrqs := by
  unfold setup at hs
  split at hs
  · rename_i h
    rcases h with rfl | rfl <;> decide
  split at hs
  · rename_i h
    subst h
    decide
  split at hs
  · rename_i h
    exact h.2
  · simp at hs

theorem setup_sMode {id : Nat} {s : Setup} (hs : setup id = some s) {i : Input}
    (hi : i.attr = s.attr) : i.sMode = true := by
  have ha : s.attr >>> 6 = 1#8 := by
    unfold setup at hs
    split at hs
    · obtain rfl := Option.some.inj hs
      rfl
    split at hs
    · obtain rfl := Option.some.inj hs
      rfl
    split at hs
    · obtain rfl := Option.some.inj hs
      rfl
    · simp at hs
  simp [Input.sMode, hi, ha]

theorem setup_external {id : Nat} (h : irqWorkId < id) (hlt : id < clicNrIrqs) :
    setup id = some ⟨attrModeS ||| attrTrigLevel, clicctlMake 1 maxPriority, false⟩ := by
  unfold irqWorkId clicExtMinId at h
  unfold setup irqWorkId clicExtMinId Sbi.ssoftId Sbi.stimerId
  rw [if_neg (by omega), if_neg (by omega), if_pos ⟨h, hlt⟩]

theorem Config.boot (c : Clic) : Config c [] (boot c) where
  inputs _ _ hs := boot_config c hs
  mtimer := by
    rw [boot_local c (by decide), (timerInit_local c).2.2]
    rfl
  matrix source := by simp [(boot_rest c).1]
  threshold := (boot_rest c).2

theorem Config.step {c₀ c : Clic} {ops : List Op} {op : Op} (h : Config c₀ ops c)
    (hop : op.Proper) : Config c₀ (ops ++ [op]) (exec c op) where
  inputs id s hs := by
    have hc := h.inputs id s hs
    simp only [Input.config, Prod.mk.injEq] at hc
    obtain ⟨hie, hattr, hctl⟩ := hc
    have hext : irqWorkId < id → id < clicNrIrqs →
        (c.inputs id).attr = attrModeS ||| attrTrigLevel ∧
          (c.inputs id).ctl = clicctlMake 1 maxPriority := by
      intro h1 h2
      obtain rfl := Option.some.inj (hs.symm.trans (setup_external h1 h2))
      exact ⟨hattr, hctl⟩
    rw [exec_config hop (.inl (setup_sMode hs hattr)) hext (setup_lt hs), last_append, hattr, hctl,
      hie]
    cases op.enables id <;> rfl
  mtimer := by
    have hc := h.mtimer
    simp only [Input.config, Prod.mk.injEq] at hc
    obtain ⟨hie, hattr, hctl⟩ := hc
    have hm : (c.inputs Sbi.mtimerId).sMode = false := by simp [Input.sMode, hattr, attrModeM,
      attrTrigEdge]
    cases op with
    | enable hwirq on =>
      by_cases hid : Sbi.mtimerId = hwirq
      · subst hid
        rw [exec, irqEnable, clicWriteb, hm]
        exact h.mtimer
      · rw [exec, irqEnable, clicWriteb_of_ne _ _ _ _ hid]
        exact h.mtimer
    | alloc | setType | handle | work | sirq | ipi | pending =>
      rw [exec_config hop (.inr rfl) (fun hlt => absurd hlt (by decide)) (by decide), hie, hattr,
        hctl]
      rfl
  matrix source := by
    rw [exec_matrix, h.matrix, last_append]
    split
    · cases op.route source with
      | none => rfl
      | some hwirq =>
        cases last (Op.route source) ops with
        | none => rfl
        | some hwirq' => exact routeWord_routeWord ..
    · rfl
  threshold := by rw [exec_sintthresh, h.threshold]

/-- A CLIC of zeros. -/
def zeroClic : Clic := ⟨fun _ => ⟨0, 0, 0, 0⟩, fun _ => 0, 0⟩

end Esp32S31.Irq
