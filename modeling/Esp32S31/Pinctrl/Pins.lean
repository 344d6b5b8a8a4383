import Esp32S31.Pinctrl.Readback

/-!
# The changes of several pins

`do_gpio_set` on one pin after the other, each once. What is written of a pin depends on its own
words only (`Untouched.writes`), and nothing else changes (`Within`).

**`foldl_own`**: each pin ends as its own change alone leaves it; **`foldl_untouched`**: every other
pin is as before; **`foldl_eq_self`**: nothing changes at all iff no pin does.
-/

namespace Esp32S31.Pinctrl

open Esp32S31.Lib

/-! ## The words of the pin -/

section Own

variable {r r' : Regs} {pin : Nat}

theorem gpioBit_w1_other {reg0 reg1 a0 a1 : Nat} (hreg : BitRegs reg0 reg1)
    (hne : bank pin a0 a1 / 4 ≠ bank pin reg0 reg1 / 4) (r : Regs) (set : Bool) :
    gpioBit (gpioW1 r pin reg0 reg1 set) pin a0 a1 = gpioBit r pin a0 a1 := by
  rw [gpioW1_eq r pin hreg]
  exact congrArg (BitVec.getLsbD · (pin % 32)) (gpioRd_update r _ _ _ hne)

/-- What a write does to the words of the pin depends on these words. -/
theorem Untouched.w1 (h : Untouched r r' pin) {reg0 reg1 : Nat} (hreg : BitRegs reg0 reg1)
    (set : Bool) : Untouched (gpioW1 r pin reg0 reg1 set) (gpioW1 r' pin reg0 reg1 set) pin := by
  obtain ⟨heo, -, -⟩ := words_ne pin
  have hword (off : Nat) (hoff : 0xf4 ≤ off) : off / 4 ≠ reg0 / 4 ∧ off / 4 ≠ reg1 / 4 := by
    have hle : reg0 ≤ 0x40 ∧ reg1 ≤ 0x40 := by
      rcases hreg with ⟨rfl, rfl⟩ | ⟨rfl, rfl⟩ <;> decide
    omega
  have hpad := hword (gpioPin pin) (by unfold gpioPin; omega)
  have hsel := hword (gpioOutSel pin) (by unfold gpioOutSel; omega)
  refine ⟨?_, ?_, ?_, ?_, ?_⟩
  · rw [gpioW1_eq r pin hreg, gpioW1_eq r' pin hreg]
    exact h.iomux
  · rw [gpioRd_w1 r pin hreg set hpad, gpioRd_w1 r' pin hreg set hpad, h.pad]
  · rw [gpioRd_w1 r pin hreg set hsel, gpioRd_w1 r' pin hreg set hsel, h.outSel]
  · rcases hreg with ⟨rfl, rfl⟩ | ⟨rfl, rfl⟩
    · rw [gpioBit_w1_self r pin outRegs, gpioBit_w1_self r' pin outRegs]
    · rw [gpioBit_w1_other enableRegs heo.symm, gpioBit_w1_other enableRegs heo.symm, h.out]
  · rcases hreg with ⟨rfl, rfl⟩ | ⟨rfl, rfl⟩
    · rw [gpioBit_w1_other outRegs heo, gpioBit_w1_other outRegs heo, h.enable]
    · rw [gpioBit_w1_self r pin enableRegs, gpioBit_w1_self r' pin enableRegs]

theorem Untouched.outSelWrite (h : Untouched r r' pin) (x : U32) :
    Untouched (gpioWr r (gpioOutSel pin) x) (gpioWr r' (gpioOutSel pin) x) pin := by
  obtain ⟨-, hso, hse⟩ := words_ne pin
  have hpad : gpioPin pin / 4 ≠ gpioOutSel pin / 4 := by
    unfold gpioPin gpioOutSel
    omega
  have hself (t : Regs) : gpioRd { t with gpio := Function.update t.gpio (gpioOutSel pin / 4) x }
      (gpioOutSel pin) = x := Function.update_self _ _ _
  rw [gpioWr_outSel, gpioWr_outSel]
  refine ⟨h.iomux, ?_, ?_, ?_, ?_⟩
  · rw [gpioRd_update r _ _ x hpad, gpioRd_update r' _ _ x hpad, h.pad]
  · rw [hself r, hself r']
  · unfold gpioBit
    rw [gpioRd_update r _ _ x hso.symm, gpioRd_update r' _ _ x hso.symm]
    exact h.out
  · unfold gpioBit
    rw [gpioRd_update r _ _ x hse.symm, gpioRd_update r' _ _ x hse.symm]
    exact h.enable

theorem Untouched.iomuxWrite (h : Untouched r r' pin) (clr set : U32) :
    Untouched (iomuxUpdate r pin clr set) (iomuxUpdate r' pin clr set) pin where
  iomux := by rw [iomuxUpdate_self, iomuxUpdate_self, h.iomux]
  pad := h.pad
  outSel := h.outSel
  out := h.out
  enable := h.enable

theorem Untouched.cnntWrite (h : Untouched r r' pin) (func : Nat) :
    Untouched (cnntSelect r pin func) (cnntSelect r' pin func) pin := by
  obtain ⟨hio, hgp⟩ := cnntSelect_only r pin func
  obtain ⟨hio', hgp'⟩ := cnntSelect_only r' pin func
  refine ⟨by rw [hio, hio', h.iomux], ?_, ?_, ?_, ?_⟩ <;>
    simp only [gpioBit, gpioRd, hgp, hgp']
  · exact h.pad
  · exact h.outSel
  · exact h.out
  · exact h.enable

theorem Untouched.modeWrite (h : Untouched r r' pin) (mode : Mode) :
    Untouched (pinSetMode r pin mode) (pinSetMode r' pin mode) pin := by
  cases mode with
  | alt func => exact (h.cnntWrite func).iomuxWrite _ _
  | ip => exact ((h.outSelWrite _).w1 enableRegs _).iomuxWrite _ _
  | op => exact ((h.outSelWrite _).w1 enableRegs _).iomuxWrite _ _
  | no => exact ((h.outSelWrite _).w1 enableRegs _).iomuxWrite _ _
  | mx => exact ((h.outSelWrite _).w1 enableRegs _).iomuxWrite _ _

/-- **The change of a pin** depends on the words of the pin. -/
theorem Untouched.writes (h : Untouched r r' pin) (params : SetParams) :
    Untouched (setWrites params r pin) (setWrites params r' pin) pin := by
  obtain ⟨drive, fsel, pull⟩ := params
  have hdrive : Untouched (drive.elim r (pinSetOut r pin)) (drive.elim r' (pinSetOut r' pin))
      pin := by
    cases drive with
    | none => exact h
    | some high => exact h.w1 outRegs high
  have hmode {t t' : Regs} (ht : Untouched t t' pin) :
      Untouched (fsel.elim t (pinSetMode t pin)) (fsel.elim t' (pinSetMode t' pin))
        pin := by
    cases fsel with
    | none => exact ht
    | some mode => exact ht.modeWrite mode
  have hpull {t t' : Regs} (ht : Untouched t t' pin) :
      Untouched (pull.elim t (pinSetPull t pin)) (pull.elim t' (pinSetPull t' pin)) pin := by
    cases pull with
    | none => exact ht
    | some pull => exact ht.iomuxWrite _ _
  exact hpull (hmode hdrive)

end Own

/-! ## The other words -/

/-- A change of one pin, word by word: its IO MUX word and its OUT_SEL word, and its bits of OUT and
ENABLE. -/
structure Within (pin : Nat) (r r' : Regs) : Prop where
  live : r'.live = r.live
  iomux : ∀ p, p ≠ pin → r'.iomux p = r.iomux p
  gpio : ∀ i, i ≠ gpioOutSel pin / 4 → ∀ j < 32,
    (j = pin % 32 → i ≠ bank pin gpioOut gpioOut1 / 4 ∧ i ≠ bank pin gpioEnable gpioEnable1 / 4) →
    (r'.gpio i).getLsbD j = (r.gpio i).getLsbD j

theorem Within.refl (pin : Nat) (r : Regs) : Within pin r r :=
  ⟨rfl, fun _ _ => rfl, fun _ _ _ _ _ => rfl⟩

theorem Within.trans {pin : Nat} {r r' r'' : Regs} (h : Within pin r r') (h' : Within pin r' r'') :
    Within pin r r'' where
  live := h'.live.trans h.live
  iomux p hp := (h'.iomux p hp).trans (h.iomux p hp)
  gpio i hi j hj hne := (h'.gpio i hi j hj hne).trans (h.gpio i hi j hj hne)

/-- A change that leaves the words of the pin and CNNT is none. -/
theorem Within.eq {pin : Nat} {r r' : Regs} (h : Within pin r r') (hu : Untouched r r' pin)
    (hc : r'.cnnt = r.cnnt) : r' = r := by
  have hiomux : r'.iomux = r.iomux := by
    funext p
    by_cases hp : p = pin
    · rw [hp, hu.iomux]
    · exact h.iomux p hp
  have hgpio : r'.gpio = r.gpio := by
    funext i
    by_cases hi : i = gpioOutSel pin / 4
    · rw [hi]
      exact hu.outSel
    · apply BitVec.eq_of_getLsbD_eq
      intro j hj
      by_cases hout : j = pin % 32 ∧ i = bank pin gpioOut gpioOut1 / 4
      · rw [hout.1, hout.2]
        exact hu.out
      · by_cases hen : j = pin % 32 ∧ i = bank pin gpioEnable gpioEnable1 / 4
        · rw [hen.1, hen.2]
          exact hu.enable
        · exact h.gpio i hi j hj fun e => ⟨fun ei => hout ⟨e, ei⟩, fun ei => hen ⟨e, ei⟩⟩
  have hlive := h.live
  cases r
  cases r'
  simp_all

section Writes

variable (r : Regs) (pin : Nat)

theorem gpioW1_within {reg0 reg1 : Nat} (hreg : BitRegs reg0 reg1) (set : Bool) :
    Within pin r (gpioW1 r pin reg0 reg1 set) := by
  rw [gpioW1_eq r pin hreg]
  refine ⟨rfl, fun _ _ => rfl, fun i hi j hj hne => ?_⟩
  dsimp only
  by_cases hb : i = bank pin reg0 reg1 / 4
  · have hbit : j ≠ pin % 32 := by
      intro hj
      rcases hreg with ⟨rfl, rfl⟩ | ⟨rfl, rfl⟩
      · exact (hne hj).1 hb
      · exact (hne hj).2 hb
    rw [hb, Function.update_self, getLsbD_w1 _ set hj hbit]
  · rw [Function.update_of_ne hb]

theorem outSel_within (x : U32) : Within pin r (gpioWr r (gpioOutSel pin) x) := by
  rw [gpioWr_outSel]
  refine ⟨rfl, fun _ _ => rfl, fun i hi j _ _ => ?_⟩
  dsimp only
  rw [Function.update_of_ne hi]

theorem iomuxUpdate_within (clr set : U32) : Within pin r (iomuxUpdate r pin clr set) :=
  ⟨rfl, fun _ hp => Function.update_of_ne hp _ _, fun _ _ _ _ _ => rfl⟩

theorem cnntSelect_live (func : Nat) : (cnntSelect r pin func).live = r.live := by
  unfold cnntSelect
  generalize cnntPads = pads
  induction pads generalizing r with
  | nil => rfl
  | cons c pads ih =>
    rw [List.foldl_cons, ih]
    split <;> rfl

theorem cnntSelect_within (func : Nat) : Within pin r (cnntSelect r pin func) := by
  obtain ⟨hio, hgp⟩ := cnntSelect_only r pin func
  exact ⟨cnntSelect_live r pin func, fun p _ => by rw [hio], fun i _ j _ _ => by rw [hgp]⟩

theorem pinSetMode_within (mode : Mode) : Within pin r (pinSetMode r pin mode) := by
  have hmatrix (en : Bool) (clr set : U32) : Within pin r (iomuxUpdate
      (gpioW1 (gpioWr r (gpioOutSel pin) sigGpioOut) pin gpioEnable gpioEnable1 en) pin clr set) :=
    ((outSel_within r pin _).trans (gpioW1_within _ pin enableRegs en)).trans
      (iomuxUpdate_within _ pin clr set)
  cases mode with
  | alt func => exact (cnntSelect_within r pin func).trans (iomuxUpdate_within _ pin _ _)
  | ip => exact hmatrix _ _ _
  | op => exact hmatrix _ _ _
  | no => exact hmatrix _ _ _
  | mx => exact hmatrix _ _ _

theorem setWrites_within (params : SetParams) : Within pin r (setWrites params r pin) := by
  obtain ⟨drive, fsel, pull⟩ := params
  have hdrive : Within pin r (drive.elim r (pinSetOut r pin)) := by
    cases drive with
    | none => exact .refl pin r
    | some high => exact gpioW1_within r pin outRegs high
  have hmode (t : Regs) : Within pin t (fsel.elim t (pinSetMode t pin)) := by
    cases fsel with
    | none => exact .refl pin t
    | some mode => exact pinSetMode_within t pin mode
  have hpull (t : Regs) : Within pin t (pull.elim t (pinSetPull t pin)) := by
    cases pull with
    | none => exact .refl pin t
    | some pull => exact iomuxUpdate_within t pin _ _
  exact (hdrive.trans (hmode _)).trans (hpull _)

end Writes

/-! ## One pin after the other -/

section Fold

variable {params : SetParams} {pins : List Nat}

/-- A pin that is not one of them is as before. -/
theorem foldl_untouched (hlt : ∀ g ∈ pins, g < npins) {q : Nat} (hq : q < npins) (hne : q ∉ pins)
    (r : Regs) : Untouched r (pins.foldl (setWrites params) r) q := by
  induction pins generalizing r with
  | nil => exact .refl r q
  | cons g pins ih =>
    rw [List.mem_cons, not_or] at hne
    have hg := (setWrites_only (r := r) (hlt g List.mem_cons_self) params).1
    exact (hg.other q hq hne.1).trans (ih (fun x hx => hlt x (List.mem_cons_of_mem g hx)) hne.2 _)

/-- **Each pin ends as its own change leaves it.** -/
theorem foldl_own (hlt : ∀ g ∈ pins, g < npins) (hnodup : pins.Nodup) {g : Nat} (hg : g ∈ pins)
    (r : Regs) : Untouched (setWrites params r g) (pins.foldl (setWrites params) r) g := by
  induction pins generalizing r with
  | nil => exact absurd hg List.not_mem_nil
  | cons g' pins ih =>
    obtain ⟨hnew, hnodup⟩ := List.nodup_cons.mp hnodup
    have hpins : ∀ x ∈ pins, x < npins := fun x hx => hlt x (List.mem_cons_of_mem g' hx)
    rcases List.mem_cons.mp hg with rfl | hmem
    · exact foldl_untouched hpins (hlt g List.mem_cons_self) hnew _
    · -- the change of the first pin comes before, but not on the words of this one
      have hne : g ≠ g' := by
        rintro rfl
        exact hnew hmem
      have hfirst := (setWrites_only (r := r) (hlt g' List.mem_cons_self) params).1
      exact ((hfirst.other g (hpins g hmem) hne).writes params).trans (ih hpins hnodup hmem _)

/-- CNNT gains the select bits of the functions. -/
theorem foldl_cnnt (hlt : ∀ g ∈ pins, g < npins) (r : Regs) (i : Nat) :
    (pins.foldl (setWrites params) r).cnnt.getLsbD i = true ↔ r.cnnt.getLsbD i = true ∨
      ∃ g ∈ pins, ∃ mode ∈ params.fsel, Selects g mode i := by
  induction pins generalizing r with
  | nil => simp
  | cons g pins ih =>
    have hg := (setWrites_only (r := r) (hlt g List.mem_cons_self) params).2 i
    rw [List.foldl_cons, ih (fun x hx => hlt x (List.mem_cons_of_mem g hx)), hg, or_assoc]
    simp

/-- **Nothing changes** iff no pin changes. -/
theorem foldl_eq_self (hlt : ∀ g ∈ pins, g < npins) (hnodup : pins.Nodup) (r : Regs) :
    pins.foldl (setWrites params) r = r ↔ ∀ g ∈ pins, setWrites params r g = r := by
  constructor
  · intro h g hg
    have hown : Untouched (setWrites params r g) (pins.foldl (setWrites params) r) g :=
      foldl_own hlt hnodup hg r
    rw [h] at hown
    have hback : Untouched r (setWrites params r g) g :=
      ⟨hown.iomux.symm, hown.pad.symm, hown.outSel.symm, hown.out.symm, hown.enable.symm⟩
    refine (setWrites_within r g params).eq hback ?_
    apply BitVec.eq_of_getLsbD_eq
    intro i _
    have hall : (pins.foldl (setWrites params) r).cnnt.getLsbD i = true ↔ _ := foldl_cnnt hlt r i
    rw [h] at hall
    rw [Bool.eq_iff_iff, (setWrites_only (r := r) (hlt g hg) params).2 i]
    constructor
    · rintro (hi | hi)
      · exact hi
      · exact hall.mpr (Or.inr ⟨g, hg, hi⟩)
    · exact Or.inl
  · intro h
    induction pins with
    | nil => rfl
    | cons g pins ih =>
      rw [List.foldl_cons, h g List.mem_cons_self]
      exact ih (fun x hx => hlt x (List.mem_cons_of_mem g hx)) (List.nodup_cons.mp hnodup).2
        fun x hx => h x (List.mem_cons_of_mem g hx)

end Fold

end Esp32S31.Pinctrl
