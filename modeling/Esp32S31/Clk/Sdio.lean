import Esp32S31.Lib.Division
import Esp32S31.Lib.Field

/-!
# The clock of the SD host

`clk-esp32s31.c`: the SD host gets its parent clock divided by 2 to 16. The clock framework rounds
a request with `determine_rate`, gives the rounded rate to `set_rate` and reads it back with
`recalc_rate`. A rate is a rounded-down quotient of the parent, and its divider a rounded-up one,
so the divider of a rounded rate can be a larger one than the rate was made with.

* **`sdio_keeps_iff`**: a rounded rate is set and stays as it is exactly when the divider that the
  request calls for is the largest one or leaves no rest (`Rounds`; the rest of its text is about
  small parents and sums that wrap).
* `sdio_keeps_mpll`: that in plain terms, for parents from 256 Hz to 2 GHz.
* `sdio_drops_rate`: a request of 150 MHz from 400 MHz.
-/

namespace Esp32S31.Clk

open Esp32S31.Lib

/-! ## The model -/

/-- `HP_SDIO_EDGE_UPDATE`, `HP_SDIO_EDGE_L`, `HP_SDIO_EDGE_H`, `HP_SDIO_EDGE_N`,
`HP_SDIO_DRV_EDGE_SEL`, `HP_SDIO_PHASE_CLK_EN`. -/
def sdioEdgeUpdate : Field := ⟨0, 0, by decide, by decide⟩
def sdioEdgeL : Field := ⟨4, 1, by decide, by decide⟩
def sdioEdgeH : Field := ⟨8, 5, by decide, by decide⟩
def sdioEdgeN : Field := ⟨12, 9, by decide, by decide⟩
def sdioDrvEdgeSel : Field := ⟨18, 16, by decide, by decide⟩
def sdioPhaseClkEn : Field := ⟨24, 22, by decide, by decide⟩

/-- `HP_SDIO_DIV_MAX`. -/
def sdioDivMax : U32 := 16

/-- `clamp`. -/
def clamp (x lo hi : U32) : U32 := if x < lo then lo else if hi < x then hi else x

/-- `esp32s31_sdio_div`. -/
def sdioDiv (rate parentRate : U32) : U32 :=
  if rate = 0 then sdioDivMax else clamp (divRoundUp parentRate rate) 2 sdioDivMax

/-- `esp32s31_sdio_recalc_rate`. -/
def sdioRecalcRate (reg parentRate : U32) : U32 := parentRate / (sdioEdgeN.get reg + 1)

/-- `esp32s31_sdio_determine_rate`: the rate that the request becomes. -/
def sdioDetermineRate (rate bestParentRate : U32) : U32 :=
  bestParentRate / sdioDiv rate bestParentRate

/-- `esp32s31_sdio_set_rate`: the two words that it writes; the register keeps the second. -/
def sdioSetRate (rate parentRate : U32) : U32 × U32 :=
  let div := sdioDiv rate parentRate
  let val := sdioEdgeL.prep (div - 1) ||| sdioEdgeH.prep (div / 2 - 1) |||
    sdioEdgeN.prep (div - 1) ||| sdioDrvEdgeSel.prep 1 ||| sdioPhaseClkEn.mask
  (val ||| sdioEdgeUpdate.mask, val)

/-! ## What the framework relies on -/

/-- The promise of `determine_rate` for a request: what `set_rate` gives is the rounded rate, which
does not exceed the request unless the largest divider is still too small, and which is not rounded
again. -/
structure Keeps (parent req : U32) : Prop where
  set : sdioRecalcRate (sdioSetRate (sdioDetermineRate req parent) parent).2 parent =
    sdioDetermineRate req parent
  bound : sdioDetermineRate req parent ≤ req ∨ req.toNat < parent.toNat / 16
  stable : sdioDetermineRate (sdioDetermineRate req parent) parent = sdioDetermineRate req parent

/-- `d` is the divider that a request calls for: the least one from 2 to 16 that brings the parent
down to it, or 16. -/
def Wanted (parent req d : Nat) : Prop :=
  (2 ≤ d ∧ d ≤ 16) ∧ (parent ≤ d * req ∨ d = 16) ∧ (d = 2 ∨ (d - 1) * req < parent)

/-- The rate `parent / d` is again divided to itself: it divides the parent, or 16 is enough for it.
A sum that wraps divides by 2. -/
def Stays (parent d : Nat) : Prop :=
  if 2 ^ 32 < parent + parent / d then parent / 2 = parent / d
  else parent / d ∣ parent ∨ 16 * (parent / d) ≤ parent

/-- The parents and requests that are rounded to a rate that stays. -/
def Rounds (parent req : Nat) : Prop :=
  if 0 < req ∧ 2 ^ 32 < parent + req then
    (parent / 2 ≤ req ∨ req < parent / 16) ∧ Stays parent 2
  else ∃ d, Wanted parent req d ∧ Stays parent d

/-! ## The divider -/

theorem toNat_clamp (x : U32) :
    (clamp x 2 sdioDivMax).toNat = max 2 (min x.toNat 16) := by
  have hlo : x < 2 ↔ x.toNat < 2 := Iff.rfl
  have hhi : sdioDivMax < x ↔ 16 < x.toNat := Iff.rfl
  unfold clamp
  by_cases h : x.toNat < 2
  · rw [if_pos (hlo.mpr h)]
    simp only [BitVec.ofNat_eq_ofNat, BitVec.toNat_ofNat]
    omega
  · rw [if_neg (fun hx => h (hlo.mp hx))]
    by_cases h16 : 16 < x.toNat
    · rw [if_pos (hhi.mpr h16), show sdioDivMax.toNat = 16 by decide]
      omega
    · rw [if_neg (fun hx => h16 (hhi.mp hx))]
      omega

section Div

variable (rate parent : U32)

theorem sdioDiv_range : 2 ≤ (sdioDiv rate parent).toNat ∧ (sdioDiv rate parent).toNat ≤ 16 := by
  unfold sdioDiv
  split
  · decide
  · rw [toNat_clamp]
    omega

/-- `recalc_rate` divides by the divider that `set_rate` has set. -/
theorem recalc_setRate : sdioRecalcRate (sdioSetRate rate parent).2 parent =
    parent / sdioDiv rate parent := by
  obtain ⟨hmin, hmax⟩ := sdioDiv_range rate parent
  have hone : (sdioDiv rate parent - 1).toNat = (sdioDiv rate parent).toNat - 1 := by
    rw [BitVec.toNat_sub]
    simp only [BitVec.ofNat_eq_ofNat, BitVec.toNat_ofNat]
    omega
  have hmask : sdioEdgeN.get sdioPhaseClkEn.mask = 0#32 := by decide
  have hfit : sdioEdgeN.get (sdioEdgeN.prep (sdioDiv rate parent - 1)) =
      sdioDiv rate parent - 1 := by
    have hw : sdioEdgeN.width = 4 := rfl
    rw [Field.get_prep_iff, hone, hw]
    omega
  unfold sdioRecalcRate sdioSetRate
  dsimp only
  rw [Field.get_or, Field.get_or, Field.get_or, Field.get_or, hmask, hfit,
    sdioEdgeN.get_prep_other (g := sdioEdgeL) (by simp [sdioEdgeN, sdioEdgeL]),
    sdioEdgeN.get_prep_other (g := sdioEdgeH) (by simp [sdioEdgeN, sdioEdgeH]),
    sdioEdgeN.get_prep_other (g := sdioDrvEdgeSel) (by simp [sdioEdgeN, sdioDrvEdgeSel])]
  simp [BitVec.sub_add_cancel]

/-- The divider of a rate, while the sum of the rounding does not wrap. -/
theorem toNat_sdioDiv_lt (hpos : 0 < rate.toNat) (h : parent.toNat + rate.toNat ≤ 2 ^ 32) :
    (sdioDiv rate parent).toNat = max 2 (min (parent.toNat ⌈/⌉ rate.toNat) 16) := by
  have hne : rate ≠ 0 := by
    rintro rfl
    exact absurd hpos (by decide)
  unfold sdioDiv
  rw [if_neg hne, toNat_clamp, toNat_divRoundUp_lt h hpos]

theorem toNat_sdioDiv_wrap (h : 2 ^ 32 < parent.toNat + rate.toNat) :
    (sdioDiv rate parent).toNat = 2 := by
  have hparent := parent.isLt
  have hne : rate ≠ 0 := by
    rintro rfl
    simp only [BitVec.ofNat_eq_ofNat, BitVec.toNat_ofNat] at h
    omega
  unfold sdioDiv
  rw [if_neg hne, toNat_clamp, toNat_divRoundUp_wrap h]
  rfl

theorem toNat_determineRate :
    (sdioDetermineRate rate parent).toNat = parent.toNat / (sdioDiv rate parent).toNat := by
  unfold sdioDetermineRate
  rw [BitVec.toNat_udiv]

end Div

/-! ## Rounding a request -/

section Request

variable {parent req d : Nat}

theorem exists_wanted (parent req : Nat) : ∃ d, Wanted parent req d := by
  by_cases hpos : 0 < req
  · have hle : ∀ k, parent ⌈/⌉ req ≤ k ↔ parent ≤ req * k := fun k => ceilDiv_le_iff_le_mul hpos
    refine ⟨max 2 (min (parent ⌈/⌉ req) 16), by omega, ?_, ?_⟩
    · by_cases h16 : parent ⌈/⌉ req ≤ 16
      · have hself := (hle _).mp (Nat.le_max_right 2 (parent ⌈/⌉ req))
        rw [Nat.min_eq_left h16, Nat.mul_comm]
        exact Or.inl hself
      · right
        omega
    · by_cases h2 : parent ⌈/⌉ req ≤ 2
      · left
        omega
      · right
        rw [← Nat.not_le, Nat.mul_comm, ← hle]
        omega
  · obtain rfl : req = 0 := by omega
    by_cases hp : parent = 0
    · subst hp
      exact ⟨2, by omega, Or.inl (Nat.zero_le _), Or.inl rfl⟩
    · exact ⟨16, by omega, Or.inr rfl, Or.inr (by omega)⟩

/-- The rate of the wanted divider does not exceed the request, if one brings it down so far. -/
theorem Wanted.bound (h : Wanted parent req d) : parent / d ≤ req ∨ req < parent / 16 := by
  obtain ⟨⟨h2, -⟩, hle, -⟩ := h
  rcases hle with hle | rfl
  · left
    exact Nat.div_le_of_le_mul hle
  · exact (Nat.lt_or_ge _ _).symm

end Request

/-- A request is divided by the divider that it calls for. -/
theorem Wanted.rate {parent req : U32} {d : Nat} (h : Wanted parent.toNat req.toNat d)
    (hsum : ¬ (0 < req.toNat ∧ 2 ^ 32 < parent.toNat + req.toNat)) :
    (sdioDetermineRate req parent).toNat = parent.toNat / d := by
  obtain ⟨⟨h2, h16⟩, hle, hlt⟩ := h
  rw [toNat_determineRate]
  by_cases hpos : 0 < req.toNat
  · have hceil : ∀ k, parent.toNat ⌈/⌉ req.toNat ≤ k ↔ parent.toNat ≤ k * req.toNat := by
      intro k
      rw [ceilDiv_le_iff_le_mul hpos, Nat.mul_comm]
    rw [toNat_sdioDiv_lt _ _ hpos (by omega)]
    congr 1
    rw [← hceil] at hle
    rw [← Nat.not_le, ← hceil] at hlt
    omega
  · obtain rfl : req = 0 := BitVec.eq_of_toNat_eq (by simp; omega)
    have hdiv : (sdioDiv 0 parent).toNat = 16 := by
      unfold sdioDiv
      rw [if_pos rfl]
      decide
    have hzero : (0 : U32).toNat = 0 := rfl
    rw [hdiv]
    rw [hzero] at hle hlt
    rcases hle with hle | rfl
    · have hp : parent.toNat = 0 := by omega
      rw [hp, Nat.zero_div, Nat.zero_div]
    · rfl

/-! ## Rounding a rounded rate -/

/-- A rate that was divided by `d` is divided again by the divider that it calls for. -/
theorem div_again_iff {p d : Nat} (hd : 2 ≤ d ∧ d ≤ 16) (hr : 0 < p / d) :
    p / max 2 (min (p ⌈/⌉ (p / d)) 16) = p / d ↔ p / d ∣ p ∨ 16 * (p / d) ≤ p := by
  have hmul : p / d * d ≤ p := Nat.div_mul_le_self p d
  have hceil : ∀ k, p ⌈/⌉ (p / d) ≤ k ↔ p ≤ p / d * k := fun k => ceilDiv_le_iff_le_mul hr
  generalize hc : p ⌈/⌉ (p / d) = c at hceil ⊢
  have hself : p ≤ p / d * c := (hceil c).mp (Nat.le_refl c)
  have hdc : d ≤ c := by
    by_contra hlt
    have hle := (hceil (d - 1)).mp (by omega)
    have hone : p / d ≤ p / d * d := Nat.le_mul_of_pos_right _ (by omega)
    rw [Nat.mul_sub, Nat.mul_one] at hle
    omega
  have he : max 2 (min c 16) = min c 16 := by omega
  have hiff : p / min c 16 = p / d ↔ p / d * min c 16 ≤ p := by
    constructor
    · intro heq
      rw [← heq]
      exact Nat.div_mul_le_self _ _
    · intro hle
      refine Nat.le_antisymm (Nat.div_le_div_left (by omega) (by omega)) ?_
      exact (Nat.le_div_iff_mul_le (by omega)).mpr hle
  rw [he, hiff]
  by_cases h16 : c ≤ 16
  · rw [Nat.min_eq_left h16]
    constructor
    · intro hle
      exact Or.inl ⟨c, Nat.le_antisymm hself hle⟩
    · rintro (⟨k, hk⟩ | hle)
      · have hck : c ≤ k := (hceil k).mpr (Nat.le_of_eq hk)
        exact Nat.le_trans (Nat.mul_le_mul_left _ hck) (Nat.le_of_eq hk.symm)
      · exact Nat.le_trans (Nat.mul_le_mul_left _ h16) (by omega)
  · have hlarge : ¬ p ≤ p / d * 16 := fun h => h16 ((hceil 16).mpr h)
    rw [Nat.min_eq_right (by omega)]
    constructor
    · intro hle
      right
      omega
    · intro _
      omega

/-- A rate stays when it is rounded again, or not. -/
theorem determineRate_again {parent r : U32} {d : Nat} (hd : 2 ≤ d ∧ d ≤ 16)
    (hr : r.toNat = parent.toNat / d) :
    sdioDetermineRate r parent = r ↔ Stays parent.toNat d := by
  have hparent := parent.isLt
  rw [← BitVec.toNat_inj, toNat_determineRate, hr]
  unfold Stays
  by_cases hwrap : 2 ^ 32 < parent.toNat + parent.toNat / d
  · rw [if_pos hwrap, toNat_sdioDiv_wrap _ _ (by omega)]
  · rw [if_neg hwrap]
    by_cases hpos : 0 < parent.toNat / d
    · rw [toNat_sdioDiv_lt _ _ (by omega) (by omega), hr]
      exact div_again_iff hd hpos
    · have hzero : parent.toNat / d = 0 := by omega
      have hsmall : parent.toNat < d := (Nat.div_eq_zero_iff.mp hzero).resolve_left (by omega)
      obtain rfl : r = 0 := BitVec.eq_of_toNat_eq (by rw [hr, hzero]; rfl)
      have hdiv : (sdioDiv 0 parent).toNat = 16 := by
        unfold sdioDiv
        rw [if_pos rfl]
        decide
      rw [hdiv, hzero]
      constructor
      · intro _
        right
        omega
      · intro _
        exact Nat.div_eq_of_lt (by omega)

/-! ## The promise -/

theorem keeps_iff (parent req : U32) : Keeps parent req ↔
    (sdioDetermineRate req parent ≤ req ∨ req.toNat < parent.toNat / 16) ∧
      sdioDetermineRate (sdioDetermineRate req parent) parent = sdioDetermineRate req parent := by
  constructor
  · intro h
    exact ⟨h.bound, h.stable⟩
  · rintro ⟨hbound, hstable⟩
    exact ⟨(recalc_setRate _ _).trans hstable, hbound, hstable⟩

/-- **The promise of `determine_rate` holds** exactly for the requests that `Rounds` names. -/
theorem sdio_keeps_iff (parent req : U32) :
    Keeps parent req ↔ Rounds parent.toNat req.toNat := by
  have hle : sdioDetermineRate req parent ≤ req ↔
      (sdioDetermineRate req parent).toNat ≤ req.toNat := Iff.rfl
  rw [keeps_iff, hle]
  unfold Rounds
  split
  · next hsum =>
    have hrate : (sdioDetermineRate req parent).toNat = parent.toNat / 2 := by
      rw [toNat_determineRate, toNat_sdioDiv_wrap _ _ hsum.2]
    rw [determineRate_again (by omega) hrate, hrate]
  · next hsum =>
    constructor
    · rintro ⟨-, hstable⟩
      obtain ⟨d, hd⟩ := exists_wanted parent.toNat req.toNat
      exact ⟨d, hd, (determineRate_again hd.1 (hd.rate hsum)).mp hstable⟩
    · rintro ⟨d, hd, hstays⟩
      have hrate := hd.rate hsum
      refine ⟨?_, (determineRate_again hd.1 hrate).mpr hstays⟩
      rw [hrate]
      exact hd.bound

/-- A rate of a parent from 256 Hz to 2 GHz stays when its divider is 16 or leaves no rest. -/
theorem stays_iff {parent d : Nat} (hmin : 256 ≤ parent) (hmax : parent ≤ 2 ^ 31)
    (hd : 2 ≤ d ∧ d ≤ 16) : Stays parent d ↔ d = 16 ∨ d ∣ parent := by
  have hhalf : parent / d ≤ parent / 2 := Nat.div_le_div_left hd.1 (by decide)
  have hlarge : 16 ≤ parent / d := by
    rw [Nat.le_div_iff_mul_le (by omega)]
    omega
  have hmod : parent % d < d := Nat.mod_lt _ (by omega)
  have hsplit : parent / d * d + parent % d = parent := Nat.div_add_mod' parent d
  unfold Stays
  rw [if_neg (by omega)]
  constructor
  · rintro (hdvd | hle)
    · right
      have hrest : parent / d ∣ parent % d := by
        rw [Nat.dvd_add_iff_right (Nat.dvd_mul_right (parent / d) d), hsplit]
        exact hdvd
      exact Nat.dvd_of_mod_eq_zero (Nat.eq_zero_of_dvd_of_lt hrest (by omega))
    · left
      by_contra hne
      have h15 : parent / d * d ≤ parent / d * 15 := Nat.mul_le_mul_left _ (by omega)
      omega
  · rintro (rfl | hdvd)
    · right
      omega
    · exact Or.inl (Nat.div_dvd_of_dvd hdvd)

/-- **The promise for the rates of the MPLL**: the largest divider, or one without a rest. -/
theorem sdio_keeps_mpll (parent req : U32) (hmin : 256 ≤ parent.toNat)
    (hmax : parent.toNat ≤ 2 ^ 31) (hreq : req.toNat ≤ 2 ^ 31) :
    Keeps parent req ↔ ∃ d, Wanted parent.toNat req.toNat d ∧ (d = 16 ∨ d ∣ parent.toNat) := by
  rw [sdio_keeps_iff]
  unfold Rounds
  rw [if_neg (by omega)]
  refine exists_congr fun d => and_congr_right fun hd => ?_
  exact stays_iff hmin hmax hd.1

/-- 400 MHz for a request of 150 MHz become 133 MHz, and these 100 MHz when they are set. -/
theorem sdio_drops_rate : ¬ Keeps 400000000 150000000 ∧
    sdioDetermineRate 150000000 400000000 = 133333333 ∧
    sdioRecalcRate (sdioSetRate 133333333 400000000).2 400000000 = 100000000 := by
  refine ⟨fun hkeeps => ?_, by decide, by decide⟩
  have hstable := hkeeps.stable
  revert hstable
  decide

end Esp32S31.Clk
