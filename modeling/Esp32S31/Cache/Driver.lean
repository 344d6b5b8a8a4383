import Esp32S31.Cache.Sbi

/-!
# The DMA cache operations of Linux

`esp32s31-cache.c`: a DMA operation rounds its buffer out to full lines and asks OpenSBI for them,
so that the two levels together work on the lines of the buffer and on no other line (`Exact`).

**`cacheSync_iff`**: they do, for each buffer in the RAM of Linux, except one of the size 0 that
starts inside a line. The driver tests the size after the rounding, and this one then has the size
of a line.
-/

namespace Esp32S31.Cache.Linux

open Esp32S31.Lib

/-- `ESP32S31_CACHE_EXTRAM_BASE`, `ESP32S31_CACHE_EXTRAM_SIZE`. -/
def extramBase : U32 := 0x50000000#32
def extramSize : U32 := 0x04000000#32

/-- `ALIGN_DOWN` and `ALIGN` for `ESP32S31_CACHE_LINE_SIZE`. -/
def alignDown (x : U32) : U32 := x &&& ~~~63#32
def align (x : U32) : U32 := (x + 63#32) &&& ~~~63#32

/-- The three DMA operations. -/
inductive DmaOp where
  | wback
  | inv
  | wbackInv
  deriving DecidableEq

/-- The SBI function that an operation asks for. -/
def DmaOp.func : DmaOp → Func
  | .wback => .wback
  | .inv => .inv
  | .wbackInv => .wbackInv

/-- `esp32s31_cache_sync` of Linux: the range that the SBI call gets, if it makes one. -/
def syncRange (paddr size : U32) : Option (U32 × U32) :=
  let last := paddr + size
  let start := alignDown paddr
  let n := align (last - start)
  if n = 0#32 || start < extramBase || extramBase + extramSize < start + n then none
  else some (start, n)

/-- The operation down to the engine: the return value of the SBI call and its operations. -/
def cacheSync (f : DmaOp) (paddr size : U32) : Option (Int × List EngineOp) :=
  (syncRange paddr size).map fun r => vendorExt f.func.id r.1 r.2

/-- The operations of the engine, also if there was no call. -/
def engineOps (f : DmaOp) (paddr size : U32) : List EngineOp :=
  match cacheSync f paddr size with
  | none => []
  | some r => r.2

/-! ## What a DMA operation is for -/

/-- The RAM of Linux: the `memory` node of the device tree without the `reserved-memory` of OpenSBI.
-/
structure InRam (paddr size : U32) : Prop where
  base : 0x50000000 ≤ paddr.toNat
  top : paddr.toNat + size.toNat ≤ 0x50000000 + 0x01000000
  outside : paddr.toNat + size.toNat ≤ fwBase.toNat ∨ fwBase.toNat + fwSize.toNat ≤ paddr.toNat

/-- A byte of the buffer is in the line of `b`. -/
def OnLine (paddr size : U32) (b : Nat) : Prop :=
  ∃ i < size.toNat, (paddr.toNat + i) / lineSize = b / lineSize

/-- **The operation works on the lines of the buffer**: OpenSBI accepts the call, each operation is
of the right kind and has a range, and the lines are those of the buffer. -/
structure Exact (f : DmaOp) (paddr size : U32) : Prop where
  accepted : ∀ r ∈ cacheSync f paddr size, r.1 = 0
  kind : ∀ o ∈ engineOps f paddr size, o ∈ f.func.requests o.addr o.size
  ranged : ∀ o ∈ engineOps f paddr size, o.size ≠ 0#32
  lines : ∀ b, (∃ o ∈ engineOps f paddr size, o.Covers b) ↔ OnLine paddr size b

/-! ## The rounding -/

theorem toNat_alignDown (x : U32) : (alignDown x).toNat = x.toNat / 64 * 64 :=
  U32.toNat_and_not_low 6 x

theorem toNat_align {x : U32} (h : x.toNat + 63 < 2 ^ 32) :
    (align x).toNat = (x.toNat + 63) / 64 * 64 := by
  unfold align
  rw [show (63#32 : U32) = BitVec.ofNat 32 (2 ^ 6 - 1) from rfl, U32.toNat_and_not_low,
    BitVec.toNat_add]
  simp only [BitVec.toNat_ofNat]
  omega

variable {f : DmaOp} {paddr size : U32}

/-- In the RAM of Linux the driver rounds out to full lines, and makes no call for no line. -/
theorem syncRange_eq (h : InRam paddr size) : ∃ start n : U32,
    start.toNat = paddr.toNat / 64 * 64 ∧
    n.toNat = (paddr.toNat % 64 + size.toNat + 63) / 64 * 64 ∧
    syncRange paddr size = if n = 0#32 then none else some (start, n) := by
  obtain ⟨hbase, htop, -⟩ := h
  have hstart := toNat_alignDown paddr
  have hlast : (paddr + size - alignDown paddr).toNat = paddr.toNat % 64 + size.toNat := by
    have hlt := paddr.isLt
    rw [BitVec.toNat_sub, BitVec.toNat_add, hstart]
    omega
  have hn : (align (paddr + size - alignDown paddr)).toNat =
      (paddr.toNat % 64 + size.toNat + 63) / 64 * 64 := by
    rw [toNat_align (by omega), hlast]
  refine ⟨alignDown paddr, align (paddr + size - alignDown paddr), hstart, hn, ?_⟩
  have hlo : ¬ alignDown paddr < extramBase := by
    rw [BitVec.lt_def, hstart, show extramBase.toNat = 0x50000000 from rfl]
    omega
  have hhi : ¬ extramBase + extramSize < alignDown paddr +
      align (paddr + size - alignDown paddr) := by
    rw [BitVec.lt_def, show (extramBase + extramSize).toNat = 0x54000000 from rfl, BitVec.toNat_add,
      hstart, hn]
    omega
  simp [syncRange, hlo, hhi]

/-- OpenSBI carries the call out, because the borders of its memory are borders of lines. -/
theorem vendorExt_range (h : InRam paddr size) {start n : U32}
    (hs : start.toNat = paddr.toNat / 64 * 64)
    (hn : n.toNat = (paddr.toNat % 64 + size.toNat + 63) / 64 * 64) (h0 : n ≠ 0#32) :
    vendorExt f.func.id start n = (0, f.func.requests start n) := by
  rw [vendorExt_of, if_neg]
  rintro ⟨-, hno⟩
  have hallowed : cacheOpAllowed cacheInvalidate start n = true := by
    obtain ⟨hbase, htop, hout⟩ := h
    have hfw : fwBase.toNat = 0x50f00000 := rfl
    have hfs : fwSize.toNat = 0x30000 := rfl
    refine (cacheOpAllowed_inv start n).mpr ⟨h0, ?_, ?_⟩ <;> omega
  rw [hallowed] at hno
  cases hno

/-- The three operations ask for one operation of the engine. -/
theorem DmaOp.requests_single (f : DmaOp) : ∃ op passes, ∀ a0 a1,
    f.func.requests a0 a1 = [⟨cacheMapL1Dcache, op, a0, a1, passes⟩] := by
  cases f with
  | wback => exact ⟨cacheWriteback, 2, fun _ _ => rfl⟩
  | inv => exact ⟨cacheInvalidate, 1, fun _ _ => rfl⟩
  | wbackInv => exact ⟨cacheWritebackInv, 2, fun _ _ => rfl⟩

/-- The lines that the rounded range covers: those of the buffer, and for the size 0 the line that
the start is inside of. -/
theorem covers_rounded (h : InRam paddr size) {o : EngineOp}
    (hs : o.addr.toNat = paddr.toNat / 64 * 64)
    (hn : o.size.toNat = (paddr.toNat % 64 + size.toNat + 63) / 64 * 64) (h0 : o.size ≠ 0#32)
    (b : Nat) : o.Covers b ↔ OnLine paddr size b ∨ size = 0#32 ∧ paddr.toNat / 64 = b / 64 := by
  obtain ⟨hbase, htop, -⟩ := h
  unfold EngineOp.Covers OnLine lineSize
  rw [← BitVec.toNat_inj (x := size)]
  simp only [BitVec.toNat_ofNat]
  constructor
  · rintro (hz | ⟨i, hi, hb⟩)
    · exact absurd hz h0
    · rw [Nat.mod_eq_of_lt (by omega), hs] at hb
      by_cases hzero : size.toNat = 0
      · right
        omega
      · left
        by_cases hfirst : paddr.toNat / 64 = b / 64
        · exact ⟨0, by omega, by omega⟩
        · exact ⟨b / 64 * 64 - paddr.toNat, by omega, by omega⟩
  · rintro (⟨i, hi, hb⟩ | ⟨hz, hb⟩)
    · refine Or.inr ⟨paddr.toNat % 64 + i, by omega, ?_⟩
      rw [Nat.mod_eq_of_lt (by omega), hs]
      omega
    · refine Or.inr ⟨0, ?_, ?_⟩
      · have : o.size.toNat ≠ 0 := fun e => h0 (BitVec.eq_of_toNat_eq e)
        omega
      · rw [Nat.mod_eq_of_lt (by omega), hs]
        omega

/-! ## The two levels together -/

/-- The operations of the engine, for each buffer in the RAM of Linux. -/
theorem cacheSync_eq (h : InRam paddr size) : ∃ start n : U32,
    start.toNat = paddr.toNat / 64 * 64 ∧
    n.toNat = (paddr.toNat % 64 + size.toNat + 63) / 64 * 64 ∧
    cacheSync f paddr size = if n = 0#32 then none else some (0, f.func.requests start n) := by
  obtain ⟨start, n, hs, hn, heq⟩ := syncRange_eq h
  refine ⟨start, n, hs, hn, ?_⟩
  unfold cacheSync
  rw [heq]
  by_cases h0 : n = 0#32
  · rw [if_pos h0, if_pos h0]
    rfl
  · rw [if_neg h0, if_neg h0, Option.map_some, vendorExt_range h hs hn h0]

/-- **A DMA operation works on the lines of its buffer, but for the size 0 inside a line.** -/
theorem cacheSync_iff (f : DmaOp) (paddr size : U32) (h : InRam paddr size) :
    Exact f paddr size ↔ size ≠ 0#32 ∨ paddr.toNat % lineSize = 0 := by
  obtain ⟨start, n, hs, hn, heq⟩ := cacheSync_eq (f := f) h
  obtain ⟨op, passes, hreq⟩ := f.requests_single
  by_cases h0 : n = 0#32
  · -- no line: the size is 0 and the start is aligned
    have hz : paddr.toNat % 64 = 0 ∧ size.toNat = 0 := by
      rw [h0] at hn
      simp only [BitVec.toNat_ofNat] at hn
      omega
    have hops : engineOps f paddr size = [] := by
      unfold engineOps
      rw [heq, if_pos h0]
    refine iff_of_true ⟨?_, ?_, ?_, fun b => ?_⟩ (Or.inr hz.1)
    · rw [heq, if_pos h0]
      nofun
    · rw [hops]
      nofun
    · rw [hops]
      nofun
    · rw [hops]
      unfold OnLine
      constructor
      · rintro ⟨o, ho, -⟩
        cases ho
      · rintro ⟨i, hi, -⟩
        omega
  · rw [if_neg h0] at heq
    have hops : engineOps f paddr size = [⟨cacheMapL1Dcache, op, start, n, passes⟩] := by
      unfold engineOps
      rw [heq, ← hreq]
    have hcov := covers_rounded h (o := ⟨cacheMapL1Dcache, op, start, n, passes⟩) hs hn h0
    constructor
    · intro hex
      by_contra hno
      have hzero : size = 0#32 := by
        by_contra hne
        exact hno (Or.inl hne)
      have hline := (hex.lines paddr.toNat).mp ⟨_, by rw [hops]; exact List.mem_singleton_self _,
        (hcov _).mpr (Or.inr ⟨hzero, rfl⟩)⟩
      obtain ⟨i, hi, -⟩ := hline
      rw [hzero] at hi
      cases hi
    · intro hok
      have hsize : size ≠ 0#32 := by
        rintro rfl
        rcases hok with hne | hal
        · exact hne rfl
        · refine h0 (BitVec.eq_of_toNat_eq ?_)
          unfold lineSize at hal
          simp only [BitVec.toNat_ofNat] at hn ⊢
          omega
      refine ⟨?_, ?_, ?_, fun b => ?_⟩
      · rw [heq]
        rintro r ⟨⟩
        rfl
      · rw [hops]
        rintro o ho
        obtain rfl := List.mem_singleton.mp ho
        rw [hreq]
        exact List.mem_singleton_self _
      · rw [hops]
        rintro o ho
        obtain rfl := List.mem_singleton.mp ho
        exact h0
      · rw [hops]
        constructor
        · rintro ⟨o, ho, hb⟩
          obtain rfl := List.mem_singleton.mp ho
          exact ((hcov b).mp hb).resolve_right fun hz => hsize hz.1
        · intro hb
          exact ⟨_, List.mem_singleton_self _, (hcov b).mpr (Or.inl hb)⟩

theorem cacheSync_iff_page : InRam 0x50001000#32 4096#32 ∧ Exact .inv 0x50001000#32 4096#32 :=
  have h : InRam 0x50001000#32 4096#32 := ⟨by decide, by decide, Or.inl (by decide)⟩
  ⟨h, (cacheSync_iff .inv _ _ h).mpr (Or.inl (by decide))⟩

/-- An invalidate of no byte drops the line around it. -/
theorem cacheSync_empty : InRam 0x50001010#32 0#32 ∧ ¬ Exact .inv 0x50001010#32 0#32 ∧
    engineOps .inv 0x50001010#32 0#32 = [⟨cacheMapL1Dcache, cacheInvalidate, 0x50001000#32, 64#32,
      1⟩] := by
  have hops : engineOps .inv 0x50001010#32 0#32 =
      [⟨cacheMapL1Dcache, cacheInvalidate, 0x50001000#32, 64#32, 1⟩] := by decide
  refine ⟨⟨by decide, by decide, Or.inl (by decide)⟩, fun hex => ?_, hops⟩
  obtain ⟨i, hi, -⟩ := (hex.lines 0x50001010).mp
    ⟨_, by rw [hops]; exact List.mem_singleton_self _, Or.inr ⟨0, by decide, by decide⟩⟩
  cases hi

end Esp32S31.Cache.Linux
