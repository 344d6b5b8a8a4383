import Mathlib.Tactic.ByContra
import Mathlib.Tactic.Tauto
import Esp32S31.Lib.Word

/-!
# The cache sync engine and its SBI call

`platform.c` of OpenSBI: the vendor SBI call does cache operations for the kernel with the sync
engine. An operation works on whole lines, and the size 0 means the full cache (`Covers`). An
invalidate of the D-cache drops lines that are dirty, so OpenSBI keeps it out of its own memory.

**`sbi_cache_safe`**: no invalidate reaches a line of OpenSBI, and every other request is carried
out.
-/

namespace Esp32S31.Cache

open Esp32S31.Lib

/-- The bytes of a cache line. -/
def lineSize : Nat := 64

/-- `ESP32S31_CACHE_INVALIDATE`, `ESP32S31_CACHE_WRITEBACK`, `ESP32S31_CACHE_WRITEBACK_INV`. -/
def cacheInvalidate : U32 := 1#32
def cacheWriteback : U32 := 4#32
def cacheWritebackInv : U32 := 8#32

/-- `ESP32S31_CACHE_MAP_L1_ICACHE`, `ESP32S31_CACHE_MAP_L1_DCACHE`. -/
def cacheMapL1Icache (hart : Nat) : U32 := 1#32 <<< hart
def cacheMapL1Dcache : U32 := 0x10#32

/-- `ESP32S31_FW_BASE`, `ESP32S31_FW_SIZE`. -/
def fwBase : U32 := 0x50f00000#32
def fwSize : U32 := 0x30000#32

/-- `current_hartid`: OpenSBI runs on hart 1 only. -/
def currentHartid : Nat := 1

/-- `SBI_ENOTSUPP`, `SBI_EINVAL`. -/
def sbiEnotsupp : Int := -2
def sbiEinval : Int := -3

/-! ## The engine -/

/-- One operation of the engine, in `passes` passes. -/
structure EngineOp where
  map : U32
  op : U32
  addr : U32
  size : U32
  passes : Nat
  deriving DecidableEq

/-- The operation works on the line of the byte `b`. -/
def EngineOp.Covers (o : EngineOp) (b : Nat) : Prop :=
  o.size = 0#32 ∨ ∃ i < o.size.toNat, (o.addr.toNat + i) % 2 ^ 32 / lineSize = b / lineSize

/-- The operation drops lines of the D-cache and does not write them back. -/
def EngineOp.Drops (o : EngineOp) : Prop := o.op = cacheInvalidate ∧
    o.map &&& cacheMapL1Dcache ≠ 0#32

/-- `esp32s31_cache_sync` of OpenSBI: a write-back can lose part of the range, so it runs twice. -/
def cacheSync (map op addr size : U32) : EngineOp :=
  ⟨map, op, addr, size, if op = cacheInvalidate then 1 else 2⟩

/-! ## The SBI call -/

/-- A line of `esp32s31_cache_ops`. -/
structure CacheOp where
  dcacheOp : U32
  icacheOp : U32

/-- `ESP32S31_SBI_CACHE_WBACK_ALL` to `ESP32S31_SBI_ICACHE_SYNC`, in their order. -/
inductive Func where
  | wbackAll
  | inv
  | wback
  | wbackInv
  | icacheSync
  deriving DecidableEq

/-- The function ID. -/
def Func.id : Func → Int
  | .wbackAll => 0
  | .inv => 1
  | .wback => 2
  | .wbackInv => 3
  | .icacheSync => 4

/-- `esp32s31_cache_ops`. -/
def cacheOps : List CacheOp :=
  [⟨cacheWriteback, 0#32⟩, ⟨cacheInvalidate, 0#32⟩, ⟨cacheWriteback, 0#32⟩,
    ⟨cacheWritebackInv, 0#32⟩, ⟨cacheWriteback, cacheInvalidate⟩]

/-- `esp32s31_cache_op_allowed`. -/
def cacheOpAllowed (op addr size : U32) : Bool :=
  let last := addr + size
  if op ≠ cacheInvalidate then true
  else size ≠ 0#32 && addr < last && (last ≤ fwBase || fwBase + fwSize ≤ addr)

/-- `esp32s31_vendor_ext`: the return value, and the operations of the engine. -/
def vendorExt (funcid : Int) (a0 a1 : U32) : Int × List EngineOp :=
  let all := funcid = Func.wbackAll.id
  let addr := if all then 0#32 else a0
  let size := if all then 0#32 else a1
  if funcid < 0 then (sbiEnotsupp, [])
  else
    match cacheOps[funcid.toNat]? with
    | none => (sbiEnotsupp, [])
    | some c =>
      if !cacheOpAllowed c.dcacheOp addr size then (sbiEinval, [])
      else
        (0, cacheSync cacheMapL1Dcache c.dcacheOp addr size ::
          if c.icacheOp ≠ 0#32
            then [cacheSync (cacheMapL1Icache currentHartid) c.icacheOp addr size]
          else [])

/-! ## What a request asks for -/

/-- The operations that a function is there for. -/
def Func.requests (a0 a1 : U32) : Func → List EngineOp
  | .wbackAll => [⟨cacheMapL1Dcache, cacheWriteback, 0#32, 0#32, 2⟩]
  | .inv => [⟨cacheMapL1Dcache, cacheInvalidate, a0, a1, 1⟩]
  | .wback => [⟨cacheMapL1Dcache, cacheWriteback, a0, a1, 2⟩]
  | .wbackInv => [⟨cacheMapL1Dcache, cacheWritebackInv, a0, a1, 2⟩]
  | .icacheSync =>
    [⟨cacheMapL1Dcache, cacheWriteback, a0, a1, 2⟩, ⟨cacheMapL1Icache 1, cacheInvalidate, a0, a1,
      1⟩]

/-- A byte of the memory of OpenSBI. -/
def IsFw (b : Nat) : Prop := fwBase.toNat ≤ b ∧ b < fwBase.toNat + fwSize.toNat

/-- An invalidate is allowed for a range that is not empty, does not wrap and stays outside. -/
theorem cacheOpAllowed_inv (addr size : U32) :
    cacheOpAllowed cacheInvalidate addr size = true ↔
      size ≠ 0#32 ∧ addr.toNat + size.toNat < 2 ^ 32 ∧
        (addr.toNat + size.toNat ≤ fwBase.toNat ∨ fwBase.toNat + fwSize.toNat ≤ addr.toNat) := by
  have hlt := addr.isLt
  have hfw : (fwBase + fwSize).toNat = fwBase.toNat + fwSize.toNat := by decide
  unfold cacheOpAllowed
  simp only [ne_eq, not_true_eq_false, if_false, Bool.and_eq_true, Bool.or_eq_true,
    decide_eq_true_eq,
    BitVec.lt_def, BitVec.le_def, BitVec.toNat_add, hfw, ← BitVec.toNat_inj, BitVec.toNat_ofNat]
  omega

/-- An invalidate that is refused has no operation; every other call has what its function is there
for. -/
theorem vendorExt_of (f : Func) (a0 a1 : U32) :
    vendorExt f.id a0 a1 =
      if f = .inv ∧ cacheOpAllowed cacheInvalidate a0 a1 = false then (sbiEinval, [])
      else (0, f.requests a0 a1) := by
  cases f with
  | inv =>
    by_cases h : cacheOpAllowed cacheInvalidate a0 a1 = true
    · simp [vendorExt, Func.id, cacheOps, h, Func.requests, cacheSync]
    · simp [vendorExt, Func.id, cacheOps, h]
  | wbackAll => rfl
  | wback => rfl
  | wbackInv => rfl
  | icacheSync => rfl

/-- The operations of a call are those of a function. -/
theorem vendorExt_requests {funcid : Int} {a0 a1 : U32} {o : EngineOp}
    (ho : o ∈ (vendorExt funcid a0 a1).2) : ∃ f : Func, funcid = f.id ∧ o ∈ f.requests a0 a1 ∧
      (f = .inv → cacheOpAllowed cacheInvalidate a0 a1 = true) := by
  have hid : ∃ f : Func, funcid = f.id := by
    by_cases hneg : funcid < 0
    · simp [vendorExt, hneg] at ho
    · have hlt : funcid < 5 := by
        by_contra hge
        have hnone : cacheOps[funcid.toNat]? = none :=
          List.getElem?_eq_none (show 5 ≤ funcid.toNat by omega)
        simp [vendorExt, hneg, hnone] at ho
      obtain h | h | h | h | h :
          funcid = 0 ∨ funcid = 1 ∨ funcid = 2 ∨ funcid = 3 ∨ funcid = 4 := by omega
      · exact ⟨.wbackAll, h⟩
      · exact ⟨.inv, h⟩
      · exact ⟨.wback, h⟩
      · exact ⟨.wbackInv, h⟩
      · exact ⟨.icacheSync, h⟩
  obtain ⟨f, rfl⟩ := hid
  rw [vendorExt_of] at ho
  split at ho
  · cases ho
  · next hok => exact ⟨f, rfl, ho, fun hf => by simpa [hf] using hok⟩

/-- Only an invalidate drops lines of the D-cache: the other invalidate is for the I-cache. -/
theorem Func.drops {f : Func} {a0 a1 : U32} {o : EngineOp} (ho : o ∈ f.requests a0 a1)
    (hd : o.Drops) : f = .inv ∧ o.addr = a0 ∧ o.size = a1 := by
  obtain ⟨hop, hmap⟩ := hd
  cases f with
  | inv =>
    obtain rfl := List.mem_singleton.mp ho
    exact ⟨rfl, rfl, rfl⟩
  | wbackAll =>
    obtain rfl := List.mem_singleton.mp ho
    exact absurd hop (by decide : cacheWriteback ≠ cacheInvalidate)
  | wback =>
    obtain rfl := List.mem_singleton.mp ho
    exact absurd hop (by decide : cacheWriteback ≠ cacheInvalidate)
  | wbackInv =>
    obtain rfl := List.mem_singleton.mp ho
    exact absurd hop (by decide : cacheWritebackInv ≠ cacheInvalidate)
  | icacheSync =>
    rcases List.mem_cons.mp ho with rfl | ho
    · exact absurd hop (by decide : cacheWriteback ≠ cacheInvalidate)
    · obtain rfl := List.mem_singleton.mp ho
      exact absurd (by decide : cacheMapL1Icache 1 &&& cacheMapL1Dcache = 0#32) hmap

/-- The two borders of OpenSBI are borders of lines, so a range outside has no line inside. -/
theorem not_covers_fw {o : EngineOp} (h : cacheOpAllowed cacheInvalidate o.addr o.size = true)
    {b : Nat} (hb : IsFw b) : ¬ o.Covers b := by
  obtain ⟨hne, hwrap, hout⟩ := (cacheOpAllowed_inv _ _).mp h
  have hbase : fwBase.toNat = 0x50f00000 := by decide
  have hend : fwSize.toNat = 0x30000 := by decide
  obtain ⟨hlo, hhi⟩ := hb
  rintro (hz | ⟨i, hi, hline⟩)
  · exact hne hz
  · rw [Nat.mod_eq_of_lt (by omega)] at hline
    unfold lineSize at hline
    omega

/-- **OpenSBI is safe from an invalidate of the kernel.** For every call, no operation that drops
lines covers a byte of OpenSBI. A function that does not invalidate is carried out for all
arguments, and an invalidate exactly if its range is not empty, does not wrap and has no byte of
OpenSBI. -/
theorem sbi_cache_safe :
    (∀ (funcid : Int) (a0 a1 : U32), ∀ o ∈ (vendorExt funcid a0 a1).2, o.Drops →
      ∀ b, IsFw b → ¬ o.Covers b) ∧
    (∀ (f : Func) (a0 a1 : U32), f ≠ .inv → vendorExt f.id a0 a1 = (0, f.requests a0 a1)) ∧
    (∀ a0 a1 : U32, vendorExt Func.inv.id a0 a1 = (0, Func.inv.requests a0 a1) ↔
      a1 ≠ 0#32 ∧ a0.toNat + a1.toNat < 2 ^ 32 ∧
        ∀ b, a0.toNat ≤ b → b < a0.toNat + a1.toNat → ¬ IsFw b) := by
  refine ⟨fun funcid a0 a1 o ho hd b hb => ?_, fun f a0 a1 hf => ?_, fun a0 a1 => ?_⟩
  · obtain ⟨f, -, hreq, hinv⟩ := vendorExt_requests ho
    obtain ⟨rfl, rfl, rfl⟩ := Func.drops hreq hd
    exact not_covers_fw (hinv rfl) hb
  · rw [vendorExt_of, if_neg (fun h => hf h.1)]
  · have hbase : fwBase.toNat = 0x50f00000 := by decide
    have hend : fwSize.toNat = 0x30000 := by decide
    have hrange : (∀ b, a0.toNat ≤ b → b < a0.toNat + a1.toNat → ¬ IsFw b) ↔ a1 = 0#32 ∨
        a0.toNat + a1.toNat ≤ fwBase.toNat ∨ fwBase.toNat + fwSize.toNat ≤ a0.toNat := by
      rw [← BitVec.toNat_inj]
      constructor
      · intro h
        have h1 := h (max a0.toNat fwBase.toNat)
        unfold IsFw at h1
        simp only [BitVec.toNat_ofNat]
        omega
      · intro h b hlo hhi hb
        unfold IsFw at hb
        simp only [BitVec.toNat_ofNat] at h
        omega
    have hiff : vendorExt Func.inv.id a0 a1 = (0, Func.inv.requests a0 a1) ↔
        cacheOpAllowed cacheInvalidate a0 a1 = true := by
      rw [vendorExt_of]
      by_cases h : cacheOpAllowed cacheInvalidate a0 a1 = true
      · simp [h]
      · simp [h, sbiEinval]
    rw [hiff, cacheOpAllowed_inv, hrange]
    tauto

end Esp32S31.Cache
