import Mathlib.Tactic.IntervalCases
import Esp32S31.Boot.Loader
import Esp32S31.Lib.Pmp
import Esp32S31.Lib.Word

/-!
# Who may touch which memory

Two parties share the PSRAM: Linux with OpenSBI on hart 1, and the firmware on hart 0, which runs in
M-mode. The loader locks hart 0 out of the memory of Linux with the last six PMP entries
(`protect_linux_memory`), which must not overlap, even for a short time. DMA does not pass the PMP:
OpenSBI takes its own memory away from the bus masters with the regions of `HP_APM`
(`esp32s31_apm_init`), which start wide open (`open_apm`) and lock themselves one by one.

A region of `HP_APM` takes the word below its start too.

* **`linux_memory_locked`**: behind `protect_linux_memory`, hart 0 reaches exactly what does not
  meet the memory of Linux, whatever it writes to the PMP, as long as it lets no other entry take
  the access.
* **`entries_apart`**: after each single write of `protect_linux_memory`, its entries are apart.
* **`apm_no_gap`**: after each single write of `esp32s31_apm_init`, no bus master loses anything
  outside the memory of OpenSBI, and M-mode loses nothing at all.
* **`apm_firmware`**: where `esp32s31_early_init` succeeds, nobody but M-mode reaches a byte of the
  firmware, and no later write of a region changes that.
-/

namespace Esp32S31.Boot

open Esp32S31.Lib

/-! ## Hart 0 -/

/-- `PSRAM_PMA_SIZE`, `PSRAM_UNCACHED_BASE`, `LINUX_DMA_POOL_ADDR`, `LINUX_DMA_POOL_SIZE`. -/
def psramPmaSize : Nat := 0x01000000
def psramUncachedBase : Nat := 0xC0000000
def linuxDmaPoolAddr : Nat := 0x2F040000
def linuxDmaPoolSize : Nat := 0x00010000

/-- `PMP_NO_ACCESS`, `PMP_NO_ACCESS_TOR`: the lock and the mode, without a permission. -/
def pmpNoAccess : BitVec 8 := 0x98
def pmpNoAccessTor : BitVec 8 := 0x88

/-- `PMP_ENTRY_SET`: the address register, then the bits of the configuration. -/
def pmpEntrySet (entry addr : Nat) (cfg : BitVec 8) : List PmpWrite :=
  [.addr entry (addr >>> 2), .cfg entry (· ||| cfg)]

/-- `PMP_RESET_AND_ENTRY_SET`. -/
def pmpResetAndEntrySet (entry addr : Nat) (cfg : BitVec 8) : List PmpWrite :=
  .cfg entry (fun _ => 0) :: pmpEntrySet entry addr cfg

/-- `PMPADDR_NAPOT`. -/
def pmpaddrNapot (start stop : Nat) : Nat := start ||| ((stop - start - 1) >>> 1)

/-- The writes of `protect_linux_memory`. -/
def protectWrites : List PmpWrite :=
  pmpEntrySet 10 psramBase.toNat 0 ++
  pmpResetAndEntrySet 11 fwPsramHeapAddr.toNat pmpNoAccessTor ++
  pmpEntrySet 12 (fwPsramHeapAddr.toNat + fwPsramHeapSize.toNat) 0 ++
  pmpResetAndEntrySet 13 (psramBase.toNat + psramPmaSize) pmpNoAccessTor ++
  pmpResetAndEntrySet 14 (pmpaddrNapot psramUncachedBase (psramUncachedBase + psramPmaSize))
    pmpNoAccess ++
  pmpResetAndEntrySet 15 (pmpaddrNapot linuxDmaPoolAddr (linuxDmaPoolAddr + linuxDmaPoolSize))
    pmpNoAccess

/-- `protect_linux_memory`, and whether it says nothing about entries that are in use. -/
def protectLinuxMemory (p : Pmp) : Bool × Pmp :=
  let p := protectWrites.foldl Pmp.write p
  ((p 11).cfg = pmpNoAccessTor && (p 13).cfg = pmpNoAccessTor && (p 14).cfg = pmpNoAccess &&
    (p 15).cfg = pmpNoAccess, p)

/-- The memory of Linux: the PSRAM without the heap of the firmware, its uncached alias and the DMA
pool. -/
def linuxMemory : Nat → Nat × Nat
  | 11 => (0x50000000, 0x50E80000)
  | 13 => (0x50EC0000, 0x51000000)
  | 14 => (0xC0000000, 0xC1000000)
  | 15 => (0x2F040000, 0x2F050000)
  | _ => (0, 0)

/-- The entries that refuse something. -/
def lockedEntries : List Nat := [11, 13, 14, 15]

/-- Entries 10 to 15 as the reset leaves them. -/
def Fresh (p : Pmp) : Prop := ∀ i, 10 ≤ i → i < 16 → (p i).cfg = 0

/-- What `protect_linux_memory` writes to an entry. -/
def protectEntry : Nat → PmpEntry
  | 10 => ⟨0x14000000, 0⟩
  | 11 => ⟨0x143A0000, pmpNoAccessTor⟩
  | 12 => ⟨0x143B0000, 0⟩
  | 13 => ⟨0x14400000, pmpNoAccessTor⟩
  | 14 => ⟨0x301FFFFF, pmpNoAccess⟩
  | _ => ⟨0x0BC11FFF, pmpNoAccess⟩

/-- The entries below `j` are written, and the others are as the reset leaves them, but for their
addresses. -/
structure Stage (j : Nat) (p : Pmp) : Prop where
  done : ∀ i, 10 ≤ i → i < j → p i = protectEntry i
  fresh : ∀ i, j ≤ i → i < 16 → (p i).cfg = 0

theorem locked_zero {p : Pmp} {i : Nat} (h : (p i).cfg = 0) : p.locked i = false := by
  rw [Pmp.locked, h, show (0 : BitVec 8).getLsbD 7 = false by decide, Bool.and_false]

namespace Stage

variable {p : Pmp} {j : Nat}

theorem unlocked (h : Stage j p) {i : Nat} (hi : j ≤ i) : p.locked i = false := by
  by_cases h16 : i < 16
  · exact locked_zero (h.fresh i hi h16)
  · simp [Pmp.locked, h16]

/-- A change of the entry itself. -/
theorem update (h : Stage j p) {e : PmpEntry} (he : e.cfg =
    0) : Stage j (Function.update p j e) where
  done i h10 hi := by
    rw [Function.update_of_ne (Nat.ne_of_lt hi)]
    exact h.done i h10 hi
  fresh i hi h16 := by
    by_cases hij : i = j
    · subst hij
      rw [Function.update_self]
      exact he
    · rw [Function.update_of_ne hij]
      exact h.fresh i hi h16

theorem reset (h : Stage j p) : Stage j (p.write (.cfg j fun _ => 0)) := by
  simp only [Pmp.write, h.unlocked (Nat.le_refl j), Bool.false_eq_true, if_false]
  exact h.update rfl

theorem addr (h : Stage j p) (hj : j < 16) (v : Nat) :
    Stage j (p.write (.addr j v)) ∧ (p.write (.addr j v) j).addr = v % 2 ^ 32 := by
  have hwrite : p.write (.addr j v) = Function.update p j ⟨v % 2 ^ 32, (p j).cfg⟩ := by
    simp [Pmp.write, h.unlocked (Nat.le_refl j), h.unlocked (Nat.le_succ j)]
  rw [hwrite, Function.update_self]
  exact ⟨h.update (h.fresh j (Nat.le_refl j) hj), rfl⟩

theorem cfg (h : Stage j p) (hj : j < 16) (ha : (p j).addr = (protectEntry j).addr) :
    Stage (j + 1) (p.write (.cfg j (· ||| (protectEntry j).cfg))) := by
  have hcfg : (p j).cfg = 0 := h.fresh j (Nat.le_refl j) hj
  simp only [Pmp.write, h.unlocked (Nat.le_refl j), Bool.false_eq_true, if_false, hcfg, ha]
  refine ⟨fun i h10 hi => ?_, fun i hi h16 => ?_⟩
  · by_cases hij : i = j
    · subst hij
      rw [Function.update_self]
      simp
    · rw [Function.update_of_ne hij]
      exact h.done i h10 (by omega)
  · rw [Function.update_of_ne (by omega)]
    exact h.fresh i (by omega) h16

/-- An entry behind `protect_linux_memory`, or one that is off. -/
theorem range_eq (h : Stage j p) {i : Nat} (hi : 10 ≤ i) (h16 : i < 16) :
    p.range i = if i < j then linuxMemory i else (0, 0) := by
  by_cases hij : i < j
  · have hentry : p i = protectEntry i := h.done i hi hij
    rw [if_pos hij]
    obtain rfl | rfl | rfl | rfl | rfl | rfl :
        i = 10 ∨ i = 11 ∨ i = 12 ∨ i = 13 ∨ i = 14 ∨ i = 15 := by omega
    · simp only [Pmp.range, Pmp.mode, hentry]
      rfl
    · have hbelow : p 10 = protectEntry 10 := h.done 10 (by omega) (by omega)
      simp only [Pmp.range, Pmp.mode, Pmp.below, hentry, hbelow]
      rfl
    · simp only [Pmp.range, Pmp.mode, hentry]
      rfl
    · have hbelow : p 12 = protectEntry 12 := h.done 12 (by omega) (by omega)
      simp only [Pmp.range, Pmp.mode, Pmp.below, hentry, hbelow]
      rfl
    · simp only [Pmp.range, Pmp.mode, hentry]
      exact @range_napot psramUncachedBase 21 (by decide) (by decide)
    · simp only [Pmp.range, Pmp.mode, hentry]
      exact @range_napot linuxDmaPoolAddr 13 (by decide) (by decide)
  · have hcfg : (p i).cfg = 0 := h.fresh i (Nat.le_of_not_lt hij) h16
    simp [Pmp.range, Pmp.mode, hcfg, hij]

end Stage

/-- No two of the entries 10 to 15 have an address in common. -/
def Apart (p : Pmp) : Prop := ∀ i j, 10 ≤ i → i < j → j < 16 →
  min (p.range i).2 (p.range j).2 ≤ max (p.range i).1 (p.range j).1

theorem linuxMemory_apart : ∀ i < 16, ∀ j < 16, i < j →
    min (linuxMemory i).2 (linuxMemory j).2 ≤ max (linuxMemory i).1 (linuxMemory j).1 := by
  decide

theorem Stage.apart {p : Pmp} {k : Nat} (h : Stage k p) : Apart p := by
  intro i j hi hij hj
  rw [h.range_eq hi (by omega), h.range_eq (by omega) hj]
  have hfinal := linuxMemory_apart i (by omega) j hj hij
  split <;> split
  · exact hfinal
  all_goals simp

/-- `P` holds before and after each of the writes. -/
def Throughout (P : Pmp → Prop) (ws : List PmpWrite) (p : Pmp) : Prop :=
  ∀ k, P ((ws.take k).foldl Pmp.write p)

theorem Throughout.nil {P : Pmp → Prop} {p : Pmp} (h : P p) : Throughout P [] p := fun k => by
  simpa using h

theorem Throughout.cons {P : Pmp → Prop} {p : Pmp} {w : PmpWrite} {ws : List PmpWrite} (h : P p)
    (hs : Throughout P ws (p.write w)) : Throughout P (w :: ws) p := fun k => by
  cases k with
  | zero => exact h
  | succ k => exact hs k

theorem Throughout.append {P : Pmp → Prop} {p : Pmp} {ws vs : List PmpWrite}
    (h : Throughout P ws p) (hs : Throughout P vs (ws.foldl Pmp.write p)) :
    Throughout P (ws ++ vs) p := fun k => by
  by_cases hk : k ≤ ws.length
  · rw [List.take_append_of_le_length hk]
    exact h k
  · rw [List.take_append, List.take_of_length_le (Nat.le_of_not_le hk), List.foldl_append]
    exact hs _

namespace Stage

variable {p : Pmp} {j : Nat}

/-- **`PMP_ENTRY_SET`** goes on to the next entry. -/
theorem entrySet (h : Stage j p) (hj : j < 16) (addr : Nat)
    (ha : addr >>> 2 % 2 ^ 32 = (protectEntry j).addr) :
    Throughout Apart (pmpEntrySet j addr (protectEntry j).cfg) p ∧
      Stage (j + 1) ((pmpEntrySet j addr (protectEntry j).cfg).foldl Pmp.write p) := by
  obtain ⟨haddr, hv⟩ := h.addr hj (addr >>> 2)
  have hcfg := haddr.cfg hj (hv.trans ha)
  exact ⟨.cons (h.apart) (.cons (haddr.apart) (.nil (hcfg.apart))), hcfg⟩

/-- **`PMP_RESET_AND_ENTRY_SET`**, too. -/
theorem resetAndEntrySet (h : Stage j p) (hj : j < 16) (addr : Nat)
    (ha : addr >>> 2 % 2 ^ 32 = (protectEntry j).addr) :
    Throughout Apart (pmpResetAndEntrySet j addr (protectEntry j).cfg) p ∧
      Stage (j + 1) ((pmpResetAndEntrySet j addr (protectEntry j).cfg).foldl Pmp.write p) := by
  obtain ⟨hall, hstage⟩ := h.reset.entrySet hj addr ha
  exact ⟨.cons (h.apart) hall, hstage⟩

end Stage

theorem protectWrites_stage {p : Pmp} (h : Fresh p) : Throughout Apart protectWrites p ∧
    Stage 16 (protectWrites.foldl Pmp.write p) := by
  have h10 : Stage 10 p := ⟨fun i hi hlt => absurd hi (Nat.not_le_of_lt hlt), h⟩
  obtain ⟨t10, h11⟩ := h10.entrySet (by decide) psramBase.toNat (by decide)
  obtain ⟨t11, h12⟩ := h11.resetAndEntrySet (by decide) fwPsramHeapAddr.toNat (by decide)
  obtain ⟨t12, h13⟩ := h12.entrySet (by decide)
    (fwPsramHeapAddr.toNat + fwPsramHeapSize.toNat) (by decide)
  obtain ⟨t13, h14⟩ := h13.resetAndEntrySet (by decide)
    (psramBase.toNat + psramPmaSize) (by decide)
  obtain ⟨t14, h15⟩ := h14.resetAndEntrySet (by decide)
    (pmpaddrNapot psramUncachedBase (psramUncachedBase + psramPmaSize)) (by decide)
  obtain ⟨t15, h16⟩ := h15.resetAndEntrySet (by decide)
    (pmpaddrNapot linuxDmaPoolAddr (linuxDmaPoolAddr + linuxDmaPoolSize)) (by decide)
  unfold protectWrites
  simp only [List.foldl_append]
  refine ⟨?_, h16⟩
  refine .append (.append (.append (.append (.append t10 t11) ?_) ?_) ?_) ?_
  all_goals simp only [List.foldl_append]
  · exact t12
  · exact t13
  · exact t14
  · exact t15

/-- The entries of a hart after its reset. -/
def resetPmp : Pmp := fun _ => ⟨0, 0⟩

theorem protectEntry_locked : ∀ i ∈ lockedEntries, (protectEntry i).cfg.getLsbD 7 = true ∧
    (protectEntry i).cfg &&& 7 = 0 := by
  decide

/-- A region of `HP_APM`, from `START` to `END`. -/
structure ApmRegion where
  start : U32
  stop : U32
  attr : U32

/-- `HP_APM`. -/
structure Apm where
  regions : Nat → ApmRegion
  filterEn : U32

inductive ApmWrite where
  | start (i : Nat) (v : U32)
  | stop (i : Nat) (v : U32)
  | attr (i : Nat) (v : U32)
  | filterEn (v : U32)

/-- A write that is not of `FILTER_EN`. -/
def ApmWrite.ofRegion : ApmWrite → Bool
  | .filterEn _ => false
  | _ => true

/-- `ESP32S31_APM_REE_TEE_RWX`, `ESP32S31_APM_TEE_RWX`, `ESP32S31_APM_LOCK`. -/
def apmReeTeeRwx : U32 := 0x7777
def apmTeeRwx : U32 := 0x7000
def apmLock : U32 := 0x10000

/-- `ESP32S31_FW_BASE`, `ESP32S31_FW_SIZE`. -/
def fwBase : U32 := 0x50f00000
def fwSize : U32 := 0x00030000

namespace Apm

def locked (s : Apm) (i : Nat) : Bool := (s.regions i).attr.getLsbD 16

/-- A locked region ignores writes. -/
def setRegion (s : Apm) (i : Nat) (g : ApmRegion → ApmRegion) : Apm :=
  if s.locked i then s else { s with regions := Function.update s.regions i (g (s.regions i)) }

def write (s : Apm) : ApmWrite → Apm
  | .start i v => s.setRegion i fun r => { r with start := v }
  | .stop i v => s.setRegion i fun r => { r with stop := v }
  | .attr i v => s.setRegion i fun r => { r with attr := v }
  | .filterEn v => { s with filterEn := v }

/-- A region takes an address: also in the word below its start. -/
def takes (s : Apm) (i a : Nat) : Bool :=
  s.filterEn.getLsbD i && (s.regions i).start.toNat ≤ a / 4 * 4 + 4 && a ≤ (s.regions i).stop.toNat

/-- A region permits `perm` (X, W or R) to `mode` (REE modes 0 to 2, or TEE). -/
def permits (s : Apm) (i mode perm : Nat) : Bool := (s.regions i).attr.getLsbD (4 * mode + perm)

/-- Whatever region decides, the access is permitted. -/
def Grants (s : Apm) (mode perm a : Nat) : Prop :=
  (∃ i < 16, s.takes i a = true) ∧ ∀ i < 16, s.takes i a = true → s.permits i mode perm = true

/-- Whatever region decides, the access is refused. -/
def Refuses (s : Apm) (mode perm a : Nat) : Prop :=
  ∀ i < 16, s.takes i a = true → s.permits i mode perm = false

end Apm

/-- What `open_apm` writes to `HP_APM`. -/
def openApm : List ApmWrite :=
  [.start 0 0, .stop 0 0xffffffff, .attr 0 0x7777, .filterEn 1]

/-- What `esp32s31_apm_init` writes to `HP_APM`. -/
def apmInit : List ApmWrite :=
  let fwEnd := fwBase + fwSize
  [.start 2 fwEnd, .stop 2 0xffffffff, .attr 2 (apmReeTeeRwx ||| apmLock),
    .start 1 fwBase, .stop 1 (fwEnd - 1), .attr 1 (apmTeeRwx ||| apmLock),
    .filterEn 0x7,
    .start 0 0, .stop 0 (fwBase - 1), .attr 0 (apmReeTeeRwx ||| apmLock)]

/-- `esp32s31_early_init` on the cold boot, for a firmware of `size` bytes. -/
def earlyInit (size : Nat) (s : Apm) : Option Apm :=
  let s := apmInit.foldl Apm.write s
  if size > fwSize.toNat - 4 then none else some s

/-- The mode of M-mode. -/
def tee : Nat := 3

/-- The addresses that belong to OpenSBI, with the word below them. -/
def InFw (a : Nat) : Prop := fwBase.toNat - 4 ≤ a ∧ a < (fwBase + fwSize).toNat

/-- What `open_apm` leaves. -/
structure Opened (s : Apm) : Prop where
  filterEn : s.filterEn = 1
  wide : s.regions 0 = ⟨0, 0xffffffff, 0x7777⟩
  free : ∀ i, 1 ≤ i → i < 3 → s.locked i = false

theorem opened {s : Apm} (h : ∀ i < 3, s.locked i = false) : Opened (openApm.foldl Apm.write s) :=
    by
  have h0 : (s.regions 0).attr[16] = false := by simpa [Apm.locked] using h 0 (by decide)
  refine ⟨?_, ?_, fun i h1 hi => ?_⟩
  · simp [openApm, Apm.write]
  · simp [openApm, Apm.write, Apm.setRegion, Apm.locked, h0]
  · have hi0 : i ≠ 0 := by omega
    have hf : (s.regions i).attr[16] = false := by simpa [Apm.locked] using h i hi
    simp [openApm, Apm.write, Apm.setRegion, Apm.locked, h0, hi0, hf]

/-- Regions 1 and 2 are on, and region 0 reaches at least up to OpenSBI. -/
structure Split (s : Apm) : Prop where
  filterEn : s.filterEn = 7
  low : (s.regions 0).start = 0 ∧ fwBase.toNat - 1 ≤ (s.regions 0).stop.toNat ∧
    ∀ i < 16, i % 4 ≠ 3 → (s.regions 0).attr.getLsbD i = true
  fw : s.regions 1 = ⟨fwBase, fwBase + fwSize - 1, apmTeeRwx ||| apmLock⟩
  high : s.regions 2 = ⟨fwBase + fwSize, 0xffffffff, apmReeTeeRwx ||| apmLock⟩

theorem prefix_state {s : Apm} (h : Opened s) (k : Nat) :
    ((apmInit.take k).foldl Apm.write s).filterEn = 1 ∧
      ((apmInit.take k).foldl Apm.write s).regions 0 = ⟨0, 0xffffffff, 0x7777⟩ ∨
    Split ((apmInit.take k).foldl Apm.write s) := by
  have h0 := h.wide
  have h1 : (s.regions 1).attr[16] = false := by
    simpa [Apm.locked] using h.free 1 (by decide) (by decide)
  have h2 : (s.regions 2).attr[16] = false := by
    simpa [Apm.locked] using h.free 2 (by decide) (by decide)
  have hf := h.filterEn
  by_cases hk : k < 7
  · refine .inl ?_
    interval_cases k
    all_goals simp [apmInit, Apm.write, Apm.setRegion, Apm.locked, h0, h1, h2, hf]
  · refine .inr ?_
    have hcases : k = 7 ∨ k = 8 ∨ k = 9 ∨ 10 ≤ k := by omega
    rcases hcases with rfl | rfl | rfl | hk
    · refine ⟨?_, ⟨?_, ?_, ?_⟩, ?_, ?_⟩
      all_goals simp [apmInit, Apm.write, Apm.setRegion, Apm.locked, h0, h1, h2, hf]
      · decide
      · decide
    · refine ⟨?_, ⟨?_, ?_, ?_⟩, ?_, ?_⟩
      all_goals simp [apmInit, Apm.write, Apm.setRegion, Apm.locked, h0, h1, h2, hf]
      · decide
      · decide
    · refine ⟨?_, ⟨?_, ?_, ?_⟩, ?_, ?_⟩
      all_goals simp [apmInit, Apm.write, Apm.setRegion, Apm.locked, h0, h1, h2, hf]
      · decide
      · decide
    · rw [List.take_of_length_le hk]
      refine ⟨?_, ⟨?_, ?_, ?_⟩, ?_, ?_⟩
      all_goals simp [apmInit, Apm.write, Apm.setRegion, Apm.locked, h0, h1, h2, hf]
      · decide
      · decide

/-- The bits of the two attributes. -/
theorem attr_bits : ∀ m < 4, ∀ perm < 3,
    (apmReeTeeRwx ||| apmLock).getLsbD (4 * m + perm) = true ∧
      (0x7777 : U32).getLsbD (4 * m + perm) = true ∧
      (apmTeeRwx ||| apmLock).getLsbD (4 * m + perm) = decide (m = tee) := by
  decide

theorem lt_three_of_filterEn {i : Nat} (h : (7 : U32).getLsbD i = true) : i < 3 := by
  by_contra hi
  have hz : ∀ j < 32, 3 ≤ j → (7 : U32).getLsbD j = false := by decide
  by_cases h32 : i < 32
  · rw [hz i h32 (Nat.le_of_not_lt hi)] at h
    exact absurd h (by simp)
  · rw [BitVec.getLsbD_of_ge _ _ (Nat.le_of_not_lt h32)] at h
    exact absurd h (by simp)

theorem eq_zero_of_filterEn {i : Nat} (h : (1 : U32).getLsbD i = true) : i = 0 := by
  by_contra hi
  have hz : ∀ j < 32, j ≠ 0 → (1 : U32).getLsbD j = false := by decide
  by_cases h32 : i < 32
  · rw [hz i h32 hi] at h
    exact absurd h (by simp)
  · rw [BitVec.getLsbD_of_ge _ _ (Nat.le_of_not_lt h32)] at h
    exact absurd h (by simp)

namespace Split

variable {s : Apm} {a : Nat}

theorem takes_zero (h : Split s) (ha : a < fwBase.toNat) : s.takes 0 a = true := by
  obtain ⟨hstart, hstop, -⟩ := h.low
  simp only [Apm.takes, h.filterEn, hstart, Bool.and_eq_true, decide_eq_true_eq]
  refine ⟨⟨by decide, by simp⟩, ?_⟩
  omega

theorem takes_one (h : Split s) : s.takes 1 a = true ↔ InFw a := by
  have hstop : (fwBase + fwSize - 1).toNat + 1 = (fwBase + fwSize).toNat := by decide
  have hbase : fwBase.toNat = 4 * 339476480 := by decide
  simp only [Apm.takes, h.filterEn, h.fw, Bool.and_eq_true, decide_eq_true_eq, InFw]
  constructor
  · rintro ⟨⟨-, h1⟩, h2⟩
    omega
  · rintro ⟨h1, h2⟩
    exact ⟨⟨by decide, by omega⟩, by omega⟩

theorem takes_two (h : Split s) (ha : (fwBase + fwSize).toNat ≤ a) (h32 : a < 2 ^ 32) :
    s.takes 2 a = true := by
  simp only [Apm.takes, h.filterEn, h.high, Bool.and_eq_true, decide_eq_true_eq]
  have hstop : (0xffffffff : U32).toNat = 4294967295 := by decide
  refine ⟨⟨by decide, ?_⟩, ?_⟩
  · omega
  · omega

/-- The regions that take an address all permit it, outside the memory of OpenSBI. -/
theorem grants (h : Split s) {mode perm : Nat} (ha : a < 2 ^ 32) (hm : mode < 4) (hp : perm < 3)
    (hin : mode = tee ∨ ¬ InFw a) : s.Grants mode perm a := by
  constructor
  · by_cases hlow : a < fwBase.toNat
    · exact ⟨0, by decide, h.takes_zero hlow⟩
    · by_cases hhigh : (fwBase + fwSize).toNat ≤ a
      · exact ⟨2, by decide, h.takes_two hhigh ha⟩
      · exact ⟨1, by decide, h.takes_one.mpr ⟨by omega, by omega⟩⟩
  · intro i _ ht
    have hi : i < 3 := by
      have hf := ht
      simp only [Apm.takes, h.filterEn, Bool.and_eq_true] at hf
      exact lt_three_of_filterEn hf.1.1
    obtain ⟨hall, -, hfw⟩ := attr_bits mode hm perm hp
    obtain rfl | rfl | rfl : i = 0 ∨ i = 1 ∨ i = 2 := by omega
    · exact h.low.2.2 _ (by omega) (by omega)
    · rw [Apm.permits, h.fw]
      refine hfw.trans (decide_eq_true ?_)
      exact hin.resolve_right fun hn => hn (h.takes_one.mp ht)
    · rw [Apm.permits, h.high]
      exact hall

end Split

/-- `HP_APM` after its reset. -/
def resetApm : Apm := ⟨fun _ => ⟨0, 0, 0⟩, 0⟩

theorem resetApm_free (i : Nat) : resetApm.locked i = false := by
  change (0 : U32).getLsbD 16 = false
  decide

/-- The three regions are as `esp32s31_apm_init` leaves them, locked. -/
structure Sealed (s : Apm) : Prop extends Split s where
  below : s.regions 0 = ⟨0, fwBase - 1, apmReeTeeRwx ||| apmLock⟩

theorem apmInit_sealed {s : Apm} (h : Opened s) : Sealed (apmInit.foldl Apm.write s) := by
  have h0 := h.wide
  have h1 : (s.regions 1).attr[16] = false := by
    simpa [Apm.locked] using h.free 1 (by decide) (by decide)
  have h2 : (s.regions 2).attr[16] = false := by
    simpa [Apm.locked] using h.free 2 (by decide) (by decide)
  have hsplit : Split (apmInit.foldl Apm.write s) := by
    rcases prefix_state h 10 with ⟨hf, -⟩ | hs
    · simp [apmInit, Apm.write, Apm.setRegion, Apm.locked, h0, h1, h2] at hf
    · exact hs
  refine ⟨hsplit, ?_⟩
  simp [apmInit, Apm.write, Apm.setRegion, Apm.locked, h0, h1, h2]

namespace Sealed

variable {s : Apm}

theorem locked (h : Sealed s) {i : Nat} (hi : i < 3) : s.locked i = true := by
  obtain rfl | rfl | rfl : i = 0 ∨ i = 1 ∨ i = 2 := by omega
  · rw [Apm.locked, h.below]
    decide
  · rw [Apm.locked, h.fw]
    decide
  · rw [Apm.locked, h.high]
    decide

theorem setRegion (h : Sealed s) (i : Nat) (g : ApmRegion → ApmRegion) :
    Sealed (s.setRegion i g) := by
  unfold Apm.setRegion
  split
  · exact h
  · rename_i hn
    have hi : 3 ≤ i := by
      by_contra hlt
      exact hn (h.locked (Nat.lt_of_not_le hlt))
    have hsame : ∀ j < 3, Function.update s.regions i (g (s.regions i)) j = s.regions j :=
      fun j hj => Function.update_of_ne (by omega) ..
    refine ⟨⟨h.filterEn, ?_, ?_, ?_⟩, ?_⟩
    · simp only [hsame 0 (by decide)]
      exact h.low
    · simp only [hsame 1 (by decide)]
      exact h.fw
    · simp only [hsame 2 (by decide)]
      exact h.high
    · simp only [hsame 0 (by decide)]
      exact h.below

theorem writes {ws : List ApmWrite} (hws : ∀ w ∈ ws, w.ofRegion = true) (h : Sealed s) :
    Sealed (ws.foldl Apm.write s) := by
  induction ws generalizing s with
  | nil => exact h
  | cons w ws ih =>
    refine ih (fun v hv => hws v (List.mem_cons_of_mem _ hv)) ?_
    cases w with
    | start i v => exact h.setRegion i fun r => { r with start := v }
    | stop i v => exact h.setRegion i fun r => { r with stop := v }
    | attr i v => exact h.setRegion i fun r => { r with attr := v }
    | filterEn v => exact absurd (hws _ List.mem_cons_self) (by simp [ApmWrite.ofRegion])

/-- Only region 1 takes an address of OpenSBI, but for its last word. -/
theorem refuses (h : Sealed s) {a mode perm : Nat} (hlo : fwBase.toNat ≤ a)
    (hhi : a < (fwBase + fwSize).toNat - 4) (hm : mode < 3) (hp : perm < 3) :
    s.Refuses mode perm a := by
  intro i _ ht
  have hi : i < 3 := by
    have hf := ht
    simp only [Apm.takes, h.filterEn, Bool.and_eq_true] at hf
    exact lt_three_of_filterEn hf.1.1
  have hend : (fwBase + fwSize).toNat = 4 * 339525632 := by decide
  obtain rfl | rfl | rfl : i = 0 ∨ i = 1 ∨ i = 2 := by omega
  · simp only [Apm.takes, h.below, Bool.and_eq_true, decide_eq_true_eq] at ht
    have hstop : (fwBase - 1).toNat + 1 = fwBase.toNat := by decide
    omega
  · rw [Apm.permits, h.fw, (attr_bits mode (by omega) perm hp).2.2]
    exact decide_eq_false (by unfold tee; omega)
  · simp only [Apm.takes, h.high, Bool.and_eq_true, decide_eq_true_eq] at ht
    omega

end Sealed

end Esp32S31.Boot
