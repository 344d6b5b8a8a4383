import Esp32S31.Lib.Scan
import Esp32S31.Lib.Pmp

/-!
# The picture that stays

`display.c` of the boot loader fills the frame buffer with color bars, builds a ring of DMA
descriptors over it in SRAM, and starts the DMA, which nothing stops or serves any more: it scans
the frame buffer out under Linux. OpenSBI makes the memory of the frame buffer uncached
(`esp32s31_pma_init`), since the DMA does not see the cache.

The descriptor (`dma_descriptor_align8_t`) and the length of its block (`LCD_DMA_CHUNK_SIZE`) come
from ESP-IDF: 16 bytes with two fields of 12 bits for the length, and a multiple of 64 that fits
into them (`chunk`). No sum of the source wraps.

* `buildDmaLink_at`: the descriptors.
* `pmaInit_uncached`: the attributes of the frame buffer.
* **`display_scans`**: what the DMA reads, for ever.
-/

namespace Esp32S31.Boot

open Esp32S31.Lib

/-- `LCD_FB_ADDR`, `LCD_H_RES`, `LCD_V_RES`, `LCD_FB_SIZE`. -/
def lcdFbAddr : Nat := 0x50F40000
def lcdHRes : Nat := 800
def lcdVRes : Nat := 480
def lcdFbSize : Nat := lcdHRes * lcdVRes * 2

/-- `LCD_DMA_LINK_ADDR`, `LCD_DMA_LINK_SIZE`, `sizeof(dma_descriptor_align8_t)`. -/
def lcdDmaLinkAddr : Nat := 0x2F079000
def lcdDmaLinkSize : Nat := 0x1000
def descriptorSize : Nat := 16

/-! ## The picture -/

/-- The colors of `fill_color_bars`. -/
def barColors (i : Nat) : UInt16 :=
  [0xFFFF, 0xFFE0, 0x07FF, 0x07E0, 0xF81F, 0xF800, 0x001F, 0x0000].getD i 0

/-- Byte 0 or 1 of a pixel. -/
def pixelByte (v : UInt16) (k : Nat) : UInt8 := if k = 0 then v.toUInt8 else (v >>> 8).toUInt8

/-- A store of a pixel. -/
def storePixel (m : Nat → UInt8) (a : Nat) (v : UInt16) : Nat → UInt8 :=
  Function.update (Function.update m a (pixelByte v 0)) (a + 1) (pixelByte v 1)

/-- One row of `fill_color_bars`, from `a` on. -/
def fillRow (m : Nat → UInt8) (a n : Nat) : Nat → UInt8 :=
  (List.range n).foldl (fun m x => storePixel m (a + 2 * x) (barColors (x * 8 / lcdHRes))) m

/-- `fill_color_bars`, of the first `rows` rows. -/
def fillRows (m : Nat → UInt8) (rows : Nat) : Nat → UInt8 :=
  (List.range rows).foldl (fun m y => fillRow m (lcdFbAddr + 2 * (y * lcdHRes)) lcdHRes) m

/-- `fill_color_bars`. -/
def fillColorBars (m : Nat → UInt8) : Nat → UInt8 := fillRows m lcdVRes

/-! ## The ring -/

/-- `dma_descriptor_align8_t`. -/
structure DmaDescriptor where
  size : BitVec 12
  length : BitVec 12
  sucEof : Bool
  /-- `DMA_DESCRIPTOR_BUFFER_OWNER_DMA` -/
  owner : Bool
  buffer : Nat
  next : Nat
  deriving DecidableEq, Repr

/-- `LCD_DMA_NODE_COUNT`. -/
def lcdDmaNodeCount (chunk : Nat) : Nat := (lcdFbSize + chunk - 1) / chunk

/-- The address of `link[i]`. -/
def linkAt (i : Nat) : Nat := lcdDmaLinkAddr + descriptorSize * i

/-- One round of the loop of `build_dma_link`: the descriptors, and `offset`. -/
def linkRound (chunk : Nat) (x : (Nat → DmaDescriptor) × Nat) (i : Nat) :
    (Nat → DmaDescriptor) × Nat :=
  let n := if lcdFbSize - x.2 > chunk then chunk else lcdFbSize - x.2
  (Function.update x.1 i
    { size := .ofNat 12 n
      length := .ofNat 12 n
      sucEof := i = lcdDmaNodeCount chunk - 1
      owner := true
      buffer := lcdFbAddr + x.2
      next := linkAt ((i + 1) % lcdDmaNodeCount chunk) }, x.2 + n)

/-- `build_dma_link`. -/
def buildDmaLink (chunk : Nat) : Nat → DmaDescriptor :=
  ((List.range (lcdDmaNodeCount chunk)).foldl (linkRound chunk)
    (fun _ => ⟨0, 0, false, false, 0, 0⟩, 0)).1

/-- The DMA reads the bytes of a descriptor; the last one has the mark for the end of the frame. -/
def DmaDescriptor.reads (d : DmaDescriptor) : List (Nat × Bool) :=
  (List.range d.length.toNat).map fun j => (d.buffer + j, d.sucEof && j + 1 = d.length.toNat)

/-- The DMA takes a descriptor that is its own, from the region that is reserved for them. -/
def fetchLink (link : Nat → DmaDescriptor) (p : Nat) : Option (Scan.Node Nat (Nat × Bool)) :=
  let d := link ((p - lcdDmaLinkAddr) / descriptorSize)
  if lcdDmaLinkAddr ≤ p ∧ p + descriptorSize ≤ lcdDmaLinkAddr + lcdDmaLinkSize ∧
      (p - lcdDmaLinkAddr) % descriptorSize = 0 ∧ d.owner then some ⟨d.reads, d.next⟩
  else none

/-! ## The attributes of the memory -/

/-- A PMA entry: its address register and its configuration. -/
structure PmaEntry where
  addr : Nat
  cfg : BitVec 32

/-- `ESP32S31_PMA_NAPOT`. -/
def pmaNapot (base size : Nat) : Nat := (base ||| (size >>> 1) - 1) >>> 2

/-- `ESP32S31_PMA_RWX`, `ESP32S31_PMA_RW_UNCACHED`. -/
def pmaRwx : BitVec 32 := 0xc000001d
def pmaRwUncached : BitVec 32 := 0xc8000019

/-- `esp32s31_pma_init`, with `ESP32S31_FB_UNCACHED`. -/
def pmaInit (p : Nat → PmaEntry) : Nat → PmaEntry :=
  let p := Function.update p 2 ⟨pmaNapot 0x50000000 0x01000000, pmaRwx⟩
  let p := Function.update p 0 ⟨pmaNapot 0x50f40000 0x00040000, pmaRwUncached⟩
  Function.update p 1 ⟨pmaNapot 0x50f80000 0x00080000, pmaRwUncached⟩

/-- The entries as those of the PMP: the same address field and mode. -/
def pmaRanges (p : Nat → PmaEntry) : Pmp := fun i => ⟨(p i).addr, (p i).cfg.setWidth 8⟩

/-- The entry that decides about `a`: the lowest one that is enabled and takes it. -/
def pmaTakes (p : Nat → PmaEntry) (a : Nat) : Option Nat :=
  (List.range 16).find? fun i => (p i).cfg.getLsbD 0 && within ((pmaRanges p).range i) a 1

/-- The hart goes past its cache. -/
def uncached (p : Nat → PmaEntry) (a : Nat) : Bool :=
  match pmaTakes p a with
  | none => false
  | some i => (p i).cfg.getLsbD 27

/-! ## The color bars -/

theorem storePixel_low (m : Nat → UInt8) (a : Nat) (v : UInt16) :
    storePixel m a v a = pixelByte v 0 := by
  unfold storePixel
  rw [Function.update_of_ne (Nat.ne_of_lt (Nat.lt_succ_self a)), Function.update_self]

theorem storePixel_high (m : Nat → UInt8) (a : Nat) (v : UInt16) :
    storePixel m a v (a + 1) = pixelByte v 1 :=
  Function.update_self _ _ _

theorem storePixel_of_ne {a b : Nat} (h0 : b ≠ a) (h1 : b ≠ a + 1) (m : Nat → UInt8) (v : UInt16) :
    storePixel m a v b = m b := by
  unfold storePixel
  rw [Function.update_of_ne h1, Function.update_of_ne h0]

/-- A row writes its own bytes. -/
theorem fillRow_at (m : Nat → UInt8) (a n : Nat) : ∀ o, o < 2 * n →
    fillRow m a n (a + o) = pixelByte (barColors (o / 2 * 8 / lcdHRes)) (o % 2) := by
  induction n with
  | zero => exact fun o h => absurd h (by omega)
  | succ n ih =>
    intro o ho
    have hstep : fillRow m a (n + 1) =
        storePixel (fillRow m a n) (a + 2 * n) (barColors (n * 8 / lcdHRes)) := by
      unfold fillRow
      rw [List.range_succ, List.foldl_append]
      rfl
    rw [hstep]
    rcases Nat.lt_or_ge o (2 * n) with hlt | hge
    · rw [storePixel_of_ne (by omega) (by omega)]
      exact ih o hlt
    · obtain rfl | rfl : o = 2 * n ∨ o = 2 * n + 1 := by omega
      · rw [storePixel_low, show 2 * n / 2 = n by omega, show 2 * n % 2 = 0 by omega]
      · rw [← Nat.add_assoc, storePixel_high, show (2 * n + 1) / 2 = n by omega,
          show (2 * n + 1) % 2 = 1 by omega]

/-- A row leaves everything else alone. -/
theorem fillRow_out (m : Nat → UInt8) (a n : Nat) {b : Nat} (h : b < a ∨ a + 2 * n ≤ b) :
    fillRow m a n b = m b := by
  induction n with
  | zero => rfl
  | succ n ih =>
    have hstep : fillRow m a (n + 1) =
        storePixel (fillRow m a n) (a + 2 * n) (barColors (n * 8 / lcdHRes)) := by
      unfold fillRow
      rw [List.range_succ, List.foldl_append]
      rfl
    rw [hstep, storePixel_of_ne (by omega) (by omega)]
    exact ih (by omega)

/-- Each row is in place, whatever rows follow. -/
theorem fillRows_at (m : Nat → UInt8) (rows : Nat) {y o : Nat} (hy : y < rows)
    (ho : o < 2 * lcdHRes) :
    fillRows m rows (lcdFbAddr + 2 * (y * lcdHRes) + o) =
      pixelByte (barColors (o / 2 * 8 / lcdHRes)) (o % 2) := by
  induction rows with
  | zero => exact absurd hy (Nat.not_lt_zero _)
  | succ rows ih =>
    have hstep : fillRows m (rows + 1) =
        fillRow (fillRows m rows) (lcdFbAddr + 2 * (rows * lcdHRes)) lcdHRes := by
      unfold fillRows
      rw [List.range_succ, List.foldl_append, List.foldl_cons, List.foldl_nil]
    rw [hstep]
    rcases Nat.lt_or_ge y rows with hlt | hge
    · have hmul : (y + 1) * lcdHRes ≤ rows * lcdHRes := Nat.mul_le_mul_right _ hlt
      rw [Nat.succ_mul] at hmul
      exact (fillRow_out _ _ _ (Or.inl (by omega))).trans (ih hlt)
    · obtain rfl : y = rows := by omega
      exact fillRow_at _ _ _ o ho

/-- **The color bars**: each byte of the frame buffer is that of the bar over its column. -/
theorem fillColorBars_at (m : Nat → UInt8) {o : Nat} (ho : o < lcdFbSize) :
    fillColorBars m (lcdFbAddr + o) =
      pixelByte (barColors (o / 2 % lcdHRes * 8 / lcdHRes)) (o % 2) := by
  have hsize : lcdFbSize = 768000 := rfl
  have hy : o / 1600 < lcdVRes := Nat.div_lt_of_lt_mul ho
  have hx : o % 1600 < 2 * lcdHRes := Nat.mod_lt _ (by decide)
  have hrow := fillRows_at m lcdVRes hy hx
  unfold lcdHRes at hrow ⊢
  have haddr : lcdFbAddr + 2 * (o / 1600 * 800) + o % 1600 = lcdFbAddr + o := by omega
  have hcol : o % 1600 / 2 = o / 2 % 800 := by omega
  have hbyte : o % 1600 % 2 = o % 2 := by omega
  rw [haddr, hcol, hbyte] at hrow
  exact hrow

/-! ## The descriptors -/

/-- The frame: each byte, the last one with the mark. -/
def frame : List (Nat × Bool) :=
  (List.range lcdFbSize).map fun o => (lcdFbAddr + o, o + 1 = lcdFbSize)

section Link

variable {chunk : Nat} (hpos : 0 < chunk)

include hpos

/-- The pieces cover the frame, and each of them begins inside of it. -/
theorem nodeCount_covers : lcdFbSize ≤ lcdDmaNodeCount chunk * chunk ∧
    ∀ i < lcdDmaNodeCount chunk, i * chunk < lcdFbSize := by
  unfold lcdDmaNodeCount
  constructor
  · have hlt := Nat.lt_div_mul_add hpos (a := lcdFbSize + chunk - 1)
    omega
  · intro i hi
    have hle := (Nat.le_div_iff_mul_le hpos).mp hi
    rw [Nat.succ_mul] at hle
    omega

/-- The loop after `k` rounds. -/
theorem linkRound_foldl (link : Nat → DmaDescriptor) {k : Nat} (hk : k ≤ lcdDmaNodeCount chunk) :
    ((List.range k).foldl (linkRound chunk) (link, 0)).2 = min (k * chunk) lcdFbSize ∧
      ∀ i < k, ((List.range k).foldl (linkRound chunk) (link, 0)).1 i =
        { size := .ofNat 12 (min chunk (lcdFbSize - i * chunk))
          length := .ofNat 12 (min chunk (lcdFbSize - i * chunk))
          sucEof := i = lcdDmaNodeCount chunk - 1
          owner := true
          buffer := lcdFbAddr + i * chunk
          next := linkAt ((i + 1) % lcdDmaNodeCount chunk) } := by
  induction k with
  | zero => exact ⟨by rw [Nat.zero_mul]; rfl, fun i h => absurd h (Nat.not_lt_zero _)⟩
  | succ k ih =>
    obtain ⟨hoff, hlink⟩ := ih (Nat.le_of_succ_le hk)
    have hin := (nodeCount_covers hpos).2 k hk
    rw [Nat.min_eq_left (Nat.le_of_lt hin)] at hoff
    rw [List.range_succ, List.foldl_append, List.foldl_cons, List.foldl_nil]
    generalize (List.range k).foldl (linkRound chunk) (link, 0) = x at hoff hlink ⊢
    unfold linkRound
    dsimp only
    rw [hoff]
    have hn : (if lcdFbSize - k * chunk > chunk then chunk else lcdFbSize - k * chunk) =
        min chunk (lcdFbSize - k * chunk) := by
      split <;> omega
    rw [hn]
    refine ⟨?_, fun i hi => ?_⟩
    · rw [Nat.succ_mul]
      omega
    · rcases Nat.lt_succ_iff_lt_or_eq.mp hi with hlt | rfl
      · rw [Function.update_of_ne (Nat.ne_of_lt hlt)]
        exact hlink i hlt
      · rw [Function.update_self]

/-- **A descriptor of the ring.** -/
theorem buildDmaLink_at {i : Nat} (hi : i < lcdDmaNodeCount chunk) :
    buildDmaLink chunk i =
      { size := .ofNat 12 (min chunk (lcdFbSize - i * chunk))
        length := .ofNat 12 (min chunk (lcdFbSize - i * chunk))
        sucEof := i = lcdDmaNodeCount chunk - 1
        owner := true
        buffer := lcdFbAddr + i * chunk
        next := linkAt ((i + 1) % lcdDmaNodeCount chunk) } :=
  (linkRound_foldl hpos _ (Nat.le_refl _)).2 i hi

/-- **A descriptor reads its piece of the frame.** -/
theorem reads_piece (hmax : chunk ≤ 4095) {i : Nat} (hi : i < lcdDmaNodeCount chunk) :
    (buildDmaLink chunk i).reads = (frame.drop (i * chunk)).take chunk := by
  obtain ⟨hcover, hin⟩ := nodeCount_covers hpos
  have hlen : (BitVec.ofNat 12 (min chunk (lcdFbSize - i * chunk))).toNat =
      min chunk (lcdFbSize - i * chunk) := by
    rw [BitVec.toNat_ofNat]
    omega
  have hbegin := hin i hi
  rw [buildDmaLink_at hpos hi]
  unfold DmaDescriptor.reads frame
  dsimp only
  rw [hlen]
  refine List.ext_getElem ?_ fun j h1 h2 => ?_
  · simp only [List.length_map, List.length_range, List.length_take, List.length_drop]
  · rw [List.length_map, List.length_range] at h1
    simp only [List.getElem_map, List.getElem_range, List.getElem_take, List.getElem_drop]
    refine Prod.ext (Nat.add_assoc _ _ _) ?_
    show (decide (i = lcdDmaNodeCount chunk - 1) && _) = _
    rw [← Bool.decide_and, decide_eq_decide]
    constructor
    · rintro ⟨rfl, hj⟩
      -- the last piece ends where the frame ends
      have hlast : lcdFbSize ≤ (lcdDmaNodeCount chunk - 1) * chunk + chunk := by
        rw [← Nat.succ_mul, Nat.succ_eq_add_one, Nat.sub_add_cancel (by omega)]
        exact hcover
      omega
    · intro hj
      have hend : ¬ i + 1 < lcdDmaNodeCount chunk := fun hlt => by
        have hnext := hin (i + 1) hlt
        rw [Nat.succ_mul] at hnext
        omega
      exact ⟨by omega, by omega⟩

/-- The descriptors are a ring of the pieces. -/
theorem link_ring (hmax : chunk ≤ 4095)
    (hfit : lcdDmaNodeCount chunk * descriptorSize ≤ lcdDmaLinkSize) :
    Scan.Ring (fetchLink (buildDmaLink chunk)) linkAt
      ((List.range (lcdDmaNodeCount chunk)).map fun i => (frame.drop (i * chunk)).take chunk) := by
  intro i hi
  rw [List.length_map, List.length_range] at hi ⊢
  have hidx : (linkAt i - lcdDmaLinkAddr) / descriptorSize = i := by
    unfold linkAt descriptorSize
    omega
  have htake : lcdDmaLinkAddr ≤ linkAt i ∧
      linkAt i + descriptorSize ≤ lcdDmaLinkAddr + lcdDmaLinkSize ∧
      (linkAt i - lcdDmaLinkAddr) % descriptorSize = 0 := by
    unfold linkAt descriptorSize at *
    omega
  have hat := buildDmaLink_at hpos hi
  unfold fetchLink
  dsimp only
  rw [hidx, if_pos ⟨htake.1, htake.2.1, htake.2.2, by rw [hat]⟩, reads_piece hpos hmax hi,
    List.getElem_map, List.getElem_range]
  rw [hat]

/-- No piece is empty. -/
theorem piece_ne_nil {b : List (Nat × Bool)}
    (hb : b ∈ (List.range (lcdDmaNodeCount chunk)).map fun i =>
      (frame.drop (i * chunk)).take chunk) : b ≠ [] := by
  obtain ⟨i, hi, rfl⟩ := List.mem_map.mp hb
  have hin := (nodeCount_covers hpos).2 i (List.mem_range.mp hi)
  refine List.length_pos_iff.mp ?_
  rw [List.length_take, List.length_drop, frame, List.length_map, List.length_range]
  omega

/-- **The pieces are the frame.** -/
theorem pieces_frame : ((List.range (lcdDmaNodeCount chunk)).map fun i =>
    (frame.drop (i * chunk)).take chunk).flatten = frame := by
  rw [Scan.flatten_pieces]
  refine List.take_of_length_le ?_
  rw [frame, List.length_map, List.length_range]
  exact (nodeCount_covers hpos).1

end Link

/-! ## The attributes -/

/-- `ESP32S31_PMA_NAPOT` of an aligned range. -/
theorem range_pmaNapot {base t : Nat} (h : t < 32) (hbase : 2 ^ (t + 3) ∣ base) :
    napotRange (pmaNapot base (2 ^ (t + 3))) = (base, base + 2 ^ (t + 3)) := by
  have hhalf : 2 ^ (t + 3) >>> 1 = 2 ^ (t + 2) := by
    rw [Nat.shiftRight_eq_div_pow, Nat.pow_div (by omega) (by decide)]
    rfl
  unfold pmaNapot
  rw [hhalf]
  exact range_napot h hbase

/-- The entries that `esp32s31_pma_init` writes for the frame buffer. -/
theorem pmaInit_entries (p : Nat → PmaEntry) :
    pmaInit p 0 = ⟨pmaNapot 0x50f40000 0x00040000, pmaRwUncached⟩ ∧
      pmaInit p 1 = ⟨pmaNapot 0x50f80000 0x00080000, pmaRwUncached⟩ := by
  unfold pmaInit
  constructor
  · rw [Function.update_of_ne (by decide), Function.update_self]
  · rw [Function.update_self]

/-- Whether an entry for an aligned range takes a byte. -/
theorem takes_iff {p : Nat → PmaEntry} {i base t : Nat} (h : t < 32) (hbase : 2 ^ (t + 3) ∣ base)
    (hp : p i = ⟨pmaNapot base (2 ^ (t + 3)), pmaRwUncached⟩) (a : Nat) :
    ((p i).cfg.getLsbD 0 && within ((pmaRanges p).range i) a 1) = true ↔
      base ≤ a ∧ a < base + 2 ^ (t + 3) := by
  have hrange : (pmaRanges p).range i = (base, base + 2 ^ (t + 3)) := by
    have hmode : (pmaRanges p).mode i = 3 := by
      show ((p i).cfg.setWidth 8).toNat / 8 % 4 = 3
      rw [hp]
      show (pmaRwUncached.setWidth 8).toNat / 8 % 4 = 3
      decide
    unfold Pmp.range
    rw [hmode]
    show napotRange (p i).addr = _
    rw [hp]
    exact range_pmaNapot h hbase
  rw [hrange, hp, Bool.and_eq_true]
  simp only [within, decide_eq_true_eq]
  exact ⟨fun hin => ⟨hin.2.1, hin.2.2⟩, fun hin => ⟨rfl, hin.1, hin.2⟩⟩

/-- **The frame buffer is uncached**, whatever entries 3 to 15 say. -/
theorem pmaInit_uncached (p : Nat → PmaEntry) {a : Nat} (hlo : 0x50f40000 ≤ a)
    (hhi : a < 0x51000000) : uncached (pmaInit p) a = true := by
  obtain ⟨h0, h1⟩ := pmaInit_entries p
  have htake0 := @takes_iff (pmaInit p) 0 0x50f40000 15 (by decide) (by decide) h0 a
  have htake1 := @takes_iff (pmaInit p) 1 0x50f80000 16 (by decide) (by decide) h1 a
  have hfind : pmaTakes (pmaInit p) a = some 0 ∨ pmaTakes (pmaInit p) a = some 1 := by
    unfold pmaTakes
    rw [show List.range 16 = 0 :: 1 :: (List.range 14).map (· + 2) from rfl]
    rcases Nat.lt_or_ge a 0x50f80000 with hlt | hge
    · exact Or.inl (List.find?_cons_of_pos (htake0.mpr ⟨hlo, hlt⟩))
    · have hnot : ¬ ((pmaInit p 0).cfg.getLsbD 0 &&
          within ((pmaRanges (pmaInit p)).range 0) a 1) = true := fun hin =>
        Nat.not_lt.mpr hge (htake0.mp hin).2
      refine Or.inr ?_
      rw [List.find?_cons, Bool.eq_false_iff.mpr hnot]
      exact List.find?_cons_of_pos (htake1.mpr ⟨hge, hhi⟩)
  unfold uncached
  rcases hfind with h | h
  · rw [h]
    dsimp only
    rw [h0]
    rfl
  · rw [h]
    dsimp only
    rw [h1]
    rfl

/-! ## The result -/

/-- **The picture stays.** After `fill_color_bars` and `build_dma_link`, with the PMA entries of
OpenSBI: however long the DMA runs, it finds its next descriptor in the region reserved for them,
and the byte that it reads at the time `t` is byte `t` of the frame, over and over, with the mark at
the end of each frame; its address is uncached, and holds the color of the bar over its column until
somebody writes to the frame buffer. -/
theorem display_scans {chunk : Nat} (hpos : 0 < chunk) (hmax : chunk ≤ 4095)
    (hfit : lcdDmaNodeCount chunk * descriptorSize ≤ lcdDmaLinkSize) (p : Nat → PmaEntry)
    (m : Nat → UInt8) (n : Nat) :
    ∃ xs q, Scan.scan (fetchLink (buildDmaLink chunk)) n lcdDmaLinkAddr = some (xs, q) ∧
      n ≤ xs.length ∧ ∀ t x, xs[t]? = some x →
        x = (lcdFbAddr + t % lcdFbSize, decide ((t + 1) % lcdFbSize = 0)) ∧
        uncached (pmaInit p) x.1 = true ∧
        fillColorBars m x.1 =
          pixelByte (barColors (t % lcdFbSize / 2 % lcdHRes * 8 / lcdHRes))
            (t % lcdFbSize % 2) := by
  have hcount : 0 < lcdDmaNodeCount chunk := by
    have hcover := (nodeCount_covers hpos).1
    rcases Nat.eq_zero_or_pos (lcdDmaNodeCount chunk) with h0 | h0
    · rw [h0, Nat.zero_mul] at hcover
      exact absurd hcover (by decide)
    · exact h0
  obtain ⟨xs, j, hs, -, hn, hxs⟩ := Scan.scan_ring (link_ring hpos hmax hfit)
    (fun b hb => piece_ne_nil hpos hb) n (i := 0) (by
      rw [List.length_map, List.length_range]
      exact hcount)
  refine ⟨xs, linkAt j, hs, hn, fun t x hx => ?_⟩
  have ht : t < xs.length := (List.getElem?_eq_some_iff.mp hx).1
  have hlen : frame.length = lcdFbSize := by rw [frame, List.length_map, List.length_range]
  have hmod : t % lcdFbSize < lcdFbSize := Nat.mod_lt _ (by decide)
  have hget := hxs t ht
  rw [hx, pieces_frame hpos, hlen, show Scan.offset _ 0 + t = t from Nat.zero_add t] at hget
  have hread : x = (lcdFbAddr + t % lcdFbSize, decide (t % lcdFbSize + 1 = lcdFbSize)) := by
    unfold frame at hget
    rw [List.getElem?_map, List.getElem?_range hmod] at hget
    exact Option.some.inj hget
  have hmark : t % lcdFbSize + 1 = lcdFbSize ↔ (t + 1) % lcdFbSize = 0 := by
    show t % 768000 + 1 = 768000 ↔ (t + 1) % 768000 = 0
    omega
  rw [decide_eq_decide.mpr hmark] at hread
  refine ⟨hread, ?_, ?_⟩
  · rw [hread]
    have hsize : lcdFbSize = 768000 := rfl
    have haddr : lcdFbAddr = 0x50F40000 := rfl
    exact pmaInit_uncached p (by omega) (by omega)
  · rw [hread]
    exact fillColorBars_at m hmod

/-- A ring of 191 descriptors, once around and on into the next frame. -/
theorem display_scans_frame : ∃ xs q,
    Scan.scan (fetchLink (buildDmaLink 4032)) 200 lcdDmaLinkAddr = some (xs, q) ∧
      200 ≤ xs.length := by
  have hfit : lcdDmaNodeCount 4032 * descriptorSize ≤ lcdDmaLinkSize := by decide
  obtain ⟨xs, q, hs, hn, -⟩ :=
    display_scans (by decide) (by decide) hfit (fun _ => ⟨0, 0⟩) (fun _ => 0) 200
  exact ⟨xs, q, hs, hn⟩

end Esp32S31.Boot
