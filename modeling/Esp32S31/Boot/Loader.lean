import Mathlib.Algebra.GroupWithZero.Nat
import Mathlib.Logic.Basic

/-!
# Loading the kernel

`load_kernel_partition` of the boot loader (`main.c`): the manifest at the end of the `linux`
partition gives the size and the CRC of the image, the header of the image gives the memory that the
running kernel takes. Sizes are the words of the source, so that sums wrap as theirs do; the
partition is the list of its bytes.

**`load_kernel_fits_iff`**: when the function accepts the partition, the kernel lies inside the
PSRAM and below the heap of the firmware exactly if the memory size of its header is at most the
PSRAM size. The function compares only the size of the image with the PSRAM, and its 64-bit sum can
wrap.
-/

namespace Esp32S31.Boot

/-- `PSRAM_BASE`, `OPENSBI_LOAD_ADDR`, `OPENSBI_LOAD_SIZE`, `KERNEL_LOAD_ADDR`. -/
def psramBase : UInt32 := 0x50000000
def opensbiLoadAddr : UInt32 := 0x50F00000
def opensbiLoadSize : UInt32 := 0x00030000
def kernelLoadAddr : UInt32 := 0x50000000

/-- `KERNEL_IMAGE_SIZE_OFFSET`, `KERNEL_MAGIC2_OFFSET`, `KERNEL_MAGIC2`, `KERNEL_SIZE_MAGIC`. -/
def kernelImageSizeOffset : UInt32 := 0x10
def kernelMagic2Offset : UInt32 := 0x38
def kernelMagic2 : UInt32 := 0x05435352
def kernelSizeMagic : UInt32 := 0x455A4953

/-- `FW_PSRAM_HEAP_ADDR`, `FW_PSRAM_HEAP_SIZE`. -/
def fwPsramHeapAddr : UInt32 := 0x50E80000
def fwPsramHeapSize : UInt32 := 0x00040000

/-! ## Memory -/

/-- The memory, by address. -/
abbrev Mem := UInt32 → UInt8

/-- Copy bytes to `a`. -/
def store (m : Mem) (a : UInt32) (bs : List UInt8) : Mem := fun b => bs.getD (b - a).toNat (m b)

/-- The `n` bytes at `a`. -/
def bytesAt (m : Mem) (a : UInt32) (n : Nat) : List UInt8 :=
  (List.range n).map fun i => m (a + UInt32.ofNat i)

/-- The value of bytes, the low one first. -/
def le : List UInt8 → Nat
  | [] => 0
  | b :: bs => b.toNat + 256 * le bs

theorem le_lt (bs : List UInt8) : le bs < 256 ^ bs.length := by
  induction bs with
  | nil => decide
  | cons b bs ih =>
    have hb : b.toNat < 256 := b.toNat_lt
    rw [le, List.length_cons, Nat.pow_succ]
    omega

/-- What was copied is what is read back. -/
theorem bytesAt_store (m : Mem) (a : UInt32) {bs : List UInt8} {off n : Nat}
    (hn : off + n ≤ bs.length) (hl : bs.length < 2 ^ 32) :
    bytesAt (store m a bs) (a + UInt32.ofNat off) n = (bs.drop off).take n := by
  refine List.ext_getElem ?_ fun i h1 h2 => ?_
  · simp only [bytesAt, List.length_map, List.length_range, List.length_take, List.length_drop]
    omega
  · have hi : i < n := by simpa [bytesAt] using h1
    have hd : a + UInt32.ofNat off + UInt32.ofNat i - a = UInt32.ofNat (off + i) := by
      rw [UInt32.ofNat_add, UInt32.add_assoc, UInt32.add_comm, UInt32.add_sub_cancel]
    have hlt : off + i < bs.length := by omega
    have ht : (UInt32.ofNat (off + i)).toNat = off + i :=
      UInt32.toNat_ofNat_of_lt' (Nat.lt_trans hlt hl)
    simp only [bytesAt, List.getElem_map, List.getElem_range, store, hd, ht, List.getElem_take,
      List.getElem_drop]
    rw [List.getD_eq_getElem?_getD, List.getElem?_eq_getElem hlt, Option.getD_some]

/-! ## The function -/

/-- What `load_kernel_partition` calls: `esp_partition_read` gives the bytes of the flash or an
error, and `esp_rom_crc32_le` is some function. -/
structure Platform where
  read : List UInt8 → Nat → Nat → Option (List UInt8)
  read_ok : ∀ {part off n bs}, read part off n = some bs →
    off + n ≤ part.length ∧ bs = (part.drop off).take n
  crc32 : UInt32 → List UInt8 → UInt32

/-- `struct kernel_size_manifest`. -/
structure KernelSizeManifest where
  magic : UInt32
  imageSize : UInt32
  imageCrc32 : UInt32

/-- `sizeof(manifest)`. -/
def manifestSize : UInt32 := 12

/-- The manifest that twelve bytes are. -/
def KernelSizeManifest.ofBytes (bs : List UInt8) : KernelSizeManifest where
  magic := UInt32.ofNat (le (bs.take 4))
  imageSize := UInt32.ofNat (le ((bs.drop 4).take 4))
  imageCrc32 := UInt32.ofNat (le ((bs.drop 8).take 4))

/-- `load_kernel_partition`, with the `linux` partition if there is one; the result and the memory
after it. -/
def loadKernelPartition (p : Platform) (linux : Option (List UInt8)) (psramSize : UInt32)
    (mem : Mem) : Bool × Mem :=
  match linux with
  | none => (false, mem)
  | some part =>
    let size := UInt32.ofNat part.length
    match p.read part (size - manifestSize).toNat manifestSize.toNat with
    | none => (false, mem)
    | some bs =>
      let manifest := KernelSizeManifest.ofBytes bs
      let imageSize := manifest.imageSize
      if manifest.magic ≠ kernelSizeMagic ∨ imageSize < kernelMagic2Offset + 4 ∨
          imageSize > size - manifestSize then
        (false, mem)
      else if kernelLoadAddr + imageSize > psramBase + psramSize then (false, mem)
      else
        match p.read part 0 imageSize.toNat with
        | none => (false, mem)
        | some image =>
          let mem := store mem kernelLoadAddr image
          let magic2 := UInt32.ofNat (le (bytesAt mem (kernelLoadAddr + kernelMagic2Offset) 4))
          let memorySize :=
            UInt64.ofNat (le (bytesAt mem (kernelLoadAddr + kernelImageSizeOffset) 8))
          if p.crc32 0 (bytesAt mem kernelLoadAddr imageSize.toNat) ≠ manifest.imageCrc32 then
            (false, mem)
          else if magic2 ≠ kernelMagic2 then (false, mem)
          else if memorySize < imageSize.toUInt64 ∨
              kernelLoadAddr.toUInt64 + memorySize > fwPsramHeapAddr.toUInt64 then
            (false, mem)
          else (true, mem)

/-! ## What it accepts -/

/-- The manifest of a partition. -/
def manifest (part : List UInt8) : KernelSizeManifest :=
  .ofBytes ((part.drop (part.length - 12)).take 12)

/-- The memory size in the header of the image. -/
def memorySize (part : List UInt8) : Nat := le ((part.drop 0x10).take 8)

/-- **The kernel is in its place**: the copied image has the CRC of the manifest, and the memory of
the running kernel contains it, is PSRAM, and ends below the heap of the firmware and below OpenSBI.
-/
structure KernelFits (p : Platform) (part : List UInt8) (psramSize : UInt32) (mem : Mem) :
    Prop where
  copied : bytesAt mem kernelLoadAddr (manifest part).imageSize.toNat =
    part.take (manifest part).imageSize.toNat
  crc : p.crc32 0 (bytesAt mem kernelLoadAddr (manifest part).imageSize.toNat) =
    (manifest part).imageCrc32
  image : (manifest part).imageSize.toNat ≤ memorySize part
  start : psramBase.toNat ≤ kernelLoadAddr.toNat
  psram : kernelLoadAddr.toNat + memorySize part ≤ psramBase.toNat + psramSize.toNat
  heap : kernelLoadAddr.toNat + memorySize part ≤ fwPsramHeapAddr.toNat
  opensbi : kernelLoadAddr.toNat + memorySize part ≤ opensbiLoadAddr.toNat

/-- What the checks of an accepted partition say; the last sum is the wrapped one. -/
structure Checked (p : Platform) (part : List UInt8) (mem : Mem) : Prop where
  copied : bytesAt mem kernelLoadAddr (manifest part).imageSize.toNat =
    part.take (manifest part).imageSize.toNat
  crc : p.crc32 0 (bytesAt mem kernelLoadAddr (manifest part).imageSize.toNat) =
    (manifest part).imageCrc32
  image : (manifest part).imageSize.toNat ≤ memorySize part
  heap : (kernelLoadAddr.toNat + memorySize part) % 2 ^ 64 ≤ fwPsramHeapAddr.toNat

theorem toNat_size_sub {part : List UInt8} (h : 12 ≤ part.length) (hl : part.length < 2 ^ 32) :
    (UInt32.ofNat part.length - manifestSize).toNat = part.length - 12 := by
  have hs : (UInt32.ofNat part.length).toNat = part.length := UInt32.toNat_ofNat_of_lt' hl
  have hm : manifestSize.toNat = 12 := rfl
  rw [UInt32.toNat_sub_of_le _ _ (by rw [UInt32.le_iff_toNat_le, hs, hm]; exact h), hs, hm]

/-- The bytes that the checks read are those of the partition. -/
theorem bytesAt_image (mem : Mem) {part image : List UInt8} {size : Nat} (off n : Nat)
    (hi : image = part.take size) (hl : part.length < 2 ^ 32) (hs : size ≤ part.length)
    (hn : off + n ≤ size) :
    bytesAt (store mem kernelLoadAddr image) (kernelLoadAddr + UInt32.ofNat off) n =
      (part.drop off).take n := by
  have hil : image.length = size := by
    rw [hi, List.length_take]
    omega
  rw [bytesAt_store mem kernelLoadAddr (by omega) (by omega), hi, List.drop_take, List.take_take]
  congr 1
  omega

theorem memorySize_lt (part : List UInt8) : memorySize part < 2 ^ 64 := by
  have h := le_lt ((part.drop 0x10).take 8)
  have h8 : ((part.drop 0x10).take 8).length ≤ 8 := List.length_take_le _ _
  exact Nat.lt_of_lt_of_le h (Nat.pow_le_pow_right (by decide) h8)

theorem loadKernelPartition_checked {p : Platform} {part : List UInt8} {psramSize : UInt32}
    {mem mem' : Mem} (h12 : 12 ≤ part.length) (hl : part.length < 2 ^ 32)
    (h : loadKernelPartition p (some part) psramSize mem = (true, mem')) :
    Checked p part mem' := by
  simp only [loadKernelPartition] at h
  split at h
  · simp at h
  rename_i bs hbs
  obtain ⟨-, hbs⟩ := p.read_ok hbs
  rw [toNat_size_sub h12 hl] at hbs
  have hm : KernelSizeManifest.ofBytes bs = manifest part := by
    rw [hbs]
    rfl
  rw [hm] at h
  split at h
  · simp at h
  rename_i hsane
  split at h
  · simp at h
  split at h
  · simp at h
  rename_i image himage
  obtain ⟨hlen, himage⟩ := p.read_ok himage
  rw [Nat.zero_add] at hlen
  rw [List.drop_zero] at himage
  have h60 : 60 ≤ (manifest part).imageSize.toNat := by
    have hn : ¬ (manifest part).imageSize < kernelMagic2Offset + 4 := fun hc =>
      hsane (.inr (.inl hc))
    exact UInt32.le_iff_toNat_le.mp (UInt32.not_lt.mp hn)
  have hcopy : bytesAt (store mem kernelLoadAddr image) kernelLoadAddr
      (manifest part).imageSize.toNat = part.take (manifest part).imageSize.toNat := by
    have hb := bytesAt_image mem 0 (manifest part).imageSize.toNat himage hl hlen (by omega)
    rwa [show kernelLoadAddr + UInt32.ofNat 0 = kernelLoadAddr from by decide, List.drop_zero] at hb
  have hsize : bytesAt (store mem kernelLoadAddr image) (kernelLoadAddr + kernelImageSizeOffset) 8 =
      (part.drop 0x10).take 8 :=
    bytesAt_image mem 0x10 8 himage hl hlen (by omega)
  have hms : (UInt64.ofNat (memorySize part)).toNat = memorySize part :=
    UInt64.toNat_ofNat_of_lt' (memorySize_lt part)
  rw [hsize, ← memorySize] at h
  split at h
  · simp at h
  rename_i hcrc
  split at h
  · simp at h
  split at h
  · simp at h
  rename_i hmem
  obtain ⟨-, rfl⟩ := Prod.mk.inj h
  obtain ⟨himg, hheap⟩ := not_or.mp hmem
  refine ⟨hcopy, not_not.mp hcrc, ?_, ?_⟩
  · have := UInt64.le_iff_toNat_le.mp (UInt64.not_lt.mp himg)
    rwa [UInt32.toNat_toUInt64, hms] at this
  · have := UInt64.le_iff_toNat_le.mp (UInt64.not_lt.mp hheap)
    rwa [UInt64.toNat_add, UInt32.toNat_toUInt64, UInt32.toNat_toUInt64, hms] at this

/-- **What an accepted kernel does to the memory map**: it fits exactly if the memory size of its
header is at most the PSRAM size. -/
theorem load_kernel_fits_iff (p : Platform) (part : List UInt8) (psramSize : UInt32)
    (mem mem' : Mem)
    (h12 : 12 ≤ part.length) (hl : part.length < 2 ^ 32)
    (h : loadKernelPartition p (some part) psramSize mem = (true, mem')) :
    KernelFits p part psramSize mem' ↔ memorySize part ≤ psramSize.toNat := by
  have hc := loadKernelPartition_checked h12 hl h
  have hlt : psramSize.toNat < 2 ^ 32 := psramSize.toNat_lt
  constructor
  · intro hf
    have hp := hf.psram
    simp only [kernelLoadAddr, psramBase, UInt32.reduceToNat] at hp
    omega
  · intro hle
    have hh := hc.heap
    simp only [kernelLoadAddr, fwPsramHeapAddr, UInt32.reduceToNat] at hh
    refine ⟨hc.copied, hc.crc, hc.image, by decide, ?_, ?_, ?_⟩ <;>
      simp only [kernelLoadAddr, psramBase, fwPsramHeapAddr, opensbiLoadAddr,
        UInt32.reduceToNat] <;>
      omega

/-! ## Two partitions that do not fit -/

/-- `esp_rom_crc32_le`: the reflected CRC-32, bit by bit. -/
def espRomCrc32Le (crc : UInt32) (bs : List UInt8) : UInt32 :=
  let bit (c : UInt32) (_ : Nat) : UInt32 :=
    if c &&& 1 = 1 then (c >>> 1) ^^^ 0xEDB88320 else c >>> 1
  ~~~ bs.foldl (fun c b => (List.range 8).foldl bit (c ^^^ b.toUInt32)) (~~~ crc)

/-- A flash that can always be read. -/
def flash : Platform where
  read part off n := if off + n ≤ part.length then some ((part.drop off).take n) else none
  read_ok h := by
    obtain ⟨hle, hb⟩ := Option.ite_none_right_eq_some.mp h
    exact ⟨hle, (Option.some.inj hb).symm⟩
  crc32 := espRomCrc32Le

/-- An image of 60 bytes whose header asks for `size`, and its manifest. -/
def partition (size crc : List UInt8) : List UInt8 :=
  List.replicate 16 0 ++ size ++ List.replicate 32 0 ++ [0x52, 0x53, 0x43, 0x05] ++
    [0x53, 0x49, 0x5A, 0x45] ++ [60, 0, 0, 0] ++ crc

/-- A kernel of 8 MiB. -/
def smallKernel : List UInt8 := partition [0, 0, 0x80, 0, 0, 0, 0, 0] [241, 125, 97, 57]

/-- A kernel up to the heap of the firmware. -/
def largeKernel : List UInt8 := partition [0, 0, 0xE8, 0, 0, 0, 0, 0] [34, 62, 79, 90]

/-- A kernel of `2 ^ 64 - KERNEL_LOAD_ADDR` bytes. -/
def hugeKernel : List UInt8 :=
  partition [0, 0, 0, 0xB0, 0xFF, 0xFF, 0xFF, 0xFF] [228, 118, 200, 227]

theorem load_kernel_fits_small :
    KernelFits flash smallKernel 0x1000000
      (loadKernelPartition flash (some smallKernel) 0x1000000 fun _ => 0).2 := by
  have h : (loadKernelPartition flash (some smallKernel) 0x1000000 fun _ => 0).1 = true := by
    decide +kernel
  have hr : loadKernelPartition flash (some smallKernel) 0x1000000 (fun _ => 0) = (true,
      (loadKernelPartition flash (some smallKernel) 0x1000000 fun _ => 0).2) := by
    rw [← h]
  exact (load_kernel_fits_iff flash smallKernel 0x1000000 (fun _ => 0) _ (by decide) (by decide)
    hr).mpr (by decide +kernel)

/-- **Two kernels are accepted and do not fit**: one behind the end of a PSRAM of 8 MiB, and one
whose end wraps to address 0. -/
theorem load_kernel_too_large :
    ((loadKernelPartition flash (some largeKernel) 0x800000 fun _ => 0).1 = true ∧
      ¬ KernelFits flash largeKernel 0x800000
        (loadKernelPartition flash (some largeKernel) 0x800000 fun _ => 0).2) ∧
    (loadKernelPartition flash (some hugeKernel) 0x1000000 fun _ => 0).1 = true ∧
      ¬ KernelFits flash hugeKernel 0x1000000
        (loadKernelPartition flash (some hugeKernel) 0x1000000 fun _ => 0).2 := by
  refine ⟨⟨by decide +kernel, fun h => ?_⟩, by decide +kernel, fun h => ?_⟩
  · exact absurd h.psram (by decide +kernel)
  · exact absurd h.heap (by decide +kernel)

end Esp32S31.Boot
