import Mathlib.Logic.Basic
import Esp32S31.Lib.Protobuf
import Esp32S31.BleHa.Batches

/-!
# A batch of advertisements, decoded

`rawAdvertisements?` is a protobuf decoder (`Lib.Protobuf`) for BluetoothLERawAdvertisementsResponse
of api.proto. **`batch_decodes`**: of what `api_adv_batch` writes it gives the advertisements, in
their order.
-/

namespace Esp32S31.BleHa

open Esp32S31.Lib.Protobuf

/-! ## What the functions of `api.c` write -/

theorem pbVarintFrom_isVarint {n v : Nat} (hn : 0 < n) (hv : v < 128 ^ n) :
    IsVarint v (pbVarintFrom n v) := by
  induction n generalizing v with
  | zero => exact absurd hn (Nat.lt_irrefl 0)
  | succ n ih =>
    unfold pbVarintFrom
    by_cases hlast : v ≤ 0x7f
    · rw [if_pos hlast]
      exact IsVarint.last (by omega)
    · have hdiv : v / 128 < 128 ^ n :=
        Nat.div_lt_of_lt_mul (by rwa [Nat.pow_succ, Nat.mul_comm] at hv)
      have hpos : 0 < n := by
        rcases Nat.eq_zero_or_pos n with rfl | hpos
        · rw [Nat.pow_zero] at hdiv
          omega
        · exact hpos
      have hmore := IsVarint.more (Nat.mod_lt v (by decide : 0 < 128)) (ih hpos hdiv)
      rw [Nat.mod_add_div] at hmore
      rw [if_neg hlast]
      exact hmore

/-- A word of 64 bits takes at most ten bytes. -/
theorem pbVarint_fits {v : Nat} (hv : v < 2 ^ 64) : FitsVarint v (pbVarint v) where
  is := pbVarintFrom_isVarint (by decide) (Nat.lt_trans hv (by decide))
  lt := hv
  length := pbVarintFrom_length (by decide) (Nat.lt_trans hv (by decide))

theorem pbUint_message {field v : Nat} (hf : 0 < field) (hmax : field < 2 ^ 29) (hv : v < 2 ^ 64) :
    IsMessage (varintEntry field v) (pbUint field v) := by
  unfold varintEntry pbUint
  by_cases h : v = 0
  · rw [if_pos h, if_pos h]
    exact IsMessage.nil
  · rw [if_neg h, if_neg h]
    exact (IsField.varint hf hmax (pbVarint_fits (by omega)) (pbVarint_fits hv)).message

/-- The bytes of a field, empty or not. -/
theorem pbKey_bytes {field : Nat} {d : List UInt8} (hf : 0 < field) (hmax : field < 2 ^ 29)
    (hd : d.length < 2 ^ 64) :
    IsField ⟨field, .bytes d⟩ (pbKey field 2 ++ pbVarint d.length ++ d) :=
  IsField.bytes hf hmax (pbVarint_fits (by omega)) (pbVarint_fits hd)

theorem pbBytes_message {field : Nat} {d : List UInt8} (hf : 0 < field) (hmax : field < 2 ^ 29)
    (hd : d.length < 2 ^ 64) : IsMessage (bytesEntry field d) (pbBytes field d) := by
  unfold bytesEntry pbBytes
  by_cases h : d = []
  · rw [if_pos h, if_pos h]
    exact IsMessage.nil
  · rw [if_neg h, if_neg h]
    exact (pbKey_bytes hf hmax hd).message

/-- `zigzag` is `((uint32_t)rssi << 1) ^ (uint32_t)(rssi >> 31)`. -/
theorem toNat_zigzag32_rssi (rssi : Int8) :
    (zigzag32 (BitVec.ofInt 32 rssi.toInt)).toNat = zigzag rssi := by
  have hlow := rssi.le_toInt
  have hhigh := rssi.toInt_lt
  have hint : (BitVec.ofInt 32 rssi.toInt).toInt = rssi.toInt := by
    rw [BitVec.toInt_ofInt]
    exact Int.bmod_eq_of_le (by omega) (by omega)
  rw [toNat_zigzag32, hint]
  rfl

/-! ## The fields of a report -/

/-- The fields of a report that are sent. -/
def advEntries (a : Adv) : List Entry :=
  varintEntry 1 a.addr ++ varintEntry 2 (zigzag a.rssi) ++ varintEntry 3 a.addrType.toNat ++
    bytesEntry 4 a.data

theorem advMessage_message {a : Adv} (ha : a.Valid) : IsMessage (advEntries a) (advMessage a) := by
  obtain ⟨haddr, hdata⟩ := ha
  unfold advMax at hdata
  have hz := zigzag_lt a.rssi
  have ht := a.addrType.toNat_lt
  have h1 : IsMessage (varintEntry 1 a.addr) (pbUint 1 a.addr) :=
    pbUint_message (by decide) (by decide) (by omega)
  have h2 : IsMessage (varintEntry 2 (zigzag a.rssi)) (pbUint 2 (zigzag a.rssi)) :=
    pbUint_message (by decide) (by decide) (by omega)
  have h3 : IsMessage (varintEntry 3 a.addrType.toNat) (pbUint 3 a.addrType.toNat) :=
    pbUint_message (by decide) (by decide) (by omega)
  have h4 : IsMessage (bytesEntry 4 a.data) (pbBytes 4 a.data) :=
    pbBytes_message (by decide) (by decide) (by omega)
  exact ((h1.append h2).append h3).append h4

theorem apiAdvBatch_message {ads : List Adv} (h : ∀ a ∈ ads, a.Valid) :
    IsMessage (ads.map fun a => ⟨1, .bytes (advMessage a)⟩) (apiAdvBatch ads) := by
  induction ads with
  | nil => exact IsMessage.nil
  | cons a ads ih =>
    have ha := h a List.mem_cons_self
    have hlen := advMessage_length ha
    have hfield : IsField ⟨1, .bytes (advMessage a)⟩
        (pbKey 1 2 ++ pbVarint (advMessage a).length ++ advMessage a) :=
      pbKey_bytes (by decide) (by decide) (by omega)
    exact IsMessage.cons hfield (ih fun b hb => h b (List.mem_cons_of_mem a hb))

/-! ## The decoder -/

/-- `BluetoothLERawAdvertisement` of api.proto. -/
structure RawAdvertisement where
  address : Nat
  rssi : Int
  addressType : Nat
  data : List UInt8
  deriving DecidableEq

/-- A `BluetoothLERawAdvertisement`: uint64 address = 1, sint32 rssi = 2, uint32 address_type = 3,
bytes data = 4. -/
def rawAdvertisement? (p : List UInt8) : Option RawAdvertisement := do
  let fs ← fields? p
  some
    { address := uint64Of 1 fs
      rssi := sint32Of 2 fs
      addressType := uint32Of 3 fs
      data := bytesOf 4 fs }

/-- A `BluetoothLERawAdvertisementsResponse`: repeated advertisements = 1. -/
def rawAdvertisements? (p : List UInt8) : Option (List RawAdvertisement) := do
  let fs ← fields? p
  (allBytesOf 1 fs).mapM rawAdvertisement?

/-- A report as the other side sees it. -/
def Adv.raw (a : Adv) : RawAdvertisement := ⟨a.addr, a.rssi.toInt, a.addrType.toNat, a.data⟩

theorem getLastD_default (v : Nat) : (if v ≠ 0 then [v] else []).getLastD 0 = v := by
  by_cases h : v = 0
  · rw [if_neg (not_not.mpr h), h]
    rfl
  · rw [if_pos h]
    rfl

/-- A number or bytes that are left out are the default. -/
theorem rawAdvertisement?_advMessage {a : Adv} (ha : a.Valid) :
    rawAdvertisement? (advMessage a) = some a.raw := by
  have haddr : uint64Of 1 (advEntries a) = a.addr := by
    unfold uint64Of advEntries
    simpa using getLastD_default a.addr
  have htype : uint32Of 3 (advEntries a) = a.addrType.toNat := by
    have h : uint64Of 3 (advEntries a) = a.addrType.toNat := by
      unfold uint64Of advEntries
      simpa using getLastD_default a.addrType.toNat
    have := a.addrType.toNat_lt
    unfold uint32Of
    rw [h]
    omega
  have hrssi : sint32Of 2 (advEntries a) = a.rssi.toInt := by
    have h : uint64Of 2 (advEntries a) = zigzag a.rssi := by
      unfold uint64Of advEntries
      simpa using getLastD_default (zigzag a.rssi)
    have hlow := a.rssi.le_toInt
    have hhigh := a.rssi.toInt_lt
    unfold sint32Of
    rw [h, ← toNat_zigzag32_rssi, BitVec.ofNat_toNat, BitVec.setWidth_eq, unzigzag32_zigzag32,
      BitVec.toInt_ofInt]
    exact Int.bmod_eq_of_le (by omega) (by omega)
  have hdata : bytesOf 4 (advEntries a) = a.data := by
    unfold bytesOf advEntries
    by_cases h : a.data = []
    · simp [h]
    · simp [h]
  unfold rawAdvertisement?
  rw [fields?_of_isMessage (advMessage_message ha)]
  simp only [Option.bind_eq_bind, Option.bind_some, haddr, hrssi, htype, hdata]
  rfl

/-- **The batch decodes to its reports**, each with its address, signal strength, address type and
data, in their order. -/
theorem batch_decodes {ads : List Adv} (h : ∀ a ∈ ads, a.Valid) :
    rawAdvertisements? (apiAdvBatch ads) = some (ads.map Adv.raw) := by
  have hmap : allBytesOf 1 (ads.map fun a => ⟨1, .bytes (advMessage a)⟩) = ads.map advMessage := by
    unfold allBytesOf
    rw [List.filterMap_map]
    simp [Function.comp_def]
  have hall : (ads.map advMessage).mapM rawAdvertisement? = some (ads.map Adv.raw) := by
    rw [List.mapM_map]
    clear hmap
    induction ads with
    | nil => rfl
    | cons a ads ih =>
      have ha := rawAdvertisement?_advMessage (h a List.mem_cons_self)
      rw [List.mapM_cons, Function.comp_apply, ha, ih fun b hb => h b (List.mem_cons_of_mem a hb)]
      rfl
  unfold rawAdvertisements?
  rw [fields?_of_isMessage (apiAdvBatch_message h)]
  simp only [Option.bind_eq_bind, Option.bind_some, hmap, hall]

/-- A report without address, signal strength, type and data, and one with the largest fields. -/
theorem batch_decodes_bounds : rawAdvertisements? (apiAdvBatch
      [⟨0, 0, 0, []⟩, ⟨2 ^ 48 - 1, 0xff, -128, List.replicate 31 0xff⟩]) =
    some [⟨0, 0, 0, []⟩, ⟨2 ^ 48 - 1, -128, 0xff, List.replicate 31 0xff⟩] := by
  have hvalid : ∀ a ∈ ([⟨0, 0, 0, []⟩,
      ⟨2 ^ 48 - 1, 0xff, -128, List.replicate 31 0xff⟩] : List Adv), a.Valid := by
    intro a ha
    simp only [List.mem_cons, List.not_mem_nil, or_false] at ha
    rcases ha with rfl | rfl
    · constructor <;> decide
    · constructor <;> decide
  exact batch_decodes hvalid

end Esp32S31.BleHa
