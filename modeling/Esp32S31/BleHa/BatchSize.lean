import Mathlib.Data.Nat.Log
import Esp32S31.BleHa.Batches

/-!
# The size of a batch

`flush_batch` gives `api_adv_batch` 48 bytes for each report. A report can take 49: an address type
from 0x80 on, which the parser does not check, has a varint of two bytes. What decides is how many
bytes the reports of a full batch leave unused (`Adv.unused`, from the fields alone).

* `apiAdvBatch_unused`: the length of a message and the bytes that its reports leave unused.
* **`batch_fits_iff`**: when a batch fits its buffers; `batch_overflow`: one that does not.
-/

namespace Esp32S31.BleHa

/-! ## Varints -/

/-- A varint has a byte for each seven bits, and one for 0. -/
theorem length_pbVarintFrom {n v : Nat} (hn : 0 < n) (hv : v < 128 ^ n) :
    (pbVarintFrom n v).length = Nat.log 128 v + 1 := by
  induction n generalizing v with
  | zero => exact absurd hn (Nat.lt_irrefl 0)
  | succ n ih =>
    unfold pbVarintFrom
    by_cases hlast : v ≤ 0x7f
    · rw [if_pos hlast, Nat.log_of_lt (by omega)]
      rfl
    · have hdiv : v / 128 < 128 ^ n :=
        Nat.div_lt_of_lt_mul (by rwa [Nat.pow_succ, Nat.mul_comm] at hv)
      have hpos : 0 < n := by
        rcases Nat.eq_zero_or_pos n with rfl | hpos
        · rw [Nat.pow_zero] at hdiv
          omega
        · exact hpos
      rw [if_neg hlast, List.length_cons, ih hpos hdiv,
        Nat.log_of_one_lt_of_le (by decide) (by omega : 128 ≤ v)]

theorem length_pbVarint {v : Nat} (hv : v < 128 ^ 10) : (pbVarint v).length = Nat.log 128 v + 1 :=
  length_pbVarintFrom (by decide) hv

theorem length_pbVarint_small {v : Nat} (hv : v < 128) : (pbVarint v).length = 1 := by
  rw [length_pbVarint (Nat.lt_of_lt_of_le hv (by decide)), Nat.log_of_lt hv]

theorem length_pbKey {field wire : Nat} (h : 8 * field + wire < 128) :
    (pbKey field wire).length = 1 :=
  length_pbVarint_small h

/-! ## What a report leaves unused -/

/-- Of the 49 bytes that a report can take, those that its address leaves: the key and seven bytes.
-/
def addrUnused (addr : Nat) : Nat := if addr = 0 then 8 else 6 - Nat.log 128 addr

/-- Those of the signal strength: the key and two bytes. -/
def rssiUnused (rssi : Int8) : Nat :=
  if rssi.toInt = 0 then 3 else if -64 ≤ rssi.toInt ∧ rssi.toInt < 64 then 1 else 0

/-- Those of the address type: the key and two bytes. -/
def typeUnused (addrType : UInt8) : Nat := if addrType = 0 then 3 else if addrType < 0x80 then 1
    else 0

/-- Those of the data: the key, the length and 31 bytes. -/
def dataUnused (len : Nat) : Nat := if len = 0 then 33 else 31 - len

/-- The bytes that a report leaves unused. -/
def Adv.unused (a : Adv) : Nat :=
  addrUnused a.addr + rssiUnused a.rssi + typeUnused a.addrType + dataUnused a.data.length

theorem length_pbUint {field v : Nat} (hf : 8 * field < 128) (hv : v < 128 ^ 10) :
    (pbUint field v).length = if v = 0 then 0 else Nat.log 128 v + 2 := by
  unfold pbUint
  split
  · rfl
  · rw [List.length_append, length_pbKey hf, length_pbVarint hv]
    omega

theorem addr_unused {addr : Nat} (h : addr < 2 ^ 48) :
    (pbUint 1 addr).length + addrUnused addr = 8 := by
  rw [length_pbUint (by decide) (Nat.lt_trans h (by decide))]
  unfold addrUnused
  by_cases h0 : addr = 0
  · rw [if_pos h0, if_pos h0]
  · have hlog : Nat.log 128 addr < 7 := Nat.log_lt_of_lt_pow h0 (Nat.lt_trans h (by decide))
    rw [if_neg h0, if_neg h0]
    omega

/-- A field with a number of at most 14 bits. -/
theorem length_pbUint_two {field v : Nat} (hf : 8 * field < 128) (hv : v < 128 * 128) :
    (pbUint field v).length = if v = 0 then 0 else if v < 128 then 2 else 3 := by
  rw [length_pbUint hf (Nat.lt_trans hv (by decide))]
  by_cases h0 : v = 0
  · rw [if_pos h0, if_pos h0]
  · rw [if_neg h0, if_neg h0]
    by_cases h : v < 128
    · rw [if_pos h, Nat.log_of_lt h]
    · rw [if_neg h, Nat.log_of_one_lt_of_le (by decide) (by omega : 128 ≤ v),
        Nat.log_of_lt (by omega)]

theorem rssi_unused (rssi : Int8) : (pbUint 2 (zigzag rssi)).length + rssiUnused rssi = 3 := by
  have hz : zigzag rssi = if rssi.toInt < 0 then (-2 * rssi.toInt - 1).toNat
      else (2 * rssi.toInt).toNat := rfl
  rw [length_pbUint_two (by decide) (Nat.lt_trans (zigzag_lt rssi) (by decide))]
  unfold rssiUnused
  by_cases h0 : rssi.toInt = 0
  · rw [if_neg (by omega)] at hz
    rw [if_pos h0, if_pos (by omega)]
  · have hne : zigzag rssi ≠ 0 := by split at hz <;> omega
    rw [if_neg h0, if_neg hne]
    by_cases hsmall : -64 ≤ rssi.toInt ∧ rssi.toInt < 64
    · have hlt : zigzag rssi < 128 := by split at hz <;> omega
      rw [if_pos hsmall, if_pos hlt]
    · have hge : ¬ zigzag rssi < 128 := by split at hz <;> omega
      rw [if_neg hsmall, if_neg hge]

theorem type_unused (addrType : UInt8) :
    (pbUint 3 addrType.toNat).length + typeUnused addrType = 3 := by
  have ht := addrType.toNat_lt
  have h0 : addrType.toNat = 0 ↔ addrType = 0 := by rw [← UInt8.toNat_inj]; rfl
  have h80 : addrType.toNat < 128 ↔ addrType < 0x80 := by rw [UInt8.lt_iff_toNat_lt]; rfl
  rw [length_pbUint_two (by decide) (Nat.lt_trans ht (by decide))]
  unfold typeUnused
  by_cases hz : addrType = 0
  · rw [if_pos hz, if_pos (h0.mpr hz)]
  · rw [if_neg hz, if_neg (fun h => hz (h0.mp h))]
    by_cases hs : addrType < 0x80
    · rw [if_pos hs, if_pos (h80.mpr hs)]
    · rw [if_neg hs, if_neg (fun h => hs (h80.mp h))]

theorem data_unused {data : List UInt8} (h : data.length ≤ advMax) :
    (pbBytes 4 data).length + dataUnused data.length = 33 := by
  unfold advMax at h
  unfold pbBytes dataUnused
  by_cases h0 : data = []
  · rw [if_pos h0, h0]
    rfl
  · have hlen : data.length ≠ 0 := fun h => h0 (List.length_eq_zero_iff.mp h)
    rw [if_neg h0, if_neg hlen, List.length_append, List.length_append, length_pbKey (by decide),
      length_pbVarint_small (by omega)]
    omega

/-- A report and what it leaves of its 47 bytes. -/
theorem advMessage_unused {a : Adv} (h : a.Valid) : (advMessage a).length + a.unused = 47 := by
  have haddr := addr_unused h.1
  have hrssi := rssi_unused a.rssi
  have htype := type_unused a.addrType
  have hdata := data_unused h.2
  unfold advMessage Adv.unused
  rw [List.length_append, List.length_append, List.length_append]
  omega

/-- **A message and what its reports leave unused.** -/
theorem apiAdvBatch_unused {ads : List Adv} (h : ∀ a ∈ ads, a.Valid) :
    (apiAdvBatch ads).length + (ads.map Adv.unused).sum = 49 * ads.length := by
  induction ads with
  | nil => rfl
  | cons a ads ih =>
    have hrest := ih fun b hb => h b (List.mem_cons_of_mem a hb)
    have hmsg := advMessage_unused (h a List.mem_cons_self)
    have heq : apiAdvBatch (a :: ads) =
        (pbKey 1 2 ++ pbVarint (advMessage a).length ++ advMessage a) ++ apiAdvBatch ads := rfl
    rw [heq, List.length_append, List.length_append, List.length_append, length_pbKey (by decide),
      length_pbVarint_small (by omega), List.map_cons, List.sum_cons, List.length_cons]
    omega

/-! ## The buffers -/

/-- The size of `msg` in `flush_batch`. -/
def msgSize : Nat := advBatch * 48

/-- The size of `sub` in `api_adv_batch`. -/
def subSize : Nat := 64

/-- The size of `buf` in `client_send`. -/
def sendSize : Nat := 1200

/-- A batch fits `msg`, each of its reports `sub`, and its frame `buf`, so that `client_send` does
not drop it. -/
structure BatchFits (ads : List Adv) : Prop where
  msg : (apiAdvBatch ads).length ≤ msgSize
  sub : ∀ a ∈ ads, (advMessage a).length ≤ subSize
  frame : (apiFrame 93 (apiAdvBatch ads)).length ≤ sendSize
  sent : (apiAdvBatch ads).length + 12 ≤ sendSize

/-- The reports of a batch come from events. -/
def FromEvents (ads : List Adv) : Prop := ∀ a ∈ ads, ∃ ev, a ∈ hciParseAdvReports ev 8

theorem FromEvents.valid {ads : List Adv} (h : FromEvents ads) : ∀ a ∈ ads, a.Valid := by
  intro a ha
  obtain ⟨ev, hev⟩ := h a ha
  unfold hciParseAdvReports at hev
  split at hev
  · cases hev
  · exact advReports_valid _ _ _ a hev

/-- **A batch fits its buffers** exactly if it is not full, or if its reports leave 16 bytes or more
unused. -/
theorem batch_fits_iff {ads : List Adv} (h : FromEvents ads) (hmax : ads.length ≤ advBatch) :
    BatchFits ads ↔ ads.length < advBatch ∨ 16 ≤ (ads.map Adv.unused).sum := by
  have hvalid := h.valid
  have hlen := apiAdvBatch_unused hvalid
  have hb : advBatch = 16 := rfl
  have hm : msgSize = 768 := rfl
  have hs : sendSize = 1200 := rfl
  constructor
  · rintro ⟨hmsg, _, _, _⟩
    omega
  · intro hroom
    have hmsg : (apiAdvBatch ads).length ≤ msgSize := by omega
    refine ⟨hmsg, fun a ha => ?_, ?_, by omega⟩
    · exact Nat.le_trans (advMessage_length (hvalid a ha)) (by decide)
    · have hv : (pbVarint (apiAdvBatch ads).length).length ≤ 2 :=
        pbVarintFrom_length (by decide) (by omega)
      have heq : apiFrame 93 (apiAdvBatch ads) =
          0x00 :: pbVarint (apiAdvBatch ads).length ++ pbVarint 93 ++ apiAdvBatch ads := rfl
      have htype : (pbVarint 93).length = 1 := length_pbVarint_small (by decide)
      rw [heq, List.length_append, List.length_append, List.length_cons, htype]
      omega

/-- An event with one report of 31 bytes from an address of the type 0x80. -/
def longAdvert : List UInt8 :=
  [0x3e, 0x2b, 0x02, 0x01, 0x00, 0x80, 0x11, 0x22, 0x33, 0x44, 0x55, 0xc6, 0x1f] ++ List.replicate
    31 0xff ++ [0xa0]

theorem fromEvents_replicate (n : Nat) (ev : List UInt8) :
    FromEvents (List.replicate n (hciParseAdvReports ev 8)).flatten := by
  intro a ha
  obtain ⟨l, hl, ha⟩ := List.mem_flatten.mp ha
  exact ⟨ev, List.eq_of_mem_replicate hl ▸ ha⟩

/-- Fifteen of them fit. -/
theorem batch_fits_fifteen : BatchFits
    (List.replicate 15 (hciParseAdvReports longAdvert 8)).flatten :=
  (batch_fits_iff (fromEvents_replicate 15 longAdvert) (by decide)).mpr (Or.inl (by decide))

/-- **Sixteen do not**: their message has 784 bytes. -/
theorem batch_overflow : ∃ ads, ads =
    (List.replicate 16 (hciParseAdvReports longAdvert 8)).flatten ∧
    FromEvents ads ∧ ads.length ≤ advBatch ∧ (apiAdvBatch ads).length = 784 ∧ ¬ BatchFits ads := by
  refine ⟨_, rfl, fromEvents_replicate 16 longAdvert, by decide, by decide +kernel, fun h => ?_⟩
  exact absurd h.msg (by decide +kernel)

end Esp32S31.BleHa
