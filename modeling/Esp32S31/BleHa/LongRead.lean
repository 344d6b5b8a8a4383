import Mathlib.Logic.Basic
import Mathlib.Data.List.TakeDrop
import Esp32S31.Lib.Slice
import Esp32S31.BleHa.Gatt

/-!
# Long reads

A client that reads a value with Read and Read Blob, and the accesses that the two make.

* `blobs_value`: the loop of the client, with the bytes that it has so far as the invariant.
* `readAt_eq`: `read_value` with every access checked (`Lib.Slice`), for any request.
* **`long_read`**: both.
-/

namespace Esp32S31.BleHa

open Esp32S31.Lib Esp32S31.Lib.Slice

/-! ## The client -/

def readRequest (h : Nat) : List UInt8 := 0x0a :: put16 h

def blobRequest (h off : Nat) : List UInt8 := 0x0c :: put16 h ++ put16 off

/-- At most `n` Read Blob requests behind the bytes `acc`, until a response is shorter than the MTU.
-/
def blobs (g : Gatt) (max h : Nat) : Nat → List UInt8 → Option (List UInt8)
  | 0, _ => none
  | n + 1, acc =>
    let rsp := (gattHandle g (blobRequest h acc.length) max).2.1
    if byte rsp 0 ≠ 0x0d then none
    else if rsp.length < g.mtu then some (acc ++ rsp.drop 1)
    else blobs g max h n (acc ++ rsp.drop 1)

/-- The value that a client reads with a Read and at most `n` Read Blob requests. -/
def longRead (g : Gatt) (max h n : Nat) : Option (List UInt8) :=
  let rsp := (gattHandle g (readRequest h) max).2.1
  if byte rsp 0 ≠ 0x0b then none
  else if rsp.length < g.mtu then some (rsp.drop 1)
  else blobs g max h n (rsp.drop 1)

section Value

variable {g : Gatt} {h : Nat} {v : List UInt8}

theorem attrValue_handle (hv : attrValue g h = .ok v) : h < 2 ^ 16 := by
  unfold attrValue at hv
  split at hv
  · cases hv
  · next hh =>
    unfold lastHandle at hh
    omega

/-- Read and Read Blob go to `read_value`. -/
theorem gattHandle_read {req : List UInt8} (hop : byte req 0 = 0x0a ∨ byte req 0 = 0x0c)
    (hlen : 3 ≤ req.length)
    (max : Nat) : gattHandle g req max = (g, readValue g req (min max g.mtu), none) := by
  have h0 : req.length ≠ 0 := by omega
  unfold gattHandle
  rcases hop with hop | hop
  · simp only [hop, if_neg h0, if_pos hlen]
    rfl
  · simp only [hop, if_neg h0, if_pos hlen]
    rfl

theorem read_response (hv : attrValue g h = .ok v) (max : Nat) :
    (gattHandle g (readRequest h) max).2.1 = 0x0b :: v.take (min max g.mtu - 1) := by
  have hget : get16 (readRequest h) 1 = h := by
    have := get16_put16 (attrValue_handle hv) 0x0a []
    exact this
  have hlen : 3 ≤ (readRequest h).length := Nat.le_refl 3
  rw [gattHandle_read (Or.inl rfl) hlen]
  unfold readValue
  simp only [hget, hv]
  rfl

theorem blob_request_handle (hh : h < 2 ^ 16) (off : Nat) : get16 (blobRequest h off) 1 = h := by
  have := get16_put16 hh 0x0c (put16 off)
  exact this

theorem blob_request_offset (h : Nat) {off : Nat} (hoff : off < 2 ^ 16) : get16
    (blobRequest h off) 3 = off := by
  have := get16_put16 hoff 0 []
  exact this

theorem blob_response (hv : attrValue g h = .ok v) {off : Nat} (hoff : off ≤ v.length)
    (hsmall : v.length < 2 ^ 16)
    (max : Nat) : (gattHandle g (blobRequest h off) max).2.1 = 0x0d :: (v.drop off).take
      (min max g.mtu - 1) := by
  have hget := blob_request_handle (attrValue_handle hv) off
  have hoff' : get16 (blobRequest h off) 3 = off := blob_request_offset h (by omega)
  have hblob : byte (blobRequest h off) 0 = 0x0c ∧ 5 ≤ (blobRequest h off).length :=
    ⟨rfl, Nat.le_refl 5⟩
  have hlen : 3 ≤ (blobRequest h off).length := Nat.le_add_left 3 2
  rw [gattHandle_read (Or.inr rfl) hlen]
  unfold readValue
  simp only [hget, hv, if_pos hblob, hoff']
  rw [if_neg (by omega)]
  rfl

/-- **An offset behind the value.** -/
theorem blob_beyond (hv : attrValue g h = .ok v) {off : Nat} (hoff : v.length < off)
    (hsmall : off < 2 ^ 16)
    (max : Nat) : gattHandle g (blobRequest h off) max =
      (g, errorRsp 0x0c h errInvalidOffset, none) := by
  have hget := blob_request_handle (attrValue_handle hv) off
  have hoff' := blob_request_offset h hsmall
  have hblob : byte (blobRequest h off) 0 = 0x0c ∧ 5 ≤ (blobRequest h off).length :=
    ⟨rfl, Nat.le_refl 5⟩
  have hlen : 3 ≤ (blobRequest h off).length := Nat.le_add_left 3 2
  rw [gattHandle_read (Or.inr rfl) hlen]
  unfold readValue
  simp only [hget, hv, if_pos hblob, hoff']
  rw [if_pos hoff]
  rfl

/-- **The loop of the client.** It has the first bytes of the value, and every response that is not
the last brings as many as the MTU takes. -/
theorem blobs_value (hv : attrValue g h = .ok v) (hsmall : v.length < 2 ^ 16) {max : Nat}
    (hmtu : 23 ≤ g.mtu)
    (hmax : g.mtu ≤ max) (n : Nat) {k : Nat} (hk : k ≤ v.length)
    (hn : (v.length - k) / (g.mtu - 1) < n) : blobs g max h n (v.take k) = some v := by
  induction n generalizing k with
  | zero => exact absurd hn (Nat.not_lt_zero _)
  | succ n ih =>
    have hacc : (v.take k).length = k := by rw [List.length_take]; omega
    have hlim : min max g.mtu = g.mtu := Nat.min_eq_right hmax
    have hrsp := blob_response hv hk hsmall max
    have hnext : v.take k ++ (v.drop k).take (g.mtu - 1) = v.take (k + (g.mtu - 1)) := by
      rw [List.take_add]
    unfold blobs
    simp only [hacc, hrsp, hlim]
    have hop : ¬ byte (0x0d :: (v.drop k).take (g.mtu - 1)) 0 ≠ 0x0d := fun hne => hne rfl
    rw [if_neg hop, List.drop_one, List.tail_cons, hnext]
    have hlen : (0x0d :: (v.drop k).take (g.mtu - 1)).length =
        min (g.mtu - 1) (v.length - k) + 1 := by
      rw [List.length_cons, List.length_take, List.length_drop]
    rw [hlen]
    by_cases hlast : v.length - k < g.mtu - 1
    · rw [if_pos (by omega), List.take_of_length_le (by omega)]
    · rw [if_neg (by omega)]
      refine ih (by omega) ?_
      have hstep : (v.length - k) / (g.mtu - 1) =
          (v.length - (k + (g.mtu - 1))) / (g.mtu - 1) + 1 := by
        rw [← Nat.add_div_right _ (by omega)]
        congr 1
        omega
      omega

theorem longRead_value (hv : attrValue g h = .ok v) (hsmall : v.length < 2 ^ 16) {max : Nat}
    (hmtu : 23 ≤ g.mtu)
    (hmax : g.mtu ≤ max) {n : Nat} (hn : v.length / (g.mtu - 1) ≤ n) :
      longRead g max h n = some v := by
  have hlim : min max g.mtu = g.mtu := Nat.min_eq_right hmax
  have hop : ¬ byte (0x0b :: v.take (g.mtu - 1)) 0 ≠ 0x0b := fun hne => hne rfl
  have hlen : (0x0b :: v.take (g.mtu - 1)).length = min (g.mtu - 1) v.length + 1 := by
    rw [List.length_cons, List.length_take]
  unfold longRead
  simp only [read_response hv max, hlim]
  rw [if_neg hop, List.drop_one, List.tail_cons, hlen]
  by_cases hlast : v.length < g.mtu - 1
  · rw [if_pos (by omega), List.take_of_length_le (by omega)]
  · rw [if_neg (by omega)]
    refine blobs_value hv hsmall hmtu hmax n (by omega) ?_
    have hstep : v.length / (g.mtu - 1) = (v.length - (g.mtu - 1)) / (g.mtu - 1) + 1 := by
      rw [← Nat.add_div_right _ (by omega)]
      congr 1
      omega
    omega

end Value

/-! ## The accesses -/

/-- `attr_value`: the length or the error, and the array of the caller. -/
def attrValueAt (g : Gatt) (h : Nat) (v : Arr UInt8 64) : Option
    (Except UInt8 Nat × Arr UInt8 64) :=
  let put (d : List UInt8) : Option (Except UInt8 Nat × Arr UInt8 64) :=
    (store? v 0 d).map (.ok d.length, ·)
  if h < 1 ∨ h > lastHandle then some (.error errInvalidHandle, v)
  else do
    let a ← db[h]?
    match a.kind with
    | .svc => put a.uuid
    | .decl => put (a.props :: put16 (h + 1) ++ a.uuid)
    | .cccd => do
      let i ← cccdIndex h
      put (put16 (g.cccd i))
    | .value =>
      if h = 3 then put g.name
      else if h = 5 then put [0, 0]
      else if h = gattStateValue then put [g.state]
      else if h = gattErrorValue then put [g.error]
      else if h = gattResultValue then put g.result
      else if h = 19 then put [g.caps]
      else some (.error errReadNotPerm, v)

/-- A response, its length and the array of the caller. -/
def respond {size : Nat} (rsp : Arr UInt8 size) (d : List UInt8) : Option (Nat × Arr UInt8 size) :=
  (store? rsp 0 d).map (d.length, ·)

/-- The offset of a request: a Read has none. -/
def offsetAt (req : List UInt8) : Option Nat := do
  let op ← req[0]?
  if op = 0x0c ∧ 5 ≤ req.length then
    let lo ← req[3]?
    let hi ← req[4]?
    some (lo.toNat + 256 * hi.toNat)
  else some 0

/-- `read_value`, with the array of `attr_value` and that of the response. -/
def readValueAt {size : Nat} (g : Gatt) (req : List UInt8) (v : Arr UInt8 64)
    (rsp : Arr UInt8 size) : Option (Nat × Arr UInt8 size) := do
  let op ← req[0]?
  let h := (← req[1]?).toNat + 256 * (← req[2]?).toNat
  let off ← offsetAt req
  let (vl, v) ← attrValueAt g h v
  match vl with
  | .error e => respond rsp (errorRsp op h e)
  | .ok vl =>
    if off > vl then respond rsp (errorRsp op h errInvalidOffset)
    else do
      -- only the value in the array may be read
      let d ← slice? (v.1.take vl) off (min (vl - off) (size - 1))
      respond rsp ((op + 1) :: d)

/-- Read and Read Blob in `gatt_handle`. -/
def readAt {size : Nat} (g : Gatt) (req : List UInt8) (v : Arr UInt8 64) (rsp : Arr UInt8 size) :
    Option (Nat × Arr UInt8 size) := do
  if 3 ≤ req.length then readValueAt g req v rsp
  else
    let op ← req[0]?
    respond rsp (errorRsp op 0 errInvalidLen)

theorem respond_fits {size : Nat} (rsp : Arr UInt8 size) {d : List UInt8} (h : d.length ≤ size) :
    ∃ rsp', respond rsp d = some (d.length, rsp') ∧ rsp'.1.take d.length = d := by
  obtain ⟨a, hstore, ha⟩ := store?_zero (a := rsp) h
  refine ⟨a, ?_, ?_⟩
  · unfold respond
    rw [hstore]
    rfl
  · rw [ha, List.take_left]

/-- The attributes have UUIDs of at most 16 bytes, and each CCCD has its flags. -/
theorem db_attrs : ∀ h < 20, (dbAt h).uuid.length ≤ 16 ∧
    ((dbAt h).kind = .cccd → (cccdIndex h).isSome = true) := by
  decide

theorem db_getElem {h : Nat} (hh : h < 20) : db[h]? = some (dbAt h) := by
  have hlen : h < db.length := hh
  unfold dbAt
  rw [List.getD_eq_getElem?_getD, List.getElem?_eq_getElem hlen, Option.getD_some]

/-- What `attr_value` stores, when it is at most 64 bytes. -/
theorem put_fits (v : Arr UInt8 64) {d : List UInt8} (h : d.length ≤ 64) :
    ∃ d' v', (Except.ok d : Except UInt8 (List UInt8)) = .ok d' ∧
      (store? v 0 d).map (Except.ok d.length, ·) = some ((.ok d'.length : Except UInt8 Nat), v') ∧
      d'.length ≤ 64 ∧ v'.1.take d'.length = d' := by
  obtain ⟨a, hstore, ha⟩ := store?_zero (a := v) h
  refine ⟨d, a, rfl, ?_, h, ?_⟩
  · rw [hstore]
    rfl
  · rw [ha, List.take_left]

/-- Every value fits the array, so `attr_value` stores what `attrValue` says. -/
theorem attrValueAt_eq {g : Gatt} (hname : g.name.length ≤ 63) (hresult : g.result.length ≤ 64)
    (h : Nat)
    (v : Arr UInt8 64) :
    (∃ e, attrValue g h = .error e ∧ attrValueAt g h v = some (.error e, v)) ∨
      ∃ d v', attrValue g h = .ok d ∧ attrValueAt g h v = some (.ok d.length, v') ∧ d.length ≤ 64 ∧
        v'.1.take d.length = d := by
  unfold attrValue attrValueAt
  dsimp only
  by_cases hrange : h < 1 ∨ h > lastHandle
  · rw [if_pos hrange, if_pos hrange]
    exact Or.inl ⟨_, rfl, rfl⟩
  · rw [if_neg hrange, if_neg hrange]
    have hh : h < 20 := by
      unfold lastHandle at hrange
      omega
    obtain ⟨huuid, hflags⟩ := db_attrs h hh
    simp only [db_getElem hh, Option.bind_eq_bind, Option.bind_some]
    cases hkind : (dbAt h).kind with
    | svc => exact Or.inr (put_fits v (by omega))
    | decl =>
      refine Or.inr (put_fits v ?_)
      simp only [put16, List.length_append, List.length_cons, List.length_nil]
      omega
    | cccd =>
      obtain ⟨i, hi⟩ := Option.isSome_iff_exists.mp (hflags hkind)
      simp only [hi, Option.bind_some, Option.elim_some]
      exact Or.inr (put_fits v (show 2 ≤ 64 by decide))
    | value =>
      dsimp only
      by_cases h3 : h = 3
      · rw [if_pos h3, if_pos h3]
        exact Or.inr (put_fits v (by omega))
      · rw [if_neg h3, if_neg h3]
        by_cases h5 : h = 5
        · rw [if_pos h5, if_pos h5]
          exact Or.inr (put_fits v (show 2 ≤ 64 by decide))
        · rw [if_neg h5, if_neg h5]
          by_cases hstate : h = gattStateValue
          · rw [if_pos hstate, if_pos hstate]
            exact Or.inr (put_fits v (show 1 ≤ 64 by decide))
          · rw [if_neg hstate, if_neg hstate]
            by_cases herror : h = gattErrorValue
            · rw [if_pos herror, if_pos herror]
              exact Or.inr (put_fits v (show 1 ≤ 64 by decide))
            · rw [if_neg herror, if_neg herror]
              by_cases hres : h = gattResultValue
              · rw [if_pos hres, if_pos hres]
                exact Or.inr (put_fits v hresult)
              · rw [if_neg hres, if_neg hres]
                by_cases h19 : h = 19
                · rw [if_pos h19, if_pos h19]
                  exact Or.inr (put_fits v (show 1 ≤ 64 by decide))
                · rw [if_neg h19, if_neg h19]
                  exact Or.inl ⟨_, rfl, rfl⟩

theorem errorRsp_length (op : UInt8) (h : Nat) (err : UInt8) : (errorRsp op h err).length = 5 := rfl

/-- **The accesses of Read and Read Blob**, for any request: none leaves the request, the value or
the response, and the response is that of `gattHandle`. -/
theorem readAt_eq {g : Gatt} (hname : g.name.length ≤ 63) (hresult : g.result.length ≤ 64)
    {req : List UInt8}
    (hop : byte req 0 = 0x0a ∨ byte req 0 = 0x0c) {max : Nat} (hmtu : 5 ≤ min max g.mtu)
      (v : Arr UInt8 64)
    (rsp : Arr UInt8 (min max g.mtu)) :
    ∃ n rsp', readAt g req v rsp = some (n, rsp') ∧ rsp'.1.take n = (gattHandle g req max).2.1 := by
  have h0 : req.length ≠ 0 := by
    intro h0
    rw [List.length_eq_zero_iff.mp h0] at hop
    rcases hop with hop | hop <;> cases hop
  have herror (h : Nat) (err : UInt8) : (errorRsp (byte req 0) h err).length ≤ min max g.mtu := by
    rw [errorRsp_length]
    exact hmtu
  unfold readAt
  by_cases hlen : 3 ≤ req.length
  · rw [if_pos hlen, gattHandle_read hop hlen]
    have hoff : offsetAt req = some (if byte req 0 = 0x0c ∧ 5 ≤ req.length then get16 req 3
        else 0) := by
      unfold offsetAt
      simp only [getElem?_byte (p := req) (i := 0) (by omega), Option.bind_eq_bind,
        Option.bind_some]
      by_cases hblob : byte req 0 = 0x0c ∧ 5 ≤ req.length
      · rw [if_pos hblob, if_pos hblob, getElem?_byte (by omega), getElem?_byte (by omega)]
        rfl
      · rw [if_neg hblob, if_neg hblob]
    unfold readValueAt readValue
    simp only [getElem?_byte (p := req) (i := 0) (by omega),
      getElem?_byte (p := req) (i := 1) (by omega),
      getElem?_byte (p := req) (i := 2) (by omega), Option.bind_eq_bind, Option.bind_some, hoff]
    generalize (if byte req 0 = 0x0c ∧ 5 ≤ req.length then get16 req 3 else 0) = off
    have hh : (byte req 1).toNat + 256 * (byte req 2).toNat = get16 req 1 := rfl
    rw [hh]
    rcases attrValueAt_eq hname hresult (get16 req 1) v with ⟨e, hv, hat⟩ | ⟨d, v', hv, hat, _, hd⟩
    · rw [hv, hat]
      exact ⟨_, respond_fits rsp (herror _ _)⟩
    · rw [hv, hat]
      dsimp only [Option.bind_some]
      by_cases hbeyond : off > d.length
      · rw [if_pos hbeyond, if_pos hbeyond]
        exact ⟨_, respond_fits rsp (herror _ _)⟩
      · have hslice : slice? (v'.1.take d.length) off (min (d.length - off) (min max g.mtu - 1)) =
            some ((d.drop off).take (min max g.mtu - 1)) := by
          rw [hd, slice?_of_le (by omega), Nat.min_comm, ← List.take_take]
          congr 2
          exact List.take_of_length_le (Nat.le_of_eq List.length_drop)
        rw [if_neg hbeyond, if_neg hbeyond, hslice]
        refine ⟨_, respond_fits rsp ?_⟩
        rw [List.length_cons, List.length_take]
        omega
  · rw [if_neg hlen, getElem?_byte (by omega)]
    have hshort : (gattHandle g req max).2.1 = errorRsp (byte req 0) 0 errInvalidLen := by
      unfold gattHandle
      rcases hop with hop | hop
      · simp only [hop, if_neg h0, if_neg hlen]
        rfl
      · simp only [hop, if_neg h0, if_neg hlen]
        rfl
    rw [hshort]
    exact ⟨_, respond_fits rsp (herror _ _)⟩

/-- **Long reads.** A Read and Read Blob requests give the value of any attribute that can be read,
and an offset behind it gives `ERR_INVALID_OFFSET`. Whatever handle, offset and length a request
has, only the bytes of the request and of the value are read and only those of the response are
written. The limit of the caller is never below the MTU (`Sized.rspMax`). -/
theorem long_read {g : Gatt} (hname : g.name.length ≤ 63) (hresult : g.result.length ≤ 64)
    (hmtu : 23 ≤ g.mtu)
    {max : Nat} (hmax : g.mtu ≤ max) :
    (∀ h v, attrValue g h = .ok v →
      (∀ n, v.length / (g.mtu - 1) ≤ n → longRead g max h n = some v) ∧
      ∀ off, v.length < off → off < 2 ^ 16 →
        gattHandle g (blobRequest h off) max = (g, errorRsp 0x0c h errInvalidOffset, none)) ∧
    ∀ req (v : Arr UInt8 64) (rsp : Arr UInt8 (min max g.mtu)), byte req 0 = 0x0a ∨
      byte req 0 = 0x0c →
      ∃ n rsp', readAt g req v rsp = some (n, rsp') ∧
        rsp'.1.take n = (gattHandle g req max).2.1 := by
  constructor
  · intro h v hv
    have hsmall : v.length < 2 ^ 16 := by
      rcases attrValueAt_eq hname hresult h ⟨List.replicate 64 0, rfl⟩ with
        ⟨e, he, _⟩ | ⟨d, _, hd, _, h64, _⟩
      · rw [hv] at he
        cases he
      · rw [hv] at hd
        cases hd
        omega
    exact ⟨fun n hn => longRead_value hv hsmall hmtu hmax hn,
      fun off hoff hlt => blob_beyond hv hoff hlt max⟩
  · intro req v rsp hop
    exact readAt_eq hname hresult hop (by omega) v rsp

/-- The name of 63 bytes at the smallest MTU, in three responses. -/
theorem long_read_name : ∃ g, g = { Gatt.zero with name := List.replicate 63 0x61, mtu := 23 } ∧
    longRead g 256 3 2 = some g.name := by
  refine ⟨_, rfl, ?_⟩
  refine ((long_read ?_ ?_ ?_ ?_).1 3 _ rfl).1 2 ?_ <;> decide

end Esp32S31.BleHa
