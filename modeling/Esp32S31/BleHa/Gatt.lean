import Esp32S31.BleHa.Improv
import Esp32S31.Lib.Buffer

/-!
# The ATT server

`gatt.c`: a fixed GATT database with the GAP service and the Improv service. A request is the list
of its bytes, a response too; no response is the empty list.

`gatt_handle` calls `rpc_write` through the GATT state. Here it returns the argument of that call,
and the caller makes it: nothing that `gatt_handle` still does after the call reads what it changes.
-/

namespace Esp32S31.BleHa

open Esp32S31.Lib

/-- `SVC`, `DECL`, `VALUE`, `CCCD`. -/
inductive AttrKind where
  | svc
  | decl
  | value
  | cccd
  deriving DecidableEq, Repr

/-- `PROP_READ`, `PROP_WNR`, `PROP_WRITE`, `PROP_NOTIFY`. -/
def propRead : UInt8 := 0x02
def propWnr : UInt8 := 0x04
def propWrite : UInt8 := 0x08
def propNotify : UInt8 := 0x10

/-- `ERR_INVALID_HANDLE`, `ERR_READ_NOT_PERM`, `ERR_WRITE_NOT_PERM`, `ERR_NOT_SUPPORTED`. -/
def errInvalidHandle : UInt8 := 0x01
def errReadNotPerm : UInt8 := 0x02
def errWriteNotPerm : UInt8 := 0x03
def errNotSupported : UInt8 := 0x06

/-- `ERR_INVALID_OFFSET`, `ERR_QUEUE_FULL`, `ERR_NOT_FOUND`, `ERR_INVALID_LEN`. -/
def errInvalidOffset : UInt8 := 0x07
def errQueueFull : UInt8 := 0x09
def errNotFound : UInt8 := 0x0a
def errInvalidLen : UInt8 := 0x0d

/-- `LAST_HANDLE`. -/
def lastHandle : Nat := 19

/-- `GATT_STATE_VALUE`, `GATT_ERROR_VALUE`, `GATT_RPC_VALUE`, `GATT_RESULT_VALUE`. -/
def gattStateValue : Nat := 8
def gattErrorValue : Nat := 11
def gattRpcValue : Nat := 14
def gattResultValue : Nat := 16

/-- `IMPROV(x)`: a UUID of the Improv service. -/
def improvAttr (x : UInt8) : List UInt8 := x :: improvUuid.drop 1

/-- `struct attr`; the length of the UUID is that of the list. -/
structure Attr where
  kind : AttrKind
  props : UInt8
  uuid : List UInt8
  deriving DecidableEq, Repr

/-- `db`, by handle. -/
def db : List Attr :=
  [⟨.svc, 0, []⟩,
    ⟨.svc, 0, put16 0x1800⟩,
    ⟨.decl, propRead, put16 0x2a00⟩,
    ⟨.value, propRead, put16 0x2a00⟩,
    ⟨.decl, propRead, put16 0x2a01⟩,
    ⟨.value, propRead, put16 0x2a01⟩,
    ⟨.svc, 0, improvAttr 0x00⟩,
    ⟨.decl, propRead ||| propNotify, improvAttr 0x01⟩,
    ⟨.value, propRead ||| propNotify, improvAttr 0x01⟩,
    ⟨.cccd, 0, []⟩,
    ⟨.decl, propRead ||| propNotify, improvAttr 0x02⟩,
    ⟨.value, propRead ||| propNotify, improvAttr 0x02⟩,
    ⟨.cccd, 0, []⟩,
    ⟨.decl, propWrite ||| propWnr, improvAttr 0x03⟩,
    ⟨.value, propWrite ||| propWnr, improvAttr 0x03⟩,
    ⟨.decl, propRead ||| propNotify, improvAttr 0x04⟩,
    ⟨.value, propRead ||| propNotify, improvAttr 0x04⟩,
    ⟨.cccd, 0, []⟩,
    ⟨.decl, propRead, improvAttr 0x05⟩,
    ⟨.value, propRead, improvAttr 0x05⟩]

/-- `db[h]`. -/
def dbAt (h : Nat) : Attr := db.getD h ⟨.svc, 0, []⟩

/-- `struct gatt`, without the callback. -/
structure Gatt where
  name : List UInt8
  state : UInt8
  error : UInt8
  caps : UInt8
  /-- the first `result_len` bytes of `result` -/
  result : List UInt8
  /-- the flags of state, error and result -/
  cccd : Fin 3 → Nat
  mtu : Nat
  mtuMax : Nat
  /-- `prep` with `prep_len` -/
  prep : Buffer 128

/-- The zeroed state before `gatt_init`. -/
def Gatt.zero : Gatt := ⟨[], 0, 0, 0, [], fun _ => 0, 0, 0, .empty⟩

/-- `gatt_init`. -/
def gattInit (name : List UInt8) (caps : UInt8) : Gatt where
  name := name
  state := improvAuthorized
  error := 0
  caps := caps
  result := []
  cccd _ := 0
  mtu := 23
  mtuMax := 23
  prep := .empty

/-- `cccd_index`. -/
def cccdIndex (h : Nat) : Option (Fin 3) :=
  if h = 9 then some 0 else if h = 12 then some 1 else if h = 17 then some 2 else none

/-- `gatt_notify_enabled`. -/
def gattNotifyEnabled (g : Gatt) (valueHandle : Nat) : Bool :=
  match cccdIndex (valueHandle + 1) with
  | some i => g.cccd i % 2 = 1
  | none => false

/-- `attr_type`. -/
def attrType (h : Nat) : List UInt8 :=
  match (dbAt h).kind with
  | .svc => put16 0x2800
  | .decl => put16 0x2803
  | .cccd => put16 0x2902
  | .value => (dbAt h).uuid

/-- `attr_value`: the value of an attribute, or the error when it cannot be read. -/
def attrValue (g : Gatt) (h : Nat) : Except UInt8 (List UInt8) :=
  if h < 1 ∨ h > lastHandle then .error errInvalidHandle
  else
    match (dbAt h).kind with
    | .svc => .ok (dbAt h).uuid
    | .decl => .ok ((dbAt h).props :: put16 (h + 1) ++ (dbAt h).uuid)
    | .cccd => .ok (put16 ((cccdIndex h).elim 0 g.cccd))
    | .value =>
      if h = 3 then .ok g.name
      else if h = 5 then .ok [0, 0]
      else if h = gattStateValue then .ok [g.state]
      else if h = gattErrorValue then .ok [g.error]
      else if h = gattResultValue then .ok g.result
      else if h = 19 then .ok [g.caps]
      else .error errReadNotPerm

/-- `error_rsp`. -/
def errorRsp (op : UInt8) (h : Nat) (err : UInt8) : List UInt8 := 0x01 :: op :: put16 h ++ [err]

/-- `group_end`: the handle before the next service. -/
def groupEnd (h : Nat) : Nat :=
  match (List.range' (h + 1) (lastHandle - h)).find? fun e => (dbAt e).kind = .svc with
  | some e => e - 1
  | none => max h lastHandle

/-- The handles from `start` to `end` that there are. -/
def handles (first last : Nat) : List Nat := List.range' first (min last lastHandle + 1 - first)

/-- The loop of `read_by_type` over the handles: the entries so far, which follow two bytes, and
their length; or the handle that cannot be read and its error. -/
def readEntries (g : Gatt) (group : Bool) (want : List UInt8) (max : Nat) :
    List Nat → List UInt8 → Nat → Except (Nat × UInt8) (List UInt8 × Nat)
  | [], acc, entry => .ok (acc, entry)
  | h :: hs, acc, entry =>
    if attrType h ≠ want then readEntries g group want max hs acc entry
    else
      match attrValue g h with
      | .error e => if entry ≠ 0 then .ok (acc, entry) else .error (h, e)
      | .ok v =>
        let el := (if group then 4 else 2) + v.length
        if entry ≠ 0 ∧ el ≠ entry then .ok (acc, entry)
        else if 2 + acc.length + el > max then .ok (acc, entry)
        else
          let ends := if group then put16 (groupEnd h) else []
          readEntries g group want max hs (acc ++ put16 h ++ ends ++ v) el

/-- `read_by_type`: Read By Type, and Read By Group Type. -/
def readByType (g : Gatt) (req : List UInt8) (max : Nat) : List UInt8 :=
  let op := byte req 0
  let start := get16 req 1
  let last := get16 req 3
  let wl := req.length - 5
  if (wl ≠ 2 ∧ wl ≠ 16) ∨ start = 0 ∨ start > last then
    errorRsp op start (if wl ≠ 2 ∧ wl ≠ 16 then errInvalidLen else errInvalidHandle)
  else
    match readEntries g (op == 0x10) (req.drop 5) max (handles start last) [] 0 with
    | .error (h, e) => errorRsp op h e
    | .ok (acc, entry) =>
      if entry = 0 then errorRsp op start errNotFound else (op + 1) :: UInt8.ofNat entry :: acc

/-- The loop of `find_info`: the pairs so far, and the length of their types. -/
def infoEntries (max : Nat) : List Nat → List UInt8 → Nat → List UInt8 × Nat
  | [], acc, tl => (acc, tl)
  | h :: hs, acc, tl =>
    let l := (attrType h).length
    if (tl ≠ 0 ∧ l ≠ tl) ∨ 2 + acc.length + 2 + l > max then (acc, tl)
    else infoEntries max hs (acc ++ put16 h ++ attrType h) l

/-- `find_info`. -/
def findInfo (req : List UInt8) (max : Nat) : List UInt8 :=
  let start := get16 req 1
  let last := get16 req 3
  if start = 0 ∨ start > last then errorRsp (byte req 0) start errInvalidHandle
  else
    let (acc, tl) := infoEntries max (handles start last) [] 0
    if tl = 0 then errorRsp (byte req 0) start errNotFound
    else 0x05 :: (if tl = 2 then 1 else 2) :: acc

/-- The loop of `find_by_value`: the ranges so far, which follow one byte. -/
def valueEntries (uuid : List UInt8) (primary : Bool) (max : Nat) : List Nat → List UInt8 →
    List UInt8
  | [], acc => acc
  | h :: hs, acc =>
    if !primary ∨ (dbAt h).kind ≠ .svc ∨ (dbAt h).uuid ≠ uuid ∨ 1 + acc.length + 4 > max then
      valueEntries uuid primary max hs acc
    else valueEntries uuid primary max hs (acc ++ put16 h ++ put16 (groupEnd h))

/-- `find_by_value`: only primary services by UUID. -/
def findByValue (req : List UInt8) (max : Nat) : List UInt8 :=
  let start := get16 req 1
  let last := get16 req 3
  if start = 0 ∨ start > last then errorRsp (byte req 0) start errInvalidHandle
  else
    let acc := valueEntries (req.drop 7) (get16 req 5 = 0x2800) max (handles start last) []
    if acc = [] then errorRsp (byte req 0) start errNotFound else 0x07 :: acc

/-- `read_value`: Read, and Read Blob. -/
def readValue (g : Gatt) (req : List UInt8) (max : Nat) : List UInt8 :=
  let op := byte req 0
  let h := get16 req 1
  let off := if op = 0x0c ∧ 5 ≤ req.length then get16 req 3 else 0
  match attrValue g h with
  | .error e => errorRsp op h e
  | .ok v =>
    if off > v.length then errorRsp op h errInvalidOffset
    else (op + 1) :: (v.drop off).take (max - 1)

/-- `write_value`: the state, the ATT error or 0, and the argument of the call of `rpc_write`. -/
def writeValue (g : Gatt) (h : Nat) (v : List UInt8) : Gatt × UInt8 × Option (List UInt8) :=
  match cccdIndex h with
  | some i =>
    if v.length ≠ 2 then (g, errInvalidLen, none)
    else ({ g with cccd := fun j => if j = i then get16 v 0 else g.cccd j }, 0, none)
  | none =>
    if h = gattRpcValue then (g, 0, some v)
    else (g, if h < 1 ∨ h > lastHandle then errInvalidHandle else errWriteNotPerm, none)

/-- The MTU after an Exchange MTU request for `m`. -/
def exchangeMtu (g : Gatt) (m : Nat) : Gatt :=
  { g with mtu := max 23 (if m < g.mtuMax then m else g.mtuMax) }

/-- `case 0x16` of `gatt_handle`, Prepare Write: only the RPC command, in order. -/
def prepareWrite (g : Gatt) (req : List UInt8) (max : Nat) : Gatt × List UInt8 :=
  let op := byte req 0
  let h := get16 req 1
  if req.length < 5 then (g, errorRsp op 0 errInvalidLen)
  else if h ≠ gattRpcValue then (g, errorRsp op h errWriteNotPerm)
  else if get16 req 3 ≠ g.prep.len then (g, errorRsp op h errInvalidOffset)
  else if hf : g.prep.len + (req.drop 5).length ≤ 128 then
    ({ g with prep := g.prep.append (req.drop 5) hf }, (0x17 :: req.drop 1).take max)
  else (g, errorRsp op h errQueueFull)

/-- `gatt_handle`: the state, the response, and the argument of the call of `rpc_write` if there is
one. -/
def gattHandle (g : Gatt) (req : List UInt8) (max : Nat) :
    Gatt × List UInt8 × Option (List UInt8) :=
  let op := byte req 0
  let max := min max g.mtu
  let invalid := errorRsp op 0 errInvalidLen
  if req.length = 0 then (g, [], none)
  else if op = 0x02 then
    if req.length < 3 then (g, invalid, none)
    else (exchangeMtu g (get16 req 1), 0x03 :: put16 g.mtuMax, none)
  else if op = 0x04 then (g, if req.length = 5 then findInfo req max else invalid, none)
  else if op = 0x06 then (g, if 7 ≤ req.length then findByValue req max else invalid, none)
  else if op = 0x08 ∨ op = 0x10 then
    (g, if 7 ≤ req.length then readByType g req max else invalid, none)
  else if op = 0x0a ∨ op = 0x0c then
    (g, if 3 ≤ req.length then readValue g req max else invalid, none)
  else if op = 0x12 then
    if req.length < 3 then (g, invalid, none)
    else
      let (g', err, data) := writeValue g (get16 req 1) (req.drop 3)
      (g', if err ≠ 0 then errorRsp op (get16 req 1) err else [0x13], data)
  else if op = 0x52 then
    if 3 ≤ req.length then
      let (g', _, data) := writeValue g (get16 req 1) (req.drop 3)
      (g', [], data)
    else (g, [], none)
  else if op = 0x16 then
    let (g', rsp) := prepareWrite g req max
    (g', rsp, none)
  else if op = 0x18 then
    let data := if 2 ≤ req.length ∧ byte req 1 = 1 ∧ g.prep.len ≠ 0 then some g.prep.content
      else none
    ({ g with prep := g.prep.wipe }, [0x19], data)
  else if op = 0x1e then (g, [], none)
  else (g, if op &&& 0x40 ≠ 0 then [] else errorRsp op 0 errNotSupported, none)

/-! ## What a request changes -/

theorem writeValue_induction {P : Gatt → Prop} {g : Gatt} (hg : P g)
    (hc : ∀ c, P { g with cccd := c }) (h : Nat) (v : List UInt8) : P (writeValue g h v).1 := by
  unfold writeValue
  split
  · split
    · exact hg
    · exact hc _
  · split <;> exact hg

theorem prepareWrite_induction {P : Gatt → Prop} {g : Gatt} (hg : P g)
    (hp : ∀ b, P { g with prep := b }) (req : List UInt8) (max : Nat) :
    P (prepareWrite g req max).1 := by
  unfold prepareWrite
  simp only []
  split
  · exact hg
  · split
    · exact hg
    · split
      · exact hg
      · split
        · exact hp _
        · exact hg

theorem fst_ite {α β : Type} {P : α → Prop} {c : Prop} [Decidable c] {a b : α × β} (ha : P a.1)
    (hb : P b.1) : P (if c then a else b).1 := by
  split
  · exact ha
  · exact hb

/-- A request changes the MTU, the flags or the prepared writes, and nothing else. -/
theorem gattHandle_induction {P : Gatt → Prop} {g : Gatt} (hg : P g) (hm : ∀ m, P (exchangeMtu g m))
    (hc : ∀ c, P { g with cccd := c }) (hp : ∀ b, P { g with prep := b }) (req : List UInt8)
    (max : Nat) : P (gattHandle g req max).1 := by
  have hw := writeValue_induction hg hc (get16 req 1) (req.drop 3)
  unfold gattHandle
  refine fst_ite hg (fst_ite (fst_ite hg (hm _)) (fst_ite hg (fst_ite hg ?_)))
  refine fst_ite hg (fst_ite hg (fst_ite (fst_ite hg hw) (fst_ite (fst_ite hw hg) ?_)))
  exact fst_ite (prepareWrite_induction hg hp req _) (fst_ite (hp _) (fst_ite hg hg))

theorem gattHandle_state (g : Gatt) (req : List UInt8) (max : Nat) :
    (gattHandle g req max).1.state = g.state :=
  gattHandle_induction (P := fun g' => g'.state = g.state) rfl (fun _ => rfl) (fun _ => rfl)
    (fun _ => rfl) req max

end Esp32S31.BleHa
