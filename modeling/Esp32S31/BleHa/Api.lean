import Esp32S31.BleHa.Hci

/-!
# The ESPHome native API

`api.c`: the messages of the API that a passive Bluetooth proxy needs, in plaintext frames: 0x00,
the length and the type as varints, then the protobuf message. Strings are lists of bytes without
the NUL.
-/

namespace Esp32S31.BleHa

/-- The bytes of a string literal. -/
def str (s : String) : List UInt8 := s.toList.map fun c => UInt8.ofNat c.toNat

/-- `struct api_info`. -/
structure ApiInfo where
  name : List UInt8
  mac : List UInt8
  btMac : List UInt8
  model : List UInt8
  deriving DecidableEq

/-- The loop of `pb_varint` with at most `n` bytes. -/
def pbVarintFrom : Nat → Nat → List UInt8
  | 0, _ => []
  | n + 1, v =>
    if v ≤ 0x7f then [UInt8.ofNat v] else UInt8.ofNat (v % 128 + 0x80) :: pbVarintFrom n (v / 128)

/-- `pb_varint`; a word of 64 bits takes at most ten bytes. -/
def pbVarint (v : Nat) : List UInt8 := pbVarintFrom 10 v

/-- `pb_key`. -/
def pbKey (field wire : Nat) : List UInt8 := pbVarint (8 * field + wire)

/-- `pb_uint`: a field with the default value is not sent. -/
def pbUint (field v : Nat) : List UInt8 := if v = 0 then [] else pbKey field 0 ++ pbVarint v

/-- `pb_bytes`, `pb_str`. -/
def pbBytes (field : Nat) (data : List UInt8) : List UInt8 :=
  if data = [] then [] else pbKey field 2 ++ pbVarint data.length ++ data

/-- `api_frame`. -/
def apiFrame (type : Nat) (msg : List UInt8) : List UInt8 :=
  0x00 :: pbVarint msg.length ++ pbVarint type ++ msg

/-- `api_hello`: HelloResponse. -/
def apiHello (info : ApiInfo) : List UInt8 :=
  pbUint 1 1 ++ pbUint 2 10 ++ pbBytes 3 (str "ble-ha (ESP32-S31 Linux)") ++ pbBytes 4 info.name

/-- `api_device_info`: DeviceInfoResponse. -/
def apiDeviceInfo (info : ApiInfo) : List UInt8 :=
  pbBytes 2 info.name ++ pbBytes 3 info.mac ++ pbBytes 4 (str "2026.10.0") ++
    pbBytes 6 info.model ++ pbBytes 8 (str "esp32-s31-linux.ble-ha") ++ pbBytes 9 (str "1") ++
    pbBytes 12 (str "Espressif") ++ pbBytes 13 info.name ++ pbUint 15 0x21 ++ pbBytes 18 info.btMac

/-- The zigzag encoding of `rssi`. -/
def zigzag (rssi : Int8) : Nat :=
  if rssi.toInt < 0 then (-2 * rssi.toInt - 1).toNat else (2 * rssi.toInt).toNat

/-- One report of `api_adv_batch`. -/
def advMessage (a : Adv) : List UInt8 :=
  pbUint 1 a.addr ++ pbUint 2 (zigzag a.rssi) ++ pbUint 3 a.addrType.toNat ++ pbBytes 4 a.data

/-- `api_adv_batch`: BluetoothLERawAdvertisementsResponse. -/
def apiAdvBatch (ads : List Adv) : List UInt8 :=
  ads.flatMap fun a => pbKey 1 2 ++ pbVarint (advMessage a).length ++ advMessage a

/-- What `read_varint` finds: not all of it, a value with the position behind it, or too many bytes.
-/
inductive Varint where
  | short
  | value (v pos : Nat)
  | bad
  deriving DecidableEq, Repr

/-- The loop of `read_varint` with `n` rounds left, in a word of 32 bits. -/
def readVarintFrom (p : List UInt8) : Nat → Nat → Nat → Nat → Varint
  | 0, _, _, _ => .bad
  | n + 1, shift, pos, v =>
    if p.length ≤ pos then .short
    else
      let b := (byte p pos).toNat
      let v := v ||| (b % 128) * 2 ^ shift % 2 ^ 32
      if b < 128 then .value v (pos + 1) else readVarintFrom p n (shift + 7) (pos + 1) v

/-- `read_varint`. -/
def readVarint (p : List UInt8) (pos : Nat) : Varint := readVarintFrom p 5 0 pos 0

/-- What `api_next` finds. -/
inductive ApiFrame where
  /-- 0: not complete -/
  | short
  /-- -1 -/
  | bad
  /-- a frame of `len` bytes -/
  | frame (len type : Nat) (msg : List UInt8)
  deriving DecidableEq, Repr

/-- `api_next`. -/
def apiNext (buf : List UInt8) : ApiFrame :=
  if buf.length = 0 then .short
  else if byte buf 0 ≠ 0x00 then .bad
  else
    match readVarint buf 1 with
    | .short => .short
    | .bad => .bad
    | .value n pos =>
      match readVarint buf pos with
      | .short => .short
      | .bad => .bad
      | .value type pos =>
        if n > 4096 then .bad
        else if pos + n > buf.length then .short
        else .frame (pos + n) type ((buf.drop pos).take n)

end Esp32S31.BleHa
