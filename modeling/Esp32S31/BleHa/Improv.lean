import Esp32S31.BleHa.Hci

/-!
# The RPC packets of Improv Wi-Fi

`improv.c`: command, data length, data, then the low byte of the sum of the bytes before it.

`improv_parse` returns 0 with the command, or a number: `.ok` is the 0 here and `.error` the number.
The header says that 1 is an incomplete packet and every other number an `IMPROV_ERR_*`; but
`IMPROV_ERR_INVALID` is 1 too.
-/

namespace Esp32S31.BleHa

/-- `IMPROV_AUTHORIZED`, `IMPROV_PROVISIONING`, `IMPROV_PROVISIONED`. -/
def improvAuthorized : UInt8 := 0x02
def improvProvisioning : UInt8 := 0x03
def improvProvisioned : UInt8 := 0x04

/-- `IMPROV_ERR_NONE`, `IMPROV_ERR_INVALID`, `IMPROV_ERR_UNKNOWN`, `IMPROV_ERR_CONNECT`,
`IMPROV_ERR_OTHER`. -/
def improvErrNone : UInt8 := 0x00
def improvErrInvalid : UInt8 := 0x01
def improvErrUnknown : UInt8 := 0x02
def improvErrConnect : UInt8 := 0x03
def improvErrOther : UInt8 := 0xff

/-- `IMPROV_CMD_WIFI`, `IMPROV_CMD_IDENTIFY`, `IMPROV_CMD_INFO`. -/
def improvCmdWifi : UInt8 := 0x01
def improvCmdIdentify : UInt8 := 0x02
def improvCmdInfo : UInt8 := 0x03

/-- `IMPROV_CAP_IDENTIFY`, `IMPROV_CAP_INFO`. -/
def improvCapIdentify : UInt8 := 0x01
def improvCapInfo : UInt8 := 0x02

/-- `struct improv_cmd`; the strings without their NUL. -/
structure ImprovCmd where
  cmd : UInt8
  ssid : List UInt8
  pass : List UInt8
  deriving DecidableEq, Repr

/-- `checksum`. -/
def checksum (p : List UInt8) : UInt8 := UInt8.ofNat (p.map UInt8.toNat).sum

/-- `valid_pass`: empty, or 8 to 63 printable ASCII characters. -/
def validPass (p : List UInt8) : Bool :=
  (p.length = 0 || 8 ≤ p.length && p.length ≤ 63) && p.all fun c => 0x20 ≤ c && c ≤ 0x7e

/-- `parse_wifi`: the SSID and the passphrase. -/
def parseWifi (d : List UInt8) : Except UInt8 (List UInt8 × List UInt8) :=
  let sl := (byte d 0).toNat
  let pl := (byte d (1 + sl)).toNat
  let ssid := (d.drop 1).take sl
  let pass := (d.drop (2 + sl)).take pl
  if d.length < 2 then .error improvErrInvalid
  else if sl = 0 ∨ sl > 32 ∨ 1 + sl + 1 > d.length then .error improvErrInvalid
  else if 2 + sl + pl ≠ d.length ∨ !validPass pass ∨ ssid.contains 0 then .error improvErrInvalid
  else .ok (ssid, pass)

/-- `improv_parse`. -/
def improvParse (buf : List UInt8) : Except UInt8 ImprovCmd :=
  let dl := (byte buf 1).toNat
  let cmd := byte buf 0
  if buf.length < 3 then .error 1
  else if buf.length < dl + 3 then .error 1
  else if buf.length > dl + 3 ∨ checksum (buf.take (dl + 2)) ≠ byte buf (dl + 2) then
    .error improvErrInvalid
  else if cmd = improvCmdWifi then
    match parseWifi ((buf.drop 2).take dl) with
    | .ok (ssid, pass) => .ok ⟨cmd, ssid, pass⟩
    | .error e => .error e
  else if cmd = improvCmdIdentify ∨ cmd = improvCmdInfo then
    if dl ≠ 0 then .error improvErrInvalid else .ok ⟨cmd, [], []⟩
  else .error improvErrUnknown

/-- The strings of a result from `pos` on, each behind its length, as many as fit. -/
def resultStrings (pos : Nat) : List (List UInt8) → List UInt8
  | [] => []
  | s :: ss =>
    if s.length > 40 ∨ pos + 1 + s.length > 60 then []
    else UInt8.ofNat s.length :: s ++ resultStrings (pos + 1 + s.length) ss

/-- `improv_result`. -/
def improvResult (cmd : UInt8) (s : List (List UInt8)) : List UInt8 :=
  let data := resultStrings 2 s
  let pkt := cmd :: UInt8.ofNat data.length :: data
  pkt ++ [checksum pkt]

/-! ## Complete and invalid packets -/

/-- The packet has all the bytes that its data length asks for. -/
def Complete (buf : List UInt8) : Prop := 3 ≤ buf.length ∧ (byte buf 1).toNat + 3 ≤ buf.length

instance (buf : List UInt8) : Decidable (Complete buf) := inferInstanceAs (Decidable (_ ∧ _))

/-- **A complete packet with an error in it**: bytes behind its end, a wrong checksum, a bad SSID or
passphrase field, or data in a command that takes none. -/
def Invalid (buf : List UInt8) : Prop :=
  Complete buf ∧
    (buf.length ≠ (byte buf 1).toNat + 3 ∨
      checksum (buf.take (buf.length - 1)) ≠ byte buf (buf.length - 1) ∨
      (byte buf 0 = improvCmdWifi ∧ ∀ r, parseWifi ((buf.drop 2).take (byte buf 1).toNat) ≠ .ok r) ∨
      ((byte buf 0 = improvCmdIdentify ∨ byte buf 0 = improvCmdInfo) ∧ byte buf 1 ≠ 0))

end Esp32S31.BleHa
