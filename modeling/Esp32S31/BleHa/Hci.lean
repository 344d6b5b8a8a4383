import Mathlib.Algebra.GroupWithZero.Nat

/-!
# The HCI packets of ble-ha

`hci.c`: the advertising reports of an LE event, the advertising data, and an ACL packet. A packet
is the list of its bytes.
-/

namespace Esp32S31.BleHa

/-- `p[i]`. -/
def byte (p : List UInt8) (i : Nat) : UInt8 := p.getD i 0

theorem byte_drop (p : List UInt8) (i : Nat) : byte (p.drop 1) i = byte p (i + 1) := by
  unfold byte
  rw [List.getD_eq_getElem?_getD, List.getD_eq_getElem?_getD, List.getElem?_drop, Nat.add_comm]

theorem byte_append {p : List UInt8} {i : Nat} (h : i < p.length) (x : List UInt8) :
    byte (p ++ x) i = byte p i := by
  unfold byte
  rw [List.getD_eq_getElem?_getD, List.getD_eq_getElem?_getD, List.getElem?_append_left h]

theorem getElem?_byte {p : List UInt8} {i : Nat} (h : i < p.length) : p[i]? = some (byte p i) := by
  unfold byte
  rw [List.getD_eq_getElem?_getD, List.getElem?_eq_getElem h, Option.getD_some]

/-- `p[i] | p[i + 1] << 8`. -/
def get16 (p : List UInt8) (i : Nat) : Nat := (byte p i).toNat + 256 * (byte p (i + 1)).toNat

/-- The two bytes of `v`, the low one first. -/
def put16 (v : Nat) : List UInt8 := [UInt8.ofNat v, UInt8.ofNat (v / 256)]

theorem get16_put16 {op : Nat} (h : op < 2 ^ 16) (x : UInt8) (rest : List UInt8) :
    get16 (x :: (put16 op ++ rest)) 1 = op := by
  show (UInt8.ofNat op).toNat + 256 * (UInt8.ofNat (op / 256)).toNat = op
  rw [UInt8.toNat_ofNat', UInt8.toNat_ofNat']
  omega

/-- `HCI_CMD`, `HCI_ACL`, `HCI_EVT`: the packet types on the user channel. -/
def hciCmdPacket : UInt8 := 0x01
def hciAcl : UInt8 := 0x02
def hciEvt : UInt8 := 0x04

/-- `ADV_MAX`. -/
def advMax : Nat := 31

/-- `ADV_BATCH`. -/
def advBatch : Nat := 16

/-- `struct adv`. -/
structure Adv where
  addr : Nat
  addrType : UInt8
  rssi : Int8
  data : List UInt8
  deriving DecidableEq

/-- The 48-bit address at `pos`, the low byte first. -/
def address (ev : List UInt8) (pos : Nat) : Nat :=
  [5, 4, 3, 2, 1, 0].foldl (fun a b => a * 256 + (byte ev (pos + b)).toNat) 0

/-- At most `n` reports from `pos` on; a report that is cut or too long ends the list. -/
def advReports (ev : List UInt8) : Nat → Nat → List Adv
  | 0, _ => []
  | n + 1, pos =>
    let len := (byte ev (pos + 8)).toNat
    if pos + 9 > ev.length ∨ len > advMax ∨ pos + 10 + len > ev.length then []
    else
      { addr := address ev (pos + 2)
        addrType := byte ev (pos + 1)
        rssi := (byte ev (pos + 9 + len)).toInt8
        data := (ev.drop (pos + 9)).take len } :: advReports ev n (pos + 10 + len)

/-- `hci_parse_adv_reports`: the entries that it writes, which are as many as it returns. -/
def hciParseAdvReports (ev : List UInt8) (max : Nat) : List Adv :=
  if ev.length < 4 ∨ byte ev 0 ≠ 0x3e ∨ byte ev 2 ≠ 0x02 then []
  else advReports ev (min (byte ev 3).toNat max) 4

/-- `improv_uuid`. -/
def improvUuid : List UInt8 :=
  [0x00, 0x80, 0x26, 0x78, 0x74, 0x27, 0x63, 0x46, 0x72, 0x22, 0x28, 0x62, 0x68, 0x77, 0x46, 0x00]

/-- `hci_improv_adv_data`. -/
def hciImprovAdvData (state caps : UInt8) : List UInt8 :=
  [2, 0x01, 0x06, 17, 0x07] ++ improvUuid ++ [9, 0x16, 0x77, 0x46, state, caps, 0, 0, 0, 0]

/-- `hci_name_data`. -/
def hciNameData (name : List UInt8) : List UInt8 :=
  let n := min name.length (advMax - 2)
  UInt8.ofNat (n + 1) :: 0x09 :: name.take n

/-- `hci_acl_frame`: one ACL packet with one L2CAP frame. -/
def hciAclFrame (handle cid : Nat) (data : List UInt8) : List UInt8 :=
  [hciAcl, UInt8.ofNat handle, UInt8.ofNat (handle / 256 % 16)] ++ put16 (data.length + 4) ++
    put16 data.length ++ put16 cid ++ data

end Esp32S31.BleHa
