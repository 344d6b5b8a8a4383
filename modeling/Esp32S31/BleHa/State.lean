import Esp32S31.BleHa.Api
import Esp32S31.BleHa.Gatt
import Esp32S31.Lib.Dialogue

/-!
# The state of ble-ha and its environment

`Daemon` is the static `s` of `ble-ha.c`. `Answer` is what the environment answers to one question
of the program: a question reads its own field. `Call` is what the program does that others see,
and, in between, the calls of its own functions that the results speak about.

A descriptor or an identifier that is -1 in the source is `none` here. A clock is in milliseconds.
-/

namespace Esp32S31.BleHa

open Esp32S31.Lib

/-- `MAX_CLIENTS`. -/
def maxClients : Nat := 4

/-- `JOIN_SECONDS`. -/
def joinSeconds : Nat := 30

/-- `struct client`; `buf` holds the first `len` bytes. -/
structure Client where
  fd : Option Nat
  buf : List UInt8
  subscribed : Bool
  deriving DecidableEq

/-- The state of the program. -/
structure Daemon where
  aclLen : UInt16
  aclCredits : UInt16
  connSent : UInt16
  bdaddr : List UInt8
  scanning : Bool
  batch : List Adv
  batchMs : Nat
  improv : Bool
  advertising : Bool
  advDirty : Bool
  conn : Option Nat
  l2 : Buffer 256
  rpc : Buffer 128
  gatt : Gatt
  joinId : Option Nat
  joinEnd : Nat
  identifyEnd : Nat
  doneAt : Nat
  checkAt : Nat
  proxy : Bool
  clients : List Client
  info : ApiInfo
  name : List UInt8

/-- What `poll` finds readable. -/
structure Ready where
  hci : Bool := false
  listener : Bool := false
  clients : Nat → Bool := fun _ => false

/-- What a `read` of the adapter gives. -/
inductive Read where
  | failed
  /-- nothing, or `EINTR` -/
  | nothing
  | packet (p : List UInt8)

/-- What a `recv` from a client gives. -/
inductive Recv where
  | again
  | closed
  | bytes (b : List UInt8)

/-- One answer of the environment. -/
structure Answer where
  /-- `clock_gettime` -/
  clock : Nat := 0
  /-- a signal has set `stop` -/
  stopped : Bool := false
  /-- `write` took all bytes -/
  wrote : Bool := true
  /-- the packets that `hci_read` gives, one after another, until the time of a command is over -/
  arrivals : List (List UInt8) := []
  /-- `none` is a failure other than `EINTR` -/
  poll : Option Ready := some {}
  read : Read := .nothing
  /-- the reply of wpa_supplicant to a request -/
  reply : Option (List UInt8) := none
  /-- a new descriptor -/
  fd : Option Nat := none
  recv : Recv := .again
  /-- `send` took all bytes -/
  sent : Bool := true
  /-- a line of a file, the host name, or what is on the stack -/
  line : List UInt8 := []
  /-- something exists -/
  found : Bool := false

/-- Why the main loop ended Improv. -/
inductive EndReason where
  | provisioned
  | network
  deriving DecidableEq, Repr

/-- What the program does. -/
inductive Call where
  /-- `write` to the adapter -/
  | hciWrite (pkt : List UInt8) (ok : Bool)
  /-- a packet was read from the adapter -/
  | hciRead (pkt : List UInt8)
  /-- `l2cap_frame` -/
  | frame (cid : Nat) (payload : List UInt8)
  /-- `acl_send` -/
  | aclSend (cid : Nat) (data : List UInt8)
  /-- `notify` has built its PDU -/
  | notification (pdu : List UInt8)
  /-- `gatt_handle` has answered a request; no response is the empty list -/
  | att (req rsp : List UInt8)
  /-- the main loop starts -/
  | loop
  /-- the main loop waits -/
  | poll (timeout : Int)
  /-- `handle_packet` -/
  | packet (p : List UInt8)
  /-- `rpc_write` -/
  | rpc (data : List UInt8)
  /-- `improv_command` -/
  | command (c : ImprovCmd)
  /-- `set_state` changes the state of Improv -/
  | state (st : UInt8)
  /-- `wpa_join` is called -/
  | join (ssid pass : List UInt8)
  /-- `wpa_join` has returned -/
  | joined (id : Option Nat)
  /-- `wpa_connected` has returned -/
  | connected (r : Int)
  /-- `wpa_finish` is called for a join that was open -/
  | finish (id : Nat) (keep : Bool)
  /-- a request to wpa_supplicant, and its reply -/
  | request (cmd : List UInt8) (reply : Option (List UInt8))
  /-- the LED blinks, or shows its own state again -/
  | led (on : Bool)
  /-- `client_message` -/
  | message (i type : Nat)
  /-- a frame was sent to a client -/
  | send (i type : Nat) (msg : List UInt8) (ok : Bool)
  /-- `client_close` -/
  | close (i : Nat)
  /-- a report came while the scan was on, and was or was not put into the batch -/
  | report (a : Adv) (kept : Bool)
  /-- `flush_batch` sends a batch -/
  | flush (ads : List Adv)
  /-- the main loop has set `improv` to 0 -/
  | improvEnd (why : EndReason)
  /-- `main` has cleaned up -/
  | exit

/-- A function of the program. -/
abbrev Act := Prog Answer Call Daemon

open Prog

/-- `now`, in seconds. -/
def now : Act Nat := ask (·.clock / 1000)

/-- `now_ms`. -/
def nowMs : Act Nat := ask (·.clock)

end Esp32S31.BleHa
