import Esp32S31.BleHa.Wpa

/-!
# The program

`ble-ha.c`: the commands and the packets of the adapter, Improv, the ESPHome API, and the main loop.
`hciCmd` handles the packets that come while it waits; `handlePacket` sends no command, so commands
do not nest.

A loop that waits for the environment takes its answers as a list (`hciWait`) or runs for a number
of rounds (`run`), so every program here ends; what holds for all answers and all numbers of rounds
holds at every point of a run that does not.
-/

namespace Esp32S31.BleHa

open Esp32S31.Lib Prog

/-! ## Sending -/

/-- `acl_send`. -/
def aclSend (cid : Nat) (data : List UInt8) : Act Unit := do
  call (.aclSend cid data)
  let s ← get
  match s.conn with
  | none => pure ()
  | some handle =>
    if data.length + 4 > s.aclLen.toNat ∨ data.length + 9 > 300 then pure ()
    else if s.aclCredits = 0 then pure ()
    else do
      let pkt := hciAclFrame handle cid data
      let ok ← ask (·.wrote)
      call (.hciWrite pkt ok)
      when (ok = true) do
        modify fun s => { s with aclCredits := s.aclCredits - 1, connSent := s.connSent + 1 }

/-- `notify`: ATT sends the first MTU - 3 bytes. -/
def notify (handle : Nat) (v : List UInt8) : Act Unit := do
  let s ← get
  when (gattNotifyEnabled s.gatt handle = true) do
    let len := if v.length + 3 > s.gatt.mtu then s.gatt.mtu - 3 else v.length
    let len := if len + 3 > 80 then 80 - 3 else len
    let pdu := 0x1b :: put16 handle ++ v.take len
    call (.notification pdu)
    aclSend 4 pdu

/-! ## Improv -/

/-- The first half of `set_state`. -/
def setError (error : UInt8) : Act Unit := do
  let s ← get
  when (error ≠ s.gatt.error) do
    modify fun s => { s with gatt := { s.gatt with error := error } }
    notify gattErrorValue [error]

/-- `set_state`. -/
def setState (state error : UInt8) : Act Unit := do
  setError error
  let s ← get
  when (state ≠ s.gatt.state) do
    call (.state state)
    modify fun s => { s with gatt := { s.gatt with state := state } }
    notify gattStateValue [state]
    modify fun s => { s with advDirty := true }

/-- `set_result`. -/
def setResult (cmd : UInt8) (strings : List (List UInt8)) : Act Unit := do
  let result := improvResult cmd strings
  modify fun s => { s with gatt := { s.gatt with result := result } }
  notify gattResultValue result

/-- `identify`. -/
def identify (on : Bool) : Act Unit := do
  call (.led on)
  if on then
    let t ← now
    modify fun s => { s with identifyEnd := t + 5 }
  else modify fun s => { s with identifyEnd := 0 }

/-- `case IMPROV_CMD_WIFI` of `improv_command`. -/
def improvWifi (c : ImprovCmd) : Act Unit := do
  let s ← get
  when (s.gatt.state = improvAuthorized) do
    setState improvProvisioning improvErrNone
    call (.join c.ssid c.pass)
    let id ← wpaJoin c.ssid c.pass
    modify fun s => { s with joinId := id }
    call (.joined id)
    match id with
    | none => setState improvAuthorized improvErrOther
    | some _ =>
      let t ← now
      modify fun s => { s with joinEnd := t + joinSeconds }

/-- `improv_command`. -/
def improvCommand (c : ImprovCmd) : Act Unit := do
  call (.command c)
  let s ← get
  if c.cmd = improvCmdWifi then improvWifi c
  else if c.cmd = improvCmdIdentify then
    when (s.gatt.caps &&& improvCapIdentify ≠ 0) (identify true)
  else
    when (c.cmd = improvCmdInfo) do
      setResult improvCmdInfo [str "ble-ha", str "1", str "ESP32-S31", s.name]

/-- `rpc_write`: the packet can come in several writes. -/
def rpcWrite (data : List UInt8) : Act Unit := do
  call (.rpc data)
  let s ← get
  if h : s.rpc.len + data.length ≤ 128 then
    let rpc := s.rpc.append data h
    modify fun s => { s with rpc := rpc }
    match improvParse rpc.content with
    | .error r =>
      when (r ≠ 1) do
        modify fun s => { s with rpc := rpc.wipe }
        setState s.gatt.state r
    | .ok c =>
      modify fun s => { s with rpc := rpc.wipe }
      setState s.gatt.state improvErrNone
      improvCommand c
  else
    modify fun s => { s with rpc := s.rpc.reset }
    setState s.gatt.state improvErrInvalid

/-- `join_poll`. -/
def joinPoll (id : Nat) : Act Unit := do
  let r ← wpaConnected
  call (.connected r)
  if r = 1 then
    call (.finish id true)
    wpaFinish id true
    modify fun s => { s with joinId := none }
    setResult improvCmdWifi []
    setState improvProvisioned improvErrNone
    let t ← now
    modify fun s => { s with doneAt := t + 10 }
  else
    let t ← now
    let s ← get
    when (s.joinEnd ≤ t) do
      call (.finish id false)
      wpaFinish id false
      modify fun s => { s with joinId := none }
      setState improvAuthorized improvErrConnect

/-! ## Packets of the adapter -/

/-- The call of `rpc_write` that `gatt_handle` makes, if it makes one. -/
def rpcCallback : Option (List UInt8) → Act Unit
  | none => pure ()
  | some data => rpcWrite data

/-- The room for a response: a `size_t`, so an ACL length of 0 gives a large one. -/
def Daemon.rspMax (s : Daemon) : Nat := min ((s.aclLen.toNat + 2 ^ 32 - 4) % 2 ^ 32) 256

/-- `l2cap_frame`. -/
def l2capFrame (cid : Nat) (p : List UInt8) : Act Unit := do
  call (.frame cid p)
  let s ← get
  if cid = 4 then
    let r := gattHandle s.gatt p s.rspMax
    call (.att p r.2.1)
    modify fun s => { s with gatt := r.1 }
    rpcCallback r.2.2
    when (r.2.1 ≠ []) (aclSend 4 r.2.1)
  else if cid = 5 ∧ 4 ≤ p.length ∧ (byte p 0).toNat % 2 = 0 then
    -- LE signaling: reject the requests
    aclSend 5 [0x01, byte p 1, 0x02, 0x00, 0x00, 0x00]
  else
    -- SMP: no pairing
    when (cid = 6 ∧ 1 ≤ p.length ∧ (byte p 0 = 0x01 ∨ byte p 0 = 0x0b)) (aclSend 6 [0x05, 0x05])

/-- The buffer of `handle_acl` after an ACL packet, and the L2CAP frame with its channel when it is
complete. -/
def reassemble (l2 : Buffer 256) (p : List UInt8) : Buffer 256 × Option (Nat × List UInt8) :=
  let dl := get16 p 3
  let data := (p.drop 5).take dl
  if p.length < 5 ∨ dl + 5 > p.length then (l2, none)
  else
    -- a start fragment
    let l2 := if (byte p 2).toNat / 16 % 4 ≠ 1 then l2.reset else l2
    if h : l2.len + data.length ≤ 256 then
      let l2 := l2.append data h
      let need := get16 l2.content 0 + 4
      if l2.len < 4 ∨ l2.len < need then (l2, none)
      else (l2, some (get16 l2.content 2, (l2.content.drop 4).take (need - 4)))
    else (l2.reset, none)

/-- `handle_acl`. -/
def handleAcl (p : List UInt8) : Act Unit := do
  let s ← get
  let r := reassemble s.l2 p
  modify fun s => { s with l2 := r.1 }
  match r.2 with
  | none => pure ()
  | some (cid, payload) =>
    l2capFrame cid payload
    modify fun s => { s with l2 := s.l2.reset }

/-- The loop of `le_meta` for one report. -/
def pushReport (a : Adv) : Act Unit := do
  let s ← get
  call (.report a (s.batch.length < advBatch))
  when (s.batch.length < advBatch) do
    modify fun s => { s with batch := s.batch ++ [a] }

/-- LE Connection Complete in `le_meta`: the advertising has stopped. -/
def connected (handle : Nat) (s : Daemon) : Daemon :=
  { s with
    conn := some handle
    advertising := false
    l2 := s.l2.reset
    rpc := s.rpc.reset
    gatt := { s.gatt with mtu := 23, cccd := fun _ => 0, prep := s.gatt.prep.reset } }

/-- `le_meta`. -/
def leMeta (ev : List UInt8) : Act Unit := do
  let s ← get
  if ev.length < 3 then pure ()
  else if byte ev 2 = 0x02 ∧ s.scanning then
    let ads := hciParseAdvReports ev 8
    when (ads ≠ [] ∧ s.batch = []) do
      let t ← nowMs
      modify fun s => { s with batchMs := t }
    each pushReport ads
  else
    when (byte ev 2 = 0x01 ∧ 6 ≤ ev.length ∧ byte ev 3 = 0) (modify (connected (get16 ev 4 % 4096)))

/-- Disconnection Complete in `handle_packet`: the controller does not report the packets of a
closed link. -/
def disconnected (s : Daemon) : Daemon :=
  { s with aclCredits := s.aclCredits + s.connSent, connSent := 0, conn := none, advDirty := true }

/-- Number of Completed Packets in `handle_packet`. -/
def completed (n : UInt16) (s : Daemon) : Daemon :=
  { s with
    aclCredits := s.aclCredits + n
    connSent := s.connSent - (if n < s.connSent then n else s.connSent) }

/-- What `handle_packet` does. -/
def packetBody (p : List UInt8) : Act Unit := do
  let s ← get
  if p.length < 3 then pure ()
  else if byte p 0 = hciAcl then handleAcl p
  else if byte p 0 ≠ hciEvt then pure ()
  else if byte p 1 = 0x3e then leMeta (p.drop 1)
  else if byte p 1 = 0x05 then
    when (6 ≤ p.length ∧ s.conn = some (get16 p 4 % 4096)) (modify disconnected)
  else
    when (byte p 1 = 0x13 ∧ 8 ≤ p.length) (modify (completed (UInt16.ofNat (get16 p 6))))

/-- `handle_packet`. -/
def handlePacket (p : List UInt8) : Act Unit := do
  call (.packet p)
  packetBody p

/-! ## Commands -/

/-- The loop of `hci_cmd` over the packets that `hci_read` gives until the time is over: the status,
and the buffer of the caller for the return parameters. -/
def hciWait (op : Nat) (ret : List UInt8) : List (List UInt8) → Act (Option UInt8 × List UInt8)
  | [] => pure (none, ret)
  | p :: ps => do
    let pkt := p.take 260
    if pkt = [] then hciWait op ret ps
    else
      call (.hciRead pkt)
      if byte pkt 0 = hciEvt ∧ byte pkt 1 = 0x0e ∧ 7 ≤ pkt.length ∧ get16 pkt 4 = op then
        let r := (pkt.drop 6).take ret.length
        pure (some (byte pkt 6), r ++ ret.drop r.length)
      else if byte pkt 0 = hciEvt ∧ byte pkt 1 = 0x0f ∧ 7 ≤ pkt.length ∧ get16 pkt 5 = op then
        pure (some (byte pkt 3), ret)
      else
        handlePacket pkt
        hciWait op ret ps

/-- `hci_cmd` with a buffer for the return parameters; `none` is -1. -/
def hciCmdRet (op : Nat) (param ret : List UInt8) : Act (Option UInt8 × List UInt8) := do
  let pkt := hciCmdPacket :: put16 op ++ [UInt8.ofNat param.length] ++ param
  let ok ← ask (·.wrote)
  call (.hciWrite pkt ok)
  if ok then
    let arrivals ← ask (·.arrivals)
    hciWait op ret arrivals
  else pure (none, ret)

/-- `hci_cmd` without return parameters. -/
def hciCmd (op : Nat) (param : List UInt8) : Act (Option UInt8) := do
  let r ← hciCmdRet op param []
  pure r.1

/-- `set_scan`. -/
def setScan (on : Bool) : Act Unit := do
  let s ← get
  when (on ≠ s.scanning) do
    let params ← (if on then hciCmd 0x200b [0x01, 0x00, 0x02, 0x30, 0x00, 0x00, 0x00]
      else pure (some 0))
    when (params = some 0) do
      let r ← hciCmd 0x200c [if on then 1 else 0, 0x00]
      when (r = some 0) do
        modify fun s => { s with scanning := on }

/-- A parameter of 32 bytes: a length, and the data. -/
def advData (data : List UInt8) : List UInt8 :=
  UInt8.ofNat data.length :: data ++ List.replicate (31 - data.length) 0

/-- The data that `set_advertising` gives to the controller when it turns the advertising on. -/
def advertisingData : Act Unit := do
  let s ← get
  let _ ← hciCmd 0x2008 (advData (hciImprovAdvData s.gatt.state s.gatt.caps))
  let s ← get
  when (s.advertising = false) do
    let _ ← hciCmd 0x2009 (advData (hciNameData s.name))
    let _ ← hciCmd 0x2006 [0xa0, 0x00, 0x40, 0x01, 0x00, 0x00, 0x00, 0, 0, 0, 0, 0, 0, 0x07, 0x00]

/-- `set_advertising`. -/
def setAdvertising (on : Bool) : Act Unit := do
  when (on = true) advertisingData
  let s ← get
  when (on ≠ s.advertising) do
    let r ← hciCmd 0x200a [if on then 1 else 0]
    when (r = some 0) do
      modify fun s => { s with advertising := on }
  modify fun s => { s with advDirty := false }

/-! ## The ESPHome API -/

/-- The client in slot `i`. -/
def Daemon.client (s : Daemon) (i : Nat) : Client := s.clients.getD i ⟨none, [], false⟩

/-- Change the client in slot `i`. -/
def modifyClient (i : Nat) (f : Client → Client) : Act Unit :=
  modify fun s => { s with clients := s.clients.modify i f }

/-- `client_close`. -/
def clientClose (i : Nat) : Act Unit := do
  call (.close i)
  modifyClient i fun _ => ⟨none, [], false⟩

/-- `client_send`: a client that cannot take a message now goes. -/
def clientSend (i type : Nat) (msg : List UInt8) : Act Unit := do
  when (msg.length + 12 ≤ 1200) do
    let ok ← ask (·.sent)
    call (.send i type msg ok)
    when (ok = false) (clientClose i)

/-- `client_message`. -/
def clientMessage (i type : Nat) : Act Unit := do
  call (.message i type)
  let s ← get
  if type = 1 then clientSend i 2 (apiHello s.info)
  else if type = 5 then
    clientSend i 6 []
    let s ← get
    when ((s.client i).fd.isSome = true) (clientClose i)
  else if type = 7 then clientSend i 8 []
  else if type = 9 then clientSend i 10 (apiDeviceInfo s.info)
  else if type = 11 then clientSend i 19 []
  else if type = 66 then modifyClient i fun c => { c with subscribed := true }
  else if type = 87 then modifyClient i fun c => { c with subscribed := false }
  else when (type = 80) (clientSend i 81 [])

/-- The loop of `client_read` over the frames of `buf` from `used` on, with at most `n` frames: how
far it came, and what it found there. -/
def clientFrames (i : Nat) (buf : List UInt8) : Nat → Nat → Act (Nat × ApiFrame)
  | 0, used => pure (used, .short)
  | n + 1, used => do
    let s ← get
    if (s.client i).fd = none then pure (used, .short)
    else
      match apiNext (buf.drop used) with
      | .short => pure (used, .short)
      | .bad => pure (used, .bad)
      | .frame len type _ =>
        clientMessage i type
        clientFrames i buf n (used + len)

/-- `client_read` after `recv` has put bytes into the buffer. -/
def clientBytes (i : Nat) : Act Unit := do
  let s ← get
  let buf := (s.client i).buf
  let r ← clientFrames i buf (buf.length + 1) 0
  let s ← get
  if (s.client i).fd = none then pure ()
  else if r.2 = .bad ∨ (r.1 = 0 ∧ buf.length = 1024) then clientClose i
  else modifyClient i fun c => { c with buf := buf.drop r.1 }

/-- `client_read`. -/
def clientRead (i : Nat) : Act Unit := do
  let r ← ask (·.recv)
  let s ← get
  match r with
  | .again => pure ()
  | .closed => clientClose i
  | .bytes b =>
    let b := b.take (1024 - (s.client i).buf.length)
    if b = [] then clientClose i
    else
      modifyClient i fun c => { c with buf := c.buf ++ b }
      clientBytes i

/-- `accept_client`: the first free slot, if there is one. -/
def acceptClient : Act Unit := do
  let fd ← ask (·.fd)
  let s ← get
  match fd with
  | none => pure ()
  | some fd =>
    match s.clients.findIdx? fun c => c.fd = none with
    | none => pure ()
    | some i => modifyClient i fun c => { c with fd := some fd }

/-- The loop of `flush_batch` for one client. -/
def flushClient (msg : List UInt8) (i : Nat) : Act Unit := do
  let s ← get
  when ((s.client i).fd.isSome ∧ (s.client i).subscribed) (clientSend i 93 msg)

/-- `flush_batch`. -/
def flushBatch : Act Unit := do
  let s ← get
  when (s.batch ≠ []) do
    call (.flush s.batch)
    modify fun s => { s with batch := [] }
    each (flushClient (apiAdvBatch s.batch)) (List.range maxClients)

/-- `subscribers`. -/
def subscribers (s : Daemon) : Nat := s.clients.countP fun c => c.fd.isSome && c.subscribed

/-! ## The loop -/

/-- `poll_timeout`. -/
def pollTimeout : Act Int := do
  let t ← nowMs
  let s ← get
  let left := (s.batchMs : Int) + 100 - t
  if s.batch ≠ [] then pure (max 0 left)
  else if s.joinId.isSome ∨ s.identifyEnd ≠ 0 ∨ s.doneAt ≠ 0 then pure 1000
  else pure (if s.improv then 5000 else -1)

/-- `timers`: a batch that waits for 100 ms. -/
def batchTimer : Act Unit := do
  let s ← get
  when (s.batch ≠ []) do
    let t ← nowMs
    when (s.batchMs + 100 ≤ t) flushBatch

/-- `timers`: a join that is open. -/
def joinTimer : Act Unit := do
  let s ← get
  match s.joinId with
  | none => pure ()
  | some id => joinPoll id

/-- `timers`: the end of an identify. -/
def identifyTimer : Act Unit := do
  let s ← get
  when (s.identifyEnd ≠ 0) do
    let t ← now
    when (s.identifyEnd ≤ t) (identify false)

/-- `timers`: after provisioning, no more advertising. -/
def doneTimer : Act Unit := do
  let s ← get
  when (s.doneAt ≠ 0) do
    let t ← now
    when (s.doneAt ≤ t ∧ s.conn = none) do
      modify fun s => { s with improv := false, doneAt := 0 }
      call (.improvEnd .provisioned)
      setAdvertising false

/-- `timers`: Wi-Fi got a network in another way, so no Improv for anyone in range. -/
def networkTimer : Act Unit := do
  let s ← get
  when (s.improv ∧ s.joinId = none ∧ s.doneAt = 0 ∧ s.conn = none) do
    let t ← now
    when (s.checkAt ≤ t) do
      let t ← now
      modify fun s => { s with checkAt := t + 5 }
      let n ← wpaNetworks
      when (n > 0) do
        modify fun s => { s with improv := false }
        call (.improvEnd .network)
        setAdvertising false

/-- `timers`. -/
def timers : Act Unit := do
  batchTimer
  joinTimer
  identifyTimer
  doneTimer
  networkTimer

/-- The adapter in one round of `run`; `false` when it is gone. -/
def readAdapter : Act Bool := do
  let r ← ask (·.read)
  match r with
  | .failed => pure false
  | .nothing => pure true
  | .packet p =>
    let pkt := p.take 300
    when (pkt ≠ []) do
      call (.hciRead pkt)
      handlePacket pkt
    pure true

/-- The clients in one round of `run`. -/
def readClients (ready : Ready) : Act Unit := do
  when (ready.listener = true) acceptClient
  each (fun i => do
    let s ← get
    when ((s.client i).fd.isSome ∧ ready.clients i) (clientRead i)) (List.range maxClients)

/-- The part of a round of `run` behind `poll`. -/
def serve (ready : Ready) : Act Bool := do
  let ok ← (if ready.hci then readAdapter else pure true)
  when (ok = true) do
    readClients ready
    let s ← get
    when (advBatch ≤ s.batch.length) flushBatch
    timers
  pure ok

/-- One round of `run`; `false` ends the loop. -/
def round : Act Bool := do
  let stop ← ask (·.stopped)
  let s ← get
  if stop ∨ !(s.proxy || s.improv) then pure false
  else
    when (s.advDirty ∧ s.improv ∧ s.conn = none) (setAdvertising true)
    let s ← get
    setScan (0 < subscribers s)
    let timeout ← pollTimeout
    call (.poll timeout)
    let ready ← ask (·.poll)
    match ready with
    | none => pure false
    | some ready => serve ready

/-- `run` for at most `n` rounds: `true` when it ended. -/
def run (n : Nat) : Act Bool := loop round n

/-! ## The start and the end -/

/-- `hci_init` up to the buffers: `false` when a command failed. -/
def hciReset : Act Bool := do
  let r ← hciCmd 0x0c03 []
  if r ≠ some 0 then pure false
  else
    let r ← hciCmd 0x0c01 [0xff, 0xff, 0xff, 0xff, 0xff, 0x1f, 0x00, 0x20]
    if r ≠ some 0 then pure false
    else
      let r ← hciCmd 0x2001 [0x1f, 0, 0, 0, 0, 0, 0, 0]
      pure (r = some 0)

/-- The buffers of `hci_init`: LE Read Buffer Size, or Read Buffer Size. -/
def hciBuffers (ret : List UInt8) : Act Unit := do
  let a ← hciCmdRet 0x2002 [] ret
  if a.1 = some 0 ∧ get16 a.2 1 ≠ 0 then
    modify fun s =>
      { s with aclLen := UInt16.ofNat (get16 a.2 1), aclCredits := (byte a.2 3).toUInt16 }
  else
    let b ← hciCmdRet 0x1005 [] a.2
    when (b.1 = some 0) do
      modify fun s =>
        { s with aclLen := UInt16.ofNat (get16 b.2 1), aclCredits := UInt16.ofNat (get16 b.2 4) }

/-- `hci_init`. The buffer of 16 bytes for return parameters begins with what is on the stack. -/
def hciInit : Act Bool := do
  let stack ← ask (·.line)
  let ok ← hciReset
  if ok then
    let a ← hciCmdRet 0x1009 [] ((stack ++ List.replicate 16 0).take 16)
    if a.1 ≠ some 0 then pure false
    else
      modify fun s => { s with bdaddr := (a.2.drop 1).take 6 }
      hciBuffers a.2
      modify fun s => { s with aclLen := if s.aclLen < 27 then 27 else s.aclLen }
      pure true
  else pure false

/-- The loop of `improv_needed` with `n` rounds left. -/
def networksFrom : Nat → Act Int
  | 0 => pure (-1)
  | n + 1 => do
    let r ← wpaNetworks
    if 0 ≤ r then pure r
    else
      let stop ← ask (·.stopped)
      if stop then pure r else networksFrom n

/-- `improv_needed`: only while wpa_supplicant has no network. -/
def improvNeeded : Act Bool := do
  let n ← networksFrom 30
  pure (n = 0)

/-- The state before `main`. -/
def Daemon.zero : Daemon where
  aclLen := 0
  aclCredits := 0
  connSent := 0
  bdaddr := List.replicate 6 0
  scanning := false
  batch := []
  batchMs := 0
  improv := false
  advertising := false
  advDirty := false
  conn := none
  l2 := .empty
  rpc := .empty
  gatt := .zero
  joinId := none
  joinEnd := 0
  identifyEnd := 0
  doneAt := 0
  checkAt := 0
  proxy := false
  clients := List.replicate maxClients ⟨none, [], false⟩
  info := ⟨[], [], [], []⟩
  name := []

/-- The world before `main`. -/
def boot : World Call Daemon := ⟨Daemon.zero, 0, []⟩

/-- An upper-case hex letter for a lower-case one. -/
def upper (c : UInt8) : UInt8 := if 0x61 ≤ c ∧ c ≤ 0x66 then c - 0x20 else c

/-- `setup_info`. -/
def setupInfo : Act Unit := do
  let name ← ask (·.line)
  let mac ← ask (·.line)
  let model ← ask (·.line)
  let s ← get
  let btMac := (s.bdaddr.reverse.map fun b => (hex b).map upper).intersperse [0x3a] |>.flatten
  let name := cstr (name.take 63)
  modify fun s =>
    { s with
      name := name
      info := ⟨name, (cstr (mac.take 17)).map upper, btMac, cstr (model.take 63)⟩ }

/-- `main` between `hci_init` and the loop; `caps` depends on the LED of the board. -/
def setup : Act Unit := do
  setupInfo
  let led ← ask (·.found)
  let caps := if led then improvCapInfo ||| improvCapIdentify else improvCapInfo
  modify fun s => { s with gatt := gattInit s.name caps }
  -- `s.acl_len - 4` is an `int`
  modify fun s => { s with gatt := { s.gatt with mtuMax := min (s.aclLen.toNat - 4) 247 } }

/-- The end of `main`: no join stays open. -/
def finishJoin : Act Unit := do
  let s ← get
  match s.joinId with
  | none => pure ()
  | some id =>
    call (.finish id false)
    wpaFinish id false

/-- The loop of `main`, and the clean-up when it has ended. -/
def runAndStop (n : Nat) : Act Unit := do
  call .loop
  let ended ← run n
  when (ended = true) do
    setScan false
    setAdvertising false
    finishJoin
    call .exit

/-- `main` from `hci_init` on. -/
def start (n : Nat) : Act Unit := do
  let ok ← hciInit
  when (ok = true) do
    setup
    let s ← get
    let lfd ← (if s.proxy then ask (·.fd) else pure (some 0))
    when (lfd.isSome = true) do
      when (s.improv = true) do
        modify fun s => { s with advDirty := true }
      runAndStop n

/-- `main` behind the options: `-p` is `proxy`, `-i` is `improv`; the loop takes at most `n` rounds.
-/
def main (proxy improv : Bool) (n : Nat) : Act Unit := do
  modify fun s => { s with proxy := proxy }
  let needed ← (if improv then improvNeeded else pure false)
  modify fun s => { s with improv := needed }
  when (proxy ∨ needed) do
    let bluetoothd ← ask (·.found)
    when (bluetoothd = false) do
      let hci ← ask (·.fd)
      when (hci.isSome = true) (start n)

/-! ## What an adapter sends -/

/-- Command Complete with the status 0. -/
def commandComplete (op : Nat) (ret : List UInt8) : List UInt8 :=
  [0x04, 0x0e, UInt8.ofNat (4 + ret.length), 0x01] ++ put16 op ++ 0x00 :: ret

/-- LE Connection Complete with the handle 0x0040. -/
def connectionComplete : List UInt8 :=
  [0x04, 0x3e, 0x13, 0x01, 0x00, 0x40, 0x00, 0x01, 0x00, 1, 2, 3, 4, 5, 6, 0x18, 0x00, 0x00, 0x00,
    0x48, 0x00, 0x00]

end Esp32S31.BleHa
