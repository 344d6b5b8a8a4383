import Esp32S31.BleHa.State

/-!
# The control socket of wpa_supplicant

`wpa.c`: add a network from Improv, wait for its connection, then save it or remove it. A reply is
the C string in the buffer of the caller.
-/

namespace Esp32S31.BleHa

open Esp32S31.Lib Prog

/-- The bytes before the NUL. -/
def cstr (b : List UInt8) : List UInt8 := b.takeWhile (· ≠ 0)

/-- `request`: the reply in a buffer of `len` bytes. -/
def request (cmd : List UInt8) (len : Nat) : Act (Option (List UInt8)) := do
  let reply ← ask (·.reply)
  call (.request cmd reply)
  pure (reply.map fun b => cstr (b.take (len - 1)))

/-- `request_ok`. -/
def requestOk (cmd : List UInt8) : Act Bool := do
  let r ← request cmd 64
  pure (r.elim false fun b => b.take 2 = str "OK")

/-- The reply begins with `OK`. -/
def saysOk (reply : Option (List UInt8)) : Bool := reply.elim false fun b => b.take 2 = str "OK"

theorem saysOk_cstr (b : List UInt8) :
    (decide ((cstr (b.take 63)).take 2 = str "OK")) = saysOk (some b) := by
  have h : (cstr (b.take 63)).take 2 = str "OK" ↔ b.take 2 = str "OK" := by
    match b with
    | [] => exact Iff.rfl
    | [x] =>
      by_cases hx : x = 0 <;> simp [cstr, str, hx]
    | x :: y :: b =>
      by_cases hx : x = 0
      · subst hx
        simp [cstr, str]
      · by_cases hy : y = 0
        · subst hy
          simp [cstr, str, hx]
        · simp [cstr, hx, hy]
  exact decide_eq_decide.mpr h

/-- The world after a request. -/
def requested (env : Nat → Answer) (cmd : List UInt8) (w : World Call Daemon) : World Call Daemon :=
  { w with asked := w.asked + 1, calls := (.request cmd (env w.asked).reply, w.st) :: w.calls }

theorem request_run (env : Nat → Answer) (cmd : List UInt8) (len : Nat) (w : World Call Daemon) :
    (request cmd len).run env w =
      ((env w.asked).reply.map fun b => cstr (b.take (len - 1)), requested env cmd w) := rfl

theorem requestOk_run (env : Nat → Answer) (cmd : List UInt8) (w : World Call Daemon) :
    (requestOk cmd).run env w = (saysOk (env w.asked).reply, requested env cmd w) := by
  unfold requestOk
  rw [run_bind, request_run, run_pure]
  cases (env w.asked).reply with
  | none => rfl
  | some b => exact congrArg (·, requested env cmd w) (saysOk_cstr b)

/-- `wpa_networks`: a header line, then one line for each network. -/
def wpaNetworks : Act Int := do
  let r ← request (str "LIST_NETWORKS") 2048
  pure (r.elim (-1) fun b => max 0 ((b.count 0x0a : Int) - 1))

/-- The loop of `%d`, for a number of at most `n` digits. -/
def digits : Nat → Nat → List UInt8
  | 0, _ => []
  | n + 1, v =>
    if v < 10 then [UInt8.ofNat (0x30 + v)] else digits n (v / 10) ++ [UInt8.ofNat (0x30 + v % 10)]

/-- `%d` of an `int` that is not negative. -/
def decimal (v : Nat) : List UInt8 := digits 10 v

/-- `%02x`. -/
def hex (b : UInt8) : List UInt8 :=
  let digit (n : Nat) : UInt8 := UInt8.ofNat (if n < 10 then 0x30 + n else 0x57 + n)
  [digit (b.toNat / 16), digit (b.toNat % 16)]

def isDigit (c : UInt8) : Bool := 0x30 ≤ c && c ≤ 0x39

/-- `atoi` of digits. -/
def atoi (r : List UInt8) : Nat := (r.takeWhile isDigit).foldl
    (fun n c => 10 * n + (c.toNat - 0x30)) 0

/-- The loop that writes the SSID in hex while there is room in 160 bytes. -/
def ssidHex : Nat → List UInt8 → List UInt8
  | _, [] => []
  | pos, b :: bs => if b ≠ 0 ∧ pos + 3 < 160 then hex b ++ ssidHex (pos + 2) bs else []

/-- `SET_NETWORK <id> `. -/
def setNetwork (id : Nat) : List UInt8 := str "SET_NETWORK " ++ decimal id ++ str " "

/-- `SET_NETWORK <id> ssid <hex>`: any byte, no quoting. -/
def setSsid (id : Nat) (ssid : List UInt8) : List UInt8 :=
  let cmd := setNetwork id ++ str "ssid "
  cmd ++ ssidHex cmd.length ssid

/-- `SET_NETWORK <id> psk "<passphrase>"`. -/
def setPsk (id : Nat) (pass : List UInt8) : List UInt8 :=
  (setNetwork id ++ str "psk \"" ++ pass ++ str "\"").take 159

/-- `SET_NETWORK <id> key_mgmt ...`: with a passphrase, or open. -/
def setKeyMgmt (id : Nat) (pass : List UInt8) : List UInt8 :=
  setNetwork id ++ str (if pass = [] then "key_mgmt NONE" else "key_mgmt WPA-PSK SAE")

/-- `wpa_finish`: keep the network and save the config, or remove it. Then all networks are on
again. -/
def wpaFinish (id : Nat) (keep : Bool) : Act Unit := do
  when (keep = false) do
    let _ ← requestOk ((str "REMOVE_NETWORK " ++ decimal id).take 31)
  let _ ← requestOk (str "ENABLE_NETWORK all")
  when (keep = true) do
    let _ ← requestOk (str "SAVE_CONFIG")

/-- The requests of `wpa_join` after the first; `false` when one of them failed. -/
def configure (id : Nat) : List (List UInt8) → Act Bool
  | [] => pure true
  | cmd :: cmds => do
    if ← requestOk cmd then configure id cmds else pure false

/-- The requests that configure the network `id` and connect to it alone. -/
def joinRequests (id : Nat) (ssid pass : List UInt8) : List (List UInt8) :=
  setSsid id ssid :: (if pass = [] then [] else [setPsk id pass]) ++
    [setKeyMgmt id pass, str "SELECT_NETWORK " ++ decimal id]

/-- `wpa_join`: its id, or `none`. -/
def wpaJoin (ssid pass : List UInt8) : Act (Option Nat) := do
  let r ← request (str "ADD_NETWORK") 32
  match r with
  | none => pure none
  | some r =>
    if !isDigit (byte r 0) then pure none
    else
      let id := atoi r
      if ← configure id (joinRequests id ssid pass) then pure (some id)
      else do
        wpaFinish id false
        pure none

/-- `strstr(r, p) != NULL`. -/
def strstr (p : List UInt8) : List UInt8 → Bool
  | [] => p.isEmpty
  | c :: r => p.isPrefixOf (c :: r) || strstr p r

/-- `wpa_connected`: 1 connected with an address, 0 not yet, -1 error. -/
def wpaConnected : Act Int := do
  let r ← request (str "STATUS") 1024
  pure (r.elim (-1) fun b =>
    if strstr (str "wpa_state=COMPLETED\n") b && strstr (str "\nip_address=") b then 1 else 0)

end Esp32S31.BleHa
