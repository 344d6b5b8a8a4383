import Mathlib.Logic.Basic
import Mathlib.Data.List.TakeDrop
import Esp32S31.Lib.Slice
import Esp32S31.BleHa.Improv
import Esp32S31.BleHa.Wpa

/-!
# The grammar of the Improv packets

`Packet buf c`: the packet that says the command `c`. `improvParse_iff` is the parser against it,
and `improvPacket_inj` that no two packets say the same.

`improvParseAt` is `improv_parse` once more, on the `struct improv_cmd` that it fills and with every
access to the packet and to the two arrays checked (`Lib.Slice`). `improvParseAt_eq` takes it back
to `improvParse`.
-/

namespace Esp32S31.BleHa

open Esp32S31.Lib.Slice

/-- Command, data length, data, checksum. -/
def improvPacket (cmd : UInt8) (data : List UInt8) : List UInt8 :=
  let pkt := cmd :: UInt8.ofNat data.length :: data
  pkt ++ [checksum pkt]

/-- The data of a `WIFI` command: SSID and passphrase, each behind its length. -/
def wifiData (ssid pass : List UInt8) : List UInt8 :=
  UInt8.ofNat ssid.length :: ssid ++ UInt8.ofNat pass.length :: pass

/-- A WPA passphrase: empty, or 8 to 63 printable ASCII characters. -/
def Passphrase (p : List UInt8) : Prop :=
  p = [] ∨ (8 ≤ p.length ∧ p.length ≤ 63 ∧ ∀ c ∈ p, 0x20 ≤ c ∧ c ≤ 0x7e)

/-- The packet of a command. -/
inductive Packet : List UInt8 → ImprovCmd → Prop
  | bare {cmd : UInt8} (h : cmd = improvCmdIdentify ∨ cmd = improvCmdInfo) :
      Packet (improvPacket cmd []) ⟨cmd, [], []⟩
  | wifi {ssid pass : List UInt8} (hmin : 1 ≤ ssid.length) (hmax : ssid.length ≤ 32)
    (hnul : 0 ∉ ssid)
      (hpass : Passphrase pass) :
      Packet (improvPacket improvCmdWifi (wifiData ssid pass)) ⟨improvCmdWifi, ssid, pass⟩

/-! ## The parser against the grammar -/

theorem validPass_iff (p : List UInt8) : validPass p = true ↔ Passphrase p := by
  unfold validPass Passphrase
  simp only [Bool.and_eq_true, Bool.or_eq_true, decide_eq_true_eq, List.all_eq_true,
    List.length_eq_zero_iff]
  constructor
  · rintro ⟨rfl | ⟨hmin, hmax⟩, hall⟩
    · exact Or.inl rfl
    · exact Or.inr ⟨hmin, hmax, hall⟩
  · rintro (rfl | ⟨hmin, hmax, hall⟩)
    · exact ⟨Or.inl rfl, fun c hc => absurd hc List.not_mem_nil⟩
    · exact ⟨Or.inr ⟨hmin, hmax⟩, hall⟩

instance : DecidablePred Passphrase := fun p => decidable_of_iff _ (validPass_iff p)

theorem Passphrase.length_le {p : List UInt8} (h : Passphrase p) : p.length ≤ 63 := by
  rcases h with rfl | ⟨_, hmax, _⟩
  · exact Nat.zero_le _
  · exact hmax

theorem toNat_ofNat_lt {n : Nat} (h : n < 256) : (UInt8.ofNat n).toNat = n := by
  rw [UInt8.toNat_ofNat']
  exact Nat.mod_eq_of_lt h

/-- A list that is long enough for a length byte, so many bytes and `n` more. -/
theorem split_counted {d : List UInt8} {n : Nat} (h : d.length = 1 + (byte d 0).toNat + n) :
    ∃ p q, d = UInt8.ofNat p.length :: p ++ q ∧ p.length < 256 ∧ q.length = n := by
  cases d with
  | nil =>
    rw [List.length_nil] at h
    omega
  | cons b d =>
    have hb : (byte (b :: d) 0).toNat = b.toNat := rfl
    rw [hb, List.length_cons] at h
    have hlen : (d.take b.toNat).length = b.toNat := by rw [List.length_take]; omega
    refine ⟨d.take b.toNat, d.drop b.toNat, ?_, ?_, ?_⟩
    · rw [hlen, UInt8.ofNat_toNat, List.cons_append, List.take_append_drop]
    · rw [hlen]
      exact b.toNat_lt
    · rw [List.length_drop]
      omega

theorem byte_at (a : List UInt8) (b : UInt8) (c : List UInt8) : byte
    (a ++ b :: c) a.length = b := by
  unfold byte
  rw [List.getD_eq_getElem?_getD, List.getElem?_append_right (Nat.le_refl _), Nat.sub_self]
  rfl

section WifiData

variable {ssid pass : List UInt8}

theorem wifiData_length (ssid pass : List UInt8) :
    (wifiData ssid pass).length = 2 + ssid.length + pass.length := by
  simp only [wifiData, List.length_append, List.length_cons]
  omega

theorem wifiData_ssid_length (hs : ssid.length < 256) :
    (byte (wifiData ssid pass) 0).toNat = ssid.length :=
  toNat_ofNat_lt hs

theorem wifiData_ssid (ssid pass : List UInt8) :
    ((wifiData ssid pass).drop 1).take ssid.length = ssid := by
  unfold wifiData
  rw [List.cons_append, List.drop_one, List.tail_cons, List.take_left]

theorem wifiData_pass_length (hp : pass.length < 256) :
    (byte (wifiData ssid pass) (1 + ssid.length)).toNat = pass.length := by
  have hat := byte_at (UInt8.ofNat ssid.length :: ssid) (UInt8.ofNat pass.length) pass
  rw [List.length_cons, Nat.add_comm] at hat
  unfold wifiData
  rw [hat, toNat_ofNat_lt hp]

theorem wifiData_pass (ssid pass : List UInt8) :
    ((wifiData ssid pass).drop (2 + ssid.length)).take pass.length = pass := by
  have hl : (UInt8.ofNat ssid.length :: ssid ++ [UInt8.ofNat pass.length]).length = 2 +
      ssid.length := by
    simp only [List.length_append, List.length_cons, List.length_nil]
    omega
  have heq : wifiData ssid pass = (UInt8.ofNat ssid.length :: ssid ++ [UInt8.ofNat pass.length]) ++
      pass := by
    simp only [wifiData, List.cons_append, List.append_assoc, List.nil_append]
  rw [heq, List.drop_left' hl, List.take_length]

/-- `parse_wifi` on such data. -/
theorem parseWifi_wifiData (hs : ssid.length < 256) (hp : pass.length < 256)
    {r : List UInt8 × List UInt8} : parseWifi (wifiData ssid pass) = .ok r ↔
      r = (ssid, pass) ∧ 1 ≤ ssid.length ∧ ssid.length ≤ 32 ∧ 0 ∉ ssid ∧ Passphrase pass := by
  have hlen := wifiData_length ssid pass
  unfold parseWifi
  simp only [wifiData_ssid_length hs, wifiData_pass_length hp, wifiData_ssid, wifiData_pass]
  rw [if_neg (by omega)]
  by_cases hsl : ssid.length = 0 ∨ ssid.length > 32
  · rw [if_pos (by omega)]
    constructor
    · intro h
      cases h
    · rintro ⟨_, hmin, hmax, _⟩
      omega
  · rw [if_neg (by omega)]
    by_cases hbad : (!validPass pass) = true ∨ ssid.contains 0 = true
    · rw [if_pos (Or.inr hbad)]
      constructor
      · intro h
        cases h
      · rintro ⟨_, _, _, hnul, hpass⟩
        rcases hbad with hbad | hbad
        · rw [(validPass_iff pass).mpr hpass] at hbad
          cases hbad
        · exact absurd (List.contains_iff_mem.mp hbad) hnul
    · rw [not_or] at hbad
      rw [if_neg (by rw [not_or, not_or]; exact ⟨by omega, hbad⟩)]
      have hpass : Passphrase pass := (validPass_iff pass).mp (by simpa using hbad.1)
      have hnul : (0 : UInt8) ∉ ssid := fun h => hbad.2 (List.contains_iff_mem.mpr h)
      constructor
      · intro h
        cases h
        exact ⟨rfl, by omega, by omega, hnul, hpass⟩
      · rintro ⟨rfl, _⟩
        rfl

end WifiData

/-- Whatever `parse_wifi` accepts is an SSID and a passphrase, and nothing else. -/
theorem parseWifi_shape {d : List UInt8} {r : List UInt8 × List UInt8} (h : parseWifi d = .ok r) :
    ∃ ssid pass, d = wifiData ssid pass ∧ ssid.length < 256 ∧ pass.length < 256 := by
  have hd : d.length = 2 + (byte d 0).toNat + (byte d (1 + (byte d 0).toNat)).toNat := by
    unfold parseWifi at h
    dsimp only at h
    split at h
    · cases h
    · split at h
      · cases h
      · split at h
        · cases h
        · next hlen =>
          rw [not_or, not_not] at hlen
          exact hlen.1.symm
  obtain ⟨ssid, q, rfl, hs, hq⟩ := split_counted (d := d)
    (n := 1 + (byte d (1 + (byte d 0).toNat)).toNat) (by omega)
  have hsl : (byte (UInt8.ofNat ssid.length :: ssid ++ q) 0).toNat = ssid.length :=
    toNat_ofNat_lt hs
  have hat : byte (UInt8.ofNat ssid.length :: ssid ++ q) (1 + ssid.length) = byte q 0 := by
    unfold byte
    rw [List.getD_eq_getElem?_getD, List.getD_eq_getElem?_getD,
      List.getElem?_append_right (by rw [List.length_cons]; omega), List.length_cons]
    congr 2
    omega
  rw [hsl, hat] at hq
  obtain ⟨pass, q, rfl, hp, hnil⟩ := split_counted (d := q) (n := 0) (by omega)
  obtain rfl := List.length_eq_zero_iff.mp hnil
  refine ⟨ssid, pass, ?_, hs, hp⟩
  rw [List.append_nil]
  rfl

/-- `parse_wifi` against the grammar. -/
theorem parseWifi_iff {d ssid pass : List UInt8} : parseWifi d = .ok (ssid, pass) ↔
    d = wifiData ssid pass ∧ 1 ≤ ssid.length ∧ ssid.length ≤ 32 ∧ 0 ∉ ssid ∧ Passphrase pass := by
  constructor
  · intro h
    obtain ⟨s, p, rfl, hs, hp⟩ := parseWifi_shape h
    obtain ⟨he, hfields⟩ := (parseWifi_wifiData hs hp).mp h
    obtain ⟨rfl, rfl⟩ := Prod.mk.inj he
    exact ⟨rfl, hfields⟩
  · rintro ⟨rfl, hfields⟩
    have hp := hfields.2.2.2.length_le
    exact (parseWifi_wifiData (by omega) (by omega)).mpr ⟨rfl, hfields⟩

/-! ## The packet around the data -/

theorem improvPacket_length (cmd : UInt8) (data : List UInt8) :
    (improvPacket cmd data).length = data.length + 3 := by
  simp only [improvPacket, List.length_append, List.length_cons, List.length_nil]

/-- A string of the right length with the right checksum is a packet. -/
theorem improvPacket_of_checksum {buf : List UInt8} (hlen : buf.length = (byte buf 1).toNat + 3)
    (hsum : checksum (buf.take ((byte buf 1).toNat + 2)) = byte buf ((byte buf 1).toNat + 2)) :
    ∃ data, data.length < 256 ∧ buf = improvPacket (byte buf 0) data := by
  cases buf with
  | nil =>
    rw [List.length_nil] at hlen
    omega
  | cons cmd d =>
    have hdl : byte (cmd :: d) 1 = byte d 0 := rfl
    rw [hdl] at hlen hsum
    rw [List.length_cons] at hlen
    obtain ⟨data, q, rfl, hdata, hq⟩ := split_counted (d := d) (n := 1) (by omega)
    obtain ⟨s, rfl⟩ := List.length_eq_one_iff.mp hq
    have hl : (byte (UInt8.ofNat data.length :: data ++ [s]) 0).toNat = data.length :=
      toNat_ofNat_lt hdata
    have hpkt : (cmd :: UInt8.ofNat data.length :: data).length = data.length + 2 := rfl
    have hbuf : cmd :: (UInt8.ofNat data.length :: data ++ [s]) =
        (cmd :: UInt8.ofNat data.length :: data) ++ [s] := rfl
    rw [hl, hbuf, ← hpkt, List.take_left, byte_at] at hsum
    refine ⟨data, hdata, ?_⟩
    rw [hbuf, ← hsum]
    rfl

/-- What `improv_parse` does with the data. -/
def improvBody (cmd : UInt8) (data : List UInt8) : Except UInt8 ImprovCmd :=
  if cmd = improvCmdWifi then
    match parseWifi data with
    | .ok (ssid, pass) => .ok ⟨cmd, ssid, pass⟩
    | .error e => .error e
  else if cmd = improvCmdIdentify ∨ cmd = improvCmdInfo then
    if data.length ≠ 0 then .error improvErrInvalid else .ok ⟨cmd, [], []⟩
  else .error improvErrUnknown

theorem improvParse_packet {cmd : UInt8} {data : List UInt8} (h : data.length < 256) :
    improvParse (improvPacket cmd data) = improvBody cmd data := by
  have hlen := improvPacket_length cmd data
  have hdl : (byte (improvPacket cmd data) 1).toNat = data.length := toNat_ofNat_lt h
  have hpkt : (cmd :: UInt8.ofNat data.length :: data).length = data.length + 2 := rfl
  have hsum : byte (improvPacket cmd data) (data.length + 2) =
      checksum ((improvPacket cmd data).take (data.length + 2)) := by
    unfold improvPacket
    dsimp only
    rw [← hpkt, byte_at, List.take_left]
  have hdata : ((improvPacket cmd data).drop 2).take data.length = data := List.take_left
  unfold improvParse
  simp only [hdl, hdata]
  rw [if_neg (by omega), if_neg (by omega),
    if_neg (by rw [not_or, not_not]; exact ⟨by omega, hsum.symm⟩)]
  rfl

/-- Whatever `improv_parse` accepts is a packet. -/
theorem improvParse_shape {buf : List UInt8} {c : ImprovCmd} (h : improvParse buf = .ok c) :
    ∃ data, data.length < 256 ∧ buf = improvPacket (byte buf 0) data := by
  unfold improvParse at h
  dsimp only at h
  split at h
  · cases h
  · split at h
    · cases h
    · split at h
      · cases h
      · next hshort hlen =>
        rw [not_or, not_not] at hlen
        exact improvPacket_of_checksum (by omega) hlen.2

theorem improvBody_iff {cmd : UInt8} {data : List UInt8} {c : ImprovCmd} :
    improvBody cmd data = .ok c ↔
    (cmd = improvCmdWifi ∧ c.cmd = cmd ∧ parseWifi data = .ok (c.ssid, c.pass)) ∨
      ((cmd = improvCmdIdentify ∨ cmd = improvCmdInfo) ∧ data = [] ∧ c = ⟨cmd, [], []⟩) := by
  unfold improvBody
  by_cases hwifi : cmd = improvCmdWifi
  · have hbare : ¬ (cmd = improvCmdIdentify ∨ cmd = improvCmdInfo) := by
      rw [hwifi]
      decide
    rw [if_pos hwifi]
    cases hp : parseWifi data with
    | error e =>
      constructor
      · intro h
        cases h
      · rintro (⟨_, _, h⟩ | ⟨h, _⟩)
        · cases h
        · exact absurd h hbare
    | ok r =>
      constructor
      · intro h
        cases h
        exact Or.inl ⟨hwifi, rfl, rfl⟩
      · rintro (⟨_, hcmd, h⟩ | ⟨h, _⟩)
        · cases h
          rw [← hcmd]
        · exact absurd h hbare
  · rw [if_neg hwifi]
    by_cases hbare : cmd = improvCmdIdentify ∨ cmd = improvCmdInfo
    · rw [if_pos hbare]
      by_cases hdata : data = []
      · rw [if_neg (by rw [hdata, List.length_nil]; exact fun h => h rfl)]
        constructor
        · intro h
          cases h
          exact Or.inr ⟨hbare, hdata, rfl⟩
        · rintro (⟨h, _⟩ | ⟨_, _, rfl⟩)
          · exact absurd h hwifi
          · rfl
      · rw [if_pos (fun h => hdata (List.length_eq_zero_iff.mp h))]
        constructor
        · intro h
          cases h
        · rintro (⟨h, _⟩ | ⟨_, h, _⟩)
          · exact absurd h hwifi
          · exact absurd h hdata
    · rw [if_neg hbare]
      constructor
      · intro h
        cases h
      · rintro (⟨h, _⟩ | ⟨h, _⟩)
        · exact absurd h hwifi
        · exact absurd h hbare

/-- **The parser accepts exactly the grammar.** -/
theorem improvParse_iff {buf : List UInt8} {c : ImprovCmd} : improvParse buf = .ok c ↔
    Packet buf c := by
  constructor
  · intro h
    obtain ⟨data, hlen, hbuf⟩ := improvParse_shape h
    rw [hbuf] at h ⊢
    rw [improvParse_packet hlen] at h
    rcases improvBody_iff.mp h with ⟨hcmd, he, hp⟩ | ⟨hcmd, rfl, rfl⟩
    · obtain ⟨cmd, ssid, pass⟩ := c
      obtain ⟨rfl, hmin, hmax, hnul, hpass⟩ := parseWifi_iff.mp hp
      obtain rfl : cmd = improvCmdWifi := he.trans hcmd
      rw [hcmd]
      exact Packet.wifi hmin hmax hnul hpass
    · exact Packet.bare hcmd
  · intro h
    cases h with
    | bare hcmd =>
      rw [improvParse_packet (by decide)]
      exact improvBody_iff.mpr (Or.inr ⟨hcmd, rfl, rfl⟩)
    | @wifi ssid pass hmin hmax hnul hpass =>
      have hp := hpass.length_le
      rw [improvParse_packet (by rw [wifiData_length]; omega)]
      exact improvBody_iff.mpr (Or.inl ⟨rfl, rfl, parseWifi_iff.mpr ⟨rfl, hmin, hmax, hnul, hpass⟩⟩)

/-- A command has one packet. -/
theorem Packet.unique {buf buf' : List UInt8} {c : ImprovCmd} (h : Packet buf c)
    (h' : Packet buf' c) : buf = buf' := by
  cases h with
  | bare hcmd =>
    cases h' with
    | bare _ => rfl
    | wifi hmin _ _ _ => exact absurd hmin (by decide)
  | wifi hmin _ _ _ =>
    cases h' with
    | bare _ => exact absurd hmin (by decide)
    | wifi _ _ _ _ => rfl

/-- A packet has one command. -/
theorem Packet.same {buf : List UInt8} {c c' : ImprovCmd} (h : Packet buf c) (h' : Packet buf c') :
    c = c' := by
  have := (improvParse_iff.mpr h).symm.trans (improvParse_iff.mpr h')
  exact Except.ok.inj this

/-! ## The accesses -/

/-- `struct improv_cmd`. -/
structure ImprovMem where
  cmd : UInt8
  ssid : Arr UInt8 33
  pass : Arr UInt8 64

/-- What a caller reads from the struct; the strings only of a `WIFI` command. -/
def ImprovMem.value (m : ImprovMem) : ImprovCmd :=
  if m.cmd = improvCmdWifi then ⟨m.cmd, cstr m.ssid.1, cstr m.pass.1⟩ else ⟨m.cmd, [], []⟩

/-- `parse_wifi`: the number and the struct. -/
def parseWifiAt (d : List UInt8) (c : ImprovMem) : Option (UInt8 × ImprovMem) :=
  if d.length < 2 then some (improvErrInvalid, c)
  else do
    let sl := (← d[0]?).toNat
    if sl = 0 ∨ sl > 32 ∨ 1 + sl + 1 > d.length then some (improvErrInvalid, c)
    else do
      let pl := (← d[1 + sl]?).toNat
      if 2 + sl + pl ≠ d.length then some (improvErrInvalid, c)
      else do
        let pass ← slice? d (2 + sl) pl
        let ssid ← slice? d 1 sl
        if !validPass pass ∨ ssid.contains 0 then some (improvErrInvalid, c)
        else do
          let ssid ← store? c.ssid 0 (ssid ++ [0])
          let pass ← store? c.pass 0 (pass ++ [0])
          some (0, { c with ssid := ssid, pass := pass })

/-- The commands of `improv_parse`, with the data and the command in the struct. -/
def improvBodyAt (d : List UInt8) (c : ImprovMem) : Option (UInt8 × ImprovMem) :=
  if c.cmd = improvCmdWifi then parseWifiAt d c
  else if c.cmd = improvCmdIdentify ∨ c.cmd = improvCmdInfo then
    some (if d.length ≠ 0 then improvErrInvalid else 0, c)
  else some (improvErrUnknown, c)

/-- `improv_parse`: the number and the struct. -/
def improvParseAt (buf : List UInt8) (c : ImprovMem) : Option (UInt8 × ImprovMem) :=
  if buf.length < 3 then some (1, c)
  else do
    let dl := (← buf[1]?).toNat
    if buf.length < dl + 3 then some (1, c)
    else if buf.length > dl + 3 then some (improvErrInvalid, c)
    else do
      let sum := checksum (← slice? buf 0 (dl + 2))
      if sum ≠ (← buf[dl + 2]?) then some (improvErrInvalid, c)
      else do
        let cmd ← buf[0]?
        improvBodyAt (← slice? buf 2 dl) { c with cmd := cmd }

/-- The struct holds the command: its strings, each with the NUL behind it. -/
def ImprovMem.Holds (m : ImprovMem) (c : ImprovCmd) : Prop :=
  m.cmd = c.cmd ∧
    (c.cmd = improvCmdWifi → (∃ x, m.ssid.1 = c.ssid ++ 0 :: x) ∧ ∃ x, m.pass.1 = c.pass ++ 0 :: x)

/-- `parse_wifi` with its accesses: what `parseWifi` says, and the strings in the struct. -/
theorem parseWifiAt_eq (d : List UInt8) (c : ImprovMem) :
    (∃ e, parseWifi d = .error e ∧ e ≠ 0 ∧ parseWifiAt d c = some (e, c)) ∨
      ∃ ssid pass m, parseWifi d = .ok (ssid, pass) ∧ parseWifiAt d c = some (0, m) ∧
        m.cmd = c.cmd ∧ (∃ x, m.ssid.1 = ssid ++ 0 :: x) ∧ ∃ x, m.pass.1 = pass ++ 0 :: x := by
  have hne : improvErrInvalid ≠ 0 := by decide
  by_cases h2 : d.length < 2
  · refine Or.inl ⟨improvErrInvalid, ?_, hne, ?_⟩
    · unfold parseWifi
      dsimp only
      rw [if_pos h2]
    · unfold parseWifiAt
      rw [if_pos h2]
  · have hsl := getElem?_byte (p := d) (i := 0) (by omega)
    by_cases hs : (byte d 0).toNat = 0 ∨ (byte d 0).toNat > 32 ∨ 1 + (byte d 0).toNat + 1 > d.length
    · refine Or.inl ⟨improvErrInvalid, ?_, hne, ?_⟩
      · unfold parseWifi
        dsimp only
        rw [if_neg h2, if_pos hs]
      · unfold parseWifiAt
        simp only [if_neg h2, hsl, Option.bind_eq_bind, Option.bind_some, if_pos hs]
    · have hpl := getElem?_byte (p := d) (i := 1 + (byte d 0).toNat) (by omega)
      by_cases hlen : 2 + (byte d 0).toNat + (byte d (1 + (byte d 0).toNat)).toNat ≠ d.length
      · refine Or.inl ⟨improvErrInvalid, ?_, hne, ?_⟩
        · unfold parseWifi
          dsimp only
          rw [if_neg h2, if_neg hs, if_pos (Or.inl hlen)]
        · unfold parseWifiAt
          simp only [if_neg h2, hsl, hpl, Option.bind_eq_bind, Option.bind_some, if_neg hs,
            if_pos hlen]
      · have hpass := slice?_of_le (a := d) (i := 2 + (byte d 0).toNat)
          (n := (byte d (1 + (byte d 0).toNat)).toNat) (by omega)
        have hssid := slice?_of_le (a := d) (i := 1) (n := (byte d 0).toNat) (by omega)
        by_cases hbad : (!validPass ((d.drop (2 + (byte d 0).toNat)).take
            (byte d (1 + (byte d 0).toNat)).toNat)) = true ∨
            ((d.drop 1).take (byte d 0).toNat).contains 0 = true
        · refine Or.inl ⟨improvErrInvalid, ?_, hne, ?_⟩
          · unfold parseWifi
            dsimp only
            rw [if_neg h2, if_neg hs, if_pos (Or.inr hbad)]
          · unfold parseWifiAt
            simp only [if_neg h2, hsl, hpl, hpass, hssid, Option.bind_eq_bind, Option.bind_some,
              if_neg hs, if_neg hlen, if_pos hbad]
        · have hok : parseWifi d = .ok ((d.drop 1).take (byte d 0).toNat,
              (d.drop (2 + (byte d 0).toNat)).take (byte d (1 + (byte d 0).toNat)).toNat) := by
            unfold parseWifi
            dsimp only
            rw [if_neg h2, if_neg hs, if_neg (not_or.mpr ⟨hlen, hbad⟩)]
          -- an SSID of 32 bytes and a passphrase of 63 leave room for the NUL
          obtain ⟨_, _, hmax, _, hphrase⟩ := parseWifi_iff.mp hok
          have hp63 := hphrase.length_le
          obtain ⟨s, hstore, hs'⟩ :=
            store?_terminated (a := c.ssid) (s := (d.drop 1).take (byte d 0).toNat)
            (by omega) 0
          obtain ⟨p, hstore', hp'⟩ := store?_terminated (a := c.pass)
            (s := (d.drop (2 + (byte d 0).toNat)).take (byte d (1 + (byte d 0).toNat)).toNat)
              (by omega) 0
          refine Or.inr ⟨_, _, { c with ssid := s, pass := p }, hok, ?_, rfl, hs', hp'⟩
          unfold parseWifiAt
          simp only [if_neg h2, hsl, hpl, hpass, hssid, Option.bind_eq_bind, Option.bind_some,
            if_neg hs, if_neg hlen, if_neg hbad, hstore, hstore']

theorem improvBodyAt_eq (d : List UInt8) (c : ImprovMem) :
    (∃ e m, improvBody c.cmd d = .error e ∧ e ≠ 0 ∧ improvBodyAt d c = some (e, m)) ∨
      ∃ v m, improvBody c.cmd d = .ok v ∧ improvBodyAt d c = some (0, m) ∧ m.Holds v := by
  unfold improvBody improvBodyAt
  by_cases hwifi : c.cmd = improvCmdWifi
  · rw [if_pos hwifi, if_pos hwifi]
    rcases parseWifiAt_eq d c with ⟨e, hp, he, hat⟩ | ⟨ssid, pass, m, hp, hat, hcmd, hssid, hpass⟩
    · rw [hp]
      exact Or.inl ⟨e, c, rfl, he, hat⟩
    · rw [hp]
      exact Or.inr ⟨⟨c.cmd, ssid, pass⟩, m, rfl, hat, hcmd, fun _ => ⟨hssid, hpass⟩⟩
  · rw [if_neg hwifi, if_neg hwifi]
    by_cases hbare : c.cmd = improvCmdIdentify ∨ c.cmd = improvCmdInfo
    · rw [if_pos hbare, if_pos hbare]
      by_cases hlen : d.length ≠ 0
      · rw [if_pos hlen, if_pos hlen]
        exact Or.inl ⟨_, c, rfl, by decide, rfl⟩
      · rw [if_neg hlen, if_neg hlen]
        exact Or.inr ⟨_, c, rfl, rfl, rfl, fun h => absurd h hwifi⟩
    · rw [if_neg hbare, if_neg hbare]
      exact Or.inl ⟨_, c, rfl, by decide, rfl⟩

/-- `improv_parse` with its accesses: what `improvParse` says, and the command in the struct. -/
theorem improvParseAt_eq (buf : List UInt8) (c : ImprovMem) :
    (∃ e m, improvParse buf = .error e ∧ e ≠ 0 ∧ improvParseAt buf c = some (e, m)) ∨
      ∃ v m, improvParse buf = .ok v ∧ improvParseAt buf c = some (0, m) ∧ m.Holds v := by
  by_cases h3 : buf.length < 3
  · refine Or.inl ⟨1, c, ?_, by decide, ?_⟩
    · unfold improvParse
      dsimp only
      rw [if_pos h3]
    · unfold improvParseAt
      rw [if_pos h3]
  · have hdl := getElem?_byte (p := buf) (i := 1) (by omega)
    by_cases hshort : buf.length < (byte buf 1).toNat + 3
    · refine Or.inl ⟨1, c, ?_, by decide, ?_⟩
      · unfold improvParse
        dsimp only
        rw [if_neg h3, if_pos hshort]
      · unfold improvParseAt
        simp only [if_neg h3, hdl, Option.bind_eq_bind, Option.bind_some, if_pos hshort]
    · by_cases hlong : buf.length > (byte buf 1).toNat + 3
      · refine Or.inl ⟨improvErrInvalid, c, ?_, by decide, ?_⟩
        · unfold improvParse
          dsimp only
          rw [if_neg h3, if_neg hshort, if_pos (Or.inl hlong)]
        · unfold improvParseAt
          simp only [if_neg h3, hdl, Option.bind_eq_bind, Option.bind_some, if_neg hshort,
            if_pos hlong]
      · have hhead := slice?_of_le (a := buf) (i := 0) (n := (byte buf 1).toNat + 2) (by omega)
        have hlast := getElem?_byte (p := buf) (i := (byte buf 1).toNat + 2) (by omega)
        rw [List.drop_zero] at hhead
        by_cases hsum : checksum (buf.take ((byte buf 1).toNat + 2)) ≠ byte
          buf ((byte buf 1).toNat + 2)
        · refine Or.inl ⟨improvErrInvalid, c, ?_, by decide, ?_⟩
          · unfold improvParse
            dsimp only
            rw [if_neg h3, if_neg hshort, if_pos (Or.inr hsum)]
          · unfold improvParseAt
            simp only [if_neg h3, hdl, hhead, hlast, Option.bind_eq_bind, Option.bind_some,
              if_neg hshort, if_neg hlong, if_pos hsum]
        · have hcmd := getElem?_byte (p := buf) (i := 0) (by omega)
          have hdata := slice?_of_le (a := buf) (i := 2) (n := (byte buf 1).toNat) (by omega)
          have hparse : improvParse buf = improvBody (byte buf 0)
              ((buf.drop 2).take (byte buf 1).toNat) := by
            have hlen : ((buf.drop 2).take (byte buf 1).toNat).length = (byte buf 1).toNat :=
              slice?_length hdata
            unfold improvParse improvBody
            dsimp only
            rw [if_neg h3, if_neg hshort, if_neg (not_or.mpr ⟨hlong, hsum⟩), hlen] <;> rfl
          have hat : improvParseAt buf c =
              improvBodyAt ((buf.drop 2).take (byte buf 1).toNat) { c with cmd := byte buf 0 } := by
            unfold improvParseAt
            simp only [if_neg h3, hdl, hhead, hlast, Option.bind_eq_bind, Option.bind_some,
              if_neg hshort, if_neg hlong, if_neg hsum, hcmd, hdata]
          rw [hparse, hat]
          exact improvBodyAt_eq _ { c with cmd := byte buf 0 }

theorem cstr_nul {s : List UInt8} (h : 0 ∉ s) (x : List UInt8) : cstr (s ++ 0 :: x) = s := by
  unfold cstr
  rw [List.takeWhile_append_of_pos]
  · rw [List.takeWhile_cons_of_neg (by simp), List.append_nil]
  · intro b hb
    have : b ≠ 0 := fun e => h (e ▸ hb)
    simpa using this

theorem Passphrase.nul {p : List UInt8} (h : Passphrase p) : 0 ∉ p := by
  rcases h with rfl | ⟨_, _, hall⟩
  · exact List.not_mem_nil
  · intro hmem
    exact absurd (hall 0 hmem).1 (by decide)

/-- A caller reads the command that the struct holds. -/
theorem ImprovMem.Holds.value {m : ImprovMem} {buf : List UInt8} {c : ImprovCmd} (h : m.Holds c)
    (hc : Packet buf c) : m.value = c := by
  obtain ⟨hcmd, hstr⟩ := h
  unfold ImprovMem.value
  cases hc with
  | bare hbare =>
    have hwifi : m.cmd ≠ improvCmdWifi := by
      rw [hcmd]
      rcases hbare with rfl | rfl <;> decide
    rw [if_neg hwifi, hcmd]
  | wifi _ _ hnul hpass =>
    obtain ⟨⟨x, hssid⟩, ⟨y, hphrase⟩⟩ := hstr rfl
    rw [if_pos hcmd, hssid, hphrase, cstr_nul hnul, cstr_nul hpass.nul, hcmd]

/-- **The parser in memory.** `improv_parse` makes no access outside the string and the struct, for
any string; it returns 0 exactly on the packets of the grammar, the struct then holds the command
that the packet says, and two strings with the same result are the same. -/
theorem improv_grammar (buf : List UInt8) (m : ImprovMem) :
    ∃ r m', improvParseAt buf m = some (r, m') ∧ (r = 0 ↔ ∃ c, Packet buf c) ∧
      (∀ c, Packet buf c → m'.Holds c) ∧
      ∀ buf₂ m₂ m₂', r = 0 → improvParseAt buf₂ m₂ = some (0, m₂') → m₂'.value = m'.value →
        buf₂ = buf := by
  rcases improvParseAt_eq buf m with ⟨e, m', hp, he, hat⟩ | ⟨v, m', hp, hat, hv⟩
  · have hnone : ∀ c, ¬ Packet buf c := by
      intro c hc
      rw [improvParse_iff.mpr hc] at hp
      cases hp
    refine ⟨e, m', hat, ⟨fun h => absurd h he, ?_⟩, fun c hc => absurd hc (hnone c),
      fun _ _ _ h => absurd h he⟩
    rintro ⟨c, hc⟩
    exact absurd hc (hnone c)
  · have hpkt := improvParse_iff.mp hp
    refine ⟨0, m', hat, ⟨fun _ => ⟨v, hpkt⟩, fun _ => rfl⟩, fun c hc => hc.same hpkt ▸ hv, ?_⟩
    intro buf₂ m₂ m₂' _ hat₂ hsame
    rcases improvParseAt_eq buf₂ m₂ with ⟨e, m₃, _, he, hat₃⟩ | ⟨v₂, m₃, hp₂, hat₃, hv₂⟩
    · cases hat₃.symm.trans hat₂
      exact absurd rfl he
    · cases hat₃.symm.trans hat₂
      have hpkt₂ := improvParse_iff.mp hp₂
      rw [hv₂.value hpkt₂, hv.value hpkt] at hsame
      exact (hsame ▸ hpkt₂).unique hpkt

end Esp32S31.BleHa
