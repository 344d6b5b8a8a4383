import Esp32S31.Lib.Counted
import Esp32S31.BleHa.Frames
import Esp32S31.BleHa.Grammar

/-!
# The result of an Improv command

`improv_result` on the buffer that it writes, with every access checked (`Lib.Slice`):
`improvResultAt` takes the strings in memory, each up to its NUL. `improvResultAt_eq` takes it back
to `improvResult`, and `resultStrings_eq` says which strings the data consists of
(`Lib.Counted`).

* **`improv_result_packet`**: whatever the strings are, a packet of at most 61 bytes.
* `info_result`: what the command `INFO` reports. A device name of more than 38 bytes is left out.
-/

namespace Esp32S31.BleHa

open Esp32S31.Lib Esp32S31.Lib.Slice Prog

/-! ## `improv_result` in memory -/

/-- `strlen`, with the memory from the string on. -/
def strlen? (m : List UInt8) : Option Nat := if 0 ∈ m then some (cstr m).length else none

/-- The loop of `improv_result`. -/
def resultLoop {n : Nat} : Arr UInt8 n → Nat → List (List UInt8) → Option (Arr UInt8 n × Nat)
  | buf, pos, [] => some (buf, pos)
  | buf, pos, m :: ms => do
    let l ← strlen? m
    if l > 40 ∨ pos + 1 + l > 60 then some (buf, pos)
    else do
      let buf ← store? buf pos [.ofNat l]
      let d ← slice? m 0 l
      let buf ← store? buf (pos + 1) d
      resultLoop buf (pos + 1 + l) ms

/-- `improv_result`: the buffer and the length of the packet. -/
def improvResultAt {n : Nat} (buf : Arr UInt8 n) (cmd : UInt8) (s : List (List UInt8)) :
    Option (Arr UInt8 n × Nat) := do
  let buf ← store? buf 0 [cmd]
  let (buf, pos) ← resultLoop buf 2 s
  let buf ← store? buf 1 [.ofNat (pos - 2)]
  let d ← slice? buf.1 0 pos
  let buf ← store? buf pos [checksum d]
  some (buf, pos + 1)

/-! ## The strings that fit -/

/-- **The strings of a result** are a prefix of the list, and all of it exactly when none is too
long and they fit together. -/
theorem resultStrings_eq {pos : Nat} (hpos : pos ≤ 60) (ss : List (List UInt8)) :
    ∃ fit, fit <+: ss ∧ resultStrings pos ss = Counted.encode fit ∧ (∀ s ∈ fit, s.length ≤ 40) ∧
      pos + (Counted.encode fit).length ≤ 60 ∧
      (fit = ss ↔ (∀ s ∈ ss, s.length ≤ 40) ∧ pos + (Counted.encode ss).length ≤ 60) := by
  induction ss generalizing pos with
  | nil => exact ⟨[], List.nil_prefix, rfl, by simp, hpos, by simpa [Counted.encode] using hpos⟩
  | cons s ss ih =>
    unfold resultStrings
    by_cases hstop : s.length > 40 ∨ pos + 1 + s.length > 60
    · refine ⟨[], List.nil_prefix, if_pos hstop, by simp, hpos, ?_⟩
      constructor
      · intro h
        cases h
      · rintro ⟨hall, hfit⟩
        have hs := hall s List.mem_cons_self
        rw [Counted.length_encode_cons] at hfit
        omega
    · obtain ⟨fit, hprefix, heq, hle, hfit, hiff⟩ := ih (show pos + 1 + s.length ≤ 60 by omega)
      have hs : s.length ≤ 40 := by omega
      rw [if_neg hstop, heq]
      refine ⟨s :: fit, (List.prefix_cons_inj s).mpr hprefix, rfl, ?_, ?_, ?_⟩
      · exact List.forall_mem_cons.mpr ⟨hs, hle⟩
      · rw [Counted.length_encode_cons]
        omega
      · rw [List.cons_inj_right, hiff, List.forall_mem_cons, Counted.length_encode_cons]
        simp only [hs, true_and, Nat.add_assoc]

/-! ## The buffer -/

theorem strlen?_eq {m : List UInt8} (hnul : 0 ∈ m) : strlen? m = some (cstr m).length := if_pos hnul

/-- `memcpy` of a string. -/
theorem slice?_cstr (m : List UInt8) : slice? m 0 (cstr m).length = some (cstr m) := by
  have h := slice?_left (cstr m) (m.dropWhile (· ≠ 0))
  unfold cstr at h ⊢
  rwa [List.takeWhile_append_dropWhile] at h

/-- A string behind its length. -/
theorem store?_counted {n pos : Nat} {buf : Arr UInt8 n} {p x s : List UInt8}
    (hbuf : buf.1 = p ++ x) (hp : p.length = pos) (h : pos + 1 + s.length ≤ n) :
    ∃ b buf', store? buf pos [.ofNat s.length] = some b ∧ store? b (pos + 1) s = some buf' ∧
      buf'.1 = (p ++ .ofNat s.length :: s) ++ x.drop (1 + s.length) := by
  obtain ⟨b, hlength, hb⟩ := store?_append (d := [UInt8.ofNat s.length]) hbuf hp
    (by rw [List.length_singleton]; omega)
  obtain ⟨buf', hstring, hbuf'⟩ := store?_append (i := pos + 1) (d := s) hb
    (by rw [List.length_append, List.length_singleton, hp]) h
  refine ⟨b, buf', hlength, hstring, ?_⟩
  rw [hbuf', List.drop_drop, List.length_singleton, List.append_assoc p]
  rfl

/-- The loop behind `p`: it writes the strings that fit, and the rest of the buffer stays. -/
theorem resultLoop_eq {n : Nat} (hn : 60 ≤ n) {ms : List (List UInt8)} (hnul : ∀ m ∈ ms, 0 ∈ m)
    {buf : Arr UInt8 n} {p x : List UInt8} (hbuf : buf.1 = p ++ x) {pos : Nat}
    (hp : p.length = pos) :
    ∃ d buf', d = resultStrings pos (ms.map cstr) ∧
      resultLoop buf pos ms = some (buf', pos + d.length) ∧ buf'.1 = p ++ d ++ x.drop d.length := by
  induction ms generalizing buf p x pos with
  | nil => exact ⟨[], buf, rfl, rfl, by simpa using hbuf⟩
  | cons m ms ih =>
    unfold resultLoop
    simp only [strlen?_eq (hnul m List.mem_cons_self), slice?_cstr, Option.bind_eq_bind,
      Option.bind_some, List.map_cons, resultStrings]
    generalize cstr m = s
    by_cases hstop : s.length > 40 ∨ pos + 1 + s.length > 60
    · rw [if_pos hstop, if_pos hstop]
      exact ⟨[], buf, rfl, rfl, by simpa using hbuf⟩
    · obtain ⟨b, b', hlength, hstring, hb'⟩ := store?_counted (s := s) hbuf hp (by omega)
      have hlen : (p ++ UInt8.ofNat s.length :: s).length = pos + 1 + s.length := by
        rw [List.length_append, List.length_cons, hp]
        omega
      obtain ⟨d, buf', hd, hloop, hbuf'⟩ :=
        ih (fun m hm => hnul m (List.mem_cons_of_mem _ hm)) hb' hlen
      rw [if_neg hstop, if_neg hstop]
      have hcount : (UInt8.ofNat s.length :: s ++ d).length = 1 + s.length + d.length := by
        rw [List.length_append, List.length_cons]
        omega
      refine ⟨.ofNat s.length :: s ++ d, buf', by rw [hd], ?_, ?_⟩
      · simp only [hlength, hstring, Option.bind_some, hloop]
        rw [hcount, ← Nat.add_assoc, ← Nat.add_assoc]
      · rw [hbuf', List.drop_drop, hcount, List.append_assoc p]

/-- **`improv_result` in memory** writes the packet at the start of the buffer and leaves what is
behind it. -/
theorem improvResultAt_eq {n : Nat} (hn : 61 ≤ n) (buf : Arr UInt8 n) (cmd : UInt8)
    {mem : List (List UInt8)} (hnul : ∀ m ∈ mem, 0 ∈ m) :
    ∃ d buf', d = resultStrings 2 (mem.map cstr) ∧
      improvResultAt buf cmd mem = some (buf', d.length + 3) ∧
      buf'.1 = improvPacket cmd d ++ buf.1.drop (d.length + 3) := by
  obtain ⟨a, l, hl⟩ := List.exists_cons_of_length_pos (l := buf.1) (by rw [buf.2]; omega)
  have hlen : n = l.length + 1 := by rw [← buf.2, hl, List.length_cons]
  obtain ⟨x, rest, rfl⟩ := List.exists_cons_of_length_pos (l := l) (by omega)
  have hone (c : UInt8) : [c].length = 1 := rfl
  obtain ⟨b₁, hcmd, hb₁⟩ := store?_append (i := 0) (a := buf) (p := []) (d := [cmd]) hl rfl
    (by rw [hone]; omega)
  obtain ⟨d, b₂, hd, hloop, hb₂⟩ := resultLoop_eq (p := [cmd, x]) (x := rest) (by omega) hnul hb₁
    (show [cmd, x].length = 2 from rfl)
  have hfit : 2 + d.length ≤ 60 := by
    obtain ⟨_, _, henc, _, hfit, _⟩ := resultStrings_eq (show 2 ≤ 60 by decide) (mem.map cstr)
    rwa [← henc, ← hd] at hfit
  obtain ⟨b₃, hlength, hb₃⟩ := store?_append (p := [cmd]) (d := [UInt8.ofNat d.length]) hb₂
    (hone cmd) (by rw [hone]; omega)
  have hpkt : b₃.1 = (cmd :: .ofNat d.length :: d) ++ rest.drop d.length := hb₃
  have hslice := slice?_left (cmd :: UInt8.ofNat d.length :: d) (rest.drop d.length)
  have hpos : (cmd :: UInt8.ofNat d.length :: d).length = 2 + d.length := by
    simp only [List.length_cons]
    omega
  rw [← hpkt, hpos] at hslice
  obtain ⟨b₄, hsum, hb₄⟩ := store?_append
    (d := [checksum (cmd :: UInt8.ofNat d.length :: d)]) hpkt hpos (by rw [hone]; omega)
  refine ⟨d, b₄, hd, ?_, ?_⟩
  · unfold improvResultAt
    simp only [hcmd, hloop, Nat.add_sub_cancel_left, hlength, hslice, hsum, Option.bind_eq_bind,
      Option.bind_some]
    rw [show 2 + d.length + 1 = d.length + 3 by omega]
  · rw [hb₄, hl, List.drop_drop, hone]
    rfl

/-! ## The result of the GATT state -/

/-- What `set_result` leaves, whatever the notification of it does. -/
theorem setResult_result (cmd : UInt8) (strings : List (List UInt8)) (env : Nat → Answer)
    (w : World Call Daemon) :
    ((setResult cmd strings).run env w).2.st.gatt.result = improvResult cmd strings := by
  have hsame : Same (fun w : World Call Daemon => w.st.gatt.result)
      (notify gattResultValue (improvResult cmd strings)) := by
    refine notify_same ?_ _ _
    constructor <;> intros <;> rfl
  unfold setResult
  rw [run_modify]
  exact hsame env _

theorem checksum_toNat (p : List UInt8) : (checksum p).toNat = (p.map UInt8.toNat).sum % 2 ^ 8 := by
  unfold checksum
  rw [UInt8.toNat_ofNat']

/-- Command, data length, data, checksum, with the right length and the right checksum. -/
structure ResultPacket where
  cmd : UInt8
  len : UInt8
  data : List UInt8
  sum : UInt8
  length_data : len.toNat = data.length
  sum_bytes : sum.toNat = ((cmd :: len :: data).map UInt8.toNat).sum % 2 ^ 8

namespace ResultPacket

/-- The packet in memory. -/
def bytes (p : ResultPacket) : List UInt8 := p.cmd :: p.len :: p.data ++ [p.sum]

/-- The packet of a command with these data. -/
def of (cmd : UInt8) {data : List UInt8} (h : data.length < 256) : ResultPacket where
  cmd := cmd
  len := .ofNat data.length
  data := data
  sum := checksum (cmd :: .ofNat data.length :: data)
  length_data := toNat_ofNat_lt h
  sum_bytes := checksum_toNat _

theorem bytes_of (cmd : UInt8) {data : List UInt8} (h : data.length < 256) :
    (of cmd h).bytes = improvPacket cmd data := rfl

end ResultPacket

/-- **The packet of a result.** For any strings, `improv_result` writes a packet of at most 61 bytes
and leaves the rest of the buffer. Its data are the first of the strings, each behind its length,
and all of them exactly when none has more than 40 bytes and the packet without its checksum has at
most 60. `set_result` leaves this packet in the GATT state. -/
theorem improv_result_packet {n : Nat} (hn : 61 ≤ n) (buf : Arr UInt8 n) (cmd : UInt8)
    (mem : List (List UInt8)) (hnul : ∀ m ∈ mem, 0 ∈ m) :
    ∃ (p : ResultPacket) (buf' : Arr UInt8 n) (fit : List (List UInt8)), p.cmd = cmd ∧
      improvResultAt buf cmd mem = some (buf', p.bytes.length) ∧ p.bytes.length ≤ 61 ∧
      buf'.1 = p.bytes ++ buf.1.drop p.bytes.length ∧
      Counted.decode p.data = some fit ∧ fit <+: mem.map cstr ∧
      (fit = mem.map cstr ↔ (∀ s ∈ mem.map cstr, s.length ≤ 40) ∧
        2 + ((mem.map cstr).map fun s => 1 + s.length).sum ≤ 60) ∧
      ∀ env w, ((setResult cmd (mem.map cstr)).run env w).2.st.gatt.result = p.bytes := by
  obtain ⟨data, buf', hdata, hat, hbuf'⟩ := improvResultAt_eq hn buf cmd hnul
  obtain ⟨fit, hprefix, henc, hle, hfit, hall⟩ :=
    resultStrings_eq (show 2 ≤ 60 by decide) (mem.map cstr)
  rw [← hdata] at henc
  rw [← henc] at hfit
  have hlt : data.length < 256 := by omega
  have hlen : (ResultPacket.of cmd hlt).bytes.length = data.length + 3 :=
    improvPacket_length cmd data
  refine ⟨ResultPacket.of cmd hlt, buf', fit, rfl, ?_, ?_, ?_, ?_, hprefix, ?_, ?_⟩
  · rw [hlen, hat]
  · omega
  · rw [hlen, hbuf', ResultPacket.bytes_of]
  · have hsmall : ∀ s ∈ fit, s.length < 256 := fun s hs => by
      have := hle s hs
      omega
    exact henc ▸ Counted.decode_encode hsmall
  · rw [hall, Counted.length_encode]
  · intro env w
    rw [setResult_result, ResultPacket.bytes_of, hdata]
    rfl

/-- A string that fits and one that is too long, in the 64 bytes of the GATT state. -/
theorem improv_result_packet_name : ∃ (p : ResultPacket) (buf' : Arr UInt8 64)
    (fit : List (List UInt8)),
    improvResultAt ⟨List.replicate 64 0, rfl⟩ improvCmdInfo
      [str "ESP32-S31" ++ [0], List.replicate 63 0x61 ++ [0]] = some (buf', p.bytes.length) ∧
    p.bytes.length ≤ 61 ∧ Counted.decode p.data = some fit ∧
    fit <+: [str "ESP32-S31", List.replicate 63 0x61] := by
  obtain ⟨p, buf', fit, _, hat, hle, _, hdecode, hprefix, _⟩ :=
    improv_result_packet (by decide) ⟨List.replicate 64 0, rfl⟩ improvCmdInfo
      [str "ESP32-S31" ++ [0], List.replicate 63 0x61 ++ [0]] (by decide)
  exact ⟨p, buf', fit, hat, hle, hdecode, hprefix⟩

/-! ## The command `INFO` -/

/-- The strings of `INFO` that fit, with the device name `name`. -/
theorem resultStrings_info (name : List UInt8) :
    resultStrings 2 [str "ble-ha", str "1", str "ESP32-S31", name] =
      Counted.encode ([str "ble-ha", str "1", str "ESP32-S31"] ++
        if name.length ≤ 38 then [name] else []) := by
  have hble : (str "ble-ha").length = 6 := by decide
  have hone : (str "1").length = 1 := by decide
  have hchip : (str "ESP32-S31").length = 9 := by decide
  by_cases hname : name.length ≤ 38
  · simp [resultStrings, Counted.encode, hble, hone, hchip, hname,
      show ¬ 40 < name.length by omega, show ¬ 60 < 21 + 1 + name.length by omega]
  · simp [resultStrings, Counted.encode, hble, hone, hchip, hname,
      show 40 < name.length ∨ 60 < 22 + name.length by omega]

/-- **What `INFO` reports**: the name of the device only when it has at most 38 bytes. -/
theorem info_result {c : ImprovCmd} (hc : c.cmd = improvCmdInfo) (env : Nat → Answer)
    (w : World Call Daemon) :
    ∃ data, ((improvCommand c).run env w).2.st.gatt.result = improvPacket improvCmdInfo data ∧
      Counted.decode data = some ([str "ble-ha", str "1", str "ESP32-S31"] ++
        if w.st.name.length ≤ 38 then [w.st.name] else []) := by
  refine ⟨resultStrings 2 [str "ble-ha", str "1", str "ESP32-S31", w.st.name], ?_, ?_⟩
  · unfold improvCommand
    rw [run_call, run_get, hc, if_neg (by decide), if_neg (by decide), when_pos rfl,
      setResult_result]
    rfl
  · rw [resultStrings_info]
    refine Counted.decode_encode ?_
    by_cases hname : w.st.name.length ≤ 38
    · rw [if_pos hname]
      simp [str]
      omega
    · rw [if_neg hname]
      decide

end Esp32S31.BleHa
