import Mathlib.Data.List.TakeDrop
import Esp32S31.Lib.Slice
import Esp32S31.BleHa.Batches
import Esp32S31.BleHa.Grammar

/-!
# The advertising reports of an event

`Announces ev ads`: the event `ev` announces at least the reports `ads` and has them, complete.
`advReports_reports` and `advReports_longest` say that `hci_parse_adv_reports` finds the longest
such list.

`hciParseAdvReportsAt` is the function once more, with every access to the event and to the entries
checked (`Lib.Slice`); `hciParseAdvReportsAt_eq` takes it back to `hciParseAdvReports`.
**`adv_reports`** is the function on any event, and on an event made from a list of reports.
-/

namespace Esp32S31.BleHa

open Esp32S31.Lib.Slice

/-! ## Reports as bytes -/

/-- An address in the byte order of the air. -/
def addrBytes (addr : Nat) : List UInt8 := [0, 1, 2, 3, 4, 5].map fun b => UInt8.ofNat
  (addr / 256 ^ b)

/-- A report as the kernel reads it: type, address type, address, data length, data, RSSI. -/
def reportBytes (type : UInt8) (a : Adv) : List UInt8 :=
  type :: a.addrType :: (addrBytes a.addr ++ UInt8.ofNat a.data.length ::
    (a.data ++ [a.rssi.toUInt8]))

/-- An event with these reports: event code, length, subevent, their number. -/
def advEvent (len : UInt8) (rs : List (UInt8 × Adv)) : List UInt8 :=
  0x3e :: len :: 0x02 :: UInt8.ofNat rs.length :: rs.flatMap fun r => reportBytes r.1 r.2

/-- The string begins with these reports, each of at most 31 bytes of data. -/
inductive Reports : List UInt8 → List Adv → Prop
  | nil (p : List UInt8) : Reports p []
  | cons (type : UInt8) {a : Adv} {p : List UInt8} {ads : List Adv} (ha : a.Valid)
      (h : Reports p ads) : Reports (reportBytes type a ++ p) (a :: ads)

/-- The event announces these reports, and maybe more, and has them. -/
inductive Announces : List UInt8 → List Adv → Prop
  | none (ev : List UInt8) : Announces ev []
  | some (len n : UInt8) {p : List UInt8} {ads : List Adv} (hn : ads.length ≤ n.toNat)
      (h : Reports p ads) : Announces (0x3e :: len :: 0x02 :: n :: p) ads

theorem byte_drop_add (p : List UInt8) (k i : Nat) : byte (p.drop k) i = byte p (k + i) := by
  unfold byte
  rw [List.getD_eq_getElem?_getD, List.getD_eq_getElem?_getD, List.getElem?_drop]

/-- A string is its nine first bytes and the rest. -/
theorem split_nine {p : List UInt8} (h : 9 ≤ p.length) :
    p = byte p 0 :: byte p 1 :: byte p 2 :: byte p 3 :: byte p 4 :: byte p 5 :: byte p 6 ::
      byte p 7 :: byte p 8 :: p.drop 9 := by
  match p, h with
  | _ :: _ :: _ :: _ :: _ :: _ :: _ :: _ :: _ :: _, _ => rfl

theorem address_addrBytes {addr : Nat} (h : addr < 2 ^ 48) (x : UInt8) (y : UInt8)
    (rest : List UInt8) : address (x :: y :: (addrBytes addr ++ rest)) 2 = addr := by
  have hb (b : Nat) : byte (x :: y :: (addrBytes addr ++ rest)) (2 + b) =
      byte (addrBytes addr ++ rest) b := byte_drop_add _ 2 b ▸ rfl
  simp only [address, List.foldl_cons, List.foldl_nil, hb]
  simp only [addrBytes, List.map_cons, List.map_nil, byte, List.cons_append, List.nil_append,
    List.getD_cons_succ, List.getD_cons_zero, UInt8.toNat_ofNat']
  omega

theorem addrBytes_address (p : List UInt8) : addrBytes (address p 2) =
    [byte p 2, byte p 3, byte p 4, byte p 5, byte p 6, byte p 7] := by
  have hb (i : Nat) := (byte p i).toNat_lt
  have h2 := hb 2
  have h3 := hb 3
  have h4 := hb 4
  have h5 := hb 5
  have h6 := hb 6
  have h7 := hb 7
  simp only [addrBytes, address, List.foldl_cons, List.foldl_nil, List.map_cons, List.map_nil,
    List.cons.injEq, and_true, ← UInt8.toNat_inj, UInt8.toNat_ofNat', Nat.reduceAdd]
  refine ⟨?_, ?_, ?_, ?_, ?_, ?_⟩ <;> omega

theorem address_drop (p : List UInt8) (k i : Nat) : address (p.drop k) i = address p (k + i) := by
  simp only [address, List.foldl_cons, List.foldl_nil, byte_drop_add, Nat.add_assoc]

/-! ## The longest list -/

/-- The report at `pos`. -/
def reportAt (ev : List UInt8) (pos : Nat) : Adv where
  addr := address ev (pos + 2)
  addrType := byte ev (pos + 1)
  rssi := (byte ev (pos + 9 + (byte ev (pos + 8)).toNat)).toInt8
  data := (ev.drop (pos + 9)).take (byte ev (pos + 8)).toNat

/-- The report at `pos` is cut or too long. -/
def Cut (ev : List UInt8) (pos : Nat) : Prop :=
  pos + 9 > ev.length ∨ (byte ev (pos + 8)).toNat > advMax ∨
    pos + 10 + (byte ev (pos + 8)).toNat > ev.length

instance (ev : List UInt8) (pos : Nat) : Decidable (Cut ev pos) :=
  inferInstanceAs (Decidable (_ ∨ _))

theorem advReports_succ (ev : List UInt8) (n pos : Nat) : advReports ev (n + 1) pos =
    if Cut ev pos then []
    else reportAt ev pos :: advReports ev n (pos + 10 + (byte ev (pos + 8)).toNat) := rfl

theorem reportAt_valid {ev : List UInt8} {pos : Nat} (h : ¬ Cut ev pos) :
    (reportAt ev pos).Valid := by
  unfold Cut at h
  refine ⟨address_lt ev _, ?_⟩
  have : (reportAt ev pos).data.length ≤ (byte ev (pos + 8)).toNat := List.length_take_le _ _
  omega

theorem reportBytes_append (type : UInt8) (a : Adv) (p : List UInt8) : reportBytes type a ++ p =
    type :: a.addrType :: (addrBytes a.addr ++ UInt8.ofNat a.data.length ::
      (a.data ++ a.rssi.toUInt8 :: p)) := by
  simp only [reportBytes, List.cons_append, List.append_assoc, List.nil_append]

/-- A report that is not cut, and what is behind it. -/
theorem drop_eq_reportBytes {ev : List UInt8} {pos : Nat} (h : ¬ Cut ev pos) :
    ev.drop pos = reportBytes (byte ev pos) (reportAt ev pos) ++
      ev.drop (pos + 10 + (byte ev (pos + 8)).toNat) := by
  unfold Cut at h
  rw [not_or, not_or] at h
  obtain ⟨_, _, hfit⟩ := h
  have hlen : UInt8.ofNat (reportAt ev pos).data.length = byte ev (pos + 8) := by
    have : (reportAt ev pos).data.length = (byte ev (pos + 8)).toNat := by
      unfold reportAt
      rw [List.length_take, List.length_drop]
      omega
    rw [this, UInt8.ofNat_toNat]
  have hrssi : (reportAt ev pos).rssi.toUInt8 :: ev.drop (pos + 10 + (byte ev (pos + 8)).toNat) =
      (ev.drop (pos + 9)).drop (byte ev (pos + 8)).toNat := by
    have hlt : pos + 9 + (byte ev (pos + 8)).toNat < ev.length := by omega
    have hget := getElem?_byte hlt
    rw [List.getElem?_eq_getElem hlt, Option.some.injEq] at hget
    rw [List.drop_drop, List.drop_eq_getElem_cons hlt, hget]
    unfold reportAt
    rw [UInt8.toUInt8_toInt8]
    congr 2
    omega
  have hdata : (reportAt ev pos).data ++ (ev.drop (pos + 9)).drop (byte ev (pos + 8)).toNat =
      ev.drop (pos + 9) := List.take_append_drop _ _
  have haddr := addrBytes_address (ev.drop pos)
  have hnine := split_nine (p := ev.drop pos) (by rw [List.length_drop]; omega)
  rw [address_drop] at haddr
  simp only [byte_drop_add, List.drop_drop] at hnine haddr
  have haddr' : addrBytes (reportAt ev pos).addr = _ := haddr
  rw [reportBytes_append, hrssi, hdata, hlen, haddr']
  exact hnine

/-- Where a report stands, it is found. -/
theorem reportAt_of_drop {ev p : List UInt8} {pos : Nat} {type : UInt8} {a : Adv} (ha : a.Valid)
    (h : ev.drop pos = reportBytes type a ++ p) : ¬ Cut ev pos ∧ reportAt ev pos = a ∧
      ev.drop (pos + 10 + (byte ev (pos + 8)).toNat) = p := by
  obtain ⟨haddr, hdata⟩ := ha
  unfold advMax at hdata
  have hbyte (i : Nat) : byte ev (pos + i) = byte (reportBytes type a ++ p) i := by
    rw [← h, byte_drop_add]
  have hdrop (i : Nat) : ev.drop (pos + i) = (reportBytes type a ++ p).drop i := by
    rw [← h, List.drop_drop]
  have hlen : (byte ev (pos + 8)).toNat = a.data.length := by
    rw [hbyte, reportBytes_append]
    exact toNat_ofNat_lt (by omega)
  have hnine : ev.drop (pos + 9) = a.data ++ a.rssi.toUInt8 :: p := by
    rw [hdrop, reportBytes_append]
    rfl
  have hsize : ev.length = pos + 10 + a.data.length + p.length := by
    have := congrArg List.length hnine
    simp only [List.length_drop, List.length_append, List.length_cons] at this
    omega
  refine ⟨?_, ?_, ?_⟩
  · unfold Cut advMax
    omega
  · unfold reportAt
    have haddr' : address ev (pos + 2) = a.addr := by
      rw [← address_drop, h, reportBytes_append]
      exact address_addrBytes haddr _ _ _
    have htype : byte ev (pos + 1) = a.addrType := by
      rw [hbyte, reportBytes_append]
      rfl
    have hrssi : byte ev (pos + 9 + a.data.length) = a.rssi.toUInt8 := by
      rw [← byte_drop_add, hnine, byte_at]
    rw [hlen, hnine, haddr', htype, hrssi, List.take_left, Int8.toInt8_toUInt8]
  · rw [hlen, show pos + 10 + a.data.length = pos + 9 + (a.data.length + 1) by omega,
      ← List.drop_drop, hnine, ← List.drop_drop, List.drop_left]
    rfl

/-- The reports that are found are there. -/
theorem advReports_reports (ev : List UInt8) (n pos : Nat) :
    Reports (ev.drop pos) (advReports ev n pos) := by
  induction n generalizing pos with
  | zero => exact Reports.nil _
  | succ n ih =>
    rw [advReports_succ]
    by_cases hcut : Cut ev pos
    · rw [if_pos hcut]
      exact Reports.nil _
    · rw [if_neg hcut, drop_eq_reportBytes hcut]
      exact Reports.cons _ (reportAt_valid hcut) (ih _)

/-- All that are there are found, as far as they may be. -/
theorem advReports_longest {ev p : List UInt8} {ads : List Adv} (h : Reports p ads) :
    ∀ {n pos : Nat}, ev.drop pos = p → ads.length ≤ n → ads <+: advReports ev n pos := by
  induction h with
  | nil p =>
    intro n pos _ _
    exact List.nil_prefix
  | cons type ha h ih =>
    intro n pos hdrop hn
    rw [List.length_cons] at hn
    obtain ⟨n, rfl⟩ : ∃ k, n = k + 1 := ⟨n - 1, by omega⟩
    obtain ⟨hcut, hat, hrest⟩ := reportAt_of_drop ha hdrop
    rw [advReports_succ, if_neg hcut, hat, List.prefix_cons_inj]
    exact ih hrest (by omega)

theorem advReports_length (ev : List UInt8) (n pos : Nat) : (advReports ev n pos).length ≤ n := by
  induction n generalizing pos with
  | zero => exact Nat.le_refl 0
  | succ n ih =>
    rw [advReports_succ]
    split
    · exact Nat.zero_le _
    · rw [List.length_cons]
      exact Nat.succ_le_succ (ih _)

/-! ## The accesses -/

/-- `struct adv`. -/
structure AdvMem where
  addr : UInt64
  addrType : UInt8
  rssi : Int8
  len : UInt8
  data : Arr UInt8 advMax

/-- The report that the struct holds. -/
def AdvMem.value (m : AdvMem) : Adv := ⟨m.addr.toNat, m.addrType, m.rssi, m.data.1.take m.len.toNat⟩

/-- The loop over the bytes of the address. -/
def addressAt (ev : List UInt8) (pos : Nat) : List Nat → UInt64 → Option UInt64
  | [], addr => some addr
  | b :: bs, addr => do
    let x ← ev[pos + 2 + b]?
    addressAt ev pos bs (addr <<< 8 ||| x.toUInt64)

/-- What the loop of `hci_parse_adv_reports` writes to an entry. -/
def writeEntryAt (ev : List UInt8) (pos : Nat) (a : AdvMem) : Option AdvMem := do
  let addrType ← ev[pos + 1]?
  let addr ← addressAt ev pos [5, 4, 3, 2, 1, 0] 0
  let len ← ev[pos + 8]?
  let data ← store? a.data 0 (← slice? ev (pos + 9) len.toNat)
  let rssi ← ev[pos + 9 + len.toNat]?
  some { addr, addrType, rssi := rssi.toInt8, len, data }

/-- The loop of `hci_parse_adv_reports` from `i` on, with `k` reports left: the number that it
returns, and the entries. -/
def advLoopAt (ev : List UInt8) (max : Int) :
    Nat → Nat → Nat → List AdvMem → Option (Nat × List AdvMem)
  | 0, i, _, out => some (i, out)
  | k + 1, i, pos, out =>
    if max ≤ i then some (i, out)
    else if pos + 9 > ev.length then some (i, out)
    else do
      let len ← ev[pos + 8]?
      if len.toNat > advMax ∨ pos + 10 + len.toNat > ev.length then some (i, out)
      else do
        let a ← writeEntryAt ev pos (← out[i]?)
        advLoopAt ev max k (i + 1) (pos + 10 + len.toNat) (out.set i a)

/-- `hci_parse_adv_reports`: the number that it returns, and the entries. -/
def hciParseAdvReportsAt (ev : List UInt8) (max : Int) (out : List AdvMem) :
    Option (Nat × List AdvMem) :=
  if ev.length < 4 then some (0, out)
  else do
    if (← ev[0]?) ≠ 0x3e then some (0, out)
    else if (← ev[2]?) ≠ 0x02 then some (0, out)
    else do
      let n ← ev[3]?
      advLoopAt ev max n.toNat 0 4 out

theorem toNat_shiftLeft_or {a : UInt64} {b : UInt8} (h : a.toNat < 2 ^ 56) :
    (a <<< 8 ||| b.toUInt64).toNat = a.toNat * 256 + b.toNat := by
  have hb := b.toNat_lt
  have hor := Nat.two_pow_add_eq_or_of_lt (i := 8) hb a.toNat
  rw [Nat.mul_comm] at hor
  rw [UInt64.toNat_or, UInt64.toNat_shiftLeft, UInt8.toNat_toUInt64, Nat.shiftLeft_eq]
  rw [show (8 : UInt64).toNat % 64 = 8 from rfl, Nat.mod_eq_of_lt (by omega)]
  omega

/-- The address does not leave the word. -/
theorem addressAt_eq {ev : List UInt8} {pos : Nat} (bs : List Nat) {k : Nat} (addr : UInt64)
    (hbs : ∀ b ∈ bs, pos + 2 + b < ev.length) (hk : k + bs.length ≤ 8)
    (haddr : addr.toNat < 256 ^ k) : ∃ addr', addressAt ev pos bs addr = some addr' ∧
      addr'.toNat = bs.foldl (fun a b => a * 256 + (byte ev (pos + 2 + b)).toNat) addr.toNat := by
  induction bs generalizing k addr with
  | nil => exact ⟨addr, rfl, rfl⟩
  | cons b bs ih =>
    rw [List.length_cons] at hk
    have hlt := (byte ev (pos + 2 + b)).toNat_lt
    have hle : 256 ^ k ≤ 2 ^ 56 := by
      rw [show 2 ^ 56 = 256 ^ 7 by rfl]
      exact Nat.pow_le_pow_right (by decide) (by omega)
    have hstep := toNat_shiftLeft_or (a := addr) (b := byte ev (pos + 2 + b)) (by omega)
    have hnext : (addr <<< 8 ||| (byte ev (pos + 2 + b)).toUInt64).toNat < 256 ^ (k + 1) := by
      rw [hstep, Nat.pow_succ]
      omega
    obtain ⟨addr', hat, hval⟩ := ih _ (fun c hc => hbs c (List.mem_cons_of_mem b hc)) (by omega)
      hnext
    refine ⟨addr', ?_, ?_⟩
    · unfold addressAt
      rw [getElem?_byte (hbs b List.mem_cons_self)]
      exact hat
    · rw [hval, hstep, List.foldl_cons]

/-- An entry holds the report at `pos`, which is complete. -/
theorem writeEntryAt_eq {ev : List UInt8} {pos : Nat} (h : ¬ Cut ev pos) (a : AdvMem) :
    ∃ a', writeEntryAt ev pos a = some a' ∧ a'.value = reportAt ev pos := by
  unfold Cut at h
  rw [not_or, not_or] at h
  obtain ⟨_, hmax, hfit⟩ := h
  have htype := getElem?_byte (p := ev) (i := pos + 1) (by omega)
  have hlen := getElem?_byte (p := ev) (i := pos + 8) (by omega)
  have hrssi := getElem?_byte (p := ev) (i := pos + 9 + (byte ev (pos + 8)).toNat) (by omega)
  have hdata := slice?_of_le (a := ev) (i := pos + 9) (n := (byte ev (pos + 8)).toNat) (by omega)
  have hsize := slice?_length hdata
  have hin : ∀ b ∈ [5, 4, 3, 2, 1, 0], pos + 2 + b < ev.length := by
    intro b hb
    simp only [List.mem_cons, List.not_mem_nil, or_false] at hb
    omega
  obtain ⟨addr, haddr, hval⟩ := addressAt_eq _ (k := 0) 0 hin (by decide) (by decide)
  obtain ⟨d, hstore, hd⟩ := store?_zero (a := a.data)
    (d := (ev.drop (pos + 9)).take (byte ev (pos + 8)).toNat) (by omega)
  refine ⟨⟨addr, byte ev (pos + 1), (byte ev (pos + 9 + (byte ev (pos + 8)).toNat)).toInt8,
    byte ev (pos + 8), d⟩, ?_, ?_⟩
  · unfold writeEntryAt
    simp only [htype, haddr, hlen, hdata, hstore, hrssi, Option.bind_eq_bind, Option.bind_some]
  · unfold AdvMem.value reportAt
    simp only [Adv.mk.injEq, true_and]
    constructor
    · rw [hval]
      rfl
    · rw [hd]
      exact List.take_left' hsize

/-- The loop: the entries from `i` on, as many as reports are found, and no other. -/
theorem advLoopAt_eq (ev : List UInt8) (max : Int) (k pos : Nat) (pre rest : List AdvMem)
    (hmax : max ≤ pre.length + rest.length) :
    ∃ es, es.map AdvMem.value = advReports ev (min k (max - pre.length).toNat) pos ∧
      advLoopAt ev max k pre.length pos (pre ++ rest) =
        some (pre.length + es.length, pre ++ (es ++ rest.drop es.length)) := by
  induction k generalizing pos pre rest with
  | zero =>
    refine ⟨[], ?_, rfl⟩
    rw [Nat.zero_min]
    rfl
  | succ k ih =>
    unfold advLoopAt
    by_cases hdone : max ≤ pre.length
    · refine ⟨[], ?_, ?_⟩
      · rw [show (max - pre.length).toNat = 0 by omega, Nat.min_zero]
        rfl
      · rw [if_pos hdone]
        rfl
    · have hmin : min (k + 1) (max - pre.length).toNat =
          min k (max - ↑(pre.length + 1)).toNat + 1 := by omega
      rw [if_neg hdone, hmin, advReports_succ]
      by_cases hcut : Cut ev pos
      · -- neither test of a cut report reads outside of the event
        refine ⟨[], (if_pos hcut).symm, ?_⟩
        by_cases hshort : pos + 9 > ev.length
        · rw [if_pos hshort]
          rfl
        · have hlen := getElem?_byte (p := ev) (i := pos + 8) (by omega)
          have hbad := Or.resolve_left hcut hshort
          simp only [if_neg hshort, hlen, Option.bind_eq_bind, Option.bind_some, if_pos hbad]
          rfl
      · obtain ⟨a, rest, rfl⟩ : ∃ a r, rest = a :: r := by
          cases rest with
          | nil => exact absurd hmax (by rw [List.length_nil]; omega)
          | cons a r => exact ⟨a, r, rfl⟩
        have hfit := not_or.mp hcut
        have hlen := getElem?_byte (p := ev) (i := pos + 8) (by omega)
        have hget : (pre ++ a :: rest)[pre.length]? = some a := by
          rw [List.getElem?_append_right (Nat.le_refl _), Nat.sub_self]
          rfl
        have hset (x : AdvMem) : (pre ++ a :: rest).set pre.length x = pre ++ [x] ++ rest := by
          rw [List.set_append_right _ _ (Nat.le_refl _), Nat.sub_self, List.append_assoc]
          rfl
        obtain ⟨a', hat, hval⟩ := writeEntryAt_eq hcut a
        obtain ⟨es, hes, hloop⟩ := ih (pos + 10 + (byte ev (pos + 8)).toNat) (pre ++ [a']) rest (by
          simp only [List.length_append, List.length_cons] at hmax ⊢
          omega)
        simp only [List.length_append, List.length_singleton] at hes hloop
        refine ⟨a' :: es, ?_, ?_⟩
        · rw [if_neg hcut, List.map_cons, hval, hes]
        · simp only [if_neg hfit.1, hlen, Option.bind_eq_bind, Option.bind_some, if_neg hfit.2,
            hget, hat, hset, hloop]
          simp only [List.length_cons, List.append_assoc, List.cons_append, List.nil_append,
            List.drop_succ_cons, Nat.add_assoc, Nat.add_comm 1]

/-- `hci_parse_adv_reports` with its accesses: what `hciParseAdvReports` says, in the entries. -/
theorem hciParseAdvReportsAt_eq (ev : List UInt8) {max : Int} {out : List AdvMem}
    (hmax : max ≤ out.length) : ∃ es, es.map AdvMem.value = hciParseAdvReports ev max.toNat ∧
      hciParseAdvReportsAt ev max out = some (es.length, es ++ out.drop es.length) := by
  unfold hciParseAdvReports hciParseAdvReportsAt
  by_cases hshort : ev.length < 4
  · refine ⟨[], (if_pos (Or.inl hshort)).symm, ?_⟩
    rw [if_pos hshort]
    rfl
  · have h0 := getElem?_byte (p := ev) (i := 0) (by omega)
    have h2 := getElem?_byte (p := ev) (i := 2) (by omega)
    have h3 := getElem?_byte (p := ev) (i := 3) (by omega)
    simp only [if_neg hshort, h0, h2, h3, Option.bind_eq_bind, Option.bind_some]
    by_cases hcode : byte ev 0 ≠ 0x3e
    · refine ⟨[], (if_pos (Or.inr (Or.inl hcode))).symm, ?_⟩
      rw [if_pos hcode]
      rfl
    · by_cases hsub : byte ev 2 ≠ 0x02
      · refine ⟨[], (if_pos (Or.inr (Or.inr hsub))).symm, ?_⟩
        rw [if_neg hcode, if_pos hsub]
        rfl
      · obtain ⟨es, hes, hloop⟩ := advLoopAt_eq ev max (byte ev 3).toNat 4 [] out (by
          rw [List.length_nil]
          omega)
        rw [List.length_nil, Int.ofNat_zero, Int.sub_zero] at hes
        refine ⟨es, ?_, ?_⟩
        · rw [if_neg (not_or.mpr ⟨hshort, not_or.mpr ⟨hcode, hsub⟩⟩), hes]
        · rw [if_neg hcode, if_neg hsub]
          simpa using hloop

/-! ## Any event -/

theorem Announces.reports {ev : List UInt8} {ads : List Adv} (h : Announces ev ads)
    (hne : ads ≠ []) : 4 ≤ ev.length ∧ byte ev 0 = 0x3e ∧ byte ev 2 = 0x02 ∧
      ads.length ≤ (byte ev 3).toNat ∧ Reports (ev.drop 4) ads := by
  cases h with
  | none => exact absurd rfl hne
  | some len n hn h => exact ⟨by simp, rfl, rfl, hn, h⟩

/-- What the function finds is announced, and it is the longest list of at most `max`. -/
theorem hciParseAdvReports_longest (ev : List UInt8) (max : Nat) :
    Announces ev (hciParseAdvReports ev max) ∧ (hciParseAdvReports ev max).length ≤ max ∧
      ∀ ads, Announces ev ads → ads.length ≤ max → ads <+: hciParseAdvReports ev max := by
  unfold hciParseAdvReports
  by_cases hev : ev.length < 4 ∨ byte ev 0 ≠ 0x3e ∨ byte ev 2 ≠ 0x02
  · rw [if_pos hev]
    refine ⟨Announces.none ev, Nat.zero_le _, ?_⟩
    intro ads h _
    by_cases hne : ads = []
    · subst hne
      exact List.nil_prefix
    · obtain ⟨hlen, hcode, hsub, _⟩ := h.reports hne
      rcases hev with hev | hev | hev
      · omega
      · exact absurd hcode hev
      · exact absurd hsub hev
  · rw [if_neg hev]
    rw [not_or, not_or, not_not, not_not] at hev
    obtain ⟨hlen, hcode, hsub⟩ := hev
    have hcount := advReports_length ev (min (byte ev 3).toNat max) 4
    refine ⟨?_, by omega, ?_⟩
    · have hreports := advReports_reports ev (min (byte ev 3).toNat max) 4
      obtain ⟨a, b, c, d, p, rfl⟩ : ∃ a b c d p, ev = a :: b :: c :: d :: p := by
        match ev with
        | a :: b :: c :: d :: p => exact ⟨a, b, c, d, p, rfl⟩
        | [] | [_] | [_, _] | [_, _, _] => exact absurd (by simp) hlen
      obtain rfl : a = 0x3e := hcode
      obtain rfl : c = 0x02 := hsub
      exact Announces.some b d (Nat.le_trans hcount (Nat.min_le_left _ _)) hreports
    · intro ads h hmax
      by_cases hne : ads = []
      · subst hne
        exact List.nil_prefix
      · obtain ⟨_, _, _, hn, hreports⟩ := h.reports hne
        exact advReports_longest hreports rfl (by omega)

/-- The reports of an event that is made from them. -/
theorem advEvent_announces (len : UInt8) {rs : List (UInt8 × Adv)} (hrs : ∀ r ∈ rs, r.2.Valid)
    (hlen : rs.length ≤ 255) : Announces (advEvent len rs) (rs.map Prod.snd) := by
  have hreports : ∀ l : List (UInt8 × Adv), (∀ r ∈ l, r.2.Valid) →
      Reports (l.flatMap fun r => reportBytes r.1 r.2) (l.map Prod.snd) := by
    intro l hl
    induction l with
    | nil => exact Reports.nil _
    | cons r l ih =>
      rw [List.flatMap_cons, List.map_cons]
      exact Reports.cons r.1 (hl r List.mem_cons_self)
        (ih fun x hx => hl x (List.mem_cons_of_mem r hx))
  refine Announces.some len _ (Nat.le_of_eq ?_) (hreports rs hrs)
  rw [List.length_map, toNat_ofNat_lt (by omega)]

/-- **Advertising reports from any event.** `hci_parse_adv_reports` makes no access outside the
event and the entries, and writes no entry behind the number `r` that it returns; the first `r`
entries hold the longest list of complete reports that the event announces, at most `max`. From an
event that is made from a list of reports the list comes back. -/
theorem adv_reports {max : Int} {out : List AdvMem} (hmax : max ≤ out.length) :
    (∀ ev, ∃ r out', hciParseAdvReportsAt ev max out = some (r, out') ∧
      out'.length = out.length ∧ out'.drop r = out.drop r ∧ r ≤ max.toNat ∧
      Announces ev ((out'.take r).map AdvMem.value) ∧
      ∀ ads, Announces ev ads → ads.length ≤ max.toNat →
        ads <+: (out'.take r).map AdvMem.value) ∧
    ∀ (len : UInt8) (rs : List (UInt8 × Adv)), (∀ r ∈ rs, r.2.Valid) → rs.length ≤ 255 →
      rs.length ≤ max.toNat → ∃ out', hciParseAdvReportsAt (advEvent len rs) max out =
        some (rs.length, out') ∧ (out'.take rs.length).map AdvMem.value = rs.map Prod.snd := by
  constructor
  · intro ev
    obtain ⟨es, hes, hat⟩ := hciParseAdvReportsAt_eq ev hmax
    obtain ⟨hann, hle, hlong⟩ := hciParseAdvReports_longest ev max.toNat
    have hlen : es.length ≤ max.toNat := by
      rw [← hes, List.length_map] at hle
      exact hle
    refine ⟨es.length, es ++ out.drop es.length, hat, ?_, List.drop_left, hlen, ?_⟩
    · rw [List.length_append, List.length_drop]
      omega
    · rw [List.take_left, hes]
      exact ⟨hann, hlong⟩
  · intro len rs hrs hcount hfit
    obtain ⟨es, hes, hat⟩ := hciParseAdvReportsAt_eq (advEvent len rs) hmax
    obtain ⟨hann, hle, hlong⟩ := hciParseAdvReports_longest (advEvent len rs) max.toNat
    have hpre := hlong _ (advEvent_announces len hrs hcount) (by rw [List.length_map]; exact hfit)
    have hall : (hciParseAdvReports (advEvent len rs) max.toNat).length ≤ rs.length := by
      by_cases hne : hciParseAdvReports (advEvent len rs) max.toNat = []
      · rw [hne]
        exact Nat.zero_le _
      · obtain ⟨_, _, _, hn, _⟩ := hann.reports hne
        have hbyte : (byte (advEvent len rs) 3).toNat = rs.length := toNat_ofNat_lt (by omega)
        omega
    have heq := hpre.eq_of_length_le (by rw [List.length_map]; exact hall)
    have hcnt : es.length = rs.length := by
      have := congrArg List.length (hes.trans heq.symm)
      rwa [List.length_map, List.length_map] at this
    refine ⟨es ++ out.drop es.length, ?_, ?_⟩
    · rw [hat, hcnt]
    · rw [← hcnt, List.take_left, hes, heq]

/-- `struct adv` of zeros. -/
def AdvMem.zero : AdvMem := ⟨0, 0, 0, 0, ⟨List.replicate advMax 0, List.length_replicate⟩⟩

/-- A connectable advertisement with a random address and its flags, into two entries. -/
theorem adv_reports_flags : ∃ out', hciParseAdvReportsAt
    (advEvent 0x11 [(0x00, ⟨0x112233445566, 0x01, -60, [0x02, 0x01, 0x06]⟩)]) 2
      [AdvMem.zero, AdvMem.zero] = some (1, out') ∧
    (out'.take 1).map AdvMem.value = [⟨0x112233445566, 0x01, -60, [0x02, 0x01, 0x06]⟩] := by
  have hmax : (2 : Int) ≤ [AdvMem.zero, AdvMem.zero].length := by decide
  refine (adv_reports hmax).2 0x11 [(0x00, ⟨0x112233445566, 0x01, -60, [0x02, 0x01, 0x06]⟩)] ?_
    (by decide) (by decide)
  intro r hr
  obtain rfl := List.mem_singleton.mp hr
  constructor <;> decide

end Esp32S31.BleHa
