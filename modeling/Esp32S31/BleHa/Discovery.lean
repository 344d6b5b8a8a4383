import Esp32S31.BleHa.Gatt
import Mathlib.Logic.Basic

/-!
# Attribute discovery

A client finds the attributes of a type with Read By Type and Read By Group Type: a response lists
the next of them, and the client goes on behind the last handle. `Discovers` is what it can rely on.

**`discovery_iff`**: it can do so exactly if the first attribute of the range that has the type has
room for its whole value. Find Information lists all attributes in every case.
-/

namespace Esp32S31.BleHa

open Esp32S31.Lib

/-! ## What a client relies on -/

/-- The attributes of a range that have the type `want`, in the order of their handles. -/
def typed (want : List UInt8) (first last : Nat) : List Nat :=
  (handles first last).filter fun h => attrType h = want

/-- An entry before its value: the handle, and the end of the group. -/
def entryHead (group : Bool) (h : Nat) : List UInt8 :=
  put16 h ++ if group then put16 (groupEnd h) else []

/-- The value of an attribute that can be read. -/
def valueOf (g : Gatt) (h : Nat) : List UInt8 :=
  match attrValue g h with
  | .ok v => v
  | .error _ => []

/-- An entry: the value is only cut to the room that the two bytes at the front leave. -/
def listEntry (g : Gatt) (group : Bool) (max h : Nat) : List UInt8 :=
  entryHead group h ++ (valueOf g h).take (max - 2 - (entryHead group h).length)

/-- The response lists the next attributes, without a gap, all entries with one length; behind the
last of them are those that it does not list. -/
def Listed (g : Gatt) (group : Bool) (want : List UInt8) (max first last : Nat) (op : UInt8)
    (rsp : List UInt8) : Prop :=
  ∃ run rest len, typed want first last = run ++ rest ∧ run ≠ [] ∧
    (∀ h, run.getLast? = some h → typed want (h + 1) last = rest) ∧
    (∀ h ∈ run, (∃ v, attrValue g h = .ok v) ∧ (listEntry g group max h).length = len) ∧
    rsp = (op + 1) :: UInt8.ofNat len :: run.flatMap (listEntry g group max)

/-- Not found if there is none, the error of the first one if it cannot be read, else a list. -/
def Discovers (g : Gatt) (group : Bool) (want : List UInt8) (max first last : Nat) (op : UInt8)
    (rsp : List UInt8) : Prop :=
  match typed want first last with
  | [] => rsp = errorRsp op first errNotFound
  | h :: _ =>
    match attrValue g h with
    | .error e => rsp = errorRsp op h e
    | .ok _ => Listed g group want max first last op rsp

/-- The first attribute of the type, if it can be read, has room for its whole value. -/
def FirstFits (g : Gatt) (group : Bool) (want : List UInt8) (max first last : Nat) : Prop :=
  ∀ h v, (typed want first last).head? = some h → attrValue g h = .ok v →
    2 + (entryHead group h).length + v.length ≤ max

/-- The response of Find Information lists the next attributes, all types with one length. -/
def InfoListed (first last : Nat) (rsp : List UInt8) : Prop :=
  match handles first last with
  | [] => rsp = errorRsp 0x04 first errNotFound
  | hs => ∃ run rest len, hs = run ++ rest ∧ run ≠ [] ∧
      (∀ h, run.getLast? = some h → handles (h + 1) last = rest) ∧
      (∀ h ∈ run, (attrType h).length = len) ∧
      rsp = 0x05 :: (if len = 2 then 1 else 2) :: run.flatMap fun h => put16 h ++ attrType h

section Discovers

variable {g : Gatt} {group : Bool} {want rsp : List UInt8} {max first last h : Nat} {op : UInt8}
  {rest : List Nat}

theorem discovers_nil (ht : typed want first last = []) :
    Discovers g group want max first last op rsp ↔ rsp = errorRsp op first errNotFound := by
  unfold Discovers
  rw [ht]

theorem discovers_error (ht : typed want first last = h :: rest) {e : UInt8}
    (hv : attrValue g h = .error e) :
    Discovers g group want max first last op rsp ↔ rsp = errorRsp op h e := by
  unfold Discovers
  rw [ht]
  simp only [hv]

theorem discovers_ok (ht : typed want first last = h :: rest) {v : List UInt8}
    (hv : attrValue g h = .ok v) :
    Discovers g group want max first last op rsp ↔ Listed g group want max first last op rsp := by
  unfold Discovers
  rw [ht]
  simp only [hv]

end Discovers

/-! ## Behind the last handle -/

/-- A range is cut behind one of its handles. -/
theorem handles_split {first last h : Nat} (h1 : first ≤ h) (h2 : h < min last lastHandle + 1) :
    handles first last = List.range' first (h + 1 - first) ++ handles (h + 1) last := by
  have e : min last lastHandle + 1 - first = (h + 1 - first) +
      (min last lastHandle + 1 - (h + 1)) := by
    omega
  have e' : first + (h + 1 - first) = h + 1 := by omega
  unfold handles
  rw [e, ← List.range'_append_1, e']

/-- **Going on behind the last handle** gives the attributes that were not listed. -/
theorem filter_handles_next {p : Nat → Bool} {first last h : Nat} {run rest : List Nat}
    (hs : (handles first last).filter p = run ++ rest) (hl : run.getLast? = some h) :
    (handles (h + 1) last).filter p = rest := by
  obtain ⟨init, rfl⟩ := List.getLast?_eq_some_iff.mp hl
  have hmem : h ∈ handles first last := by
    have : h ∈ (handles first last).filter p := by
      rw [hs]
      exact List.mem_append_left _ (List.mem_append_right _ List.mem_cons_self)
    exact (List.mem_filter.mp this).1
  obtain ⟨hge, hlt⟩ := List.mem_range'_1.mp hmem
  have hsorted : ((handles first last).filter p).Pairwise (· < ·) :=
    List.Pairwise.filter _ List.pairwise_lt_range'
  -- keep what is behind `h`, on both sides
  have hkeep : ((handles first last).filter p).filter (fun x => decide (h < x)) = rest := by
    rw [hs] at hsorted ⊢
    obtain ⟨hinit, -, hrest⟩ := List.pairwise_append.mp hsorted
    obtain ⟨-, -, hinit⟩ := List.pairwise_append.mp hinit
    rw [List.filter_append, List.filter_eq_nil_iff.mpr, List.nil_append, List.filter_eq_self.mpr]
    · intro x hx
      exact decide_eq_true (hrest h (List.mem_append_right _ List.mem_cons_self) x hx)
    · intro x hx
      rw [decide_eq_true_iff, Nat.not_lt]
      rcases List.mem_append.mp hx with hx | hx
      · exact Nat.le_of_lt (hinit x hx h List.mem_cons_self)
      · exact Nat.le_of_eq (List.mem_singleton.mp hx)
  have hlt' : h < min last lastHandle + 1 := by omega
  have hlow : ((List.range' first (h + 1 - first)).filter p).filter (fun x => decide (h < x)) =
      [] := by
    refine List.filter_eq_nil_iff.mpr fun x hx => ?_
    have := (List.mem_range'_1.mp (List.mem_filter.mp hx).1).2
    rw [decide_eq_true_iff]
    omega
  rw [handles_split hge hlt', List.filter_append, List.filter_append, hlow,
    List.nil_append] at hkeep
  refine (List.filter_eq_self.mpr fun x hx => ?_).symm.trans hkeep
  exact decide_eq_true (List.mem_range'_1.mp (List.mem_filter.mp hx).1).1

/-! ## The entries of a response -/

theorem length_entryHead (group : Bool) (h : Nat) :
    (entryHead group h).length = if group then 4 else 2 := by
  cases group <;> rfl

/-- An entry that is not cut. -/
theorem listEntry_of_fits {g : Gatt} {group : Bool} {max h : Nat} {v : List UInt8}
    (hv : attrValue g h = .ok v) (hm : 2 + (entryHead group h).length + v.length ≤ max) :
    listEntry g group max h = entryHead group h ++ v := by
  have hval : valueOf g h = v := by rw [valueOf, hv]
  rw [listEntry, hval, List.take_of_length_le (by omega)]

/-- **The loop of `read_by_type` behind the first entry**: entries of its length, as many as follow.
-/
theorem readEntries_run (g : Gatt) (group : Bool) (want : List UInt8) (max : Nat) {len : Nat}
    (hlen : len ≠ 0)
    (hs : List Nat) (acc : List UInt8) :
    ∃ run rest, hs.filter (fun h => attrType h = want) = run ++ rest ∧
      (∀ h ∈ run, (∃ v, attrValue g h = .ok v) ∧ (listEntry g group max h).length = len) ∧
      readEntries g group want max hs acc len = .ok (acc ++ run.flatMap (listEntry g group max),
        len) := by
  induction hs generalizing acc with
  | nil =>
    exact ⟨[], [], rfl, fun _ h =>
      (List.not_mem_nil h).elim, by rw [List.flatMap_nil, List.append_nil]; rfl⟩
  | cons h hs ih =>
    by_cases ht : attrType h = want
    · -- an entry, or the end of the list
      have hstop : ∃ run rest, (h :: hs).filter (fun h => attrType h = want) = run ++ rest ∧
          (∀ h ∈ run, (∃ v, attrValue g h = .ok v) ∧ (listEntry g group max h).length = len) ∧
          (.ok (acc, len) : Except (Nat × UInt8) _) = .ok
            (acc ++ run.flatMap (listEntry g group max), len) :=
        ⟨[], _, rfl, fun _ h =>
          (List.not_mem_nil h).elim, by rw [List.flatMap_nil, List.append_nil]⟩
      unfold readEntries
      rw [if_neg (not_not.mpr ht)]
      cases hv : attrValue g h with
      | error e =>
        simp only [if_pos hlen]
        exact hstop
      | ok v =>
        have hel : (if group then 4 else 2) + v.length = (entryHead group h ++ v).length := by
          rw [List.length_append, length_entryHead]
        have hrest : acc ++ put16 h ++ (if group then put16 (groupEnd h) else []) ++ v =
            acc ++ (entryHead group h ++ v) := by
          simp only [entryHead, List.append_assoc]
        simp only [hel, hrest]
        by_cases hne : len ≠ 0 ∧ (entryHead group h ++ v).length ≠ len
        · rw [if_pos hne]
          exact hstop
        rw [if_neg hne]
        by_cases hroom : 2 + acc.length + (entryHead group h ++ v).length > max
        · rw [if_pos hroom]
          exact hstop
        rw [if_neg hroom]
        have hl : (entryHead group h ++ v).length = len := not_not.mp fun hn => hne ⟨hlen, hn⟩
        have hentry : listEntry g group max h = entryHead group h ++ v := by
          refine listEntry_of_fits hv ?_
          rw [List.length_append] at hroom
          omega
        rw [hl]
        obtain ⟨run, rest, hrun, hall, he⟩ := ih (acc ++ (entryHead group h ++ v))
        refine ⟨h :: run, rest, ?_, fun x hx => ?_, ?_⟩
        · rw [List.filter_cons_of_pos (p := fun h => attrType h = want) (decide_eq_true ht), hrun]
          rfl
        · rcases List.mem_cons.mp hx with rfl | hx
          · exact ⟨⟨v, hv⟩, by rw [hentry, hl]⟩
          · exact hall x hx
        · rw [he, List.flatMap_cons, hentry, List.append_assoc]
    · obtain ⟨run, rest, hrun, hall, he⟩ := ih acc
      refine ⟨run, rest, ?_, hall, ?_⟩
      · rw [List.filter_cons_of_neg (p := fun h => attrType h = want)
          fun h => ht (of_decide_eq_true h), hrun]
      · rw [readEntries, if_pos ht, he]

/-- Attributes of other types are passed over. -/
theorem readEntries_skip (g : Gatt) (group : Bool) {want : List UInt8} (max : Nat) {hs : List Nat}
    (h : ∀ x ∈ hs, attrType x ≠ want) (tail : List Nat) (acc : List UInt8) (len : Nat) :
    readEntries g group want max (hs ++ tail) acc len = readEntries g group want max tail acc
      len := by
  induction hs with
  | nil => rfl
  | cons x hs ih =>
    rw [List.cons_append, readEntries, if_pos (h x List.mem_cons_self)]
    exact ih fun y hy => h y (List.mem_cons_of_mem _ hy)

/-- A request for the attributes of a type. -/
def typeRequest (op : UInt8) (first last : Nat) (want : List UInt8) : List UInt8 :=
  op :: (put16 first ++ put16 last ++ want)

theorem get16_typeRequest (op : UInt8) {first last : Nat} (hf : first < 2 ^ 16) (hl : last < 2 ^ 16)
    (want : List UInt8) : get16 (typeRequest op first last want) 1 = first ∧
      get16 (typeRequest op first last want) 3 = last := by
  have h {v : Nat} (hv : v < 2 ^ 16) :
      (UInt8.ofNat v).toNat + 256 * (UInt8.ofNat (v / 256)).toNat = v := by
    rw [UInt8.toNat_ofNat', UInt8.toNat_ofNat']
    omega
  exact ⟨h hf, h hl⟩

/-- The response of `read_by_type`, from what its loop returns. -/
theorem readByType_eq {g : Gatt} {op : UInt8} {first last max : Nat} {want : List UInt8}
    (hw : want.length = 2 ∨ want.length = 16) (h1 : 1 ≤ first) (h2 : first ≤ last)
    (h3 : last < 2 ^ 16) : readByType g (typeRequest op first last want) max =
      match readEntries g (op == 0x10) want max (handles first last) [] 0 with
      | .error (h, e) => errorRsp op h e
      | .ok (acc, entry) =>
        if entry = 0 then errorRsp op first errNotFound
          else (op + 1) :: UInt8.ofNat entry :: acc := by
  obtain ⟨hfirst, hlast⟩ := get16_typeRequest op (show first < 2 ^ 16 by omega) h3 want
  have hlen : (typeRequest op first last want).length - 5 = want.length := by
    simp only [typeRequest, put16, List.length_cons, List.length_append, List.length_nil]
    omega
  have hwl : ¬ (want.length ≠ 2 ∧ want.length ≠ 16) := by omega
  have hok : ¬ ((want.length ≠ 2 ∧ want.length ≠ 16) ∨ first = 0 ∨ first > last) := by omega
  unfold readByType
  simp only [hfirst, hlast, hlen, if_neg hok]
  rfl

/-- **Read By Type and Read By Group Type** give what a client relies on exactly if the first
attribute fits. -/
theorem readByType_discovers {g : Gatt} {op : UInt8} {first last max : Nat} {want : List UInt8}
    (hop : op = 0x08 ∨ op = 0x10) (hw : want.length = 2 ∨ want.length = 16) (h1 : 1 ≤ first)
    (h2 : first ≤ last) (h3 : last < 2 ^ 16) :
    Discovers g (op == 0x10) want max first last op (readByType g (typeRequest op first last want)
      max) ↔ FirstFits g (op == 0x10) want max first last := by
  rw [readByType_eq hw h1 h2 h3]
  unfold FirstFits
  cases ht : typed want first last with
  | nil =>
    have hskip : ∀ x ∈ handles first last, attrType x ≠ want := fun x hx he =>
      List.filter_eq_nil_iff.mp ht x hx (decide_eq_true he)
    have hr := readEntries_skip g (op == 0x10) max hskip [] [] 0
    rw [List.append_nil] at hr
    rw [hr, discovers_nil ht]
    exact ⟨fun _ _ _ h => (nomatch h), fun _ => rfl⟩
  | cons h rest =>
    obtain ⟨skip, tail, hs, hskip, hh, hrest⟩ := List.filter_eq_cons_iff.mp ht
    have hskip : ∀ x ∈ skip, attrType x ≠ want := fun x hx he => hskip x hx (decide_eq_true he)
    have hh : attrType h = want := of_decide_eq_true hh
    rw [hs, readEntries_skip g _ max hskip, readEntries, if_neg (not_not.mpr hh)]
    cases hv : attrValue g h with
    | error e =>
      rw [discovers_error ht hv]
      simp only [ne_eq, not_true_eq_false, if_false]
      refine ⟨fun _ x v hx hxv => ?_, fun _ => trivial⟩
      obtain rfl := Option.some.inj hx
      cases hv.symm.trans hxv
    | ok v =>
      rw [discovers_ok ht hv]
      have hel : (if op == 0x10 then 4 else 2) + v.length =
          (entryHead (op == 0x10) h ++ v).length := by
        rw [List.length_append, length_entryHead]
      have hfirst : [] ++ put16 h ++ (if op == 0x10 then put16 (groupEnd h) else []) ++ v =
          entryHead (op == 0x10) h ++ v := rfl
      have hnone : ¬ ((0 : Nat) ≠ 0 ∧ (entryHead (op == 0x10) h ++ v).length ≠ 0) :=
        fun h => h.1 rfl
      simp only [hel, hfirst, if_neg hnone, List.length_nil, Nat.add_zero]
      by_cases hroom : 2 + (entryHead (op == 0x10) h ++ v).length > max
      · rw [if_pos hroom]
        rw [List.length_append] at hroom
        refine ⟨fun hl => ?_, fun hfit => absurd (hfit h v rfl hv) (by omega)⟩
        -- the response is an error, and a list is not
        obtain ⟨_, _, _, -, -, -, -, hrsp⟩ := hl
        have hop' := (List.cons.inj hrsp).1
        rcases hop with rfl | rfl <;> exact absurd hop' (by decide)
      · rw [if_neg hroom]
        rw [List.length_append] at hroom
        have hlen : (entryHead (op == 0x10) h ++ v).length ≠ 0 := by
          rw [List.length_append, length_entryHead]
          split <;> omega
        have hentry : listEntry g (op == 0x10) max h = entryHead (op == 0x10) h ++ v :=
          listEntry_of_fits hv (by omega)
        obtain ⟨run, left, hrun, hall, he⟩ :=
          readEntries_run g (op == 0x10) want max hlen tail (entryHead (op == 0x10) h ++ v)
        rw [he]
        refine ⟨fun _ x w hx hxv => ?_, fun _ => ⟨h :: run, left,
          (entryHead (op == 0x10) h ++ v).length, ?_, List.cons_ne_nil _ _, ?_, ?_, ?_⟩⟩
        · obtain rfl := Option.some.inj hx
          obtain rfl := Except.ok.inj (hv.symm.trans hxv)
          omega
        · rw [ht, ← hrest, hrun]
          rfl
        · exact fun x hx => filter_handles_next
            (ht.trans (congrArg (h :: ·) (hrest.symm.trans hrun))) hx
        · intro x hx
          rcases List.mem_cons.mp hx with rfl | hx
          · exact ⟨⟨v, hv⟩, congrArg List.length hentry⟩
          · exact hall x hx
        · rw [List.flatMap_cons, hentry]
          exact if_neg hlen

/-! ## Find Information -/

/-- A type is a UUID of 2 or 16 bytes. -/
theorem length_attrType (h : Nat) : (attrType h).length = 2 ∨ (attrType h).length = 16 := by
  have hdb : ∀ a ∈ db, a.kind = .value → a.uuid.length = 2 ∨ a.uuid.length = 16 := by decide
  unfold attrType
  cases hk : (dbAt h).kind with
  | value =>
    have hmem : dbAt h ∈ db := by
      unfold dbAt at hk ⊢
      rw [List.getD_eq_getElem?_getD] at hk ⊢
      cases ho : db[h]? with
      | none => rw [ho] at hk; cases hk
      | some a => exact List.mem_of_getElem? ho
    exact hdb _ hmem hk
  | _ => exact .inl rfl

/-- **The loop of `find_info` behind the first pair.** -/
theorem infoEntries_run (max : Nat) {len : Nat} (hlen : len ≠ 0) (hs : List Nat)
    (acc : List UInt8) : ∃ run rest, hs = run ++ rest ∧ (∀ h ∈ run, (attrType h).length = len) ∧
      infoEntries max hs acc len = (acc ++ run.flatMap fun h => put16 h ++ attrType h, len) := by
  induction hs generalizing acc with
  | nil =>
    exact ⟨[], [], rfl, fun _ h =>
      (List.not_mem_nil h).elim, by rw [List.flatMap_nil, List.append_nil]; rfl⟩
  | cons h hs ih =>
    unfold infoEntries
    simp only []
    by_cases hc : (len ≠ 0 ∧ (attrType h).length ≠ len) ∨
      2 + acc.length + 2 + (attrType h).length > max
    · rw [if_pos hc]
      exact ⟨[], _, rfl, fun _ h =>
        (List.not_mem_nil h).elim, by rw [List.flatMap_nil, List.append_nil]⟩
    · rw [if_neg hc]
      have hl : (attrType h).length = len := not_not.mp fun hn => hc (.inl ⟨hlen, hn⟩)
      obtain ⟨run, rest, hrun, hall, he⟩ := ih (acc ++ put16 h ++ attrType h)
      refine ⟨h :: run, rest, congrArg (h :: ·) hrun, fun x hx => ?_, ?_⟩
      · rcases List.mem_cons.mp hx with rfl | hx
        · exact hl
        · exact hall x hx
      · rw [hl, he, List.flatMap_cons]
        simp only [List.append_assoc]

/-- **Find Information** lists the next attributes for every room of at least 23 bytes. -/
theorem findInfo_listed {first last max : Nat} (hm : 23 ≤ max) (h1 : 1 ≤ first) (h2 : first ≤ last)
    (h3 : last < 2 ^ 16) : InfoListed first last
      (findInfo (typeRequest 0x04 first last []) max) := by
  obtain ⟨hfirst, hlast⟩ := get16_typeRequest 0x04 (show first < 2 ^ 16 by omega) h3 []
  have hok : ¬ (first = 0 ∨ first > last) := by omega
  unfold findInfo
  simp only [hfirst, hlast, if_neg hok]
  unfold InfoListed
  cases hs : handles first last with
  | nil => rfl
  | cons h tail =>
    have hlen : (attrType h).length ≠ 0 := by
      have := length_attrType h
      omega
    have hroom : ¬ ((0 ≠ 0 ∧ (attrType h).length ≠ 0) ∨
        2 + ([] : List UInt8).length + 2 + (attrType h).length > max) := by
      have := length_attrType h
      rw [List.length_nil]
      omega
    obtain ⟨run, rest, hrun, hall, he⟩ :=
      infoEntries_run max hlen tail ([] ++ put16 h ++ attrType h)
    have hfirst : infoEntries max (h :: tail) [] 0 =
        infoEntries max tail ([] ++ put16 h ++ attrType h) (attrType h).length := if_neg hroom
    rw [hfirst, he]
    refine ⟨h :: run, rest, (attrType h).length, congrArg (h :: ·) hrun, List.cons_ne_nil _ _,
      fun x hx => ?_, ?_, ?_⟩
    · have hall : (handles first last).filter (fun _ => true) = (h :: run) ++ rest := by
        rw [hs, hrun]
        exact List.filter_eq_self.mpr fun _ _ => rfl
      have hnext := filter_handles_next hall hx
      exact (List.filter_eq_self.mpr fun _ _ => rfl).symm.trans hnext
    · intro x hx
      rcases List.mem_cons.mp hx with rfl | hx
      · rfl
      · exact hall x hx
    · simp only [if_neg hlen, List.nil_append, List.flatMap_cons]

/-! ## Results -/

/-- The request reaches `read_by_type`. -/
theorem gattHandle_typeRequest {g : Gatt} {op : UInt8} {first last max : Nat} {want : List UInt8}
    (hop : op = 0x08 ∨ op = 0x10) (hw : want.length = 2 ∨ want.length = 16) :
    (gattHandle g (typeRequest op first last want) max).2.1 =
      readByType g (typeRequest op first last want) (min max g.mtu) := by
  have hlen : 7 ≤ (typeRequest op first last want).length := by
    simp only [typeRequest, put16, List.length_cons, List.length_append, List.length_nil]
    omega
  have h0 : (typeRequest op first last want).length ≠ 0 := by omega
  unfold gattHandle
  simp only [if_neg h0, if_pos hlen]
  rcases hop with rfl | rfl <;> rfl

/-- **Attribute discovery.** For every state and MTU, every range and type: Read By Type and Read By
Group Type give what a client relies on exactly if the first attribute fits, and Find Information
always does. -/
theorem discovery_iff {g : Gatt} {first last max : Nat} (hm : 23 ≤ min max g.mtu) (h1 : 1 ≤ first)
    (h2 : first ≤ last) (h3 : last < 2 ^ 16) :
    (∀ op want, op = 0x08 ∨ op = 0x10 → want.length = 2 ∨ want.length = 16 →
      (Discovers g (op == 0x10) want (min max g.mtu) first last op
          (gattHandle g (typeRequest op first last want) max).2.1 ↔
        FirstFits g (op == 0x10) want (min max g.mtu) first last)) ∧
    InfoListed first last (gattHandle g (typeRequest 0x04 first last []) max).2.1 := by
  refine ⟨fun op want hop hw => ?_, ?_⟩
  · rw [gattHandle_typeRequest hop hw]
    exact readByType_discovers hop hw h1 h2 h3
  · exact findInfo_listed hm h1 h2 h3

/-- A name of 20 bytes. -/
def longName : Gatt := gattInit (List.replicate 20 0x61) improvCapInfo

theorem discovery_long_name :
    InfoListed 1 0xffff (gattHandle longName (typeRequest 0x04 1 0xffff []) 23).2.1 :=
  (@discovery_iff longName _ _ 23 (by decide) (by decide) (by decide) (by decide)).2

/-- With the smallest MTU it cannot be found by its type. -/
theorem discovery_not :
    23 ≤ min 23 longName.mtu ∧ typed (put16 0x2a00) 1 0xffff = [3] ∧
      (gattHandle longName (typeRequest 0x08 1 0xffff (put16 0x2a00)) 23).2.1 =
        errorRsp 0x08 1 errNotFound ∧
      ¬ Discovers longName false (put16 0x2a00) 23 1 0xffff 0x08
        (gattHandle longName (typeRequest 0x08 1 0xffff (put16 0x2a00)) 23).2.1 := by
  have ht : typed (put16 0x2a00) 1 0xffff = [3] := by decide
  have hr : (gattHandle longName (typeRequest 0x08 1 0xffff (put16 0x2a00)) 23).2.1 =
      errorRsp 0x08 1 errNotFound := by decide
  refine ⟨by decide, ht, hr, fun h => ?_⟩
  rw [hr, discovers_ok ht (v := longName.name) rfl] at h
  obtain ⟨_, _, _, -, -, -, -, hrsp⟩ := h
  exact absurd (List.cons.inj hrsp).1 (by decide)

end Esp32S31.BleHa
