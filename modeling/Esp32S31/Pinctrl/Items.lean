import Esp32S31.Pinctrl.Set

/-!
# The GPIO list

A list has items with commas between them; an item is a number or a name of the board, or two of
them with a dash between them, in either order. `ListValid` and `Listed` say so of the text as a
whole, for any reading of a number or a name.

**`parseList_done`**: `parse_list` takes the lists that are valid, and its mask has the numbers that
are listed. **`parseItem_eq`**: `parse_item` reads the text of the item alone, and a decimal number
modulo 2^32.
-/

namespace Esp32S31.Pinctrl

open Esp32S31.Lib Esp32S31.Lib.Text

def dash : UInt8 := 0x2d

/-! ## What a list says -/

section Grammar

variable (item : Bytes → Option Nat)

/-- An item of the list, from one number to another. -/
inductive Span : Bytes → Nat → Nat → Prop where
  | one {x : Bytes} {n : Nat} : dash ∉ x → item x = some n → Span x n n
  | range {x y : Bytes} {m n : Nat} : dash ∉ x → dash ∉ y → item x = some m → item y = some n →
      Span (x ++ dash :: y) m n

/-- Every item of the list is one. -/
def ListValid (text : Bytes) : Prop :=
  ∀ part ∈ text.splitOn comma, ∃ first last, Span item part first last

/-- The numbers of the list. -/
def Listed (text : Bytes) (n : Nat) : Prop :=
  ∃ part ∈ text.splitOn comma, ∃ first last, Span item part first last ∧
    min first last ≤ n ∧ n ≤ max first last

variable {item : Bytes → Option Nat} {first last : Nat}

theorem span_one {x : Bytes} (hx : dash ∉ x) :
    Span item x first last ↔ first = last ∧ item x = some first := by
  constructor
  · intro h
    cases h with
    | one _ hn => exact ⟨rfl, hn⟩
    | range => exact absurd (List.mem_append_right _ List.mem_cons_self) hx
  · rintro ⟨rfl, hn⟩
    exact .one hx hn

/-- The first dash of an item is that of the range. -/
theorem span_range {x y : Bytes} (hx : dash ∉ x) :
    Span item (x ++ dash :: y) first last ↔
      dash ∉ y ∧ item x = some first ∧ item y = some last := by
  constructor
  · intro h
    generalize hz : x ++ dash :: y = z at h
    cases h with
    | one hd _ => exact absurd (by rw [← hz]; simp) hd
    | @range x' y' _ _ hx' hy' hm hn =>
      have hcut (u v : Bytes) (hu : dash ∉ u) :
          (u ++ dash :: v).span (· ≠ dash) = (u, dash :: v) := by
        have hall : ∀ c ∈ u, decide (c ≠ dash) = true := by
          intro c hc
          rw [decide_eq_true_eq]
          rintro rfl
          exact hu hc
        rw [List.span_eq_takeWhile_dropWhile, List.takeWhile_append_of_pos hall,
          List.dropWhile_append_of_pos hall]
        simp
      have heq := (hcut x y hx).symm.trans ((congrArg _ hz).trans (hcut x' y' hx'))
      simp only [Prod.mk.injEq, List.cons.injEq, true_and] at heq
      obtain ⟨rfl, rfl⟩ := heq
      exact ⟨hy', hm, hn⟩
  · rintro ⟨hy, hm, hn⟩
    exact .range hx hy hm hn

/-- An item says one range. -/
theorem Span.unique {part : Bytes} {first' last' : Nat} (h : Span item part first last)
    (h' : Span item part first' last') : first = first' ∧ last = last' := by
  cases h with
  | one hx hn =>
    obtain ⟨rfl, hn'⟩ := (span_one hx).mp h'
    rw [hn, Option.some.injEq] at hn'
    exact ⟨hn', hn'⟩
  | range hx _ hm hn =>
    obtain ⟨-, hm', hn'⟩ := (span_range hx).mp h'
    rw [hm, Option.some.injEq] at hm'
    rw [hn, Option.some.injEq] at hn'
    exact ⟨hm', hn'⟩

theorem Span.listed {part : Bytes} (h : Span item part first last) (n : Nat) :
    (∃ first last, Span item part first last ∧ min first last ≤ n ∧ n ≤ max first last) ↔
      min first last ≤ n ∧ n ≤ max first last := by
  constructor
  · rintro ⟨first', last', h', hn⟩
    obtain ⟨rfl, rfl⟩ := h.unique h'
    exact hn
  · intro hn
    exact ⟨first, last, h, hn⟩

section Split

variable {part : Bytes}

theorem listValid_one (hc : comma ∉ part) :
    ListValid item part ↔ ∃ first last, Span item part first last := by
  simp [ListValid, List.splitOn_eq_singleton hc]

theorem listed_one (hc : comma ∉ part) (n : Nat) : Listed item part n ↔
    ∃ first last, Span item part first last ∧ min first last ≤ n ∧ n ≤ max first last := by
  simp [Listed, List.splitOn_eq_singleton hc]

theorem listValid_cons (hc : comma ∉ part) (rest : Bytes) :
    ListValid item (part ++ comma :: rest) ↔
    (∃ first last, Span item part first last) ∧ ListValid item rest := by
  simp [ListValid, List.splitOn_append_cons_self_of_not_mem hc]

theorem listed_cons (hc : comma ∉ part) (rest : Bytes) (n : Nat) :
    Listed item (part ++ comma :: rest) n ↔
    (∃ first last, Span item part first last ∧ min first last ≤ n ∧ n ≤ max first last) ∨
      Listed item rest n := by
  simp [Listed, List.splitOn_append_cons_self_of_not_mem hc]

/-- A list that is one number. -/
theorem listed_number {n : Nat} (hd : dash ∉ part) (hc : comma ∉ part) (hn : item part = some n) :
    ListValid item part ∧ ∀ i, Listed item part i ↔ i = n := by
  have hspan : Span item part n n := .one hd hn
  refine ⟨(listValid_one hc).mpr ⟨n, n, hspan⟩, fun i => ?_⟩
  rw [listed_one hc, hspan.listed]
  omega

end Split

section Mono

variable {item' : Bytes → Option Nat}

theorem Span.mono {part : Bytes} (hitem : ∀ x n, item x = some n → item' x = some n)
    (h : Span item part first last) : Span item' part first last := by
  cases h with
  | one hx hn => exact .one hx (hitem _ _ hn)
  | range hx hy hm hn => exact .range hx hy (hitem _ _ hm) (hitem _ _ hn)

/-- A reading that takes more items reads the same from a list that is valid without them. -/
theorem ListValid.mono {text : Bytes} (hitem : ∀ x n, item x = some n → item' x = some n)
    (h : ListValid item text) :
    ListValid item' text ∧ ∀ n, Listed item text n ↔ Listed item' text n := by
  constructor
  · intro part hpart
    obtain ⟨first, last, hspan⟩ := h part hpart
    exact ⟨first, last, hspan.mono hitem⟩
  · intro n
    constructor
    · rintro ⟨part, hpart, first, last, hspan, hn⟩
      exact ⟨part, hpart, first, last, hspan.mono hitem, hn⟩
    · rintro ⟨part, hpart, first, last, hspan, hn⟩
      obtain ⟨first', last', hspan'⟩ := h part hpart
      obtain ⟨rfl, rfl⟩ := (hspan'.mono hitem).unique hspan
      exact ⟨part, hpart, first', last', hspan', hn⟩

end Mono

/-- A list says at least one number, none above those of its items. -/
theorem ListValid.listed {text : Bytes} (h : ListValid item text) : ∃ n, Listed item text n := by
  obtain ⟨part, hpart⟩ := List.exists_mem_of_ne_nil _ (List.splitOn_ne_nil comma text)
  obtain ⟨first, last, hspan⟩ := h part hpart
  exact ⟨first, part, hpart, first, last, hspan, Nat.min_le_left _ _, Nat.le_max_left _ _⟩

theorem Listed.le {text : Bytes} {n k : Nat} (hitem : ∀ x n, item x = some n → n ≤ k)
    (h : Listed item text n) : n ≤ k := by
  obtain ⟨part, -, first, last, hspan, -, hn⟩ := h
  cases hspan with
  | one _ hm =>
    have := hitem _ _ hm
    omega
  | range _ _ hm hm' =>
    have := hitem _ _ hm
    have := hitem _ _ hm'
    omega

end Grammar

/-! ## `parse_list` -/

/-- The number of an item that was read. -/
def Item.number : Item → Option Nat
  | .num n => some n
  | .bad => none
  | .exit => none

theorem Item.number_eq {i : Item} {n : Nat} : i.number = some n ↔ i = .num n := by
  cases i <;> simp [Item.number]

/-- The text behind an item. -/
def Stops (tail : Bytes) : Prop := ∀ c ∈ tail.head?, c = dash ∨ c = comma

theorem parseList_eq (item : Bytes → Nat → Item) (p : Bytes) (mask : Mask) :
    parseList item p mask =
      match item p (itemLen p) with
      | .bad => .unknown p
      | .exit => .exit
      | .num first =>
        let p1 := p.drop (itemLen p)
        let len1 := itemLen (p1.drop 1)
        match (if p1.head? = some dash then item (p1.drop 1) len1 else .num first) with
        | .bad => .unknown (p1.drop 1)
        | .exit => .exit
        | .num last =>
          match (if p1.head? = some dash then (p1.drop 1).drop len1 else p1) with
          | [] => .done (setRange mask (min first last) (max first last))
          | c :: rest =>
            if c = comma then parseList item rest (setRange mask (min first last) (max first last))
            else .unknown (c :: rest) := by
  rw [parseList]
  unfold dash
  dsimp only
  cases item p (itemLen p) with
  | bad => rfl
  | exit => rfl
  | num first =>
    dsimp only
    generalize (if (p.drop (itemLen p)).head? = some 0x2d then
      item ((p.drop (itemLen p)).drop 1) (itemLen ((p.drop (itemLen p)).drop 1))
      else .num first) = second
    generalize (if (p.drop (itemLen p)).head? = some 0x2d then
      ((p.drop (itemLen p)).drop 1).drop (itemLen ((p.drop (itemLen p)).drop 1))
      else p.drop (itemLen p)) = p2
    cases second with
    | bad => rfl
    | exit => rfl
    | num last =>
      cases p2 with
      | nil => rfl
      | cons c rest => rfl

theorem itemLen_append {x tail : Bytes} (hdash : dash ∉ x) (hcomma : comma ∉ x) (ht : Stops tail) :
    itemLen (x ++ tail) = x.length := by
  have hx : ∀ c ∈ x, decide (c ≠ 0x2d ∧ c ≠ comma) = true := by
    intro c hc
    rw [decide_eq_true_eq]
    constructor
    · rintro rfl
      exact hdash hc
    · rintro rfl
      exact hcomma hc
  have htail : tail.takeWhile (fun c => decide (c ≠ 0x2d ∧ c ≠ comma)) = [] := by
    cases tail with
    | nil => rfl
    | cons c tail =>
      rcases ht c (by simp) with rfl | rfl
      · rfl
      · rfl
  unfold itemLen
  simp only [Bool.decide_and] at hx htail ⊢
  rw [List.takeWhile_append_of_pos hx, htail, List.append_nil]

/-- `parse_list` behind an item. -/
def parseRest (item : Bytes → Nat → Item) (tail : Bytes) (mask : Mask) : Parsed :=
  match tail with
  | [] => .done mask
  | c :: rest => if c = comma then parseList item rest mask else .unknown (c :: rest)

section Parse

variable {item : Bytes → Nat → Item} {read : Bytes → Item}

/-- An item is read from its own text. -/
def ReadsAlone (item : Bytes → Nat → Item) (read : Bytes → Item) : Prop :=
  ∀ x tail, dash ∉ x → comma ∉ x → Stops tail → item (x ++ tail) x.length = read x

/-- An item that is one number. -/
theorem parseList_one (hread : ReadsAlone item read) {x tail : Bytes} (hd : dash ∉ x)
    (hc : comma ∉ x) (ht : ∀ c ∈ tail.head?, c = comma) (mask : Mask) :
    parseList item (x ++ tail) mask =
      match read x with
      | .bad => .unknown (x ++ tail)
      | .exit => .exit
      | .num n => parseRest item tail (setRange mask n n) := by
  have hstops : Stops tail := fun c h => Or.inr (ht c h)
  have hno : ¬ tail.head? = some dash := by
    intro h
    exact absurd (ht dash h) (by decide)
  rw [parseList_eq, itemLen_append hd hc hstops, hread x tail hd hc hstops]
  cases read x with
  | bad => rfl
  | exit => rfl
  | num n =>
    dsimp only
    rw [List.drop_left, if_neg hno, if_neg hno]
    dsimp only
    rw [Nat.min_self, Nat.max_self]
    rfl

/-- An item that is a range. -/
theorem parseList_range (hread : ReadsAlone item read) {x y tail : Bytes} (hxd : dash ∉ x)
    (hxc : comma ∉ x) (hyd : dash ∉ y) (hyc : comma ∉ y) (ht : Stops tail) (mask : Mask) :
    parseList item (x ++ dash :: (y ++ tail)) mask =
      match read x with
      | .bad => .unknown (x ++ dash :: (y ++ tail))
      | .exit => .exit
      | .num first =>
        match read y with
        | .bad => .unknown (y ++ tail)
        | .exit => .exit
        | .num last => parseRest item tail (setRange mask (min first last) (max first last)) := by
  have hstops : Stops (dash :: (y ++ tail)) := by
    intro c hc
    simp only [List.head?_cons, Option.mem_def, Option.some.injEq] at hc
    exact Or.inl hc.symm
  rw [parseList_eq, itemLen_append hxd hxc hstops, hread x _ hxd hxc hstops]
  cases read x with
  | bad => rfl
  | exit => rfl
  | num first =>
    dsimp only
    rw [List.drop_left, List.head?_cons, if_pos rfl, if_pos rfl, List.drop_succ_cons,
      List.drop_zero, itemLen_append hyd hyc ht, hread y tail hyd hyc ht]
    cases read y with
    | bad => rfl
    | exit => rfl
    | num last =>
      dsimp only
      rw [List.drop_left]
      rfl

theorem parseRest_dash (tail : Bytes) (mask : Mask) {m : Mask} :
    parseRest item (dash :: tail) mask ≠ .done m := by
  have hne : dash ≠ comma := by decide
  simp [parseRest, hne]

/-- **One item of the list**: it is valid, and its numbers are added to the mask. -/
theorem parseList_item (hread : ReadsAlone item read) {part tail : Bytes} (hc : comma ∉ part)
    (ht : ∀ c ∈ tail.head?, c = comma) (mask m : Mask) :
    parseList item (part ++ tail) mask = .done m ↔
      ∃ first last, Span (fun x => (read x).number) part first last ∧
        parseRest item tail (setRange mask (min first last) (max first last)) = .done m := by
  by_cases hd : dash ∈ part
  · obtain ⟨x, y, rfl, hx⟩ := List.eq_append_cons_of_mem hd
    have hxc : comma ∉ x := fun h => hc (List.mem_append_left _ h)
    have hyc : comma ∉ y := fun h => hc (List.mem_append_right _ (List.mem_cons_of_mem _ h))
    simp only [span_range hx, Item.number_eq]
    rw [List.append_assoc, List.cons_append]
    by_cases hy : dash ∈ y
    · -- a second dash is no comma
      obtain ⟨y1, y2, rfl, hy1⟩ := List.eq_append_cons_of_mem hy
      have hstops : Stops (dash :: y2 ++ tail) := by
        intro c h
        simp only [List.cons_append, List.head?_cons, Option.mem_def, Option.some.injEq] at h
        exact Or.inl h.symm
      have hy1c : comma ∉ y1 := fun h => hyc (List.mem_append_left _ h)
      rw [List.append_assoc, parseList_range hread hx hxc hy1 hy1c hstops]
      constructor
      · intro h
        cases hm : read x <;> simp [hm] at h
        cases hn : read y1 <;> simp [hn] at h
        exact absurd h (parseRest_dash _ _)
      · rintro ⟨_, _, ⟨h, -⟩, -⟩
        exact absurd hy h
    · rw [parseList_range hread hx hxc hy hyc fun c h => Or.inr (ht c h)]
      constructor
      · intro h
        cases hm : read x with
        | bad => simp [hm] at h
        | exit => simp [hm] at h
        | num first =>
          cases hn : read y with
          | bad => simp [hm, hn] at h
          | exit => simp [hm, hn] at h
          | num last =>
            rw [hm, hn] at h
            exact ⟨first, last, ⟨hy, rfl, rfl⟩, h⟩
      · rintro ⟨first, last, ⟨-, hm, hn⟩, h⟩
        rw [hm, hn]
        exact h
  · simp only [span_one hd, Item.number_eq]
    rw [parseList_one hread hd hc ht]
    constructor
    · intro h
      cases hn : read part with
      | bad => simp [hn] at h
      | exit => simp [hn] at h
      | num n =>
        rw [hn] at h
        refine ⟨n, n, ⟨rfl, rfl⟩, ?_⟩
        rw [Nat.min_self, Nat.max_self]
        exact h
    · rintro ⟨first, last, ⟨rfl, hn⟩, h⟩
      rw [Nat.min_self, Nat.max_self] at h
      rw [hn]
      exact h

/-- The numbers of one item more. -/
theorem setRange_span {mask m : Mask} {first last : Nat} (hf : first < 128) (hl : last < 128) :
    setRange mask (min first last) (max first last) = m ↔ ∀ i, m.getLsbD i = true ↔
      mask.getLsbD i = true ∨ (min first last ≤ i ∧ i ≤ max first last) := by
  have hbits (i : Nat) : (setRange mask (min first last) (max first last)).getLsbD i = true ↔
      mask.getLsbD i = true ∨ (min first last ≤ i ∧ i ≤ max first last) := by
    rw [setRange_bits]
    exact or_congr_right (and_iff_left_of_imp fun h => by omega)
  constructor
  · rintro rfl
    exact hbits
  · intro h
    apply BitVec.eq_of_getLsbD_eq
    intro i _
    rw [Bool.eq_iff_iff, hbits, h]

/-- **What `parse_list` does**: it takes the valid lists, and adds their numbers to the mask. -/
theorem parseList_done (hread : ReadsAlone item read) (hlt : ∀ x n, read x = .num n → n < 128)
    {p : Bytes} {mask m : Mask} :
    parseList item p mask = .done m ↔ ListValid (fun x => (read x).number) p ∧
      ∀ i, m.getLsbD i = true ↔ mask.getLsbD i = true ∨ Listed (fun x => (read x).number) p i := by
  have hends : ∀ {part first last}, Span (fun x => (read x).number) part first last →
      first < 128 ∧ last < 128 := by
    intro part first last h
    cases h with
    | one _ hn =>
      rw [Item.number_eq] at hn
      exact ⟨hlt _ _ hn, hlt _ _ hn⟩
    | range _ _ hm hn =>
      rw [Item.number_eq] at hm hn
      exact ⟨hlt _ _ hm, hlt _ _ hn⟩
  induction hlen : p.length using Nat.strongRecOn generalizing p mask with
  | _ n ih =>
    by_cases hc : comma ∈ p
    · obtain ⟨part, rest, rfl, hpart⟩ := List.eq_append_cons_of_mem hc
      have hlen' : rest.length < n := by
        simp only [List.length_append, List.length_cons] at hlen
        omega
      have hrest (mask : Mask) : parseList item rest mask = .done m ↔ _ := ih rest.length hlen' rfl
      have hnext (mask : Mask) : parseRest item (comma :: rest) mask = parseList item rest mask :=
        rfl
      rw [parseList_item hread hpart (by simp), listValid_cons hpart]
      simp only [hnext, hrest, listed_cons hpart]
      constructor
      · rintro ⟨first, last, hspan, hvalid, hbits⟩
        obtain ⟨hf, hl⟩ := hends hspan
        refine ⟨⟨⟨first, last, hspan⟩, hvalid⟩, fun i => ?_⟩
        rw [hbits, (setRange_span hf hl).mp rfl, hspan.listed, or_assoc]
      · rintro ⟨⟨⟨first, last, hspan⟩, hvalid⟩, hbits⟩
        obtain ⟨hf, hl⟩ := hends hspan
        refine ⟨first, last, hspan, hvalid, fun i => ?_⟩
        rw [hbits, (setRange_span hf hl).mp rfl, hspan.listed, or_assoc]
    · have hnil : ∀ c ∈ ([] : Bytes).head?, c = comma := by simp
      have hitem := parseList_item hread hc hnil mask m
      have hdone (mask : Mask) : parseRest item [] mask = .done mask := rfl
      simp only [List.append_nil, hdone, Parsed.done.injEq] at hitem
      rw [hitem, listValid_one hc]
      simp only [listed_one hc]
      constructor
      · rintro ⟨first, last, hspan, hm⟩
        obtain ⟨hf, hl⟩ := hends hspan
        refine ⟨⟨first, last, hspan⟩, fun i => ?_⟩
        rw [hspan.listed]
        exact (setRange_span hf hl).mp hm i
      · rintro ⟨⟨first, last, hspan⟩, hbits⟩
        obtain ⟨hf, hl⟩ := hends hspan
        refine ⟨first, last, hspan, (setRange_span hf hl).mpr fun i => ?_⟩
        rw [hbits, hspan.listed]

end Parse

/-! ## `parse_item` -/

/-- The number of an item, where the decimal number `n` counts as `value n`: it is below `max`, or
it is that of the name. -/
def itemNumber (value : Nat → Nat) (pinMode : Bool) (b : Board) (max : Nat) (x : Bytes) :
    Option Nat :=
  match cutDec x with
  | some (_, n, []) => if value n < max then some (value n) else none
  | _ => (gpioByName b x).bind fun gpio => if pinMode then gpioPad b.hdr gpio else some gpio

/-- What `sscanf` makes of a number without a minus. -/
def asU32 (n : Nat) : Nat := (scanWord false n).toNat

/-- The name of an item. -/
def nameItem (pinMode : Bool) (b : Board) (x : Bytes) : Item :=
  match gpioByName b x with
  | none => .bad
  | some gpio =>
    if pinMode then
      match gpioPad b.hdr gpio with
      | none => .exit
      | some pad => .num pad
    else .num gpio

/-- `parse_item` of the text of the item alone. -/
def readItem (pinMode : Bool) (b : Board) (max : Nat) (x : Bytes) : Item :=
  match cutDec x with
  | some (_, n, []) => if asU32 n < max then .num (asU32 n) else .bad
  | _ => nameItem pinMode b x

theorem readItem_number (pinMode : Bool) (b : Board) (max : Nat) (x : Bytes) :
    (readItem pinMode b max x).number = itemNumber asU32 pinMode b max x := by
  have hname : (nameItem pinMode b x).number =
      (gpioByName b x).bind fun gpio => if pinMode then gpioPad b.hdr gpio else some gpio := by
    unfold nameItem
    cases gpioByName b x with
    | none => rfl
    | some gpio =>
      cases pinMode with
      | false => rfl
      | true =>
        dsimp only [Option.bind_some]
        rw [if_pos rfl, if_pos rfl]
        cases gpioPad b.hdr gpio with
        | none => rfl
        | some pad => rfl
  unfold readItem itemNumber
  split
  · split
    · rfl
    · rfl
  · exact hname

section Decimal

variable {x tail : Bytes}

/-- A run of characters ends where the item ends. -/
theorem span_stops {p : UInt8 → Bool} (hd : p dash = false) (hc : p comma = false)
    (ht : Stops tail) (t : Bytes) :
    (t ++ tail).takeWhile p = t.takeWhile p ∧ (t ++ tail).dropWhile p = t.dropWhile p ++ tail := by
  have htail : tail.takeWhile p = [] ∧ tail.dropWhile p = tail := by
    cases tail with
    | nil => exact ⟨rfl, rfl⟩
    | cons c tail =>
      rcases ht c (by simp) with rfl | rfl
      · simp [hd]
      · simp [hc]
  rw [List.takeWhile_append, List.dropWhile_append, htail.1, htail.2]
  constructor
  · split
    · next h => rw [List.append_nil, (List.takeWhile_prefix p).eq_of_length h]
    · rfl
  · split
    · next h => rw [List.isEmpty_iff.mp h, List.nil_append]
    · rfl

/-- The sign, without a minus. -/
theorem cutSign_plain {s : Bytes} (hs : s ≠ []) (hd : dash ∉ s) (tail : Bytes) :
    (cutSign s).1 = false ∧ cutSign (s ++ tail) = (false, (cutSign s).2 ++ tail) := by
  obtain ⟨c, s, rfl⟩ := List.exists_cons_of_ne_nil hs
  have hne : c ≠ 0x2d := by
    rintro rfl
    exact hd List.mem_cons_self
  unfold cutSign
  split
  · next h =>
    cases h
    exact absurd rfl hne
  · next h =>
    cases h
    exact ⟨rfl, rfl⟩
  · next h1 h2 =>
    refine ⟨rfl, ?_⟩
    split
    · next h =>
      cases h
      exact absurd rfl hne
    · next h =>
      cases h
      exact absurd rfl (h2 s)
    · rfl

/-- The number of an item that is not blank ends where the item ends. -/
theorem cutDec_append (hx : x.dropWhile isSpace ≠ []) (hd : dash ∉ x) (ht : Stops tail) :
    cutDec (x ++ tail) = (cutDec x).map fun (neg, n, rest) => (neg, n, rest ++ tail) := by
  have hds : dash ∉ x.dropWhile isSpace :=
    fun h => hd ((List.dropWhile_sublist isSpace).subset h)
  obtain ⟨hneg, hsign⟩ := cutSign_plain hx hds tail
  unfold cutDec
  rw [(span_stops (by decide) (by decide) ht x).2, hsign]
  dsimp only
  obtain ⟨htake, hdrop⟩ := span_stops (p := isDigit) (by decide) (by decide) ht
    (cutSign (x.dropWhile isSpace)).2
  rw [htake, hdrop, hneg]
  split
  · rfl
  · rfl

/-- Behind a blank item the number is not that of the item. -/
theorem cutDec_blank (hx : x.dropWhile isSpace = []) (ht : Stops tail) :
    cutDec x = none ∧ ∀ neg n rest, cutDec (x ++ tail) = some (neg, n, rest) →
      rest.length < tail.length := by
  have hskip : (x ++ tail).dropWhile isSpace = tail := by
    rw [(span_stops (by decide) (by decide) ht x).2, hx, List.nil_append]
  constructor
  · unfold cutDec
    rw [hx]
    rfl
  · intro neg n rest h
    unfold cutDec at h
    rw [hskip] at h
    cases tail with
    | nil => simp [cutSign] at h
    | cons c tail =>
      rcases ht c (by simp) with rfl | rfl
      · have hsign : cutSign (dash :: tail) = (true, tail) := rfl
        rw [hsign] at h
        dsimp only at h
        split at h
        · cases h
        · simp only [Option.some.injEq, Prod.mk.injEq] at h
          have := (List.dropWhile_sublist isDigit (l := tail)).length_le
          rw [← h.2.2, List.length_cons]
          omega
      · have hsign : cutSign (comma :: tail) = (false, comma :: tail) := rfl
        have hdigit : isDigit comma = false := by decide
        rw [hsign] at h
        simp [hdigit] at h

theorem cutDec_plus {neg : Bool} {n : Nat} {rest : Bytes} (hd : dash ∉ x)
    (h : cutDec x = some (neg, n, rest)) : neg = false ∧ x ≠ [] := by
  have hx : x.dropWhile isSpace ≠ [] := by
    intro hx
    have hstops : Stops [] := by simp [Stops]
    rw [(cutDec_blank hx hstops).1] at h
    cases h
  have hds : dash ∉ x.dropWhile isSpace :=
    fun h => hd ((List.dropWhile_sublist isSpace).subset h)
  constructor
  · unfold cutDec at h
    dsimp only at h
    split at h
    · cases h
    · cases h
      exact (cutSign_plain hx hds []).1
  · rintro rfl
    exact hx rfl

/-- **`parse_item`** reads the text of the item. -/
theorem parseItem_eq (pinMode : Bool) (b : Board) (max : Nat) :
    ReadsAlone (parseItem pinMode b max) (readItem pinMode b max) := by
  intro x tail hd _ ht
  have hother (h : ∀ neg n rest, cutDec (x ++ tail) = some (neg, n, rest) →
      (x ++ tail).length - rest.length ≠ x.length) :
      parseItem pinMode b max (x ++ tail) x.length = nameItem pinMode b x := by
    unfold parseItem nameItem sscanfDec
    rw [List.take_left]
    cases hcut : cutDec (x ++ tail) with
    | none => rfl
    | some t =>
      obtain ⟨neg, n, rest⟩ := t
      exact if_neg (h neg n rest hcut)
  by_cases hx : x.dropWhile isSpace = []
  · obtain ⟨hnone, hrest⟩ := cutDec_blank hx ht
    rw [hother fun neg n rest h => ?_]
    · unfold readItem
      rw [hnone]
    · have := hrest neg n rest h
      rw [List.length_append]
      omega
  · have hcut := cutDec_append hx hd ht
    cases hdec : cutDec x with
    | none =>
      rw [hdec] at hcut
      rw [hother fun neg n rest h => by rw [hcut] at h; cases h]
      unfold readItem
      rw [hdec]
    | some t =>
      obtain ⟨neg, n, rest⟩ := t
      obtain ⟨rfl, hne⟩ := cutDec_plus hd hdec
      rw [hdec, Option.map_some] at hcut
      cases rest with
      | nil =>
        unfold parseItem readItem sscanfDec
        rw [hcut, hdec]
        dsimp only [Option.map_some]
        rw [List.nil_append, List.length_append, Nat.add_sub_cancel, if_pos rfl]
        rfl
      | cons c rest =>
        rw [hother]
        · unfold readItem
          rw [hdec]
        · intro neg n rest' h
          rw [hcut] at h
          cases h
          have := List.length_pos_iff.mpr hne
          simp only [List.length_append, List.length_cons]
          omega

end Decimal

/-! ## The list of `main` -/

theorem asU32_small {n : Nat} (h : n < 2 ^ 32) : asU32 n = n := by
  rw [asU32, scanWord_small h, BitVec.toNat_ofNat, Nat.mod_eq_of_lt h]

section ListMask

variable {pinMode : Bool} {b : Board} {text x : Bytes} {n : Nat}

/-- A number below the limit is read as it is. -/
theorem itemNumber_asU32 {max : Nat} (hmax : max ≤ 2 ^ 32)
    (h : itemNumber id pinMode b max x = some n) : itemNumber asU32 pinMode b max x = some n := by
  unfold itemNumber at h ⊢
  split
  · next neg m hcut =>
    rw [hcut] at h
    dsimp only [id] at h
    split at h
    · next hlt =>
      rw [asU32_small (by omega), if_pos hlt]
      exact h
    · cases h
  · next hcut =>
    split at h
    · next hcut' => exact absurd hcut' (hcut _ _)
    · exact h

/-- The items stay within the numbers of `main`. -/
theorem itemNumber_le {value : Nat → Nat}
    (h : itemNumber value pinMode b (lastNum pinMode b + 1) x = some n) :
    n ≤ lastNum pinMode b := by
  unfold itemNumber at h
  split at h
  · split at h
    · cases h
      omega
    · cases h
  · obtain ⟨gpio, hname, h⟩ := Option.bind_eq_some_iff.mp h
    unfold lastNum
    cases pinMode with
    | true =>
      obtain ⟨hdr, hhdr, hfind⟩ := Option.bind_eq_some_iff.mp h
      have hmem := List.mem_range'_1.mp (List.mem_of_find?_eq_some hfind)
      rw [hhdr]
      simp only [if_true, Option.map_some, Option.getD_some]
      omega
    | false =>
      cases h
      have hmem := List.mem_range.mp (List.mem_of_find?_eq_some hname)
      rw [if_neg (by decide)]
      omega

/-- **The mask of `main`**: the numbers of the list, with its numbers modulo 2^32. -/
theorem listMask_done {m : Mask} : listMask pinMode b text = .done m ↔
    ListValid (itemNumber asU32 pinMode b (lastNum pinMode b + 1)) text ∧
      ∀ i, m.getLsbD i = true ↔
        Listed (itemNumber asU32 pinMode b (lastNum pinMode b + 1)) text i := by
  have hread : (fun x => (readItem pinMode b (lastNum pinMode b + 1) x).number) =
      itemNumber asU32 pinMode b (lastNum pinMode b + 1) :=
    funext (readItem_number pinMode b _)
  have hlt : ∀ x n, readItem pinMode b (lastNum pinMode b + 1) x = .num n → n < 128 := by
    intro x n h
    rw [← Item.number_eq, readItem_number] at h
    have := itemNumber_le h
    have := lastNum_le pinMode b
    omega
  unfold listMask
  rw [parseList_done (parseItem_eq pinMode b _) hlt, hread]
  simp

/-- A valid list has a mask. -/
theorem listMask_valid
    (h : ListValid (itemNumber asU32 pinMode b (lastNum pinMode b + 1)) text) :
    ∃ m, listMask pinMode b text = .done m := by
  classical
  let nums := (List.range 128).filter fun i =>
    Listed (itemNumber asU32 pinMode b (lastNum pinMode b + 1)) text i
  refine ⟨nums.foldl (fun m i => m ||| BitVec.twoPow 128 i) 0, listMask_done.mpr ⟨h, fun i => ?_⟩⟩
  have hlt (hi : Listed (itemNumber asU32 pinMode b (lastNum pinMode b + 1)) text i) : i < 128 := by
    have := hi.le fun _ _ => itemNumber_le
    have := lastNum_le pinMode b
    omega
  have hzero : ¬ (0 : Mask).getLsbD i = true := by simp
  rw [foldl_twoPow, or_iff_right hzero, List.mem_filter, List.mem_range, decide_eq_true_eq]
  constructor
  · intro hi
    exact hi.1.2
  · intro hi
    exact ⟨⟨hlt hi, hi⟩, hlt hi⟩

end ListMask

end Esp32S31.Pinctrl
