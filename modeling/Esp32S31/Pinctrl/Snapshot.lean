import Mathlib.Data.List.TakeWhile
import Esp32S31.Pinctrl.Board

/-!
# The round trip of a snapshot

The text that `snapshot_dump` writes is a list of lines (`dump_lines`), each of which fits the
buffer of the loader, so that the loader reads it line by line (`loadLines_unlines`) and each line
puts back its part of the registers or of the board.

**`snapshot_roundtrip`**: what was dumped is what a fresh board has after the load.
-/

namespace Esp32S31.Pinctrl

open Esp32S31.Lib Esp32S31.Lib.Text

/-! ## Lines -/

/-- A line that the loader reads whole. -/
structure Fits (l : Bytes) : Prop where
  newline : newline ∉ l
  nul : 0 ∉ l
  length : l.length + 1 < lineLen

/-- A file of lines. -/
def unlines (ls : List Bytes) : Bytes := ls.flatMap fun l => l ++ [newline]

theorem unlines_cons (l : Bytes) (ls : List Bytes) : unlines
    (l :: ls) = l ++ newline :: unlines ls := by
  simp [unlines]

theorem unlines_append (ls ms : List Bytes) : unlines (ls ++ ms) = unlines ls ++ unlines ms :=
  List.flatMap_append

/-- The loader on a list of lines. -/
def loadAll (ls : List Bytes) (s : Regs × Board) : Option (Regs × Board) :=
  ls.foldlM (fun s l => loadLine l s.1 s.2) s

theorem loadAll_append (ls ms : List Bytes) (s : Regs × Board) :
    loadAll (ls ++ ms) s = (loadAll ls s).bind (loadAll ms) := List.foldlM_append

theorem loadAll_cons {l : Bytes} {ls : List Bytes} {s s' : Regs × Board}
    (h : loadLine l s.1 s.2 = some s') : loadAll (l :: ls) s = loadAll ls s' := by
  simp [loadAll, h]

/-- The loader strips the newline of a line that fits. -/
theorem strip_line {l : Bytes} (h : Fits l) :
    (cstr (l ++ [newline])).takeWhile (· ≠ newline) = l := by
  have hnul : ∀ c ∈ l ++ [newline], decide (c ≠ 0) = true := by
    intro c hc
    rcases List.mem_append.mp hc with hc | hc
    · exact decide_eq_true fun e => h.nul (e ▸ hc)
    · rw [List.mem_singleton.mp hc]
      decide
  have hnl : ∀ c ∈ l, decide (c ≠ newline) = true := fun c hc => decide_eq_true fun e =>
    h.newline (e ▸ hc)
  have hcstr : cstr (l ++ [newline]) = l ++ [newline] := List.takeWhile_eq_self_iff.mpr hnul
  rw [hcstr, List.takeWhile_append_of_pos hnl]
  simp

/-- The loader reads a file of lines that fit line by line. -/
theorem loadLines_unlines {ls : List Bytes} (hfit : ∀ l ∈ ls, Fits l) (lineno : Nat)
    {s s' : Regs × Board}
    (h : loadAll ls s = some s') : loadLines lineno (unlines ls) s.1 s.2 = .ok s' := by
  induction ls generalizing lineno s with
  | nil =>
    cases h
    rw [loadLines]
    rfl
  | cons l ls ih =>
    have hl := hfit l List.mem_cons_self
    obtain ⟨t, ht, hrest⟩ : ∃ t, loadLine l s.1 s.2 = some t ∧ loadAll ls t = some s' := by
      cases ht : loadLine l s.1 s.2 with
      | none => simp [loadAll, ht] at h
      | some t => exact ⟨t, rfl, by rw [← h, loadAll_cons ht]⟩
    have hget := fgets_line hl.newline hl.length (unlines ls)
    rw [unlines_cons, loadLines]
    split
    · next hnone => rw [hget] at hnone; cases hnone
    · next line rest hsome =>
      rw [hget] at hsome
      cases hsome
      rw [strip_line hl, ht]
      exact ih (fun m hm => hfit m (List.mem_cons_of_mem l hm)) _ hrest

/-- The key of a line and what is behind it. -/
theorem key_args {key : Bytes} (hk : space ∉ key) (args : Bytes) :
    (key ++ space :: args).takeWhile (· ≠ space) = key ∧
      ((key ++ space :: args).dropWhile (· ≠ space)).drop 1 = args := by
  have hpos : ∀ c ∈ key, decide (c ≠ space) = true := fun c hc => decide_eq_true fun e =>
    hk (e ▸ hc)
  rw [List.takeWhile_append_of_pos hpos, List.dropWhile_append_of_pos hpos]
  simp

/-! ## Pages -/

/-- The words of a row. -/
def wordsText (page : Page) (i n : Nat) : Bytes :=
  (List.range n).flatMap fun j => space :: hex 8 (page (i + j)).toNat

theorem wordsText_succ (page : Page) (i n : Nat) :
    wordsText page i (n + 1) = space :: (hex 8 (page i).toNat ++ wordsText page (i + 1) n) := by
  unfold wordsText
  rw [List.range_succ_eq_map, List.flatMap_cons, List.flatMap_map]
  simp [Nat.add_assoc, Nat.add_comm 1]

theorem mem_wordsText {page : Page} {i n : Nat} {c : UInt8} (h : c ∈ wordsText page i n) :
    c = space ∨ ∃ w m, c ∈ hex w m := by
  obtain ⟨j, -, hc⟩ := List.mem_flatMap.mp h
  rcases List.mem_cons.mp hc with rfl | hc
  · exact Or.inl rfl
  · exact Or.inr ⟨8, _, hc⟩

theorem ends_wordsText (page : Page) (i n : Nat) : Ends (wordsText page i n) := by
  refine ⟨?_, ?_, ?_⟩
  · cases n with
    | zero => simp [wordsText]
    | succ n =>
      rw [wordsText_succ]
      intro c hc
      cases hc
      decide
  all_goals
    intro h
    rcases mem_wordsText h with h | ⟨w, m, h⟩
    · cases h
    · obtain ⟨-, -, -, hx, hX⟩ := plain_hex h
      contradiction

/-- The loader reads back the words of a row. -/
theorem loadRow_words (page : Page) (n i : Nat) (p : Page) : loadRow n i p (wordsText page i n) =
    some fun k => if i ≤ k ∧ k < i + n then page k else p k := by
  induction n generalizing i p with
  | zero =>
    rw [loadRow]
    refine congrArg some (funext fun k => ?_)
    rw [if_neg (by omega)]
  | succ n ih =>
    have hscan := (sscanfHex_hex (k := 8) (by decide) (by decide) (page i).isLt
      (ends_wordsText page (i + 1) n)).2
    rw [wordsText_succ, loadRow, hscan]
    dsimp only
    rw [ih]
    refine congrArg some (funext fun k => ?_)
    by_cases hk : k = i
    · subst hk
      rw [if_neg (by omega), if_pos (by omega), Function.update_self, BitVec.ofNat_toNat,
        BitVec.setWidth_eq]
    · rw [Function.update_of_ne hk]
      by_cases hin : i + 1 ≤ k ∧ k < i + 1 + n
      · rw [if_pos hin, if_pos (by omega)]
      · rw [if_neg hin, if_neg (by omega)]

/-- What a row says behind its key. -/
def rowArgs (page : Page) (k : Nat) : Bytes := hex 3 (32 * k) ++ wordsText page (8 * k) 8

theorem loadWords_row (page p : Page) {k : Nat} (hk : k < 128) :
    loadWords p (rowArgs page k) = some fun i => if 8 * k ≤ i ∧ i < 8 * k + 8 then page i
      else p i := by
  have hscan := (sscanfHex_hex (k := 3) (by decide) (by decide) (n := 32 * k) (by omega)
    (ends_wordsText page (8 * k) 8)).1
  have hoff : (BitVec.ofNat 32 (32 * k)).toNat = 32 * k := by
    rw [BitVec.toNat_ofNat]
    omega
  unfold loadWords rowArgs
  rw [hscan]
  dsimp only
  have hfits : ¬ (32 * k % 32 ≠ 0 ∨ 32 * k / 4 + 8 > pageWords) := by
    unfold pageWords
    omega
  rw [hoff, if_neg hfits, show 32 * k / 4 = 8 * k by omega]
  exact loadRow_words page 8 (8 * k) p

/-- The rows of a page. -/
def pageLines (name : String) (page : Page) (n : Nat) : List Bytes :=
  (List.range n).map fun k => ascii name ++ space :: rowArgs page k

theorem dumpPage_lines (name : String) (page : Page) : dumpPage name page = unlines
    (pageLines name page 128) := by
  unfold dumpPage unlines pageLines
  rw [List.flatMap_map]
  refine congrArg (fun f => (List.range 128).flatMap f) (funext fun k => ?_)
  unfold dumpRow rowArgs wordsText
  rw [show 32 * k / 4 = 8 * k by omega]
  simp [List.append_assoc]

/-- The page after the first `n` rows. -/
def rowsLoaded (page p : Page) (n : Nat) : Page := fun i => if i < 8 * n then page i else p i

theorem rowsLoaded_succ (page p : Page) (n : Nat) :
    (fun i => if 8 * n ≤ i ∧ i < 8 * n + 8 then page i else rowsLoaded page p n i) =
      rowsLoaded page p (n + 1) := by
  funext i
  unfold rowsLoaded
  by_cases h : i < 8 * n
  · rw [if_neg (by omega), if_pos h, if_pos (by omega)]
  · by_cases h' : i < 8 * n + 8
    · rw [if_pos (by omega), if_pos (by omega)]
    · rw [if_neg (by omega), if_neg h, if_neg (by omega)]

/-- The loader reads back the rows of a page; `put` is where the page with this name goes. -/
theorem loadAll_page (name : String) (get : Regs → Page) (put : Regs → Page → Regs)
    (hget : ∀ r p, get (put r p) = p) (hput : ∀ r p q, put (put r p) q = put r q)
    (hline : ∀ args r b, loadLine (ascii name ++ space :: args) r b =
      (loadWords (get r) args).map fun p => (put r p, b))
    (page : Page) (r : Regs) (b : Board) (hself : put r (get r) = r) {n : Nat} (hn : n ≤ 128) :
    loadAll (pageLines name page n) (r, b) = some (put r (rowsLoaded page (get r) n), b) := by
  induction n with
  | zero =>
    have h0 : rowsLoaded page (get r) 0 = get r := by
      funext i
      exact if_neg (by omega)
    rw [h0, hself]
    rfl
  | succ n ih =>
    have hrow : pageLines name page (n + 1) =
        pageLines name page n ++ [ascii name ++ space :: rowArgs page n] := by
      simp [pageLines, List.range_succ]
    have hwords : loadWords (rowsLoaded page (get r) n) (rowArgs page n) =
        some (rowsLoaded page (get r) (n + 1)) :=
      (loadWords_row page _ (Nat.lt_of_succ_le hn)).trans (congrArg some (rowsLoaded_succ page _ n))
    have hlast : loadLine (ascii name ++ space :: rowArgs page n)
        (put r (rowsLoaded page (get r) n)) b = some
          (put r (rowsLoaded page (get r) (n + 1)), b) := by
      rw [hline, hget, hwords, Option.map_some, hput]
    rw [hrow, loadAll_append, ih (by omega), Option.bind_some,
      loadAll_cons (s := (put r (rowsLoaded page (get r) n), b)) hlast]
    rfl

/-- A line with the key `key` does what the branch of this key says. -/
theorem loadLine_key {key : Bytes} (hk : space ∉ key) (args : Bytes) (r : Regs) (b : Board) :
    loadLine (key ++ space :: args) r b =
      if key = ascii "compatible" then some (r, { b with compatible := copyStr 64 args })
      else if key = ascii "model" then some (r, { b with model := copyStr 96 args })
      else if key = ascii "names" then some (r, loadNames b args)
      else if key = ascii "reserved" then some (r, { b with reserved := strtoul 64 args })
      else if key = ascii "used" then some (r, { b with used := strtoul 64 args })
      else if key = ascii "cnnt" then some ({ r with cnnt := strtoul 32 args }, b)
      else if key = ascii "iomux" then
        (loadWords r.iomux args).map fun p => ({ r with iomux := p }, b)
      else if key = ascii "gpio" then (loadWords r.gpio args).map fun p => ({ r with gpio := p }, b)
      else if key.head? ≠ some 0x23 ∧ key ≠ [] then none
      else some (r, b) := by
  obtain ⟨hkey, hargs⟩ := key_args hk args
  unfold loadLine
  rw [hkey, hargs]

theorem loadLine_iomux (args : Bytes) (r : Regs) (b : Board) :
    loadLine (ascii "iomux" ++ space :: args) r b =
      (loadWords r.iomux args).map fun p => ({ r with iomux := p }, b) := by
  rw [loadLine_key (by decide), if_neg (by decide), if_neg (by decide), if_neg (by decide),
    if_neg (by decide), if_neg (by decide), if_neg (by decide), if_pos rfl]

theorem loadLine_gpio (args : Bytes) (r : Regs) (b : Board) :
    loadLine (ascii "gpio" ++ space :: args) r b =
      (loadWords r.gpio args).map fun p => ({ r with gpio := p }, b) := by
  rw [loadLine_key (by decide), if_neg (by decide), if_neg (by decide), if_neg (by decide),
    if_neg (by decide), if_neg (by decide), if_neg (by decide), if_neg (by decide), if_pos rfl]

/-! ## The board -/

/-- The items from `gpio` on, with commas between them. -/
def joinFrom (names : Nat → Bytes) : Nat → Nat → Bytes
  | 0, _ => []
  | 1, gpio => names gpio
  | n + 2, gpio => names gpio ++ comma :: joinFrom names (n + 1) (gpio + 1)

/-- The loader reads back the names. -/
theorem loadNamesFrom_join {names : Nat → Bytes} {n gpio : Nat}
    (hok : ∀ g, gpio ≤ g → g < gpio + n → comma ∉ names g ∧ (names g).length < nameLen) (hn : 0 < n)
    (old : Nat → Bytes) : loadNamesFrom n gpio old (some (joinFrom names n gpio)) =
      fun g => if gpio ≤ g ∧ g < gpio + n then names g else old g := by
  induction n generalizing gpio old with
  | zero => cases hn
  | succ n ih =>
    obtain ⟨hcomma, hlen⟩ := hok gpio (Nat.le_refl _) (by omega)
    have hpos : ∀ c ∈ names gpio, decide (c ≠ comma) = true :=
      fun c hc => decide_eq_true fun e => hcomma (e ▸ hc)
    have hcopy : copyStr nameLen (names gpio) = names gpio := if_pos hlen
    cases n with
    | zero =>
      have htake := List.takeWhile_eq_self_iff.mpr hpos
      have hdrop := List.dropWhile_eq_nil_iff.mpr hpos
      rw [joinFrom, loadNamesFrom, htake, hdrop, hcopy, loadNamesFrom]
      funext g
      by_cases hg : g = gpio
      · subst hg
        rw [Function.update_self, if_pos (by omega)]
      · rw [Function.update_of_ne hg, if_neg (by omega)]
    | succ n =>
      have htake : (names gpio ++ comma :: joinFrom names (n + 1) (gpio + 1)).takeWhile
          (· ≠ comma) = names gpio := by
        rw [List.takeWhile_append_of_pos hpos]
        simp
      have hdrop : (names gpio ++ comma :: joinFrom names (n + 1) (gpio + 1)).dropWhile
          (· ≠ comma) = comma :: joinFrom names (n + 1) (gpio + 1) := by
        rw [List.dropWhile_append_of_pos hpos]
        simp
      rw [joinFrom, loadNamesFrom, htake, hdrop, hcopy]
      dsimp only
      rw [ih (fun g h1 h2 => hok g (by omega) (by omega)) (by omega)]
      funext g
      by_cases hg : g = gpio
      · subst hg
        rw [if_neg (by omega), Function.update_self, if_pos (by omega)]
      · rw [Function.update_of_ne hg]
        by_cases hin : gpio + 1 ≤ g ∧ g < gpio + 1 + (n + 1)
        · rw [if_pos hin, if_pos (by omega)]
        · rw [if_neg hin, if_neg (by omega)]

/-- The loop of the dump writes a comma in front of each name but the first. -/
theorem joinFrom_eq (names : Nat → Bytes) (n gpio : Nat) :
    joinFrom names (n + 1) gpio =
      names gpio ++ (List.range n).flatMap fun k => comma :: names (gpio + 1 + k) := by
  induction n generalizing gpio with
  | zero => simp [joinFrom]
  | succ n ih =>
    rw [joinFrom, ih, List.range_succ_eq_map, List.flatMap_cons, List.flatMap_map]
    simp [Nat.add_comm, Nat.add_left_comm]

theorem dump_names (names : Nat → Bytes) :
    ((List.range npins).flatMap fun gpio => (if gpio = 0 then [] else [comma]) ++ names gpio) =
      joinFrom names npins 0 := by
  rw [npins, joinFrom_eq, List.range_succ_eq_map, List.flatMap_cons, List.flatMap_map]
  simp [Nat.add_comm 1]

theorem mem_joinFrom {names : Nat → Bytes} {n gpio : Nat} {c : UInt8}
    (h : c ∈ joinFrom names n gpio) : c = comma ∨ ∃ g < gpio + n, c ∈ names g := by
  induction n generalizing gpio with
  | zero => cases h
  | succ n ih =>
    cases n with
    | zero => exact Or.inr ⟨gpio, by omega, h⟩
    | succ n =>
      rcases List.mem_append.mp h with h | h
      · exact Or.inr ⟨gpio, by omega, h⟩
      · rcases List.mem_cons.mp h with rfl | h
        · exact Or.inl rfl
        · obtain rfl | ⟨g, hg, hc⟩ := ih h
          · exact Or.inl rfl
          · exact Or.inr ⟨g, by omega, hc⟩

theorem joinFrom_length {names : Nat → Bytes} {m : Nat} (hm : ∀ g < npins, (names g).length ≤ m)
    (n gpio : Nat) (hn : gpio + n < npins) :
    (joinFrom names (n + 1) gpio).length ≤ m + n * (m + 1) := by
  induction n generalizing gpio with
  | zero =>
    have := hm gpio hn
    rw [joinFrom]
    omega
  | succ n ih =>
    have h0 := hm gpio (by omega)
    have h1 := ih (gpio + 1) (by omega)
    rw [joinFrom, List.length_append, List.length_cons, Nat.succ_mul]
    omega

/-- A board that a snapshot can hold: what its fixed arrays can hold, without the separators. -/
structure Storable (b : Board) : Prop where
  compatible : b.compatible.length ≤ 63 ∧ newline ∉ b.compatible ∧ 0 ∉ b.compatible
  model : b.model.length ≤ 95 ∧ newline ∉ b.model ∧ 0 ∉ b.model
  names : ∀ g < npins, (b.names g).length < nameLen ∧ comma ∉ b.names g ∧ newline ∉ b.names g ∧
    0 ∉ b.names g

/-! ## The whole text -/

/-- The lines of the dump. -/
def dumpLines (r : Regs) (b : Board) : List Bytes :=
  [ascii "# esp32s31-pinctrl snapshot 1",
    ascii "compatible" ++ space :: b.compatible,
    ascii "model" ++ space :: b.model,
    ascii "names" ++ space :: joinFrom b.names npins 0,
    ascii "reserved" ++ space :: hex 16 b.reserved.toNat,
    ascii "used" ++ space :: hex 16 b.used.toNat,
    ascii "cnnt" ++ space :: hex 8 r.cnnt.toNat] ++
  (pageLines "iomux" r.iomux 128 ++ pageLines "gpio" r.gpio 128)

theorem dump_lines (r : Regs) (b : Board) : snapshotDump r b = unlines (dumpLines r b) := by
  have hc : ascii "compatible " = ascii "compatible" ++ [space] := by decide
  have hm : ascii "model " = ascii "model" ++ [space] := by decide
  have hn : ascii "names " = ascii "names" ++ [space] := by decide
  have hr : ascii "reserved " = ascii "reserved" ++ [space] := by decide
  have hu : ascii "used " = ascii "used" ++ [space] := by decide
  have ht : ascii "cnnt " = ascii "cnnt" ++ [space] := by decide
  unfold snapshotDump dumpLines
  rw [dump_names, dumpPage_lines, dumpPage_lines, unlines_append, unlines_append, hc, hm, hn, hr,
    hu, ht]
  simp [unlines]

/-- A line fits if its key and its text do. -/
theorem fits_key {key args : Bytes} (hk : newline ∉ key ∧ 0 ∉ key) (ha : newline ∉ args ∧ 0 ∉ args)
    (hlen : key.length + args.length + 2 < lineLen) : Fits (key ++ space :: args) where
  newline := by
    intro h
    rcases List.mem_append.mp h with h | h
    · exact hk.1 h
    · rcases List.mem_cons.mp h with h | h
      · cases h
      · exact ha.1 h
  nul := by
    intro h
    rcases List.mem_append.mp h with h | h
    · exact hk.2 h
    · rcases List.mem_cons.mp h with h | h
      · cases h
      · exact ha.2 h
  length := by
    rw [List.length_append, List.length_cons]
    omega

theorem hex_plain (w n : Nat) : newline ∉ hex w n ∧ 0 ∉ hex w n := by
  constructor
  all_goals
    intro h
    cases isXdigit_hex h

theorem rowArgs_plain (page : Page) (k : Nat) : newline ∉ rowArgs page k ∧ 0 ∉ rowArgs page k := by
  constructor
  all_goals
    intro h
    rcases List.mem_append.mp h with h | h
    · cases isXdigit_hex h
    · rcases mem_wordsText h with h | ⟨w, m, h⟩
      · cases h
      · cases isXdigit_hex h

theorem rowArgs_length (page : Page) (k : Nat) : (rowArgs page k).length = 75 := by
  unfold rowArgs wordsText
  rw [List.length_append, hex_length, List.length_flatMap]
  simp only [List.length_cons, hex_length]
  rfl

theorem pageLines_fit {name : String} (hname : newline ∉ ascii name ∧ 0 ∉ ascii name)
    (hlen : (ascii name).length ≤ 8) (page : Page) (n : Nat) :
      ∀ l ∈ pageLines name page n, Fits l := by
  intro l hl
  obtain ⟨k, -, rfl⟩ := List.mem_map.mp hl
  refine fits_key hname (rowArgs_plain page k) ?_
  rw [rowArgs_length, lineLen, npins, nameLen]
  omega

/-- Every line of the dump fits; the line of the names is the longest. -/
theorem dumpLines_fit (r : Regs) {b : Board} (h : Storable b) : ∀ l ∈ dumpLines r b, Fits l := by
  have hline : lineLen = 2000 := rfl
  have hnames : newline ∉ joinFrom b.names npins 0 ∧ 0 ∉ joinFrom b.names npins 0 := by
    constructor
    all_goals
      intro hc
      rcases mem_joinFrom hc with hc | ⟨g, hg, hc⟩
      · cases hc
      · obtain ⟨-, -, hn, hz⟩ := h.names g (by omega)
        contradiction
  have hnamesLen : (joinFrom b.names npins 0).length ≤ 1983 := by
    have := joinFrom_length (m := 31) (fun g hg => Nat.le_of_lt_succ (h.names g hg).1) 61
      0 (by decide)
    exact this
  intro l hl
  unfold dumpLines at hl
  rcases List.mem_append.mp hl with hl | hl
  · simp only [List.mem_cons, List.not_mem_nil, or_false] at hl
    rcases hl with rfl | rfl | rfl | rfl | rfl | rfl | rfl
    · exact ⟨by decide, by decide, by decide⟩
    · refine fits_key (by decide) h.compatible.2 ?_
      rw [show (ascii "compatible").length = 10 by decide]
      have := h.compatible.1
      omega
    · refine fits_key (by decide) h.model.2 ?_
      rw [show (ascii "model").length = 5 by decide]
      have := h.model.1
      omega
    · refine fits_key (by decide) hnames ?_
      rw [show (ascii "names").length = 5 by decide]
      omega
    · refine fits_key (by decide) (hex_plain _ _) ?_
      rw [hex_length]
      decide
    · refine fits_key (by decide) (hex_plain _ _) ?_
      rw [hex_length]
      decide
    · refine fits_key (by decide) (hex_plain _ _) ?_
      rw [hex_length]
      decide
  · rcases List.mem_append.mp hl with hl | hl
    · exact pageLines_fit (by decide) (by decide) _ _ l hl
    · exact pageLines_fit (by decide) (by decide) _ _ l hl

/-- The registers and the board after the lines of the dump. -/
def restoredRegs (r r0 : Regs) : Regs :=
  { r0 with
    iomux := rowsLoaded r.iomux r0.iomux 128
    gpio := rowsLoaded r.gpio r0.gpio 128
    cnnt := r.cnnt }

def restoredBoard (b b0 : Board) : Board :=
  { b0 with
    compatible := b.compatible
    model := b.model
    names := fun g => if 0 ≤ g ∧ g < 0 + npins then b.names g else b0.names g
    reserved := b.reserved
    used := b.used }

theorem loadAll_dump (r r0 : Regs) {b : Board} (h : Storable b) (b0 : Board) :
    loadAll (dumpLines r b) (r0, b0) = some (restoredRegs r r0, restoredBoard b b0) := by
  have hcomp : copyStr 64 b.compatible = b.compatible := if_pos (Nat.lt_succ_of_le h.compatible.1)
  have hmodel : copyStr 96 b.model = b.model := if_pos (Nat.lt_succ_of_le h.model.1)
  have hok : ∀ g, 0 ≤ g → g < 0 + npins → comma ∉ b.names g ∧ (b.names g).length < nameLen :=
    fun g _ hg => ⟨(h.names g (by omega)).2.1, (h.names g (by omega)).1⟩
  have hnames := loadNamesFrom_join hok (by decide) b0.names
  have hres : strtoul 64 (hex 16 b.reserved.toNat) = b.reserved :=
    strtoul_hex (k := 16) (by decide) _
  have hused : strtoul 64 (hex 16 b.used.toNat) = b.used := strtoul_hex (k := 16) (by decide) _
  have hcnnt : strtoul 32 (hex 8 r.cnnt.toNat) = r.cnnt := strtoul_hex (k := 8) (by decide) _
  have h1 : ∀ s : Regs × Board, loadLine (ascii "# esp32s31-pinctrl snapshot 1") s.1 s.2 = some s :=
    fun s => rfl
  have h2 : ∀ s : Regs × Board, loadLine (ascii "compatible" ++ space :: b.compatible) s.1 s.2 =
      some (s.1, { s.2 with compatible := b.compatible }) := by
    intro s
    rw [loadLine_key (by decide), if_pos rfl, hcomp]
  have h3 : ∀ s : Regs × Board, loadLine (ascii "model" ++ space :: b.model) s.1 s.2 =
      some (s.1, { s.2 with model := b.model }) := by
    intro s
    rw [loadLine_key (by decide), if_neg (by decide), if_pos rfl, hmodel]
  have h4 : ∀ s : Regs × Board,
      loadLine (ascii "names" ++ space :: joinFrom b.names npins 0) s.1 s.2 =
        some (s.1, loadNames s.2 (joinFrom b.names npins 0)) := by
    intro s
    rw [loadLine_key (by decide), if_neg (by decide), if_neg (by decide), if_pos rfl]
  have h5 : ∀ s : Regs × Board,
      loadLine (ascii "reserved" ++ space :: hex 16 b.reserved.toNat) s.1 s.2 =
        some (s.1, { s.2 with reserved := b.reserved }) := by
    intro s
    rw [loadLine_key (by decide), if_neg (by decide), if_neg (by decide), if_neg (by decide),
      if_pos rfl, hres]
  have h6 : ∀ s : Regs × Board, loadLine (ascii "used" ++ space :: hex 16 b.used.toNat) s.1 s.2 =
      some (s.1, { s.2 with used := b.used }) := by
    intro s
    rw [loadLine_key (by decide), if_neg (by decide), if_neg (by decide), if_neg (by decide),
      if_neg (by decide), if_pos rfl, hused]
  have h7 : ∀ s : Regs × Board, loadLine (ascii "cnnt" ++ space :: hex 8 r.cnnt.toNat) s.1 s.2 =
      some ({ s.1 with cnnt := r.cnnt }, s.2) := by
    intro s
    rw [loadLine_key (by decide), if_neg (by decide), if_neg (by decide), if_neg (by decide),
      if_neg (by decide), if_neg (by decide), if_pos rfl, hcnnt]
  have hio := loadAll_page "iomux" Regs.iomux (fun r p => { r with iomux := p })
    (fun _ _ => rfl) (fun _ _ _ => rfl) loadLine_iomux r.iomux
  have hgp := loadAll_page "gpio" Regs.gpio (fun r p => { r with gpio := p })
    (fun _ _ => rfl) (fun _ _ _ => rfl) loadLine_gpio r.gpio
  unfold dumpLines
  rw [loadAll_append, loadAll_cons (h1 _), loadAll_cons (h2 _), loadAll_cons (h3 _),
    loadAll_cons (h4 _), loadAll_cons (h5 _), loadAll_cons (h6 _), loadAll_cons (h7 _)]
  dsimp only [loadAll, List.foldlM_nil, Option.pure_def, Option.bind_some]
  rw [← loadAll, loadAll_append, hio _ _ rfl (by decide), Option.bind_some, hgp _ _ rfl (by decide),
    loadNames, hnames]
  rfl

/-- **A snapshot restores what was dumped**: both pages, the CNNT word and the board. -/
theorem snapshot_roundtrip (r r0 : Regs) (b : Board) (h : Storable b) : ∃ r' b',
    snapshotLoad (.ok (snapshotDump r b)) r0 boardInit = .ok (r', b') ∧
    (∀ i < pageWords, r'.iomux i = r.iomux i ∧ r'.gpio i = r.gpio i) ∧ r'.cnnt = r.cnnt ∧
    b'.compatible = b.compatible ∧ b'.model = b.model ∧ (∀ g < npins, b'.names g = b.names g) ∧
    b'.reserved = b.reserved ∧ b'.used = b.used := by
  let start : Regs := { r0 with live := false, iomux := fun _ => 0#32, gpio := fun _ => 0#32 }
  let board : Board := { restoredBoard b boardInit with
    haveLines := true, hdr := boardHeader b.compatible }
  have hload := loadLines_unlines (dumpLines_fit r h) 0 (loadAll_dump r start h boardInit)
  rw [← dump_lines] at hload
  refine ⟨restoredRegs r start, board, ?_, ?_, rfl, rfl, rfl, ?_, rfl, rfl⟩
  · rw [snapshotLoad, hload]
    rfl
  · intro i hi
    have hi' : i < 8 * 128 := hi
    exact ⟨if_pos hi', if_pos hi'⟩
  · intro g hg
    have hg' : 0 ≤ g ∧ g < 0 + npins := ⟨Nat.zero_le g, by omega⟩
    exact if_pos hg'

/-- A board with an empty name, a name of spaces and a model that starts with a space. -/
def spacesBoard : Board :=
  { boardInit with
    model := ascii " a  b"
    names := fun g => if g = 0 then ascii " " else if g = 61 then ascii "x y" else []
    reserved := 0x10#64 }

theorem spacesBoard_storable : Storable spacesBoard where
  compatible := by decide
  model := by decide
  names := by decide

theorem snapshot_roundtrip_spaces : Storable spacesBoard ∧ ∃ r' b',
    snapshotLoad (.ok (snapshotDump ⟨false, fun i => .ofNat 32 i, fun _ => 0#32, 3#32⟩ spacesBoard))
      ⟨false, fun _ => 0#32, fun _ => 0#32, 0#32⟩ boardInit = .ok (r', b') ∧
    b'.names 61 = ascii "x y" ∧ r'.iomux 7 = 7#32 := by
  obtain ⟨r', b', hload, hpages, -, -, -, hnames, -⟩ := snapshot_roundtrip
    ⟨false, fun i => .ofNat 32 i, fun _ => 0#32, 3#32⟩ ⟨false, fun _ => 0#32, fun _ => 0#32, 0#32⟩
    spacesBoard spacesBoard_storable
  exact ⟨spacesBoard_storable, r', b', hload, hnames 61 (by decide), (hpages 7 (by decide)).1⟩

end Esp32S31.Pinctrl
