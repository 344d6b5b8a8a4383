import Mathlib.Logic.Basic
import Mathlib.Data.List.TakeDrop
import Esp32S31.Lib.Word

/-!
# C text

Strings and files as lists of bytes, a string without its NUL: `fgets`, `strtoul` and `sscanf("%x")`
with base 16, and `printf("%0wx")`. A number that `printf` wrote is what the two read
(`strtoul_hex`, `sscanfHex_hex`), and a file is read line by line if no line is too long
(`fgets_line`).
-/

namespace Esp32S31.Lib.Text

/-- A string, or the content of a file. -/
abbrev Bytes := List UInt8

/-- The bytes of a literal. -/
def ascii (s : String) : Bytes := s.toList.map fun c => UInt8.ofNat c.toNat

def newline : UInt8 := 0x0a
def space : UInt8 := 0x20
def comma : UInt8 := 0x2c

/-- The C string at the start of `b`. -/
def cstr (b : Bytes) : Bytes := b.takeWhile (· ≠ 0)

/-! ## Lines -/

/-- The bytes up to the first newline, and the rest; at most `n`. -/
def cutLine : Nat → Bytes → Bytes × Bytes
  | 0, f => ([], f)
  | _ + 1, [] => ([], [])
  | n + 1, c :: f =>
    if c = newline then ([c], f)
    else
      let r := cutLine n f
      (c :: r.1, r.2)

/-- `fgets(line, n, f)`, with the rest of the file. -/
def fgets (n : Nat) (f : Bytes) : Option (Bytes × Bytes) :=
  if f = [] then none else some (cutLine (n - 1) f)

theorem cutLine_length (n : Nat) (f : Bytes) : (cutLine n f).2.length ≤ f.length := by
  induction n generalizing f with
  | zero => exact Nat.le_refl _
  | succ n ih =>
    cases f with
    | nil => exact Nat.le_refl _
    | cons c f =>
      unfold cutLine
      have := ih f
      split
      · simp
      · simp only [List.length_cons]
        omega

theorem fgets_length {n : Nat} {f line rest : Bytes} (hn : 2 ≤ n)
    (h : fgets n f = some (line, rest)) : rest.length < f.length := by
  unfold fgets at h
  obtain ⟨m, rfl⟩ : ∃ m, n = m + 2 := ⟨n - 2, by omega⟩
  cases f with
  | nil => cases h
  | cons c f =>
    rw [if_neg (List.cons_ne_nil c f), show m + 2 - 1 = m + 1 by omega] at h
    have hlen := cutLine_length m f
    unfold cutLine at h
    split at h
    · cases h
      simp
    · cases h
      simp only [List.length_cons]
      omega

theorem cutLine_line {l : Bytes} (hl : newline ∉ l) {n : Nat} (hn : l.length < n) (rest : Bytes) :
    cutLine n (l ++ newline :: rest) = (l ++ [newline], rest) := by
  induction l generalizing n with
  | nil =>
    obtain ⟨m, rfl⟩ : ∃ m, n = m + 1 := ⟨n - 1, by simp at hn; omega⟩
    simp [cutLine]
  | cons c l ih =>
    obtain ⟨m, rfl⟩ : ∃ m, n = m + 1 := ⟨n - 1, by simp at hn; omega⟩
    have hc : c ≠ newline := fun e => hl (by simp [e])
    have hl' : newline ∉ l := fun h => hl (List.mem_cons_of_mem c h)
    have hm : l.length < m := by simp only [List.length_cons] at hn; omega
    simp [cutLine, hc, ih hl' hm]

/-- A line that fits is read whole. -/
theorem fgets_line {l : Bytes} (hl : newline ∉ l) {n : Nat} (hn : l.length + 1 < n) (rest : Bytes) :
    fgets n (l ++ newline :: rest) = some (l ++ [newline], rest) := by
  have hne : l ++ newline :: rest ≠ [] := by simp
  rw [fgets, if_neg hne, cutLine_line hl (by omega)]

/-! ## Hexadecimal numbers -/

/-- A digit of `%x`. -/
def hexDigit (d : Nat) : UInt8 := UInt8.ofNat (if d < 10 then 0x30 + d else 0x57 + d)

/-- The value of a digit, upper or lower case. -/
def hexVal (c : UInt8) : Option Nat :=
  if 0x30 ≤ c ∧ c ≤ 0x39 then some (c.toNat - 0x30)
  else if 0x61 ≤ c ∧ c ≤ 0x66 then some (c.toNat - 0x57)
  else if 0x41 ≤ c ∧ c ≤ 0x46 then some (c.toNat - 0x37)
  else none

/-- `isxdigit`. -/
def isXdigit (c : UInt8) : Bool := (hexVal c).isSome

/-- `isspace`. -/
def isSpace (c : UInt8) : Bool := c = 0x20 || 0x09 ≤ c && c ≤ 0x0d

/-- `printf("%0wx")` of a number that has at most `w` digits. -/
def hex : Nat → Nat → Bytes
  | 0, _ => []
  | w + 1, n => hex w (n / 16) ++ [hexDigit (n % 16)]

/-- The number that digits are. -/
def hexNum (ds : Bytes) : Nat := ds.foldl (fun n c => 16 * n + (hexVal c).getD 0) 0

/-- The sign in front of a number. -/
def cutSign : Bytes → Bool × Bytes
  | 0x2d :: s => (true, s)
  | 0x2b :: s => (false, s)
  | s => (false, s)

/-- The rest behind `0x` or `0X`. -/
def cutPrefix : Bytes → Option Bytes
  | 0x30 :: 0x78 :: s => some s
  | 0x30 :: 0x58 :: s => some s
  | _ => none

/-- The word for a number: the largest one if it is too large. -/
def toWord (w : Nat) (neg : Bool) (n : Nat) : BitVec w :=
  if 2 ^ w ≤ n then BitVec.allOnes w else if neg then -BitVec.ofNat w n else BitVec.ofNat w n

/-- `strtoul(s, NULL, 16)` for a word of `w` bits. The prefix counts only in front of a digit. -/
def strtoul (w : Nat) (s : Bytes) : BitVec w :=
  let (neg, s) := cutSign (s.dropWhile isSpace)
  let s :=
    match cutPrefix s with
    | some (c :: r) => if isXdigit c then c :: r else s
    | _ => s
  toWord w neg (hexNum (s.takeWhile isXdigit))

/-- What `sscanf` stores for an `unsigned int`: it reads 64 bits and stores the low 32 of them. -/
def scanWord (neg : Bool) (n : Nat) : U32 := (toWord 64 neg n).setWidth 32

/-- `sscanf(s, "%x%n")`: the number and the rest. -/
def sscanfHex (s : Bytes) : Option (U32 × Bytes) :=
  let (neg, s) := cutSign (s.dropWhile isSpace)
  let s := (cutPrefix s).getD s
  if s.takeWhile isXdigit = [] then none
  else some (scanWord neg (hexNum (s.takeWhile isXdigit)), s.dropWhile isXdigit)

/-- A decimal digit. -/
def isDigit (c : UInt8) : Bool := 0x30 ≤ c && c ≤ 0x39

/-- The number that decimal digits are. -/
def decNum (ds : Bytes) : Nat := ds.foldl (fun n c => 10 * n + (c.toNat - 0x30)) 0

/-- A decimal number: whether it has a minus, its digits and the rest. -/
def cutDec (s : Bytes) : Option (Bool × Nat × Bytes) :=
  let (neg, s) := cutSign (s.dropWhile isSpace)
  if s.takeWhile isDigit = [] then none
  else some (neg, decNum (s.takeWhile isDigit), s.dropWhile isDigit)

/-- `sscanf(s, "%u%n")`: the number and the rest. -/
def sscanfDec (s : Bytes) : Option (U32 × Bytes) :=
  (cutDec s).map fun (neg, n, rest) => (scanWord neg n, rest)

theorem hexVal_hexDigit {d : Nat} (h : d < 16) : hexVal (hexDigit d) = some d := by
  have : ∀ d : Fin 16, hexVal (hexDigit d) = some d.val := by decide
  exact this ⟨d, h⟩

theorem hex_length (w n : Nat) : (hex w n).length = w := by
  induction w generalizing n with
  | zero => rfl
  | succ w ih => rw [hex, List.length_append, ih, List.length_singleton]

theorem mem_hex {w n : Nat} {c : UInt8} (h : c ∈ hex w n) : ∃ d < 16, c = hexDigit d := by
  induction w generalizing n with
  | zero => cases h
  | succ w ih =>
    rcases List.mem_append.mp h with h | h
    · exact ih h
    · exact ⟨n % 16, Nat.mod_lt _ (by decide), List.mem_singleton.mp h⟩

/-- A digit is neither a space nor a sign nor the letter of a prefix. -/
theorem plain_hex {w n : Nat} {c : UInt8} (h : c ∈ hex w n) :
    isSpace c = false ∧ c ≠ 0x2d ∧ c ≠ 0x2b ∧ c ≠ 0x78 ∧ c ≠ 0x58 := by
  obtain ⟨d, hd, rfl⟩ := mem_hex h
  have : ∀ d : Fin 16, isSpace (hexDigit d) = false ∧ hexDigit d ≠ 0x2d ∧ hexDigit d ≠ 0x2b ∧
      hexDigit d ≠ 0x78 ∧ hexDigit d ≠ 0x58 := by decide
  exact this ⟨d, hd⟩

theorem isXdigit_hex {w n : Nat} {c : UInt8} (h : c ∈ hex w n) : isXdigit c = true := by
  obtain ⟨d, hd, rfl⟩ := mem_hex h
  rw [isXdigit, hexVal_hexDigit hd]
  rfl

theorem hexNum_append (ds : Bytes) (c : UInt8) :
    hexNum (ds ++ [c]) = 16 * hexNum ds + (hexVal c).getD 0 := by
  rw [hexNum, List.foldl_append]
  rfl

/-- A number that fits is what its digits are. -/
theorem hexNum_hex {w n : Nat} (h : n < 16 ^ w) : hexNum (hex w n) = n := by
  induction w generalizing n with
  | zero =>
    rw [Nat.pow_zero] at h
    rw [Nat.lt_one_iff.mp h]
    rfl
  | succ w ih =>
    have hdiv : n / 16 < 16 ^ w := by
      rw [Nat.pow_succ] at h
      omega
    rw [hex, hexNum_append, ih hdiv, hexVal_hexDigit (Nat.mod_lt _ (by decide)), Option.getD_some]
    omega

/-- The text behind a number: it does not go on with a digit, and has no letter `x`. -/
structure Ends (rest : Bytes) : Prop where
  head : ∀ c ∈ rest.head?, isXdigit c = false
  noX : (0x78 : UInt8) ∉ rest ∧ (0x58 : UInt8) ∉ rest

theorem Ends.nil : Ends [] := ⟨by simp, by simp⟩

section Scan

variable {w n : Nat} {rest : Bytes}

/-- The digits of a number come off whole. -/
theorem takeWhile_hex (hr : Ends rest) : (hex w n ++ rest).takeWhile isXdigit = hex w n := by
  rw [List.takeWhile_append_of_pos fun c hc => isXdigit_hex hc]
  have hnil : rest.takeWhile isXdigit = [] := by
    cases rest with
    | nil => rfl
    | cons c rest => simp [hr.head c (by simp)]
  rw [hnil, List.append_nil]

theorem dropWhile_hex (hr : Ends rest) : (hex w n ++ rest).dropWhile isXdigit = rest := by
  rw [List.dropWhile_append_of_pos fun c hc => isXdigit_hex hc]
  cases rest with
  | nil => rfl
  | cons c rest => simp [hr.head c (by simp)]

/-- Neither a space nor a sign nor a prefix is in front of the digits. -/
theorem cut_hex (hw : 0 < w) (hr : Ends rest) : ∃ c s, hex w n ++ rest = c :: s ∧
    isSpace c = false ∧ cutSign (c :: s) = (false, c :: s) ∧ cutPrefix (c :: s) = none := by
  cases hd : hex w n with
  | nil =>
    have := hex_length w n
    rw [hd] at this
    simp at this
    omega
  | cons c s =>
    have hplain : ∀ b ∈ c :: s, _ := fun b hb => plain_hex (w := w) (n := n) (by rw [hd]; exact hb)
    have hnox : ∀ b ∈ s ++ rest, b ≠ 0x78 ∧ b ≠ 0x58 := by
      intro b hb
      rcases List.mem_append.mp hb with hb | hb
      · exact (hplain b (List.mem_cons_of_mem c hb)).2.2.2
      · exact ⟨fun e => hr.noX.1 (e ▸ hb), fun e => hr.noX.2 (e ▸ hb)⟩
    obtain ⟨hsp, hm, hp, -⟩ := hplain c List.mem_cons_self
    refine ⟨c, s ++ rest, rfl, hsp, ?_, ?_⟩
    · unfold cutSign
      split
      · next h => cases h; exact absurd rfl hm
      · next h => cases h; exact absurd rfl hp
      · rfl
    · unfold cutPrefix
      split
      · next h =>
        injection h with _ h
        exact absurd rfl (hnox 0x78 (by rw [h]; exact List.mem_cons_self)).1
      · next h =>
        injection h with _ h
        exact absurd rfl (hnox 0x58 (by rw [h]; exact List.mem_cons_self)).2
      · rfl

theorem toWord_small {w n : Nat} (h : n < 2 ^ w) : toWord w false n = BitVec.ofNat w n := by
  rw [toWord, if_neg (Nat.not_le.mpr h), if_neg (by decide)]

theorem scanWord_small {n : Nat} (h : n < 2 ^ 32) : scanWord false n = BitVec.ofNat 32 n := by
  rw [scanWord, toWord_small (by omega)]
  exact BitVec.setWidth_ofNat_of_le (by decide) n

theorem pow_hex (k : Nat) : 16 ^ k = 2 ^ (4 * k) := by
  rw [Nat.pow_mul]

/-- `strtoul` reads what `printf` wrote. -/
theorem strtoul_hex {k : Nat} (hk : 0 < k) (x : BitVec (4 * k)) :
    strtoul (4 * k) (hex k x.toNat) = x := by
  obtain ⟨c, s, hs, hsp, hsign, hpre⟩ := cut_hex (n := x.toNat) hk Ends.nil
  rw [List.append_nil] at hs
  have htake := takeWhile_hex (w := k) (n := x.toNat) Ends.nil
  rw [List.append_nil, hs] at htake
  have hnum : hexNum (c :: s) = x.toNat := by
    rw [← hs]
    exact hexNum_hex (by rw [pow_hex]; exact x.isLt)
  have hdrop : (c :: s).dropWhile isSpace = c :: s := by simp [hsp]
  unfold strtoul
  rw [hs, hdrop, hsign]
  dsimp only
  rw [hpre]
  dsimp only
  rw [htake, hnum, toWord_small x.isLt, BitVec.ofNat_toNat, BitVec.setWidth_eq]

/-- `sscanf` reads what `printf` wrote, with or without a space in front. -/
theorem sscanfHex_hex {k : Nat} (hk : 0 < k) (hk8 : k ≤ 8) {n : Nat} (hn : n < 16 ^ k)
    (hr : Ends rest) : sscanfHex (hex k n ++ rest) = some (BitVec.ofNat 32 n, rest) ∧
      sscanfHex (space :: (hex k n ++ rest)) = some (BitVec.ofNat 32 n, rest) := by
  obtain ⟨c, s, hs, hsp, hsign, hpre⟩ := cut_hex (n := n) hk hr
  have htake := takeWhile_hex (w := k) (n := n) hr
  have hdw := dropWhile_hex (w := k) (n := n) hr
  rw [hs] at htake hdw
  have hne : hex k n ≠ [] := by
    intro h0
    have := hex_length k n
    rw [h0] at this
    simp at this
    omega
  have hlt : n < 2 ^ 32 := by
    have h1 : 16 ^ k ≤ 16 ^ 8 := Nat.pow_le_pow_right (by decide) hk8
    have h2 : (16 : Nat) ^ 8 = 2 ^ 32 := by decide
    omega
  have hdrop : (c :: s).dropWhile isSpace = c :: s := by simp [hsp]
  have hdrop' : (space :: c :: s).dropWhile isSpace = c :: s := by
    rw [List.dropWhile_cons_of_pos (by decide), hdrop]
  have key : ∀ t : Bytes, t.dropWhile isSpace = c :: s →
      sscanfHex t = some (BitVec.ofNat 32 n, rest) := by
    intro t ht
    unfold sscanfHex
    rw [ht, hsign]
    dsimp only
    rw [hpre, Option.getD_none, htake, hdw, if_neg hne, hexNum_hex hn, scanWord_small hlt]
  rw [hs]
  exact ⟨key _ hdrop, key _ hdrop'⟩

end Scan

end Esp32S31.Lib.Text
