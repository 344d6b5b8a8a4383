import Mathlib.Algebra.GroupWithZero.Nat
import Mathlib.Logic.Basic
import Mathlib.Data.List.TakeDrop

/-!
# The wire format of Protocol Buffers

A message is a sequence of fields. A field is a key (its number and its wire type in one varint) and
a value. `fields?` reads a message; `IsVarint`, `IsField` and `IsMessage` say which bytes are one.

* **`fields?_of_isMessage`**: what is a message is read as its fields.
* `uint64Of`, `uint32Of`, `sint32Of`, `bytesOf`: a field that is there more than once counts as the
  last time, and one that is not there has its default; `allBytesOf`: a repeated field.
* `unzigzag32_zigzag32`: the signed numbers of a `sint32`.

Groups are not read.
-/

namespace Esp32S31.Lib.Protobuf

/-! ## Signed numbers -/

section Zigzag

/-- The word that a `sint32` is sent as. -/
def zigzag32 (v : BitVec 32) : BitVec 32 := (v <<< 1) ^^^ v.sshiftRight 31

/-- The number that is meant by it. -/
def unzigzag32 (n : BitVec 32) : BitVec 32 := (n >>> 1) ^^^ -(n &&& 1#32)

/-- All bits the same. -/
def fill (b : Bool) : BitVec 32 := if b then BitVec.allOnes 32 else 0#32

theorem getLsbD_fill (b : Bool) {i : Nat} (hi : i < 32) : (fill b).getLsbD i = b := by
  unfold fill
  cases b
  · exact BitVec.getLsbD_zero
  · rw [if_pos rfl, BitVec.getLsbD_allOnes, decide_eq_true hi]

theorem sshiftRight_sign (v : BitVec 32) : v.sshiftRight 31 = fill v.msb := by
  apply BitVec.eq_of_getLsbD_eq
  intro i hi
  rw [getLsbD_fill _ hi, BitVec.getLsbD_sshiftRight, decide_eq_false (by omega), Bool.not_false,
    Bool.true_and]
  by_cases h : 31 + i < 32
  · rw [if_pos h, show 31 + i = 31 by omega, BitVec.msb_eq_getLsbD_last]
  · rw [if_neg h]

theorem neg_and_one (n : BitVec 32) : -(n &&& 1#32) = fill (n.getLsbD 0) := by
  have hand : n &&& 1#32 = if n.getLsbD 0 then 1#32 else 0#32 := by
    apply BitVec.eq_of_getLsbD_eq
    intro i hi
    rw [BitVec.getLsbD_and, BitVec.getLsbD_one]
    by_cases h : i = 0
    · subst h
      cases n.getLsbD 0 <;> rfl
    · cases n.getLsbD 0 <;> simp [h]
  rw [hand]
  cases n.getLsbD 0 <;> rfl

theorem getLsbD_zigzag32 (v : BitVec 32) {i : Nat} (hi : i < 32) :
    (zigzag32 v).getLsbD i = ((decide (0 < i) && v.getLsbD (i - 1)) ^^ v.msb) := by
  unfold zigzag32
  rw [BitVec.getLsbD_xor, BitVec.getLsbD_shiftLeft, sshiftRight_sign, getLsbD_fill _ hi,
    decide_eq_true hi, Bool.true_and]
  by_cases h : i = 0
  · subst h
    rfl
  · rw [decide_eq_false (by omega), decide_eq_true (by omega), Bool.not_false]

theorem unzigzag32_zigzag32 (v : BitVec 32) : unzigzag32 (zigzag32 v) = v := by
  unfold unzigzag32
  rw [neg_and_one, getLsbD_zigzag32 v (by decide)]
  apply BitVec.eq_of_getLsbD_eq
  intro i hi
  rw [BitVec.getLsbD_xor, BitVec.getLsbD_ushiftRight, getLsbD_fill _ hi,
    decide_eq_false (by decide), Bool.false_and, Bool.false_xor]
  by_cases hlast : i = 31
  · -- the shift brings in a 0, and the sign is left
    rw [hlast, BitVec.getLsbD_of_ge _ _ (by decide), Bool.false_xor]
    exact BitVec.msb_eq_getLsbD_last v
  · rw [getLsbD_zigzag32 v (by omega), decide_eq_true (by omega), Bool.true_and,
      Nat.add_sub_cancel_left, Bool.xor_assoc, Bool.xor_self, Bool.xor_false]

theorem toNat_zigzag32 (v : BitVec 32) : (zigzag32 v).toNat =
    if v.toInt < 0 then (-2 * v.toInt - 1).toNat else (2 * v.toInt).toNat := by
  have hlt := v.isLt
  have hint := BitVec.toInt_eq_msb_cond v
  unfold zigzag32
  rw [sshiftRight_sign]
  unfold fill
  cases hm : v.msb
  · have hlow := BitVec.msb_eq_false_iff_two_mul_lt.mp hm
    rw [hm] at hint
    rw [if_neg Bool.false_ne_true] at hint ⊢
    rw [if_neg (by omega), BitVec.xor_zero, BitVec.toNat_shiftLeft, Nat.shiftLeft_eq]
    omega
  · have hhigh := BitVec.msb_eq_true_iff_two_mul_ge.mp hm
    rw [hm, if_pos rfl] at hint
    rw [if_pos rfl, if_pos (by omega), BitVec.xor_allOnes, BitVec.toNat_not, BitVec.toNat_shiftLeft,
      Nat.shiftLeft_eq]
    omega

end Zigzag

/-! ## The decoder -/

/-- The value of a field. -/
inductive Value
  | varint (v : Nat)
  | fixed64 (b : List UInt8)
  | bytes (b : List UInt8)
  | fixed32 (b : List UInt8)
  deriving DecidableEq

/-- A field of a message. -/
structure Entry where
  number : Nat
  value : Value
  deriving DecidableEq

/-- A varint of at most `n` bytes and what is behind it: seven bits in each byte, the low ones
first; the top bit says that there are more. -/
def varintFrom? : Nat → List UInt8 → Option (Nat × List UInt8)
  | 0, _ => none
  | _ + 1, [] => none
  | n + 1, b :: p =>
    if b.toNat < 128 then some (b.toNat, p)
    else do
      let (v, p) ← varintFrom? n p
      some (b.toNat % 128 + 128 * v, p)

/-- A varint, in a word of 64 bits. -/
def varint? (p : List UInt8) : Option (Nat × List UInt8) := do
  let (v, p) ← varintFrom? 10 p
  some (v % 2 ^ 64, p)

/-- `n` bytes and what is behind them. -/
def chunk? (n : Nat) (p : List UInt8) : Option (List UInt8 × List UInt8) :=
  if n ≤ p.length then some (p.take n, p.drop n) else none

/-- The value of a wire type. -/
def value? (wire : Nat) (p : List UInt8) : Option (Value × List UInt8) :=
  match wire with
  | 0 => do
    let (v, p) ← varint? p
    some (.varint v, p)
  | 1 => do
    let (b, p) ← chunk? 8 p
    some (.fixed64 b, p)
  | 2 => do
    let (n, p) ← varint? p
    let (b, p) ← chunk? n p
    some (.bytes b, p)
  | 5 => do
    let (b, p) ← chunk? 4 p
    some (.fixed32 b, p)
  | _ => none

/-- A field and what is behind it. A key has 32 bits, and no field has the number 0. -/
def field? (p : List UInt8) : Option (Entry × List UInt8) := do
  let (key, p) ← varint? p
  if key / 8 = 0 ∨ key ≥ 2 ^ 32 then none
  else do
    let (value, p) ← value? (key % 8) p
    some (⟨key / 8, value⟩, p)

/-- The fields of a message, `n` at most. -/
def fieldsFrom? : Nat → List UInt8 → Option (List Entry)
  | _, [] => some []
  | 0, _ :: _ => none
  | n + 1, b :: p => do
    let (f, p) ← field? (b :: p)
    let fs ← fieldsFrom? n p
    some (f :: fs)

/-- The fields of a message; each of them has at least one byte. -/
def fields? (p : List UInt8) : Option (List Entry) := fieldsFrom? p.length p

/-! ## The bytes of a message -/

/-- The bytes are a varint. -/
inductive IsVarint : Nat → List UInt8 → Prop
  | last {v : Nat} (h : v < 128) : IsVarint v [UInt8.ofNat v]
  | more {low v : Nat} {p : List UInt8} (h : low < 128) (hp : IsVarint v p) :
      IsVarint (low + 128 * v) (UInt8.ofNat (low + 128) :: p)

/-- The bytes are a varint that the decoder takes. -/
structure FitsVarint (v : Nat) (p : List UInt8) : Prop where
  is : IsVarint v p
  lt : v < 2 ^ 64
  length : p.length ≤ 10

/-- The bytes are a field: a number or bytes behind their length. -/
inductive IsField : Entry → List UInt8 → Prop
  | varint {n v : Nat} {k p : List UInt8} (hn : 0 < n) (hmax : n < 2 ^ 29)
      (hk : FitsVarint (8 * n) k) (hp : FitsVarint v p) : IsField ⟨n, .varint v⟩ (k ++ p)
  | bytes {n : Nat} {k p d : List UInt8} (hn : 0 < n) (hmax : n < 2 ^ 29)
      (hk : FitsVarint (8 * n + 2) k) (hp : FitsVarint d.length p) :
      IsField ⟨n, .bytes d⟩ (k ++ p ++ d)

/-- The bytes are a message with these fields. -/
inductive IsMessage : List Entry → List UInt8 → Prop
  | nil : IsMessage [] []
  | cons {f : Entry} {fs : List Entry} {p q : List UInt8} (hp : IsField f p) (hq : IsMessage fs q) :
      IsMessage (f :: fs) (p ++ q)

theorem IsVarint.length_pos {v : Nat} {p : List UInt8} (h : IsVarint v p) : 0 < p.length := by
  cases h <;> exact Nat.succ_pos _

theorem IsField.length_pos {f : Entry} {p : List UInt8} (h : IsField f p) : 0 < p.length := by
  cases h with
  | varint _ _ hk _ =>
    rw [List.length_append]
    exact Nat.add_pos_left hk.is.length_pos _
  | bytes _ _ hk _ =>
    rw [List.append_assoc, List.length_append]
    exact Nat.add_pos_left hk.is.length_pos _

theorem IsMessage.append {fs gs : List Entry} {p q : List UInt8} (hp : IsMessage fs p)
    (hq : IsMessage gs q) : IsMessage (fs ++ gs) (p ++ q) := by
  induction hp with
  | nil => exact hq
  | cons h _ ih =>
    rw [List.cons_append, List.append_assoc]
    exact IsMessage.cons h ih

theorem IsField.message {f : Entry} {p : List UInt8} (h : IsField f p) : IsMessage [f] p := by
  have := IsMessage.cons h IsMessage.nil
  rwa [List.append_nil] at this

theorem varintFrom?_of_isVarint {v : Nat} {p : List UInt8} (h : IsVarint v p) (rest : List UInt8) :
    ∀ {n : Nat}, p.length ≤ n → varintFrom? n (p ++ rest) = some (v, rest) := by
  induction h with
  | @last v hv =>
    intro n hn
    obtain ⟨n, rfl⟩ : ∃ k, n = k + 1 := ⟨n - 1, by rw [List.length_singleton] at hn; omega⟩
    have hb : (UInt8.ofNat v).toNat = v := by
      rw [UInt8.toNat_ofNat']
      omega
    rw [List.singleton_append, varintFrom?, hb, if_pos hv]
  | @more low v p hlow hp ih =>
    intro n hn
    rw [List.length_cons] at hn
    obtain ⟨n, rfl⟩ : ∃ k, n = k + 1 := ⟨n - 1, by omega⟩
    have hb : (UInt8.ofNat (low + 128)).toNat = low + 128 := by
      rw [UInt8.toNat_ofNat']
      omega
    have hmod : (low + 128) % 128 = low := by omega
    rw [List.cons_append, varintFrom?, hb, if_neg (by omega), ih (by omega)]
    simp only [Option.bind_eq_bind, Option.bind_some, hmod]

theorem varint?_of_fits {v : Nat} {p : List UInt8} (h : FitsVarint v p) (rest : List UInt8) :
    varint? (p ++ rest) = some (v, rest) := by
  unfold varint?
  rw [varintFrom?_of_isVarint h.is rest h.length]
  simp only [Option.bind_eq_bind, Option.bind_some, Nat.mod_eq_of_lt h.lt]

theorem chunk?_append (d rest : List UInt8) : chunk? d.length (d ++ rest) = some (d, rest) := by
  unfold chunk?
  rw [if_pos (by rw [List.length_append]; omega), List.take_left, List.drop_left]

/-- A field is read, with anything behind it. -/
theorem field?_of_isField {f : Entry} {p : List UInt8} (h : IsField f p) (rest : List UInt8) :
    field? (p ++ rest) = some (f, rest) := by
  cases h with
  | @varint n v k p hn hmax hk hp =>
    have hnum : 8 * n / 8 = n := by omega
    have hwire : 8 * n % 8 = 0 := by omega
    unfold field?
    rw [List.append_assoc, varint?_of_fits hk]
    simp only [Option.bind_eq_bind, Option.bind_some, hnum, hwire]
    rw [if_neg (by omega)]
    simp only [value?, varint?_of_fits hp, Option.bind_eq_bind, Option.bind_some]
  | @bytes n k p d hn hmax hk hp =>
    have hnum : (8 * n + 2) / 8 = n := by omega
    have hwire : (8 * n + 2) % 8 = 2 := by omega
    unfold field?
    rw [List.append_assoc, List.append_assoc, varint?_of_fits hk]
    simp only [Option.bind_eq_bind, Option.bind_some, hnum, hwire]
    rw [if_neg (by omega)]
    simp only [value?, varint?_of_fits hp, chunk?_append, Option.bind_eq_bind, Option.bind_some]

/-- **A message is read as its fields.** -/
theorem fields?_of_isMessage {fs : List Entry} {p : List UInt8} (h : IsMessage fs p) :
    fields? p = some fs := by
  have hfrom : ∀ {n : Nat}, p.length ≤ n → fieldsFrom? n p = some fs := by
    induction h with
    | nil =>
      intro n _
      cases n <;> rfl
    | @cons f fs p q hp _ ih =>
      intro n hn
      have hpos := hp.length_pos
      rw [List.length_append] at hn
      obtain ⟨n, rfl⟩ : ∃ k, n = k + 1 := ⟨n - 1, by omega⟩
      obtain ⟨b, r, hbr⟩ : ∃ b r, p ++ q = b :: r := by
        cases p with
        | nil => exact absurd hpos (Nat.lt_irrefl 0)
        | cons b p => exact ⟨b, p ++ q, rfl⟩
      have hread := field?_of_isField hp q
      have hrest := ih (n := n) (by omega)
      rw [hbr] at hread ⊢
      rw [fieldsFrom?, hread]
      simp only [Option.bind_eq_bind, Option.bind_some, hrest]
  exact hfrom (Nat.le_refl _)

/-! ## The values of a message -/

/-- The numbers of field `n`. -/
def varintsOf (n : Nat) (fs : List Entry) : List Nat :=
  fs.filterMap fun f =>
    match f.value with
    | .varint v => if f.number = n then some v else none
    | _ => none

/-- The byte strings of field `n`, which are the messages of a repeated one. -/
def allBytesOf (n : Nat) (fs : List Entry) : List (List UInt8) :=
  fs.filterMap fun f =>
    match f.value with
    | .bytes b => if f.number = n then some b else none
    | _ => none

/-- A `uint64`. -/
def uint64Of (n : Nat) (fs : List Entry) : Nat := (varintsOf n fs).getLastD 0

/-- A `uint32`. -/
def uint32Of (n : Nat) (fs : List Entry) : Nat := uint64Of n fs % 2 ^ 32

/-- A `sint32`. -/
def sint32Of (n : Nat) (fs : List Entry) : Int :=
  (unzigzag32 (BitVec.ofNat 32 (uint64Of n fs))).toInt

/-- A `bytes`. -/
def bytesOf (n : Nat) (fs : List Entry) : List UInt8 := (allBytesOf n fs).getLastD []

/-- A number as proto3 sends it: not where it is the default. -/
def varintEntry (n v : Nat) : List Entry := if v = 0 then [] else [⟨n, .varint v⟩]

/-- Bytes as proto3 sends them. -/
def bytesEntry (n : Nat) (d : List UInt8) : List Entry := if d = [] then [] else [⟨n, .bytes d⟩]

@[simp] theorem varintsOf_append (n : Nat) (fs gs : List Entry) :
    varintsOf n (fs ++ gs) = varintsOf n fs ++ varintsOf n gs := List.filterMap_append

@[simp] theorem allBytesOf_append (n : Nat) (fs gs : List Entry) :
    allBytesOf n (fs ++ gs) = allBytesOf n fs ++ allBytesOf n gs := List.filterMap_append

@[simp] theorem varintsOf_varintEntry (n m v : Nat) :
    varintsOf n (varintEntry m v) = if v ≠ 0 ∧ m = n then [v] else [] := by
  unfold varintEntry varintsOf
  by_cases hv : v = 0
  · simp [hv]
  · by_cases hm : m = n
    · simp [hv, hm]
    · simp [hv, hm]

@[simp] theorem varintsOf_bytesEntry (n m : Nat) (d : List UInt8) :
    varintsOf n (bytesEntry m d) = [] := by
  unfold bytesEntry varintsOf
  by_cases hd : d = []
  · simp [hd]
  · simp [hd]

@[simp] theorem allBytesOf_varintEntry (n m v : Nat) : allBytesOf n (varintEntry m v) = [] := by
  unfold varintEntry allBytesOf
  by_cases hv : v = 0
  · simp [hv]
  · simp [hv]

@[simp] theorem allBytesOf_bytesEntry (n m : Nat) (d : List UInt8) :
    allBytesOf n (bytesEntry m d) = if d ≠ [] ∧ m = n then [d] else [] := by
  unfold bytesEntry allBytesOf
  by_cases hd : d = []
  · simp [hd]
  · by_cases hm : m = n
    · simp [hd, hm]
    · simp [hd, hm]

end Esp32S31.Lib.Protobuf
