/-!
# Byte buffers of a fixed capacity

A C array of `cap` bytes with the length that is in use. The bytes behind the length stay in the
array: `reset` only sets the length back, `wipe` also clears what was in use.
-/

namespace Esp32S31.Lib

/-- An array of `cap` bytes of which the first `len` are in use. -/
structure Buffer (cap : Nat) where
  mem : List UInt8
  len : Nat
  size : mem.length = cap
  fits : len ≤ cap
  deriving DecidableEq

namespace Buffer

variable {cap : Nat}

/-- A zeroed buffer. -/
def empty : Buffer cap where
  mem := List.replicate cap 0
  len := 0
  size := List.length_replicate
  fits := Nat.zero_le _

/-- The bytes in use. -/
def content (b : Buffer cap) : List UInt8 := b.mem.take b.len

/-- `memcpy(mem + len, d, n); len += n`. -/
def append (b : Buffer cap) (d : List UInt8) (h : b.len + d.length ≤ cap) : Buffer cap where
  mem := b.mem.take b.len ++ d ++ b.mem.drop (b.len + d.length)
  len := b.len + d.length
  size := by
    have := b.size
    simp only [List.length_append, List.length_take, List.length_drop]
    omega
  fits := h

/-- `len = 0`. -/
def reset (b : Buffer cap) : Buffer cap where
  mem := b.mem
  len := 0
  size := b.size
  fits := Nat.zero_le _

/-- `memset(mem, 0, len); len = 0`. -/
def wipe (b : Buffer cap) : Buffer cap where
  mem := List.replicate b.len 0 ++ b.mem.drop b.len
  len := 0
  size := by
    have := b.size
    have := b.fits
    simp only [List.length_append, List.length_replicate, List.length_drop]
    omega
  fits := Nat.zero_le _

@[simp] theorem length_content (b : Buffer cap) : b.content.length = b.len := by
  have := b.size
  have := b.fits
  simp only [content, List.length_take]
  omega

@[simp] theorem content_append (b : Buffer cap) (d : List UInt8) (h : b.len + d.length ≤ cap) :
    (b.append d h).content = b.content ++ d := by
  have hl : b.len + d.length = (b.mem.take b.len ++ d).length := by
    rw [List.length_append, show (b.mem.take b.len).length = b.len from b.length_content]
  exact List.take_left' hl.symm

@[simp] theorem len_append (b : Buffer cap) (d : List UInt8) (h : b.len + d.length ≤ cap) :
    (b.append d h).len = b.len + d.length := rfl

/-- Nothing to append. -/
theorem append_nil (b : Buffer cap) (h : b.len + ([] : List UInt8).length ≤ cap) :
    b.append [] h = b := by
  cases b with
  | mk mem len size fits =>
    simp only [append, List.length_nil, Nat.add_zero, List.append_nil, List.take_append_drop]

@[simp] theorem content_reset (b : Buffer cap) : b.reset.content = [] := rfl

@[simp] theorem content_wipe (b : Buffer cap) : b.wipe.content = [] := rfl

@[simp] theorem len_reset (b : Buffer cap) : b.reset.len = 0 := rfl

@[simp] theorem len_wipe (b : Buffer cap) : b.wipe.len = 0 := rfl

theorem content_eq_nil (b : Buffer cap) : b.content = [] ↔ b.len = 0 := by
  rw [← List.length_eq_zero_iff, length_content]

end Buffer

end Esp32S31.Lib
