/-!
# Frames in a byte stream, and a buffer of limited size

A `Framing` reads the next frame of a stream and says when there is none yet, or none ever. A
receiver has a buffer of `cap` elements, takes all frames out of it and keeps the rest for its next
read; it closes the stream at a bad frame, at a frame that does not fit, and behind a frame that
asks for it.

`parse` is what a stream holds. `parse_append`: taking the frames out of a part first makes no
difference, so it does not matter where a stream is cut.
-/

namespace Esp32S31.Lib

/-- What is next in a stream. -/
inductive NextFrame (τ : Type) where
  /-- not complete -/
  | short
  | bad
  /-- a frame of `len` elements -/
  | frame (len : Nat) (t : τ)

/-- A way to cut a stream into frames. A frame, or that there is none, does not depend on what comes
behind it. -/
structure Framing (β τ : Type) where
  next : List β → NextFrame τ
  /-- the receiver closes the stream behind this frame -/
  last : τ → Bool
  cap : Nat
  length_pos : ∀ {s len t}, next s = .frame len t → 0 < len ∧ len ≤ s.length
  frame_append : ∀ {s len t}, next s = .frame len t → ∀ x, next (s ++ x) = .frame len t
  bad_append : ∀ {s}, next s = .bad → ∀ x, next (s ++ x) = .bad
  /-- `cap` elements without a frame are the start of one that is longer -/
  short_full : ∀ {s}, next s = .short → cap ≤ s.length → ∀ x,
    next (s ++ x) = .short ∨ ∃ len t, next (s ++ x) = .frame len t ∧ cap < len

namespace Framing

variable {β τ : Type} (F : Framing β τ)

/-- The frames of a stream, at most `n`, and whether the receiver closes it. -/
def parseFrom : Nat → List β → List τ × Bool
  | 0, _ => ([], false)
  | n + 1, s =>
    match F.next s with
    | .short => ([], F.cap ≤ s.length)
    | .bad => ([], true)
    | .frame len t =>
      if F.cap < len then ([], true)
      else if F.last t then ([t], true)
      else (t :: (parseFrom n (s.drop len)).1, (parseFrom n (s.drop len)).2)

/-- The frames of a stream up to its first bad one, the first that does not fit, or the last one,
and whether the receiver closes it. -/
def parse (s : List β) : List τ × Bool := F.parseFrom (s.length + 1) s

/-- Why a receiver has stopped to take frames out of its buffer. -/
inductive Stop where
  | short
  | bad
  | last
  deriving DecidableEq

/-- The frames of a buffer, at most `n`, with what is left. -/
def drain : Nat → List β → List τ × List β × Stop
  | 0, s => ([], s, .short)
  | n + 1, s =>
    match F.next s with
    | .short => ([], s, .short)
    | .bad => ([], s, .bad)
    | .frame len t =>
      if F.last t then ([t], s.drop len, .last)
      else (t :: (drain n (s.drop len)).1, (drain n (s.drop len)).2)

variable {F}

/-- **No proper prefix of a frame is a frame or bad.** -/
theorem next_prefix (F : Framing β τ) {p q : List β} {t : τ}
    (h : F.next (p ++ q) = .frame (p ++ q).length t) (hq : q ≠ []) : F.next p = .short := by
  cases hp : F.next p with
  | short => rfl
  | bad =>
    rw [F.bad_append hp q] at h
    cases h
  | frame len t' =>
    have hlen := (F.length_pos hp).2
    rw [F.frame_append hp q] at h
    obtain ⟨rfl, -⟩ := NextFrame.frame.inj h
    rw [List.length_append] at hlen
    exact absurd (List.length_pos_iff.mpr hq) (by omega)

theorem parseFrom_eq {n m : Nat} {s : List β} (hn : s.length < n) (hm : s.length < m) :
    F.parseFrom n s = F.parseFrom m s := by
  induction n generalizing m s with
  | zero => exact absurd hn (Nat.not_lt_zero _)
  | succ n ih =>
    cases m with
    | zero => exact absurd hm (Nat.not_lt_zero _)
    | succ m =>
      unfold parseFrom
      cases h : F.next s with
      | short | bad => rfl
      | frame len t =>
        dsimp only
        obtain ⟨hpos, hle⟩ := F.length_pos h
        have hlen : (s.drop len).length = s.length - len := List.length_drop
        rw [ih (m := m) (by omega) (by omega)]

theorem parse_short {s : List β} (h : F.next s = .short) : F.parse s =
    ([], decide (F.cap ≤ s.length)) := by
  unfold parse parseFrom
  rw [h]

theorem parse_bad {s : List β} (h : F.next s = .bad) : F.parse s = ([], true) := by
  unfold parse parseFrom
  rw [h]

theorem parse_long {s : List β} {len : Nat} {t : τ} (h : F.next s = .frame len t)
    (hl : F.cap < len) : F.parse s = ([], true) := by
  unfold parse parseFrom
  rw [h]
  exact if_pos hl

theorem parse_last {s : List β} {len : Nat} {t : τ} (h : F.next s = .frame len t)
    (hl : ¬ F.cap < len)
    (ht : F.last t = true) : F.parse s = ([t], true) := by
  unfold parse parseFrom
  rw [h]
  exact (if_neg hl).trans (if_pos ht)

theorem parse_frame {s : List β} {len : Nat} {t : τ} (h : F.next s = .frame len t)
    (hl : ¬ F.cap < len)
    (ht : ¬ F.last t = true) :
    F.parse s = (t :: (F.parse (s.drop len)).1, (F.parse (s.drop len)).2) := by
  obtain ⟨hpos, hle⟩ := F.length_pos h
  have hlen : (s.drop len).length = s.length - len := List.length_drop
  have heq : F.parseFrom s.length (s.drop len) = F.parse (s.drop len) :=
    parseFrom_eq (by omega) (Nat.lt_succ_self _)
  rw [← heq]
  unfold parse
  rw [parseFrom, h]
  exact (if_neg hl).trans (if_neg ht)

/-- The stream is closed when the buffer is full and holds no frame. -/
theorem parse_full {s : List β} (h : F.next s = .short) (hfull : F.cap ≤ s.length) (x : List β) :
    F.parse (s ++ x) = ([], true) := by
  rcases F.short_full h hfull x with hs | ⟨len, t, hf, hl⟩
  · rw [parse_short hs, List.length_append]
    simp
    omega
  · exact parse_long hf hl

/-- What is left in the buffer is a part of it without a frame. -/
theorem drain_rest {n : Nat} {s : List β} (hn : s.length < n) :
    (F.drain n s).2.1.length ≤ s.length ∧
      ((F.drain n s).2.2 = .short → F.next (F.drain n s).2.1 = .short) := by
  induction n generalizing s with
  | zero => exact absurd hn (Nat.not_lt_zero _)
  | succ n ih =>
    unfold drain
    cases h : F.next s with
    | short => exact ⟨Nat.le_refl _, fun _ => h⟩
    | bad => exact ⟨Nat.le_refl _, nofun⟩
    | frame len t =>
      dsimp only
      obtain ⟨hpos, hle⟩ := F.length_pos h
      have hlen : (s.drop len).length = s.length - len := List.length_drop
      split
      · exact ⟨by rw [hlen]; omega, nofun⟩
      · obtain ⟨h1, h2⟩ := ih (s := s.drop len) (by omega)
        exact ⟨Nat.le_trans h1 (by omega), h2⟩

/-- **A stream may be cut anywhere.** The frames of a buffer come first; then either the rest of the
buffer is at the front of the stream, or the stream is closed. -/
theorem parse_append {n : Nat} {s : List β} (hn : s.length < n) (hcap : s.length ≤ F.cap)
    (x : List β) : F.parse (s ++ x) = if (F.drain n s).2.2 = .short then
        ((F.drain n s).1 ++ (F.parse ((F.drain n s).2.1 ++ x)).1,
          (F.parse ((F.drain n s).2.1 ++ x)).2)
      else ((F.drain n s).1, true) := by
  induction n generalizing s with
  | zero => exact absurd hn (Nat.not_lt_zero _)
  | succ n ih =>
    unfold drain
    cases h : F.next s with
    | short => rfl
    | bad =>
      rw [parse_bad (F.bad_append h x)]
      rfl
    | frame len t =>
      dsimp only
      obtain ⟨hpos, hle⟩ := F.length_pos h
      have hfit : ¬ F.cap < len := by omega
      have hlen : (s.drop len).length = s.length - len := List.length_drop
      split
      · next ht =>
        rw [parse_last (F.frame_append h x) hfit ht]
        rfl
      · next ht =>
        rw [parse_frame (F.frame_append h x) hfit ht, List.drop_append_of_le_length hle,
          ih (by omega) (by omega)]
        split <;> rfl

end Framing

end Esp32S31.Lib
