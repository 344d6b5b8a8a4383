import Esp32S31.BleHa.Stream

/-!
# Frames of the API, there and back

`api_frame` writes a frame and `api_next` reads one. `pb_varint` works in a word of 64 bits,
`read_varint` takes at most five bytes into a word of 32 bits.

* `readVarint_pbVarint`: a varint of at most 32 bits comes back, whatever is around it.
* **`api_round_trip`**: a frame comes back, no proper prefix of it is a frame or bad, and a sequence
  of frames is read as the same sequence.
-/

namespace Esp32S31.BleHa

open Esp32S31.Lib

/-! ## Varints -/

theorem byte_append_right (p q : List UInt8) (i : Nat) : byte (p ++ q)
    (p.length + i) = byte q i := by
  unfold byte
  rw [List.getD_eq_getElem?_getD, List.getD_eq_getElem?_getD,
    List.getElem?_append_right (Nat.le_add_right _ _), Nat.add_sub_cancel_left]

theorem byte_cons_zero (b : UInt8) (p : List UInt8) : byte (b :: p) 0 = b := rfl

/-- The low bits are behind the ones that are there. -/
theorem or_shift {v shift b : Nat} (hv : v < 2 ^ shift) (hb : b * 2 ^ shift < 2 ^ 32) :
    v ||| b * 2 ^ shift % 2 ^ 32 = v + b * 2 ^ shift := by
  rw [Nat.mod_eq_of_lt hb, Nat.or_comm, Nat.mul_comm, ← Nat.two_pow_add_eq_or_of_lt hv,
    Nat.add_comm]

/-- The loops of `pb_varint` and `read_varint` side by side: `m` and `n` are the bytes that each may
still take, `v` is what is read, and `u` what is to come. -/
theorem readVarintFrom_pbVarintFrom {n : Nat} :
    ∀ (m shift u v : Nat) (p rest : List UInt8), u < 128 ^ n → 0 < n →
    n ≤ m → v < 2 ^ shift → v + u * 2 ^ shift < 2 ^ 32 →
    readVarintFrom (p ++ (pbVarintFrom m u ++ rest)) n shift p.length v =
      .value (v + u * 2 ^ shift) (p.length + (pbVarintFrom m u).length) := by
  induction n with
  | zero => exact fun _ _ _ _ _ _ _ h0 => absurd h0 (Nat.lt_irrefl 0)
  | succ n ih =>
    intro m shift u v p rest hu _ hm hv hlt
    obtain ⟨m, rfl⟩ : ∃ k, m = k + 1 := ⟨m - 1, by omega⟩
    unfold readVarintFrom pbVarintFrom
    by_cases hlast : u ≤ 0x7f
    · have hb : (UInt8.ofNat u).toNat = u := by rw [UInt8.toNat_ofNat']; omega
      rw [if_pos hlast, if_neg (by simp only [List.length_append, List.length_singleton]; omega)]
      have hbyte : byte (p ++ ([UInt8.ofNat u] ++ rest)) p.length = UInt8.ofNat u :=
        byte_append_right p _ 0
      simp only [hbyte, hb, Nat.mod_eq_of_lt (show u < 128 by omega)]
      rw [or_shift hv (by omega), if_pos (by omega)]
      rfl
    · have hb : (UInt8.ofNat (u % 128 + 0x80)).toNat = u % 128 + 128 := by
        rw [UInt8.toNat_ofNat']; omega
      have hsplit : u * 2 ^ shift = u % 128 * 2 ^ shift + u / 128 * 2 ^ (shift + 7) := by
        rw [Nat.pow_add, ← Nat.mul_assoc, Nat.mul_right_comm, ← Nat.add_mul]
        congr 1
        omega
      have hlow : v + u % 128 * 2 ^ shift < 2 ^ (shift + 7) := by
        have : (u % 128 + 1) * 2 ^ shift ≤ 128 * 2 ^ shift :=
          Nat.mul_le_mul_right _ (Nat.mod_lt u (by decide))
        rw [Nat.succ_mul] at this
        rw [Nat.pow_add]
        omega
      have hdiv : u / 128 < 128 ^ n :=
        Nat.div_lt_of_lt_mul (by rwa [Nat.pow_succ, Nat.mul_comm] at hu)
      -- the value goes on, so another byte may be taken
      have hn : 0 < n := by
        rcases Nat.eq_zero_or_pos n with rfl | hn
        · rw [Nat.pow_zero] at hdiv
          omega
        · exact hn
      rw [if_neg hlast, if_neg (by simp only [List.length_append, List.length_cons]; omega)]
      have hbyte : byte (p ++ (UInt8.ofNat (u % 128 + 0x80) :: pbVarintFrom m (u / 128) ++ rest))
          p.length = UInt8.ofNat (u % 128 + 0x80) := byte_append_right p _ 0
      simp only [hbyte, hb]
      rw [show (u % 128 + 128) % 128 = u % 128 by omega, or_shift hv (by omega), if_neg (by omega)]
      have := ih m _ _ _ (p ++ [UInt8.ofNat (u % 128 + 0x80)]) rest hdiv hn (by omega)
        hlow (by omega)
      simp only [List.append_assoc, List.singleton_append, List.length_append,
        List.length_singleton] at this
      rw [List.cons_append, this, List.length_cons, hsplit]
      congr 1 <;> omega

/-- **A varint of at most 32 bits comes back.** -/
theorem readVarint_pbVarint {u : Nat} (hu : u < 2 ^ 32) (p rest : List UInt8) :
    readVarint (p ++ (pbVarint u ++ rest)) p.length =
      .value u (p.length + (pbVarint u).length) := by
  have h := readVarintFrom_pbVarintFrom (n := 5) 10 0 u 0 p rest
    (Nat.lt_trans hu (by decide)) (by decide) (by decide) (by decide) (by omega)
  rw [Nat.pow_zero, Nat.mul_one, Nat.zero_add] at h
  exact h

/-! ## Frames -/

/-- The frame of a message. -/
def frameOf (f : UInt32 × List UInt8) : List UInt8 := apiFrame f.1.toNat f.2

/-- `api_next` finds a message that `api_frame` has written, with anything behind it. -/
theorem apiNext_frameOf {f : UInt32 × List UInt8} (hf : f.2.length ≤ 4096) (rest : List UInt8) :
    apiNext (frameOf f ++ rest) = .frame (frameOf f).length f.1.toNat f.2 := by
  obtain ⟨type, msg⟩ := f
  have hlen := readVarint_pbVarint (u := msg.length) (by dsimp only at hf; omega) [0x00]
    (pbVarint type.toNat ++ (msg ++ rest))
  have htype := readVarint_pbVarint (u := type.toNat) type.toNat_lt (0x00 :: pbVarint msg.length)
    (msg ++ rest)
  have hbuf : frameOf (type, msg) ++ rest =
      0x00 :: (pbVarint msg.length ++ (pbVarint type.toNat ++ (msg ++ rest))) := by
    simp only [frameOf, apiFrame, List.cons_append, List.append_assoc]
  have hsize : (frameOf (type, msg)).length = 1 + (pbVarint msg.length).length +
      (pbVarint type.toNat).length +
      msg.length := by
    simp only [frameOf, apiFrame, List.cons_append, List.length_cons, List.length_append]
    omega
  simp only [List.singleton_append, List.length_singleton] at hlen
  simp only [List.cons_append, List.length_cons] at htype
  rw [hbuf]
  unfold apiNext
  rw [if_neg (by simp), if_neg (by simp [byte_cons_zero]), hlen]
  dsimp only
  rw [Nat.add_comm 1, htype]
  dsimp only
  rw [if_neg (by dsimp only at hf; omega),
    if_neg (by simp only [List.length_cons, List.length_append]; omega), hsize]
  have hdrop : (0x00 :: (pbVarint msg.length ++ (pbVarint type.toNat ++ (msg ++ rest)))).drop
      ((pbVarint msg.length).length + 1 + (pbVarint type.toNat).length) = msg ++ rest := by
    rw [show ∀ a b c : List UInt8, 0x00 :: (a ++ (b ++ c)) = (0x00 :: a ++ b) ++ c from
      fun a b c => by simp only [List.cons_append, List.append_assoc]]
    refine List.drop_left' ?_
    simp only [List.cons_append, List.length_cons, List.length_append]
    omega
  rw [hdrop, List.take_left' rfl]
  congr 1
  omega

theorem nextFrame_frameOf {f : UInt32 × List UInt8} (hf : f.2.length ≤ 4096) :
    nextFrame (frameOf f) = .frame (frameOf f).length f.1.toNat := by
  have h := apiNext_frameOf hf []
  rw [List.append_nil] at h
  unfold nextFrame
  rw [h]

theorem apiNext_short_iff {s : List UInt8} : apiNext s = .short ↔ nextFrame s = .short := by
  unfold nextFrame
  cases apiNext s <;> simp

/-- A proper prefix of a frame is not complete. -/
theorem apiNext_prefix {f : UInt32 × List UInt8} (hf : f.2.length ≤ 4096) {p q : List UInt8}
    (hpq : p ++ q = frameOf f) (hq : q ≠ []) : apiNext p = .short :=
  apiNext_short_iff.mpr (apiFraming.next_prefix (hpq ▸ nextFrame_frameOf hf) hq)

/-- The loop of `client_read` over `api_next`, at most `n` times: the messages, and what is left. -/
def apiMessages : Nat → List UInt8 → List (Nat × List UInt8) × List UInt8
  | 0, buf => ([], buf)
  | n + 1, buf =>
    match apiNext buf with
    | .frame len type msg =>
      ((type, msg) :: (apiMessages n (buf.drop len)).1, (apiMessages n (buf.drop len)).2)
    | _ => ([], buf)

theorem apiMessages_short {p : List UInt8} (h : apiNext p = .short) (n : Nat) : apiMessages n p =
    ([], p) := by
  cases n with
  | zero => rfl
  | succ n =>
    unfold apiMessages
    rw [h]

/-- A sequence of frames, and a part of one more. -/
theorem apiMessages_frames {p : List UInt8} (hp : apiNext p = .short) :
    ∀ (fs : List (UInt32 × List UInt8)), (∀ f ∈ fs, f.2.length ≤ 4096) → ∀ n, fs.length ≤ n →
    apiMessages n (fs.flatMap frameOf ++ p) = (fs.map fun f => (f.1.toNat, f.2), p)
  | [], _, n, _ => apiMessages_short hp n
  | f :: fs, hfs, n, hn => by
    obtain ⟨n, rfl⟩ : ∃ k, n = k + 1 := ⟨n - 1, by rw [List.length_cons] at hn; omega⟩
    have ih := apiMessages_frames hp fs (fun g hg => hfs g (List.mem_cons_of_mem f hg)) n
      (by rw [List.length_cons] at hn; omega)
    rw [List.flatMap_cons, List.append_assoc]
    unfold apiMessages
    rw [apiNext_frameOf (hfs f List.mem_cons_self)]
    dsimp only
    rw [List.drop_left' rfl, ih]
    rfl

/-- **Frames come back, and no frame is the beginning of another.** -/
theorem api_round_trip (type : UInt32) (msg : List UInt8) (hmsg : msg.length ≤ 4096) :
    (∀ rest, apiNext (apiFrame type.toNat msg ++ rest) =
      .frame (apiFrame type.toNat msg).length type.toNat msg) ∧
    (∀ p q, p ++ q = apiFrame type.toNat msg → q ≠ [] → apiNext p = .short) ∧
    ∀ fs : List (UInt32 × List UInt8), (∀ f ∈ fs, f.2.length ≤ 4096) →
      ∀ p q, p ++ q = apiFrame type.toNat msg → q ≠ [] → ∀ n, fs.length ≤ n →
      apiMessages n (fs.flatMap frameOf ++ p) = (fs.map fun f => (f.1.toNat, f.2), p) := by
  have hpfx : ∀ p q, p ++ q = apiFrame type.toNat msg → q ≠ [] → apiNext p = .short :=
    fun p q => apiNext_prefix (f := (type, msg)) hmsg
  refine ⟨apiNext_frameOf (f := (type, msg)) hmsg, hpfx, fun fs hfs p q hpq hq => ?_⟩
  exact apiMessages_frames (hpfx p q hpq hq) fs hfs

/-- Two messages, and the first three bytes of another. -/
theorem api_round_trip_two :
    (∀ rest, apiNext (apiFrame 4294967295 [1, 2, 3] ++ rest) =
      .frame (apiFrame 4294967295 [1, 2, 3]).length 4294967295 [1, 2, 3]) ∧
    (∀ p q, p ++ q = apiFrame 4294967295 [1, 2, 3] → q ≠ [] → apiNext p = .short) ∧
    ∀ fs : List (UInt32 × List UInt8), (∀ f ∈ fs, f.2.length ≤ 4096) → ∀ p q,
      p ++ q = apiFrame 4294967295 [1, 2, 3] → q ≠ [] → ∀ n, fs.length ≤ n →
      apiMessages n (fs.flatMap frameOf ++ p) = (fs.map fun f => (f.1.toNat, f.2), p) :=
  api_round_trip 4294967295 [1, 2, 3] (by decide)

end Esp32S31.BleHa
