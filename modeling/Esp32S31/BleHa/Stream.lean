import Mathlib.Tactic.ByContra
import Esp32S31.BleHa.Daemon
import Esp32S31.Lib.Framing

/-!
# The stream of an API client

`client_read` takes what `recv` gives and passes the complete frames to `client_message`.
`apiFraming` are the frames of `api_next` in the buffer of a client.

**`client_stream`**: over every way to cut a stream, the messages and the close of the client are
those of the stream as a whole.
-/

namespace Esp32S31.BleHa

open Esp32S31.Lib Prog

/-! ## The frames -/

/-- A varint that ends in `p` is the same in every longer stream, and one that does not end is at
the end of `p`. -/
theorem readVarintFrom_append (p : List UInt8) (n shift pos v : Nat) :
    match readVarintFrom p n shift pos v with
    | .short => p.length < pos + n
    | .bad => ∀ x, readVarintFrom (p ++ x) n shift pos v = .bad
    | .value a q => pos < q ∧ q ≤ pos + n ∧ q ≤ p.length ∧
      ∀ x, readVarintFrom (p ++ x) n shift pos v = .value a q := by
  induction n generalizing shift pos v with
  | zero => exact fun _ => rfl
  | succ n ih =>
    unfold readVarintFrom
    by_cases hpos : p.length ≤ pos
    · rw [if_pos hpos]
      dsimp only
      omega
    · have hx : ∀ x : List UInt8, ¬ (p ++ x).length ≤ pos := by
        intro x
        rw [List.length_append]
        omega
      have hb : ∀ x, byte (p ++ x) pos = byte p pos := fun x => byte_append (by omega) x
      rw [if_neg hpos]
      by_cases hlast : (byte p pos).toNat < 128
      · simp only [if_pos hlast, if_neg (hx _), hb]
        exact ⟨by omega, by omega, by omega, fun _ => trivial⟩
      · simp only [if_neg hlast, if_neg (hx _), hb]
        have := ih (shift + 7) (pos + 1) (v ||| (byte p pos).toNat % 128 * 2 ^ shift % 2 ^ 32)
        split at this
        · omega
        · exact this
        · obtain ⟨h1, h2, h3, h4⟩ := this
          exact ⟨by omega, by omega, h3, h4⟩

theorem readVarint_short {p : List UInt8} {pos : Nat} (h : readVarint p pos = .short) :
    p.length < pos + 5 := by
  have := readVarintFrom_append p 5 0 pos 0
  unfold readVarint at h
  rw [h] at this
  exact this

theorem readVarint_bad {p : List UInt8} {pos : Nat} (h : readVarint p pos = .bad) (x : List UInt8) :
    readVarint (p ++ x) pos = .bad := by
  have := readVarintFrom_append p 5 0 pos 0
  unfold readVarint at h
  rw [h] at this
  exact this x

theorem readVarint_value {p : List UInt8} {pos a q : Nat} (h : readVarint p pos = .value a q) :
    pos < q ∧ q ≤ pos + 5 ∧ q ≤ p.length ∧ ∀ x, readVarint (p ++ x) pos = .value a q := by
  have := readVarintFrom_append p 5 0 pos 0
  unfold readVarint at h
  rw [h] at this
  exact this

/-- The header of a frame, with the position behind it. -/
inductive Header where
  | short
  | bad
  | value (n type pos : Nat)
  deriving DecidableEq

/-- The two varints of a header. -/
def header (buf : List UInt8) : Header :=
  match readVarint buf 1 with
  | .short => .short
  | .bad => .bad
  | .value n pos =>
    match readVarint buf pos with
    | .short => .short
    | .bad => .bad
    | .value type pos => .value n type pos

/-- `api_next` looks at the first byte, at the header and then at the length. -/
theorem apiNext_header (buf : List UInt8) :
    apiNext buf =
      if buf.length = 0 then .short
      else if byte buf 0 ≠ 0x00 then .bad
      else
        match header buf with
        | .short => .short
        | .bad => .bad
        | .value n type pos =>
          if n > 4096 then .bad
          else if pos + n > buf.length then .short
          else .frame (pos + n) type ((buf.drop pos).take n) := by
  unfold apiNext header
  cases readVarint buf 1 with
  | short | bad => rfl
  | value n pos =>
    dsimp only
    cases readVarint buf pos with
    | short | bad | value => rfl

theorem header_short {buf : List UInt8} (h : header buf = .short) : buf.length < 11 := by
  unfold header at h
  split at h
  · next he =>
    have := readVarint_short he
    omega
  · cases h
  · next n pos he =>
    obtain ⟨-, hpos, -⟩ := readVarint_value he
    split at h
    · next he' =>
      have := readVarint_short he'
      omega
    · cases h
    · cases h

theorem header_bad {buf : List UInt8} (h : header buf = .bad) (x : List UInt8) : header
    (buf ++ x) = .bad := by
  unfold header at h ⊢
  split at h
  · cases h
  · next he => rw [readVarint_bad he x]
  · next n pos he =>
    rw [(readVarint_value he).2.2.2 x]
    dsimp only
    split at h
    · cases h
    · next he' => rw [readVarint_bad he' x]
    · cases h

theorem header_value {buf : List UInt8} {n type pos : Nat} (h : header buf = .value n type pos) :
    0 < pos ∧ pos ≤ buf.length ∧ ∀ x, header (buf ++ x) = .value n type pos := by
  unfold header at h
  split at h
  · cases h
  · cases h
  · next n' p₁ he =>
    obtain ⟨h1, -, -, hx⟩ := readVarint_value he
    split at h
    · cases h
    · cases h
    · next type' p₂ he' =>
      obtain ⟨h2, -, hle, hx'⟩ := readVarint_value he'
      obtain ⟨rfl, rfl, rfl⟩ := Header.value.inj h
      refine ⟨by omega, hle, fun x => ?_⟩
      unfold header
      rw [hx x]
      dsimp only
      rw [hx' x]

/-- The frame that comes next, by its length and type. -/
def nextFrame (s : List UInt8) : NextFrame Nat :=
  match apiNext s with
  | .short => .short
  | .bad => .bad
  | .frame len type _ => .frame len type

/-- `nextFrame` of a stream that is not empty and begins with 0. -/
theorem nextFrame_header {s : List UInt8} (hs : 0 < s.length) (h0 : byte s 0 = 0x00) :
    nextFrame s = match header s with
      | .short => .short
      | .bad => .bad
      | .value n type pos =>
        if n > 4096 then .bad else if pos + n > s.length then .short
          else .frame (pos + n) type := by
  unfold nextFrame
  rw [apiNext_header, if_neg (Nat.ne_of_gt hs), if_neg (not_not_intro h0)]
  cases header s with
  | short | bad => rfl
  | value n type pos =>
    by_cases hn : n > 4096
    · simp only [if_pos hn]
    · by_cases hl : pos + n > s.length
      · simp only [if_neg hn, if_pos hl]
      · simp only [if_neg hn, if_neg hl]

theorem nextFrame_start {s : List UInt8} (hs : 0 < s.length) (h0 : byte s 0 ≠ 0x00) :
    nextFrame s = .bad := by
  unfold nextFrame
  rw [apiNext_header, if_neg (Nat.ne_of_gt hs), if_pos h0]

/-- The frames in the buffer of a client; a DisconnectRequest is the last one. -/
def apiFraming : Framing UInt8 Nat where
  next := nextFrame
  last type := type = 5
  cap := 1024
  length_pos := by
    intro s len t h
    by_cases hs : 0 < s.length
    · by_cases h0 : byte s 0 = 0x00
      · rw [nextFrame_header hs h0] at h
        cases hh : header s with
        | short | bad => rw [hh] at h; cases h
        | value n type pos =>
          obtain ⟨hpos, hle, -⟩ := header_value hh
          rw [hh] at h
          dsimp only at h
          split at h
          · cases h
          · split at h
            · cases h
            · obtain ⟨rfl, rfl⟩ := NextFrame.frame.inj h
              omega
      · rw [nextFrame_start hs h0] at h
        cases h
    · obtain rfl : s = [] := List.eq_nil_of_length_eq_zero (by omega)
      cases h
  frame_append := by
    intro s len t h x
    have hs : 0 < s.length := by
      cases s with
      | nil => cases h
      | cons a s => exact Nat.zero_lt_succ _
    have hsx : 0 < (s ++ x).length := by rw [List.length_append]; omega
    by_cases h0 : byte s 0 = 0x00
    · rw [nextFrame_header hs h0] at h
      rw [nextFrame_header hsx ((byte_append hs x).trans h0)]
      cases hh : header s with
      | short | bad => rw [hh] at h; cases h
      | value n type pos =>
        rw [hh] at h
        rw [(header_value hh).2.2 x]
        dsimp only at h ⊢
        split at h
        · cases h
        · next hn =>
          split at h
          · cases h
          · next hl =>
            rw [if_neg hn, if_neg (by rw [List.length_append]; omega)]
            exact h
    · rw [nextFrame_start hs h0] at h
      cases h
  bad_append := by
    intro s h x
    have hs : 0 < s.length := by
      cases s with
      | nil => cases h
      | cons a s => exact Nat.zero_lt_succ _
    have hsx : 0 < (s ++ x).length := by rw [List.length_append]; omega
    by_cases h0 : byte s 0 = 0x00
    · rw [nextFrame_header hs h0] at h
      rw [nextFrame_header hsx ((byte_append hs x).trans h0)]
      cases hh : header s with
      | short => rw [hh] at h; cases h
      | bad => rw [header_bad hh x]
      | value n type pos =>
        rw [hh] at h
        rw [(header_value hh).2.2 x]
        dsimp only at h ⊢
        split at h
        · next hn => exact if_pos hn
        · split at h <;> cases h
    · exact nextFrame_start hsx fun he => h0 ((byte_append hs x).symm.trans he)
  short_full := by
    intro s h hfull x
    have hs : 0 < s.length := by omega
    have hsx : 0 < (s ++ x).length := by rw [List.length_append]; omega
    by_cases h0 : byte s 0 = 0x00
    · rw [nextFrame_header hs h0] at h
      rw [nextFrame_header hsx ((byte_append hs x).trans h0)]
      cases hh : header s with
      | short => exact absurd (header_short hh) (by omega)
      | bad => rw [hh] at h; cases h
      | value n type pos =>
        rw [hh] at h
        rw [(header_value hh).2.2 x]
        dsimp only at h ⊢
        split at h
        · cases h
        · next hn =>
          rw [if_neg hn]
          split at h
          · next hl =>
            split
            · exact Or.inl rfl
            · exact Or.inr ⟨_, _, rfl, by omega⟩
          · cases h
    · rw [nextFrame_start hs h0] at h
      cases h

/-! ## One call of `client_read` -/

/-- The messages of the client in slot `i`, in their order. -/
def messages (i : Nat) : List (Call × Daemon) → List Nat
  | [] => []
  | (.message j type, _) :: ks => messages i ks ++ if j = i then [type] else []
  | _ :: ks => messages i ks

/-- Every `send` takes all bytes. -/
def Sends (env : Nat → Answer) : Prop := ∀ n, (env n).sent = true

/-- The client in slot `i` is as it was, and has no new message. -/
structure Untouched (i : Nat) (w w' : World Call Daemon) : Prop where
  client : w'.st.client i = w.st.client i
  messages : messages i w'.calls = messages i w.calls

section Client

variable {env : Nat → Answer} {i : Nat}

theorem client_modify {s : Daemon} (hi : (s.client i).fd.isSome = true) (f : Client → Client) :
    ({ s with clients := s.clients.modify i f } : Daemon).client i = f (s.client i) := by
  unfold Daemon.client at hi ⊢
  rw [List.getD_eq_getElem?_getD] at hi
  rw [List.getD_eq_getElem?_getD, List.getD_eq_getElem?_getD, List.getElem?_modify]
  cases h : s.clients[i]? with
  | none =>
    rw [h] at hi
    cases hi
  | some c => exact if_pos rfl

theorem clientSend_untouched (hs : Sends env) (type : Nat) (msg : List UInt8)
    (w : World Call Daemon) : Untouched i w ((clientSend i type msg).run env w).2 := by
  unfold clientSend
  by_cases hlen : msg.length + 12 ≤ 1200
  · rw [when_pos hlen, run_ask, run_call, hs w.asked, when_neg nofun]
    exact ⟨rfl, rfl⟩
  · rw [when_neg hlen]
    exact ⟨rfl, rfl⟩

theorem clientClose_run (env : Nat → Answer) {w : World Call Daemon}
    (hopen : (w.st.client i).fd.isSome = true) :
    messages i ((clientClose i).run env w).2.calls = messages i w.calls ∧
      (((clientClose i).run env w).2.st.client i).fd = none :=
  ⟨rfl, congrArg Client.fd (client_modify hopen fun _ => ⟨none, [], false⟩)⟩

/-- A message is counted, a DisconnectRequest closes the client, and nothing else changes it or its
bytes. -/
theorem clientMessage_run (hs : Sends env) (type : Nat) {w : World Call Daemon}
    (hopen : (w.st.client i).fd.isSome = true) :
    let w' := ((clientMessage i type).run env w).2
    messages i w'.calls = messages i w.calls ++ [type] ∧
      if type = 5 then (w'.st.client i).fd = none
      else (w'.st.client i).fd.isSome = true ∧ (w'.st.client i).buf = (w.st.client i).buf := by
  intro w'
  obtain ⟨w₁, hw₁⟩ : ∃ w₁ : World Call Daemon, w₁ = { w with
      calls := (.message i type, w.st) :: w.calls } :=
    ⟨_, rfl⟩
  have hcount : messages i w₁.calls = messages i w.calls ++ [type] := by
    rw [hw₁]
    exact congrArg (messages i w.calls ++ ·) (if_pos rfl)
  have hst : w₁.st = w.st := by rw [hw₁]
  -- an answer to the client
  have hsend : ∀ t m, w' = ((clientSend i t m).run env w₁).2 → type ≠ 5 →
      messages i w'.calls = messages i w.calls ++ [type] ∧
        if type = 5 then (w'.st.client i).fd = none
        else (w'.st.client i).fd.isSome = true ∧ (w'.st.client i).buf = (w.st.client i).buf := by
    intro t m hw' h5
    obtain ⟨hclient, hmsg⟩ := clientSend_untouched (i := i) hs t m w₁
    rw [← hw'] at hclient hmsg
    rw [if_neg h5, hclient, hst]
    exact ⟨hmsg.trans hcount, hopen, rfl⟩
  -- a change of the subscription
  have hsub : ∀ sub, w' = ((modifyClient i fun c => { c with subscribed := sub }).run env w₁).2 →
      type ≠ 5 → messages i w'.calls = messages i w.calls ++ [type] ∧
        if type = 5 then (w'.st.client i).fd = none
        else (w'.st.client i).fd.isSome = true ∧ (w'.st.client i).buf = (w.st.client i).buf := by
    intro sub hw' h5
    have hclient : w'.st.client i = { w.st.client i with subscribed := sub } := by
      rw [hw', ← hst]
      exact client_modify (hst ▸ hopen) _
    rw [if_neg h5, hclient, hw']
    exact ⟨hcount, hopen, rfl⟩
  have hrun : w' = ((clientMessage i type).run env w).2 := rfl
  unfold clientMessage at hrun
  rw [run_call, ← hw₁, run_get] at hrun
  by_cases h1 : type = 1
  · rw [if_pos h1] at hrun
    exact hsend _ _ hrun (by omega)
  by_cases h5 : type = 5
  · rw [if_neg h1, if_pos h5, run_bind, run_get] at hrun
    obtain ⟨hclient, hmsg⟩ := clientSend_untouched (i := i) hs 6 [] w₁
    rw [hst] at hclient
    have hop := hclient ▸ hopen
    rw [when_pos hop] at hrun
    obtain ⟨hmsg', hfd⟩ := clientClose_run env hop
    rw [if_pos h5, hrun]
    exact ⟨hmsg'.trans (hmsg.trans hcount), hfd⟩
  rw [if_neg h1, if_neg h5] at hrun
  by_cases h7 : type = 7
  · rw [if_pos h7] at hrun
    exact hsend _ _ hrun h5
  by_cases h9 : type = 9
  · rw [if_neg h7, if_pos h9] at hrun
    exact hsend _ _ hrun h5
  rw [if_neg h7, if_neg h9] at hrun
  by_cases h11 : type = 11
  · rw [if_pos h11] at hrun
    exact hsend _ _ hrun h5
  by_cases h66 : type = 66
  · rw [if_neg h11, if_pos h66] at hrun
    exact hsub _ hrun h5
  rw [if_neg h11, if_neg h66] at hrun
  by_cases h87 : type = 87
  · rw [if_pos h87] at hrun
    exact hsub _ hrun h5
  rw [if_neg h87] at hrun
  by_cases h80 : type = 80
  · rw [when_pos h80] at hrun
    exact hsend _ _ hrun h5
  · rw [when_neg h80] at hrun
    have hw' : w' = w₁ := hrun
    rw [if_neg h5, hw', hst]
    exact ⟨hcount, hopen, rfl⟩

/-- What a loop over the frames of a buffer leaves: the client is closed behind the last frame, and
else it is open with the same bytes. -/
structure Drained (i : Nat) (buf : List UInt8) (d : List Nat × List UInt8 × Framing.Stop)
    (w : World Call Daemon) (r : (Nat × ApiFrame) × World Call Daemon) : Prop where
  messages : messages i r.2.calls = messages i w.calls ++ d.1
  last : d.2.2 = .last → (r.2.st.client i).fd = none
  opened : d.2.2 ≠ .last →
    (r.2.st.client i).fd.isSome = true ∧ (r.2.st.client i).buf = (w.st.client i).buf ∧
      (r.1.2 = .bad ↔ d.2.2 = .bad) ∧ buf.drop r.1.1 = d.2.1

theorem clientFrames_closed {buf : List UInt8} {n used : Nat} {w : World Call Daemon}
    (hclosed : (w.st.client i).fd = none) :
    (clientFrames i buf n used).run env w = ((used, .short), w) := by
  cases n with
  | zero => rfl
  | succ n =>
    unfold clientFrames
    rw [run_get, if_pos hclosed]
    rfl

/-- The loop stops before the next frame. -/
theorem Drained.stopped {buf : List UInt8} {w : World Call Daemon} {f : ApiFrame}
    {stop : Framing.Stop} (hopen : (w.st.client i).fd.isSome = true) (hlast : stop ≠ .last)
    (hbad : f = .bad ↔ stop = .bad) (used : Nat) :
    Drained i buf ([], buf.drop used, stop) w ((used, f), w) where
  messages := (List.append_nil _).symm
  last h := absurd h hlast
  opened _ := ⟨hopen, rfl, hbad, rfl⟩

/-- The loop of `client_read` takes the frames out of the buffer. -/
theorem clientFrames_run (hs : Sends env) (buf : List UInt8) (n used : Nat) {w : World Call Daemon}
    (hopen : (w.st.client i).fd.isSome = true) :
    Drained i buf (apiFraming.drain n (buf.drop used))
      w ((clientFrames i buf n used).run env w) := by
  induction n generalizing used w with
  | zero => exact .stopped hopen (by simp) (by simp) used
  | succ n ih =>
    have hne : ¬ (w.st.client i).fd = none := fun hn => by rw [hn] at hopen; cases hopen
    unfold clientFrames Framing.drain
    rw [run_get, if_neg hne]
    have hnext : apiFraming.next (buf.drop used) = nextFrame (buf.drop used) := rfl
    rw [hnext]
    unfold nextFrame
    cases apiNext (buf.drop used) with
    | short => exact .stopped hopen (by simp) (by simp) used
    | bad => exact .stopped hopen (by simp) (by simp) used
    | frame len type msg =>
      dsimp only
      rw [run_bind]
      have hmsg := clientMessage_run hs type hopen
      by_cases h5 : type = 5
      · obtain ⟨hm, hfd⟩ := hmsg
        rw [if_pos h5] at hfd
        have hlast : apiFraming.last type = true := decide_eq_true h5
        rw [clientFrames_closed hfd, if_pos hlast]
        exact ⟨hm, fun _ => hfd, fun hn => absurd rfl hn⟩
      · obtain ⟨hm, hfd⟩ := hmsg
        rw [if_neg h5] at hfd
        have hlast : ¬ apiFraming.last type = true := fun h => h5 (of_decide_eq_true h)
        have hd := ih (used + len) hfd.1
        rw [if_neg hlast, List.drop_drop]
        refine ⟨?_, hd.last, fun hn => ?_⟩
        · rw [hd.messages, hm, List.append_assoc]
          rfl
        · obtain ⟨h1, h2, h3, h4⟩ := hd.opened hn
          exact ⟨h1, h2.trans hfd.2, h3, h4⟩

/-- The client in slot `i` is open and has the bytes `rest`, which have no frame. -/
structure Pending (i : Nat) (rest : List UInt8) (w : World Call Daemon) : Prop where
  opened : (w.st.client i).fd.isSome = true
  buf : (w.st.client i).buf = rest
  short : nextFrame rest = .short
  room : rest.length < 1024

/-- What the bytes of a buffer do: the messages are those of the frames in it, and the client is
closed or keeps the rest. -/
theorem clientBytes_run (hs : Sends env) {w : World Call Daemon}
    (hopen : (w.st.client i).fd.isSome = true)
    (hfit : (w.st.client i).buf.length ≤ 1024) :
    let buf := (w.st.client i).buf
    let d := apiFraming.drain (buf.length + 1) buf
    let w' := ((clientBytes i).run env w).2
    messages i w'.calls = messages i w.calls ++ d.1 ∧
      if d.2.2 = .short ∧ d.2.1.length < 1024 then Pending i d.2.1 w'
        else (w'.st.client i).fd = none := by
  intro buf d w'
  have hd := clientFrames_run hs buf (buf.length + 1) 0 hopen
  rw [List.drop_zero] at hd
  obtain ⟨r, hr⟩ : ∃ r, (clientFrames i buf (buf.length + 1) 0).run env w = r := ⟨_, rfl⟩
  rw [hr] at hd
  have hrun : w' = ((clientBytes i).run env w).2 := rfl
  unfold clientBytes at hrun
  rw [run_get, run_bind, hr, run_get] at hrun
  obtain ⟨hrest, hshort⟩ := Framing.drain_rest (F := apiFraming) (Nat.lt_succ_self buf.length)
  have hdone : ∀ {w₂ : World Call Daemon}, w' = w₂ →
      messages i w₂.calls = messages i w.calls ++ d.1 →
      ¬ (d.2.2 = .short ∧ d.2.1.length < 1024) → (w₂.st.client i).fd = none →
      messages i w'.calls = messages i w.calls ++ d.1 ∧
        if d.2.2 = .short ∧ d.2.1.length < 1024 then Pending i d.2.1 w'
          else (w'.st.client i).fd = none := by
    intro w₂ hw hm hn hfd
    rw [if_neg hn, hw]
    exact ⟨hm, hfd⟩
  by_cases hlast : d.2.2 = .last
  · have hfd := hd.last hlast
    rw [if_pos hfd] at hrun
    exact hdone hrun hd.messages (fun h => nomatch h.1.symm.trans hlast) hfd
  · obtain ⟨hop, hbuf, hbad, hdrop⟩ := hd.opened hlast
    have hne : ¬ (r.2.st.client i).fd = none := fun hn => by rw [hn] at hop; cases hop
    have hclose := clientClose_run env hop
    rw [if_neg hne] at hrun
    have hlen : d.2.1.length = buf.length - r.1.1 := by
      rw [← hdrop, List.length_drop]
    by_cases hend : r.1.2 = .bad ∨ (r.1.1 = 0 ∧ buf.length = 1024)
    · rw [if_pos hend] at hrun
      refine hdone hrun (hclose.1.trans hd.messages) (fun ⟨h1, h2⟩ => ?_) hclose.2
      rcases hend with hb | ⟨h0, hfull⟩
      · exact nomatch h1.symm.trans (hbad.mp hb)
      · omega
    · rw [if_neg hend] at hrun
      have hnb : d.2.2 ≠ .bad := fun hb => hend (Or.inl (hbad.mpr hb))
      have hsh : d.2.2 = .short := by
        cases h : d.2.2 with
        | short => rfl
        | bad => exact absurd h hnb
        | last => exact absurd h hlast
      have hroom : d.2.1.length < 1024 := by
        have hfit' : buf.length ≤ 1024 := hfit
        by_contra hge
        exact hend (Or.inr ⟨by omega, by omega⟩)
      have hcl := client_modify hop fun c => { c with buf := buf.drop r.1.1 }
      rw [if_pos ⟨hsh, hroom⟩, hrun]
      refine ⟨hd.messages, ?_, ?_, hshort hsh, hroom⟩
      · exact (congrArg (fun c : Client => c.fd.isSome) hcl).trans hop
      · exact (congrArg Client.buf hcl).trans hdrop

/-- `client_read` with a chunk that fits into the buffer. -/
theorem clientRead_run (hs : Sends env) {w : World Call Daemon} {rest b : List UInt8}
    (hk : Pending i rest w)
    (hrecv : (env w.asked).recv = .bytes b) (hb : b ≠ []) (hfit : b.length ≤ 1024 - rest.length) :
    let d := apiFraming.drain ((rest ++ b).length + 1) (rest ++ b)
    let w' := ((clientRead i).run env w).2
    messages i w'.calls = messages i w.calls ++ d.1 ∧
      if d.2.2 = .short ∧ d.2.1.length < 1024 then Pending i d.2.1 w'
        else (w'.st.client i).fd = none := by
  intro d w'
  have hrun : w' = ((clientRead i).run env w).2 := rfl
  unfold clientRead at hrun
  rw [run_ask, run_get, hrecv] at hrun
  dsimp only at hrun
  rw [hk.buf, List.take_of_length_le hfit, if_neg hb] at hrun
  have hcl := client_modify hk.opened fun c => { c with buf := c.buf ++ b }
  rw [hk.buf] at hcl
  have hlen := hk.room
  obtain ⟨w₁, hw₁⟩ : ∃ w₁ : World Call Daemon, w₁ = { w with
      asked := w.asked + 1
      st := { w.st with clients := w.st.clients.modify i fun c =>
        { c with buf := c.buf ++ b } } } := ⟨_, rfl⟩
  have hbuf : (w₁.st.client i).buf = rest ++ b := by
    rw [hw₁]
    exact congrArg Client.buf hcl
  have hop : (w₁.st.client i).fd.isSome = true := by
    rw [hw₁]
    exact (congrArg (fun c : Client => c.fd.isSome) hcl).trans hk.opened
  have hbytes := clientBytes_run hs (w := w₁) hop (by rw [hbuf, List.length_append]; omega)
  rw [hbuf] at hbytes
  have hw' : w' = ((clientBytes i).run env w₁).2 := by
    rw [hrun, hw₁]
    rfl
  have hcalls : messages i w₁.calls = messages i w.calls := by rw [hw₁]
  rw [hw', ← hcalls]
  exact hbytes

/-! ## Every stream -/

/-- The calls of `client_read` for the client in slot `i`, with the chunks that `recv` gives.
Between them the program may do anything that leaves the client; nothing is read from a client that
was closed. -/
inductive Reads (env : Nat → Answer) (i : Nat) :
    World Call Daemon → List (List UInt8) → World Call Daemon → Prop
  | nil (w : World Call Daemon) : Reads env i w [] w
  | closed {w : World Call Daemon} {cs : List (List UInt8)} : (w.st.client i).fd = none →
    Reads env i w cs w
  | other {w w₁ w' : World Call Daemon} {cs : List (List UInt8)} :
    (w₁.st.client i).fd = (w.st.client i).fd → (w₁.st.client i).buf = (w.st.client i).buf →
      messages i w₁.calls = messages i w.calls → Reads env i w₁ cs w' → Reads env i w cs w'
  | read {w w' : World Call Daemon} {b : List UInt8} {cs : List (List UInt8)} :
    (w.st.client i).fd.isSome = true → (env w.asked).recv = .bytes b → b ≠ [] →
      b.length ≤ 1024 - (w.st.client i).buf.length →
      Reads env i ((clientRead i).run env w).2 cs w' → Reads env i w (b :: cs) w'

/-- A client that was closed gets no more messages. -/
theorem Reads.of_closed {w w' : World Call Daemon} {cs : List (List UInt8)}
    (hr : Reads env i w cs w') : (w.st.client i).fd = none →
      messages i w'.calls = messages i w.calls ∧ (w'.st.client i).fd = none := by
  induction hr with
  | nil w => exact fun hn => ⟨rfl, hn⟩
  | closed _ => exact fun hn => ⟨rfl, hn⟩
  | other hfd _ hmsg _ ih =>
    intro hn
    obtain ⟨h1, h2⟩ := ih (hfd.trans hn)
    exact ⟨h1.trans hmsg, h2⟩
  | read hopen _ _ _ _ _ =>
    intro hn
    rw [hn] at hopen
    cases hopen

/-- From a client that is open, the calls read the frames of its bytes and of the chunks. -/
theorem Reads.parse (hs : Sends env) {w w' : World Call Daemon} {cs : List (List UInt8)}
    (hr : Reads env i w cs w') : ∀ {rest : List UInt8}, Pending i rest w →
    messages i w'.calls = messages i w.calls ++ (apiFraming.parse (rest ++ cs.flatten)).1 ∧
      ((w'.st.client i).fd = none ↔ (apiFraming.parse (rest ++ cs.flatten)).2 = true) ∧
      ((w'.st.client i).fd.isSome = true → (w'.st.client i).buf.length < 1024) := by
  induction hr with
  | nil w =>
    intro rest hk
    have hopen := hk.opened
    have hroom : ¬ apiFraming.cap ≤ rest.length := Nat.not_le.mpr hk.room
    rw [List.flatten_nil, List.append_nil, Framing.parse_short hk.short, decide_eq_false hroom]
    refine ⟨(List.append_nil _).symm, ⟨fun hn => ?_, nofun⟩, fun _ => hk.buf ▸ hk.room⟩
    rw [hn] at hopen
    cases hopen
  | closed hclosed =>
    intro rest hk
    have hopen := hk.opened
    rw [hclosed] at hopen
    cases hopen
  | other hfd hbuf hmsg _ ih =>
    intro rest hk
    obtain ⟨h1, h2⟩ := ih ⟨hfd ▸ hk.opened, hbuf.trans hk.buf, hk.short, hk.room⟩
    exact ⟨h1.trans (congrArg (· ++ _) hmsg), h2⟩
  | @read w w' b cs _ hrecv hb hfit hrest ih =>
    intro rest hk
    obtain ⟨hmsg, hpend⟩ := clientRead_run hs hk hrecv hb (hk.buf ▸ hfit)
    have hroom := hk.room
    have hlen : (rest ++ b).length ≤ apiFraming.cap := by
      have : b.length ≤ 1024 - rest.length := hk.buf ▸ hfit
      rw [List.length_append]
      exact Nat.le_trans (by omega) (Nat.le_refl 1024)
    have hparse := Framing.parse_append (F := apiFraming) (Nat.lt_succ_self (rest ++ b).length) hlen
      cs.flatten
    obtain ⟨-, hshort⟩ := Framing.drain_rest (F := apiFraming) (Nat.lt_succ_self (rest ++ b).length)
    rw [List.flatten_cons, ← List.append_assoc, hparse]
    by_cases hgo : (apiFraming.drain ((rest ++ b).length + 1) (rest ++ b)).2.2 = .short
    · rw [if_pos hgo]
      by_cases hsmall : (apiFraming.drain ((rest ++ b).length + 1) (rest ++ b)).2.1.length < 1024
      · rw [if_pos ⟨hgo, hsmall⟩] at hpend
        obtain ⟨h1, h2⟩ := ih hpend
        refine ⟨?_, h2⟩
        rw [h1, hmsg, List.append_assoc]
      · rw [if_neg fun h => hsmall h.2] at hpend
        have hfull := Framing.parse_full (hshort hgo) (Nat.le_of_not_lt hsmall) cs.flatten
        obtain ⟨h1, h2⟩ := hrest.of_closed hpend
        rw [hfull, h1, hmsg, List.append_nil]
        exact ⟨rfl, iff_of_true h2 rfl, fun hop => by rw [h2] at hop; cases hop⟩
    · rw [if_neg hgo]
      rw [if_neg fun h => hgo h.1] at hpend
      obtain ⟨h1, h2⟩ := hrest.of_closed hpend
      rw [h1, hmsg]
      exact ⟨rfl, iff_of_true h2 rfl, fun hop => by rw [h2] at hop; cases hop⟩

/-- The client has just come: it is open, and its buffer is empty. -/
structure Fresh (i : Nat) (w : World Call Daemon) : Prop where
  opened : (w.st.client i).fd.isSome = true
  empty : (w.st.client i).buf = []

theorem Fresh.pending {w : World Call Daemon} (h : Fresh i w) : Pending i [] w :=
  ⟨h.opened, h.empty, rfl, by decide⟩

end Client

/-- **The stream of a client.** Two clients that send the same stream, cut in any two ways, get the
same messages: those of the frames of the stream up to a bad one, one that is longer than the
buffer, or a DisconnectRequest. Both are closed, or none; and while a client is open, there is room
in its buffer. -/
theorem client_stream {env env' : Nat → Answer} (hs : Sends env) (hs' : Sends env') {i j : Nat}
    {w w' v v' : World Call Daemon} {cs ds : List (List UInt8)} (hw : Fresh i w) (hv : Fresh j v)
    (hr : Reads env i w cs w') (hr' : Reads env' j v ds v') (heq : cs.flatten = ds.flatten) :
    (messages i w'.calls = messages i w.calls ++ (apiFraming.parse cs.flatten).1 ∧
      messages j v'.calls = messages j v.calls ++ (apiFraming.parse cs.flatten).1) ∧
    ((w'.st.client i).fd = none ↔ (apiFraming.parse cs.flatten).2 = true) ∧
    ((w'.st.client i).fd = none ↔ (v'.st.client j).fd = none) ∧
    ((w'.st.client i).fd.isSome = true → (w'.st.client i).buf.length < 1024) := by
  obtain ⟨h1, h2, h3⟩ := hr.parse hs hw.pending
  obtain ⟨h1', h2', -⟩ := hr'.parse hs' hv.pending
  rw [List.nil_append] at h1 h2 h1' h2'
  rw [← heq] at h1' h2'
  exact ⟨⟨h1, h1'⟩, h2, h2.trans h2'.symm, h3⟩

/-- A client in slot 0. -/
def oneClient : World Call Daemon :=
  ⟨{ Daemon.zero with clients := [⟨some 7, [], false⟩] }, 0, []⟩

/-- An adapter and sockets that give the chunk `a` first and `b` after it. -/
def chunks (a b : List UInt8) (n : Nat) : Answer := { recv := .bytes (if n = 0 then a else b) }

theorem chunks_reads {a b : List UInt8} (ha : a ≠ []) (hb : b ≠ []) (hla : a.length ≤ 1024)
    (hopen : ((((clientRead 0).run (chunks a b) oneClient).2.st.client 0).fd.isSome) = true)
    (hasked : ((clientRead 0).run (chunks a b) oneClient).2.asked ≠ 0)
    (hfit : b.length ≤ 1024 - (((clientRead 0).run (chunks a b) oneClient).2.st.client
    0).buf.length) : ∃ w', Reads (chunks a b) 0 oneClient [a, b] w' :=
  ⟨_, .read rfl rfl ha hla (.read hopen (congrArg Recv.bytes (if_neg hasked)) hb hfit (.nil _))⟩

/-- A PingRequest and a ListEntitiesRequest in two ways. -/
theorem client_stream_ping : ∃ w' v',
    Reads (chunks [0x00] [0x00, 0x07, 0x00, 0x00, 0x0b]) 0 oneClient [[0x00],
      [0x00, 0x07, 0x00, 0x00, 0x0b]] w' ∧
    Reads (chunks [0x00, 0x00, 0x07, 0x00] [0x00, 0x0b]) 0 oneClient [[0x00, 0x00, 0x07, 0x00],
    [0x00, 0x0b]] v' ∧ messages 0 w'.calls = [7, 11] ∧ messages 0 v'.calls = [7, 11] ∧
    ((w'.st.client 0).fd = none ↔ (v'.st.client 0).fd = none) := by
  obtain ⟨w', hw⟩ := chunks_reads (a := [0x00]) (b := [0x00, 0x07, 0x00, 0x00, 0x0b]) (by decide)
    (by decide)
    (by decide) (by decide) (by decide) (by decide)
  obtain ⟨v', hv⟩ := chunks_reads (a := [0x00, 0x00, 0x07, 0x00]) (b := [0x00, 0x0b]) (by decide)
    (by decide)
    (by decide) (by decide) (by decide) (by decide)
  obtain ⟨⟨h1, h2⟩, -, h3, -⟩ := client_stream (fun _ => rfl) (fun _ => rfl) (i := 0) (j := 0) ⟨rfl,
    rfl⟩ ⟨rfl, rfl⟩
    hw hv rfl
  have hparse : (apiFraming.parse [[0x00], [0x00, 0x07, 0x00, 0x00, 0x0b]].flatten).1 = [7,
      11] := by decide
  exact ⟨w', v', hw, hv, h1.trans hparse, h2.trans hparse, h3⟩

end Esp32S31.BleHa
