import Esp32S31.BleHa.Grammar
import Esp32S31.BleHa.Prepared

/-!
# A packet in pieces

The packets of Improv behind the three ways to write the RPC value. `handed` (`Prepared`) is the
pieces that a sequence of requests brings; what is shown here holds for all the requests with the
same pieces in any splits.

* `request_collects`, `request_executes`: one request, before and at the end of a packet.
* **`improv_pieces`**: a sequence of packets.
* `improv_pieces_stale`: the buffer keeps the bytes of a packet that was dropped at a connection.
-/

namespace Esp32S31.BleHa

open Esp32S31.Lib Prog

/-! ## What is left alone -/

/-- A request that writes the RPC value, or prepares it. -/
def IsWrite (req : List UInt8) : Prop :=
  ((byte req 0 = 0x12 ∨ byte req 0 = 0x52) ∧ 3 ≤ req.length ∧ get16 req 1 = gattRpcValue) ∨
    byte req 0 = 0x16 ∨ byte req 0 = 0x18

/-- The state without the buffers of the RPC value and the counters of `acl_send`. -/
def Daemon.others (s : Daemon) : Daemon :=
  { s with rpc := .empty, aclCredits := 0, connSent := 0, gatt := { s.gatt with prep := .empty } }

/-- The calls of Improv, newest first. -/
def improvCalls (w : World Call Daemon) : List (Call × Daemon) :=
  w.calls.filter fun k => k.1.isImprov || k.1.isRequest || match k.1 with
    | .command _ => true
    | _ => false

/-- What the pieces of a packet can change. -/
def seen (w : World Call Daemon) : Buffer 128 × Daemon × List (Call × Daemon) × List ImprovCmd :=
  (w.st.rpc, w.st.others, improvCalls w, commands w)

theorem ignoresAcl_seen : IgnoresAcl seen where
  asked _ _ := rfl
  acl _ _ _ := rfl
  write _ _ _ _ := rfl
  att w k s hk := by cases k <;> first | rfl | cases hk

/-- A write changes the prepared bytes of the ATT server at most. -/
theorem gattHandle_isWrite {req : List UInt8} (h : IsWrite req) (g : Gatt) (max : Nat) :
    ∃ b : Buffer 128, (gattHandle g req max).1 = { g with prep := b } := by
  rcases h with ⟨hop, hlen, hrpc⟩ | h16 | h18
  · have hw : (writeValue g (get16 req 1) (req.drop 3)).1 = g := by
      rw [hrpc]
      rfl
    refine ⟨g.prep, ?_⟩
    rcases hop with h12 | h52
    · rw [gattHandle_write g req max h12, if_neg (by omega)]
      exact hw
    · rw [gattHandle_command g req max h52, if_pos hlen]
      exact hw
  · rw [gattHandle_prepare g req max h16]
    by_cases ha : Accepts g.prep.content req
    · obtain ⟨b, _, he⟩ := prepareWrite_accepted g req (min max g.mtu) ha
      rw [he]
      exact ⟨b, rfl⟩
    · obtain ⟨_, _, he⟩ := prepareWrite_refused g req (min max g.mtu) ha
      rw [he]
      exact ⟨g.prep, rfl⟩
  · rw [gattHandle_execute g req max h18]
    exact ⟨_, rfl⟩

theorem seen_served {req : List UInt8} (h : IsWrite req) (w : World Call Daemon) :
    seen (served w req) = seen w := by
  obtain ⟨b, hb⟩ := gattHandle_isWrite h w.st.gatt w.st.rspMax
  have hothers : (served w req).st.others = w.st.others := by
    show Daemon.others { w.st with gatt := (gattHandle w.st.gatt req w.st.rspMax).1 } = _
    rw [hb]
    rfl
  unfold seen
  rw [hothers]
  rfl

/-! ## One request -/

/-- The bytes `held` of a packet are in the buffer, and nothing else has happened since `w₀`. -/
structure Collecting (w₀ w : World Call Daemon) (held : List UInt8) : Prop where
  content : w.st.rpc.content = held
  mem : w.st.rpc.mem = held ++ w₀.st.rpc.mem.drop held.length
  others : w.st.others = w₀.st.others
  calls : improvCalls w = improvCalls w₀
  commands : commands w = commands w₀

/-- The command of a packet of `n` bytes was executed, once, and its bytes are cleared. -/
structure Executed (w₀ w : World Call Daemon) (c : ImprovCmd) (n : Nat) : Prop where
  empty : w.st.rpc.len = 0
  mem : w.st.rpc.mem = List.replicate n 0 ++ w₀.st.rpc.mem.drop n
  once : commands w = c :: commands w₀

section Request

variable {env : Nat → Answer} {w₀ w : World Call Daemon} {held : List UInt8} {req : List UInt8}

theorem Collecting.of_seen {w' : World Call Daemon} (h : Collecting w₀ w held)
    (hs : seen w' = seen w) : Collecting w₀ w' held := by
  obtain ⟨hrpc, hothers, hcalls, hcommands⟩ : w'.st.rpc = w.st.rpc ∧ w'.st.others = w.st.others ∧
      improvCalls w' = improvCalls w ∧ BleHa.commands w' = BleHa.commands w := by
    simpa only [seen, Prod.mk.injEq] using hs
  exact ⟨by rw [hrpc]; exact h.content, by rw [hrpc]; exact h.mem, hothers.trans h.others,
    hcalls.trans h.calls, hcommands.trans h.commands⟩

theorem Executed.of_seen {w' : World Call Daemon} {c : ImprovCmd} {n : Nat} (h : Executed w₀ w c n)
    (hs : seen w' = seen w) : Executed w₀ w' c n := by
  obtain ⟨hrpc, -, -, hcommands⟩ : w'.st.rpc = w.st.rpc ∧ w'.st.others = w.st.others ∧
      improvCalls w' = improvCalls w ∧ BleHa.commands w' = BleHa.commands w := by
    simpa only [seen, Prod.mk.injEq] using hs
  exact ⟨by rw [hrpc]; exact h.empty, by rw [hrpc]; exact h.mem, hcommands.trans h.once⟩

/-- A piece behind which the packet is incomplete. -/
theorem rpcWrite_collects {data : List UInt8} (h : Collecting w₀ w held)
    (hlen : (held ++ data).length ≤ 128)
    (hp : improvParse (held ++ data) = .error 1) :
    Collecting w₀ ((rpcWrite data).run env w).2 (held ++ data) := by
  have hl : w.st.rpc.len = held.length := by rw [← h.content, Buffer.length_content]
  rw [List.length_append] at hlen
  have hfit : w.st.rpc.len + data.length ≤ 128 := by omega
  rw [rpcWrite_incomplete hfit (by rw [h.content]; exact hp)]
  refine ⟨?_, ?_, h.others, h.calls, h.commands⟩
  · exact (Buffer.content_append _ _ _).trans (congrArg (· ++ data) h.content)
  · have hmem : (w.st.rpc.append data hfit).mem =
        w.st.rpc.content ++ data ++ w.st.rpc.mem.drop (w.st.rpc.len + data.length) := rfl
    refine hmem.trans ?_
    rw [h.content, h.mem, hl, List.drop_append, List.drop_drop, List.drop_of_length_le (by omega),
      List.length_append, List.nil_append]
    congr 2
    omega

/-- The piece that completes the packet. -/
theorem rpcWrite_executes {data : List UInt8} {c : ImprovCmd} (h : Collecting w₀ w held)
    (hlen : (held ++ data).length ≤ 128) (hp : improvParse (held ++ data) = .ok c) :
    Executed w₀ ((rpcWrite data).run env w).2 c (held ++ data).length := by
  have hl : w.st.rpc.len = held.length := by rw [← h.content, Buffer.length_content]
  rw [List.length_append] at hlen
  have hfit : w.st.rpc.len + data.length ≤ 128 := by omega
  have hok : improvParse (w.st.rpc.content ++ data) = .ok c := by
    rw [h.content]
    exact hp
  have hrpc : ((rpcWrite data).run env w).2.st.rpc = (w.st.rpc.append data hfit).wipe := by
    rw [rpcWrite, run_call, run_get, dif_pos hfit, run_modify, Buffer.content_append, hok]
    dsimp only
    rw [run_modify, run_bind, improvCommand_rpc, setState_rpc]
  refine ⟨?_, ?_, (rpcWrite_valid hfit hok).2.2.trans (congrArg _ h.commands)⟩
  · rw [hrpc, Buffer.len_wipe]
  · have hmem : (w.st.rpc.append data hfit).wipe.mem = List.replicate (w.st.rpc.len + data.length)
        0 ++ (w.st.rpc.content ++ data ++ w.st.rpc.mem.drop (w.st.rpc.len + data.length)).drop
          (w.st.rpc.len + data.length) := rfl
    have hcut : (held ++ data).length = held.length + data.length := List.length_append
    rw [hrpc, hmem, h.content, h.mem, hl, List.drop_left' hcut, List.drop_append, List.drop_drop,
      List.drop_of_length_le (by omega), List.nil_append, hcut]
    congr 2
    omega

/-- Before the packet is complete. -/
theorem request_collects (h : Collecting w₀ w held) (hw : IsWrite req)
    (hlen : (held ++ (hands w.st.gatt.prep.content req).toList.flatten).length ≤ 128)
    (hp : improvParse (held ++ (hands w.st.gatt.prep.content req).toList.flatten) = .error 1) :
    Collecting w₀ ((l2capFrame 4 req).run env w).2
      (held ++ (hands w.st.gatt.prep.content req).toList.flatten) := by
  have hs : Collecting w₀ (served w req) held := h.of_seen (seen_served hw w)
  refine Collecting.of_seen ?_ (l2capFrame_view env w ignoresAcl_seen req)
  cases hd : hands w.st.gatt.prep.content req with
  | none =>
    rw [Option.toList_none, List.flatten_nil, List.append_nil]
    exact hs
  | some data =>
    have hdata : (some data).toList.flatten = data := List.append_nil data
    rw [hd, hdata] at hlen hp
    rw [hdata]
    exact rpcWrite_collects hs hlen hp

/-- At its end. -/
theorem request_executes {c : ImprovCmd} (h : Collecting w₀ w held) (hw : IsWrite req)
    (hheld : improvParse held = .error 1)
    (hlen : (held ++ (hands w.st.gatt.prep.content req).toList.flatten).length ≤ 128)
    (hp : improvParse (held ++ (hands w.st.gatt.prep.content req).toList.flatten) = .ok c) :
    Executed w₀ ((l2capFrame 4 req).run env w).2 c
      (held ++ (hands w.st.gatt.prep.content req).toList.flatten).length := by
  have hs : Collecting w₀ (served w req) held := h.of_seen (seen_served hw w)
  refine Executed.of_seen ?_ (l2capFrame_view env w ignoresAcl_seen req)
  cases hd : hands w.st.gatt.prep.content req with
  | none =>
    rw [hd, Option.toList_none, List.flatten_nil, List.append_nil, hheld] at hp
    cases hp
  | some data =>
    have hdata : (some data).toList.flatten = data := List.append_nil data
    rw [hd, hdata] at hlen hp
    rw [hdata]
    exact rpcWrite_executes hs hlen hp

/-- Behind it, with requests that bring no more bytes. -/
theorem request_executed {c : ImprovCmd} {n : Nat} (h : Executed w₀ w c n) (hw : IsWrite req)
    (hnil : (hands w.st.gatt.prep.content req).toList.flatten = []) :
    Executed w₀ ((l2capFrame 4 req).run env w).2 c n := by
  have hs : Executed w₀ (served w req) c n := h.of_seen (seen_served hw w)
  refine Executed.of_seen ?_ (l2capFrame_view env w ignoresAcl_seen req)
  cases hd : hands w.st.gatt.prep.content req with
  | none => exact hs
  | some data =>
    have hdata : (some data).toList.flatten = data := List.append_nil data
    rw [hd, hdata] at hnil
    subst hnil
    have hempty := (Buffer.content_eq_nil _).mpr hs.empty
    have hn := @rpcWrite_nil env (served w req) (by rw [hempty]; rfl)
    show Executed w₀ ((rpcWrite []).run env (served w req)).2 c n
    rw [hn]
    exact ⟨hs.empty, hs.mem, hs.once⟩

end Request

/-! ## A packet -/

/-- The ATT requests `reqs`. -/
def requests (reqs : List (List UInt8)) : Act Unit := each (l2capFrame 4) reqs

/-- The bytes that the requests bring when `q` is prepared. -/
def brought (q : List UInt8) (reqs : List (List UInt8)) : List UInt8 :=
  (handed q (reqs.map LinkEvent.request)).flatten

theorem brought_cons (q req : List UInt8) (reqs : List (List UInt8)) :
    brought q (req :: reqs) = (hands q req).toList.flatten ++ brought (queueAfter q req) reqs := by
  unfold brought
  rw [List.map_cons, handed, List.flatten_append]

/-- The bytes that are prepared behind the requests. -/
def left (q : List UInt8) (reqs : List (List UInt8)) : List UInt8 := prepared q
    (reqs.map LinkEvent.request)

section Packet

variable {env : Nat → Answer} {w₀ : World Call Daemon} {buf : List UInt8} {c : ImprovCmd}

theorem requests_executed (reqs : List (List UInt8)) (hw : ∀ req ∈ reqs, IsWrite req) {n : Nat}
    {w : World Call Daemon} (h : Executed w₀ w c n)
    (hnil : brought w.st.gatt.prep.content reqs = []) :
    Executed w₀ ((requests reqs).run env w).2 c n := by
  induction reqs generalizing w with
  | nil => exact h
  | cons req reqs ih =>
    rw [brought_cons, List.append_eq_nil_iff, ← (request_act env w req).1] at hnil
    have hreq := @request_executed env _ _ _ _ _ h (hw req List.mem_cons_self) hnil.1
    exact ih (fun r hr => hw r (List.mem_cons_of_mem _ hr)) hreq hnil.2

/-- **The requests of one packet**, as far as they have come: the induction is on them, and the
bytes that the buffer holds carry it. -/
theorem requests_packet (hpkt : Packet buf c) (reqs : List (List UInt8))
    (hw : ∀ req ∈ reqs, IsWrite req)
    {w : World Call Daemon} {held : List UInt8} (h : Collecting w₀ w held)
    (hpre : held ++ brought w.st.gatt.prep.content reqs <+: buf) (hheld : held ≠ buf) :
    (held ++ brought w.st.gatt.prep.content reqs ≠ buf →
      Collecting w₀ ((requests reqs).run env w).2 (held ++ brought w.st.gatt.prep.content reqs)) ∧
    (held ++ brought w.st.gatt.prep.content reqs = buf →
      Executed w₀ ((requests reqs).run env w).2 c buf.length) := by
  have hok := improvParse_iff.mpr hpkt
  have hsize := (improvParse_length hok).2
  have hcut {p : List UInt8} (hp : p <+: buf) (hne : p ≠ buf) : improvParse p = .error 1 := by
    obtain ⟨q, rfl⟩ := hp
    exact improvParse_cut hok fun hq => hne (by rw [hq, List.append_nil])
  induction reqs generalizing w held with
  | nil =>
    have hnil : held ++ brought w.st.gatt.prep.content [] = held := List.append_nil held
    rw [hnil]
    exact ⟨fun _ => h, fun he => absurd he hheld⟩
  | cons req reqs ih =>
    have hq := (request_act env w req).1
    rw [brought_cons, ← hq, ← List.append_assoc] at hpre ⊢
    have hreq := hw req List.mem_cons_self
    have hrest := fun r hr => hw r (List.mem_cons_of_mem req hr)
    have hpre' := (List.prefix_append _ _).trans hpre
    have hlen := hpre'.length_le
    by_cases hall : held ++ (hands w.st.gatt.prep.content req).toList.flatten = buf
    · have hnil : brought ((l2capFrame 4 req).run env w).2.st.gatt.prep.content reqs = [] := by
        have := hpre.length_le
        rw [hall, List.length_append] at this
        exact List.length_eq_zero_iff.mp (by omega)
      have hx := @request_executes env _ _ _ _ _ h hreq (hcut ((List.prefix_append _ _).trans hpre')
        hheld) (by omega)
        (by rw [hall]; exact hok)
      rw [hall] at hx
      refine ⟨fun hne => absurd ?_ hne, fun _ => requests_executed reqs hrest hx hnil⟩
      rw [hnil, List.append_nil, hall]
    · exact ih hrest (request_collects h hreq (by omega) (hcut hpre' hall)) hpre hall

end Packet

/-! ## The three ways -/

/-- The value of a request for `handle`. -/
def attWrite (op : UInt8) (value : List UInt8) : List UInt8 := op :: put16 gattRpcValue ++ value

/-- Prepare Writes from the offset `off` on. -/
def prepares (off : Nat) : List (List UInt8) → List (List UInt8)
  | [] => []
  | d :: ds => attWrite 0x16 (put16 off ++ d) :: prepares (off + d.length) ds

/-- A piece, by Write Request, Write Command, or Prepare Writes and an Execute Write. -/
inductive Piece where
  | request (d : List UInt8)
  | command (d : List UInt8)
  | prepared (ds : List (List UInt8))

def Piece.bytes : Piece → List UInt8
  | .request d => d
  | .command d => d
  | .prepared ds => ds.flatten

def Piece.requests : Piece → List (List UInt8)
  | .request d => [attWrite 0x12 d]
  | .command d => [attWrite 0x52 d]
  | .prepared ds => prepares 0 ds ++ [[0x18, 0x01]]

theorem isWrite_requests (p : Piece) : ∀ req ∈ p.requests, IsWrite req := by
  cases p with
  | request d =>
    intro req hr
    obtain rfl := List.mem_singleton.mp hr
    exact Or.inl ⟨Or.inl rfl, Nat.le_add_left 3 d.length, rfl⟩
  | command d =>
    intro req hr
    obtain rfl := List.mem_singleton.mp hr
    exact Or.inl ⟨Or.inr rfl, Nat.le_add_left 3 d.length, rfl⟩
  | prepared ds =>
    have hprep (off : Nat) : ∀ req ∈ prepares off ds, IsWrite req := by
      induction ds generalizing off with
      | nil => exact fun _ hr => absurd hr List.not_mem_nil
      | cons d ds ih =>
        intro req hr
        rcases List.mem_cons.mp hr with rfl | hr
        · exact Or.inr (Or.inl rfl)
        · exact ih _ req hr
    intro req hr
    rcases List.mem_append.mp hr with hr | hr
    · exact hprep 0 req hr
    · obtain rfl := List.mem_singleton.mp hr
      exact Or.inr (Or.inr rfl)

theorem brought_append (q : List UInt8) (as bs : List (List UInt8)) :
    brought q (as ++ bs) = brought q as ++ brought (left q as) bs ∧
      left q (as ++ bs) = left (left q as) bs := by
  induction as generalizing q with
  | nil => exact ⟨rfl, rfl⟩
  | cons a as ih =>
    obtain ⟨hb, hl⟩ := ih (queueAfter q a)
    refine ⟨?_, hl⟩
    rw [List.cons_append, brought_cons, brought_cons, hb, List.append_assoc]
    rfl

/-- The Prepare Writes are accepted one behind the other, and bring nothing by themselves. -/
theorem brought_prepares (ds : List (List UInt8)) (q : List UInt8)
    (h : (q ++ ds.flatten).length ≤ 128) :
    brought q (prepares q.length ds) = [] ∧ left q (prepares q.length ds) = q ++ ds.flatten := by
  induction ds generalizing q with
  | nil => exact ⟨rfl, (List.append_nil q).symm⟩
  | cons d ds ih =>
    rw [List.flatten_cons, List.length_append, List.length_append] at h
    have hdrop : (attWrite 0x16 (put16 q.length ++ d)).drop 5 = d := rfl
    have hoff : get16 (attWrite 0x16 (put16 q.length ++ d)) 3 = q.length := by
      have hoff16 : q.length < 2 ^ 16 := by omega
      exact get16_put16 hoff16 0 d
    have hlen : (attWrite 0x16 (put16 q.length ++ d)).length = d.length + 5 := rfl
    have hacc : Accepts q (attWrite 0x16 (put16 q.length ++ d)) :=
      ⟨by omega, rfl, hoff, by rw [hdrop]; omega⟩
    have hqueue : queueAfter q (attWrite 0x16 (put16 q.length ++ d)) = q ++ d := by
      have hop : byte (attWrite 0x16 (put16 q.length ++ d)) 0 = 0x16 := rfl
      unfold queueAfter
      rw [if_neg (by rw [hop]; decide), if_pos ⟨hop, hacc⟩, hdrop]
    have hnone : hands q (attWrite 0x16 (put16 q.length ++ d)) = none := rfl
    obtain ⟨hb, hl⟩ := ih (q ++ d) (by simp only [List.length_append]; omega)
    rw [List.length_append] at hb hl
    constructor
    · rw [prepares, brought_cons, hqueue, hnone, hb]
      rfl
    · show left (queueAfter q _) (prepares (q.length + d.length) ds) = _
      rw [hqueue, hl, List.flatten_cons, List.append_assoc]

/-- A piece brings its bytes. -/
theorem brought_piece (p : Piece) (h : p.bytes.length ≤ 128) :
    brought [] p.requests = p.bytes ∧ left [] p.requests = [] := by
  cases p with
  | request d => exact ⟨List.append_nil _, rfl⟩
  | command d => exact ⟨List.append_nil _, rfl⟩
  | prepared ds =>
    obtain ⟨hb, hl⟩ := brought_prepares ds [] h
    obtain ⟨hb', hl'⟩ := brought_append [] (prepares 0 ds) [[0x18, 0x01]]
    have hlen : ([] : List UInt8).length = 0 := rfl
    rw [hlen] at hb hl
    have hexec (q : List UInt8) : brought q [[0x18, 0x01]] = q := by
      cases q with
      | nil => rfl
      | cons b q => exact List.append_nil _
    refine ⟨?_, hl'⟩
    show brought [] (prepares 0 ds ++ [[0x18, 0x01]]) = ds.flatten
    rw [hb', hb, hl, hexec]
    rfl

/-- **Any pieces, each by any of the three ways**, bring their bytes one after the other. -/
theorem brought_pieces (ps : List Piece) (h : ∀ p ∈ ps, p.bytes.length ≤ 128) :
    brought [] (ps.flatMap Piece.requests) = ps.flatMap Piece.bytes ∧
      left [] (ps.flatMap Piece.requests) = [] := by
  induction ps with
  | nil => exact ⟨rfl, rfl⟩
  | cons p ps ih =>
    obtain ⟨hb, hl⟩ := brought_piece p (h p List.mem_cons_self)
    obtain ⟨hb', hl'⟩ := brought_append [] p.requests (ps.flatMap Piece.requests)
    obtain ⟨hbs, hls⟩ := ih fun q hq => h q (List.mem_cons_of_mem _ hq)
    rw [List.flatMap_cons, List.flatMap_cons, hb', hl', hb, hl, hbs, hls]
    exact ⟨rfl, rfl⟩

/-! ## A sequence of packets -/

/-- Requests that bring packets, one after the other, with the commands; `q` is prepared at the
start. -/
def Brings : List UInt8 → List (List (List UInt8) × ImprovCmd) → Prop
  | _, [] => True
  | q, (reqs, c) :: ps =>
    (∀ req ∈ reqs, IsWrite req) ∧ Packet (brought q reqs) c ∧ Brings (left q reqs) ps

/-- What becomes of them: until a packet is complete its bytes are collected, then its command is
executed. -/
def Executes (env : Nat → Answer) : World Call Daemon → List (List (List UInt8) × ImprovCmd) → Prop
  | _, [] => True
  | w, (reqs, c) :: ps =>
    let q := w.st.gatt.prep.content
    (∀ n, let w' := ((requests (reqs.take n)).run env w).2
      (brought q (reqs.take n) ≠ brought q reqs → Collecting w w' (brought q (reqs.take n))) ∧
      (brought q (reqs.take n) = brought q reqs → Executed w w' c (brought q reqs).length)) ∧
    Executes env ((requests reqs).run env w).2 ps

/-- Any pieces of a packet are such requests. -/
theorem brings_pieces {ps : List Piece} {c : ImprovCmd} (h : Packet (ps.flatMap Piece.bytes) c) :
    Brings [] [(ps.flatMap Piece.requests, c)] := by
  have hsize := (improvParse_length (improvParse_iff.mpr h)).2
  have hpiece : ∀ p ∈ ps, p.bytes.length ≤ 128 := by
    intro p hp
    obtain ⟨before, after, rfl⟩ := List.append_of_mem hp
    rw [List.flatMap_append, List.flatMap_cons, List.length_append, List.length_append] at hsize
    omega
  obtain ⟨hb, _⟩ := brought_pieces ps hpiece
  refine ⟨fun req hr => ?_, by rw [hb]; exact h, trivial⟩
  obtain ⟨p, _, hr⟩ := List.mem_flatMap.mp hr
  exact isWrite_requests p req hr

theorem requests_left (env : Nat → Answer) (reqs : List (List UInt8)) (w : World Call Daemon) :
    ((requests reqs).run env w).2.st.gatt.prep.content = left w.st.gatt.prep.content reqs := by
  induction reqs generalizing w with
  | nil => rfl
  | cons req reqs ih => exact (ih _).trans (congrArg (left · reqs) (request_act env w req).1)

/-- **Improv RPC, whatever the pieces.** From an empty buffer on, and in any state of the ATT
server, the requests of any packets execute the commands of the packets, each once and at the
request that completes its packet. Before it only the buffer, the prepared bytes and the counters of
`acl_send` change. Behind it the buffer is empty, the bytes of the packet in it are zero and those
behind them are what they were. -/
theorem improv_pieces (env : Nat → Answer) (w : World Call Daemon) (h : w.st.rpc.len = 0)
    (packets : List (List (List UInt8) × ImprovCmd)) (hs : Brings w.st.gatt.prep.content packets) :
    Executes env w packets := by
  induction packets generalizing w with
  | nil => trivial
  | cons packet packets ih =>
    obtain ⟨reqs, c⟩ := packet
    obtain ⟨hw, hpkt, hrest⟩ := hs
    have hne : [] ≠ brought w.st.gatt.prep.content reqs := by
      intro he
      have := improvParse_iff.mpr hpkt
      rw [← he] at this
      cases this
    have hstart : Collecting w w [] := ⟨(Buffer.content_eq_nil _).mpr h, rfl, rfl, rfl, rfl⟩
    have hpoint (n : Nat) := by
      have hpre : [] ++ brought w.st.gatt.prep.content (reqs.take n) <+:
          brought w.st.gatt.prep.content reqs := by
        have hsplit := (brought_append w.st.gatt.prep.content (reqs.take n) (reqs.drop n)).1
        rw [List.take_append_drop] at hsplit
        exact ⟨_, hsplit.symm⟩
      exact @requests_packet env _ _ _ hpkt (reqs.take n)
        (fun r hr => hw r (List.mem_of_mem_take hr)) _ _ hstart
        hpre hne
    have hall := hpoint reqs.length
    rw [List.take_length] at hall
    refine ⟨hpoint, ih _ (hall.2 rfl).empty ?_⟩
    rw [requests_left]
    exact hrest

/-- Two packets, the first in pieces of all kinds. -/
theorem improv_pieces_two : ∃ packets, packets =
      [([Piece.request [0x02], .command [], .prepared [[0x00], [0x02]]].flatMap Piece.requests,
          ⟨improvCmdIdentify, [], []⟩),
        ([Piece.command [0x03, 0x00, 0x03]].flatMap Piece.requests, ⟨improvCmdInfo, [], []⟩)] ∧
      Executes (fun _ => {}) boot packets := by
  refine ⟨_, rfl, improv_pieces _ boot rfl _ ?_⟩
  have hbare : Packet ([.request [0x02], .command [], .prepared [[0x00], [0x02]]].flatMap
      Piece.bytes)
      ⟨improvCmdIdentify, [], []⟩ := .bare (Or.inl rfl)
  have hinfo : Packet ([.command [0x03, 0x00, 0x03]].flatMap Piece.bytes) ⟨improvCmdInfo, [], []⟩ :=
    .bare (Or.inr rfl)
  obtain ⟨hw, hpkt, -⟩ := brings_pieces hbare
  exact ⟨hw, hpkt, brings_pieces hinfo⟩

/-- A packet was begun when the client connected again. The next one leaves bytes of it in the
buffer. -/
theorem improv_pieces_stale : ∃ w w', w = ((each LinkEvent.act [.connected 0x40,
        .request (attWrite 0x12 [0x01, 0x20, 0x07, 0x08]), .connected 0x40]).run (fun _ => {})
          boot).2 ∧
      w' = ((requests (Piece.request [0x02, 0x00, 0x02]).requests).run (fun _ => {}) w).2 ∧
      w.st.rpc.len = 0 ∧ Brings w.st.gatt.prep.content
        [((Piece.request [0x02, 0x00, 0x02]).requests, ⟨improvCmdIdentify, [], []⟩)] ∧
      w'.st.rpc.len = 0 ∧ w'.st.rpc.mem ≠ List.replicate 128 0 := by
  have hpkt : Packet ([Piece.request [0x02, 0x00, 0x02]].flatMap Piece.bytes) ⟨improvCmdIdentify,
      [], []⟩ :=
    .bare (Or.inl rfl)
  exact ⟨_, _, rfl, rfl, rfl, brings_pieces hpkt, by decide +kernel, by decide +kernel⟩

end Esp32S31.BleHa
