import Mathlib.Data.List.Pairwise
import Mathlib.Tactic.ByContra
import Esp32S31.BleHa.Wpa
import Esp32S31.Lib.Machine

/-!
# The calls of `request`, one system call a step

All calls bind their sockets to one path, `/tmp/ble-ha-wpa-<pid>`. wpa_supplicant handles the
requests in turn and sends each reply to that path, so it comes to the call that is under way then,
if one is. Nothing in a reply says what it answers; the calls have numbers here.

* `Inv.reach`: requests and replies stay in the order of the calls.
* **`reply_matches`**: without a late reply each call returns the reply to its own command, and a
  late reply is returned when the rest of the call goes well.
* `requestOk_own`, `wpaNetworks_own`: what the callers of `request` make of it.
-/

namespace Esp32S31.BleHa

open Esp32S31.Lib

namespace Control

/-- A request on its way to wpa_supplicant. -/
structure Request where
  call : Nat
  cmd : List UInt8
  deriving DecidableEq

/-- A reply, with the request that it answers. -/
structure Reply where
  answers : Request
  text : List UInt8
  deriving DecidableEq

/-- A call that has returned, with the reply it took. -/
structure Returned where
  call : Nat
  cmd : List UInt8
  /-- the buffer of the caller -/
  len : Nat
  got : Option Reply
  deriving DecidableEq

/-- The system call of `request` that comes next. -/
inductive Pc where
  | idle
  | socket
  /-- `unlink`, then `bind` -/
  | bind
  | connect
  | send
  | poll
  | recv
  | close (got : Option Reply)
  /-- the `unlink` behind `close` -/
  | unlink (got : Option Reply)
  deriving DecidableEq

/-- The program and wpa_supplicant. -/
structure State where
  /-- the last call -/
  call : Nat
  cmd : List UInt8
  len : Nat
  pc : Pc
  /-- the path names an open socket -/
  bound : Bool
  /-- what this socket has received -/
  queue : List Reply
  /-- what wpa_supplicant has not handled -/
  inbox : List Request
  /-- the calls that have returned, newest first -/
  returns : List Returned

inductive Action where
  /-- `request(cmd, reply, len)` -/
  | call (cmd : List UInt8) (len : Nat)
  /-- the next system call, which succeeds or not; a `poll` succeeds when it returns 1 -/
  | sys (ok : Bool)
  /-- wpa_supplicant handles the next request and sends a reply -/
  | answer (text : List UInt8)
  /-- wpa_supplicant does not answer the next request -/
  | ignore
  deriving DecidableEq

/-- `request` returns. -/
def State.ret (s : State) (got : Option Reply) : State :=
  { s with pc := .idle, returns := ⟨s.call, s.cmd, s.len, got⟩ :: s.returns }

/-- The next system call. -/
def State.sys (ok : Bool) (s : State) : Option State :=
  match s.pc with
  | .idle => none
  | .socket => some (if ok then { s with pc := .bind } else s.ret none)
  | .bind =>
    some (if ok then { s with pc := .connect, bound := true, queue := [] }
      else { s with pc := .close none })
  | .connect => some { s with pc := if ok then .send else .close none }
  | .send =>
    some (if ok then { s with pc := .poll, inbox := s.inbox ++ [⟨s.call, s.cmd⟩] }
      else { s with pc := .close none })
  | .poll => some { s with pc := if ok then .recv else .close none }
  | .recv =>
    if ok then
      match s.queue with
      | d :: q => some { s with pc := .close (some d), queue := q }
      | [] => none
    else some { s with pc := .close none }
  | .close got => some { s with pc := .unlink got, bound := false, queue := [] }
  | .unlink got => some (s.ret got)

/-- wpa_supplicant takes the next request; a reply goes to the socket at the path. -/
def State.handle (reply : Option (List UInt8)) (s : State) : Option State :=
  match s.inbox with
  | [] => none
  | q :: inbox =>
    some { s with
      inbox := inbox
      queue := if s.bound then s.queue ++ (reply.map (⟨q, ·⟩)).toList else s.queue }

def State.step : Action → State → Option State
  | .call cmd len, s =>
    if s.pc = .idle then some { s with call := s.call + 1, cmd := cmd, len := len, pc := .socket }
      else none
  | .sys ok, s => s.sys ok
  | .answer text, s => s.handle (some text)
  | .ignore, s => s.handle none

/-- Before the first call. -/
def State.start : State := ⟨0, [], 0, .idle, false, [], [], []⟩

def machine : Machine Action State := ⟨(· = State.start), State.step⟩

/-- The call returned nothing, or the reply to its own command. -/
def Returned.Matches (r : Returned) : Prop := ∀ d, r.got = some d → d.answers = ⟨r.call, r.cmd⟩

/-- The call is between `bind` and `recv`. -/
def Pc.takes : Pc → Bool
  | .connect | .send | .poll | .recv => true
  | _ => false

/-- The next request of wpa_supplicant is one that an earlier call has given up, and the call that
is under way has its socket at the path and will take a reply. -/
def State.Late (s : State) : Prop := s.pc.takes = true ∧ ∃ q ∈ s.inbox.head?, q.call ≠ s.call

/-- No reply is late. -/
def InTime (a : Action) (s : State) : Prop := ∀ text, a = .answer text → ¬ s.Late

/-! ## The order of the requests -/

/-- The requests whose replies are in the socket, and those that wpa_supplicant has not handled. -/
def State.open (s : State) : List Request := s.queue.map Reply.answers ++ s.inbox

/-- The call has not sent its request. -/
def Pc.early : Pc → Bool
  | .socket | .bind | .connect | .send => true
  | _ => false

/-- Requests and replies are in the order of the calls. -/
structure Inv (s : State) : Prop where
  sorted : s.open.Pairwise (·.call < ·.call)
  le : ∀ q ∈ s.open, q.call ≤ s.call
  early : s.pc.early = true → ∀ q ∈ s.open, q.call < s.call
  own : ∀ q ∈ s.open, q.call = s.call → q = ⟨s.call, s.cmd⟩
  bound : s.pc.takes = true → s.bound = true

variable {s s' : State}

/-- Requests and replies go away. -/
theorem Inv.sub (h : Inv s) (hopen : List.Sublist s'.open s.open) (hcall : s'.call = s.call)
    (hcmd : s'.cmd = s.cmd)
    (hearly : s'.pc.early = true → s.pc.early = true)
      (hbound : s'.pc.takes = true → s'.bound = true) : Inv s' where
  sorted := h.sorted.sublist hopen
  le q hq := hcall ▸ h.le q (hopen.subset hq)
  early he q hq := hcall ▸ h.early (hearly he) q (hopen.subset hq)
  own q hq hc := by
    rw [hcall, hcmd]
    exact h.own q (hopen.subset hq) (hc.trans hcall)
  bound := hbound

theorem Inv.sys {ok : Bool} (h : Inv s) (hs : s.sys ok = some s') : Inv s' := by
  have hsame : ∀ {pc}, (pc.early = true → s.pc.early = true) → (pc.takes = true → s.bound = true) →
      Inv { s with pc := pc } := fun he ht => h.sub (List.Sublist.refl _) rfl rfl he ht
  have hinbox : List.Sublist s.inbox s.open := List.sublist_append_right _ _
  unfold State.sys at hs
  cases hpc : s.pc with
  | idle =>
    rw [hpc] at hs
    cases hs
  | socket =>
    rw [hpc] at hs
    obtain rfl := Option.some.inj hs
    cases ok with
    | true => exact hsame (fun _ => hpc ▸ rfl) nofun
    | false => exact h.sub (List.Sublist.refl _) rfl rfl nofun nofun
  | bind =>
    rw [hpc] at hs
    obtain rfl := Option.some.inj hs
    cases ok with
    | true => exact h.sub hinbox rfl rfl (fun _ => hpc ▸ rfl) fun _ => rfl
    | false => exact hsame nofun nofun
  | connect =>
    rw [hpc] at hs
    obtain rfl := Option.some.inj hs
    have hb := h.bound (hpc ▸ rfl)
    cases ok with
    | true => exact hsame (fun _ => hpc ▸ rfl) fun _ => hb
    | false => exact hsame nofun nofun
  | send =>
    rw [hpc] at hs
    obtain rfl := Option.some.inj hs
    have hlt := h.early (hpc ▸ rfl)
    cases ok with
    | true =>
      have hopen : ∀ q, q ∈ s.open ++ [⟨s.call, s.cmd⟩] → q ∈ s.open ∨ q = ⟨s.call, s.cmd⟩ :=
        fun q hq => (List.mem_append.mp hq).imp_right List.mem_singleton.mp
      have heq : ({ s with pc := .poll, inbox := s.inbox ++ [⟨s.call, s.cmd⟩] } : State).open =
          s.open ++ [⟨s.call, s.cmd⟩] := (List.append_assoc _ _ _).symm
      refine ⟨?_, ?_, nofun, ?_, fun _ => h.bound (hpc ▸ rfl)⟩
      · refine heq ▸ List.pairwise_append.mpr ⟨h.sorted, List.pairwise_singleton _ _,
          fun q hq q' hq' => ?_⟩
        obtain rfl := List.mem_singleton.mp hq'
        exact hlt q hq
      · intro q hq
        rcases hopen q (heq ▸ hq) with hq | rfl
        · exact h.le q hq
        · exact Nat.le_refl _
      · intro q hq hc
        rcases hopen q (heq ▸ hq) with hq | rfl
        · exact h.own q hq hc
        · rfl
    | false => exact hsame nofun nofun
  | poll =>
    rw [hpc] at hs
    obtain rfl := Option.some.inj hs
    have hb := h.bound (hpc ▸ rfl)
    cases ok with
    | true => exact hsame nofun fun _ => hb
    | false => exact hsame nofun nofun
  | recv =>
    rw [hpc] at hs
    cases ok with
    | true =>
      dsimp only at hs
      rw [if_pos rfl] at hs
      split at hs
      · next d q hq =>
        obtain rfl := Option.some.inj hs
        refine h.sub ?_ rfl rfl nofun nofun
        unfold State.open
        rw [hq]
        exact List.sublist_cons_self _ _
      · cases hs
    | false =>
      obtain rfl := Option.some.inj hs
      exact hsame nofun nofun
  | close got =>
    rw [hpc] at hs
    obtain rfl := Option.some.inj hs
    exact h.sub hinbox rfl rfl nofun nofun
  | unlink got =>
    rw [hpc] at hs
    obtain rfl := Option.some.inj hs
    exact h.sub (List.Sublist.refl _) rfl rfl nofun nofun

theorem Inv.handle {reply : Option (List UInt8)} (h : Inv s) (hs : s.handle reply = some s') :
    Inv s' := by
  unfold State.handle at hs
  split at hs
  · cases hs
  · next q inbox hq =>
    obtain rfl := Option.some.inj hs
    refine h.sub ?_ rfl rfl id h.bound
    unfold State.open
    rw [hq]
    by_cases hb : s.bound = true
    · rw [if_pos hb]
      cases reply with
      | none =>
        rw [Option.map_none, Option.toList_none, List.append_nil]
        exact List.Sublist.append (List.Sublist.refl _) (List.sublist_cons_self _ _)
      | some text =>
        rw [Option.map_some, Option.toList_some, List.map_append, List.append_assoc]
        exact List.Sublist.refl _
    · rw [if_neg hb]
      exact List.Sublist.append (List.Sublist.refl _) (List.sublist_cons_self _ _)

theorem Inv.step {a : Action} (h : Inv s) (hs : s.step a = some s') : Inv s' := by
  cases a with
  | call cmd len =>
    unfold State.step at hs
    dsimp only at hs
    by_cases hidle : s.pc = .idle
    · rw [if_pos hidle] at hs
      obtain rfl := Option.some.inj hs
      have hlt : ∀ q ∈ s.open, q.call < s.call + 1 := fun q hq => Nat.lt_succ_of_le (h.le q hq)
      refine ⟨h.sorted, fun q hq => Nat.le_of_lt (hlt q hq), fun _ => hlt, fun q hq hc => ?_, nofun⟩
      exact absurd hc (Nat.ne_of_lt (hlt q hq))
    · rw [if_neg hidle] at hs
      cases hs
  | sys ok => exact h.sys hs
  | answer text => exact h.handle hs
  | ignore => exact h.handle hs

theorem Inv.reach {C : Action → State → Prop} (hr : machine.ReachWith C s) : Inv s :=
  hr.invariant (fun s hs => by
    subst hs
    exact ⟨List.Pairwise.nil, nofun, nofun, nofun, nofun⟩) fun _ _ _ _ h _ hs => h.step hs

/-! ## Replies in time -/

/-- The reply that `recv` took. -/
def Pc.got : Pc → Option Reply
  | .close got | .unlink got => got
  | _ => none

/-- Every reply is in the hands of the call that it is for. -/
structure Own (s : State) : Prop where
  queue : s.pc.takes = true → ∀ d ∈ s.queue, d.answers = ⟨s.call, s.cmd⟩
  got : ∀ d, s.pc.got = some d → d.answers = ⟨s.call, s.cmd⟩
  returns : ∀ r ∈ s.returns, r.Matches

/-- The call moves on with what it has. -/
theorem Own.goto {pc : Pc} (h : Own s) (ht : pc.takes = true → s.pc.takes = true)
    (hg : pc.got = none) : Own { s with pc := pc } :=
  ⟨fun hp => h.queue (ht hp), (fun _ hd => nomatch hg.symm.trans hd), h.returns⟩

theorem Own.ret {got : Option Reply} (h : Own s)
    (hg : ∀ d, got = some d → d.answers = ⟨s.call, s.cmd⟩) : Own (s.ret got) := by
  refine ⟨nofun, nofun, fun r hr => ?_⟩
  rcases List.mem_cons.mp hr with rfl | hr
  · exact hg
  · exact h.returns r hr

theorem Own.sys {ok : Bool} (h : Own s) (hs : s.sys ok = some s') : Own s' := by
  unfold State.sys at hs
  cases hpc : s.pc with
  | idle =>
    rw [hpc] at hs
    cases hs
  | socket =>
    rw [hpc] at hs
    obtain rfl := Option.some.inj hs
    cases ok with
    | true => exact h.goto nofun rfl
    | false => exact h.ret nofun
  | bind =>
    rw [hpc] at hs
    obtain rfl := Option.some.inj hs
    cases ok with
    | true => exact ⟨fun _ => nofun, nofun, h.returns⟩
    | false => exact h.goto nofun rfl
  | connect =>
    rw [hpc] at hs
    obtain rfl := Option.some.inj hs
    cases ok with
    | true => exact h.goto (fun _ => hpc ▸ rfl) rfl
    | false => exact h.goto nofun rfl
  | send =>
    rw [hpc] at hs
    obtain rfl := Option.some.inj hs
    cases ok with
    | true => exact ⟨fun _ => h.queue (hpc ▸ rfl), nofun, h.returns⟩
    | false => exact h.goto nofun rfl
  | poll =>
    rw [hpc] at hs
    obtain rfl := Option.some.inj hs
    cases ok with
    | true => exact h.goto (fun _ => hpc ▸ rfl) rfl
    | false => exact h.goto nofun rfl
  | recv =>
    rw [hpc] at hs
    cases ok with
    | true =>
      dsimp only at hs
      rw [if_pos rfl] at hs
      split at hs
      · next d q hq =>
        obtain rfl := Option.some.inj hs
        have hd := h.queue (hpc ▸ rfl) d (hq ▸ List.mem_cons_self)
        exact ⟨nofun, fun d' hd' => Option.some.inj hd' ▸ hd, h.returns⟩
      · cases hs
    | false =>
      obtain rfl := Option.some.inj hs
      exact h.goto nofun rfl
  | close got =>
    rw [hpc] at hs
    obtain rfl := Option.some.inj hs
    exact ⟨nofun, fun d hd => h.got d (hpc ▸ hd), h.returns⟩
  | unlink got =>
    rw [hpc] at hs
    obtain rfl := Option.some.inj hs
    exact h.ret fun d hd => h.got d (hpc ▸ hd)

/-- A reply that is not late is one to the call that takes it. -/
theorem Own.handle {reply : Option (List UInt8)} (h : Own s) (hinv : Inv s)
    (hlate : reply.isSome → ¬ s.Late)
    (hs : s.handle reply = some s') : Own s' := by
  unfold State.handle at hs
  split at hs
  · cases hs
  · next q inbox hq =>
    obtain rfl := Option.some.inj hs
    refine ⟨fun ht d hd => ?_, h.got, h.returns⟩
    dsimp only at hd
    split at hd
    · rcases List.mem_append.mp hd with hd | hd
      · exact h.queue ht d hd
      · cases reply with
        | none => cases hd
        | some text =>
          obtain rfl := List.mem_singleton.mp hd
          have hmem : q ∈ s.open := List.mem_append_right _ (hq ▸ List.mem_cons_self)
          refine hinv.own q hmem (by_contra fun hne => hlate rfl ⟨ht, q, ?_, hne⟩)
          rw [hq]
          rfl
    · exact h.queue ht d hd

theorem Own.reach (hr : machine.ReachWith InTime s) : Own s := by
  refine hr.invariant (fun s hs => by subst hs; exact ⟨nofun, nofun, nofun⟩)
    fun a s s' hreach h hc hs => ?_
  cases a with
  | call cmd len =>
    have hs' : (if s.pc = .idle then
      some { s with call := s.call + 1, cmd := cmd, len := len, pc := .socket } else none) =
        some s' := hs
    split at hs'
    · obtain rfl := Option.some.inj hs'
      exact ⟨nofun, nofun, h.returns⟩
    · cases hs'
  | sys ok => exact h.sys hs
  | answer text => exact h.handle (Inv.reach hreach) (fun _ => hc text rfl) hs
  | ignore =>
    refine @Own.handle s s' none h (Inv.reach hreach) (fun hn => ?_) hs
    cases hn

/-! ## A late reply -/

/-- The system calls of the rest of the call, all of them successful. -/
def Pc.rest : Pc → Nat
  | .connect => 6
  | .send => 5
  | .poll => 4
  | .recv => 3
  | _ => 0

theorem run_sys {n : Nat} {s₁ s₂ : State} (h : s.sys true = some s₁)
    (hrun : machine.run (List.replicate n (.sys true)) s₁ = some s₂) :
    machine.run (List.replicate (n + 1) (.sys true)) s = some s₂ := by
  have hstep : machine.step (.sys true) s = some s₁ := h
  rw [List.replicate_succ]
  unfold Machine.run Machine.runWith
  rw [if_pos trivial, hstep]
  exact hrun

/-- The call returns the first reply in its socket. -/
theorem returns_first {d : Reply} {q : List Reply} (ht : s.pc.takes = true)
    (hq : s.queue = d :: q) : ∃ s', machine.run (List.replicate s.pc.rest (.sys true)) s = some s' ∧
      ⟨s.call, s.cmd, s.len, some d⟩ ∈ s'.returns := by
  have hrecv : ∀ {t : State}, t.pc = .recv → t.queue = d :: q →
      ∃ s', machine.run (List.replicate 3 (.sys true)) t = some s' ∧
        ⟨t.call, t.cmd, t.len, some d⟩ ∈ s'.returns := by
    intro t hpc hq
    have h1 : t.sys true = some { t with pc := .close (some d), queue := q } := by
      unfold State.sys
      rw [hpc]
      dsimp only
      rw [if_pos rfl, hq]
    exact ⟨_, run_sys h1 (run_sys rfl (run_sys rfl rfl)), List.mem_cons_self⟩
  have hpoll : ∀ {t : State}, t.pc = .poll → t.queue = d :: q →
      ∃ s', machine.run (List.replicate 4 (.sys true)) t = some s' ∧
        ⟨t.call, t.cmd, t.len, some d⟩ ∈ s'.returns := by
    intro t hpc hq
    have h1 : t.sys true = some { t with pc := .recv } := by
      unfold State.sys
      rw [hpc]
      rfl
    obtain ⟨s', hrun, hmem⟩ := hrecv (t := { t with pc := .recv }) rfl hq
    exact ⟨s', run_sys h1 hrun, hmem⟩
  have hsend : ∀ {t : State}, t.pc = .send → t.queue = d :: q →
      ∃ s', machine.run (List.replicate 5 (.sys true)) t = some s' ∧
        ⟨t.call, t.cmd, t.len, some d⟩ ∈ s'.returns := by
    intro t hpc hq
    have h1 : t.sys true = some { t with pc := .poll, inbox := t.inbox ++ [⟨t.call, t.cmd⟩] } := by
      unfold State.sys
      rw [hpc]
      rfl
    obtain ⟨s', hrun, hmem⟩ :=
      hpoll (t := { t with pc := .poll, inbox := t.inbox ++ [⟨t.call, t.cmd⟩] }) rfl hq
    exact ⟨s', run_sys h1 hrun, hmem⟩
  cases hpc : s.pc with
  | recv => exact hrecv hpc hq
  | poll => exact hpoll hpc hq
  | send => exact hsend hpc hq
  | connect =>
    have h1 : s.sys true = some { s with pc := .send } := by
      unfold State.sys
      rw [hpc]
      rfl
    obtain ⟨s', hrun, hmem⟩ := hsend (t := { s with pc := .send }) rfl hq
    exact ⟨s', run_sys h1 hrun, hmem⟩
  | idle | socket | bind | close | unlink =>
    rw [hpc] at ht
    cases ht

/-- After a late reply the call has one to another command first in its socket. -/
theorem late_first (hinv : Inv s) (hlate : s.Late) (text : List UInt8) :
    ∃ s₁ d q, s.step (.answer text) = some s₁ ∧ s₁.pc = s.pc ∧ s₁.call = s.call ∧
      s₁.queue = d :: q ∧ d.answers.call ≠ s.call := by
  obtain ⟨ht, q, hhead, hne⟩ := hlate
  obtain ⟨inbox, hinbox⟩ : ∃ inbox, s.inbox = q :: inbox := by
    cases hs : s.inbox with
    | nil =>
      rw [hs] at hhead
      cases hhead
    | cons q' inbox =>
      rw [hs] at hhead
      exact ⟨inbox, congrArg (· :: inbox) (Option.some.inj hhead)⟩
  have hbound := hinv.bound ht
  have hstep : s.step (.answer text) =
      some { s with inbox := inbox, queue := s.queue ++ [⟨q, text⟩] } := by
    unfold State.step State.handle
    dsimp only
    rw [hinbox]
    dsimp only
    rw [if_pos hbound]
    rfl
  have hlt : q.call < s.call :=
    Nat.lt_of_le_of_ne (hinv.le q (List.mem_append_right _ (hinbox ▸ List.mem_cons_self))) hne
  cases hqueue : s.queue with
  | nil => exact ⟨_, ⟨q, text⟩, [], hstep, rfl, rfl, by rw [hqueue]; rfl, hne⟩
  | cons d ds =>
    refine ⟨_, d, ds ++ [⟨q, text⟩], hstep, rfl, rfl, by rw [hqueue]; rfl, ?_⟩
    have hsorted := (List.pairwise_append.mp hinv.sorted).2.2 d.answers
      (List.mem_map_of_mem (hqueue ▸ List.mem_cons_self)) q (hinbox ▸ List.mem_cons_self)
    exact Nat.ne_of_lt (Nat.lt_trans hsorted hlt)

/-! ## Results -/

/-- **Without a late reply every call returns the reply to its own command**, and after a late one
the call returns the reply to another command when nothing else fails. -/
theorem reply_matches (s : State) :
    (machine.ReachWith InTime s → ∀ r ∈ s.returns, r.Matches) ∧
      (machine.Reach s → s.Late → ∀ text, ∃ n s',
        machine.run (.answer text :: List.replicate n (.sys true)) s = some s' ∧
          ∃ r ∈ s'.returns, ¬ r.Matches) := by
  refine ⟨fun hr => (Own.reach hr).returns, fun hr hlate text => ?_⟩
  obtain ⟨s₁, d, q, hstep, hpc, hcall, hqueue, hne⟩ := late_first (Inv.reach hr) hlate text
  obtain ⟨s', hrun, hmem⟩ := returns_first (hpc ▸ hlate.1) hqueue
  refine ⟨s₁.pc.rest, s', ?_, _, hmem, fun hm => hne ?_⟩
  · have hanswer : machine.step (.answer text) s = some s₁ := hstep
    unfold Machine.run Machine.runWith
    rw [if_pos trivial, hanswer]
    exact hrun
  · exact (congrArg Request.call (hm d rfl)).trans hcall

/-- `SAVE_CONFIG` is given up; its `OK` comes while `REMOVE_NETWORK 0` is under way. -/
def lateRun : List Action :=
  [.call (str "SAVE_CONFIG") 64, .sys true, .sys true, .sys true, .sys true, .sys false, .sys true,
    .sys true, .call (str "REMOVE_NETWORK 0") 64, .sys true, .sys true, .sys true,
    .answer (str "OK\n"), .sys true, .sys true, .sys true, .sys true, .sys true]

theorem reply_of_another : ∃ s, machine.Reach s ∧ ∃ r ∈ s.returns,
    r.cmd = str "REMOVE_NETWORK 0" ∧ r.got = some ⟨⟨1, str "SAVE_CONFIG"⟩, str "OK\n"⟩ ∧
      ¬ r.Matches := by
  obtain ⟨s, hs⟩ : ∃ s, machine.run lateRun State.start = some s := ⟨_, rfl⟩
  refine ⟨s, Machine.Reach.run (.init rfl) hs, ?_⟩
  obtain rfl := Option.some.inj hs
  refine ⟨_, List.mem_cons_self, rfl, rfl, fun hm => ?_⟩
  exact absurd (congrArg Request.call (hm _ rfl)) (by decide)

/-! ## The callers of `request` -/

/-- What `request` gives to its caller. -/
def Returned.reply (r : Returned) : Option (List UInt8) := r.got.map fun d => cstr
    (d.text.take (r.len - 1))

/-- `request_ok` takes no `OK` of another command. -/
theorem requestOk_own (hr : machine.ReachWith InTime s) {r : Returned} (hmem : r ∈ s.returns)
    {env : Nat → Answer}
    {w : World Call Daemon} (h : (env w.asked).reply = r.got.map Reply.text)
    (hok : ((requestOk r.cmd).run env w).1 = true) :
    ∃ text, r.got = some ⟨⟨r.call, r.cmd⟩, text⟩ ∧ text.take 2 = str "OK" := by
  rw [requestOk_run, h] at hok
  cases hgot : r.got with
  | none =>
    rw [hgot] at hok
    cases hok
  | some d =>
    rw [hgot] at hok
    exact ⟨d.text, congrArg (fun q : Request => some (Reply.mk q d.text))
      ((Own.reach hr).returns r hmem d hgot), of_decide_eq_true hok⟩

/-- `wpa_networks` counts the lines of no other reply than that to `LIST_NETWORKS`. -/
theorem wpaNetworks_own (hr : machine.ReachWith InTime s) {r : Returned} (hmem : r ∈ s.returns)
    (hcmd : r.cmd = str "LIST_NETWORKS") {env : Nat → Answer} {w : World Call Daemon}
    (h : (env w.asked).reply = r.got.map Reply.text) (hn : (wpaNetworks.run env w).1 ≠ -1) :
    ∃ text, r.got = some ⟨⟨r.call, str "LIST_NETWORKS"⟩, text⟩ ∧
      (wpaNetworks.run env w).1 = max 0 (((cstr (text.take 2047)).count 0x0a : Int) - 1) := by
  unfold wpaNetworks at hn ⊢
  rw [Prog.run_bind, request_run, h] at hn ⊢
  cases hgot : r.got with
  | none =>
    rw [hgot] at hn
    exact absurd rfl hn
  | some d =>
    refine ⟨d.text, ?_, rfl⟩
    rw [← hcmd]
    exact congrArg (fun q : Request => some (Reply.mk q d.text))
      ((Own.reach hr).returns r hmem d hgot)

end Control

end Esp32S31.BleHa
