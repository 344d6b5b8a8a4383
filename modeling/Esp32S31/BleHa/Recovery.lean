import Esp32S31.BleHa.Frames
import Mathlib.Tactic.ByContra

/-!
# Recovery after a bad Improv packet

`improv_parse` says 1 for an incomplete packet, and `IMPROV_ERR_INVALID` is 1 too. So `rpc_write`
takes an invalid packet for an incomplete one: it keeps the bytes and reports no error.

* `rpcWrite_content`: what the buffer holds after a write, as a function of what it held.
* **`recovers_iff`**: `rpc_write` recovers after each of a sequence of invalid packets exactly if
  the last piece of each packet does not fit into the buffer.
* `recovers_not`: a packet of three bytes with a wrong checksum, after which a valid one is lost.
-/

namespace Esp32S31.BleHa

open Esp32S31.Lib Prog

/-! ## Views of the world -/

/-- The commands that were executed, newest first. -/
def commands (w : World Call Daemon) : List ImprovCmd :=
  w.calls.filterMap fun k => match k.1 with
    | .command c => some c
    | _ => none

theorem ignoresImprov_rpc : IgnoresImprov fun w => w.st.rpc where
  asked _ _ := rfl
  acl _ _ _ := rfl
  write _ _ _ _ := rfl
  att _ _ _ _ := rfl
  request _ _ _ _ := rfl
  gatt _ _ := rfl
  dirty _ _ := rfl
  joinId _ _ := rfl
  joinEnd _ _ := rfl
  identifyEnd _ _ := rfl
  improv _ _ _ _ := rfl

theorem ignoresImprov_commands : IgnoresImprov commands where
  asked _ _ := rfl
  acl _ _ _ := rfl
  write _ _ _ _ := rfl
  att w k s hk := by cases k <;> first | rfl | cases hk
  request _ _ _ _ := rfl
  gatt _ _ := rfl
  dirty _ _ := rfl
  joinId _ _ := rfl
  joinEnd _ _ := rfl
  identifyEnd _ _ := rfl
  improv w k s hk := by cases k <;> first | rfl | cases hk

theorem ignoresAcl_gatt : IgnoresAcl fun w => w.st.gatt where
  asked _ _ := rfl
  acl _ _ _ := rfl
  write _ _ _ _ := rfl
  att _ _ _ _ := rfl

theorem ignoresWpa_error : IgnoresWpa fun w => w.st.gatt.error where
  asked _ _ := rfl
  request _ _ _ _ := rfl

section Views

variable (env : Nat → Answer) (w : World Call Daemon)

theorem setState_rpc (st e : UInt8) : ((setState st e).run env w).2.st.rpc = w.st.rpc :=
  setState_same ignoresImprov_rpc st e env w

theorem setState_commands (st e : UInt8) : commands ((setState st e).run env w).2 = commands w :=
  setState_same ignoresImprov_commands st e env w

theorem improvCommand_rpc (c : ImprovCmd) : ((improvCommand c).run env w).2.st.rpc = w.st.rpc :=
  improvCommand_same ignoresImprov_rpc (fun _ _ _ _ => rfl) c env w

/-- `improv_command` executes its command, and no other one. -/
theorem improvCommand_commands (c : ImprovCmd) :
    commands ((improvCommand c).run env w).2 = c :: commands w := by
  have hi := ignoresImprov_commands
  rw [improvCommand, run_call, run_get]
  refine (Same.ite (v := commands) (improvWifi_same hi c) (Same.ite ?_ ?_) env _).trans rfl
  · exact Same.when (identify_same hi true)
  · exact Same.when (setResult_same hi.toIgnoresAcl (fun w _ => hi.gatt w _) _ _)

theorem setError_error (e : UInt8) : ((setError e).run env w).2.st.gatt.error = e := by
  rw [setError, run_get]
  by_cases he : e ≠ w.st.gatt.error
  · rw [when_pos he, run_modify]
    exact congrArg Gatt.error (notify_same ignoresAcl_gatt _ _ env _)
  · rw [when_neg he]
    exact (not_not.mp he).symm

/-- `set_state` sets the error. -/
theorem setState_error (st e : UInt8) : ((setState st e).run env w).2.st.gatt.error = e := by
  rw [setState, run_bind, run_get]
  have he := setError_error env w e
  generalize ((setError e).run env w).2 = w₁ at he ⊢
  by_cases hs : st ≠ w₁.st.gatt.state
  · rw [when_pos hs, run_call, run_modify, run_bind]
    exact (congrArg Gatt.error (notify_same ignoresAcl_gatt _ _ env _)).trans he
  · rw [when_neg hs]
    exact he

end Views

theorem setState_error_ne {st e : UInt8} (he : e ≠ improvErrInvalid) :
    Keeps (fun w => w.st.gatt.error ≠ improvErrInvalid) (setState st e) :=
  fun env w _ => (setState_error env w st e).trans_ne he

/-- A command does not report an invalid packet. -/
theorem improvCommand_error (c : ImprovCmd) :
    Keeps (fun w => w.st.gatt.error ≠ improvErrInvalid) (improvCommand c) := by
  have hsame : ∀ {α : Type} {m : Act α}, Same (fun w => w.st.gatt.error) m →
      Keeps (fun w => w.st.gatt.error ≠ improvErrInvalid) m :=
        fun h => h.meets (· ≠ improvErrInvalid)
  unfold improvCommand
  refine (hsame (Same.call fun _ _ => rfl)).bind fun _ => (hsame Same.get).bind fun s => ?_
  refine Meets.ite (fun _ => ?_) fun _ => Meets.ite (fun _ => ?_) fun _ => ?_
  · unfold improvWifi
    refine (hsame Same.get).bind fun s => Keeps.when fun _ => ?_
    refine (setState_error_ne (by decide)).bind fun _ => ?_
    refine (hsame (Same.call fun _ _ => rfl)).bind fun _ => ?_
    refine (hsame (wpaJoin_same ignoresWpa_error _ _)).bind fun id => ?_
    refine (hsame (Same.modify fun _ => rfl)).bind fun _ => ?_
    refine (hsame (Same.call fun _ _ => rfl)).bind fun _ => ?_
    cases id with
    | none => exact setState_error_ne (by decide)
    | some id =>
      exact (hsame (now_same fun _ _ => rfl)).bind fun t => hsame (Same.modify fun _ => rfl)
  · refine Keeps.when fun _ => hsame ?_
    refine Same.bind (Same.call fun _ _ => rfl) fun _ => Same.ite ?_ (Same.modify fun _ => rfl)
    exact (now_same fun _ _ => rfl).bind fun t => Same.modify fun _ => rfl
  · refine Keeps.when fun _ => hsame ?_
    refine Same.bind (Same.modify fun _ => rfl) fun _ => notify_same ?_ _ _
    exact ⟨fun _ _ => rfl, fun _ _ _ => rfl, fun _ _ _ _ => rfl, fun _ _ _ _ => rfl⟩

/-! ## What one write does -/

/-- `rpc_write` has reported an invalid packet and is ready for the next one. -/
def Recovered (w : World Call Daemon) : Prop := w.st.gatt.error = improvErrInvalid ∧
    w.st.rpc.len = 0

/-- `improv_parse` says 1. -/
def incomplete (buf : List UInt8) : Bool :=
  match improvParse buf with
  | .error r => r = 1
  | .ok _ => false

theorem incomplete_iff (buf : List UInt8) : incomplete buf = true ↔ improvParse buf = .error 1 := by
  unfold incomplete
  cases improvParse buf with
  | error r =>
    rw [decide_eq_true_eq]
    exact ⟨congrArg _, Except.error.inj⟩
  | ok c => exact ⟨nofun, nofun⟩

/-- What the buffer holds after a write of `data` when it held `held`: all of it while
`improv_parse` says that the packet is incomplete. -/
def keep (held data : List UInt8) : List UInt8 :=
  if held.length + data.length ≤ 128 ∧ incomplete (held ++ data) then held ++ data else []

/-- What the buffer holds after all the pieces. -/
def kept (held : List UInt8) (pieces : List (List UInt8)) : List UInt8 := pieces.foldl keep held

/-- What is kept is an incomplete packet, in the eyes of `rpc_write`. -/
theorem keep_incomplete (held data : List UInt8) : improvParse (keep held data) = .error 1 := by
  unfold keep
  split
  · exact (incomplete_iff _).mp (And.right ‹_›)
  · rfl

variable {env : Nat → Answer} {w : World Call Daemon} {data : List UInt8}

/-- A piece that does not fit is reported, and the buffer is emptied. -/
theorem rpcWrite_overflow (h : ¬ w.st.rpc.len + data.length ≤ 128) :
    Recovered ((rpcWrite data).run env w).2 ∧
      commands ((rpcWrite data).run env w).2 = commands w := by
  rw [rpcWrite, run_call, run_get, dif_neg h, run_modify]
  refine ⟨⟨setState_error _ _ _ _, ?_⟩, setState_commands _ _ _ _⟩
  rw [setState_rpc, Buffer.len_reset]

/-- A piece behind which the packet is still incomplete stays in the buffer, and nothing else
happens. -/
theorem rpcWrite_incomplete (h : w.st.rpc.len + data.length ≤ 128)
    (hp : improvParse (w.st.rpc.content ++ data) = .error 1) :
    ((rpcWrite data).run env w).2 =
      { w with calls := (.rpc data, w.st) :: w.calls
               st := { w.st with rpc := w.st.rpc.append data h } } := by
  rw [rpcWrite, run_call, run_get, dif_pos h, run_modify, Buffer.content_append, hp]
  rfl

/-- A packet with another error is dropped and reported. -/
theorem rpcWrite_error {r : UInt8} (h : w.st.rpc.len + data.length ≤ 128) (hr : r ≠ 1)
    (hp : improvParse (w.st.rpc.content ++ data) = .error r) :
    ((rpcWrite data).run env w).2.st.rpc.content = [] ∧
      ((rpcWrite data).run env w).2.st.gatt.error = r ∧
      commands ((rpcWrite data).run env w).2 = commands w := by
  rw [rpcWrite, run_call, run_get, dif_pos h, run_modify, Buffer.content_append, hp]
  simp only []
  rw [when_pos hr, run_modify]
  refine ⟨?_, setState_error _ _ _ _, setState_commands _ _ _ _⟩
  rw [setState_rpc, Buffer.content_wipe]

/-- A valid packet is executed and leaves the buffer. -/
theorem rpcWrite_valid {c : ImprovCmd} (h : w.st.rpc.len + data.length ≤ 128)
    (hp : improvParse (w.st.rpc.content ++ data) = .ok c) :
    ((rpcWrite data).run env w).2.st.rpc.content = [] ∧
      ((rpcWrite data).run env w).2.st.gatt.error ≠ improvErrInvalid ∧
      commands ((rpcWrite data).run env w).2 = c :: commands w := by
  rw [rpcWrite, run_call, run_get, dif_pos h, run_modify, Buffer.content_append, hp]
  simp only []
  rw [run_modify, run_bind]
  refine ⟨?_, ?_, ?_⟩
  · rw [improvCommand_rpc, setState_rpc, Buffer.content_wipe]
  · exact improvCommand_error c env _ ((setState_error _ _ _ _).trans_ne (by decide))
  · rw [improvCommand_commands, setState_commands]
    rfl

/-- **The buffer after a write.** -/
theorem rpcWrite_content (env : Nat → Answer) (w : World Call Daemon) (data : List UInt8) :
    ((rpcWrite data).run env w).2.st.rpc.content = keep w.st.rpc.content data := by
  unfold keep
  rw [Buffer.length_content]
  by_cases h : w.st.rpc.len + data.length ≤ 128
  · cases hp : improvParse (w.st.rpc.content ++ data) with
    | error r =>
      by_cases hr : r = 1
      · subst hr
        rw [rpcWrite_incomplete h hp, if_pos ⟨h, (incomplete_iff _).mpr hp⟩]
        exact Buffer.content_append _ _ _
      · rw [(rpcWrite_error h hr hp).1, if_neg]
        rintro ⟨-, hn⟩
        exact hr (Except.error.inj (hp.symm.trans ((incomplete_iff _).mp hn)))
    | ok c =>
      rw [(rpcWrite_valid h hp).1, if_neg]
      rintro ⟨-, hn⟩
      exact nomatch hp.symm.trans ((incomplete_iff _).mp hn)
  · rw [(Buffer.content_eq_nil _).mpr (rpcWrite_overflow h).1.2, if_neg fun hn => h hn.1]

/-- After every write the buffer holds an incomplete packet, in the eyes of `rpc_write`. -/
theorem rpcWrite_pending (env : Nat → Answer) (w : World Call Daemon) (data : List UInt8) :
    improvParse ((rpcWrite data).run env w).2.st.rpc.content = .error 1 := by
  rw [rpcWrite_content]
  exact keep_incomplete _ _

theorem each_content (env : Nat → Answer) (pieces : List (List UInt8)) (w : World Call Daemon) :
    ((each rpcWrite pieces).run env w).2.st.rpc.content = kept w.st.rpc.content pieces := by
  induction pieces generalizing w with
  | nil => rfl
  | cons p ps ih => exact (ih _).trans (congrArg (kept · ps) (rpcWrite_content env w p))

/-- **One piece with bytes in it** recovers exactly if it does not fit. -/
theorem rpcWrite_recovered_iff (hd : data ≠ []) :
    Recovered ((rpcWrite data).run env w).2 ↔ 128 < w.st.rpc.len + data.length := by
  constructor
  · intro hr
    by_contra hf
    have h : w.st.rpc.len + data.length ≤ 128 := by omega
    cases hp : improvParse (w.st.rpc.content ++ data) with
    | error r =>
      by_cases h1 : r = 1
      · subst h1
        have hl : 0 < data.length := List.length_pos_iff.mpr hd
        have h0 := hr.2
        rw [rpcWrite_incomplete h hp, Buffer.len_append] at h0
        omega
      · exact h1 ((rpcWrite_error h h1 hp).2.1.symm.trans hr.1)
    | ok c => exact (rpcWrite_valid h hp).2.1 hr.1
  · exact fun h => (rpcWrite_overflow (by omega)).1

/-- An empty write leaves the state as it is. -/
theorem rpcWrite_nil (hw : improvParse w.st.rpc.content = .error 1) :
    ((rpcWrite []).run env w).2 = { w with calls := (.rpc [], w.st) :: w.calls } := by
  have h : w.st.rpc.len + ([] : List UInt8).length ≤ 128 := w.st.rpc.fits
  rw [rpcWrite_incomplete h (by rw [List.append_nil]; exact hw), Buffer.append_nil]

/-! ## A packet in pieces -/

/-- The last piece with bytes in it. -/
theorem exists_last_piece {pieces : List (List UInt8)} (h : pieces.flatten ≠ []) :
    ∃ before last after, pieces = before ++ last :: after ∧ last ≠ [] ∧ ∀ p ∈ after, p = [] := by
  induction pieces with
  | nil => exact absurd rfl h
  | cons p ps ih =>
    by_cases hps : ps.flatten = []
    · refine ⟨[], p, ps, rfl, fun hp => h ?_, fun q hq => ?_⟩
      · rw [List.flatten_cons, hp, hps]
        rfl
      · exact List.flatten_eq_nil_iff.mp hps q hq
    · obtain ⟨before, last, after, rfl, hl, ha⟩ := ih hps
      exact ⟨p :: before, last, after, rfl, hl, ha⟩

/-- Empty pieces change nothing. -/
theorem each_nil {pieces : List (List UInt8)} (h : ∀ p ∈ pieces, p = [])
    (hw : improvParse w.st.rpc.content = .error 1) :
    ((each rpcWrite pieces).run env w).2.st = w.st ∧
      commands ((each rpcWrite pieces).run env w).2 = commands w := by
  induction pieces generalizing w with
  | nil => exact ⟨rfl, rfl⟩
  | cons p ps ih =>
    obtain rfl := h p List.mem_cons_self
    have hn := @rpcWrite_nil env w hw
    have h' := ih (w := ((rpcWrite []).run env w).2) (fun q hq => h q (List.mem_cons_of_mem _ hq))
      (rpcWrite_pending env w [])
    refine ⟨h'.1.trans ?_, h'.2.trans ?_⟩
    · rw [hn]
    · rw [hn]
      rfl

/-- The last piece with bytes in it does not fit behind what the buffer holds. -/
def LastOverflows (pieces : List (List UInt8)) : Prop :=
  ∃ before last after, pieces = before ++ last :: after ∧ last ≠ [] ∧ (∀ p ∈ after, p = []) ∧
    128 < (kept [] before).length + last.length

/-- After an invalid packet in pieces. -/
theorem recovered_iff (h0 : w.st.rpc.content = []) {pieces : List (List UInt8)}
    (hi : Invalid pieces.flatten) :
    Recovered ((each rpcWrite pieces).run env w).2 ↔ LastOverflows pieces := by
  have hne : pieces.flatten ≠ [] := by
    intro h
    have := hi.1.1
    rw [h] at this
    exact absurd this (by decide)
  have key : ∀ {before last after}, pieces = before ++ last :: after → last ≠ [] →
      (∀ p ∈ after, p = []) → (Recovered ((each rpcWrite pieces).run env w).2 ↔
        128 < (kept [] before).length + last.length) := by
    rintro before last after rfl hl ha
    have hb := each_content env before w
    rw [h0] at hb
    rw [run_each_append, ← hb, Buffer.length_content, ← @rpcWrite_recovered_iff env _ _ hl]
    have hn := (@each_nil env _ _ ha (rpcWrite_pending env
      ((each rpcWrite before).run env w).2 last)).1
    unfold Recovered
    exact iff_of_eq (congrArg (fun s : Daemon => s.gatt.error = improvErrInvalid ∧
      s.rpc.len = 0) hn)
  constructor
  · intro hr
    obtain ⟨before, last, after, he, hl, ha⟩ := exists_last_piece hne
    exact ⟨before, last, after, he, hl, ha, (key he hl ha).mp hr⟩
  · rintro ⟨before, last, after, he, hl, ha, ho⟩
    exact (key he hl ha).mpr ho

/-! ## Valid packets -/

theorem parseWifi_length {d ssid pass : List UInt8} (h : parseWifi d = .ok (ssid, pass)) :
    d.length ≤ 97 := by
  unfold parseWifi at h
  simp only [] at h
  split at h
  · cases h
  · split at h
    · cases h
    · split at h
      · cases h
      · rename_i h1 h2 h3
        simp only [not_or, not_not, Bool.not_eq_true, Bool.not_eq_false'] at h2 h3
        have hv := h3.2.1
        unfold validPass at hv
        simp only [Bool.and_eq_true, Bool.or_eq_true, decide_eq_true_eq] at hv
        have := hv.1
        simp only [List.length_take, List.length_drop] at this
        omega

/-- A valid packet ends where its data length says. -/
theorem improvParse_length {buf : List UInt8} {c : ImprovCmd} (h : improvParse buf = .ok c) :
    buf.length = (byte buf 1).toNat + 3 ∧ buf.length ≤ 100 := by
  unfold improvParse at h
  simp only [] at h
  split at h
  · cases h
  · split at h
    · cases h
    · split at h
      · cases h
      · rename_i h1 h2 h3
        have hl : buf.length = (byte buf 1).toNat + 3 := by omega
        refine ⟨hl, ?_⟩
        split at h
        · split at h
          · rename_i ssid pass hw
            have := parseWifi_length hw
            rw [List.length_take, List.length_drop] at this
            omega
          · cases h
        · split at h
          · split at h
            · cases h
            · omega
          · cases h

/-- A valid packet that is cut is incomplete. -/
theorem improvParse_cut {p q : List UInt8} {c : ImprovCmd} (h : improvParse (p ++ q) = .ok c)
    (hq : q ≠ []) : improvParse p = .error 1 := by
  have hl := (improvParse_length h).1
  have hq' : 0 < q.length := List.length_pos_iff.mpr hq
  rw [List.length_append] at hl
  unfold improvParse
  by_cases h3 : p.length < 3
  · exact if_pos h3
  · have hb : byte (p ++ q) 1 = byte p 1 := by
      unfold byte
      rw [List.getD_eq_getElem?_getD, List.getD_eq_getElem?_getD,
        List.getElem?_append_left (by omega)]
    rw [hb] at hl
    simp only []
    rw [if_neg h3, if_pos (by omega)]

/-- **A valid packet in pieces** is executed once, and nothing else is. -/
theorem each_valid {c : ImprovCmd} {pieces : List (List UInt8)}
    (hw : improvParse w.st.rpc.content = .error 1)
    (hp : improvParse (w.st.rpc.content ++ pieces.flatten) = .ok c) :
    commands ((each rpcWrite pieces).run env w).2 = c :: commands w := by
  induction pieces generalizing w with
  | nil =>
    rw [List.flatten_nil, List.append_nil, hw] at hp
    cases hp
  | cons p ps ih =>
    have hl := (improvParse_length hp).2
    rw [List.length_append, List.flatten_cons, List.length_append, Buffer.length_content] at hl
    have h : w.st.rpc.len + p.length ≤ 128 := by omega
    rw [List.flatten_cons, ← List.append_assoc] at hp
    by_cases hps : ps.flatten = []
    · rw [hps, List.append_nil] at hp
      have hn := @each_nil env _ _ (List.flatten_eq_nil_iff.mp hps) (rpcWrite_pending env w p)
      exact hn.2.trans (rpcWrite_valid h hp).2.2
    · have hi := improvParse_cut hp hps
      have hst := @rpcWrite_incomplete env _ _ h hi
      have hc : ((rpcWrite p).run env w).2.st.rpc.content = w.st.rpc.content ++ p := by
        rw [hst]
        exact Buffer.content_append _ _ _
      have h' := ih (w := ((rpcWrite p).run env w).2) (rpcWrite_pending env w p)
        (by rw [hc]; exact hp)
      rw [each, run_bind, h', hst]
      rfl

/-! ## A sequence of packets -/

/-- After each of the packets, `rpc_write` has recovered, and a valid packet that is written next is
executed. -/
def Recovers (env : Nat → Answer) : World Call Daemon → List (List (List UInt8)) → Prop
  | _, [] => True
  | w, pieces :: packets =>
    let w' := ((each rpcWrite pieces).run env w).2
    Recovered w' ∧
      (∀ valid c, improvParse valid.flatten = .ok c →
        commands ((each rpcWrite valid).run env w').2 = c :: commands w') ∧
      Recovers env w' packets

/-- **Recovery** after invalid packets that are written in pieces from an empty buffer on. -/
theorem recovers_iff (env : Nat → Answer) (w : World Call Daemon) (h0 : w.st.rpc.len = 0)
    (packets : List (List (List UInt8))) (hi : ∀ pieces ∈ packets, Invalid pieces.flatten) :
    Recovers env w packets ↔ ∀ pieces ∈ packets, LastOverflows pieces := by
  induction packets generalizing w with
  | nil => exact ⟨fun _ _ h => (List.not_mem_nil h).elim, fun _ => trivial⟩
  | cons pieces packets ih =>
    have hfirst := @recovered_iff env _ ((Buffer.content_eq_nil _).mpr h0) _
      (hi pieces List.mem_cons_self)
    have hrest := fun p hp => hi p (List.mem_cons_of_mem _ hp)
    constructor
    · rintro ⟨hr, -, hs⟩ p hp
      rcases List.mem_cons.mp hp with rfl | hp
      · exact hfirst.mp hr
      · exact (ih _ hr.2 hrest).mp hs p hp
    · intro ho
      have hr := hfirst.mpr (ho pieces List.mem_cons_self)
      have hc := (Buffer.content_eq_nil _).mpr hr.2
      refine ⟨hr, fun valid c hv => each_valid ?_ ?_, ?_⟩
      · rw [hc]
        rfl
      · rw [hc]
        exact hv
      · exact (ih _ hr.2 hrest).mpr fun p hp => ho p (List.mem_cons_of_mem _ hp)

/-- An invalid packet of 129 bytes in one write. -/
theorem recovers_overflow :
    Recovers (fun _ => { clock := 0 }) ⟨Daemon.zero, 0, []⟩ [[List.replicate 129 0x02]] := by
  refine (recovers_iff _ _ rfl _ fun pieces hp => ?_).mpr fun pieces hp => ?_
  · obtain rfl := List.mem_singleton.mp hp
    exact ⟨by decide +kernel, .inl (by decide +kernel)⟩
  · obtain rfl := List.mem_singleton.mp hp
    exact ⟨[], _, [], rfl, by decide, nofun, by decide +kernel⟩

/-- An identify command with a wrong checksum: no error, three bytes stay, and the valid command
that follows is not executed. -/
theorem recovers_not :
    Invalid [0x02, 0x00, 0xff] ∧ improvParse [0x02, 0x00, 0x02] = .ok ⟨improvCmdIdentify, [], []⟩ ∧
      ¬ Recovers (fun _ => { clock := 0 }) ⟨Daemon.zero, 0, []⟩ [[[0x02, 0x00, 0xff]]] ∧
      (let w := ((rpcWrite [0x02, 0x00, 0xff]).run (fun _ => { clock := 0 })
        ⟨Daemon.zero, 0, []⟩).2
      w.st.gatt.error = improvErrNone ∧ w.st.rpc.len = 3 ∧
        commands ((rpcWrite [0x02, 0x00, 0x02]).run (fun _ => { clock := 0 }) w).2 = []) := by
  refine ⟨⟨by decide, .inr (.inl (by decide))⟩, rfl, ?_, rfl, rfl, rfl⟩
  rintro ⟨⟨-, hr⟩, -⟩
  exact absurd hr (by decide)

end Esp32S31.BleHa
