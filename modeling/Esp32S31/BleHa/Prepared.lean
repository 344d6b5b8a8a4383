import Esp32S31.BleHa.Recovery
import Esp32S31.BleHa.Rounds

/-!
# Prepared writes

The queue of the Prepare Writes, over any sequence of requests and connections. `Accepts`,
`queueAfter` and `hands` say what a request does with the bytes that are queued, without the code;
`prepared` and `handed` are the queue behind a sequence, and what the RPC handler is given
meanwhile.

* **`prepared_writes`**: the program does just that, and answers a Prepare Write as `Accepts` says.
-/

namespace Esp32S31.BleHa

open Esp32S31.Lib Prog

/-- What happens on a link. -/
inductive LinkEvent where
  | request (req : List UInt8)
  | connected (handle : Nat)

/-- A request in `l2cap_frame`, and LE Connection Complete in `le_meta`. -/
def LinkEvent.act : LinkEvent → Act Unit
  | .request req => l2capFrame 4 req
  | .connected handle => modify (BleHa.connected handle)

/-- What `rpc_write` was given, newest first. -/
def rpcWrites (w : World Call Daemon) : List (List UInt8) :=
  w.calls.filterMap fun k => match k.1 with
    | .rpc data => some data
    | _ => none

/-! ## The queue -/

/-- A Prepare Write for the RPC value, at the end of the bytes `q`, which may be 128 bytes at most
with it. -/
def Accepts (q req : List UInt8) : Prop :=
  5 ≤ req.length ∧ get16 req 1 = gattRpcValue ∧ get16 req 3 = q.length ∧
    q.length + (req.drop 5).length ≤ 128

instance (q req : List UInt8) : Decidable (Accepts q req) := inferInstanceAs (Decidable (_ ∧ _))

/-- The bytes behind a request. -/
def queueAfter (q req : List UInt8) : List UInt8 :=
  if byte req 0 = 0x18 then []
  else if byte req 0 = 0x16 ∧ Accepts q req then q ++ req.drop 5
  else q

/-- What a request gives the RPC handler: a write its value, an Execute Write with the flag 1 the
bytes. -/
def hands (q req : List UInt8) : Option (List UInt8) :=
  if byte req 0 = 0x12 ∨ byte req 0 = 0x52 then
    if 3 ≤ req.length ∧ get16 req 1 = gattRpcValue then some (req.drop 3) else none
  else if byte req 0 = 0x18 ∧ 2 ≤ req.length ∧ byte req 1 = 1 ∧ q ≠ [] then some q
  else none

/-- The bytes behind a sequence of events. -/
def prepared : List UInt8 → List LinkEvent → List UInt8
  | q, [] => q
  | q, .request req :: es => prepared (queueAfter q req) es
  | _, .connected _ :: es => prepared [] es

/-- What the events give the RPC handler, in order. -/
def handed : List UInt8 → List LinkEvent → List (List UInt8)
  | _, [] => []
  | q, .request req :: es => (hands q req).toList ++ handed (queueAfter q req) es
  | _, .connected _ :: es => handed [] es

/-! ## One request -/

section Request

variable (g : Gatt) (req : List UInt8) (max : Nat)

theorem writeValue_prep (h : Nat) (v : List UInt8) : (writeValue g h v).1.prep = g.prep :=
  writeValue_induction (P := fun g' => g'.prep = g.prep) rfl (fun _ => rfl) h v

theorem writeValue_hands (h : Nat) (v : List UInt8) :
    (writeValue g h v).2.2 = if h = gattRpcValue then some v else none := by
  unfold writeValue
  by_cases hrpc : h = gattRpcValue
  · subst hrpc
    rfl
  · rw [if_neg hrpc]
    split
    · split <;> rfl
    · rw [if_neg hrpc]

theorem prepareWrite_accepted (h : Accepts g.prep.content req) :
    ∃ b : Buffer 128, b.content = g.prep.content ++ req.drop 5 ∧
      prepareWrite g req max = ({ g with prep := b }, (0x17 :: req.drop 1).take max) := by
  obtain ⟨hlen, hrpc, hoff, hfit⟩ := h
  rw [Buffer.length_content] at hoff hfit
  unfold prepareWrite
  dsimp only
  rw [if_neg (by omega), if_neg (not_not.mpr hrpc), if_neg (not_not.mpr hoff), dif_pos hfit]
  exact ⟨_, Buffer.content_append _ _ _, rfl⟩

/-- A Prepare Write that is refused changes nothing. -/
theorem prepareWrite_refused (h : ¬ Accepts g.prep.content req) :
    ∃ handle err, prepareWrite g req max = (g, errorRsp (byte req 0) handle err) := by
  unfold prepareWrite
  dsimp only
  by_cases hlen : req.length < 5
  · exact ⟨_, _, if_pos hlen⟩
  · rw [if_neg hlen]
    by_cases hrpc : get16 req 1 ≠ gattRpcValue
    · exact ⟨_, _, if_pos hrpc⟩
    · rw [if_neg hrpc]
      by_cases hoff : get16 req 3 ≠ g.prep.len
      · exact ⟨_, _, if_pos hoff⟩
      · rw [if_neg hoff]
        by_cases hfit : g.prep.len + (req.drop 5).length ≤ 128
        · refine absurd ⟨by omega, not_not.mp hrpc, ?_, ?_⟩ h
          · rw [Buffer.length_content]
            exact not_not.mp hoff
          · rw [Buffer.length_content]
            exact hfit
        · exact ⟨_, _, dif_neg hfit⟩

theorem length_ne_zero {op : UInt8} (hop : op ≠ 0) (h : byte req 0 = op) : req.length ≠ 0 := by
  intro h0
  rw [List.length_eq_zero_iff.mp h0] at h
  exact hop h.symm

/-! The opcodes that write: -/

theorem gattHandle_prepare (h : byte req 0 = 0x16) : gattHandle g req max =
    ((prepareWrite g req (min max g.mtu)).1, (prepareWrite g req (min max g.mtu)).2, none) := by
  have hlen := length_ne_zero req (by decide) h
  unfold gattHandle
  simp only [h, if_neg hlen]
  rfl

theorem gattHandle_execute (h : byte req 0 = 0x18) : gattHandle g req max =
    ({ g with prep := g.prep.wipe }, [0x19],
      if 2 ≤ req.length ∧ byte req 1 = 1 ∧ g.prep.len ≠ 0 then some g.prep.content else none) := by
  have hlen := length_ne_zero req (by decide) h
  unfold gattHandle
  simp only [h, if_neg hlen]
  rfl

theorem gattHandle_write (h : byte req 0 = 0x12) : gattHandle g req max =
    if req.length < 3 then (g, errorRsp 0x12 0 errInvalidLen, none)
    else ((writeValue g (get16 req 1) (req.drop 3)).1,
      if (writeValue g (get16 req 1) (req.drop 3)).2.1 ≠ 0 then
        errorRsp 0x12 (get16 req 1) (writeValue g (get16 req 1) (req.drop 3)).2.1
      else [0x13],
      (writeValue g (get16 req 1) (req.drop 3)).2.2) := by
  have hlen := length_ne_zero req (by decide) h
  unfold gattHandle
  simp only [h, if_neg hlen]
  rfl

theorem gattHandle_command (h : byte req 0 = 0x52) : gattHandle g req max =
    if 3 ≤ req.length then
      ((writeValue g (get16 req 1) (req.drop 3)).1, [],
        (writeValue g (get16 req 1) (req.drop 3)).2.2)
    else (g, [], none) := by
  have hlen := length_ne_zero req (by decide) h
  unfold gattHandle
  simp only [h, if_neg hlen]
  rfl

/-- Every other opcode gives the RPC handler nothing and leaves the queue. -/
theorem gattHandle_other (h16 : byte req 0 ≠ 0x16) (h18 : byte req 0 ≠ 0x18)
    (h12 : byte req 0 ≠ 0x12)
    (h52 : byte req 0 ≠ 0x52) {P : Gatt × List UInt8 × Option (List UInt8) → Prop}
      (hg : ∀ rsp, P (g, rsp, none))
    (hm : ∀ m rsp, P (exchangeMtu g m, rsp, none)) : P (gattHandle g req max) := by
  have ite {c : Prop} [Decidable c] {a b : Gatt × List UInt8 × Option (List UInt8)} (ha : P a)
      (hb : P b) : P (if c then a else b) := by
    split
    · exact ha
    · exact hb
  unfold gattHandle
  simp only [if_neg h16, if_neg h18, if_neg h12, if_neg h52]
  refine ite (hg _) (ite (ite (hg _) (hm _ _))
    (ite (hg _) (ite (hg _) (ite (hg _) (ite (hg _) ?_)))))
  exact ite (hg _) (hg _)

/-- The queue behind a request. -/
theorem gattHandle_queue : (gattHandle g req max).1.prep.content = queueAfter g.prep.content
    req := by
  unfold queueAfter
  by_cases h18 : byte req 0 = 0x18
  · rw [if_pos h18, gattHandle_execute g req max h18]
    exact Buffer.content_wipe _
  · rw [if_neg h18]
    by_cases h16 : byte req 0 = 0x16
    · rw [gattHandle_prepare g req max h16]
      by_cases ha : Accepts g.prep.content req
      · obtain ⟨b, hb, he⟩ := prepareWrite_accepted g req (min max g.mtu) ha
        rw [if_pos ⟨h16, ha⟩, he]
        exact hb
      · rw [if_neg fun h => ha h.2]
        obtain ⟨handle, err, he⟩ := prepareWrite_refused g req (min max g.mtu) ha
        rw [he]
    · rw [if_neg fun h => h16 h.1]
      have hw := writeValue_prep g (get16 req 1) (req.drop 3)
      by_cases h12 : byte req 0 = 0x12
      · rw [gattHandle_write g req max h12]
        split
        · rfl
        · rw [hw]
      · by_cases h52 : byte req 0 = 0x52
        · rw [gattHandle_command g req max h52]
          split
          · rw [hw]
          · rfl
        · exact gattHandle_other g req max h16 h18 h12 h52 (P := fun r =>
            r.1.prep.content = g.prep.content)
            (fun _ => rfl) fun _ _ => rfl

/-- What a request gives the RPC handler. -/
theorem gattHandle_hands : (gattHandle g req max).2.2 = hands g.prep.content req := by
  have hw := writeValue_hands g (get16 req 1) (req.drop 3)
  unfold hands
  by_cases h12 : byte req 0 = 0x12
  · rw [if_pos (Or.inl h12), gattHandle_write g req max h12]
    by_cases hlen : req.length < 3
    · rw [if_pos hlen, if_neg (by omega)]
    · rw [if_neg hlen, hw]
      by_cases hrpc : get16 req 1 = gattRpcValue
      · rw [if_pos hrpc, if_pos ⟨by omega, hrpc⟩]
      · rw [if_neg hrpc, if_neg fun h => hrpc h.2]
  · by_cases h52 : byte req 0 = 0x52
    · rw [if_pos (Or.inr h52), gattHandle_command g req max h52]
      by_cases hlen : 3 ≤ req.length
      · rw [if_pos hlen, hw]
        by_cases hrpc : get16 req 1 = gattRpcValue
        · rw [if_pos hrpc, if_pos ⟨hlen, hrpc⟩]
        · rw [if_neg hrpc, if_neg fun h => hrpc h.2]
      · rw [if_neg hlen, if_neg fun h => hlen h.1]
    · rw [if_neg (not_or.mpr ⟨h12, h52⟩)]
      by_cases h18 : byte req 0 = 0x18
      · have hcontent : g.prep.len ≠ 0 ↔ g.prep.content ≠ [] := not_congr g.prep.content_eq_nil.symm
        rw [gattHandle_execute g req max h18]
        by_cases hexec : 2 ≤ req.length ∧ byte req 1 = 1 ∧ g.prep.len ≠ 0
        · exact (if_pos hexec).trans (if_pos ⟨h18, hexec.1, hexec.2.1, hcontent.mp hexec.2.2⟩).symm
        · refine (if_neg hexec).trans (if_neg fun h => hexec ?_).symm
          exact ⟨h.2.1, h.2.2.1, hcontent.mpr h.2.2.2⟩
      · rw [if_neg fun h => h18 h.1]
        by_cases h16 : byte req 0 = 0x16
        · rw [gattHandle_prepare g req max h16]
        · exact gattHandle_other g req max h16 h18 h12 h52 (P := fun r => r.2.2 = none)
            (fun _ => rfl)
            fun _ _ => rfl

end Request

/-! ## A request in the program -/

theorem ignoresImprov_rpcWrites : IgnoresImprov rpcWrites where
  asked _ _ := rfl
  acl _ _ _ := rfl
  write _ _ _ _ := rfl
  att w k s hk := by cases k <;> first | rfl | cases hk
  request _ _ _ _ := rfl
  gatt _ _ := rfl
  dirty _ _ := rfl
  joinId _ _ := rfl
  joinEnd _ _ := rfl
  identifyEnd _ _ := rfl
  improv w k s hk := by cases k <;> first | rfl | cases hk

/-- `improv_command` does not call `rpc_write`. -/
theorem improvCommand_rpcWrites (c : ImprovCmd) : Same rpcWrites (improvCommand c) := by
  have hi := ignoresImprov_rpcWrites
  unfold improvCommand
  refine Same.bind (Same.call fun _ _ => rfl) fun _ => Same.bind Same.get fun s => ?_
  refine Same.ite (improvWifi_same hi c) (Same.ite (Same.when (identify_same hi true)) ?_)
  exact Same.when (setResult_same hi.toIgnoresAcl (fun w _ => hi.gatt w _) _ _)

section Program

variable (env : Nat → Answer) (w : World Call Daemon)

theorem rpcWrite_rpcWrites (data : List UInt8) :
    rpcWrites ((rpcWrite data).run env w).2 = data :: rpcWrites w := by
  have hi := ignoresImprov_rpcWrites
  have hrpc (b : Buffer 128) : Same rpcWrites (modify fun s => { s with rpc := b } : Act Unit) :=
    Same.modify fun _ => rfl
  by_cases h : w.st.rpc.len + data.length ≤ 128
  · rw [rpcWrite, run_call, run_get, dif_pos h, run_modify]
    cases improvParse (w.st.rpc.append data h).content with
    | error r => exact Same.when ((hrpc _).bind fun _ => setState_same hi _ _) env _
    | ok c =>
      refine ((hrpc _).bind fun _ => ?_) env _
      exact (setState_same hi _ _).bind fun _ => improvCommand_rpcWrites c
  · rw [rpcWrite, run_call, run_get, dif_neg h]
    exact ((hrpc _).bind fun _ => setState_same hi _ _) env _

/-- The queue is the ATT server's own: what Improv does leaves it. -/
theorem prep_improvs (b : Buffer 128) : Improvs fun w => w.st.gatt.prep = b where
  asked _ _ hw := hw
  call _ _ _ hw := hw
  notify handle v := (notify_same (v := fun w => w.st.gatt.prep)
    ⟨fun _ _ => rfl, fun _ _ _ => rfl, fun _ _ _ _ => rfl, fun _ _ _ _ => rfl⟩ handle v).meets
      (· = b)
  error _ _ hw := hw
  state _ _ hw := hw
  result _ _ hw := hw
  dirty _ _ hw := hw
  rpc _ _ hw := hw
  joinId _ _ hw := hw
  joinEnd _ _ hw := hw
  identifyEnd _ _ hw := hw
  doneAt _ _ hw := hw

/-- The world at the call of `rpc_write` that a request makes, or behind its response. -/
def served (w : World Call Daemon) (req : List UInt8) : World Call Daemon :=
  let r := gattHandle w.st.gatt req w.st.rspMax
  { w with
    st := { w.st with gatt := r.1 }
    calls := (.att req r.2.1, w.st) :: (.frame 4 req, w.st) :: w.calls }

/-- What a view that ignores `acl_send` sees of a request. -/
theorem l2capFrame_view {γ : Type} {v : World Call Daemon → γ} (h : IgnoresAcl v)
    (req : List UInt8) : v ((l2capFrame 4 req).run env w).2 =
      v ((rpcCallback (hands w.st.gatt.prep.content req)).run env (served w req)).2 := by
  rw [l2capFrame, run_call, run_get, if_pos rfl, run_call, run_modify, run_bind]
  refine (Same.when (aclSend_same h 4 _) env _).trans ?_
  rw [← gattHandle_hands w.st.gatt req w.st.rspMax]
  rfl

theorem rpcCallback_rpcWrites (d : Option (List UInt8)) :
    rpcWrites ((rpcCallback d).run env w).2 = d.toList ++ rpcWrites w := by
  cases d with
  | none => rfl
  | some data => exact rpcWrite_rpcWrites env w data

/-- A request changes the queue and calls the RPC handler as `queueAfter` and `hands` say. -/
theorem request_act (req : List UInt8) :
    ((l2capFrame 4 req).run env w).2.st.gatt.prep.content = queueAfter w.st.gatt.prep.content req ∧
      rpcWrites ((l2capFrame 4 req).run env w).2 =
        (hands w.st.gatt.prep.content req).toList ++ rpcWrites w := by
  have hprep : IgnoresAcl fun w : World Call Daemon => w.st.gatt.prep :=
    ⟨fun _ _ => rfl, fun _ _ _ => rfl, fun _ _ _ _ => rfl, fun _ _ _ _ => rfl⟩
  constructor
  · rw [l2capFrame_view env w hprep]
    have hkept := (prep_improvs (served w req).st.gatt.prep).rpcCallback
      (hands w.st.gatt.prep.content req)
    rw [hkept env (served w req) rfl]
    exact gattHandle_queue w.st.gatt req w.st.rspMax
  · rw [l2capFrame_view env w ignoresImprov_rpcWrites.toIgnoresAcl, rpcCallback_rpcWrites]
    rfl

end Program

/-! ## Any sequence -/

/-- The queue behind a sequence, and what the RPC handler was given. -/
theorem each_prepared (env : Nat → Answer) (es : List LinkEvent) (w : World Call Daemon) :
    ((each LinkEvent.act es).run env w).2.st.gatt.prep.content = prepared w.st.gatt.prep.content
      es ∧ rpcWrites ((each LinkEvent.act es).run env w).2 =
        (handed w.st.gatt.prep.content es).reverse ++ rpcWrites w := by
  induction es generalizing w with
  | nil => exact ⟨rfl, rfl⟩
  | cons e es ih =>
    obtain ⟨hprep, hgiven⟩ := ih (e.act.run env w).2
    rw [each, run_bind]
    cases e with
    | request req =>
      obtain ⟨hqueue, hhands⟩ := request_act env w req
      have hact : (LinkEvent.request req).act = l2capFrame 4 req := rfl
      rw [hact] at hprep hgiven ⊢
      rw [hqueue] at hprep hgiven
      refine ⟨hprep, hgiven.trans ?_⟩
      have hrev : (hands w.st.gatt.prep.content req).toList.reverse =
          (hands w.st.gatt.prep.content req).toList := by
        cases hands w.st.gatt.prep.content req <;> rfl
      rw [handed, hhands, List.reverse_append, hrev, List.append_assoc]
    | connected handle => exact ⟨hprep, hgiven⟩

/-- A Prepare Write is answered as `Accepts` says. -/
theorem gattHandle_accepts {g : Gatt} {req : List UInt8} (max : Nat) (h : byte req 0 = 0x16) :
    (Accepts g.prep.content req → ∃ b : Buffer 128, b.content = g.prep.content ++ req.drop 5 ∧
      gattHandle g req max = ({ g with prep := b }, (0x17 :: req.drop 1).take (min max g.mtu),
        none)) ∧
    (¬ Accepts g.prep.content req →
      ∃ handle err, gattHandle g req max = (g, errorRsp 0x16 handle err, none)) := by
  rw [gattHandle_prepare g req max h]
  constructor
  · intro ha
    obtain ⟨b, hb, he⟩ := prepareWrite_accepted g req (min max g.mtu) ha
    rw [he]
    exact ⟨b, hb, rfl⟩
  · intro ha
    obtain ⟨handle, err, he⟩ := prepareWrite_refused g req (min max g.mtu) ha
    rw [he, h]
    exact ⟨handle, err, rfl⟩

/-- **Prepared writes.** Over any requests and connections the RPC handler is given the values that
are written and, at an Execute Write with the flag 1, the bytes that were accepted since the last
Execute Write or the connection; another flag and a connection discard them. Behind any of them a
Prepare Write is answered with its own bytes exactly if it is for the RPC value, at the end of these
bytes, and leaves at most 128; else it changes nothing. -/
theorem prepared_writes (env : Nat → Answer) (w : World Call Daemon) (es : List LinkEvent) :
    ∃ w', w' = ((each LinkEvent.act es).run env w).2 ∧
      w'.st.gatt.prep.content = prepared w.st.gatt.prep.content es ∧
      rpcWrites w' = (handed w.st.gatt.prep.content es).reverse ++ rpcWrites w ∧
      ∀ req max, byte req 0 = 0x16 →
        (Accepts w'.st.gatt.prep.content req → ∃ b : Buffer 128,
          b.content = w'.st.gatt.prep.content ++ req.drop 5 ∧
          gattHandle w'.st.gatt req max =
            ({ w'.st.gatt with prep := b }, (0x17 :: req.drop 1).take (min max w'.st.gatt.mtu),
              none)) ∧
        (¬ Accepts w'.st.gatt.prep.content req → ∃ handle err,
          gattHandle w'.st.gatt req max = (w'.st.gatt, errorRsp 0x16 handle err, none)) := by
  obtain ⟨hprep, hgiven⟩ := each_prepared env es w
  exact ⟨_, rfl, hprep, hgiven, fun req max h => gattHandle_accepts max h⟩

end Esp32S31.BleHa
