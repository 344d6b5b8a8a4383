import Esp32S31.Flash.Mailbox
import Esp32S31.Lib.Machine

/-!
# A flash command is executed once, with its own arguments

Any sequence of calls of `esp_shm_flash_cmd`, one at a time, against `flash_task` and any kicks of
it. A wait may time out and leave its command in the mailbox; the next calls then return `-EBUSY`
until the firmware has cleared it.

`MailboxSys` keeps what happened: the calls that stored CMD (`placed`), the requests that the
firmware completed, and the calls that returned with the number of commands placed before and after
them. `MailboxInv`: the completed requests are the placed ones, but for the last while CMD is set;
while CMD is set the mailbox holds the arguments of the last placed call (`Holds`).
-/

namespace Esp32S31.Flash

open Esp32S31.Lib Circular

/-- A call that returned. -/
structure CallReturn where
  call : FlashCall
  ret : Int
  /-- the commands placed before the call and until its return -/
  placedBefore : Nat
  placedAfter : Nat

/-- The mailbox with both sides. -/
structure MailboxSys where
  box : Mailbox
  /-- `s_kick` -/
  kick : Bool
  fw : ServicePc
  /-- the call in progress, and the number of commands placed before it -/
  host : Option (FlashCall × CmdPc × Nat)
  placed : List FlashCall
  completed : List (Exec × U32)
  returned : List CallReturn

/-- What can happen next. -/
inductive MailboxAct where
  /-- `esp_shm_flash_cmd` is called -/
  | call (c : FlashCall)
  | host (chunk : Nat) (expired : Bool)
  | ret
  /-- `shm_flash_kick` -/
  | kick
  | fw (a : OpAct)

/-- The commands that a step of a call places. -/
def CmdPc.places (c : FlashCall) : CmdPc → List FlashCall
  | .writeCmd => [c]
  | _ => []

/-- The requests that a step of the firmware completes. -/
def ServicePc.completes : ServicePc → List (Exec × U32)
  | .clearCmd e err => [(e, err)]
  | _ => []

namespace MailboxSys

/-- One step, with the size of the window. -/
def step (size : U32) : MailboxAct → MailboxSys → Option MailboxSys
  | .call c, s =>
    match s.host with
    | none => some { s with host := some (c, .readCmd, s.placed.length) }
    | some _ => none
  | .host chunk expired, s =>
    match s.host with
    | some (c, pc, n) => some { s with
        box := (cmdStep c chunk expired s.box pc).1
        host := some (c, (cmdStep c chunk expired s.box pc).2.1, n)
        placed := s.placed ++ pc.places c }
    | none => none
  | .ret, s =>
    match s.host with
    | some (c, .done ret, n) => some { s with
        host := none
        returned := s.returned ++ [⟨c, ret, n, s.placed.length⟩] }
    | _ => none
  | .kick, s => some { s with kick := true }
  | .fw a, s =>
    (serviceStep size a s.kick s.box s.fw).map fun x => { s with
      kick := x.1, box := x.2.1, fw := x.2.2.1, completed := s.completed ++ s.fw.completes }

/-- CMD is 0, the firmware waits, nothing happened yet. -/
structure Start (s : MailboxSys) : Prop where
  cmd : s.box.cmd = 0
  fw : s.fw = .take
  fresh : s.host = none ∧ s.placed = [] ∧ s.completed = [] ∧ s.returned = []

/-- **The flash mailbox as a machine.** -/
def machine (size : U32) : Machine MailboxAct MailboxSys := ⟨Start, step size⟩

end MailboxSys

/-! ## The invariant -/

/-- The bytes that the firmware loaded are bytes of the call. -/
def ReadsOf (c : FlashCall) (reads : List (Nat × UInt8)) : Prop :=
  ∀ x ∈ reads, c.buf[x.1]? = some x.2

/-- The request is the one of the call. -/
structure Exec.Of (e : Exec) (c : FlashCall) : Prop where
  cmd : e.cmd = c.cmd.word
  addr : e.addr = c.addr
  len : e.len = c.len
  reads : ReadsOf c e.reads

/-- The mailbox holds the arguments of the call. -/
structure Holds (b : Mailbox) (c : FlashCall) : Prop where
  addr : b.addr = c.addr
  len : b.len = c.len
  data : c.cmd = .program → ∀ o v, c.buf[o]? = some v → b.data o = v

/-- What a result says about the command of its call: `m` commands were placed before the call and
`n` until its return. -/
def ReturnOk (placed : List FlashCall) (completed : List (Exec × U32)) (c : FlashCall) (m n : Nat)
    (ret : Int) : Prop :=
  ret = -ebusy ∧ n = m ∨
  ret = -etimedout ∧ n = m + 1 ∧ placed[m]? = some c ∨
  n = m + 1 ∧ placed[m]? = some c ∧ ∃ e err, completed[m]? = some (e, err) ∧
    (ret = 0 ∧ err = espOk ∨ ret = -eio ∧ err ≠ espOk)

/-- What holds of a call at each point; `m` commands were placed before it. -/
def HostOk (b : Mailbox) (placed : List FlashCall) (completed : List (Exec × U32)) (c : FlashCall)
    (m : Nat) : CmdPc → Prop
  | .readCmd => placed.length = m
  | .writeAddr => placed.length = m ∧ b.cmd = 0
  | .writeLen => placed.length = m ∧ b.cmd = 0 ∧ b.addr = c.addr
  | .copyData todo => placed.length = m ∧ b.cmd = 0 ∧ Holds { b with data := put b.data todo } c
  | .writeCmd => placed.length = m ∧ b.cmd = 0 ∧ Holds b c
  | .ring | .wait => placed.length = m + 1 ∧ placed[m]? = some c
  | .readStatus => placed.length = m + 1 ∧ placed[m]? = some c ∧ b.cmd = 0 ∧
      ∃ e, completed[m]? = some (e, b.status)
  | .done ret => ReturnOk placed completed c m placed.length ret

/-- What holds of the firmware at each point, `c` being the command in the mailbox. -/
def FwOk (b : Mailbox) (c : FlashCall) : ServicePc → Prop
  | .loadAddr cmd => cmd = 0 ∨ cmd = b.cmd
  | .loadLen cmd addr => cmd = 0 ∨ cmd = b.cmd ∧ addr = b.addr
  | .test cmd addr len => cmd = 0 ∨ cmd = b.cmd ∧ addr = b.addr ∧ len = b.len
  | .op e | .writeStatus e _ => e.Of c
  | .clearCmd e err => e.Of c ∧ b.status = err
  | _ => True

/-- The command `c` is in the mailbox, placed and not completed. -/
structure Pending (b : Mailbox) (fw : ServicePc) (placed : List FlashCall) (k : Nat)
    (c : FlashCall) : Prop where
  last : placed.length = k + 1
  call : placed[k]? = some c
  cmd : b.cmd = c.cmd.word
  args : Holds b c
  fw : FwOk b c fw

/-- **The invariant of the mailbox.** -/
structure MailboxInv (s : MailboxSys) : Prop where
  set : s.box.cmd ≠ 0 → ∃ c, Pending s.box s.fw s.placed s.completed.length c
  clear : s.box.cmd = 0 → s.placed.length = s.completed.length ∧ s.fw.busy = false
  status : s.box.cmd = 0 → ∀ n e err, s.completed.length = n + 1 →
    s.completed[n]? = some (e, err) → s.box.status = err
  matched : ∀ (i : Nat) (e : Exec) (err : U32), s.completed[i]? = some (e, err) →
    ∃ c : FlashCall, s.placed[i]? = some c ∧ e.Of c
  host : ∀ c pc m, s.host = some (c, pc, m) → HostOk s.box s.placed s.completed c m pc
  rets : ∀ r ∈ s.returned, ReturnOk s.placed s.completed r.call r.placedBefore r.placedAfter r.ret

/-- What is in a list stays there when it grows. -/
theorem getElem?_append_some {α : Type} {xs : List α} {n : Nat} {x : α} (h : xs[n]? = some x)
    (ys : List α) : (xs ++ ys)[n]? = some x := by
  rw [List.getElem?_append_left (List.getElem?_eq_some_iff.mp h).1]
  exact h

theorem ReturnOk.mono {placed : List FlashCall} {completed : List (Exec × U32)} {c : FlashCall}
    {m n : Nat} {ret : Int} (h : ReturnOk placed completed c m n ret) (ps : List FlashCall)
    (es : List (Exec × U32)) : ReturnOk (placed ++ ps) (completed ++ es) c m n ret := by
  rcases h with h | ⟨h1, h2, h3⟩ | ⟨h1, h2, e, err, h3, h4⟩
  · exact .inl h
  · exact .inr (.inl ⟨h1, h2, getElem?_append_some h3 _⟩)
  · exact .inr (.inr ⟨h1, getElem?_append_some h2 _, e, err, getElem?_append_some h3 _, h4⟩)

/-- The stores of the data put the bytes of the call. -/
theorem put_copyTo : ∀ (bs : List UInt8) (d : Nat) (m : Nat → UInt8) {o : Nat} {v : UInt8},
    bs[o]? = some v → put m (Shm.copyTo d bs) (d + o) = v
  | [], _, _, _, _, h => absurd h (by simp)
  | b :: bs, d, m, 0, v, h => by
    have hne : ∀ w ∈ Shm.copyTo (d + 1) bs, w.1 ≠ d + 0 := fun w hw => by
      have := copyTo_ge bs (d + 1) w hw
      omega
    rw [Shm.copyTo, put_cons, put_of_not_mem _ _ hne]
    rw [List.getElem?_cons_zero] at h
    rw [← Option.some.inj h]
    exact Function.update_self _ _ _
  | b :: bs, d, m, o + 1, v, h => by
    rw [List.getElem?_cons_succ] at h
    rw [Shm.copyTo, put_cons, show d + (o + 1) = d + 1 + o by omega]
    exact put_copyTo bs (d + 1) _ h
where
  copyTo_ge : ∀ (bs : List UInt8) (d : Nat), ∀ w ∈ Shm.copyTo d bs, d ≤ w.1
    | [], _, _, h => absurd h List.not_mem_nil
    | b :: bs, d, w, h => by
      rcases List.mem_cons.mp h with rfl | h
      · exact Nat.le_refl _
      · exact Nat.le_of_succ_le (copyTo_ge bs (d + 1) w h)

theorem MailboxSys.Start.inv {s : MailboxSys} (h : Start s) : MailboxInv s := by
  obtain ⟨b, k, fw, ho, pl, co, re⟩ := s
  obtain ⟨h0, rfl, rfl, rfl, rfl, rfl⟩ := h
  exact ⟨fun hn => absurd h0 hn, fun _ => ⟨rfl, rfl⟩, fun _ _ _ _ hl => absurd hl (by simp),
    fun _ _ _ hl => absurd hl (by simp), nofun, fun _ hl => absurd hl List.not_mem_nil⟩

section Step

variable {s : MailboxSys}

/-- A step of the call that leaves the mailbox alone. -/
theorem MailboxInv.setHost (h : MailboxInv s) {c : FlashCall} {pc : CmdPc} {m : Nat}
    (hk : HostOk s.box s.placed s.completed c m pc) :
    MailboxInv { s with host := some (c, pc, m) } :=
  ⟨h.set, h.clear, h.status, h.matched, fun c' pc' m' e => by
    obtain ⟨rfl, rfl, rfl⟩ : c = c' ∧ pc = pc' ∧ m = m' := by simpa using e
    exact hk, h.rets⟩

/-- A step of the call that stores to the mailbox while CMD is 0. -/
theorem MailboxInv.store (h : MailboxInv s) (h0 : s.box.cmd = 0) {b : Mailbox} (hb : b.cmd = 0)
    (hs : b.status = s.box.status) {c : FlashCall} {pc : CmdPc} {m : Nat}
    (hk : HostOk b s.placed s.completed c m pc) :
    MailboxInv { s with box := b, host := some (c, pc, m) } :=
  ⟨fun hn => absurd hb hn, fun _ => h.clear h0,
    fun _ n e err hl he => hs.trans (h.status h0 n e err hl he), h.matched, fun c' pc' m' e => by
      obtain ⟨rfl, rfl, rfl⟩ : c = c' ∧ pc = pc' ∧ m = m' := by simpa using e
      exact hk, h.rets⟩

/-- The store of CMD places the call. -/
theorem MailboxInv.place (h : MailboxInv s) (h0 : s.box.cmd = 0) {c : FlashCall}
    (hb : Holds s.box c) :
    MailboxInv { s with
      box := { s.box with cmd := c.cmd.word }
      host := some (c, .ring, s.placed.length)
      placed := s.placed ++ [c] } := by
  obtain ⟨hlen, hbusy⟩ := h.clear h0
  have hlast : (s.placed ++ [c])[s.placed.length]? = some c := by simp
  refine ⟨fun _ => ⟨c, by simp [hlen], hlen ▸ hlast, rfl, ⟨hb.addr, hb.len, hb.data⟩, ?_⟩,
    fun hn => absurd hn c.cmd.word_ne_zero, fun hn => absurd hn c.cmd.word_ne_zero,
    fun i e err he => ?_, fun c' pc' m' e => ?_, fun r hr => ?_⟩
  · -- a firmware that is not busy has loaded 0, or nothing
    cases hfw : s.fw with
    | loadAddr cmd | loadLen cmd addr | test cmd addr len =>
      rw [hfw] at hbusy
      exact .inl (by simpa [ServicePc.busy] using hbusy)
    | op e | writeStatus e err | clearCmd e err =>
      rw [hfw] at hbusy
      exact absurd hbusy (by simp [ServicePc.busy])
    | _ => trivial
  · obtain ⟨d, hd, ho⟩ := h.matched i e err he
    exact ⟨d, getElem?_append_some hd _, ho⟩
  · obtain ⟨rfl, rfl, rfl⟩ : c = c' ∧ CmdPc.ring = pc' ∧ s.placed.length = m' := by simpa using e
    exact ⟨by simp, hlast⟩
  · have := (h.rets r hr).mono [c] []
    rwa [List.append_nil] at this

theorem MailboxInv.stepHost (h : MailboxInv s) {c : FlashCall} {pc : CmdPc} {m chunk : Nat}
    {expired : Bool} (hh : s.host = some (c, pc, m)) :
    MailboxInv { s with
      box := (cmdStep c chunk expired s.box pc).1
      host := some (c, (cmdStep c chunk expired s.box pc).2.1, m)
      placed := s.placed ++ pc.places c } := by
  have hk := h.host c pc m hh
  cases pc with
  | readCmd =>
    rw [show s.placed ++ CmdPc.readCmd.places c = s.placed from List.append_nil _]
    refine h.setHost ?_
    simp only [cmdStep]
    split
    · exact ⟨hk, by assumption⟩
    · exact .inl ⟨rfl, hk⟩
  | writeAddr =>
    rw [show s.placed ++ CmdPc.writeAddr.places c = s.placed from List.append_nil _]
    refine h.store (b := { s.box with addr := c.addr }) hk.2 hk.2 rfl ?_
    exact ⟨hk.1, hk.2, rfl⟩
  | writeLen =>
    rw [show s.placed ++ CmdPc.writeLen.places c = s.placed from List.append_nil _]
    obtain ⟨h1, h2, h3⟩ := hk
    refine h.store (b := { s.box with len := c.len }) h2 h2 rfl ?_
    simp only [cmdStep]
    split
    · refine ⟨h1, h2, h3, rfl, fun _ o v hv => ?_⟩
      have := put_copyTo c.buf 0 s.box.data hv
      rwa [Nat.zero_add] at this
    · exact ⟨h1, h2, h3, rfl, fun hp => absurd hp (by assumption)⟩
  | copyData todo =>
    rw [show s.placed ++ (CmdPc.copyData todo).places c = s.placed from List.append_nil _]
    obtain ⟨h1, h2, h3⟩ := hk
    cases todo with
    | nil => exact h.setHost ⟨h1, h2, h3⟩
    | cons w ws =>
      refine h.store (b := { s.box with data := put s.box.data ((w :: ws).take (chunk + 1)) }) h2 h2
        rfl ?_
      refine ⟨h1, h2, h3.addr, h3.len, fun hp o v hv => ?_⟩
      have := h3.data hp o v hv
      rw [← List.take_append_drop (chunk + 1) (w :: ws), put_append] at this
      exact this
  | writeCmd =>
    obtain ⟨rfl, h2, h3⟩ := hk
    exact h.place h2 h3
  | ring =>
    rw [show s.placed ++ CmdPc.ring.places c = s.placed from List.append_nil _]
    exact h.setHost hk
  | wait =>
    rw [show s.placed ++ CmdPc.wait.places c = s.placed from List.append_nil _]
    refine h.setHost ?_
    obtain ⟨h1, h2⟩ := hk
    simp only [cmdStep]
    split
    · rename_i h0
      have hl := (h.clear h0).1
      have hlt : m < s.completed.length := by omega
      refine ⟨h1, h2, h0, s.completed[m].1, ?_⟩
      rw [h.status h0 m s.completed[m].1 s.completed[m].2 (by omega)
        (List.getElem?_eq_getElem hlt)]
      exact List.getElem?_eq_getElem hlt
    · split
      · exact .inr (.inl ⟨rfl, h1, h2⟩)
      · exact ⟨h1, h2⟩
  | readStatus =>
    rw [show s.placed ++ CmdPc.readStatus.places c = s.placed from List.append_nil _]
    refine h.setHost (.inr (.inr ?_))
    obtain ⟨h1, h2, h3, e, he⟩ := hk
    refine ⟨h1, h2, e, s.box.status, he, ?_⟩
    split
    · exact .inl ⟨rfl, by assumption⟩
    · exact .inr ⟨rfl, by assumption⟩
  | done ret =>
    rw [show s.placed ++ (CmdPc.done ret).places c = s.placed from List.append_nil _]
    exact h.setHost hk

/-- A step of the firmware that leaves the words alone. -/
theorem MailboxInv.setFw (h : MailboxInv s) {k : Bool} {w : Nat → UInt8} {fw : ServicePc}
    (h1 : ∀ c, Pending s.box s.fw s.placed s.completed.length c → FwOk s.box c fw)
    (h0 : s.box.cmd = 0 → fw.busy = false) :
    MailboxInv { s with kick := k, box := { s.box with window := w }, fw := fw } := by
  refine ⟨fun hn => ?_, fun hz => ⟨(h.clear hz).1, h0 hz⟩, h.status, h.matched, fun c pc m e => ?_,
    h.rets⟩
  · obtain ⟨c, hc⟩ := h.set hn
    refine ⟨c, hc.last, hc.call, hc.cmd, ⟨hc.args.addr, hc.args.len, hc.args.data⟩, ?_⟩
    have := h1 c hc
    cases fw <;> exact this
  · have := h.host c pc m e
    cases pc with
    | copyData todo => exact ⟨this.1, this.2.1, this.2.2.addr, this.2.2.len, this.2.2.data⟩
    | writeCmd => exact ⟨this.1, this.2.1, this.2.2.addr, this.2.2.len, this.2.2.data⟩
    | _ => exact this

/-- A firmware that works on a request has it from the mailbox. -/
theorem MailboxInv.pending (h : MailboxInv s) (hb : s.fw.busy = true) :
    s.box.cmd ≠ 0 ∧ ∃ c, Pending s.box s.fw s.placed s.completed.length c := by
  have hn : s.box.cmd ≠ 0 := fun h0 => by
    rw [(h.clear h0).2] at hb
    exact absurd hb (by simp)
  exact ⟨hn, h.set hn⟩

/-- While CMD is set, a call waits for it, or has not looked yet. -/
theorem MailboxInv.host_set (h : MailboxInv s) (hn : s.box.cmd ≠ 0) {c : FlashCall} {pc : CmdPc}
    {m : Nat} (hh : s.host = some (c, pc, m)) {b : Mailbox} {e : Exec} {err : U32} :
    HostOk b s.placed (s.completed ++ [(e, err)]) c m pc := by
  have := h.host c pc m hh
  cases pc with
  | readCmd | ring | wait => exact this
  | writeAddr | writeLen | copyData todo | writeCmd => first
    | exact absurd this.2 hn
    | exact absurd this.2.1 hn
  | readStatus => exact absurd this.2.2.1 hn
  | done ret =>
    have := this.mono [] [(e, err)]
    rwa [List.append_nil] at this

theorem MailboxInv.stepFw (h : MailboxInv s) {size : U32} {a : OpAct} {k : Bool} {b : Mailbox}
    {fw : ServicePc} {r : Bool} (hs : serviceStep size a s.kick s.box s.fw = some (k, b, fw, r)) :
    MailboxInv { s with
      kick := k, box := b, fw := fw, completed := s.completed ++ s.fw.completes } := by
  cases hfw : s.fw with
  | take =>
    rw [hfw] at hs
    simp only [serviceStep] at hs
    split at hs
    · obtain ⟨rfl, rfl, rfl, -⟩ := hs
      rw [show s.completed ++ ServicePc.take.completes = s.completed from List.append_nil _]
      exact h.setFw (w := s.box.window) (fun _ _ => trivial) (fun _ => rfl)
    · exact absurd hs (by simp)
  | loadCmd =>
    rw [hfw] at hs
    obtain ⟨rfl, rfl, rfl, -⟩ := hs
    rw [show s.completed ++ ServicePc.loadCmd.completes = s.completed from List.append_nil _]
    exact h.setFw (w := s.box.window) (fun _ _ => .inr rfl) (fun h0 => by simp [ServicePc.busy, h0])
  | loadAddr cmd =>
    rw [hfw] at hs
    obtain ⟨rfl, rfl, rfl, -⟩ := hs
    rw [show s.completed ++ (ServicePc.loadAddr cmd).completes = s.completed from List.append_nil _]
    refine h.setFw (w := s.box.window) (fun c hc => ?_) (fun h0 => ?_)
    · have := hc.fw
      rw [hfw] at this
      exact this.imp_right fun e => ⟨e, rfl⟩
    · have := (h.clear h0).2
      rw [hfw] at this
      exact this
  | loadLen cmd addr =>
    rw [hfw] at hs
    obtain ⟨rfl, rfl, rfl, -⟩ := hs
    rw [show s.completed ++ (ServicePc.loadLen cmd addr).completes = s.completed from
      List.append_nil _]
    refine h.setFw (w := s.box.window) (fun c hc => ?_) (fun h0 => ?_)
    · have := hc.fw
      rw [hfw] at this
      exact this.imp_right fun e => ⟨e.1, e.2, rfl⟩
    · have := (h.clear h0).2
      rw [hfw] at this
      exact this
  | test cmd addr len =>
    rw [hfw] at hs
    obtain ⟨rfl, rfl, rfl, -⟩ := hs
    rw [show s.completed ++ (ServicePc.test cmd addr len).completes = s.completed from
      List.append_nil _]
    have hof : cmd ≠ 0 → ∀ c, Pending s.box s.fw s.placed s.completed.length c →
        Exec.Of ⟨cmd, addr, len, []⟩ c := fun hne c hc => by
      have := hc.fw
      rw [hfw] at this
      obtain ⟨h1, h2, h3⟩ := this.resolve_left hne
      exact ⟨h1.trans hc.cmd, h2.trans hc.args.addr, h3.trans hc.args.len,
        fun _ hx => absurd hx List.not_mem_nil⟩
    refine h.setFw (w := s.box.window) (fun c hc => ?_) (fun h0 => ?_)
    · split
      · trivial
      · split <;> exact hof (by assumption) c hc
    · have := (h.clear h0).2
      rw [hfw] at this
      have : cmd = 0 := by simpa [ServicePc.busy] using this
      rw [if_pos this]
      rfl
  | op e =>
    have hb := h.pending (by rw [hfw]; rfl)
    have hop : ∀ c, Pending s.box s.fw s.placed s.completed.length c → e.Of c := fun c hc => by
      have := hc.fw
      rwa [hfw] at this
    rw [show s.completed ++ (ServicePc.op e).completes = s.completed from List.append_nil _]
    rw [hfw] at hs
    cases a with
    | read o =>
      simp only [serviceStep] at hs
      split at hs
      · rename_i ho
        obtain ⟨rfl, rfl, rfl, -⟩ := hs
        refine h.setFw (w := s.box.window) (fun c hc => ?_) (fun h0 => absurd h0 hb.1)
        obtain ⟨h1, h2, h3, h4⟩ := hop c hc
        refine ⟨h1, h2, h3, fun x hx => ?_⟩
        rcases List.mem_append.mp hx with hx | hx
        · exact h4 x hx
        · rw [List.mem_singleton.mp hx]
          have hp : c.cmd = .program := FlashCmd.word_inj (h1.symm.trans ho.1)
          have hlt : o < c.buf.length := by rw [c.buf_length hp, ← h3]; exact ho.2
          have hget : c.buf[o]? = some c.buf[o] := List.getElem?_eq_getElem hlt
          rw [hc.args.data hp o _ hget]
          exact hget
      · exact absurd hs (by simp)
    | flash o v =>
      obtain ⟨rfl, rfl, rfl, -⟩ := hs
      exact h.setFw hop (fun h0 => absurd h0 hb.1)
    | finish err =>
      obtain ⟨rfl, rfl, rfl, -⟩ := hs
      exact h.setFw (w := s.box.window) hop (fun h0 => absurd h0 hb.1)
  | writeStatus e err =>
    obtain ⟨hn, c, hc⟩ := h.pending (by rw [hfw]; rfl)
    have hof := hc.fw
    rw [hfw] at hof hs
    obtain ⟨rfl, rfl, rfl, -⟩ := hs
    rw [show s.completed ++ (ServicePc.writeStatus e err).completes = s.completed from
      List.append_nil _]
    refine ⟨fun _ => ⟨c, hc.last, hc.call, hc.cmd, ⟨hc.args.addr, hc.args.len, hc.args.data⟩, hof,
      rfl⟩, fun h0 => absurd h0 hn, fun h0 => absurd h0 hn, h.matched, fun c' pc m hh => ?_, h.rets⟩
    have := h.host c' pc m hh
    cases pc with
    | readCmd | ring | wait | done ret => exact this
    | writeAddr | writeLen | copyData todo | writeCmd => first
      | exact absurd this.2 hn
      | exact absurd this.2.1 hn
    | readStatus => exact absurd this.2.2.1 hn
  | clearCmd e err =>
    obtain ⟨hn, c, hc⟩ := h.pending (by rw [hfw]; rfl)
    obtain ⟨hof, hst⟩ : e.Of c ∧ s.box.status = err := by
      have := hc.fw
      rwa [hfw] at this
    rw [hfw] at hs
    obtain ⟨rfl, rfl, rfl, -⟩ := hs
    show MailboxInv { s with
      kick := s.kick, box := { s.box with cmd := 0 }, fw := .ring
      completed := s.completed ++ [(e, err)] }
    refine ⟨fun h0 => absurd rfl h0, fun _ => ⟨by simp [hc.last], rfl⟩, fun _ n e' err' hl he => ?_,
      fun i e' err' he => ?_, fun c' pc m hh => h.host_set hn hh, fun r hr => ?_⟩
    · obtain rfl : s.completed.length = n := by simpa using hl
      have : e = e' ∧ err = err' := by simpa using he
      exact hst.trans this.2
    · rcases Nat.lt_or_ge i s.completed.length with hlt | hge
      · rw [List.getElem?_append_left hlt] at he
        exact h.matched i e' err' he
      · have hi : i < (s.completed ++ [(e, err)]).length := (List.getElem?_eq_some_iff.mp he).1
        obtain rfl : i = s.completed.length := by
          rw [List.length_append, List.length_singleton] at hi
          omega
        have : e = e' ∧ err = err' := by simpa using he
        exact ⟨c, hc.call, this.1 ▸ hof⟩
    · have := (h.rets r hr).mono [] [(e, err)]
      rwa [List.append_nil] at this
  | ring =>
    rw [hfw] at hs
    obtain ⟨rfl, rfl, rfl, -⟩ := hs
    rw [show s.completed ++ ServicePc.ring.completes = s.completed from List.append_nil _]
    exact h.setFw (w := s.box.window) (fun _ _ => trivial) (fun _ => rfl)

theorem MailboxInv.step {size : U32} {s' : MailboxSys} {a : MailboxAct} (h : MailboxInv s)
    (hs : s.step size a = some s') : MailboxInv s' := by
  cases a with
  | call c =>
    simp only [MailboxSys.step] at hs
    split at hs
    · obtain rfl := Option.some.inj hs
      exact h.setHost rfl
    · exact absurd hs (by simp)
  | host chunk expired =>
    simp only [MailboxSys.step] at hs
    split at hs
    · rename_i c pc m hh
      obtain rfl := Option.some.inj hs
      exact h.stepHost hh
    · exact absurd hs (by simp)
  | ret =>
    simp only [MailboxSys.step] at hs
    split at hs
    · rename_i c ret m hh
      obtain rfl := Option.some.inj hs
      refine ⟨h.set, h.clear, h.status, h.matched, nofun, fun r hr => ?_⟩
      rcases List.mem_append.mp hr with hr | hr
      · exact h.rets r hr
      · rw [List.mem_singleton.mp hr]
        exact h.host c _ m hh
    · exact absurd hs (by simp)
  | kick =>
    obtain rfl := Option.some.inj hs
    exact ⟨h.set, h.clear, h.status, h.matched, h.host, h.rets⟩
  | fw a =>
    obtain ⟨⟨k, b, fw, r⟩, e, rfl⟩ := Option.map_eq_some_iff.mp hs
    exact h.stepFw e

end Step

theorem MailboxInv.of_reach {size : U32} {s : MailboxSys}
    (h : (MailboxSys.machine size).Reach s) : MailboxInv s :=
  h.invariant (I := MailboxInv) (fun _ h0 => MailboxSys.Start.inv h0)
    fun _ _ _ _ hi _ hs => hi.step hs

/-- A firmware with a request has it from the command in the mailbox. -/
theorem ServicePc.busy_of_exec {fw : ServicePc} {e : Exec} (h : fw.exec = some e) :
    fw.busy = true ∧ ∀ b c, FwOk b c fw → e.Of c := by
  cases fw with
  | op e' | writeStatus e' err =>
    obtain rfl := Option.some.inj h
    exact ⟨rfl, fun _ _ ho => ho⟩
  | clearCmd e' err =>
    obtain rfl := Option.some.inj h
    exact ⟨rfl, fun _ _ ho => ho.1⟩
  | _ => exact absurd h (by simp [ServicePc.exec])

theorem getElem?_toList {α : Type} {o : Option α} {j : Nat} {x : α} (h : o.toList[j]? = some x) :
    j = 0 ∧ o = some x := by
  cases o with
  | none => exact absurd h (by simp)
  | some y =>
    cases j with
    | zero => exact ⟨rfl, by simpa using h⟩
    | succ j => exact absurd h (by simp)

/-! ## The result -/

/-- **Flash mailbox, exactly once.** In every reachable state: the requests that the firmware
completed, then the one it works on, are the placed commands in their order, each once and with its
own arguments; Linux stores to the mailbox only while CMD is 0 and the firmware works on none; a
call that returned 0 or `-EIO` had its own command completed, with `ESP_OK` exactly for 0, and one
that returned `-EBUSY` placed nothing. -/
theorem flash_exactly_once {size : U32} {s : MailboxSys} (h : (MailboxSys.machine size).Reach s) :
    (∀ (i : Nat) (e : Exec), (s.completed.map (·.1) ++ s.fw.exec.toList)[i]? = some e →
      ∃ c : FlashCall, s.placed[i]? = some c ∧ e.Of c) ∧
    (∀ c pc m, s.host = some (c, pc, m) → pc.stores = true → s.box.cmd = 0 ∧ s.fw.busy = false) ∧
    (∀ r ∈ s.returned,
      (r.ret = 0 ∨ r.ret = -eio → r.placedAfter = r.placedBefore + 1 ∧
        s.placed[r.placedBefore]? = some r.call ∧
        ∃ e err, s.completed[r.placedBefore]? = some (e, err) ∧ (r.ret = 0 ↔ err = espOk)) ∧
      (r.ret = -ebusy → r.placedAfter = r.placedBefore)) := by
  have hi := MailboxInv.of_reach h
  refine ⟨fun i e he => ?_, fun c pc m hh hst => ?_, fun r hr => ?_⟩
  · rcases Nat.lt_or_ge i s.completed.length with hlt | hge
    · rw [List.getElem?_append_left (by rwa [List.length_map]), List.getElem?_map,
        Option.map_eq_some_iff] at he
      obtain ⟨⟨e', err⟩, he, rfl⟩ := he
      exact hi.matched i e' err he
    · rw [List.getElem?_append_right (by rwa [List.length_map]), List.length_map] at he
      obtain ⟨hj, hex⟩ := getElem?_toList he
      obtain ⟨hb, hof⟩ := ServicePc.busy_of_exec hex
      obtain ⟨-, c, hc⟩ := hi.pending hb
      obtain rfl : i = s.completed.length := by omega
      exact ⟨c, hc.call, hof s.box c hc.fw⟩
  · have hk := hi.host c pc m hh
    have h0 : s.box.cmd = 0 := by
      cases pc with
      | writeAddr => exact hk.2
      | writeLen | copyData todo | writeCmd => exact hk.2.1
      | _ => exact absurd hst (by simp [CmdPc.stores])
    exact ⟨h0, (hi.clear h0).2⟩
  · rcases hi.rets r hr with ⟨h1, h2⟩ | ⟨h1, h2⟩ | ⟨h1, h2, e, err, h3, h4⟩
    · rw [h1]
      exact ⟨fun he => absurd he (by decide), fun _ => h2⟩
    · rw [h1]
      exact ⟨fun he => absurd he (by decide), fun he => absurd he (by decide)⟩
    · rcases h4 with ⟨h4, h5⟩ | ⟨h4, h5⟩
      · rw [h4]
        exact ⟨fun _ => ⟨h1, h2, e, err, h3, iff_of_true rfl h5⟩, fun he => absurd he (by decide)⟩
      · rw [h4]
        exact ⟨fun _ => ⟨h1, h2, e, err, h3, iff_of_false (by decide) h5⟩,
          fun he => absurd he (by decide)⟩

/-- A program that times out, a call that finds it in the mailbox, and, once the firmware has
completed it with an error, an erase. -/
def mailboxRun : List MailboxAct :=
  [MailboxAct.call ⟨.program, 0, 2, [1, 2], fun _ => rfl⟩] ++ List.replicate 7
    (MailboxAct.host 99 false) ++
    [MailboxAct.host 0 true, .ret, .call ⟨.erase, 0, 0x10000, [], nofun⟩, .host 0 false, .ret,
    .kick] ++
    List.replicate 5 (MailboxAct.fw (.finish 0)) ++ [MailboxAct.fw (.read 1), .fw (.read 0)] ++
    List.replicate 4 (MailboxAct.fw (.finish 1)) ++
    [MailboxAct.call ⟨.erase, 0, 0x10000, [], nofun⟩] ++ List.replicate 5
    (MailboxAct.host 0 false) ++ [MailboxAct.kick] ++
    List.replicate 8 (MailboxAct.fw (.finish 0)) ++ [MailboxAct.host 0 false, .host 0 false, .ret]

theorem flash_exactly_once_run :
    ∃ s, (MailboxSys.machine 0x20000).run mailboxRun
        ⟨⟨0, 0, 0, 0, fun _ => 0, fun _ => 0⟩, false, .take, none, [], [], []⟩ = some s ∧
      s.returned.map (·.ret) = [-etimedout, -ebusy, 0] ∧ s.completed.map (·.2) = [1, 0] ∧
      ∀ (i : Nat) (e : Exec), (s.completed.map (·.1) ++ s.fw.exec.toList)[i]? = some e →
        ∃ c : FlashCall, s.placed[i]? = some c ∧ e.Of c := by
  have h : ((MailboxSys.machine 0x20000).run mailboxRun
      ⟨⟨0, 0, 0, 0, fun _ => 0, fun _ => 0⟩, false, .take, none, [], [], []⟩).map (fun s =>
        (s.returned.map (·.ret), s.completed.map (·.2))) =
      some ([-etimedout, -ebusy, 0], [1, 0]) := by
    decide +kernel
  obtain ⟨s, hs, e⟩ := Option.map_eq_some_iff.mp h
  obtain ⟨e1, e2⟩ := Prod.mk.inj e
  exact ⟨s, hs, e1, e2,
    (flash_exactly_once (Machine.Reach.run (.init ⟨rfl, rfl, rfl, rfl, rfl, rfl⟩) hs)).1⟩

end Esp32S31.Flash
