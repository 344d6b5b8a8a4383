import Esp32S31.Shm.Delivery

/-!
# The two rings deliver in order

The ring to the firmware: `esp_shm_tx_flush` calls `esp_shm_push` under `tx_lock`, one push at a
time, any number of times and with WAIT set in between; `shm_read` is the consumer (`ToFw`). The
ring to Linux: `shm_write` pushes with `ring_push`, `esp_shm_read` is the consumer (`ToHost`).

Both machines interleave the two sides at every access; head and tail start equal at any place. The
results are in terms of what the calls returned: the frames of the successful pushes, of the calls
of `shm_write` that returned the length, and of the reads.
-/

namespace Esp32S31.Shm

open Esp32S31.Lib Circular

/-- The "bad frame length" branch. -/
def ReadPc.isBad : ReadPc → Bool
  | .recover _ | .done .bad => true
  | _ => false

/-- The push has stored the head, so it will return true. -/
def PushPc.stored : PushPc → Bool
  | .readTailAgain _ | .done true _ => true
  | _ => false

/-- The frame of a push that has stored the head and not returned yet. -/
def storedFrame : Option (Frame × PushPc) → List Frame
  | some (f, pc) => if pc.stored then [f] else []
  | none => []

/-- The ring holds exactly the records of `fs`, from tail to head. -/
def Holds (r : ShmRing) (m : RingMem) (fs : List Frame) : Prop :=
  ∃ t, m.tail = .ofNat 32 t ∧ m.head = .ofNat 32 (t + span width fs) ∧ span width fs ≤ r.area ∧
    Laid width record r.area m.data t fs

/-- A step of a push adds its frame to the committed frames exactly when it makes it stored. -/
theorem Flow.committed_push (F : Flow) (r : ShmRing) (q : PushReq) (f : Frame) (chunk : Nat)
    (pc : PushPc) {fs : List Frame} (h : F.committed = fs ++ storedFrame (some (f, pc))) :
    (F.push r q f chunk pc).1.committed =
      fs ++ storedFrame (some (f, (F.push r q f chunk pc).2)) := by
  cases pc with
  | copyIn head todo =>
    cases todo with
    | nil =>
      show F.committed ++ [f] = fs ++ [f]
      rw [h]
      exact congrArg (· ++ [f]) (List.append_nil fs)
    | cons w ws => exact h
  | readTail head =>
    by_cases hlt : r.size - (head - F.mem.tail) < recordLen q.len
    · simp only [Flow.push, pushStep, if_pos hlt]
      exact h
    · simp only [Flow.push, pushStep, if_neg hlt]
      exact h
  | done ok kick => cases ok <;> exact h
  | _ => exact h

/-- The allocation that a read has made for a record that it did not pass yet. -/
def ReadPc.allocated : ReadPc → List Bool
  | .copyOut _ _ _ _ => [true]
  | .writeTail _ buf => [buf.isSome]
  | _ => []

/-- Between two reads nothing is passed or allocated. -/
theorem Flow.readAgain_eq {F F' : Flow} {again : U32 → ReadPc}
    (ha : ∀ t, again t = .readTail ∨ again t = .readHead t) (h : F.readAgain again = some F') :
    F'.committed = F.committed ∧ F'.taken = F.taken ∧ F'.rx.passes = [] ∧
      F'.rx.allocated = F.rx.allocated := by
  unfold Flow.readAgain at h
  split at h
  · rename_i ret hrx
    obtain rfl := Option.some.inj h
    exact ⟨rfl, rfl, rfl, by rw [hrx]; rfl⟩
  · rename_i tail hrx
    obtain rfl := Option.some.inj h
    rw [hrx]
    rcases ha tail with e | e <;> exact ⟨rfl, rfl, by rw [e]; rfl, by rw [e]; rfl⟩
  · exact absurd h (by simp)

section

variable {c : ReadCfg} {maxLen start : Nat} {F : Flow} {p : Option (Frame × PushPc)}

theorem FlowInv.not_isBad (h : FlowInv c maxLen start F p) : F.rx.isBad = false := by
  have hrx := h.read
  cases hpc : F.rx with
  | recover head =>
    rw [hpc] at hrx
    exact absurd hrx id
  | done ret =>
    rw [hpc] at hrx
    cases ret with
    | bad => exact absurd rfl hrx
    | _ => rfl
  | _ => rfl

theorem FlowInv.holds (h : FlowInv c maxLen start F p) : Holds c.ring F.mem F.live :=
  ⟨F.tailPos start, h.tail, by rw [← F.headPos_eq]; exact h.head, h.room, h.laid⟩

end

/-! ## To the firmware -/

/-- The ring to the firmware with its producer and its consumer. -/
structure ToFw where
  flow : Flow
  /-- the call of `esp_shm_push` in progress -/
  tx : Option (Frame × PushPc)
  /-- the frames of the calls that returned true -/
  pushed : List Frame

/-- What can happen next. -/
inductive ToFwAct where
  /-- `esp_shm_push` is called, for a new frame or once more -/
  | call (f : Frame)
  | push (chunk : Nat)
  /-- `esp_shm_push` returns -/
  | ret
  /-- `esp_shm_tx_flush` sets WAIT between two calls -/
  | setWait
  | read (chunk : Nat) (mem : Bool)
  /-- `shm_read` is called again, or looks again after the semaphore -/
  | again

namespace ToFw

/-- The frames of the successful pushes: they returned true, or stored the head and will. -/
def successful (s : ToFw) : List Frame := s.pushed ++ storedFrame s.tx

def step : ToFwAct → ToFw → Option ToFw
  | .call f, s =>
    match s.tx with
    | none =>
      if 12 ≤ f.length ∧ f.length ≤ shmToFwFrameMax then some { s with tx := some (f, .readHead) }
      else none
    | some _ => none
  | .push chunk, s =>
    match s.tx with
    | some (f, pc) => some { s with
        flow := (s.flow.push toFw (espShmPush f) f chunk pc).1
        tx := some (f, (s.flow.push toFw (espShmPush f) f chunk pc).2) }
    | none => none
  | .ret, s =>
    match s.tx with
    | some (f, .done ok _) =>
      some { s with tx := none, pushed := if ok then s.pushed ++ [f] else s.pushed }
    | _ => none
  | .setWait, s =>
    match s.tx with
    | none => some { s with flow := { s.flow with mem := { s.flow.mem with wait := 1 } } }
    | some _ => none
  | .read chunk mem, s => some { s with flow := s.flow.read shmRead chunk mem }
  | .again, s => (s.flow.readAgain .readHead).map fun F => { s with flow := F }

/-- Head and tail are equal, no call is in progress, nothing happened yet. -/
structure Start (s : ToFw) : Prop where
  words : s.flow.mem.tail = s.flow.mem.head
  rx : s.flow.rx = .readTail
  tx : s.tx = none
  fresh : s.flow.committed = [] ∧ s.flow.taken = [] ∧ s.flow.returned = [] ∧ s.pushed = []

/-- **The ring to the firmware as a machine.** -/
def machine : Machine ToFwAct ToFw := ⟨Start, step⟩

/-- The invariant: the one of the flow, no record is passed without a buffer, and the committed
frames are those of the successful pushes. -/
structure Inv (start : Nat) (s : ToFw) : Prop where
  flow : FlowInv shmRead shmToFwFrameMax start s.flow s.tx
  call : ∀ f pc, s.tx = some (f, pc) → Sized shmToFwFrameMax f
  taken : ∀ b ∈ s.flow.taken ++ s.flow.rx.passes, b = true
  committed : s.flow.committed = s.successful

theorem Start.inv {s : ToFw} (h : Start s) : Inv s.flow.mem.head.toNat s := by
  obtain ⟨⟨m, rx, cm, tk, rt⟩, tx, ps⟩ := s
  obtain ⟨hw, rfl, rfl, rfl, rfl, rfl, rfl⟩ := h
  exact ⟨.init m hw, fun _ _ e => absurd e (by simp), fun _ hb => absurd hb List.not_mem_nil, rfl⟩

/-- The firmware goes on to the store of the tail only with a buffer. -/
theorem passes_shmRead (chunk : Nat) (mem : Bool) (m : RingMem) (pc : ReadPc) :
    ∀ b ∈ (readStep shmRead chunk mem m pc).2.passes, b = true := by
  have hnil : ∀ b ∈ ([] : List Bool), b = true := fun _ h => absurd h List.not_mem_nil
  cases pc with
  | readHead tail =>
    simp only [readStep]
    split <;> exact hnil
  | readLen head tail got todo =>
    cases todo with
    | nil =>
      simp only [readStep]
      split <;> exact hnil
    | cons o os => exact hnil
  | alloc tail len => cases mem <;> exact hnil
  | copyOut tail len got todo =>
    cases todo with
    | nil => exact fun b h => List.mem_singleton.mp h
    | cons o os => exact hnil
  | readWait tail buf =>
    simp only [readStep]
    split
    · cases buf <;> exact hnil
    · exact hnil
  | ring tail buf => cases buf <;> exact hnil
  | _ => exact hnil

theorem Inv.step {start : Nat} {a : ToFwAct} {s s' : ToFw} (h : Inv start s)
    (hs : ToFw.step a s = some s') : Inv start s' := by
  have hcm := h.committed
  cases a with
  | call f =>
    cases htx : s.tx with
    | none =>
      simp only [ToFw.step, htx] at hs
      split at hs
      · rename_i hf
        obtain rfl := Option.some.inj hs
        refine ⟨h.flow.setPush fun g pc e => ?_, fun g pc e => ?_, h.taken, ?_⟩
        · obtain ⟨rfl, rfl⟩ := Prod.mk.inj (Option.some.inj e)
          trivial
        · obtain ⟨rfl, rfl⟩ := Prod.mk.inj (Option.some.inj e)
          exact hf
        · rw [successful, htx] at hcm
          exact hcm
      · exact absurd hs (by simp)
    | some x =>
      simp only [ToFw.step, htx] at hs
      exact absurd hs (by simp)
  | push chunk =>
    cases htx : s.tx with
    | none =>
      simp only [ToFw.step, htx] at hs
      exact absurd hs (by simp)
    | some x =>
      obtain ⟨f, pc⟩ := x
      have hf := h.call f pc htx
      have hflow := h.flow
      rw [htx] at hflow
      simp only [ToFw.step, htx, Option.some.injEq] at hs
      subst hs
      rw [successful, htx] at hcm
      refine ⟨hflow.stepPush shmRead_fits (espShmPush_carries (shmRead_fits.width_le hf)) hf,
        fun g pc' e => ?_, h.taken, s.flow.committed_push toFw (espShmPush f) f chunk pc hcm⟩
      obtain ⟨rfl, -⟩ := Prod.mk.inj (Option.some.inj e)
      exact hf
  | ret =>
    simp only [ToFw.step] at hs
    split at hs
    · rename_i f ok kick htx
      obtain rfl := Option.some.inj hs
      refine ⟨h.flow.setPush fun _ _ e => absurd e (by simp), fun _ _ e => absurd e (by simp),
        h.taken, ?_⟩
      rw [successful, htx] at hcm
      cases ok
      · exact hcm
      · exact hcm.trans (List.append_nil _).symm
    · exact absurd hs (by simp)
  | setWait =>
    cases htx : s.tx with
    | none =>
      have hflow := h.flow
      rw [htx] at hflow
      rw [successful, htx] at hcm
      simp only [ToFw.step, htx, Option.some.injEq] at hs
      subst hs
      exact ⟨hflow.setWait 1, fun _ _ e => absurd e (by simp), h.taken, hcm⟩
    | some x =>
      simp only [ToFw.step, htx] at hs
      exact absurd hs (by simp)
  | read chunk mem =>
    obtain rfl := Option.some.inj hs
    refine ⟨h.flow.stepRead shmRead_fits, h.call, fun b hb => ?_, hcm⟩
    rcases List.mem_append.mp hb with hb | hb
    · exact h.taken b hb
    · exact passes_shmRead chunk mem _ _ b hb
  | again =>
    obtain ⟨F, hF, rfl⟩ := Option.map_eq_some_iff.mp hs
    obtain ⟨e1, e2, e3, -⟩ := Flow.readAgain_eq (fun _ => .inr rfl) hF
    refine ⟨h.flow.readAgain (fun _ => .inr rfl) hF, h.call, fun b hb => ?_, e1.trans hcm⟩
    rw [e2, e3, List.append_nil] at hb
    exact h.taken b (List.mem_append_left _ hb)

theorem Inv.of_reach {s : ToFw} (h : machine.Reach s) : ∃ start, Inv start s :=
  h.invariant (I := fun s => ∃ start, Inv start s) (fun _ h0 => ⟨_, Start.inv h0⟩)
    fun _ _ _ _ ⟨start, hi⟩ _ hs => ⟨start, hi.step hs⟩

end ToFw

/-! ## To Linux -/

/-- The frame that a finished call of `shm_write` put into the ring, by its result. -/
def callFrame (x : Option TxFrame) (ret : Int) : List Frame :=
  if ret = espFail then [] else (x.map TxFrame.bytes).toList

/-- The frame of the call that has stored the head. -/
def WritePc.stored : WritePc → List Frame
  | .push1 x pc | .push2 x pc => storedFrame (some (x.bytes, pc))
  | .kick x _ => [x.bytes]
  | .done x ret => callFrame x ret
  | _ => []

/-- The frame whose head store comes next. -/
def WritePc.commits : WritePc → List Frame
  | .push1 x pc | .push2 x pc => if pc.commits then [x.bytes] else []
  | _ => []

/-- The push of the call in progress, with its frame. -/
def WritePc.pushing (w : WritePc) : Option (Frame × PushPc) :=
  w.push.map fun x => (x.1.bytes, x.2)

/-- The frame of the call in progress. -/
def WritePc.frame : WritePc → Option TxFrame
  | .push1 x _ | .setWait x | .push2 x _ | .time x | .take x => some x
  | _ => none

/-- The result of the allocation in this step. -/
def ReadPc.allocs (mem : Bool) : ReadPc → List Bool
  | .alloc _ _ => [mem]
  | _ => []

/-- The ring to Linux with its producer and its consumer. -/
structure ToHost where
  flow : Flow
  tx : WritePc
  /-- the calls of `shm_write` that returned: the frame and the result -/
  calls : List (Option TxFrame × Int)
  /-- the results of the allocations of `esp_shm_read` -/
  allocs : List Bool

/-- What can happen next. -/
inductive ToHostAct where
  | call (handle : Bool) (buf : Option BufferHandle)
  | write (chunk : Nat) (expired : Bool)
  /-- `shm_write` returns -/
  | ret
  | read (chunk : Nat) (mem : Bool)
  /-- `esp_shm_read` is called again -/
  | again

namespace ToHost

/-- The frames of the calls that returned their length, or stored the head and will. -/
def successful (s : ToHost) : List Frame :=
  s.calls.flatMap (fun x => callFrame x.1 x.2) ++ s.tx.stored

def step (hb : HeaderBytes) : ToHostAct → ToHost → Option ToHost
  | .call handle buf, s =>
    match s.tx with
    | .idle => some { s with tx := shmWrite hb handle buf }
    | _ => none
  | .write chunk expired, s => some { s with
      flow := { s.flow with
        mem := (writeStep chunk expired s.flow.mem s.tx).1
        committed := s.flow.committed ++ s.tx.commits }
      tx := (writeStep chunk expired s.flow.mem s.tx).2 }
  | .ret, s =>
    match s.tx with
    | .done x ret => some { s with tx := .idle, calls := s.calls ++ [(x, ret)] }
    | _ => none
  | .read chunk mem, s => some { s with
      flow := s.flow.read espShmRead chunk mem
      allocs := s.allocs ++ s.flow.rx.allocs mem }
  | .again, s => (s.flow.readAgain fun _ => .readTail).map fun F => { s with flow := F }

/-- Head and tail are equal, no call is in progress, nothing happened yet. -/
structure Start (s : ToHost) : Prop where
  words : s.flow.mem.tail = s.flow.mem.head
  rx : s.flow.rx = .readTail
  tx : s.tx = .idle
  fresh : s.flow.committed = [] ∧ s.flow.taken = [] ∧ s.flow.returned = [] ∧ s.calls = [] ∧
    s.allocs = []

/-- **The ring to Linux as a machine.** -/
def machine (hb : HeaderBytes) : Machine ToHostAct ToHost := ⟨Start, step hb⟩

/-- The invariant: the one of the flow, each flag of a passed record is the result of its
allocation, and the committed frames are those of the calls that returned their length. -/
structure Inv (start : Nat) (s : ToHost) : Prop where
  flow : FlowInv espShmRead shmToHostFrameMax start s.flow s.tx.pushing
  frame : ∀ x, s.tx.frame = some x → Sized shmToHostFrameMax x.bytes
  rets : ∀ x ∈ s.calls, x.2 = espFail ∨ ∃ y, x.1 = some y ∧ x.2 = y.payload.length
  ret : ∀ x ret, s.tx = .done x ret → ret = espFail ∨ ∃ y, x = some y ∧ ret = y.payload.length
  allocs : s.allocs = s.flow.taken ++ s.flow.rx.allocated
  committed : s.flow.committed = s.successful

theorem Start.inv {s : ToHost} (h : Start s) : Inv s.flow.mem.head.toNat s := by
  obtain ⟨⟨m, rx, cm, tk, rt⟩, tx, cs, al⟩ := s
  obtain ⟨hw, rfl, rfl, rfl, rfl, rfl, rfl, rfl⟩ := h
  exact ⟨.init m hw, fun _ e => absurd e (by simp [WritePc.frame]),
    fun _ hx => absurd hx List.not_mem_nil, fun _ _ e => absurd e (by simp), rfl, rfl⟩

/-- **One allocation for each record**: what a step of the consumer allocates is what it then has
for the record, or the flag of the record that it passes. -/
theorem allocated_readStep (chunk : Nat) (mem : Bool) (m : RingMem) (pc : ReadPc) :
    pc.allocated ++ pc.allocs mem =
      pc.passes ++ (readStep espShmRead chunk mem m pc).2.allocated := by
  cases pc with
  | readHead tail =>
    simp only [readStep]
    split <;> rfl
  | readLen head tail got todo =>
    cases todo with
    | nil =>
      simp only [readStep]
      split <;> rfl
    | cons o os => rfl
  | alloc tail len => cases mem <;> rfl
  | copyOut tail len got todo => cases todo <;> rfl
  | readWait tail buf =>
    simp only [readStep]
    split
    · cases buf <;> rfl
    · rfl
  | ring tail buf => cases buf <;> rfl
  | _ => rfl

/-- A step that is a step of the push. -/
theorem Inv.stepPush {start chunk : Nat} {s : ToHost} {x : TxFrame} {pc : PushPc} {tx : WritePc}
    (h : Inv start s) (hp : s.tx.pushing = some (x.bytes, pc))
    (hs : s.tx.stored = storedFrame (some (x.bytes, pc))) (hf : s.tx.frame = some x)
    (hp' : tx.pushing = some (x.bytes, (pushStep toHost x.push chunk s.flow.mem pc).2))
    (hs' : tx.stored = storedFrame (some (x.bytes, (pushStep toHost x.push chunk s.flow.mem pc).2)))
    (hf' : tx.frame = some x) :
    Inv start { s with
      flow := { s.flow with
        mem := (pushStep toHost x.push chunk s.flow.mem pc).1
        committed := s.flow.committed ++ if pc.commits then [x.bytes] else [] }
      tx := tx } := by
  have hsz := h.frame x hf
  have hflow := h.flow
  rw [hp] at hflow
  have hcm := h.committed
  rw [successful, hs] at hcm
  have hcarry : x.push.Carries toHost x.bytes :=
    ringPush_carries (espShmRead_fits.width_le hsz)
  have e : (s.flow.push toHost x.push x.bytes chunk pc).1 = { s.flow with
      mem := (pushStep toHost x.push chunk s.flow.mem pc).1
      committed := s.flow.committed ++ if pc.commits then [x.bytes] else [] } := by
    unfold Flow.push
    cases pc.commits
    · simp only [Bool.false_eq_true, if_false, List.append_nil]
    · rfl
  rw [← e]
  refine ⟨?_, fun y hy => ?_, h.rets, fun y ret hy => ?_, h.allocs, ?_⟩
  · show FlowInv _ _ _ _ tx.pushing
    rw [hp']
    exact hflow.stepPush espShmRead_fits hcarry hsz
  · exact Option.some.inj (hf'.symm.trans hy) ▸ hsz
  · obtain rfl : tx = _ := hy
    exact absurd hf' (by simp [WritePc.frame])
  · show _ = s.calls.flatMap _ ++ tx.stored
    rw [hs']
    exact s.flow.committed_push toHost x.push x.bytes chunk pc hcm

/-- A step of `shm_write` outside a push. -/
theorem Inv.setTx {start : Nat} {s : ToHost} (w : U32) {tx : WritePc} (h : Inv start s)
    (hp : tx.pushing = none ∨ ∃ f, tx.pushing = some (f, .readHead))
    (hs : tx.stored = s.tx.stored) (hf : ∀ x, tx.frame = some x → s.tx.frame = some x)
    (hr : ∀ x ret, tx = .done x ret → ret = espFail ∨ ∃ y, x = some y ∧ ret = y.payload.length) :
    Inv start { s with
      flow := { s.flow with
        mem := { s.flow.mem with wait := w }
        committed := s.flow.committed ++ [] }
      tx := tx } := by
  rw [List.append_nil]
  refine ⟨(h.flow.setWait w).setPush fun f pc e => ?_, fun x hx => h.frame x (hf x hx), h.rets, hr,
    h.allocs, ?_⟩
  · rcases hp with hp | ⟨g, hp⟩
    · exact absurd (hp.symm.trans e) (by simp)
    · obtain ⟨rfl, rfl⟩ := Prod.mk.inj (Option.some.inj (hp.symm.trans e))
      trivial
  · show s.flow.committed = s.calls.flatMap _ ++ tx.stored
    rw [hs]
    exact h.committed

theorem Inv.stepWrite {start chunk : Nat} {expired : Bool} {s : ToHost} (h : Inv start s) :
    Inv start { s with
      flow := { s.flow with
        mem := (writeStep chunk expired s.flow.mem s.tx).1
        committed := s.flow.committed ++ s.tx.commits }
      tx := (writeStep chunk expired s.flow.mem s.tx).2 } := by
  have hret := h.ret
  cases htx : s.tx with
  | idle =>
    exact h.setTx s.flow.mem.wait (.inl rfl) (by rw [htx]; rfl) (fun _ e => absurd e nofun) nofun
  | push1 x pc =>
    have hpush (hp : ∀ ok k, pc ≠ .done ok k) : Inv start { s with
        flow := { s.flow with
          mem := (writeStep chunk expired s.flow.mem (.push1 x pc)).1
          committed := s.flow.committed ++ WritePc.commits (.push1 x pc) }
        tx := (writeStep chunk expired s.flow.mem (.push1 x pc)).2 } := by
      rw [writeStep_push1 hp]
      exact h.stepPush (by rw [htx]; rfl) (by rw [htx]; rfl) (by rw [htx]; rfl) rfl rfl rfl
    cases pc with
    | done ok k =>
      cases ok with
      | true =>
        exact h.setTx s.flow.mem.wait (.inl rfl) (by rw [htx]; rfl) (fun _ e => absurd e nofun)
          nofun
      | false =>
        exact h.setTx s.flow.mem.wait (.inl rfl) (by rw [htx]; rfl)
          (fun _ e => by rw [htx]; exact e) nofun
    | _ => exact hpush (by nofun)
  | setWait x =>
    exact h.setTx 1 (.inr ⟨x.bytes, rfl⟩) (by rw [htx]; rfl) (fun _ e => by rw [htx]; exact e) nofun
  | push2 x pc =>
    have hpush (hp : ∀ ok k, pc ≠ .done ok k) : Inv start { s with
        flow := { s.flow with
          mem := (writeStep chunk expired s.flow.mem (.push2 x pc)).1
          committed := s.flow.committed ++ WritePc.commits (.push2 x pc) }
        tx := (writeStep chunk expired s.flow.mem (.push2 x pc)).2 } := by
      rw [writeStep_push2 hp]
      exact h.stepPush (by rw [htx]; rfl) (by rw [htx]; rfl) (by rw [htx]; rfl) rfl rfl rfl
    cases pc with
    | done ok k =>
      cases ok with
      | true =>
        exact h.setTx s.flow.mem.wait (.inl rfl) (by rw [htx]; rfl) (fun _ e => absurd e nofun)
          nofun
      | false =>
        exact h.setTx s.flow.mem.wait (.inl rfl) (by rw [htx]; rfl)
          (fun _ e => by rw [htx]; exact e) nofun
    | _ => exact hpush (by nofun)
  | time x =>
    cases expired with
    | true =>
      refine h.setTx s.flow.mem.wait (.inl rfl) (by rw [htx]; rfl) (fun _ e => absurd e nofun)
        fun y ret e => .inl ?_
      exact (WritePc.done.inj e).2.symm
    | false =>
      exact h.setTx s.flow.mem.wait (.inl rfl) (by rw [htx]; rfl)
        (fun _ e => by rw [htx]; exact e) nofun
  | take x =>
    exact h.setTx s.flow.mem.wait (.inr ⟨x.bytes, rfl⟩) (by rw [htx]; rfl)
      (fun _ e => by rw [htx]; exact e) nofun
  | kick x k =>
    have hst : callFrame (some x) x.payload.length = [x.bytes] :=
      if_neg (by unfold espFail; omega)
    refine h.setTx s.flow.mem.wait (.inl rfl) (by rw [htx]; exact hst)
      (fun _ e => absurd e nofun) fun y ret e => .inr ⟨x, ?_⟩
    exact ⟨(WritePc.done.inj e).1.symm, (WritePc.done.inj e).2.symm⟩
  | done x ret =>
    exact h.setTx s.flow.mem.wait (.inl rfl) (by rw [htx]; rfl) (fun _ e => absurd e nofun)
      (fun y r e => hret y r (htx.trans e))

theorem Inv.step {start : Nat} {hb : HeaderBytes} {a : ToHostAct} {s s' : ToHost}
    (h : Inv start s) (hs : ToHost.step hb a s = some s') : Inv start s' := by
  have hcm := h.committed
  cases a with
  | call handle buf =>
    simp only [ToHost.step] at hs
    split at hs
    · rename_i htx
      obtain rfl := Option.some.inj hs
      rw [successful, htx] at hcm
      unfold shmWrite
      split
      · rename_i x hx
        have hlen := length_of_writeArgs hx
        refine ⟨h.flow.setPush fun f pc e => ?_, fun y e => ?_, h.rets, nofun, h.allocs, hcm⟩
        · obtain ⟨rfl, rfl⟩ := Prod.mk.inj (Option.some.inj e)
          trivial
        · obtain rfl := Option.some.inj e
          exact hlen
      · refine ⟨h.flow.setPush nofun, nofun, h.rets, fun x ret e => .inl ?_, h.allocs, hcm⟩
        exact (WritePc.done.inj e).2.symm
    · exact absurd hs (by simp)
  | write chunk expired =>
    obtain rfl := Option.some.inj hs
    exact h.stepWrite
  | ret =>
    simp only [ToHost.step] at hs
    split at hs
    · rename_i x ret htx
      obtain rfl := Option.some.inj hs
      refine ⟨h.flow.setPush nofun, nofun, fun y hy => ?_, nofun, h.allocs, ?_⟩
      · rcases List.mem_append.mp hy with hy | hy
        · exact h.rets y hy
        · rw [List.mem_singleton.mp hy]
          exact h.ret x ret htx
      · rw [successful, htx] at hcm
        show _ = List.flatMap _ (s.calls ++ [(x, ret)]) ++ []
        rw [hcm, List.flatMap_append, List.flatMap_singleton, List.append_nil]
        rfl
    · exact absurd hs (by simp)
  | read chunk mem =>
    obtain rfl := Option.some.inj hs
    refine ⟨h.flow.stepRead espShmRead_fits, h.frame, h.rets, h.ret, ?_, hcm⟩
    show s.allocs ++ s.flow.rx.allocs mem = s.flow.taken ++ s.flow.rx.passes ++ _
    rw [h.allocs, List.append_assoc, List.append_assoc, allocated_readStep chunk mem s.flow.mem]
    rfl
  | again =>
    obtain ⟨F, hF, rfl⟩ := Option.map_eq_some_iff.mp hs
    obtain ⟨e1, e2, -, e4⟩ := Flow.readAgain_eq (fun _ => .inl rfl) hF
    refine ⟨h.flow.readAgain (fun _ => .inl rfl) hF, h.frame, h.rets, h.ret, ?_, e1.trans hcm⟩
    show s.allocs = F.taken ++ F.rx.allocated
    rw [e2, e4]
    exact h.allocs

theorem Inv.of_reach {hb : HeaderBytes} {s : ToHost} (h : (machine hb).Reach s) :
    ∃ start, Inv start s :=
  h.invariant (I := fun s => ∃ start, Inv start s) (fun _ h0 => ⟨_, Start.inv h0⟩)
    fun _ _ _ _ ⟨start, hi⟩ _ hs => ⟨start, hi.step hs⟩

end ToHost

/-! ## The result -/

/-- **Ring delivery.** In every reachable state of either ring, what the consumer returned is a
prefix of the frames of the successful pushes (to Linux: of those that got a buffer), the consumer
is not in the branch for a bad length, and the ring holds exactly the successful frames behind those
that the consumer passed; a call of `shm_write` that returned the error put nothing there, one that
returned put its frame there once. -/
theorem ring_delivery :
    (∀ s, ToFw.machine.Reach s → s.flow.returned <+: s.successful ∧ s.flow.rx.isBad = false ∧
      Holds toFw s.flow.mem (s.successful.drop s.flow.taken.length)) ∧
    (∀ hb s, (ToHost.machine hb).Reach s →
      s.flow.returned <+: keptBy s.allocs s.successful ∧ s.flow.rx.isBad = false ∧
      Holds toHost s.flow.mem (s.successful.drop s.flow.taken.length) ∧
      ∀ x ∈ s.calls, x.2 = espFail ∨ ∃ y, x.1 = some y ∧ x.2 = y.payload.length) := by
  refine ⟨fun s h => ?_, fun hb s h => ?_⟩
  · obtain ⟨start, hi⟩ := ToFw.Inv.of_reach h
    have htk : ∀ b ∈ s.flow.taken, b = true := fun b hb => hi.taken b (List.mem_append_left _ hb)
    rw [← hi.committed]
    refine ⟨?_, hi.flow.not_isBad, hi.flow.holds⟩
    have hp : s.flow.returned <+: s.flow.committed.take s.flow.taken.length := by
      rw [← keptBy_of_all htk, show keptBy _ _ = _ from hi.flow.kept]
      exact List.prefix_append _ _
    exact hp.trans (List.take_prefix _ _)
  · obtain ⟨start, hi⟩ := ToHost.Inv.of_reach h
    rw [← hi.committed]
    refine ⟨?_, hi.flow.not_isBad, hi.flow.holds, hi.rets⟩
    have hp : s.flow.returned <+: keptBy s.flow.taken s.flow.committed := by
      rw [show keptBy _ _ = _ from hi.flow.kept]
      exact List.prefix_append _ _
    rw [hi.allocs]
    exact hp.trans (keptBy_isPref _ _ _)

/-- An unused ring, with its counters at `start`. -/
def blank (start : U32) : RingMem := ⟨start, start, 0, fun _ => 0⟩

/-- A frame that is only a header. -/
def bareFrame : Frame := List.replicate 12 7

/-- One frame to the firmware, from counters just below `2 ^ 32`: the record and the counters wrap.
-/
def toFwRun : List ToFwAct :=
  [.call bareFrame, .push 0, .push 0, .push 99, .push 0, .push 0, .ret, .setWait,
    .read 0 true, .read 0 true, .read 99 true, .read 0 true, .read 0 true, .read 99 true,
    .read 0 true, .read 0 true, .read 0 true, .read 0 true, .read 0 true, .again]

/-- One frame to Linux, which has no memory for it. -/
def toHostRun : List ToHostAct :=
  [.call true (some ⟨0, 0, 0, 0, some [1]⟩), .write 0 false, .write 0 false, .write 99 false,
    .write 0 false, .write 0 false, .write 0 false, .write 0 false, .ret,
    .read 0 true, .read 0 true, .read 99 true, .read 0 true, .read 0 false, .read 0 true,
    .read 0 true, .read 0 true, .again]

/-- Both runs happen, and the result holds at their ends: the firmware has returned its frame, Linux
has left the frame out. -/
theorem ring_delivery_runs :
    (∃ s, ToFw.machine.run toFwRun ⟨⟨blank (-8), .readTail, [], [], []⟩, none, []⟩ = some s ∧
      s.flow.returned = [bareFrame] ∧ [bareFrame] <+: s.successful) ∧
    (∃ s, (ToHost.machine fun _ => Vector.replicate 12 7).run toHostRun
        ⟨⟨blank (-8), .readTail, [], [], []⟩, .idle, [], []⟩ = some s ∧
      s.calls.map (·.2) = [1] ∧ s.flow.returned <+: keptBy s.allocs s.successful) := by
  have h1 : (ToFw.machine.run toFwRun
      ⟨⟨blank (-8), .readTail, [], [], []⟩, none, []⟩).map (·.flow.returned) =
        some [bareFrame] := by
    decide +kernel
  have h2 : ((ToHost.machine fun _ => Vector.replicate 12 7).run toHostRun
      ⟨⟨blank (-8), .readTail, [], [], []⟩, .idle, [], []⟩).map (·.calls.map (·.2)) = some [1] := by
    decide +kernel
  obtain ⟨s, hs, hr⟩ := Option.map_eq_some_iff.mp h1
  obtain ⟨t, ht, hc⟩ := Option.map_eq_some_iff.mp h2
  refine ⟨⟨s, hs, hr, ?_⟩, t, ht, hc, ?_⟩
  · rw [← hr]
    exact (ring_delivery.1 s (Machine.Reach.run (.init ⟨rfl, rfl, rfl, rfl, rfl, rfl, rfl⟩) hs)).1
  · exact (ring_delivery.2 _ t
      (Machine.Reach.run (.init ⟨rfl, rfl, rfl, rfl, rfl, rfl, rfl, rfl⟩) ht)).1

end Esp32S31.Shm
