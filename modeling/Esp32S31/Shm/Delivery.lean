import Esp32S31.Shm.Record
import Esp32S31.Shm.Write
import Esp32S31.Lib.Machine

/-!
# A ring delivers its frames

One ring with its producer and its consumer, interleaved at every access. `Flow` is the ring, the
consumer and three records of the past: the frames whose push stored the head (`committed`), for
each record that the consumer passed whether it got a buffer (`taken`), and the frames that it
returned.

The unbounded positions of head and tail are the start plus what the committed and the passed
records take (`headPos`, `tailPos`). `FlowInv` is what holds at every step: the words are these
positions modulo `2 ^ 32`, the records that the consumer did not pass yet lie one after the other
between them (`Laid`), the pending byte stores of a push are in the free part and will put its
record at the head (`PushOk`), and what the consumer has read so far, with what it will read, is the
first of these records (`ReadOk`). `FlowInv.push` and `FlowInv.read` are the two step lemmas.
-/

namespace Esp32S31.Shm

open Esp32S31.Lib Circular

/-- A frame: payload header and payload. -/
abbrev Frame := List UInt8

/-- The step of a push that makes the record visible: the store of `head`. -/
def PushPc.commits : PushPc → Bool
  | .copyIn _ [] => true
  | _ => false

/-- The step of a read that passes a record: the store of `tail`, with or without a buffer. -/
def ReadPc.passes : ReadPc → List Bool
  | .writeTail _ buf => [buf.isSome]
  | _ => []

/-- The frame that a read has passed and not returned yet. -/
def ReadPc.inFlight : ReadPc → List Frame
  | .readWait _ buf | .clearWait _ buf | .ring _ buf => buf.toList
  | .done (.frame bytes) => [bytes]
  | _ => []

/-- The frames that got a buffer, one flag for each from the first. -/
def keptBy : List Bool → List Frame → List Frame
  | b :: bs, f :: fs => if b then f :: keptBy bs fs else keptBy bs fs
  | _, _ => []

theorem keptBy_append : ∀ {bs : List Bool} {fs : List Frame} (gs : List Frame),
    bs.length ≤ fs.length → keptBy bs (fs ++ gs) = keptBy bs fs
  | [], [], gs, _ => by cases gs <;> rfl
  | [], _ :: _, _, _ => rfl
  | b :: bs, f :: fs, gs, h => by
    simp only [List.cons_append, keptBy, keptBy_append gs (Nat.le_of_succ_le_succ h)]

theorem keptBy_snoc : ∀ {bs : List Bool} {fs : List Frame} {f : Frame} {rest : List Frame}
    (b : Bool),
    fs.drop bs.length = f :: rest → keptBy (bs ++ [b]) fs = keptBy bs fs ++ if b then [f] else []
  | [], _ :: _, _, _, b, h => by
    obtain ⟨rfl, rfl⟩ := List.cons.inj h
    simp only [List.nil_append, keptBy]
  | c :: bs, g :: fs, f, rest, b, h => by
    simp only [List.cons_append, keptBy, keptBy_snoc b (show fs.drop bs.length = f :: rest from h)]
    cases c <;> rfl

theorem keptBy_isPref : ∀ (bs cs : List Bool) (fs : List Frame), keptBy bs fs <+: keptBy
    (bs ++ cs) fs
  | [], _, fs => by cases fs <;> exact List.nil_prefix
  | _ :: _, _, [] => List.nil_prefix
  | b :: bs, cs, f :: fs => by
    have ih := keptBy_isPref bs cs fs
    cases b
    · exact ih
    · exact List.cons_prefix_cons.mpr ⟨rfl, ih⟩

/-- With a buffer for every frame, nothing is left out. -/
theorem keptBy_of_all : ∀ {bs : List Bool} {fs : List Frame}, (∀ b ∈ bs, b = true) →
    keptBy bs fs = fs.take bs.length
  | [], fs, _ => by cases fs <;> rfl
  | _ :: _, [], _ => rfl
  | b :: bs, f :: fs, h => by
    obtain rfl := h b List.mem_cons_self
    have ih : keptBy bs fs = _ := keptBy_of_all fun c hc => h c (List.mem_cons_of_mem _ hc)
    simp only [keptBy, if_true, ih, List.length_cons, List.take_succ_cons]

/-- A ring with its consumer, and what happened so far. -/
structure Flow where
  mem : RingMem
  rx : ReadPc
  committed : List Frame
  taken : List Bool
  returned : List Frame

namespace Flow

/-- One step of a push of the frame `f`. -/
def push (F : Flow) (r : ShmRing) (q : PushReq) (f : Frame) (chunk : Nat) (pc : PushPc) :
    Flow × PushPc :=
  ({ F with
      mem := (pushStep r q chunk F.mem pc).1
      committed := if pc.commits then F.committed ++ [f] else F.committed },
    (pushStep r q chunk F.mem pc).2)

/-- One step of the consumer. -/
def read (F : Flow) (c : ReadCfg) (chunk : Nat) (mem : Bool) : Flow :=
  { F with
    mem := (readStep c chunk mem F.mem F.rx).1
    rx := (readStep c chunk mem F.mem F.rx).2
    taken := F.taken ++ F.rx.passes }

/-- The consumer is called again after a return, or looks again after an empty ring (`again`). -/
def readAgain (F : Flow) (again : U32 → ReadPc) : Option Flow :=
  match F.rx with
  | .done ret =>
    some { F with rx := .readTail, returned := F.returned ++ (ReadPc.done ret).inFlight }
  | .empty tail => some { F with rx := again tail }
  | _ => none

/-- The records that the consumer passed. -/
def passed (F : Flow) : List Frame := F.committed.take F.taken.length

/-- The records in the ring. -/
def live (F : Flow) : List Frame := F.committed.drop F.taken.length

/-- The passed frames that got a buffer. -/
def kept (F : Flow) : List Frame := keptBy F.taken F.committed

variable (start : Nat) (F : Flow)

/-- The unbounded tail. -/
def tailPos : Nat := start + span width F.passed

/-- The unbounded head. -/
def headPos : Nat := start + span width F.committed

theorem headPos_eq : F.headPos start = F.tailPos start + span width F.live := by
  conv_lhs => rw [headPos, ← List.take_append_drop F.taken.length F.committed, span_append]
  rw [tailPos, Nat.add_assoc]
  rfl

/-- The head store of a push of `f`. -/
def commit (f : Frame) (head : U32) : Flow :=
  { F with mem := { F.mem with head := head }, committed := F.committed ++ [f] }

/-- The tail store of a read, with or without a buffer. -/
def pass (b : Bool) (tail : U32) : Flow :=
  { F with mem := { F.mem with tail := tail }, taken := F.taken ++ [b] }

section Commit

variable {F} (h : F.taken.length ≤ F.committed.length) (f : Frame) (head : U32)

include h

theorem passed_commit : (F.commit f head).passed = F.passed := List.take_append_of_le_length h

theorem live_commit : (F.commit f head).live = F.live ++ [f] := List.drop_append_of_le_length h

theorem tailPos_commit : (F.commit f head).tailPos start = F.tailPos start := by
  rw [tailPos, passed_commit h, tailPos]

theorem kept_commit : (F.commit f head).kept = F.kept := keptBy_append [f] h

end Commit

theorem headPos_commit (f : Frame) (head : U32) :
    (F.commit f head).headPos start = F.headPos start + width f := by
  simp only [headPos, commit, span_append, span_cons, span_nil, Nat.add_assoc, Nat.add_zero]

section Pass

variable {F} {f : Frame} {rest : List Frame} (h : F.live = f :: rest) (b : Bool) (tail : U32)

include h

theorem lt_of_live : F.taken.length < F.committed.length := by
  have := congrArg List.length h
  simp only [live, List.length_drop, List.length_cons] at this
  omega

theorem passed_pass : (F.pass b tail).passed = F.passed ++ [f] := by
  have hget : F.committed[F.taken.length]? = some f := by
    rw [← List.head?_drop]
    exact congrArg List.head? h
  show F.committed.take (F.taken ++ [b]).length = _
  rw [List.length_append, List.length_singleton, List.take_add_one, hget]
  rfl

theorem live_pass : (F.pass b tail).live = rest := by
  show F.committed.drop (F.taken ++ [b]).length = rest
  rw [List.length_append, List.length_singleton, ← List.drop_drop]
  exact congrArg (List.drop 1) h

theorem tailPos_pass : (F.pass b tail).tailPos start = F.tailPos start + width f := by
  rw [tailPos, passed_pass h, span_append, span_cons, span_nil, tailPos, Nat.add_assoc,
    Nat.add_zero]

theorem kept_pass : (F.pass b tail).kept = F.kept ++ if b then [f] else [] := keptBy_snoc b h

end Pass

end Flow

/-! ## The two sides at each point -/

/-- Both frame limits of a direction. -/
def Sized (maxLen : Nat) (f : Frame) : Prop := 12 ≤ f.length ∧ f.length ≤ maxLen

/-- What holds of a push of `f` at each point, with the unbounded head `h` and tail `t`. -/
def PushOk (r : ShmRing) (f : Frame) (data : Nat → UInt8) (h t : Nat) : PushPc → Prop
  | .readTail head => head = .ofNat 32 h
  | .copyIn head todo => head = .ofNat 32 h ∧ h + width f ≤ t + r.area ∧
      InWindow r.area h (h + width f) todo ∧ At r.area (put data todo) h (record f)
  | _ => True

/-- The cells still to load belong to records in the ring. -/
def InLive (r : ShmRing) (t : Nat) (live : List Frame) (todo : List Nat) : Prop :=
  ∀ o ∈ todo, ∃ a, t ≤ a ∧ a < t + span width live ∧ o = a % r.area

/-- What holds of a read at each point, with the unbounded tail `t` and the records in the ring. -/
def ReadOk (r : ShmRing) (data : Nat → UInt8) (t : Nat) (live : List Frame) : ReadPc → Prop
  | .readTail => True
  | .readHead tail | .empty tail | .readWait tail _ | .clearWait tail _ | .ring tail _ =>
    tail = .ofNat 32 t
  | .readLen head tail got todo => tail = .ofNat 32 t ∧ InLive r t live todo ∧
      ∃ f rest, live = f :: rest ∧ width f ≤ (head - tail).toNat ∧
        got ++ todo.map data = U32.toBytes (.ofNat 32 f.length)
  | .recover _ => False
  | .alloc tail len => tail = .ofNat 32 t ∧ ∃ f rest, live = f :: rest ∧ len = .ofNat 32 f.length
  | .copyOut tail len got todo => tail = .ofNat 32 t ∧ InLive r t live todo ∧
      ∃ f rest, live = f :: rest ∧ len = .ofNat 32 f.length ∧ got ++ todo.map data = f
  | .writeTail tail buf => ∃ f rest, live = f :: rest ∧ tail = .ofNat 32 (t + width f) ∧
      (buf = none ∨ buf = some f)
  | .done ret => ret ≠ .bad

/-- A read does not see stores outside the records in the ring. -/
theorem ReadOk.congr {r : ShmRing} {data data' : Nat → UInt8} {t : Nat} {live : List Frame}
    (hd : ∀ a, t ≤ a → a < t + span width live → data' (a % r.area) = data (a % r.area))
      {pc : ReadPc}
    (h : ReadOk r data t live pc) : ReadOk r data' t live pc := by
  have hmap : ∀ todo, InLive r t live todo → todo.map data' = todo.map data := fun todo hl =>
    List.map_congr_left fun o ho => by
      obtain ⟨a, h1, h2, rfl⟩ := hl o ho
      exact hd a h1 h2
  cases pc with
  | readLen head tail got todo =>
    obtain ⟨ht, hl, f, rest, hf, hw, e⟩ := h
    exact ⟨ht, hl, f, rest, hf, hw, by rw [hmap todo hl]; exact e⟩
  | copyOut tail len got todo =>
    obtain ⟨ht, hl, f, rest, hf, hlen, e⟩ := h
    exact ⟨ht, hl, f, rest, hf, hlen, by rw [hmap todo hl]; exact e⟩
  | _ => exact h

/-- A read does not mind a new record behind those in the ring. -/
theorem ReadOk.snoc {r : ShmRing} {data : Nat → UInt8} {t : Nat} {live : List Frame} (g : Frame)
    {pc : ReadPc} (h : ReadOk r data t live pc) : ReadOk r data t (live ++ [g]) pc := by
  have hin : ∀ todo, InLive r t live todo → InLive r t (live ++ [g]) todo := fun todo hl o ho => by
    obtain ⟨a, h1, h2, e⟩ := hl o ho
    exact ⟨a, h1, by rw [span_append]; omega, e⟩
  cases pc with
  | readLen head tail got todo =>
    obtain ⟨ht, hl, f, rest, rfl, hw, e⟩ := h
    exact ⟨ht, hin todo hl, f, rest ++ [g], rfl, hw, e⟩
  | alloc tail len =>
    obtain ⟨ht, f, rest, rfl, hlen⟩ := h
    exact ⟨ht, f, rest ++ [g], rfl, hlen⟩
  | copyOut tail len got todo =>
    obtain ⟨ht, hl, f, rest, rfl, hlen, e⟩ := h
    exact ⟨ht, hin todo hl, f, rest ++ [g], rfl, hlen, e⟩
  | writeTail tail buf =>
    obtain ⟨f, rest, rfl, ht, hb⟩ := h
    exact ⟨f, rest ++ [g], rfl, ht, hb⟩
  | _ => exact h

/-- The cells of a part of the first record are cells of the records in the ring. -/
theorem inLive_cells {r : ShmRing} {t p k : Nat} {f : Frame} {rest : List Frame} (hp : t ≤ p)
    (hk : p + k ≤ t + width f) : InLive r t (f :: rest) (cells r.area p k) := by
  induction k generalizing p with
  | zero => exact fun _ h => absurd h List.not_mem_nil
  | succ k ih =>
    intro o ho
    rcases List.mem_cons.mp ho with rfl | ho
    · exact ⟨p, hp, by rw [span_cons]; omega, rfl⟩
    · exact ih (by omega) (by omega) o ho

/-! ## The invariant -/

/-- **The invariant of one ring.** `p` is the push in progress and its frame. -/
structure FlowInv (c : ReadCfg) (maxLen start : Nat) (F : Flow) (p : Option (Frame × PushPc)) :
    Prop where
  count : F.taken.length ≤ F.committed.length
  sized : ∀ f ∈ F.committed, Sized maxLen f
  head : F.mem.head = .ofNat 32 (F.headPos start)
  tail : F.mem.tail = .ofNat 32 (F.tailPos start)
  room : span width F.live ≤ c.ring.area
  laid : Laid width record c.ring.area F.mem.data (F.tailPos start) F.live
  push : ∀ f pc, p = some (f, pc) →
    PushOk c.ring f F.mem.data (F.headPos start) (F.tailPos start) pc
  read : ReadOk c.ring F.mem.data (F.tailPos start) F.live F.rx
  kept : F.kept = F.returned ++ F.rx.inFlight

/-- The limits of a direction: the consumer's check lets a largest frame through, and the ring can
hold one. -/
structure Fits (c : ReadCfg) (maxLen : Nat) : Prop where
  check : maxLen ≤ c.frameMax.toNat
  ring : maxLen + 7 ≤ c.ring.area

theorem espShmRead_fits : Fits espShmRead shmToHostFrameMax := ⟨by decide, by decide⟩

theorem shmRead_fits : Fits shmRead shmToFwFrameMax := ⟨by decide, by decide⟩

section Invariant

variable {c : ReadCfg} {maxLen start : Nat}

theorem Fits.width_le (hfit : Fits c maxLen) {f : Frame} (hs : Sized maxLen f) :
    width f ≤ c.ring.area := by
  have h1 := hfit.ring
  have h2 := hs.2
  rw [width]
  omega

theorem Fits.length_lt (hfit : Fits c maxLen) {f : Frame} (hs : Sized maxLen f) :
    f.length < 2 ^ 31 := by
  obtain ⟨k, hk, e⟩ := c.ring.pow2
  have h1 := hfit.ring
  have h2 := hs.2
  have h3 : 2 ^ k ≤ 2 ^ 31 := Nat.pow_le_pow_right (by omega) hk
  have h4 : c.ring.area = 2 ^ k := e
  omega

/-- An empty ring, with head and tail at any place. -/
theorem FlowInv.init (m : RingMem) (h : m.tail = m.head) :
    FlowInv c maxLen m.head.toNat ⟨m, .readTail, [], [], []⟩ none where
  count := Nat.le_refl _
  sized := fun _ h => absurd h List.not_mem_nil
  head := by simp [Flow.headPos]
  tail := by simp [Flow.tailPos, Flow.passed, h]
  room := by simp [Flow.live]
  laid := trivial
  push := fun _ _ h => absurd h (by simp)
  read := trivial
  kept := rfl

/-- What a push does besides its own place: nothing in the invariant needs it. -/
theorem FlowInv.setPush {F : Flow} {p : Option (Frame × PushPc)} (h : FlowInv c maxLen start F p)
    {p' : Option (Frame × PushPc)} (hp : ∀ f pc, p' = some (f, pc) →
      PushOk c.ring f F.mem.data (F.headPos start) (F.tailPos start) pc) :
    FlowInv c maxLen start F p' :=
  { h with push := hp }

/-- WAIT does not matter. -/
theorem FlowInv.setWait {F : Flow} {p : Option (Frame × PushPc)} (h : FlowInv c maxLen start F p)
    (w : U32) : FlowInv c maxLen start { F with mem := { F.mem with wait := w } } p :=
  ⟨h.count, h.sized, h.head, h.tail, h.room, h.laid, h.push, h.read, h.kept⟩

/-- The free bytes that a push computes from the words. -/
theorem FlowInv.free {F : Flow} {p : Option (Frame × PushPc)} (h : FlowInv c maxLen start F p) :
    (c.ring.size - (BitVec.ofNat 32 (F.headPos start) - F.mem.tail)).toNat =
      c.ring.area - span width F.live := by
  have hroom := h.room
  have hlt := c.ring.area_lt
  have he := F.headPos_eq start
  have hd : (BitVec.ofNat 32 (F.headPos start) - F.mem.tail).toNat = span width F.live := by
    rw [h.tail, U32.toNat_ofNat_sub (by omega) (by omega)]
    omega
  rw [BitVec.toNat_sub_of_le (by rw [BitVec.le_def, hd]; exact hroom), hd]

/-- **A step of a push keeps the invariant.** -/
theorem FlowInv.stepPush {F : Flow} (hfit : Fits c maxLen) {q : PushReq} {f : Frame}
    (hq : q.Carries c.ring f) (hs : Sized maxLen f) {chunk : Nat} {pc : PushPc}
    (h : FlowInv c maxLen start F (some (f, pc))) :
    FlowInv c maxLen start (F.push c.ring q f chunk pc).1
      (some (f, (F.push c.ring q f chunk pc).2)) := by
  have hpc := h.push f pc rfl
  have hlen : (recordLen q.len).toNat = width f := by
    rw [hq.len, toNat_recordLen_ofNat (hfit.length_lt hs)]
  cases pc with
  | readHead =>
    refine h.setPush fun g pc e => ?_
    obtain ⟨rfl, rfl⟩ := Prod.mk.inj (Option.some.inj e)
    exact h.head
  | readTail head =>
    obtain rfl : head = _ := hpc
    unfold Flow.push pushStep
    by_cases hlt : c.ring.size - (BitVec.ofNat 32 (F.headPos start) - F.mem.tail) < recordLen q.len
    · simp only [if_pos hlt]
      exact h.setPush fun g pc e => by
        obtain ⟨rfl, rfl⟩ := Prod.mk.inj (Option.some.inj e)
        trivial
    · simp only [if_neg hlt]
      rw [BitVec.lt_def, h.free, hlen] at hlt
      have hroom := h.room
      have he := F.headPos_eq start
      refine h.setPush fun g pc e => ?_
      obtain ⟨rfl, rfl⟩ := Prod.mk.inj (Option.some.inj e)
      exact ⟨rfl, by omega, hq.window _, hq.lands _ _⟩
  | copyIn head todo =>
    obtain ⟨rfl, hfree, hwin, hat⟩ := hpc
    have he := F.headPos_eq start
    cases todo with
    | nil =>
      have hd := Flow.live_commit h.count f (.ofNat 32 (F.headPos start) + recordLen q.len)
      have ht := Flow.tailPos_commit start h.count f (.ofNat 32 (F.headPos start) + recordLen q.len)
      have hh := F.headPos_commit start f (.ofNat 32 (F.headPos start) + recordLen q.len)
      show FlowInv c maxLen start (F.commit f (.ofNat 32 (F.headPos start) + recordLen q.len)) _
      refine ⟨?_, ?_, ?_, ?_, ?_, ?_, ?_, ?_, ?_⟩
      · simp only [Flow.commit, List.length_append]
        exact Nat.le_trans h.count (Nat.le_add_right _ _)
      · intro g hg
        rcases List.mem_append.mp hg with hg | hg
        · exact h.sized g hg
        · rw [List.mem_singleton.mp hg]
          exact hs
      · rw [hh, BitVec.ofNat_add, ← hlen, BitVec.ofNat_toNat, BitVec.setWidth_eq]
        rfl
      · rw [ht]
        exact h.tail
      · rw [hd, span_append, span_cons, span_nil]
        omega
      · rw [hd, ht, laid_append, ← he]
        exact ⟨h.laid, hat, trivial⟩
      · intro g pc e
        obtain ⟨rfl, rfl⟩ := Prod.mk.inj (Option.some.inj e)
        trivial
      · rw [hd, ht]
        exact h.read.snoc f
      · rw [Flow.kept_commit h.count]
        exact h.kept
    | cons w ws =>
      set ws' := (w :: ws).take (chunk + 1)
      have hsub : InWindow c.ring.area (F.headPos start) (F.headPos start + width f) ws' :=
        hwin.sub fun v hv => List.mem_of_mem_take hv
      have hdata : ∀ a, F.tailPos start ≤ a → a < F.tailPos start + span width F.live →
          put F.mem.data ws' (a % c.ring.area) = F.mem.data (a % c.ring.area) := fun a h1 h2 =>
        put_of_not_mem ws' _ fun v hv => by
          obtain ⟨b, h3, h4, e⟩ := hsub v hv
          rw [e]
          exact (mod_ne (by omega) (by omega)).symm
      refine ⟨h.count, h.sized, h.head, h.tail, h.room, ?_, ?_, ?_, h.kept⟩
      · exact (laid_put_window length_record_le hsub F.live (F.tailPos start) (by omega)
          (by omega)).mpr h.laid
      · intro g pc e
        obtain ⟨rfl, rfl⟩ := Prod.mk.inj (Option.some.inj e)
        refine ⟨rfl, hfree, hwin.sub fun v hv => List.mem_of_mem_drop hv, ?_⟩
        show At _ (put (put F.mem.data ws') _) _ _
        rw [← put_append, List.take_append_drop]
        exact hat
      · exact h.read.congr hdata
  | readTailAgain head =>
    exact h.setPush fun g pc e => by
      obtain ⟨rfl, rfl⟩ := Prod.mk.inj (Option.some.inj e)
      trivial
  | done ok kick => exact h

/-- A push does not mind a tail further on. -/
theorem PushOk.mono {r : ShmRing} {f : Frame} {data : Nat → UInt8} {h t t' : Nat} (ht : t ≤ t')
    {pc : PushPc} (hp : PushOk r f data h t pc) : PushOk r f data h t' pc := by
  cases pc with
  | copyIn head todo => exact ⟨hp.1, Nat.le_trans hp.2.1 (by omega), hp.2.2⟩
  | _ => exact hp

/-- What a read does besides passing a record: only its own place changes. -/
theorem FlowInv.setRead {F : Flow} {p : Option (Frame × PushPc)} (h : FlowInv c maxLen start F p)
    {pc : ReadPc} (hr : ReadOk c.ring F.mem.data (F.tailPos start) F.live pc)
    (hk : pc.inFlight = F.rx.inFlight) : FlowInv c maxLen start { F with rx := pc } p :=
  ⟨h.count, h.sized, h.head, h.tail, h.room, h.laid, h.push, hr, by rw [hk]; exact h.kept⟩

/-- The words differ only while there is a record. -/
theorem FlowInv.live_ne {F : Flow} {p : Option (Frame × PushPc)} (h : FlowInv c maxLen start F p)
    (hne : F.mem.head ≠ BitVec.ofNat 32 (F.tailPos start)) : ∃ f rest, F.live = f :: rest := by
  cases hl : F.live with
  | nil =>
    have he := F.headPos_eq start
    rw [hl, span_nil, Nat.add_zero] at he
    exact absurd (by rw [h.head, he]) hne
  | cons f rest => exact ⟨f, rest, rfl⟩

section First

variable {F : Flow} {p : Option (Frame × PushPc)} (h : FlowInv c maxLen start F p) {f : Frame}
  {rest : List Frame} (hl : F.live = f :: rest)

include h hl

theorem FlowInv.sized_first : Sized maxLen f :=
  h.sized f (List.mem_of_mem_drop (hl ▸ List.mem_cons_self : f ∈ F.live))

/-- The length word of the first record. -/
theorem FlowInv.length_at : At c.ring.area F.mem.data (F.tailPos start)
    (U32.toBytes (.ofNat 32 f.length)) := by
  have := h.laid
  rw [hl] at this
  exact ((at_append _ _ _ _).mp this.1).1

/-- The bytes of the first frame. -/
theorem FlowInv.frame_at : At c.ring.area F.mem.data (F.tailPos start + 4) f := by
  have := h.laid
  rw [hl] at this
  exact ((at_append _ _ _ _).mp this.1).2

theorem FlowInv.width_first : width f ≤ (F.mem.head - BitVec.ofNat 32 (F.tailPos start)).toNat := by
  have he := F.headPos_eq start
  have hroom := h.room
  have hlt := c.ring.area_lt
  rw [h.head, U32.toNat_ofNat_sub (by omega) (by omega), he, hl, span_cons]
  omega

/-- **The length check lets the first record through.** -/
theorem FlowInv.not_badLen (hfit : Fits c maxLen) {head tail : U32}
    (hw : width f ≤ (head - tail).toNat) : ¬ badLen c head tail (.ofNat 32 f.length) := by
  have hs := h.sized_first hl
  have hlen := hfit.length_lt hs
  have hrec := toNat_recordLen_ofNat hlen
  have hcheck := hfit.check
  have hof : (BitVec.ofNat 32 f.length).toNat = f.length := by
    rw [BitVec.toNat_ofNat, Nat.mod_eq_of_lt (by omega)]
  have h12 : payloadHeaderLen.toNat = 12 := rfl
  unfold badLen
  rw [BitVec.lt_def, BitVec.lt_def, BitVec.lt_def, hof, hrec, h12]
  have := hs.1
  have := hs.2
  omega

/-- **The store of the new tail passes the first record.** -/
theorem FlowInv.pass (hfl : F.rx.inFlight = []) {tail : U32}
    (ht : tail = .ofNat 32 (F.tailPos start + width f)) {buf : Option (List UInt8)}
    (hb : buf = none ∨ buf = some f) :
    FlowInv c maxLen start { F.pass buf.isSome tail with rx := .readWait tail buf } p := by
  have hd := Flow.live_pass hl buf.isSome tail
  have hp := Flow.tailPos_pass start hl buf.isSome tail
  have hlaid := h.laid
  have hroom := h.room
  rw [hl] at hlaid hroom
  rw [span_cons] at hroom
  have hkept : (F.pass buf.isSome tail).kept = F.returned ++ buf.toList := by
    rw [Flow.kept_pass hl, h.kept, hfl, List.append_nil]
    rcases hb with rfl | rfl <;> rfl
  have hcnt := Flow.lt_of_live hl
  refine ⟨?_, h.sized, h.head, ?_, ?_, ?_, ?_, ht.trans (by rw [← hp]; rfl), hkept⟩
  · show (F.taken ++ [buf.isSome]).length ≤ F.committed.length
    rw [List.length_append, List.length_singleton]
    omega
  · exact ht.trans (by rw [← hp]; rfl)
  · show span width (F.pass buf.isSome tail).live ≤ _
    rw [hd]
    omega
  · show Laid width record _ _ ((F.pass buf.isSome tail).tailPos start)
      (F.pass buf.isSome tail).live
    rw [hd, hp]
    exact hlaid.2
  · intro g pc e
    show PushOk _ _ _ _ ((F.pass buf.isSome tail).tailPos start) _
    rw [hp]
    exact (h.push g pc e).mono (Nat.le_add_right _ _)

end First

theorem ReadPc.inFlight_readNext (tail : U32) (buf : Option (List UInt8)) :
    (readNext tail buf).inFlight = buf.toList := by
  cases buf <;> rfl

theorem ReadOk.readNext {r : ShmRing} {data : Nat → UInt8} {t : Nat} {live : List Frame}
    {tail : U32}
    {buf : Option (List UInt8)} (ht : tail = .ofNat 32 t) : ReadOk r data t live
      (readNext tail buf) := by
  cases buf with
  | none => exact ht
  | some bytes => exact fun e => absurd e (by simp)

/-- Part of the loads stays in the records. -/
theorem InLive.drop {r : ShmRing} {t : Nat} {live : List Frame} {todo : List Nat} (k : Nat)
    (h : InLive r t live todo) : InLive r t live (todo.drop k) := fun o ho =>
  h o (List.mem_of_mem_drop ho)

/-- A copy that has moved on has the same bytes in the end. -/
theorem map_take_drop (data : Nat → UInt8) (got : List UInt8) (todo : List Nat) (k : Nat) :
    got ++ (todo.take k).map data ++ (todo.drop k).map data = got ++ todo.map data := by
  rw [List.append_assoc, ← List.map_append, List.take_append_drop]

theorem Flow.read_eq {F : Flow} {chunk : Nat} {mem : Bool} (h : F.rx.passes = []) :
    F.read c chunk mem = { F with
      mem := (readStep c chunk mem F.mem F.rx).1
      rx := (readStep c chunk mem F.mem F.rx).2 } := by
  rw [Flow.read, h, List.append_nil]

/-- **A step of the consumer keeps the invariant.** -/
theorem FlowInv.stepRead {F : Flow} (hfit : Fits c maxLen) {p : Option (Frame × PushPc)}
    {chunk : Nat} {mem : Bool} (h : FlowInv c maxLen start F p) :
    FlowInv c maxLen start (F.read c chunk mem) p := by
  have hrx := h.read
  cases hpc : F.rx with
  | readTail =>
    rw [Flow.read_eq (by rw [hpc]; rfl), hpc]
    exact h.setRead h.tail (by rw [hpc]; rfl)
  | readHead tail =>
    rw [hpc] at hrx
    obtain rfl : tail = _ := hrx
    rw [Flow.read_eq (by rw [hpc]; rfl), hpc, readStep]
    by_cases he : F.mem.head = BitVec.ofNat 32 (F.tailPos start)
    · simp only [if_pos he]
      exact h.setRead rfl (by rw [hpc]; rfl)
    · simp only [if_neg he]
      obtain ⟨f, rest, hl⟩ := h.live_ne he
      have h4 : (4 : U32).toNat ≤ c.ring.area := Nat.le_trans (by decide) (hfit.width_le
        (h.sized_first hl) |> Nat.le_trans (Nat.le_add_right 4 _))
      have hcells : ringCopyOut c.ring (.ofNat 32 (F.tailPos start)) 4 =
          cells c.ring.area (F.tailPos start) 4 := by
        rw [ringCopyOut_eq h4, cells_congr _ (c.ring.ofNat_mod_area _)]
        rfl
      have hw := h.width_first hl
      refine h.setRead ⟨rfl, ?_, f, rest, hl, hw, ?_⟩ (by rw [hpc]; rfl)
      · rw [hcells, hl]
        exact inLive_cells (Nat.le_refl _) (Nat.add_le_add_left (Nat.le_add_right 4 _) _)
      · rw [hcells]
        exact (map_cells_iff _ _ _).mpr (h.length_at hl)
  | empty tail =>
    rw [hpc] at hrx
    rw [Flow.read_eq (by rw [hpc]; rfl), hpc]
    exact h.setRead hrx (by rw [hpc]; rfl)
  | readLen head tail got todo =>
    rw [hpc] at hrx
    obtain ⟨ht, hlive, f, rest, hl, hw, e⟩ := hrx
    rw [Flow.read_eq (by rw [hpc]; rfl), hpc]
    cases todo with
    | nil =>
      have hlen : U32.ofBytes got = .ofNat 32 f.length := by
        rw [← U32.ofBytes_toBytes (.ofNat 32 f.length), ← e, List.map_nil, List.append_nil]
      simp only [readStep, hlen, if_neg (h.not_badLen hl hfit hw)]
      exact h.setRead ⟨ht, f, rest, hl, rfl⟩ (by rw [hpc]; rfl)
    | cons o os =>
      exact h.setRead ⟨ht, hlive.drop _, f, rest, hl, hw, by rw [map_take_drop]; exact e⟩
        (by rw [hpc]; rfl)
  | recover head =>
    rw [hpc] at hrx
    exact absurd hrx id
  | alloc tail len =>
    rw [hpc] at hrx
    obtain ⟨rfl, f, rest, hl, rfl⟩ := hrx
    have hs := h.sized_first hl
    have hlt := hfit.length_lt hs
    have hof : (BitVec.ofNat 32 f.length).toNat = f.length := by
      rw [BitVec.toNat_ofNat, Nat.mod_eq_of_lt (by omega)]
    have hwide : 4 + f.length ≤ width f := by rw [width]; omega
    rw [Flow.read_eq (by rw [hpc]; rfl), hpc, readStep]
    cases mem with
    | true =>
      have hcells : ringCopyOut c.ring (.ofNat 32 (F.tailPos start) + 4) (.ofNat 32 f.length) =
          cells c.ring.area (F.tailPos start + 4) f.length := by
        have := hfit.width_le hs
        rw [ringCopyOut_eq (by omega), hof]
        exact cells_congr _ (toNat_add_ofNat_mod (F.tailPos start) 4)
      refine h.setRead ⟨rfl, ?_, f, rest, hl, rfl, ?_⟩ (by rw [hpc]; rfl)
      · rw [hcells, hl]
        exact inLive_cells (Nat.le_add_right _ _) (by omega)
      · rw [hcells]
        exact (map_cells_iff _ _ _).mpr (h.frame_at hl)
    | false =>
      simp only [Bool.false_eq_true, if_false]
      split
      · refine h.setRead ⟨f, rest, hl, ?_, .inl rfl⟩ (by rw [hpc]; rfl)
        rw [BitVec.ofNat_add, ← toNat_recordLen_ofNat hlt, BitVec.ofNat_toNat, BitVec.setWidth_eq]
      · exact h.setRead (fun e => absurd e (by simp)) (by rw [hpc]; rfl)
  | copyOut tail len got todo =>
    rw [hpc] at hrx
    obtain ⟨rfl, hlive, f, rest, hl, rfl, e⟩ := hrx
    rw [Flow.read_eq (by rw [hpc]; rfl), hpc]
    cases todo with
    | nil =>
      rw [List.map_nil, List.append_nil] at e
      refine h.setRead ⟨f, rest, hl, ?_, .inr (by rw [e])⟩ (by rw [hpc]; rfl)
      rw [BitVec.ofNat_add, ← toNat_recordLen_ofNat (hfit.length_lt (h.sized_first hl)),
        BitVec.ofNat_toNat, BitVec.setWidth_eq]
    | cons o os =>
      exact h.setRead ⟨rfl, hlive.drop _, f, rest, hl, rfl, by rw [map_take_drop]; exact e⟩
        (by rw [hpc]; rfl)
  | writeTail tail buf =>
    rw [hpc] at hrx
    obtain ⟨f, rest, hl, ht, hb⟩ := hrx
    have := h.pass hl (by rw [hpc]; rfl) ht hb
    unfold Flow.read
    rw [hpc]
    exact this
  | readWait tail buf =>
    rw [hpc] at hrx
    rw [Flow.read_eq (by rw [hpc]; rfl), hpc, readStep]
    split
    · exact h.setRead (ReadOk.readNext hrx) (by rw [hpc, ReadPc.inFlight_readNext]; rfl)
    · exact h.setRead hrx (by rw [hpc]; rfl)
  | clearWait tail buf =>
    rw [hpc] at hrx
    rw [Flow.read_eq (by rw [hpc]; rfl), hpc]
    exact (h.setWait 0).setRead hrx (by rw [hpc]; rfl)
  | ring tail buf =>
    rw [hpc] at hrx
    rw [Flow.read_eq (by rw [hpc]; rfl), hpc]
    exact h.setRead (ReadOk.readNext hrx) (by rw [hpc]; exact ReadPc.inFlight_readNext tail buf)
  | done ret =>
    rw [hpc] at hrx
    rw [Flow.read_eq (by rw [hpc]; rfl), hpc]
    exact h.setRead hrx (by rw [hpc]; rfl)

/-- A new call, or another look at an empty ring. -/
theorem FlowInv.readAgain {F F' : Flow} {p : Option (Frame × PushPc)}
    (h : FlowInv c maxLen start F p) {again : U32 → ReadPc}
    (ha : ∀ t, again t = .readTail ∨ again t = .readHead t)
    (hF : F.readAgain again = some F') : FlowInv c maxLen start F' p := by
  have hrx := h.read
  have hk := h.kept
  cases hpc : F.rx with
  | done ret =>
    simp only [Flow.readAgain, hpc, Option.some.injEq] at hF
    subst hF
    exact ⟨h.count, h.sized, h.head, h.tail, h.room, h.laid, h.push, trivial, by
      rw [hpc] at hk
      exact hk.trans (List.append_nil _).symm⟩
  | empty tail =>
    simp only [Flow.readAgain, hpc, Option.some.injEq] at hF
    subst hF
    rw [hpc] at hrx
    rcases ha tail with e | e
    · exact h.setRead (by rw [e]; trivial) (by rw [hpc, e]; rfl)
    · exact h.setRead (by rw [e]; exact hrx) (by rw [hpc, e]; rfl)
  | _ =>
    simp only [Flow.readAgain, hpc] at hF
    exact absurd hF (by simp)

end Invariant

end Esp32S31.Shm
