import Esp32S31.Lib.Machine
import Esp32S31.Shm.Record
import Esp32S31.Shm.Sides

/-!
# A read against a hostile producer

One call of `esp_shm_read` or `shm_read` while the other side may change every word and byte of its
ring between any two accesses. The ghost state remembers what the call loaded last and what it did
so far (`Access`).

* `ReadPc.Checked`: the invariant, what the length check has established at each point of the call.
* `Hostile.rank`: what is left to do while the head stays.
* **`corrupt_ring`**: the call stays in its ring and in its buffers, gives back no more than it was
  offered, and ends.
-/

namespace Esp32S31.Shm

open Esp32S31.Lib Circular

/-! ## The machine -/

/-- What a read does to the ring and to its own buffers. -/
inductive Access where
  /-- load a byte of the data area -/
  | load (off : Nat)
  /-- store byte `k` of the variable `len` -/
  | putLen (k : Nat)
  /-- store byte `k` of the buffer of `len` bytes -/
  | putFrame (len : U32) (k : Nat)
  /-- store TAIL, with the tail before the record and the head loaded last -/
  | setTail (old head new : U32)
  deriving DecidableEq, Repr

/-- One call, with the tail and the head that it compared last, and what it did. -/
structure Hostile where
  mem : RingMem
  pc : ReadPc
  old : U32
  seen : U32
  trace : List Access

inductive HostileAct where
  /-- the call goes on -/
  | read (chunk : Nat) (mem : Bool)
  /-- the other side changes the ring -/
  | other (mem : RingMem)

/-- The call has returned, or has found no record. -/
def ReadPc.final : ReadPc → Bool
  | .empty _ | .done _ => true
  | _ => false

/-- The next part of a copy, and where its bytes go. -/
def copied (put : Nat → Access) (chunk : Nat) (got : List UInt8) (todo : List Nat) : List Access :=
  (todo.take (chunk + 1)).map .load ++
    (List.range' got.length (todo.take (chunk + 1)).length).map put

/-- What the next step does. -/
def accesses (old seen : U32) (chunk : Nat) : ReadPc → List Access
  | .readLen _ _ got todo => copied .putLen chunk got todo
  | .copyOut _ len got todo => copied (.putFrame len) chunk got todo
  | .recover head => [.setTail old seen head]
  | .writeTail tail _ => [.setTail old seen tail]
  | _ => []

/-- The tail and the head after the next step. -/
def compared (old seen head : U32) : ReadPc → U32 × U32
  | .readHead tail => (tail, head)
  | _ => (old, seen)

def Hostile.read (c : ReadCfg) (chunk : Nat) (mem : Bool) (s : Hostile) : Hostile where
  mem := (readStep c chunk mem s.mem s.pc).1
  pc := (readStep c chunk mem s.mem s.pc).2
  old := (compared s.old s.seen s.mem.head s.pc).1
  seen := (compared s.old s.seen s.mem.head s.pc).2
  trace := s.trace ++ accesses s.old s.seen chunk s.pc

/-- A call begins, or the firmware is back from its semaphore. -/
def Hostile.Start (s : Hostile) : Prop :=
  (s.pc = .readTail ∨ ∃ tail, s.pc = .readHead tail) ∧ s.trace = []

/-- **The call and the other side.** -/
def hostile (c : ReadCfg) : Machine HostileAct Hostile where
  init := Hostile.Start
  step
    | .read chunk mem, s => if s.pc.final then none else some (s.read c chunk mem)
    | .other mem, s => some { s with mem := mem }

/-- The head no longer changes. -/
def Steady : HostileAct → Hostile → Prop
  | .read _ _, _ => True
  | .other mem, s => mem.head = s.mem.head

instance : ∀ a s, Decidable (Steady a s)
  | .read _ _, _ => .isTrue trivial
  | .other mem, s => inferInstanceAs (Decidable (mem.head = s.mem.head))

/-- The steps of the call. -/
def HostileAct.weight : HostileAct → Nat
  | .read _ _ => 1
  | .other _ => 0

/-- Loads are in the data area, stores in their buffer, whose length has passed the check, and TAIL
moves on by at most what was offered. -/
def Access.Safe (c : ReadCfg) : Access → Prop
  | .load off => off < c.ring.area
  | .putLen k => k < 4
  | .putFrame len k => k < len.toNat ∧ payloadHeaderLen ≤ len ∧ len ≤ c.frameMax
  | .setTail old head new => ∃ n, n ≤ head - old ∧ new = old + n

/-! ## What the check establishes -/

/-- The largest frame fits in the ring. -/
structure ReadCfg.Bounded (c : ReadCfg) : Prop where
  len : 4 ≤ c.ring.area
  frame : c.frameMax.toNat ≤ c.ring.area
  small : c.frameMax.toNat < 2 ^ 31

theorem bounded_espShmRead : espShmRead.Bounded := ⟨by decide, by decide, by decide⟩

theorem bounded_shmRead : shmRead.Bounded := ⟨by decide, by decide, by decide⟩

variable {c : ReadCfg}

section Check

variable {old seen len : U32} (hb : c.Bounded) (h : ¬ badLen c seen old len)

include hb h

/-- The length is at most the largest frame, so neither sum of the check wraps. -/
theorem checked_len : payloadHeaderLen ≤ len ∧ len ≤ c.frameMax ∧ len.toNat ≤ c.ring.area := by
  unfold badLen at h
  rw [not_or, not_or, BitVec.not_lt, BitVec.not_lt] at h
  exact ⟨h.1, h.2.1, Nat.le_trans (BitVec.le_def.mp h.2.1) hb.frame⟩

/-- A record has at least 16 bytes, and at most what is there. -/
theorem checked_record : 16 ≤ (recordLen len).toNat ∧ recordLen len ≤ seen - old := by
  obtain ⟨hmin, hmax, -⟩ := checked_len hb h
  have hmin := BitVec.le_def.mp hmin
  have hmax := BitVec.le_def.mp hmax
  have hsmall := hb.small
  have h12 : payloadHeaderLen.toNat = 12 := rfl
  unfold badLen at h
  rw [not_or, not_or, BitVec.not_lt, BitVec.not_lt] at h
  refine ⟨?_, BitVec.not_lt.mp fun hn => h.2.2 hn⟩
  rw [toNat_recordLen (by omega)]
  omega

end Check

/-- What holds where the call is. -/
def ReadPc.Checked (c : ReadCfg) (old seen : U32) : ReadPc → Prop
  | .readLen head tail got todo =>
      head = seen ∧ tail = old ∧ seen ≠ old ∧ got.length + todo.length = 4 ∧
      ∀ o ∈ todo, o < c.ring.area
  | .recover head => head = seen
  | .alloc tail len => tail = old ∧ ¬ badLen c seen old len
  | .copyOut tail len got todo =>
      tail = old ∧ ¬ badLen c seen old len ∧ got.length + todo.length = len.toNat ∧
      ∀ o ∈ todo, o < c.ring.area
  | .writeTail tail _ => ∃ len, tail = old + recordLen len ∧ ¬ badLen c seen old len
  | _ => True

/-! ## One step -/

section Copy

variable {chunk n : Nat} {got : List UInt8} {todo : List Nat}

/-- What is copied and what is left make up the whole. -/
theorem copy_length (data : Nat → UInt8) (h : got.length + todo.length = n) :
    (got ++ (todo.take (chunk + 1)).map data).length + (todo.drop (chunk + 1)).length = n := by
  rw [List.length_append, List.length_map, List.length_take, List.length_drop]
  omega

/-- A part of a copy loads from the data area and stores inside the buffer of `n` bytes. -/
theorem copied_safe {put : Nat → Access} (hput : ∀ k < n, (put k).Safe c)
    (hlen : got.length + todo.length = n)
    (hoff : ∀ o ∈ todo, o < c.ring.area) : ∀ a ∈ copied put chunk got todo, a.Safe c := by
  intro a ha
  rcases List.mem_append.mp ha with ha | ha
  · obtain ⟨o, ho, rfl⟩ := List.mem_map.mp ha
    exact hoff o (List.mem_of_mem_take ho)
  · obtain ⟨k, hk, rfl⟩ := List.mem_map.mp ha
    have hk := (List.mem_range'_1.mp hk).2
    rw [List.length_take] at hk
    exact hput k (by omega)

/-- The copy of `len` bytes out of the ring has `len` loads, all from the data area. -/
theorem ringCopyOut_fits (c : ReadCfg) (pos : U32) {len : U32} (h : len.toNat ≤ c.ring.area) :
    (ringCopyOut c.ring pos len).length = len.toNat ∧
      ∀ o ∈ ringCopyOut c.ring pos len, o < c.ring.area := by
  rw [ringCopyOut_eq h]
  exact ⟨length_cells _ _, cells_lt c.ring.area_pos _ _⟩

end Copy

section Step

variable {old seen : U32} {chunk : Nat} {mem : Bool} {m : RingMem} {pc : ReadPc} (hb : c.Bounded)
  (h : pc.Checked c old seen)

include hb h

/-- **What the check establishes lasts**, whatever the ring holds at each step. -/
theorem ReadPc.Checked.step : (readStep c chunk mem m pc).2.Checked c
    (compared old seen m.head pc).1
    (compared old seen m.head pc).2 := by
  cases pc with
  | readTail => trivial
  | readHead tail =>
    simp only [readStep]
    split
    · trivial
    · rename_i hne
      obtain ⟨hlen, hoff⟩ := ringCopyOut_fits c
        tail (show (4 : U32).toNat ≤ c.ring.area from hb.len)
      refine ⟨rfl, rfl, hne, ?_, hoff⟩
      rw [hlen]
      rfl
  | readLen head tail got todo =>
    obtain ⟨rfl, rfl, hne, hlen, hoff⟩ := h
    cases todo with
    | nil =>
      simp only [readStep]
      split
      · rfl
      · rename_i hok
        exact ⟨rfl, hok⟩
    | cons o os =>
      exact ⟨rfl, rfl, hne, copy_length m.data hlen, fun x hx => hoff x (List.mem_of_mem_drop hx)⟩
  | alloc tail len =>
    obtain ⟨rfl, hok⟩ := h
    obtain ⟨hlen, hoff⟩ := ringCopyOut_fits c (tail + 4) (checked_len hb hok).2.2
    simp only [readStep]
    split
    · refine ⟨rfl, hok, ?_, hoff⟩
      rw [hlen, List.length_nil, Nat.zero_add]
    · split
      · exact ⟨len, rfl, hok⟩
      · trivial
  | copyOut tail len got todo =>
    obtain ⟨rfl, hok, hlen, hoff⟩ := h
    cases todo with
    | nil => exact ⟨len, rfl, hok⟩
    | cons o os =>
      exact ⟨rfl, hok, copy_length m.data hlen, fun x hx => hoff x (List.mem_of_mem_drop hx)⟩
  | readWait tail buf =>
    simp only [readStep]
    split
    · cases buf <;> trivial
    · trivial
  | ring tail buf => cases buf <;> trivial
  | _ => trivial

/-- What the next step does is safe. -/
theorem ReadPc.Checked.safe : ∀ a ∈ accesses old seen chunk pc, a.Safe c := by
  cases pc with
  | readLen head tail got todo =>
    obtain ⟨-, -, -, hlen, hoff⟩ := h
    exact copied_safe (fun _ hk => hk) hlen hoff
  | copyOut tail len got todo =>
    obtain ⟨-, hok, hlen, hoff⟩ := h
    obtain ⟨hmin, hmax, -⟩ := checked_len hb hok
    exact copied_safe (fun _ hk => ⟨hk, hmin, hmax⟩) hlen hoff
  | recover head =>
    intro a ha
    obtain rfl := List.mem_singleton.mp ha
    obtain rfl : head = seen := h
    exact ⟨head - old, BitVec.le_refl _, by rw [BitVec.add_comm, BitVec.sub_add_cancel]⟩
  | writeTail tail buf =>
    intro a ha
    obtain rfl := List.mem_singleton.mp ha
    obtain ⟨len, rfl, hok⟩ := h
    exact ⟨recordLen len, (checked_record hb hok).2, rfl⟩
  | _ => exact fun _ ha => absurd ha List.not_mem_nil

end Step

/-- **The invariant of a call.** -/
structure Hostile.Inv (c : ReadCfg) (s : Hostile) : Prop where
  checked : s.pc.Checked c s.old s.seen
  trace : ∀ a ∈ s.trace, a.Safe c

theorem Hostile.Start.inv {s : Hostile} (h : s.Start) : s.Inv c := by
  obtain ⟨hpc, ht⟩ := h
  constructor
  · rcases hpc with hpc | ⟨tail, hpc⟩
    · rw [hpc]
      trivial
    · rw [hpc]
      trivial
  · rw [ht]
    exact fun _ ha => absurd ha List.not_mem_nil

theorem Hostile.Inv.step {s s' : Hostile} {a : HostileAct} (hb : c.Bounded) (h : s.Inv c)
    (hs : (hostile c).step a s = some s') : s'.Inv c := by
  cases a with
  | read chunk mem =>
    have hs : (if s.pc.final then none else some (s.read c chunk mem)) = some s' := hs
    split at hs
    · exact absurd hs (by simp)
    · obtain rfl := Option.some.inj hs
      constructor
      · exact h.checked.step hb
      · intro a ha
        rcases List.mem_append.mp ha with ha | ha
        · exact h.trace a ha
        · exact h.checked.safe hb a ha
  | other mem =>
    obtain rfl := Option.some.inj hs
    exact ⟨h.checked, h.trace⟩

/-! ## The end of a call -/

/-- More steps than one record takes. -/
def recordSteps (c : ReadCfg) : Nat := c.frameMax.toNat + 16

/-- How far the head is ahead of the tail behind this record, at most: nothing is known when the
head has changed. -/
def ahead (head old seen : U32) : Nat := if seen = head then (head - old).toNat - 1 else 2 ^ 32

/-- At most so many steps are left while the head stays. -/
def ReadPc.rank (c : ReadCfg) (head old seen : U32) : ReadPc → Nat
  | .readTail => recordSteps c * 2 ^ 32 + 2
  | .readHead tail => recordSteps c * (head - tail).toNat + 1
  | .readLen _ _ _ todo => recordSteps c * ahead head old seen + c.frameMax.toNat + 8 + todo.length
  | .recover _ => 1
  | .alloc _ _ => recordSteps c * ahead head old seen + c.frameMax.toNat + 7
  | .copyOut _ _ _ todo => recordSteps c * ahead head old seen + 6 + todo.length
  | .writeTail tail _ => recordSteps c * (head - tail).toNat + 5
  | .readWait tail _ => recordSteps c * (head - tail).toNat + 4
  | .clearWait tail _ => recordSteps c * (head - tail).toNat + 3
  | .ring tail _ => recordSteps c * (head - tail).toNat + 2
  | .empty _ | .done _ => 0

/-- A record that passed the check brings the tail closer to the head. -/
theorem behind_le_ahead {old seen len : U32} (hb : c.Bounded) (h : ¬ badLen c seen old len)
    (head : U32) : (head - (old + recordLen len)).toNat ≤ ahead head old seen := by
  obtain ⟨hmin, hle⟩ := checked_record hb h
  unfold ahead
  split
  · rename_i he
    subst he
    have hle := BitVec.le_def.mp hle
    have hsub : (seen - (old + recordLen len)).toNat =
        (seen - old).toNat - (recordLen len).toNat := by
      rw [← BitVec.sub_sub, BitVec.toNat_sub_of_le (BitVec.le_def.mpr hle)]
    omega
  · exact Nat.le_of_lt (head - (old + recordLen len)).isLt

/-- The record at a tail that is not the head. -/
theorem ahead_lt {head tail : U32} (h : head ≠ tail) : ahead head tail head + 1 =
    (head - tail).toNat := by
  have hpos : (head - tail).toNat ≠ 0 := by
    intro h0
    have hzero : head - tail = 0#32 := BitVec.eq_of_toNat_eq h0
    have hback := BitVec.sub_add_cancel head tail
    rw [hzero, BitVec.zero_add] at hback
    exact h hback.symm
  unfold ahead
  rw [if_pos rfl]
  omega

theorem ReadPc.rank_next (head old seen tail : U32) (buf : Option (List UInt8)) :
    (readNext tail buf).rank c head old seen ≤ recordSteps c * (head - tail).toNat + 1 := by
  cases buf with
  | none => exact Nat.le_refl _
  | some bytes => exact Nat.zero_le _

section Rank

variable {old seen : U32} {pc : ReadPc} (hb : c.Bounded) (h : pc.Checked c old seen)

include hb h

/-- **Every step of a call that has not returned comes closer to its end.** -/
theorem ReadPc.Checked.rank (hf : pc.final = false) (chunk : Nat) (mem : Bool) (m : RingMem) :
    (readStep c chunk mem m pc).2.rank c m.head (compared old seen m.head pc).1
      (compared old seen m.head pc).2 + 1 ≤
      pc.rank c m.head old seen := by
  cases pc with
  | readTail =>
    have hlt := (m.head - m.tail).isLt
    have := Nat.mul_le_mul_left (recordSteps c) (Nat.le_of_lt hlt)
    show recordSteps c * (m.head - m.tail).toNat + 1 + 1 ≤ recordSteps c * 2 ^ 32 + 2
    omega
  | readHead tail =>
    simp only [readStep]
    split
    · exact Nat.succ_le_succ (Nat.zero_le _)
    · rename_i hne
      have hlen := (ringCopyOut_fits c tail (show (4 : U32).toNat ≤ c.ring.area from hb.len)).1
      have hsucc := ahead_lt hne
      show recordSteps c * ahead m.head tail m.head + c.frameMax.toNat + 8 +
        (ringCopyOut c.ring tail 4).length + 1 ≤
        recordSteps c * (m.head - tail).toNat + 1
      rw [hlen, ← hsucc, Nat.mul_succ]
      have : (4 : U32).toNat = 4 := rfl
      unfold recordSteps
      omega
  | empty tail => exact absurd hf (by simp [ReadPc.final])
  | readLen head tail got todo =>
    cases todo with
    | nil =>
      simp only [readStep]
      split
      · show 1 + 1 ≤ recordSteps c * ahead m.head old seen + c.frameMax.toNat + 8 + 0
        omega
      · show recordSteps c * ahead m.head old seen + c.frameMax.toNat + 7 + 1 ≤
          recordSteps c * ahead m.head old seen + c.frameMax.toNat + 8 + 0
        omega
    | cons o os =>
      show recordSteps c * ahead m.head old seen + c.frameMax.toNat + 8 +
          (os.drop chunk).length + 1 ≤
        recordSteps c * ahead m.head old seen + c.frameMax.toNat + 8 + (os.length + 1)
      rw [List.length_drop]
      omega
  | recover head => exact Nat.le_refl _
  | alloc tail len =>
    obtain ⟨rfl, hok⟩ := h
    obtain ⟨-, hmax, hsize⟩ := checked_len hb hok
    have hmax := BitVec.le_def.mp hmax
    simp only [readStep]
    split
    · have hlen := (ringCopyOut_fits c (tail + 4) hsize).1
      show recordSteps c * ahead m.head tail seen + 6 +
          (ringCopyOut c.ring (tail + 4) len).length + 1 ≤
        recordSteps c * ahead m.head tail seen + c.frameMax.toNat + 7
      rw [hlen]
      omega
    · split
      · have := Nat.mul_le_mul_left (recordSteps c) (behind_le_ahead hb hok m.head)
        show recordSteps c * (m.head - (tail + recordLen len)).toNat + 5 + 1 ≤
          recordSteps c * ahead m.head tail seen + c.frameMax.toNat + 7
        omega
      · exact Nat.succ_le_succ (Nat.zero_le _)
  | copyOut tail len got todo =>
    obtain ⟨rfl, hok, -, -⟩ := h
    cases todo with
    | nil =>
      have := Nat.mul_le_mul_left (recordSteps c) (behind_le_ahead hb hok m.head)
      show recordSteps c * (m.head - (tail + recordLen len)).toNat + 5 + 1 ≤
        recordSteps c * ahead m.head tail seen + 6 + 0
      omega
    | cons o os =>
      show recordSteps c * ahead m.head tail seen + 6 + (os.drop chunk).length + 1 ≤
        recordSteps c * ahead m.head tail seen + 6 + (os.length + 1)
      rw [List.length_drop]
      omega
  | writeTail tail buf => exact Nat.le_refl _
  | readWait tail buf =>
    simp only [readStep]
    split
    · have := ReadPc.rank_next (c := c) m.head old seen tail buf
      show (readNext tail buf).rank c m.head old seen + 1 ≤
        recordSteps c * (m.head - tail).toNat + 4
      omega
    · exact Nat.le_refl _
  | clearWait tail buf => exact Nat.le_refl _
  | ring tail buf => exact Nat.succ_le_succ (ReadPc.rank_next m.head old seen tail buf)
  | done ret => exact absurd hf (by simp [ReadPc.final])

end Rank

def Hostile.rank (c : ReadCfg) (s : Hostile) : Nat := s.pc.rank c s.mem.head s.old s.seen

/-- While the head stays, the steps of the call use up the rank. -/
theorem Hostile.Inv.rank {s s' : Hostile} {a : HostileAct} (hb : c.Bounded) (h : s.Inv c)
    (hc : Steady a s)
    (hs : (hostile c).step a s = some s') : s'.rank c + a.weight ≤ s.rank c := by
  cases a with
  | read chunk mem =>
    have hs : (if s.pc.final then none else some (s.read c chunk mem)) = some s' := hs
    split at hs
    · exact absurd hs (by simp)
    · rename_i hf
      obtain rfl := Option.some.inj hs
      have hrank := h.checked.rank hb (by simpa using hf) chunk mem s.mem
      unfold Hostile.rank Hostile.read
      dsimp only
      rw [readStep_head]
      exact hrank
  | other mem =>
    obtain rfl := Option.some.inj hs
    have hhead : mem.head = s.mem.head := hc
    unfold Hostile.rank
    dsimp only
    rw [hhead]
    exact Nat.le_refl _

/-! ## The result -/

/-- **A corrupt ring does no harm.** Whatever the ring holds and however the other side changes it:
a call loads only from the data area, stores only into its buffers, and moves TAIL on by at most
what it was offered; and once the head no longer changes it can only make so many more steps, each
of which it can make until it returns. -/
theorem corrupt_ring {c : ReadCfg} (hc : c = espShmRead ∨ c = shmRead) {s : Hostile}
    (h : (hostile c).Reach s) : (∀ a ∈ s.trace, a.Safe c) ∧
    (s.pc.final = false → ∀ chunk mem, ((hostile c).step (.read chunk mem) s).isSome) ∧
    ∃ n, ∀ as s', (hostile c).runWith Steady as s = some s' →
      (as.map HostileAct.weight).sum ≤ n := by
  have hb : c.Bounded := by
    rcases hc with rfl | rfl
    · exact bounded_espShmRead
    · exact bounded_shmRead
  have hinv : s.Inv c := h.invariant (fun _ (h0 : Hostile.Start _) => h0.inv) fun _ _ _ _ hi _ hs =>
    hi.step hb hs
  refine ⟨hinv.trace, fun hf chunk mem => ?_, s.rank c, fun as s' hrun => ?_⟩
  · show (if s.pc.final then none else some (s.read c chunk mem)).isSome
    rw [hf]
    rfl
  · have hle : s'.rank c + (as.map HostileAct.weight).sum ≤ s.rank c :=
      Machine.runWith_rank (fun a s s' (hi : s.Inv c) hc hs => ⟨hi.step hb hs, hi.rank hb hc hs⟩)
        hinv hrun
    omega

/-- A head far behind an unaligned tail, which changes after it was loaded, and a length that is too
large: all that was offered is given back. -/
theorem corrupt_ring_lost : ∃ s : Hostile, s.mem.tail = 0xffffffff ∧
    ∀ a ∈ s.trace, a.Safe espShmRead := by
  have hr : (hostile espShmRead).Reach ⟨⟨0xffffffff, 0x7fff, 0, fun _ => 0xff⟩, .readTail, 0, 0,
      []⟩ :=
    .init ⟨Or.inl rfl, rfl⟩
  have hrun := @Machine.Reach.run _ _ _ [.read 0 true, .read 0 true,
    .other ⟨5, 0, 0, fun _ => 0xff⟩, .read 1 true,
    .read 7 true, .read 0 true, .read 0 true] _ _ hr rfl
  exact ⟨_, rfl, (corrupt_ring (Or.inl rfl) hrun).1⟩

end Esp32S31.Shm
