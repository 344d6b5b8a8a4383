import Mathlib.Data.List.Induction
import Mathlib.Logic.Function.Basic
import Esp32S31.Lib.Machine
import Esp32S31.Lib.Word

/-!
# Fields of shared words

Several drivers own fields of the same register words. Each changes its field by reading the word,
changing its bits and writing the word back, in any number of contexts at once. No update is lost
when all fields of a word are changed under one lock.

`Layout` says where the fields are; `Layout.sys` are the contexts.

* `mem_eq_replay`: the memory is what the writes make of it one after the other, as if each were
  atomic.
* `field_eq_own`: a field holds what its own writes make of it, whatever the other fields do.
* `rest_eq`: the bits that belong to no field stay.
-/

namespace Esp32S31.Lib

/-- The bits that a write replaces, and their new values. -/
abbrev MaskWrite := U32 × U32

def MaskWrite.apply (w : MaskWrite) (x : U32) : U32 := (x &&& ~~~w.1) ||| (w.2 &&& w.1)

/-- The fields `C` of the words `A`, and their locks `D`. -/
structure Layout (C A D : Type) where
  addr : C → A
  mask : C → U32
  lock : C → D
  one_lock : ∀ c c', addr c = addr c' → lock c = lock c'
  apart : ∀ c c', c ≠ c' → addr c = addr c' → mask c &&& mask c' = 0

/-- A context that changes a field: its copy of the word, and the writes to come. -/
structure RmwCtx (C : Type) where
  field : C
  copy : U32
  writes : List MaskWrite

structure RmwSys (C A D : Type) where
  mem : A → U32
  owner : D → Option Nat
  contexts : Nat → Option (RmwCtx C)
  /-- the writes so far, in their order -/
  log : List (C × MaskWrite)

inductive RmwAct (C : Type) where
  /-- take the lock and read the word -/
  | start (i : Nat) (c : C) (ws : List MaskWrite)
  | write (i : Nat)
  /-- release the lock -/
  | finish (i : Nat)

namespace Layout

variable {C A D : Type} (L : Layout C A D)

/-- The writes change nothing outside the field. -/
def fits (c : C) (ws : List MaskWrite) : Bool := ws.all fun w => w.1 &&& ~~~L.mask c = 0

variable [DecidableEq A] [DecidableEq D]

def step : RmwAct C → RmwSys C A D → Option (RmwSys C A D)
  | .start i c ws, s =>
    match s.contexts i, s.owner (L.lock c) with
    | none, none =>
      if L.fits c ws then some { s with
        owner := Function.update s.owner (L.lock c) (some i)
        contexts := Function.update s.contexts i (some ⟨c, s.mem (L.addr c), ws⟩) }
      else none
    | _, _ => none
  | .write i, s =>
    match s.contexts i with
    | some ⟨c, copy, w :: ws⟩ => some { s with
      mem := Function.update s.mem (L.addr c) (w.apply copy)
      contexts := Function.update s.contexts i (some ⟨c, w.apply copy, ws⟩)
      log := s.log ++ [(c, w)] }
    | _ => none
  | .finish i, s =>
    match s.contexts i with
    | some ⟨c, _, []⟩ => some { s with
      owner := Function.update s.owner (L.lock c) none
      contexts := Function.update s.contexts i none }
    | _ => none

/-- The contexts, from the memory `m`. -/
def sys (m : A → U32) : Machine (RmwAct C) (RmwSys C A D) where
  init s := s.mem = m ∧ (∀ d, s.owner d = none) ∧ (∀ i, s.contexts i = none) ∧ s.log = []
  step := L.step

/-- Atomic writes, one after the other. -/
def replay (log : List (C × MaskWrite)) (m : A → U32) : A → U32 :=
  log.foldl (fun m e => Function.update m (L.addr e.1) (e.2.apply (m (L.addr e.1)))) m

omit [DecidableEq D] in
theorem replay_append (log : List (C × MaskWrite)) (e : C × MaskWrite) (m : A → U32) :
    L.replay (log ++ [e]) m = Function.update (L.replay log m) (L.addr e.1)
      (e.2.apply (L.replay log m (L.addr e.1))) := by
  simp [replay, List.foldl_append]

/-- What holds in every state. -/
structure Inv (m : A → U32) (s : RmwSys C A D) : Prop where
  copy : ∀ i x, s.contexts i = some x → s.owner (L.lock x.field) = some i ∧
    x.copy = s.mem (L.addr x.field) ∧ L.fits x.field x.writes = true
  replay : s.mem = L.replay s.log m
  fits : ∀ e ∈ s.log, e.2.1 &&& ~~~L.mask e.1 = 0

variable {L} {m : A → U32} {s s' : RmwSys C A D}

theorem Inv.init (h : (L.sys m).init s) : L.Inv m s := by
  obtain ⟨hm, -, hc, hl⟩ := h
  refine ⟨fun i x hx => ?_, ?_, ?_⟩
  · rw [hc i] at hx
    exact absurd hx (by simp)
  · rw [hm, hl]
    rfl
  · simp [hl]

omit [DecidableEq D] in
/-- Two contexts never hold one lock. -/
theorem Inv.lock_ne (h : L.Inv m s) {i j : Nat} {x y : RmwCtx C} (hij : i ≠ j)
    (hx : s.contexts i = some x) (hy : s.contexts j = some y) :
    L.lock x.field ≠ L.lock y.field := by
  intro hl
  have h1 := (h.copy i x hx).1
  rw [hl, (h.copy j y hy).1] at h1
  exact hij (Option.some.inj h1).symm

/-- **What a step can do.** -/
theorem step_cases {a : RmwAct C} (hs : L.step a s = some s') :
    (∃ i c ws, a = .start i c ws ∧ s.contexts i = none ∧ s.owner (L.lock c) = none ∧
      L.fits c ws = true ∧ s' = { s with
        owner := Function.update s.owner (L.lock c) (some i)
        contexts := Function.update s.contexts i (some ⟨c, s.mem (L.addr c), ws⟩) }) ∨
    (∃ i c copy w ws, a = .write i ∧ s.contexts i = some ⟨c, copy, w :: ws⟩ ∧ s' = { s with
      mem := Function.update s.mem (L.addr c) (w.apply copy)
      contexts := Function.update s.contexts i (some ⟨c, w.apply copy, ws⟩)
      log := s.log ++ [(c, w)] }) ∨
    ∃ i c copy, a = .finish i ∧ s.contexts i = some ⟨c, copy, []⟩ ∧ s' = { s with
      owner := Function.update s.owner (L.lock c) none
      contexts := Function.update s.contexts i none } := by
  cases a with
  | start i c ws =>
    simp only [step] at hs
    split at hs
    · rename_i hi hd
      split at hs
      · rename_i hfits
        exact .inl ⟨i, c, ws, rfl, hi, hd, hfits, (Option.some.inj hs).symm⟩
      · exact absurd hs (by simp)
    · exact absurd hs (by simp)
  | write i =>
    simp only [step] at hs
    split at hs
    · rename_i c copy w ws hi
      exact .inr (.inl ⟨i, c, copy, w, ws, rfl, hi, (Option.some.inj hs).symm⟩)
    · exact absurd hs (by simp)
  | finish i =>
    simp only [step] at hs
    split at hs
    · rename_i c copy hi
      exact .inr (.inr ⟨i, c, copy, rfl, hi, (Option.some.inj hs).symm⟩)
    · exact absurd hs (by simp)

theorem Inv.step {a : RmwAct C} (h : L.Inv m s) (hs : L.step a s = some s') : L.Inv m s' := by
  obtain ⟨i, c, ws, -, hi, hd, hfits, rfl⟩ | ⟨i, c, copy, w, ws, -, hi, rfl⟩ |
    ⟨i, c, copy, -, hi, rfl⟩ := step_cases hs
  · refine ⟨fun j x hx => ?_, h.replay, h.fits⟩
    dsimp only at hx ⊢
    by_cases hji : j = i
    · subst hji
      rw [Function.update_self] at hx
      obtain rfl := Option.some.inj hx
      exact ⟨Function.update_self .., rfl, hfits⟩
    · rw [Function.update_of_ne hji] at hx
      obtain ⟨ho, hcopy, hf⟩ := h.copy j x hx
      refine ⟨?_, hcopy, hf⟩
      rw [Function.update_of_ne]
      · exact ho
      · intro hl
        rw [hl, hd] at ho
        exact absurd ho (by simp)
  · obtain ⟨ho, hcopy, hf⟩ := h.copy i _ hi
    have hw : w.1 &&& ~~~L.mask c = 0 ∧ L.fits c ws = true := by
      simpa [Layout.fits] using hf
    refine ⟨fun j x hx => ?_, ?_, fun e he => ?_⟩
    · dsimp only at hx ⊢
      by_cases hji : j = i
      · subst hji
        rw [Function.update_self] at hx
        obtain rfl := Option.some.inj hx
        refine ⟨ho, ?_, hw.2⟩
        dsimp only
        rw [Function.update_self]
      · rw [Function.update_of_ne hji] at hx
        obtain ⟨hoj, hcopyj, hfj⟩ := h.copy j x hx
        refine ⟨hoj, ?_, hfj⟩
        -- the other context holds another lock, so its word is another one
        rw [Function.update_of_ne]
        · exact hcopyj
        · exact fun ha => h.lock_ne hji hx hi (L.one_lock _ _ ha)
    · dsimp only
      rw [L.replay_append, ← h.replay, ← hcopy]
    · rcases List.mem_append.mp he with he | he
      · exact h.fits e he
      · obtain rfl := List.mem_singleton.mp he
        exact hw.1
  · refine ⟨fun j x hx => ?_, h.replay, h.fits⟩
    dsimp only at hx ⊢
    by_cases hji : j = i
    · subst hji
      rw [Function.update_self] at hx
      exact absurd hx (by simp)
    · rw [Function.update_of_ne hji] at hx
      obtain ⟨hoj, hcopyj, hfj⟩ := h.copy j x hx
      refine ⟨?_, hcopyj, hfj⟩
      rw [Function.update_of_ne (h.lock_ne hji hx hi)]
      exact hoj

theorem Inv.of_reach (hr : (L.sys m).Reach s) : L.Inv m s :=
  hr.invariant (fun _ h => .init h) fun _ _ _ _ h _ hs => h.step hs

/-- **No update is lost.** -/
theorem mem_eq_replay (hr : (L.sys m).Reach s) : s.mem = L.replay s.log m :=
  (Inv.of_reach hr).replay

/-! ## Fields -/

theorem getLsbD_apply (w : MaskWrite) (x : U32) {i : Nat} (hi : i < 32) :
    (w.apply x).getLsbD i = if w.1.getLsbD i then w.2.getLsbD i else x.getLsbD i := by
  simp only [MaskWrite.apply, BitVec.getLsbD_or, BitVec.getLsbD_and, BitVec.getLsbD_not, hi,
    decide_true, Bool.true_and]
  cases w.1.getLsbD i <;> simp

/-- Bits that a write leaves alone. -/
theorem apply_and_of_disjoint {w : MaskWrite} {k : U32} (h : w.1 &&& k = 0) (x : U32) :
    w.apply x &&& k = x &&& k := by
  refine BitVec.eq_of_getLsbD_eq fun i hi => ?_
  have hb : (w.1 &&& k).getLsbD i = false := by
    rw [h]
    exact BitVec.getLsbD_zero
  rw [BitVec.getLsbD_and] at hb
  rw [BitVec.getLsbD_and, BitVec.getLsbD_and, getLsbD_apply w x hi]
  cases hw : w.1.getLsbD i with
  | false => rfl
  | true =>
    rw [hw, Bool.true_and] at hb
    rw [hb, Bool.and_false, Bool.and_false]

/-- A write makes the same of the same bits. -/
theorem apply_and_congr {w : MaskWrite} {k x y : U32} (h : x &&& k = y &&& k) :
    w.apply x &&& k = w.apply y &&& k := by
  refine BitVec.eq_of_getLsbD_eq fun i hi => ?_
  have hb : (x &&& k).getLsbD i = (y &&& k).getLsbD i := by rw [h]
  rw [BitVec.getLsbD_and, BitVec.getLsbD_and] at hb
  rw [BitVec.getLsbD_and, BitVec.getLsbD_and, getLsbD_apply w x hi, getLsbD_apply w y hi]
  cases w.1.getLsbD i with
  | false => exact hb
  | true => rfl

/-- What the writes of a field make of its word. -/
def own [DecidableEq C] (log : List (C × MaskWrite)) (c : C) (x : U32) : U32 :=
  ((log.filter (·.1 = c)).map Prod.snd).foldl (fun x w => MaskWrite.apply w x) x

theorem and_of_within {a k k' : U32} (h : a &&& ~~~k = 0) (hk : k &&& k' = 0) : a &&& k' = 0 := by
  refine BitVec.eq_of_getLsbD_eq fun i hi => ?_
  have h1 : (a &&& ~~~k).getLsbD i = false := by
    rw [h]
    exact BitVec.getLsbD_zero
  have h2 : (k &&& k').getLsbD i = false := by
    rw [hk]
    exact BitVec.getLsbD_zero
  rw [BitVec.getLsbD_and, BitVec.getLsbD_not] at h1
  rw [BitVec.getLsbD_and] at h2
  rw [BitVec.getLsbD_and]
  refine Eq.trans ?_ BitVec.getLsbD_zero.symm
  revert h1 h2
  cases a.getLsbD i <;> cases k.getLsbD i <;> simp [hi]

omit [DecidableEq D] in
theorem replay_field [DecidableEq C] {log : List (C × MaskWrite)}
    (hfits : ∀ e ∈ log, e.2.1 &&& ~~~L.mask e.1 = 0) (c : C) :
    L.replay log m (L.addr c) &&& L.mask c = own log c (m (L.addr c)) &&& L.mask c := by
  induction log using List.reverseRecOn with
  | nil => rfl
  | append_singleton log e ih =>
    have hlog := ih fun e he => hfits e (List.mem_append_left _ he)
    have he : e.2.1 &&& ~~~L.mask e.1 = 0 := hfits e (List.mem_append_right _ List.mem_cons_self)
    rw [L.replay_append]
    by_cases hc : e.1 = c
    · subst hc
      rw [Function.update_self]
      have hown : own (log ++ [e]) e.1 (m (L.addr e.1)) =
          e.2.apply (own log e.1 (m (L.addr e.1))) := by
        simp [own, List.filter_append, List.foldl_append]
      rw [hown]
      exact apply_and_congr hlog
    · have hown : own (log ++ [e]) c (m (L.addr c)) = own log c (m (L.addr c)) := by
        simp [own, List.filter_append, hc]
      rw [hown, ← hlog]
      by_cases ha : L.addr e.1 = L.addr c
      · rw [← ha, Function.update_self]
        exact apply_and_of_disjoint (and_of_within he (L.apart _ _ hc ha)) _
      · rw [Function.update_of_ne (Ne.symm ha)]

/-- **A field holds what its own writes make of it.** -/
theorem field_eq_own [DecidableEq C] (hr : (L.sys m).Reach s) (c : C) :
    s.mem (L.addr c) &&& L.mask c = own s.log c (m (L.addr c)) &&& L.mask c := by
  rw [mem_eq_replay hr]
  exact replay_field (Inv.of_reach hr).fits c

/-- **The other bits stay.** -/
theorem rest_eq (hr : (L.sys m).Reach s) {a : A} {k : U32}
    (hk : ∀ c, L.addr c = a → L.mask c &&& k = 0) : s.mem a &&& k = m a &&& k := by
  rw [mem_eq_replay hr]
  have hfits := (Inv.of_reach hr).fits
  generalize s.log = log at hfits
  induction log using List.reverseRecOn with
  | nil => rfl
  | append_singleton log e ih =>
    have he : e.2.1 &&& ~~~L.mask e.1 = 0 := hfits e (List.mem_append_right _ List.mem_cons_self)
    rw [L.replay_append, ← ih fun e he => hfits e (List.mem_append_left _ he)]
    by_cases ha : L.addr e.1 = a
    · rw [← ha, Function.update_self]
      exact apply_and_of_disjoint (and_of_within he (hk _ ha)) _
    · rw [Function.update_of_ne (Ne.symm ha)]

end Layout

end Esp32S31.Lib
