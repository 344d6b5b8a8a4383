import Esp32S31.Lib.Dialogue

/-!
# Automata that watch the calls of a program

A `Monitor` reads the record of a program, call by call, and refuses a call that must not be there.
It says what a run has to look like, or what an environment may do.

`Follows M R` is the invariant of a program that keeps to the automaton, with `R` between its state
and the state of the automaton. `Under M R` is the invariant of a program whose environment keeps to
it.
-/

namespace Esp32S31.Lib

open Prog

/-- A partial automaton over calls with the states they are made in. -/
structure Monitor (κ σ τ : Type) where
  start : τ
  step : τ → κ → σ → Option τ

namespace Monitor

variable {ε κ σ τ α : Type} {M : Monitor κ σ τ} {R : τ → σ → Prop}

/-- The state after the calls, newest first; `none` when one of them was refused. -/
def after (M : Monitor κ σ τ) : List (κ × σ) → Option τ
  | [] => some M.start
  | (k, s) :: ks => (M.after ks).bind (M.step · k s)

theorem after_cons {ks : List (κ × σ)} {t : τ} (h : M.after ks = some t) (k : κ) (s : σ) :
    M.after ((k, s) :: ks) = M.step t k s := by
  rw [after, h]
  rfl

/-- What is accepted was accepted all along. -/
theorem after_append {as bs : List (κ × σ)} {t : τ} (h : M.after (as ++ bs) = some t) :
    ∃ t', M.after bs = some t' := by
  induction as generalizing t with
  | nil => exact ⟨t, h⟩
  | cons a as ih =>
    obtain ⟨t', ht', -⟩ := Option.bind_eq_some_iff.mp h
    exact ih ht'

/-! ## A condition on the calls -/

/-- The automaton that also refuses the calls without `C`. -/
def guard (M : Monitor κ σ τ) (C : τ → κ → σ → Prop) [∀ t k s, Decidable (C t k s)] :
    Monitor κ σ τ where
  start := M.start
  step t k s := if C t k s then M.step t k s else none

section Guard

variable {C : τ → κ → σ → Prop} [∀ t k s, Decidable (C t k s)]

theorem guard_step {t t' : τ} {k : κ} {s : σ} (h : (M.guard C).step t k s = some t') :
    C t k s ∧ M.step t k s = some t' := Option.ite_none_right_eq_some.mp h

end Guard

/-! ## A program that follows the automaton -/

/-- The calls are accepted, and `R` holds. -/
def Follows (M : Monitor κ σ τ) (R : τ → σ → Prop) (w : World κ σ) : Prop :=
  ∃ t, M.after w.calls = some t ∧ R t w.st

theorem Follows.asked {w : World κ σ} {n : Nat} (h : Follows M R w) :
    Follows M R { w with asked := n } := h

theorem Follows.modify {w : World κ σ} {f : σ → σ} (h : Follows M R w)
    (hf : ∀ t, R t w.st → R t (f w.st)) : Follows M R { w with st := f w.st } := by
  obtain ⟨t, ht, hr⟩ := h
  exact ⟨t, ht, hf t hr⟩

/-- A call that the automaton takes from every state it can be in. -/
theorem Follows.call {R' : τ → σ → Prop} {w : World κ σ} {k : κ} (h : Follows M R w)
    (hk : ∀ t, R t w.st → ∃ t', M.step t k w.st = some t' ∧ R' t' w.st) :
    Follows M R' { w with calls := (k, w.st) :: w.calls } := by
  obtain ⟨t, ht, hr⟩ := h
  obtain ⟨t', ht', hr'⟩ := hk t hr
  exact ⟨t', (after_cons ht k w.st).trans ht', hr'⟩

theorem Follows.mono {R' : τ → σ → Prop} {w : World κ σ} (h : Follows M R w)
    (hr : ∀ t, R t w.st → R' t w.st) : Follows M R' w := by
  obtain ⟨t, ht, hrt⟩ := h
  exact ⟨t, ht, hr t hrt⟩

/-! ## A program whose environment follows the automaton -/

/-- `R` holds as long as the calls are accepted. -/
def Under (M : Monitor κ σ τ) (R : τ → σ → Prop) (w : World κ σ) : Prop :=
  ∀ t, M.after w.calls = some t → R t w.st

theorem Under.asked {w : World κ σ} {n : Nat} (h : Under M R w) :
    Under M R { w with asked := n } := h

theorem Under.modify {w : World κ σ} {f : σ → σ} (h : Under M R w)
    (hf : ∀ t, R t w.st → R t (f w.st)) : Under M R { w with st := f w.st } :=
  fun t ht => hf t (h t ht)

/-- A call after which `R` holds again if the automaton takes it. -/
theorem Under.call {R' : τ → σ → Prop} {w : World κ σ} {k : κ} (h : Under M R w)
    (hk : ∀ t t', R t w.st → M.step t k w.st = some t' → R' t' w.st) :
    Under M R' { w with calls := (k, w.st) :: w.calls } := by
  intro t' ht'
  obtain ⟨t, ht, hs⟩ := Option.bind_eq_some_iff.mp ht'
  exact hk t t' (h t ht) hs

/-! ## A whole run -/

/-- `R` holds now, and `H` held at every call, as long as the calls are accepted. -/
structure Always (M : Monitor κ σ τ) (H : τ → κ → σ → Prop) (R : τ → σ → Prop) (w : World κ σ) :
    Prop where
  now : Under M R w
  past : ∀ as k s bs, w.calls = as ++ (k, s) :: bs → ∀ t, M.after bs = some t → H t k s

variable {H : τ → κ → σ → Prop}

theorem Always.asked {w : World κ σ} {n : Nat} (h : Always M H R w) :
    Always M H R { w with asked := n } := ⟨h.now, h.past⟩

theorem Always.modify {R' : τ → σ → Prop} {w : World κ σ} {f : σ → σ} (h : Always M H R w)
    (hf : ∀ t, R t w.st → R' t (f w.st)) : Always M H R' { w with st := f w.st } :=
  ⟨fun t ht => hf t (h.now t ht), h.past⟩

theorem Always.mono {R' : τ → σ → Prop} {w : World κ σ} (h : Always M H R w)
    (hr : ∀ t, R t w.st → R' t w.st) : Always M H R' w := ⟨fun t ht => hr t (h.now t ht), h.past⟩

/-- A witness that depends on the calls is one of the run. -/
theorem Always.choose {ν : Type} [Inhabited ν] {S : ν → τ → σ → Prop} {w : World κ σ}
    (h : Always M H (fun t s => ∃ n, S n t s) w) : ∃ n, Always M H (S n) w := by
  cases ht : M.after w.calls with
  | none =>
    refine ⟨default, fun t ht' => ?_, h.past⟩
    cases ht.symm.trans ht'
  | some t =>
    obtain ⟨n, hn⟩ := h.now t ht
    refine ⟨n, fun t' ht' => ?_, h.past⟩
    obtain rfl := Option.some.inj (ht.symm.trans ht')
    exact hn

/-- The same calls, in a state of which `R` says the same. -/
theorem Always.of_state {R' : τ → σ → Prop} {w w' : World κ σ} (h : Always M H R w)
    (hc : w'.calls = w.calls) (hr : ∀ t, R t w.st → R' t w'.st) : Always M H R' w' := by
  refine ⟨fun t ht => hr t (h.now t (hc ▸ ht)), fun as k s bs he => ?_⟩
  exact h.past as k s bs (hc ▸ he)

/-- A call: what has to be true of it now is true of it ever after. -/
theorem Always.call {R' : τ → σ → Prop} {w : World κ σ} {k : κ} (h : Always M H R w)
    (hh : ∀ t, R t w.st → H t k w.st)
    (hk : ∀ t t', R t w.st → M.step t k w.st = some t' → R' t' w.st) :
    Always M H R' { w with calls := (k, w.st) :: w.calls } := by
  refine ⟨h.now.call hk, fun as k' s bs he t ht => ?_⟩
  cases as with
  | nil =>
    obtain ⟨⟨rfl, rfl⟩, rfl⟩ := List.cons.inj he |>.imp_left Prod.mk.inj
    exact hh t (h.now t ht)
  | cons a as => exact h.past as k' s bs (List.cons.inj he).2 t ht

theorem Always.meets_modify {R' : τ → σ → Prop} {f : σ → σ} (hf : ∀ t s, R t s → R' t (f s)) :
    Meets (Always M H R) (Prog.modify f : Prog ε κ σ Unit) fun _ => Always M H R' :=
  Meets.modify fun _ hw => hw.modify fun t => hf t _

theorem Always.meets_call {R' : τ → σ → Prop} {k : κ} (hh : ∀ t s, R t s → H t k s)
    (hk : ∀ t t' s, R t s → M.step t k s = some t' → R' t' s) :
    Meets (Always M H R) (Prog.call k : Prog ε κ σ Unit) fun _ => Always M H R' :=
  Meets.call fun _ hw => hw.call (fun t => hh t _) fun t t' => hk t t' _

end Monitor

end Esp32S31.Lib
