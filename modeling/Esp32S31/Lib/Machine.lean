import Mathlib.Algebra.GroupWithZero.Nat

/-!
# Guarded machines and what holds in every reachable state

A machine is a set of start states and a partial step function: `step a s` is the state after the
action `a`, or `none` when `a` cannot happen in `s`. The action names the thread that moves and
resolves its choices (which chunk a copy moves, whether an allocation or a wait succeeds), so one
definition serves the proofs and the replay of a concrete run (`run`, `runWith`).

`ReachWith C` are the states of the runs whose every step meets the condition `C` on the action
and the state before it; `Reach` is the case without a condition.
-/

namespace Esp32S31.Lib

/-- A guarded machine over the actions `α` and the states `σ`. -/
structure Machine (α σ : Type) where
  init : σ → Prop
  step : α → σ → Option σ

namespace Machine

variable {α σ : Type} {M : Machine α σ} {C : α → σ → Prop}

/-- The states of the runs of `M` whose steps all meet `C`. -/
inductive ReachWith (M : Machine α σ) (C : α → σ → Prop) : σ → Prop
  | init {s : σ} : M.init s → ReachWith M C s
  | step {s s' : σ} (a : α) : ReachWith M C s → C a s → M.step a s = some s' → ReachWith M C s'

/-- The reachable states of `M`. -/
abbrev Reach (M : Machine α σ) : σ → Prop := ReachWith M fun _ _ => True

theorem ReachWith.mono {D : α → σ → Prop} (h : ∀ a s, C a s → D a s) {s : σ}
    (hr : M.ReachWith C s) : M.ReachWith D s := by
  induction hr with
  | init h0 => exact .init h0
  | step a _ hc hs ih => exact .step a ih (h a _ hc) hs

theorem ReachWith.reach {s : σ} (hr : M.ReachWith C s) : M.Reach s :=
  hr.mono fun _ _ _ => trivial

/-- **The invariant rule.** What holds at the start and survives every step that meets `C` holds
in every state of the runs under `C`; the step may use that its first state is reachable. -/
theorem ReachWith.invariant {I : σ → Prop} (h0 : ∀ s, M.init s → I s)
    (hs : ∀ a s s', M.ReachWith C s → I s → C a s → M.step a s = some s' → I s') {s : σ}
    (hr : M.ReachWith C s) : I s := by
  induction hr with
  | init h => exact h0 _ h
  | step a hp hc hst ih => exact hs a _ _ hp ih hc hst

/-- Replay a list of actions that all meet `C`; `none` when one of them does not, or cannot
happen. -/
def runWith (M : Machine α σ) (C : α → σ → Prop) [∀ a s, Decidable (C a s)] :
    List α → σ → Option σ
  | [], s => some s
  | a :: as, s => if C a s then (M.step a s).bind (M.runWith C as) else none

/-- Replay a list of actions; `none` when one of them cannot happen. -/
def run (M : Machine α σ) : List α → σ → Option σ := M.runWith fun _ _ => True

/-- The state that a replay from a reachable state ends in is reachable. -/
theorem ReachWith.runWith [∀ a s, Decidable (C a s)] : ∀ {as : List α} {s s' : σ},
    M.ReachWith C s → M.runWith C as s = some s' → M.ReachWith C s'
  | [], s, s', hr, h => by
    obtain rfl := Option.some.inj h
    exact hr
  | a :: as, s, s', hr, h => by
    unfold Machine.runWith at h
    split at h
    · rename_i hc
      obtain ⟨s₁, h₁, h₂⟩ := Option.bind_eq_some_iff.mp h
      exact ReachWith.runWith (.step a hr hc h₁) h₂
    · exact absurd h (by simp)

theorem Reach.run {as : List α} {s s' : σ} (hr : M.Reach s) (h : M.run as s = some s') :
    M.Reach s' := ReachWith.runWith hr h

/-- A replay of actions that meet `C` in every state. -/
theorem ReachWith.run_of {as : List α} (hc : ∀ a ∈ as, ∀ s, C a s) {s s' : σ} (hr : M.ReachWith C s)
    (h : M.run as s = some s') : M.ReachWith C s' := by
  induction as generalizing s with
  | nil =>
    obtain rfl := Option.some.inj h
    exact hr
  | cons a as ih =>
    unfold Machine.run Machine.runWith at h
    rw [if_pos trivial] at h
    obtain ⟨s₁, h₁, h₂⟩ := Option.bind_eq_some_iff.mp h
    have ha : ∀ s, C a s := hc a List.mem_cons_self
    exact ih (fun b hb => hc b (List.mem_cons_of_mem a hb)) (.step a hr (ha s) h₁) h₂

/-- **The ranking rule.** When every step lowers the rank by at least the weight of its action, the
weights of a run add up to at most the rank of its first state. -/
theorem runWith_rank [∀ a s, Decidable (C a s)] {I : σ → Prop} {rank : σ → Nat} {weight : α → Nat}
    (hs : ∀ a s s', I s → C a s → M.step a s = some s' → I s' ∧ rank s' + weight a ≤ rank s) :
    ∀ {as : List α} {s s' : σ}, I s → M.runWith C as s = some s' →
      rank s' + (as.map weight).sum ≤ rank s := by
  intro as
  induction as with
  | nil =>
    intro s s' _ h
    obtain rfl := Option.some.inj h
    exact Nat.le_refl _
  | cons a as ih =>
    intro s s' hi h
    unfold Machine.runWith at h
    split at h
    · rename_i hc
      obtain ⟨s₁, h₁, h₂⟩ := Option.bind_eq_some_iff.mp h
      obtain ⟨hi₁, hr⟩ := hs a s s₁ hi hc h₁
      have := ih hi₁ h₂
      rw [List.map_cons, List.sum_cons]
      omega
    · exact absurd h (by simp)

/-- **The draining rule.** When every step keeps `I` and lowers the rank, a run has at most as many
steps as the rank of its first state, and ends in a state with `I`. -/
theorem runWith_bounded [∀ a s, Decidable (C a s)] {I : σ → Prop} {rank : σ → Nat}
    (hs : ∀ a s s', I s → C a s → M.step a s = some s' → I s' ∧ rank s' + 1 ≤ rank s) :
    ∀ {as : List α} {s s' : σ}, I s → M.runWith C as s = some s' → as.length ≤ rank s ∧ I s' := by
  intro as s s' hi h
  constructor
  · have hrank := runWith_rank hs hi h
    rw [List.map_const', List.sum_replicate_nat] at hrank
    omega
  · induction as generalizing s with
    | nil =>
      obtain rfl := Option.some.inj h
      exact hi
    | cons a as ih =>
      unfold Machine.runWith at h
      split at h
      · rename_i hc
        obtain ⟨s₁, h₁, h₂⟩ := Option.bind_eq_some_iff.mp h
        exact ih (hs a s s₁ hi hc h₁).1 h₂
      · exact absurd h (by simp)

end Machine

end Esp32S31.Lib
