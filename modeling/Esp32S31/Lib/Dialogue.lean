/-!
# Programs that ask their environment

`Prog ε κ σ α` is a program over the state `σ`. It asks its environment questions (a clock reading,
what a read returned) and the environment answers with an `ε`; it makes calls `κ`, which are
recorded. A run is fixed by the answers, one for each question in turn, so what holds for all
sequences of answers holds for all runs. The record keeps each call with the state it was made in,
newest first: a statement about a whole run is one about its record.

`Meets P m Q` is the triple of a program with its pre- and postcondition, `Keeps I m` an invariant,
and `Same v m` says that the view `v` of the world stays as it is. Each has one rule for each way to
build a program.
-/

namespace Esp32S31.Lib

/-- The state of a program, the number of answers it took, and its calls, newest first. -/
structure World (κ σ : Type) where
  st : σ
  asked : Nat
  calls : List (κ × σ)

/-- A program over the state `σ` with the answers `ε` and the calls `κ`. -/
structure Prog (ε κ σ α : Type) where
  run : (Nat → ε) → World κ σ → α × World κ σ

namespace Prog

variable {ε κ σ α β γ : Type}

instance : Monad (Prog ε κ σ) where
  pure a := ⟨fun _ w => (a, w)⟩
  bind m f := ⟨fun env w => match m.run env w with
    | (a, w') => (f a).run env w'⟩

/-- The state. -/
def get : Prog ε κ σ σ := ⟨fun _ w => (w.st, w)⟩

/-- Change the state. -/
def modify (f : σ → σ) : Prog ε κ σ Unit := ⟨fun _ w => ((), { w with st := f w.st })⟩

/-- Take the next answer of the environment. -/
def ask (f : ε → α) : Prog ε κ σ α :=
  ⟨fun env w => (f (env w.asked), { w with asked := w.asked + 1 })⟩

/-- Make a call. -/
def call (k : κ) : Prog ε κ σ Unit := ⟨fun _ w => ((), { w with calls := (k, w.st) :: w.calls })⟩

/-- Run the program if the condition holds. -/
def when (c : Prop) [Decidable c] (m : Prog ε κ σ Unit) : Prog ε κ σ Unit :=
  if c then m else pure ()

/-- Run the program for each element in turn. -/
def each (f : α → Prog ε κ σ Unit) : List α → Prog ε κ σ Unit
  | [] => pure ()
  | a :: as => do
    f a
    each f as

/-- At most `n` rounds of a loop: `true` when it ended by itself, `false` when it still runs. -/
def loop (body : Prog ε κ σ Bool) : Nat → Prog ε κ σ Bool
  | 0 => pure false
  | n + 1 => do
    if ← body then loop body n else pure true

section Run

variable (env : Nat → ε) (w : World κ σ)

theorem run_pure (a : α) : (pure a : Prog ε κ σ α).run env w = (a, w) := rfl

theorem run_bind (m : Prog ε κ σ α) (f : α → Prog ε κ σ β) :
    (m >>= f).run env w = (f (m.run env w).1).run env (m.run env w).2 := rfl

theorem run_get (f : σ → Prog ε κ σ β) : (get >>= f).run env w = (f w.st).run env w := rfl

theorem run_modify (g : σ → σ) (f : Unit → Prog ε κ σ β) :
    (modify g >>= f).run env w = (f ()).run env { w with st := g w.st } := rfl

theorem run_ask (g : ε → α) (f : α → Prog ε κ σ β) :
    (ask g >>= f).run env w = (f (g (env w.asked))).run env { w with asked := w.asked + 1 } := rfl

theorem run_call (k : κ) (f : Unit → Prog ε κ σ β) :
    (call k >>= f).run env w = (f ()).run env { w with calls := (k, w.st) :: w.calls } := rfl

theorem when_pos {c : Prop} [Decidable c] (h : c) (m : Prog ε κ σ Unit) : when c m = m := if_pos h

theorem when_neg {c : Prop} [Decidable c] (h : ¬ c) (m : Prog ε κ σ Unit) :
    when c m = pure () := if_neg h

/-- Two lists one after the other. -/
theorem run_each_append (f : α → Prog ε κ σ Unit) (as bs : List α) :
    ((each f (as ++ bs)).run env w).2 = ((each f bs).run env ((each f as).run env w).2).2 := by
  induction as generalizing w with
  | nil => rfl
  | cons a as ih => exact ih _

end Run

/-! ## Triples -/

/-- From a world with `P` the program ends in one with `Q`. -/
def Meets (P : World κ σ → Prop) (m : Prog ε κ σ α) (Q : α → World κ σ → Prop) : Prop :=
  ∀ env w, P w → Q (m.run env w).1 (m.run env w).2

/-- The program keeps the invariant. -/
abbrev Keeps (I : World κ σ → Prop) (m : Prog ε κ σ α) : Prop := Meets I m fun _ => I

section Meets

variable {P P' : World κ σ → Prop} {R : α → World κ σ → Prop} {Q Q' : β → World κ σ → Prop}

theorem Meets.pure {Q : α → World κ σ → Prop} {a : α} (h : ∀ w, P w → Q a w) :
    Meets P (pure a : Prog ε κ σ α) Q := fun _ w hw => h w hw

theorem Meets.bind {m : Prog ε κ σ α} {f : α → Prog ε κ σ β} (hm : Meets P m R)
    (hf : ∀ a, Meets (R a) (f a) Q) : Meets P (m >>= f) Q :=
  fun env w hw => hf _ env _ (hm env w hw)

theorem Meets.mono {m : Prog ε κ σ β} (hm : Meets P m Q) (hp : ∀ w, P' w → P w)
    (hq : ∀ b w, Q b w → Q' b w) : Meets P' m Q' :=
  fun env w hw => hq _ _ (hm env w (hp w hw))

/-- Reading the state: the rest of the program may use what it is. -/
theorem Meets.get {f : σ → Prog ε κ σ β} (hf : ∀ s, Meets (fun w => P w ∧ w.st = s) (f s) Q) :
    Meets P (Prog.get >>= f) Q :=
  fun env w hw => hf w.st env w ⟨hw, rfl⟩

theorem Meets.modify {f : σ → σ} {Q : Unit → World κ σ → Prop}
    (h : ∀ w, P w → Q () { w with st := f w.st }) : Meets P (modify f : Prog ε κ σ Unit) Q :=
  fun _ w hw => h w hw

theorem Meets.ask {f : ε → α} {Q : α → World κ σ → Prop}
    (h : ∀ a w, P w → Q a { w with asked := w.asked + 1 }) :
    Meets P (ask f : Prog ε κ σ α) Q := fun _ w hw => h _ w hw

theorem Meets.call {k : κ} {Q : Unit → World κ σ → Prop}
    (h : ∀ w, P w → Q () { w with calls := (k, w.st) :: w.calls }) :
    Meets P (call k : Prog ε κ σ Unit) Q := fun _ w hw => h w hw

theorem Meets.ite {c : Prop} [Decidable c] {m m' : Prog ε κ σ β} (h : c → Meets P m Q)
    (h' : ¬ c → Meets P m' Q) : Meets P (if c then m else m') Q := by
  split
  · exact h ‹_›
  · exact h' ‹_›

theorem Meets.when {c : Prop} [Decidable c] {m : Prog ε κ σ Unit}
    {Q : Unit → World κ σ → Prop} (h : c → Meets P m Q) (h' : ¬ c → ∀ w, P w → Q () w) :
    Meets P (when c m) Q := Meets.ite h fun hc => Meets.pure (h' hc)

/-- What is true of every result. -/
theorem Meets.result {S : β → Prop} {m : Prog ε κ σ β} (hm : Meets P m Q)
    (hs : Meets (fun _ => True) m fun b _ => S b) : Meets P m fun b w => S b ∧ Q b w :=
  fun env w hw => ⟨hs env w trivial, hm env w hw⟩

/-- A fact that the precondition gives may be assumed. -/
theorem Meets.given {c : Prop} {m : Prog ε κ σ β} (hc : ∀ w, P w → c) (h : c → Meets P m Q) :
    Meets P m Q := fun env w hw => h (hc w hw) env w hw

end Meets

/-! ## Invariants -/

section Keeps

variable {I : World κ σ → Prop}

theorem Keeps.pure (a : α) : Keeps I (pure a : Prog ε κ σ α) := Meets.pure fun _ hw => hw

theorem Keeps.bind {m : Prog ε κ σ α} {f : α → Prog ε κ σ β} (hm : Keeps I m)
    (hf : ∀ a, Keeps I (f a)) : Keeps I (m >>= f) := Meets.bind hm hf

theorem Keeps.get {f : σ → Prog ε κ σ α} (hf : ∀ s, Keeps I (f s)) : Keeps I (Prog.get >>= f) :=
  Meets.get fun s => (hf s).mono (fun _ hw => hw.1) fun _ _ hw => hw

theorem Keeps.ite {c : Prop} [Decidable c] {m m' : Prog ε κ σ α} (h : Keeps I m) (h' : Keeps I m') :
    Keeps I (if c then m else m') := Meets.ite (fun _ => h) fun _ => h'

theorem Keeps.when {c : Prop} [Decidable c] {m : Prog ε κ σ Unit} (h : c → Keeps I m) :
    Keeps I (when c m) := Meets.when h fun _ _ hw => hw

theorem Keeps.each {f : α → Prog ε κ σ Unit} (hf : ∀ a, Keeps I (f a)) :
    ∀ as, Keeps I (each f as)
  | [] => Keeps.pure ()
  | a :: as => (hf a).bind fun _ => Keeps.each hf as

/-- **The loop rule.** What one round keeps, any number of rounds keeps. -/
theorem Keeps.loop {body : Prog ε κ σ Bool} (hb : Keeps I body) : ∀ n, Keeps I (loop body n)
  | 0 => Keeps.pure false
  | n + 1 => hb.bind fun _ => Meets.ite (fun _ => Keeps.loop hb n) fun _ => Keeps.pure true

end Keeps

/-! ## Views that stay as they are -/

/-- The view `v` of the world stays as it is. -/
def Same (v : World κ σ → γ) (m : Prog ε κ σ α) : Prop := ∀ env w, v (m.run env w).2 = v w

section Same

variable {v : World κ σ → γ}

theorem Same.pure (a : α) : Same v (pure a : Prog ε κ σ α) := fun _ _ => rfl

theorem Same.bind {m : Prog ε κ σ α} {f : α → Prog ε κ σ β} (hm : Same v m)
    (hf : ∀ a, Same v (f a)) : Same v (m >>= f) :=
  fun env w => (hf _ env _).trans (hm env w)

theorem Same.get : Same v (Prog.get : Prog ε κ σ σ) := fun _ _ => rfl

theorem Same.ask {f : ε → α} (h : ∀ w n, v { w with asked := n } = v w) :
    Same v (Prog.ask f : Prog ε κ σ α) := fun _ w => h w _

theorem Same.modify {f : σ → σ} (h : ∀ w, v { w with st := f w.st } = v w) :
    Same v (Prog.modify f : Prog ε κ σ Unit) := fun _ w => h w

theorem Same.call {k : κ} (h : ∀ w s, v { w with calls := (k, s) :: w.calls } = v w) :
    Same v (Prog.call k : Prog ε κ σ Unit) := fun _ w => h w _

theorem Same.ite {c : Prop} [Decidable c] {m m' : Prog ε κ σ α} (h : Same v m) (h' : Same v m') :
    Same v (if c then m else m') := by
  split
  · exact h
  · exact h'

theorem Same.when {c : Prop} [Decidable c] {m : Prog ε κ σ Unit} (h : Same v m) :
    Same v (when c m) := Same.ite h (Same.pure ())

theorem Same.each {f : α → Prog ε κ σ Unit} (hf : ∀ a, Same v (f a)) : ∀ as, Same v (each f as)
  | [] => Same.pure ()
  | a :: as => (hf a).bind fun _ => Same.each hf as

/-- A property of the view holds after the program when it held before. -/
theorem Same.meets {m : Prog ε κ σ α} (hm : Same v m) (P : γ → Prop) :
    Meets (fun w => P (v w)) m fun _ w => P (v w) := by
  intro env w hw
  rw [hm env w]
  exact hw

end Same

end Prog

end Esp32S31.Lib
