import RefinedC.Library.Fallible
import Mathlib.Order.Basic

/-!
Postconditions of computations with a growing state that may fail.

Owns: when every successful run of a computation from a state grows that state
and ends in a postcondition, with one rule for each way to build a computation.

A postcondition that was reached earlier is carried to the end of a run by its
own monotonicity: the rule for sequences gives the growth since then.
-/

namespace RefinedC.Library

variable {σ ε α β : Type} [Preorder σ]

/-- Successful runs of `m` from `s` grow the state and end in `P`. -/
def Ensures (s : σ) (m : StateT σ (Except ε) α) (P : α → σ → Prop) : Prop :=
  ∀ a s', m s = .ok (a, s') → s ≤ s' ∧ P a s'

namespace Ensures

variable {s : σ} {m : StateT σ (Except ε) α} {P Q : α → σ → Prop}

theorem mono (ensures : Ensures s m Q) (weaken : ∀ a s', s ≤ s' → Q a s' → P a s') :
    Ensures s m P := by
  intro a s' run
  obtain ⟨grows, post⟩ := ensures a s' run
  exact ⟨grows, weaken a s' grows post⟩

theorem pure {a : α} (post : P a s) : Ensures (ε := ε) s (Pure.pure a) P := by
  intro a' s' run
  obtain ⟨rfl, rfl⟩ := run_pure_eq_ok.mp run
  exact ⟨le_rfl, post⟩

theorem bind {f : α → StateT σ (Except ε) β} {R : β → σ → Prop} (first : Ensures s m Q)
    (second : ∀ a s', s ≤ s' → Q a s' → Ensures s' (f a) R) : Ensures s (m >>= f) R := by
  intro b s'' run
  obtain ⟨a, s', run1, run2⟩ := run_bind_eq_ok.mp run
  obtain ⟨grows1, post1⟩ := first a s' run1
  obtain ⟨grows2, post2⟩ := second a s' grows1 post1 b s'' run2
  exact ⟨le_trans grows1 grows2, post2⟩

/-- A computation that does not use the state, in front of another one. -/
theorem liftBind {x : Except ε α} {f : α → StateT σ (Except ε) β} {R : β → σ → Prop}
    (second : ∀ a, x = .ok a → Ensures s (f a) R) : Ensures s (liftResult x >>= f) R := by
  intro b s'' run
  obtain ⟨a, s', run1, run2⟩ := run_bind_eq_ok.mp run
  obtain ⟨found, rfl⟩ := run_liftResult_eq_ok.mp run1
  exact second a found b s'' run2

theorem error {failure : ε} : Ensures s (liftResult (.error failure)) P := by
  intro a s' run
  obtain ⟨found, -⟩ := run_liftResult_eq_ok.mp run
  cases found

end Ensures

end RefinedC.Library
