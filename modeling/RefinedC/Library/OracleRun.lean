import Mathlib.Data.List.Forall2
import Mathlib.Tactic.Common

/-!
Runs of systems that emit events, and simulations between them.

Owns: deterministic systems whose next step may depend on how many events have
been emitted so far (so that a fixed oracle can decide each outcome), their
traces after a number of steps, and the theorem that a simulation with a measure
for steps that the other side does not follow relates all finite traces in both
directions.
-/

namespace RefinedC.Library

/-- `step time c` is the next configuration and the event of the step, when
`time` events have been emitted before. -/
structure EventSystem (C E : Type) where
  step : Nat → C → Option (C × Option E)

namespace EventSystem

variable {C D E F : Type}

/-- Runs at most `n` steps and appends the events to a trace. -/
def exec (S : EventSystem C E) : Nat → List E → C → List E × C
  | 0, trace, c => (trace, c)
  | n + 1, trace, c =>
      match S.step trace.length c with
      | none => (trace, c)
      | some (c', event) => exec S n (trace ++ event.toList) c'

/-- Events of the first `n` steps. -/
def trace (S : EventSystem C E) (c : C) (n : Nat) : List E := (S.exec n [] c).1

private theorem exec_of_stuck {S : EventSystem C E} {trace : List E} {c : C}
    (stuck : S.step trace.length c = none) (n : Nat) : S.exec n trace c = (trace, c) := by
  cases n with
  | zero => rfl
  | succ n => simp [exec, stuck]

private theorem exec_succ {S : EventSystem C E} {trace : List E} {c c' : C} {event : Option E}
    (step : S.step trace.length c = some (c', event)) (n : Nat) :
    S.exec (n + 1) trace c = S.exec n (trace ++ event.toList) c' := by
  simp [exec, step]

private theorem exec_add (S : EventSystem C E) (n m : Nat) (trace : List E) (c : C) :
    S.exec (n + m) trace c = S.exec m (S.exec n trace c).1 (S.exec n trace c).2 := by
  induction n generalizing trace c with
  | zero => rw [Nat.zero_add, exec]
  | succ n inductionHypothesis =>
      rw [Nat.add_right_comm]
      cases step : S.step trace.length c with
      | none => rw [exec_of_stuck step, exec_of_stuck step, exec_of_stuck step]
      | some next => rw [exec_succ step, exec_succ step, inductionHypothesis]

/-- A run is followed by one more step. -/
theorem exec_step {S : EventSystem C E} {n : Nat} {before trace : List E} {c d d' : C}
    {event : Option E} (run : S.exec n before c = (trace, d))
    (step : S.step trace.length d = some (d', event)) :
    S.exec (n + 1) before c = (trace ++ event.toList, d') := by
  rw [exec_add, run, exec_succ step]
  rfl

/-- `n` steps without an event. -/
inductive Silent (S : EventSystem C E) (time : Nat) : Nat → C → C → Prop where
  | refl (c : C) : Silent S time 0 c c
  | step {n : Nat} {c c' c'' : C} :
      S.step time c = some (c', none) → Silent S time n c' c'' → Silent S time (n + 1) c c''

private theorem Silent.exec_eq {S : EventSystem C E} {trace : List E} {n : Nat} {c c' : C}
    (silent : Silent S trace.length n c c') (m : Nat) :
    S.exec (n + m) trace c = S.exec m trace c' := by
  induction silent with
  | refl c => rw [Nat.zero_add]
  | @step n c c1 c2 first rest inductionHypothesis =>
      rw [Nat.add_right_comm, exec_succ first, Option.toList_none, List.append_nil,
        inductionHypothesis]

/-- Fewer steps than there are silent ones leave the trace as it is. -/
theorem Silent.trace_eq {S : EventSystem C E} {trace : List E} {n m : Nat} {c c' : C}
    (silent : Silent S trace.length n c c') (fewer : m ≤ n) : (S.exec m trace c).1 = trace := by
  induction silent generalizing m with
  | refl c =>
      have zero : m = 0 := by omega
      subst zero
      rfl
  | @step n c c1 c2 first rest inductionHypothesis =>
      cases m with
      | zero => rfl
      | succ m =>
          rw [exec_succ first, Option.toList_none, List.append_nil]
          exact inductionHypothesis (by omega)

/-! ## Simulations -/

/-- Related steps emit related events, or both none. -/
inductive SameEvent (M : E → F → Prop) : Option E → Option F → Prop where
  | none : SameEvent M none none
  | some {e : E} {f : F} : M e f → SameEvent M (some e) (some f)

theorem SameEvent.append {M : E → F → Prop} {event : Option E} {event' : Option F}
    {left : List E} {right : List F} (traces : List.Forall₂ M left right)
    (same : SameEvent M event event') :
    List.Forall₂ M (left ++ event.toList) (right ++ event'.toList) := by
  cases same with
  | none => simpa using traces
  | some related => exact List.rel_append traces (.cons related .nil)

/-- Every step of `S` is followed by `T`, with some silent steps before. Steps
that `T` does not follow emit nothing and decrease a measure. -/
structure Simulation (S : EventSystem C E) (T : EventSystem D F) (M : E → F → Prop)
    (R : C → D → Prop) (measure : C → Nat) : Prop where
  forward : ∀ {time c d c' event}, R c d → S.step time c = some (c', event) →
    (event = none ∧ measure c' < measure c ∧ R c' d) ∨
    ∃ n d1 d' event', Silent T time n d d1 ∧ T.step time d1 = some (d', event') ∧
      SameEvent M event event' ∧ R c' d'
  stuck : ∀ {time c d}, R c d → S.step time c = none → T.step time d = none

variable {S : EventSystem C E} {T : EventSystem D F} {M : E → F → Prop} {R : C → D → Prop}
  {measure : C → Nat}

private theorem Simulation.exec_forward (simulation : Simulation S T M R measure) (n : Nat)
    {left : List E} {right : List F} {c : C} {d : D} (related : R c d)
    (traces : List.Forall₂ M left right) :
    ∃ m, List.Forall₂ M (S.exec n left c).1 (T.exec m right d).1 := by
  induction n generalizing left right c d with
  | zero => exact ⟨0, traces⟩
  | succ n inductionHypothesis =>
      cases step : S.step left.length c with
      | none =>
          rw [exec_of_stuck step]
          exact ⟨0, traces⟩
      | some next =>
          obtain ⟨c', event⟩ := next
          rw [exec_succ step]
          rcases simulation.forward related step with
            ⟨rfl, -, related'⟩ | ⟨k, d1, d', event', silent, step', same, related'⟩
          · rw [Option.toList_none, List.append_nil]
            exact inductionHypothesis related' traces
          · rw [traces.length_eq] at silent step'
            obtain ⟨m, result⟩ := inductionHypothesis related' (same.append traces)
            refine ⟨k + (m + 1), ?_⟩
            rw [silent.exec_eq, exec_succ step']
            exact result

private theorem Simulation.exec_backward (simulation : Simulation S T M R measure) (m : Nat)
    {left : List E} {right : List F} {c : C} {d : D} (related : R c d)
    (traces : List.Forall₂ M left right) :
    ∃ n, List.Forall₂ M (S.exec n left c).1 (T.exec m right d).1 := by
  -- the steps of `T` decrease, and between two of them the measure does
  induction m using Nat.strongRecOn generalizing left right c d with
  | ind m fewerSteps =>
      induction size : measure c using Nat.strongRecOn generalizing c with
      | ind size' smaller =>
          subst size
          cases step : S.step left.length c with
          | none =>
              have stuck := simulation.stuck related step
              rw [traces.length_eq] at stuck
              refine ⟨0, ?_⟩
              rw [exec_of_stuck stuck]
              exact traces
          | some next =>
              obtain ⟨c', event⟩ := next
              rcases simulation.forward related step with
                ⟨rfl, decreases, related'⟩ | ⟨k, d1, d', event', silent,
                  step', same, related'⟩
              · obtain ⟨n, result⟩ := smaller _ decreases related' rfl
                refine ⟨n + 1, ?_⟩
                rw [exec_succ step, Option.toList_none, List.append_nil]
                exact result
              · rw [traces.length_eq] at silent step'
                by_cases few : m ≤ k
                · refine ⟨0, ?_⟩
                  rw [silent.trace_eq few]
                  exact traces
                · obtain ⟨m', rfl⟩ : ∃ m', m = k + (m' + 1) := ⟨m - k - 1, by omega⟩
                  obtain ⟨n, result⟩ :=
                    fewerSteps m' (by omega) related' (same.append traces)
                  refine ⟨n + 1, ?_⟩
                  rw [exec_succ step, silent.exec_eq, exec_succ step']
                  exact result

/-- Related configurations have related traces. -/
theorem Simulation.traces (simulation : Simulation S T M R measure) {c : C} {d : D}
    (related : R c d) :
    (∀ n, ∃ m, List.Forall₂ M (S.trace c n) (T.trace d m)) ∧
      ∀ m, ∃ n, List.Forall₂ M (S.trace c n) (T.trace d m) :=
  ⟨fun n => simulation.exec_forward n related .nil,
    fun m => simulation.exec_backward m related .nil⟩

end EventSystem

end RefinedC.Library
