import RefinedC.Library.Ectxi

/-!
Evaluation of one thread of a pool, up to the states that others leave.

Owns: sequences of steps of an expression between which the shared state may change
as long as a condition holds, and how evaluations under contexts and of redexes split.

Does not own: which changes other threads make. Every run of a pool in which the
condition holds of all states is such a sequence for each of its threads.
-/

namespace RefinedC.Library

namespace EctxiLanguage

variable {Expr Val Item State : Type} (lang : EctxiLanguage Expr Val Item State)

/-- A step of the expression, or a change of the state. The state that results satisfies `P`. -/
def StepIn (P : State → Prop) (a b : Expr × State) : Prop :=
  P b.2 ∧ (lang.PrimStep a.1 a.2 b.1 b.2 ∨ a.1 = b.1)

def StepsIn (P : State → Prop) : Expr × State → Expr × State → Prop :=
  Relation.ReflTransGen (lang.StepIn P)

variable {lang} {P : State → Prop} {a b : Expr × State}

/-- All states satisfy the condition. -/
theorem StepsIn.holds (run : lang.StepsIn P a b) (start : P a.2) : P b.2 := by
  induction run with
  | refl => exact start
  | tail _ step _ => exact step.1

/-- Values do not change. -/
theorem StepsIn.of_value (run : lang.StepsIn P a b) (isVal : (lang.toVal a.1).isSome) :
    b.1 = a.1 := by
  induction run with
  | refl => rfl
  | @tail c d _ step inductionHypothesis =>
      rcases step.2 with prim | same
      · rw [← inductionHypothesis] at isVal
        obtain ⟨e, σ⟩ := c
        obtain ⟨e', σ'⟩ := d
        obtain ⟨K, head⟩ := prim
        rw [lang.toVal_fill (lang.valStuck head)] at isVal
        cases isVal
      · rw [← same, inductionHypothesis]

/-- To evaluate a filled context, what fills it is evaluated first. -/
theorem StepsIn.split {K : List Item} {e : Expr} {σ : State}
    (run : lang.StepsIn P (lang.fill K e, σ) b) (isVal : (lang.toVal b.1).isSome) :
    ∃ e' σ', (lang.toVal e').isSome ∧ lang.StepsIn P (e, σ) (e', σ') ∧
      lang.StepsIn P (lang.fill K e', σ') b := by
  generalize start : (lang.fill K e, σ) = a at run
  revert e σ
  induction run using Relation.ReflTransGen.head_induction_on with
  | refl =>
      rintro e σ rfl
      refine ⟨e, σ, ?_, .refl, .refl⟩
      by_contra notVal
      rw [lang.toVal_fill (Option.not_isSome_iff_eq_none.mp notVal)] at isVal
      cases isVal
  | @head a c step rest inductionHypothesis =>
      rintro e σ rfl
      by_cases value : (lang.toVal e).isSome
      · exact ⟨e, σ, value, .refl, .head step rest⟩
      · obtain ⟨e1, inner, filled⟩ : ∃ e1, lang.StepIn P (e, σ) (e1, c.2) ∧
            lang.fill K e1 = c.1 := by
          obtain ⟨holds, prim | same⟩ := step
          · obtain ⟨e1, inner, filled⟩ := prim.inside (Option.not_isSome_iff_eq_none.mp value)
            exact ⟨e1, ⟨holds, .inl inner⟩, filled.symm⟩
          · exact ⟨e, ⟨holds, .inr rfl⟩, same⟩
        obtain ⟨e', σ', isValue, before, after⟩ :=
          inductionHypothesis (e := e1) (σ := c.2) (by rw [filled])
        exact ⟨e', σ', isValue, .head inner before, after⟩

/-- Evaluation goes on under a context. -/
theorem StepsIn.fill (K : List Item) {e e' : Expr} {σ σ' : State}
    (run : lang.StepsIn P (e, σ) (e', σ')) :
    lang.StepsIn P (lang.fill K e, σ) (lang.fill K e', σ') := by
  have lifted : ∀ {a b : Expr × State}, lang.StepIn P a b →
      lang.StepIn P (lang.fill K a.1, a.2) (lang.fill K b.1, b.2) := by
    rintro ⟨e, σ⟩ ⟨e', σ'⟩ ⟨holds, prim | same⟩
    · exact ⟨holds, .inl (prim.fill K)⟩
    · exact ⟨holds, .inr (congrArg (lang.fill K) same)⟩
  exact Relation.ReflTransGen.lift (fun a : Expr × State => (lang.fill K a.1, a.2))
    (fun a b => lifted) _ _ run

/-- A filled context evaluates as what fills it, and then the context around its value. -/
theorem stepsIn_fill_iff {K : List Item} {e : Expr} {σ : State} (isVal : (lang.toVal b.1).isSome) :
    lang.StepsIn P (lang.fill K e, σ) b ↔
      ∃ e' σ', (lang.toVal e').isSome ∧ lang.StepsIn P (e, σ) (e', σ') ∧
        lang.StepsIn P (lang.fill K e', σ') b := by
  constructor
  · exact fun run => run.split isVal
  · rintro ⟨e', σ', -, before, after⟩
    exact (before.fill K).trans after

/-- The first step of a redex is a head step. -/
theorem StepsIn.head {e : Expr} {σ : State} (run : lang.StepsIn P (e, σ) b) (start : P σ)
    (isVal : (lang.toVal b.1).isSome) (redex : lang.IsRedex e) :
    ∃ σ1 e' σ2, P σ1 ∧ lang.headStep e σ1 e' σ2 ∧ P σ2 ∧
      lang.StepsIn P (e', σ2) b := by
  generalize isStart : (e, σ) = a at run
  revert σ
  induction run using Relation.ReflTransGen.head_induction_on with
  | refl =>
      rintro σ start rfl
      rw [redex.1] at isVal
      cases isVal
  | @head a c step rest inductionHypothesis =>
      rintro σ start rfl
      obtain ⟨holds, prim | same⟩ := step
      · obtain ⟨e', head, filled⟩ := PrimStep.headStep (K := []) prim redex
        refine ⟨σ, e', c.2, start, head, holds, ?_⟩
        rw [show e' = c.1 from filled.symm]
        exact rest
      · exact inductionHypothesis (σ := c.2) holds (by rw [show e = c.1 from same])

/-- A run of a pool whose states satisfy the condition is, for each of its threads, a
sequence of steps and of changes of the state. -/
theorem stepsIn_of_pool {i : Nat} {c c' : Config Expr State}
    (run : Relation.ReflTransGen (fun a b => P b.2 ∧ lang.PoolStep a b) c c')
    {e t : Expr} (thread : c.1[i]? = some e) (thread' : c'.1[i]? = some t) :
    lang.StepsIn P (e, c.2) (t, c'.2) := by
  induction run generalizing t with
  | refl =>
      rw [thread] at thread'
      cases thread'
      exact .refl
  | @tail c1 c2 _ step inductionHypothesis =>
      obtain ⟨holds, j, step⟩ := step
      by_cases same : j = i
      · subst same
        obtain ⟨u, u', found, prim, threads⟩ := step
        have bound : j < c1.1.length := (List.getElem?_eq_some_iff.mp found).1
        rw [threads, List.getElem?_set_self bound] at thread'
        cases thread'
        exact (inductionHypothesis found).tail ⟨holds, .inl prim⟩
      · rw [step.thread_other same] at thread'
        exact (inductionHypothesis thread').tail ⟨holds, .inr rfl⟩

end EctxiLanguage

end RefinedC.Library
