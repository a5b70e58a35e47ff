import Mathlib.Logic.Relation
import Mathlib.Tactic.Common

/-!
Languages given by evaluation-context items, and their thread pools.

Owns: the laws of a language with evaluation-context items, contexts as lists
of items, redexes and the uniqueness of the decomposition of an expression into
a context and a redex, primitive steps, and interleaved steps of a pool of
threads over one shared state.

Does not own: any particular language. There is no fork: the number of threads
of a pool never changes.

Contexts list their items from the outside to the inside.
-/

namespace RefinedC.Library

/-- A language whose steps happen under evaluation-context items. -/
structure EctxiLanguage (Expr Val Item State : Type) where
  toVal : Expr → Option Val
  fillItem : Item → Expr → Expr
  headStep : Expr → State → Expr → State → Prop
  valStuck : ∀ {e σ e' σ'}, headStep e σ e' σ' → toVal e = none
  fillItemInj : ∀ {K e e'}, fillItem K e = fillItem K e' → e = e'
  fillItemVal : ∀ {K e}, toVal e = none → toVal (fillItem K e) = none
  fillItemNoValInj : ∀ {K K' e e'}, toVal e = none → toVal e' = none →
    fillItem K e = fillItem K' e' → K = K'
  headStepFillItem : ∀ {K e σ e' σ'}, headStep (fillItem K e) σ e' σ' → (toVal e).isSome

namespace EctxiLanguage

variable {Expr Val Item State : Type} (lang : EctxiLanguage Expr Val Item State)

/-! ## Contexts and redexes -/

def fill (K : List Item) (e : Expr) : Expr :=
  match K with
  | [] => e
  | item :: K => lang.fillItem item (fill K e)

/-- A redex is not a value, and everything in evaluation position is one. -/
def IsRedex (e : Expr) : Prop :=
  lang.toVal e = none ∧ ∀ item e', e = lang.fillItem item e' → (lang.toVal e').isSome

theorem isRedex_of_headStep {e e' : Expr} {σ σ' : State}
    (step : lang.headStep e σ e' σ') : lang.IsRedex e := by
  refine ⟨lang.valStuck step, ?_⟩
  intro item inner shape
  rw [shape] at step
  exact lang.headStepFillItem step

theorem toVal_fill {e : Expr} (notVal : lang.toVal e = none) (K : List Item) :
    lang.toVal (lang.fill K e) = none := by
  induction K with
  | nil => exact notVal
  | cons item K inductionHypothesis => exact lang.fillItemVal inductionHypothesis

theorem fill_append (K K' : List Item) (e : Expr) :
    lang.fill (K ++ K') e = lang.fill K (lang.fill K' e) := by
  induction K with
  | nil => rfl
  | cons item K inductionHypothesis =>
      show lang.fillItem item (lang.fill (K ++ K') e) = _
      rw [inductionHypothesis]
      rfl

theorem fill_inj (K : List Item) {e e' : Expr} (equal : lang.fill K e = lang.fill K e') :
    e = e' := by
  induction K with
  | nil => exact equal
  | cons item K inductionHypothesis => exact inductionHypothesis (lang.fillItemInj equal)

theorem fill_redex_ne {item : Item} {K : List Item} {e e' : Expr}
    (redex : lang.IsRedex e) (notVal : lang.toVal e' = none) :
    e ≠ lang.fillItem item (lang.fill K e') := by
  intro equal
  have inner := redex.2 item _ equal
  rw [lang.toVal_fill notVal] at inner
  exact absurd inner (by simp)

/-- The decomposition of an expression into context and redex is unique. -/
theorem fill_redex_unique {K K' : List Item} {e e' : Expr}
    (redex : lang.IsRedex e) (redex' : lang.IsRedex e')
    (equal : lang.fill K e = lang.fill K' e') : K = K' ∧ e = e' := by
  induction K generalizing K' with
  | nil =>
      cases K' with
      | nil => exact ⟨rfl, equal⟩
      | cons item K' => exact absurd equal (lang.fill_redex_ne redex redex'.1)
  | cons item K inductionHypothesis =>
      cases K' with
      | nil => exact absurd equal.symm (lang.fill_redex_ne redex' redex.1)
      | cons item' K' =>
          have sameItem : item = item' :=
            lang.fillItemNoValInj (lang.toVal_fill redex.1 K) (lang.toVal_fill redex'.1 K') equal
          subst sameItem
          obtain ⟨sameContext, sameRedex⟩ := inductionHypothesis (lang.fillItemInj equal)
          exact ⟨by rw [sameContext], sameRedex⟩

/-! ## Steps of a thread and of a pool of threads -/

/-- A head step under an evaluation context. -/
inductive PrimStep : Expr → State → Expr → State → Prop where
  | ectx {e e' : Expr} {σ σ' : State} (K : List Item) (step : lang.headStep e σ e' σ') :
      PrimStep (lang.fill K e) σ (lang.fill K e') σ'

theorem PrimStep.toVal_eq_none {lang : EctxiLanguage Expr Val Item State} {e e' : Expr}
    {σ σ' : State} (step : lang.PrimStep e σ e' σ') : lang.toVal e = none := by
  obtain ⟨K, step⟩ := step
  exact lang.toVal_fill (lang.valStuck step) K

theorem PrimStep.fill {lang : EctxiLanguage Expr Val Item State} {e e' : Expr} {σ σ' : State}
    (step : lang.PrimStep e σ e' σ') (K : List Item) :
    lang.PrimStep (lang.fill K e) σ (lang.fill K e') σ' := by
  obtain ⟨K', step⟩ := step
  rw [← lang.fill_append, ← lang.fill_append]
  exact .ectx (K ++ K') step

/-- The redex of a filled context is inside of it. -/
theorem fill_redex_inside {K K' : List Item} {e e' : Expr} (notVal : lang.toVal e = none)
    (redex : lang.IsRedex e') (equal : lang.fill K e = lang.fill K' e') :
    ∃ K'', K' = K ++ K'' ∧ e = lang.fill K'' e' := by
  induction K generalizing K' with
  | nil => exact ⟨K', rfl, equal⟩
  | cons item K inductionHypothesis =>
      cases K' with
      | nil => exact absurd equal.symm (lang.fill_redex_ne redex notVal)
      | cons item' K' =>
          have sameItem : item = item' :=
            lang.fillItemNoValInj (lang.toVal_fill notVal K) (lang.toVal_fill redex.1 K') equal
          subst sameItem
          obtain ⟨K'', rfl, inner⟩ := inductionHypothesis (lang.fillItemInj equal)
          exact ⟨K'', rfl, inner⟩

/-- A step of a filled context is a step of what fills it. -/
theorem PrimStep.inside {lang : EctxiLanguage Expr Val Item State} {K : List Item} {e t' : Expr}
    {σ σ' : State} (step : lang.PrimStep (lang.fill K e) σ t' σ')
    (notVal : lang.toVal e = none) : ∃ e', lang.PrimStep e σ e' σ' ∧ t' = lang.fill K e' := by
  generalize shape : lang.fill K e = t at step
  obtain ⟨K', step⟩ := step
  obtain ⟨K'', rfl, rfl⟩ :=
    lang.fill_redex_inside notVal (lang.isRedex_of_headStep step) shape
  exact ⟨_, .ectx K'' step, lang.fill_append K K'' _⟩

/-- A step of an expression whose redex is known is a step of that redex. -/
theorem PrimStep.headStep {lang : EctxiLanguage Expr Val Item State} {K : List Item}
    {e t' : Expr} {σ σ' : State} (step : lang.PrimStep (lang.fill K e) σ t' σ')
    (redex : lang.IsRedex e) : ∃ e', lang.headStep e σ e' σ' ∧ t' = lang.fill K e' := by
  generalize shape : lang.fill K e = t at step
  obtain ⟨K', step⟩ := step
  rename_i e' e''
  obtain ⟨rfl, rfl⟩ := lang.fill_redex_unique redex (lang.isRedex_of_headStep step) shape
  exact ⟨e'', step, rfl⟩

/-- Threads and the state they share. -/
abbrev Config (Expr State : Type) := List Expr × State

/-- Thread number `i` of the pool takes a step. -/
def PoolStepBy (i : Nat) (c c' : Config Expr State) : Prop :=
  ∃ e e', c.1[i]? = some e ∧ lang.PrimStep e c.2 e' c'.2 ∧ c'.1 = c.1.set i e'

def PoolStep (c c' : Config Expr State) : Prop := ∃ i, lang.PoolStepBy i c c'

/-- The step of a thread whose redex is known is a step of that redex. -/
theorem PoolStepBy.headStep {lang : EctxiLanguage Expr Val Item State} {i : Nat}
    {c c' : Config Expr State} {K : List Item} {e : Expr} (step : lang.PoolStepBy i c c')
    (redex : lang.IsRedex e) (thread : c.1[i]? = some (lang.fill K e)) :
    ∃ e', lang.headStep e c.2 e' c'.2 ∧ c'.1[i]? = some (lang.fill K e') := by
  obtain ⟨t, t', found, step, threads⟩ := step
  have bound : i < c.1.length := (List.getElem?_eq_some_iff.mp thread).1
  rw [thread] at found
  cases found
  obtain ⟨e', head, rfl⟩ := step.headStep redex
  exact ⟨e', head, by rw [threads, List.getElem?_set_self bound]⟩

/-- Every interleaving of the threads of a pool. -/
def PoolSteps : Config Expr State → Config Expr State → Prop :=
  Relation.ReflTransGen lang.PoolStep

/-- An invariant of every step of a pool holds in every configuration that a
run reaches. -/
theorem invariant_of_poolSteps {Inv : Config Expr State → Prop}
    (preserved : ∀ {c c'}, Inv c → lang.PoolStep c c' → Inv c')
    {c c' : Config Expr State} (initial : Inv c) (run : lang.PoolSteps c c') : Inv c' := by
  induction run with
  | refl => exact initial
  | tail _ step inductionHypothesis => exact preserved inductionHypothesis step

/-- The first `n` steps of a sequence of configurations are steps of the pool. -/
def IsRun (cs : Nat → Config Expr State) (n : Nat) : Prop :=
  ∀ k < n, lang.PoolStep (cs k) (cs (k + 1))

theorem IsRun.poolSteps {lang : EctxiLanguage Expr Val Item State} {cs : Nat → Config Expr State}
    {n : Nat} (run : lang.IsRun cs n) {i j : Nat} (order : i ≤ j) (bound : j ≤ n) :
    lang.PoolSteps (cs i) (cs j) := by
  induction order with
  | refl => exact .refl
  | @step j _ inductionHypothesis =>
      exact (inductionHypothesis (by omega)).tail (run j (by omega))

/-! ## Steps of all threads but one -/

/-- A run in which thread `i` takes no step. -/
def StepsByOthers (i : Nat) : Config Expr State → Config Expr State → Prop :=
  Relation.ReflTransGen (fun c c' => ∃ j, j ≠ i ∧ lang.PoolStepBy j c c')

theorem PoolStepBy.thread_other {lang : EctxiLanguage Expr Val Item State} {i j : Nat}
    {c c' : Config Expr State} (step : lang.PoolStepBy j c c') (other : j ≠ i) :
    c'.1[i]? = c.1[i]? := by
  obtain ⟨_, e', -, -, threads⟩ := step
  rw [threads, List.getElem?_set_ne other]

theorem StepsByOthers.thread {lang : EctxiLanguage Expr Val Item State} {i : Nat}
    {c c' : Config Expr State} (run : lang.StepsByOthers i c c') : c'.1[i]? = c.1[i]? := by
  induction run with
  | refl => rfl
  | tail _ step inductionHypothesis =>
      obtain ⟨j, other, step⟩ := step
      rw [step.thread_other other, inductionHypothesis]

/-- Thread `i` took no step in a run, or it took a last one. -/
theorem PoolSteps.last_step {lang : EctxiLanguage Expr Val Item State}
    {c c' : Config Expr State} (run : lang.PoolSteps c c') (i : Nat) :
    lang.StepsByOthers i c c' ∨
      ∃ c1 c2, lang.PoolSteps c c1 ∧ lang.PoolStepBy i c1 c2 ∧
        lang.StepsByOthers i c2 c' := by
  induction run with
  | refl => exact .inl .refl
  | @tail c1 c2 before step inductionHypothesis =>
      obtain ⟨j, step⟩ := step
      by_cases same : j = i
      · subst same
        exact .inr ⟨c1, c2, before, step, .refl⟩
      · rcases inductionHypothesis with others | ⟨d1, d2, start, last, others⟩
        · exact .inl (others.tail ⟨j, same, step⟩)
        · exact .inr ⟨d1, d2, start, last, others.tail ⟨j, same, step⟩⟩

end EctxiLanguage

end RefinedC.Library
