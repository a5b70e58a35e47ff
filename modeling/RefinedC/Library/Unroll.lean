import Mathlib.Data.Fintype.Card
import Mathlib.Logic.Relation
import Mathlib.Tactic.Common

/-!
Recursion through a finite table of definitions that do not refer to themselves.

Owns: a fuelled evaluation of table entries, and the theorem that the number of
entries is enough fuel: the evaluation then satisfies its recursion equation.
-/

namespace RefinedC.Library

variable {ν δ β ε : Type}

/-- Evaluates the entry `v`. References to other entries are evaluated with less
fuel, and without fuel the recursion is `stuck`. -/
def unroll (find : ν → Except ε δ) (stuck : ε)
    (body : (ν → Except ε β) → δ → Except ε β) :
    Nat → ν → Except ε β
  | 0, v => do
      let _ ← find v
      .error stuck
  | n + 1, v => do
      let d ← find v
      body (unroll find stuck body n) d

/-- Entry `v` refers to `u`. -/
def Refers (find : ν → Except ε δ) (mentions : δ → List ν) (u v : ν) : Prop :=
  ∃ d, find v = .ok d ∧ u ∈ mentions d

/-- No entry refers to itself, directly or through others. -/
def Acyclic (find : ν → Except ε δ) (mentions : δ → List ν) : Prop :=
  ∀ v, ¬ Relation.TransGen (Refers find mentions) v v

/-- References that decrease a measure have no cycle. -/
theorem acyclic_of_measure {find : ν → Except ε δ} {mentions : δ → List ν}
    (measure : ν → Nat)
    (decreases : ∀ u v, Refers find mentions u v → measure u < measure v) :
    Acyclic find mentions := by
  have below : ∀ u v, Relation.TransGen (Refers find mentions) u v → measure u < measure v := by
    intro u v path
    induction path with
    | single edge => exact decreases _ _ edge
    | tail path edge inductionHypothesis => exact inductionHypothesis.trans (decreases _ _ edge)
  exact fun v cycle => lt_irrefl _ (below v v cycle)

section

variable {find : ν → Except ε δ} {mentions : δ → List ν} {names : Finset ν}

open Classical in
/-- Entries that `v` depends on. -/
noncomputable def ancestors (find : ν → Except ε δ) (mentions : δ → List ν)
    (names : Finset ν) (v : ν) : Finset ν :=
  names.filter fun u => Relation.TransGen (Refers find mentions) u v

private theorem mem_ancestors {u v : ν} : u ∈ ancestors find mentions names v ↔
    u ∈ names ∧ Relation.TransGen (Refers find mentions) u v := by
  classical
  exact Finset.mem_filter

private theorem ancestors_card_lt (acyclic : Acyclic find mentions) {v : ν}
    (member : v ∈ names) :
    (ancestors find mentions names v).card < names.card := by
  apply Finset.card_lt_card
  refine ⟨fun u inside => (mem_ancestors.mp inside).1, fun whole => ?_⟩
  exact acyclic v (mem_ancestors.mp (whole member)).2

private theorem ancestors_card_lt_of_refers (acyclic : Acyclic find mentions) {u v : ν}
    (member : u ∈ names) (edge : Refers find mentions u v) :
    (ancestors find mentions names u).card < (ancestors find mentions names v).card := by
  apply Finset.card_lt_card
  constructor
  · intro w inside
    obtain ⟨known, path⟩ := mem_ancestors.mp inside
    exact mem_ancestors.mpr ⟨known, path.tail edge⟩
  · intro whole
    have self : u ∈ ancestors find mentions names v :=
      mem_ancestors.mpr ⟨member, .single edge⟩
    exact acyclic u (mem_ancestors.mp (whole self)).2

variable {stuck : ε} {body : (ν → Except ε β) → δ → Except ε β}

private theorem unroll_of_error {v : ν} {e : ε} (missing : find v = .error e) (n : Nat) :
    unroll find stuck body n v = .error e := by
  cases n with
  | zero => simp [unroll, missing, bind, Except.bind]
  | succ n => simp [unroll, missing, bind, Except.bind]

/-- More fuel than an entry has ancestors makes no difference. -/
theorem unroll_stable (acyclic : Acyclic find mentions)
    (known : ∀ v d, find v = .ok d → v ∈ names)
    (congruence : ∀ f g d, (∀ u ∈ mentions d, f u = g u) → body f d = body g d)
    {n m : Nat} {v : ν} (enoughN : (ancestors find mentions names v).card < n)
    (enoughM : (ancestors find mentions names v).card < m) :
    unroll find stuck body n v = unroll find stuck body m v := by
  induction n generalizing m v with
  | zero => omega
  | succ n inductionHypothesis =>
      cases m with
      | zero => omega
      | succ m =>
          cases entry : find v with
          | error e => rw [unroll_of_error entry, unroll_of_error entry]
          | ok d =>
              simp only [unroll, entry, bind, Except.bind]
              apply congruence
              intro u mentioned
              cases inner : find u with
              | error e => rw [unroll_of_error inner, unroll_of_error inner]
              | ok d' =>
                  have fewer := ancestors_card_lt_of_refers acyclic (known u d' inner)
                    ⟨d, entry, mentioned⟩
                  exact inductionHypothesis (by omega) (by omega)

/-- With as much fuel as there are entries, the evaluation satisfies its
recursion equation. -/
theorem unroll_eq (acyclic : Acyclic find mentions)
    (known : ∀ v d, find v = .ok d → v ∈ names)
    (congruence : ∀ f g d, (∀ u ∈ mentions d, f u = g u) → body f d = body g d)
    {n : Nat} (enough : names.card ≤ n) (v : ν) :
    unroll find stuck body n v = find v >>= body (unroll find stuck body n) := by
  cases entry : find v with
  | error e => rw [unroll_of_error entry]; rfl
  | ok d =>
      have fewer := ancestors_card_lt acyclic (known v d entry)
      calc
        unroll find stuck body n v = unroll find stuck body (n + 1) v :=
          unroll_stable acyclic known congruence (by omega) (by omega)
        _ = .ok d >>= body (unroll find stuck body n) := by rw [unroll, entry]

end

/-- Entries can be treated in an order in which references come first. -/
theorem Acyclic.induction {find : ν → Except ε δ} {mentions : δ → List ν}
    (acyclic : Acyclic find mentions) {names : Finset ν}
    (known : ∀ v d, find v = .ok d → v ∈ names) {P : ν → Prop}
    (step : ∀ v d, find v = .ok d →
      (∀ u ∈ mentions d, ∀ d', find u = .ok d' → P u) → P v)
    (v : ν) (d : δ) (entry : find v = .ok d) : P v := by
  induction count : (ancestors find mentions names v).card using Nat.strong_induction_on
    generalizing v d with
  | _ k inductionHypothesis =>
      apply step v d entry
      intro u mentioned d' inner
      have fewer := ancestors_card_lt_of_refers acyclic (known u d' inner) ⟨d, entry, mentioned⟩
      exact inductionHypothesis _ (count ▸ fewer) u d' inner rfl

end RefinedC.Library
