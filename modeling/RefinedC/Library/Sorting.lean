import Mathlib.Data.Fintype.Card
import Mathlib.Data.List.Dedup
import Mathlib.Data.List.Sort
import Mathlib.Data.Set.Finite.List
import Mathlib.Data.String.Basic
import Mathlib.Logic.Relation
import Mathlib.Order.WellFounded
import Mathlib.Tactic.Ring

/-!
Sorting of lists.

Owns: sorted lists of strings without duplicates, and the topological sort that works
off a queue: an element that is ready is taken from the front, another one goes to the
back. When the needs of the elements have no cycle the sort returns, after at most
`n * n + 1` calls for `n` elements.
-/

namespace RefinedC.Library

def sortUniq (l : List String) : List String := (l.insertionSort (· ≤ ·)).dedup

theorem mem_sortUniq {l : List String} {s : String} : s ∈ sortUniq l ↔ s ∈ l := by
  rw [sortUniq, List.mem_dedup, List.mem_insertionSort]

/-! ## Sorting by rotation -/

variable {α ι : Type} (key : α → ι) (needs : α → List ι)

/-- `x` is needed by the element of the queue with key `y`. -/
def NeededBy (as : List α) (x y : ι) : Prop := ∃ a ∈ as, key a = y ∧ x ∈ needs a

/-- What an element of the queue needs has been taken or is in the queue. -/
def Closed (found : List ι) (as : List α) : Prop :=
  ∀ a ∈ as, ∀ x ∈ needs a, x ∈ found ∨ x ∈ as.map key

def NoCycle (as : List α) : Prop := ∀ x, ¬ Relation.TransGen (NeededBy key needs as) x x

theorem NoCycle.mono {key : α → ι} {needs : α → List ι} {as as' : List α}
    (noCycle : NoCycle key needs as) (sub : as' ⊆ as) : NoCycle key needs as' := fun x cycle =>
  noCycle x (Relation.TransGen.mono
    (fun _ _ ⟨a, member, isKey, needed⟩ => ⟨a, sub member, isKey, needed⟩) _ _ cycle)

variable [DecidableEq ι]

def IsReady (found : List ι) (a : α) : Bool := (needs a).all fun x => found.contains x

/-- Sorts the queue when the keys in `found` have been taken. The first argument bounds
the number of calls. -/
def rotateSort : Nat → List ι → List α → Option (List α)
  | 0, _, _ => none
  | _ + 1, _, [] => some []
  | n + 1, found, a :: as =>
      if IsReady needs found a then (rotateSort n (key a :: found) as).map (a :: ·)
      else rotateSort n found (as ++ [a])

variable {key needs} {found : List ι} {as : List α} {a : α}

private theorem isReady_iff : IsReady needs found a = true ↔ ∀ x ∈ needs a, x ∈ found := by
  simp [IsReady]

/-- Some element needs nothing that is still in the queue. -/
theorem exists_ready (noCycle : NoCycle key needs as) (closed : Closed key needs found as)
    (nonempty : as ≠ []) : ∃ a ∈ as, IsReady needs found a = true := by
  let Below (x y : {x // x ∈ as.map key}) := Relation.TransGen (NeededBy key needs as) x.1 y.1
  have trans : IsTrans _ Below := ⟨fun _ _ _ first second => first.trans second⟩
  have irrefl : Std.Irrefl Below := ⟨fun x => noCycle x.1⟩
  have finite : Finite {x // x ∈ as.map key} := (as.map key).finite_toSet
  obtain ⟨first, member⟩ := List.exists_mem_of_ne_nil as nonempty
  have wellFounded : WellFounded Below := Finite.wellFounded_of_trans_of_irrefl Below
  obtain ⟨⟨_, isMin⟩, -, minimal⟩ := wellFounded.has_min Set.univ
    ⟨⟨key first, List.mem_map_of_mem member⟩, trivial⟩
  obtain ⟨a, inQueue, rfl⟩ := List.mem_map.mp isMin
  refine ⟨a, inQueue, isReady_iff.mpr fun x needed => ?_⟩
  refine (closed a inQueue x needed).resolve_right fun waiting => ?_
  exact minimal ⟨x, waiting⟩ trivial (.single ⟨a, inQueue, rfl, needed⟩)

/-- Elements that are not ready go to the back. -/
theorem rotateSort_append (n : Nat) {before : List α} (rest : List α)
    (notReady : ∀ a ∈ before, IsReady needs found a = false) :
    rotateSort key needs (before.length + n) found (before ++ rest) =
      rotateSort key needs n found (rest ++ before) := by
  induction before generalizing rest with
  | nil => simp
  | cons a before inductionHypothesis =>
      have step : (a :: before).length + n = (before.length + n) + 1 := by
        rw [List.length_cons]
        omega
      rw [step, List.cons_append, rotateSort, notReady a List.mem_cons_self, List.append_assoc]
      have rotated := inductionHypothesis (rest ++ [a]) fun b member =>
        notReady b (List.mem_cons_of_mem a member)
      rw [List.append_assoc, List.singleton_append] at rotated
      exact rotated

/-- The sort returns when no element needs itself, directly or through others. -/
theorem rotateSort_returns (noCycle : NoCycle key needs as) (closed : Closed key needs found as) :
    ∃ sorted, ∀ fuel, as.length * as.length < fuel →
      rotateSort key needs fuel found as = some sorted := by
  induction isLength : as.length generalizing as found with
  | zero =>
      rw [List.length_eq_zero_iff.mp isLength]
      refine ⟨[], fun fuel enough => ?_⟩
      obtain ⟨n, rfl⟩ := Nat.exists_eq_succ_of_ne_zero (Nat.ne_of_gt enough)
      rfl
  | succ size inductionHypothesis =>
      have nonempty : as ≠ [] := fun none => by simp [none] at isLength
      obtain ⟨_, isMember, isReady⟩ := exists_ready noCycle closed nonempty
      -- the first element that is ready
      obtain ⟨a, found?⟩ := Option.isSome_iff_exists.mp
        (List.find?_isSome.mpr ⟨_, isMember, isReady⟩)
      obtain ⟨ready, before, after, rfl, notReady⟩ := List.find?_eq_some_iff_append.mp found?
      rw [List.length_append, List.length_cons] at isLength
      have rest : (after ++ before).length = size := by
        rw [List.length_append]
        omega
      have closedRest : Closed key needs (key a :: found) (after ++ before) := by
        intro b member x needed
        have := closed b (by grind) x needed
        simp only [List.map_append, List.map_cons, List.mem_append, List.mem_cons] at this ⊢
        grind
      obtain ⟨sorted, returns⟩ := inductionHypothesis (noCycle.mono (by grind)) closedRest rest
      refine ⟨a :: sorted, fun fuel enough => ?_⟩
      have square : (size + 1) * (size + 1) = size * size + 2 * size + 1 := by ring
      obtain ⟨n, rfl⟩ : ∃ n, fuel = before.length + (n + 1) :=
        ⟨fuel - before.length - 1, by omega⟩
      rw [rotateSort_append (n + 1) (a :: after) (by simpa using notReady), List.cons_append,
        rotateSort, if_pos ready, returns n (by omega)]
      rfl

/-- The result is a permutation of the queue. -/
theorem rotateSort_perm {fuel : Nat} {sorted : List α}
    (result : rotateSort key needs fuel found as = some sorted) : sorted.Perm as := by
  induction fuel generalizing found as sorted with
  | zero => cases result
  | succ n inductionHypothesis =>
      cases as with
      | nil =>
          cases result
          exact .nil
      | cons a as =>
          rw [rotateSort] at result
          split at result
          · obtain ⟨rest, sorts, rfl⟩ := Option.map_eq_some_iff.mp result
            exact (inductionHypothesis sorts).cons a
          · exact (inductionHypothesis result).trans (List.perm_append_singleton a as)

/-- Every element of the result comes after what it needs. -/
theorem rotateSort_ordered {fuel : Nat} {before after : List α}
    (result : rotateSort key needs fuel found as = some (before ++ a :: after)) :
    ∀ x ∈ needs a, x ∈ found ∨ x ∈ before.map key := by
  induction fuel generalizing found as before with
  | zero => cases result
  | succ n inductionHypothesis =>
      cases as with
      | nil => simp [rotateSort] at result
      | cons b as =>
          rw [rotateSort] at result
          split at result
          next ready =>
            obtain ⟨rest, sorts, same⟩ := Option.map_eq_some_iff.mp result
            cases before with
            | nil =>
                obtain ⟨rfl, rfl⟩ := List.cons.inj same
                exact fun x needed => .inl (isReady_iff.mp ready x needed)
            | cons c before =>
                obtain ⟨rfl, rfl⟩ := List.cons.inj same
                intro x needed
                have := inductionHypothesis sorts x needed
                simp only [List.map_cons, List.mem_cons] at this ⊢
                grind
          next => exact inductionHypothesis result

end RefinedC.Library
