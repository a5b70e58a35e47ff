import Mathlib.Data.List.Induction
import Mathlib.Tactic.Common

/-!
Tuples as nested pairs.

Owns: pairs that associate to the left, the selections that lead to a component, and
patterns that take a nest of pairs apart.

Generic in the components and in the names of a pattern.
-/

namespace RefinedC.Library

/-- Pairs of pairs, as a value or as a pattern. -/
inductive Nest (α : Type) where
  | leaf (a : α)
  | pair (left right : Nest α)
deriving DecidableEq

inductive Side where
  | fst
  | snd
deriving DecidableEq

namespace Nest

variable {α ν : Type}

/-- Selections one after the other, the first one first. -/
def select : List Side → Nest α → Option (Nest α)
  | [], t => some t
  | .fst :: path, .pair left _ => select path left
  | .snd :: path, .pair _ right => select path right
  | _ :: _, .leaf _ => none

/-- The tuple of `t` and `ts`. -/
def tuple (t : Nest α) (ts : List (Nest α)) : Nest α := ts.foldl .pair t

/-- What the names of a pattern stand for, from left to right. -/
def destruct : Nest ν → Nest α → Option (List (ν × Nest α))
  | .leaf x, t => some [(x, t)]
  | .pair p q, .pair left right => do
      let first ← destruct p left
      let second ← destruct q right
      some (first ++ second)
  | .pair _ _, .leaf _ => none

/-- Selections of component `i` of a tuple with `n` components. -/
def tuplePath : Nat → Nat → List Side
  | 0, _ | 1, _ => []
  | n + 2, i => if i = n + 1 then [.snd] else .fst :: tuplePath (n + 1) i

private theorem tuple_append_singleton (t : Nest α) (ts : List (Nest α)) (u : Nest α) :
    tuple t (ts ++ [u]) = .pair (tuple t ts) u := by
  rw [tuple, List.foldl_append]
  rfl

theorem tuplePath_ne_nil {n i : Nat} : tuplePath (n + 2) i ≠ [] := by
  rw [tuplePath]
  split
  · exact List.cons_ne_nil _ _
  · exact List.cons_ne_nil _ _

theorem select_leaf_of_ne_nil {path : List Side} (notNil : path ≠ []) (a : α) :
    select path (.leaf a) = none := by
  cases path with
  | nil => exact absurd rfl notNil
  | cons side path => cases side <;> rfl

/-- The path of a component selects this component. -/
theorem select_tuplePath (t : Nest α) (ts : List (Nest α)) {i : Nat} (bound : i ≤ ts.length) :
    select (tuplePath (ts.length + 1) i) (tuple t ts) = (t :: ts)[i]? := by
  -- The last component is the one that is added outermost.
  induction ts using List.reverseRecOn with
  | nil =>
      have first : i = 0 := by simpa using bound
      subst first
      rfl
  | append_singleton ts u inductionHypothesis =>
      rw [List.length_append, List.length_singleton] at bound
      rw [tuple_append_singleton, List.length_append, List.length_singleton, tuplePath,
        ← List.cons_append]
      by_cases last : i = ts.length + 1
      · rw [if_pos last, List.getElem?_append_right (by simp [last])]
        simp [last, select]
      · rw [if_neg last, List.getElem?_append_left (by simp; omega)]
        exact inductionHypothesis (by omega)

/-- A tuple with the same component everywhere. -/
theorem select_tuplePath_replicate (t : Nest α) {n i : Nat} (bound : i ≤ n) :
    select (tuplePath (n + 1) i) (tuple t (List.replicate n t)) = some t := by
  have selected := select_tuplePath t (List.replicate n t) (i := i)
    (by rwa [List.length_replicate])
  rw [← List.replicate_succ, List.getElem?_replicate, if_pos (Nat.lt_succ_of_le bound),
    List.length_replicate] at selected
  exact selected

/-- A tuple of names takes a tuple of as many components apart, name by name. -/
theorem destruct_tuple (x : ν) (xs : List ν) (t : Nest α) (ts : List (Nest α))
    (sameLength : ts.length = xs.length) :
    destruct (tuple (.leaf x) (xs.map .leaf)) (tuple t ts) = some ((x :: xs).zip (t :: ts)) := by
  induction xs using List.reverseRecOn generalizing ts with
  | nil =>
      cases List.eq_nil_of_length_eq_zero sameLength
      rfl
  | append_singleton xs y inductionHypothesis =>
      rcases List.eq_nil_or_concat ts with rfl | ⟨us, u, rfl⟩
      · simp at sameLength
      · rw [List.concat_eq_append] at sameLength ⊢
        rw [List.length_append, List.length_append, List.length_singleton,
          List.length_singleton, Nat.add_right_cancel_iff] at sameLength
        rw [List.map_append, List.map_singleton, tuple_append_singleton, tuple_append_singleton,
          destruct, inductionHypothesis us sameLength, ← List.cons_append, ← List.cons_append,
          List.zip_append (by simp [sameLength])]
        rfl

end Nest

end RefinedC.Library
