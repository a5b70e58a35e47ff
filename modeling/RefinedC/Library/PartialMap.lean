import Mathlib.Logic.Basic

/-!
Finite-map vocabulary for partial functions.

Owns: lookup-by-application partial maps with pointwise alteration, insertion
and deletion, maps of lists of bindings, and the lookup laws that rewrite every
one of these operations.

Does not own: finiteness or enumeration of the domain. No result built on this
module depends on how many keys a map has.
-/

namespace RefinedC.Library

universe u v

/-- A partial map. Lookup is application. -/
abbrev PartialMap (Key : Type u) (Value : Type v) := Key → Option Value

namespace PartialMap

variable {Key : Type u} {Value : Type v} [DecidableEq Key]

def empty : PartialMap Key Value := fun _ => none

/-- Replace the binding of one key by a function of its old binding. -/
def partialAlter (update : Option Value → Option Value) (key : Key)
    (map : PartialMap Key Value) : PartialMap Key Value :=
  fun candidate => if candidate = key then update (map key) else map candidate

def insert (key : Key) (value : Value) (map : PartialMap Key Value) :
    PartialMap Key Value :=
  map.partialAlter (fun _ => some value) key

def delete (key : Key) (map : PartialMap Key Value) : PartialMap Key Value :=
  map.partialAlter (fun _ => none) key

/-- The map of a list of bindings. The first one of a key counts. -/
def ofList (bindings : List (Key × Value)) : PartialMap Key Value :=
  bindings.foldr (fun binding map => map.insert binding.1 binding.2) empty

variable {map : PartialMap Key Value} {update : Option Value → Option Value}
  {key other : Key} {value : Value}

@[simp] theorem partialAlter_same :
    map.partialAlter update key key = update (map key) := by
  simp [partialAlter]

theorem partialAlter_other (different : other ≠ key) :
    map.partialAlter update key other = map other := by
  simp [partialAlter, different]

@[simp] theorem insert_same : map.insert key value key = some value :=
  partialAlter_same

theorem insert_other (different : other ≠ key) :
    map.insert key value other = map other :=
  partialAlter_other different

@[simp] theorem delete_same : map.delete key key = none :=
  partialAlter_same

theorem delete_other (different : other ≠ key) :
    map.delete key other = map other :=
  partialAlter_other different

/-! ## Maps of lists -/

variable {bindings : List (Key × Value)}

private theorem ofList_cons (binding : Key × Value) (bindings : List (Key × Value)) :
    ofList (binding :: bindings) = (ofList bindings).insert binding.1 binding.2 := rfl

theorem ofList_eq_none : ofList bindings key = none ↔ key ∉ bindings.map Prod.fst := by
  induction bindings with
  | nil => simp [ofList, empty]
  | cons binding bindings inductionHypothesis =>
      rw [ofList_cons, List.map_cons, List.mem_cons]
      by_cases same : key = binding.1
      · simp [same]
      · rw [insert_other same, inductionHypothesis]
        simp [same]

/-- Where no key is bound twice, every binding counts. -/
theorem ofList_of_mem (nodup : (bindings.map Prod.fst).Nodup) (bound : (key, value) ∈ bindings) :
    ofList bindings key = some value := by
  induction bindings with
  | nil => cases bound
  | cons binding bindings inductionHypothesis =>
      rw [List.map_cons, List.nodup_cons] at nodup
      rw [ofList_cons]
      rcases List.mem_cons.mp bound with rfl | inTail
      · exact insert_same
      · have other : key ≠ binding.1 := by
          rintro rfl
          exact nodup.1 (List.mem_map.mpr ⟨_, inTail, rfl⟩)
        rw [insert_other other, inductionHypothesis nodup.2 inTail]

theorem mem_of_ofList (bound : ofList bindings key = some value) : (key, value) ∈ bindings := by
  induction bindings with
  | nil => cases bound
  | cons binding bindings inductionHypothesis =>
      rw [ofList_cons] at bound
      by_cases same : key = binding.1
      · rw [same, insert_same] at bound
        cases bound
        exact same ▸ List.mem_cons_self
      · rw [insert_other same] at bound
        exact List.mem_cons_of_mem _ (inductionHypothesis bound)

theorem ofList_eq_lookup [BEq Key] [LawfulBEq Key] (bindings : List (Key × Value)) (key : Key) :
    ofList bindings key = bindings.lookup key := by
  induction bindings with
  | nil => rfl
  | cons binding bindings inductionHypothesis =>
      rw [ofList_cons]
      by_cases same : key = binding.1
      · rw [same, insert_same, List.lookup_cons_self]
      · rw [insert_other same, inductionHypothesis, List.lookup_cons, beq_false_of_ne same]

theorem ofList_map {Value' : Type v} (f : Value → Value') :
    ofList (bindings.map fun binding => (binding.1, f binding.2)) key =
      (ofList bindings key).map f := by
  induction bindings with
  | nil => rfl
  | cons binding bindings inductionHypothesis =>
      rw [List.map_cons, ofList_cons, ofList_cons]
      by_cases same : key = binding.1
      · rw [same, insert_same, insert_same, Option.map_some]
      · rw [insert_other same, insert_other same, inductionHypothesis]

end PartialMap

end RefinedC.Library
