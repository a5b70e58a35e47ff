import RefinedC.Frontend.StructAgreement
import RefinedC.Library.Sorting

/-!
The order of the printed struct and union definitions.

Source: `struct_deps` of `frontend/ail_to_coq.ml`, and `sort_structs` of
`frontend/coq_pp.ml`.

Owns: the dependencies of a declaration, their agreement with the tags in its members,
and the sort, which returns when no declaration contains itself.
-/

namespace RefinedC.Frontend

open Library

/-! ## Dependencies -/

def extendDeps (acc : List String) : Coq.Layout → List String
  | .void | .bool | .ptr | .int _ => acc
  | .struct id _ => id :: acc
  | .array l _ => extendDeps acc l

/-- `struct_deps` of a declaration with the name `id`. -/
def structDeps (id : String) (members : List (String × Coq.FieldData)) : List String :=
  let deps := (members.foldl (fun acc m => extendDeps acc m.2.layout) []).reverse
  (sortUniq deps).filter (· ≠ id)

/-- The tag occurs in the layout directly or under arrays. -/
inductive OccursIn (tag : String) : Coq.Layout → Prop where
  | struct {isUnion} : OccursIn tag (.struct tag isUnion)
  | array {l n} : OccursIn tag l → OccursIn tag (.array l n)

private theorem mem_extendDeps {acc : List String} {l : Coq.Layout} {tag : String} :
    tag ∈ extendDeps acc l ↔ tag ∈ acc ∨ OccursIn tag l := by
  induction l with
  | struct id isUnion =>
      rw [extendDeps, List.mem_cons]
      constructor
      · rintro (rfl | member)
        · exact .inr .struct
        · exact .inl member
      · rintro (member | occurs)
        · exact .inr member
        · cases occurs
          exact .inl rfl
  | array l n inductionHypothesis =>
      rw [extendDeps, inductionHypothesis]
      exact or_congr_right ⟨.array, fun | .array occurs => occurs⟩
  | void | bool | ptr | int it => exact ⟨.inl, fun member => member.elim id nofun⟩

private theorem mem_foldl_extendDeps {members : List (String × Coq.FieldData)} {acc : List String}
    {tag : String} : tag ∈ members.foldl (fun acc m => extendDeps acc m.2.layout) acc ↔
      tag ∈ acc ∨ ∃ m ∈ members, OccursIn tag m.2.layout := by
  induction members generalizing acc with
  | nil => simp
  | cons m members inductionHypothesis =>
      rw [List.foldl_cons, inductionHypothesis, mem_extendDeps, or_assoc]
      simp only [List.mem_cons, exists_eq_or_imp]

/-- The dependencies are the tags in the members, without the declaration's own. -/
theorem mem_structDeps {id tag : String} {members : List (String × Coq.FieldData)} :
    tag ∈ structDeps id members ↔
      tag ≠ id ∧ ∃ m ∈ members, OccursIn tag m.2.layout := by
  rw [structDeps, List.mem_filter, mem_sortUniq, List.mem_reverse, mem_foldl_extendDeps]
  simp [and_comm]

/-! ## Sorting -/

/-- A declaration with its dependencies. -/
structure StructWithDeps extends Coq.StructDecl where
  deps : List String

def withDeps (d : String × Coq.StructDecl) : String × StructWithDeps :=
  (d.1, { d.2 with deps := structDeps d.1 d.2.members })

/-- The first argument bounds the number of calls. -/
def sortStructs : Nat → List String → List (String × StructWithDeps) →
    Option (List (String × StructWithDeps))
  | 0, _, _ => none
  | _ + 1, _, [] => some []
  | n + 1, found, (id, s) :: strs =>
      if s.deps.all fun id => found.contains id then
        (sortStructs n (id :: found) strs).map ((id, s) :: ·)
      else sortStructs n found (strs ++ [(id, s)])

theorem sortStructs_eq_rotateSort (fuel : Nat) (found : List String)
    (strs : List (String × StructWithDeps)) :
    sortStructs fuel found strs = rotateSort Prod.fst (fun d => d.2.deps) fuel found strs := by
  induction fuel generalizing found strs with
  | zero => rfl
  | succ n inductionHypothesis =>
      cases strs with
      | nil => rfl
      | cons d strs =>
          rw [sortStructs, rotateSort, inductionHypothesis, inductionHypothesis]
          rfl

/-- `x` is a dependency of the declaration `y`. -/
def DependencyOf (structs : List (String × Coq.StructDecl)) (x y : String) : Prop :=
  ∃ d ∈ structs, d.1 = y ∧ x ∈ structDeps d.1 d.2.members

private theorem neededBy_iff_dependencyOf {structs : List (String × Coq.StructDecl)}
    {x y : String} :
    NeededBy Prod.fst (fun d : String × StructWithDeps => d.2.deps) (structs.map withDeps) x y ↔
      DependencyOf structs x y := by
  constructor
  · rintro ⟨_, member, isName, needed⟩
    obtain ⟨d, isDecl, rfl⟩ := List.mem_map.mp member
    exact ⟨d, isDecl, isName, needed⟩
  · rintro ⟨d, isDecl, isName, needed⟩
    exact ⟨withDeps d, List.mem_map_of_mem isDecl, isName, needed⟩

private theorem map_fst_withDeps (structs : List (String × Coq.StructDecl)) :
    (structs.map withDeps).map Prod.fst = structs.map Prod.fst := by
  simp [withDeps]

/-- Every declaration comes after its dependencies, and its printed definition refers to
earlier ones only. -/
structure TopologicallySorted (sorted : List (String × StructWithDeps)) : Prop where
  deps : ∀ before d after, sorted = before ++ d :: after → ∀ x ∈ d.2.deps,
    x ∈ before.map Prod.fst ∧ x ∉ (d :: after).map Prod.fst
  printed : ∀ before d after, sorted = before ++ d :: after →
    ∀ entry ∈ ppMembers d.2.members (!d.2.isUnion), ∀ l tag, entry.2 = .layout l →
      OccursIn tag l → tag ≠ d.1 → tag ∈ before.map Prod.fst

/-- Printed members mention only the tags in the members' layouts. -/
theorem occursIn_of_printed {decl : Coq.StructDecl} {isStruct : Bool}
    {entry : Option String × PrintedLayout} {l : Coq.Layout} {tag : String}
    (member : entry ∈ ppMembers decl.members isStruct) (isLayout : entry.2 = .layout l)
    (occurs : OccursIn tag l) : ∃ m ∈ decl.members, OccursIn tag m.2.layout := by
  rcases mem_ppMembers member with ⟨n, isPadding⟩ | ⟨m, isMember, same⟩
  · rw [isPadding] at isLayout
    cases isLayout
  · rw [same] at isLayout
    cases isLayout
    exact ⟨m, isMember, occurs⟩

section

variable {structs : List (String × Coq.StructDecl)} {fuel : Nat}
  {sorted : List (String × StructWithDeps)}

private theorem sortStructs_perm
    (result : sortStructs fuel [] (structs.map withDeps) = some sorted) :
    sorted.Perm (structs.map withDeps) := by
  rw [sortStructs_eq_rotateSort] at result
  exact rotateSort_perm result

private theorem sortStructs_sorted (distinct : (structs.map Prod.fst).Nodup)
    (result : sortStructs fuel [] (structs.map withDeps) = some sorted) :
    TopologicallySorted sorted := by
  have perm := sortStructs_perm result
  rw [sortStructs_eq_rotateSort] at result
  have earlier {before after : List (String × StructWithDeps)} {d : String × StructWithDeps}
      {x : String} (split : sorted = before ++ d :: after) (needed : x ∈ d.2.deps) :
      x ∈ before.map Prod.fst := by
    subst split
    exact (rotateSort_ordered result x needed).resolve_left List.not_mem_nil
  refine ⟨fun before d after split x needed => ⟨earlier split needed, fun later => ?_⟩,
    fun before d after split entry isEntry l tag isLayout occurs other => ?_⟩
  · have names : (sorted.map Prod.fst).Nodup :=
      (perm.map Prod.fst).nodup_iff.mpr (map_fst_withDeps structs ▸ distinct)
    rw [split, List.map_append] at names
    exact (List.nodup_append.mp names).2.2 x (earlier split needed) x later rfl
  · have member : d ∈ structs.map withDeps := perm.mem_iff.mp (by simp [split])
    obtain ⟨decl, -, rfl⟩ := List.mem_map.mp member
    exact earlier split
      (mem_structDeps.mpr ⟨other, occursIn_of_printed isEntry isLayout occurs⟩)

end

/-- Declarations whose dependencies are declared and have no cycle are sorted. -/
theorem sortStructs_topological {structs : List (String × Coq.StructDecl)}
    (distinct : (structs.map Prod.fst).Nodup)
    (declared : ∀ d ∈ structs, ∀ x ∈ structDeps d.1 d.2.members, x ∈ structs.map Prod.fst)
    (noCycle : ∀ x, ¬ Relation.TransGen (DependencyOf structs) x x) :
    (∃ sorted, (∀ fuel, structs.length * structs.length < fuel →
        sortStructs fuel [] (structs.map withDeps) = some sorted) ∧
      sorted.Perm (structs.map withDeps) ∧ TopologicallySorted sorted) ∧
      ∀ d ∈ structs, ∀ tag, tag ∈ (withDeps d).2.deps ↔
        tag ≠ d.1 ∧ ∃ m ∈ d.2.members, OccursIn tag m.2.layout := by
  have closed : Library.Closed Prod.fst (fun d : String × StructWithDeps => d.2.deps) []
      (structs.map withDeps) := by
    intro _ member x needed
    obtain ⟨d, isDecl, rfl⟩ := List.mem_map.mp member
    rw [map_fst_withDeps]
    exact .inr (declared d isDecl x needed)
  have acyclic : NoCycle Prod.fst (fun d : String × StructWithDeps => d.2.deps)
      (structs.map withDeps) := fun x cycle =>
    noCycle x (Relation.TransGen.mono (fun _ _ => neededBy_iff_dependencyOf.mp) _ _ cycle)
  obtain ⟨sorted, returns⟩ := rotateSort_returns acyclic closed
  simp only [← sortStructs_eq_rotateSort, List.length_map] at returns
  have result := returns _ (Nat.lt_succ_self _)
  exact ⟨⟨sorted, returns, sortStructs_perm result, sortStructs_sorted distinct result⟩,
    fun d _ tag => mem_structDeps⟩

/-- `outer` contains an array of `inner`, which contains a pointer. -/
def arrayStructs : List (String × Coq.StructDecl) :=
  [("outer", ⟨false, [("xs", ⟨8, 16, .array (.struct "inner" false) 2⟩)]⟩),
    ("inner", ⟨false, [("p", ⟨8, 8, .ptr⟩)]⟩)]

private theorem arrayStructs_dependencyOf {x y : String} (needed : DependencyOf arrayStructs x y) :
    x = "inner" ∧ y = "outer" := by
  obtain ⟨d, member, rfl, needed⟩ := needed
  obtain ⟨-, m, isMember, occurs⟩ := mem_structDeps.mp needed
  simp only [arrayStructs, List.mem_cons, List.not_mem_nil, or_false] at member
  rcases member with rfl | rfl
  · obtain rfl := List.mem_singleton.mp isMember
    cases occurs with
    | array inner =>
        cases inner
        exact ⟨rfl, rfl⟩
  · obtain rfl := List.mem_singleton.mp isMember
    cases occurs

theorem sortStructs_topological_array :
    ∃ sorted, sortStructs 5 [] (arrayStructs.map withDeps) = some sorted ∧
      TopologicallySorted sorted := by
  have declared : ∀ d ∈ arrayStructs, ∀ x ∈ structDeps d.1 d.2.members,
      x ∈ arrayStructs.map Prod.fst := by
    intro d member x needed
    obtain ⟨rfl, -⟩ := arrayStructs_dependencyOf ⟨d, member, rfl, needed⟩
    decide
  have noCycle : ∀ x, ¬ Relation.TransGen (DependencyOf arrayStructs) x x := by
    intro x cycle
    obtain ⟨y, first, -⟩ := Relation.TransGen.head'_iff.mp cycle
    obtain ⟨z, -, last⟩ := Relation.TransGen.tail'_iff.mp cycle
    have isInner := (arrayStructs_dependencyOf first).1
    have isOuter := (arrayStructs_dependencyOf last).2
    rw [isInner] at isOuter
    exact absurd isOuter (by decide)
  obtain ⟨⟨sorted, returns, -, isSorted⟩, -⟩ :=
    sortStructs_topological (by decide) declared noCycle
  exact ⟨sorted, returns 5 (by decide), isSorted⟩

end RefinedC.Frontend
