import RefinedC.Frontend.StructSort
import RefinedC.Library.AssocList

/-!
Tagged unions.

Source: `gather_struct_fields` and `pp_tagged_union` of `frontend/coq_pp.ml`, and the
printing of struct and union definitions by `pp_code` there.

Owns: declarations with their annotations, the printed parts of a tagged union, and
when these parts agree with each other and with the printed definitions.

Does not own: the printing of type expressions, which is a parameter. Warnings on
ignored annotations are left out.
-/

namespace RefinedC.Frontend

open Library

/-! ## Annotated declarations -/

structure AnnotFieldData extends Coq.FieldData where
  annot : Option MemberAnnot

structure AnnotStructDecl where
  annot : Option StructAnnot
  deps : List String
  isUnion : Bool
  members : List (String × AnnotFieldData)

/-- The declaration without its annotations. -/
def AnnotStructDecl.forget (s : AnnotStructDecl) : StructWithDeps where
  isUnion := s.isUnion
  members := s.members.map fun m => (m.1, m.2.toFieldData)
  deps := s.deps

/-- A printed definition: its name and its entries. -/
abbrev PrintedDef := String × List (Option String × PrintedLayout)

def ppStructUnion (d : String × StructWithDeps) : PrintedDef :=
  if d.2.isUnion then ("union_" ++ d.1, ppMembers d.2.members false)
  else ("struct_" ++ d.1, ppMembers d.2.members true)

/-- The printed struct and union definitions. The first argument bounds the sort. -/
def ppStructs (n : Nat) (structs : List (String × AnnotStructDecl)) : Option (List PrintedDef) :=
  (sortStructs n [] (structs.map fun d => (d.1, d.2.forget))).map (·.map ppStructUnion)

def namedFields (entries : List (Option String × PrintedLayout)) : List String :=
  entries.filterMap Prod.fst

/-! ## Printing of tagged unions -/

def gatherStructFields (id : String) (s : AnnotStructDecl) :
    Result (List (String × TypeExpr × Coq.Layout)) :=
  s.members.mapM fun (x, m) =>
    match m.annot with
    | some (.field ty) => .ok (x, ty, m.layout)
    | some (.utag _) | some .none =>
        panicNoPos ("Bad annotation on field [" ++ x ++ "] of struct [" ++ id ++ "].")
    | none => panicNoPos ("No annotation on field [" ++ x ++ "] of struct [" ++ id ++ "].")

/-- Clause of the tag function. -/
structure TagClause where
  constructorName : String
  arity : Nat
  number : Nat

/-- Hint that inverts the tag function. -/
structure InversionHint where
  name : String
  number : Nat
  binders : List (String × String)
  constructorName : String

/-- Clause of `ti_type`. -/
structure TypeClause where
  constructorName : String
  vars : List String
  layout : String
  types : List String

/-- The printed parts of a tagged union. -/
structure TaggedUnion where
  tagType : String
  infoType : String
  tags : List TagClause
  hints : List InversionHint
  baseLayout : String
  tagFieldName : String
  unionFieldName : String
  unionLayout : String
  types : List TypeClause

/-- A member of the union with its annotation and its struct. -/
structure UnionCase where
  name : String
  tag : TagSpec
  structId : String

def tagFieldOf (id : String) : String × AnnotFieldData → Result String
  | (tagField, m) =>
      if m.layout ≠ .int (.size false) then
        panicNoPos ("The tag field [" ++ tagField ++ "] of tagged union [" ++ id ++
          "] does not have the expected [size_t] type.")
      else .ok tagField

/-- Name of the union field, and of the union. -/
def unionFieldOf (id : String) : String × AnnotFieldData → Result (String × String)
  | (unionField, m) =>
      match m.layout with
      | .struct unionName true => .ok (unionField, unionName)
      | _ => panicNoPos ("The union field [" ++ unionField ++ "] of tagged union [" ++ id ++
          "] is expected to be a union.")

def unionCaseOf (unionName : String) : String × AnnotFieldData → Result UnionCase
  | (name, m) =>
      match m.annot with
      | some (.utag ts) =>
          match m.layout with
          | .struct id false => .ok ⟨name, ts, id⟩
          | _ => panicNoPos ("Field [" ++ name ++ "] of union [" ++ unionName ++
              "] is not a struct.")
      | some .none => panicNoPos ("Union tag annotation expected on field [" ++ name ++
          "] of union [" ++ unionName ++ "].")
      | some (.field _) => panicNoPos ("Unexpected field annotation on [" ++ name ++
          "] in the union [" ++ unionName ++ "].")
      | none => panicNoPos ("Invalid annotation on field [" ++ name ++ "] in the union [" ++
          unionName ++ "].")

def unionCasesOf (structs : List (String × AnnotStructDecl)) (unionName : String) :
    Result (List UnionCase) :=
  match structs.lookup unionName with
  | none => .error .assertFalse
  | some union =>
      if union.isUnion = false then
        panicNoPos ("[" ++ unionName ++ "] was expected to be a union.")
      else
        match union.annot with
        | some .union => union.members.mapM (unionCaseOf unionName)
        | _ => .error .assertFalse

def ppTagCase (i : Nat) (c : UnionCase) : TagClause := ⟨c.tag.1, c.tag.2.length, i⟩

def ppInversionHint (id : String) (i : Nat) (c : UnionCase) : Result InversionHint := do
  let binders ← c.tag.2.mapM fun (x, e) => do
    .ok (x, ← ppSimpleCoqExpr false e)
  .ok ⟨"simpl_" ++ id ++ "_tag_" ++ c.tag.1, i, binders, c.tag.1⟩

/-- Clause of `ti_type` for a case. -/
def ppTypeCase (ppTypeExpr : TypeExpr → Result String)
    (structs : List (String × AnnotStructDecl)) (c : UnionCase) : Result TypeClause :=
  match structs.lookup c.structId with
  | none => .error .assertFalse
  | some s => do
      let fields ← gatherStructFields c.structId s
      let types ← fields.mapM fun field => ppTypeExpr field.2.1
      .ok ⟨c.tag.1, c.tag.2.map Prod.fst, "struct_" ++ c.name, types⟩

def ppTaggedUnion (ppTypeExpr : TypeExpr → Result String)
    (structs : List (String × AnnotStructDecl)) (id : String) (tagTypeE : CoqExpr)
    (s : AnnotStructDecl) : Result TaggedUnion :=
  if s.isUnion then
    panicNoPos ("Tagged union annotations used on [" ++ id ++
      "] should rather be placed on a struct definition.")
  else
    match s.members with
    | [tagMember, unionMember] => do
        let tagField ← tagFieldOf id tagMember
        let (unionField, unionName) ← unionFieldOf id unionMember
        let unionCases ← unionCasesOf structs unionName
        let tagType ← ppSimpleCoqExpr false tagTypeE
        let infoType ← ppSimpleCoqExpr true tagTypeE
        let hints ← (unionCases.mapIdx fun i c => (i, c)).mapM fun (i, c) =>
          ppInversionHint id i c
        let types ← unionCases.mapM (ppTypeCase ppTypeExpr structs)
        .ok ⟨tagType, infoType, unionCases.mapIdx ppTagCase, hints, "struct_" ++ id, tagField,
          unionField, "union_" ++ unionName, types⟩
    | _ => panicNoPos ("Tagged union [" ++ id ++
        "] is ill-formed: it should have exactly two fields (tag and union).")

/-! ## Agreement -/

/-- The tag function: Coq takes the first clause with the constructor. -/
def TaggedUnion.tagOf (out : TaggedUnion) (constructorName : String) : Option Nat :=
  (out.tags.find? fun clause => clause.constructorName = constructorName).map (·.number)

/-- Constructor of a member of the union. -/
def AnnotFieldData.constructorName (m : AnnotFieldData) : Option String :=
  match m.annot with
  | some (.utag ts) => some ts.1
  | _ => none

/-- The union that the second member of the struct names. -/
def UnionOf (structs : List (String × AnnotStructDecl)) (s union : AnnotStructDecl) : Prop :=
  ∃ tagMember unionField m unionName, s.members = [tagMember, (unionField, m)] ∧
    m.layout = .struct unionName true ∧ structs.lookup unionName = some union

/-- The printed clause of a member fits the member: its layout is the printed definition of
the member's struct, and it has a type for every named field, in their order. -/
def LayoutAgrees (ppTypeExpr : TypeExpr → Result String)
    (structs : List (String × AnnotStructDecl)) (definitions : List PrintedDef)
    (m : String × AnnotFieldData) (clause : TypeClause) : Prop :=
  ∃ structId s, m.2.layout = .struct structId false ∧ structs.lookup structId = some s ∧
    ∃ d ∈ definitions, d = ppStructUnion (structId, s.forget) ∧ d.1 = clause.layout ∧
      List.Forall₂ (fun x type => ∃ field ∈ s.members, field.1 = x ∧
        ∃ ty, field.2.annot = some (.field ty) ∧ ppTypeExpr ty = .ok type)
        (namedFields d.2) clause.types

/-- Every member of the union has its clause, whose layout fits, and its index as tag. -/
structure CasesAgree (ppTypeExpr : TypeExpr → Result String)
    (structs : List (String × AnnotStructDecl)) (definitions : List PrintedDef)
    (union : AnnotStructDecl) (out : TaggedUnion) : Prop where
  types : List.Forall₂ (fun m clause => m.2.constructorName = some clause.constructorName ∧
    LayoutAgrees ppTypeExpr structs definitions m clause) union.members out.types
  tags : ∀ i m c, union.members[i]? = some m → m.2.constructorName = some c →
      out.tagOf c = some i

/-- Every member of the union has the name of its struct, and a constructor of its own. -/
structure NamedAsStructs (structs : List (String × AnnotStructDecl)) (union : AnnotStructDecl) :
    Prop where
  names : ∀ m ∈ union.members, m.2.layout = .struct m.1 false
  structs : ∀ m ∈ union.members, ∀ id s, m.2.layout = .struct id false →
    structs.lookup id = some s → s.isUnion = false
  constructors : (union.members.map fun m => m.2.constructorName).Nodup

/-! ## Printed parts -/

private theorem namedFields_ppFields (isStruct : Bool) (nbBytes : Int)
    (members : List (String × Coq.FieldData)) :
    namedFields (ppFields isStruct nbBytes members).1 = members.map Prod.fst := by
  induction members generalizing nbBytes with
  | nil => rfl
  | cons m members inductionHypothesis =>
      have noName : namedFields (ppPadding isStruct m.2.align nbBytes).1 = [] := by
        unfold ppPadding
        split <;> rfl
      simp only [ppFields, namedFields, List.filterMap_append, List.filterMap_cons] at noName ⊢
      rw [noName]
      exact congrArg (m.1 :: ·) (inductionHypothesis _)

/-- The named entries are the members. -/
theorem namedFields_ppMembers (members : List (String × Coq.FieldData)) (isStruct : Bool) :
    namedFields (ppMembers members isStruct) = members.map Prod.fst := by
  have fields := namedFields_ppFields isStruct 0 members
  unfold ppMembers
  cases isStruct with
  | false => exact fields
  | true =>
      simp only [if_true]
      split
      · rw [namedFields, List.filterMap_append]
        exact (List.append_nil _).trans fields
      · exact fields

private theorem gatherStructFields_ok {id : String} {s : AnnotStructDecl}
    {fields : List (String × TypeExpr × Coq.Layout)}
    (run : gatherStructFields id s = .ok fields) :
    List.Forall₂ (fun m field => m.1 = field.1 ∧ m.2.annot = some (.field field.2.1))
      s.members fields := by
  refine (mapM_eq_ok.mp run).imp fun (x, m) field isField => ?_
  simp only at isField
  split at isField
  · cases isField
    exact ⟨rfl, ‹_›⟩
  · cases isField
  · cases isField
  · cases isField

private theorem unionCaseOf_ok {unionName : String} {m : String × AnnotFieldData} {c : UnionCase}
    (run : unionCaseOf unionName m = .ok c) :
    c.name = m.1 ∧ m.2.annot = some (.utag c.tag) ∧ m.2.layout = .struct c.structId false := by
  obtain ⟨name, m⟩ := m
  simp only [unionCaseOf] at run
  split at run
  · split at run
    · cases run
      exact ⟨rfl, ‹_›, ‹_›⟩
    · cases run
  · cases run
  · cases run
  · cases run

section

variable {ppTypeExpr : TypeExpr → Result String} {structs : List (String × AnnotStructDecl)}
  {id : String} {tagTypeE : CoqExpr} {s union : AnnotStructDecl} {out : TaggedUnion}

/-- The tags and the types are printed from the same cases, one for every member. -/
theorem ppTaggedUnion_ok (accepts : ppTaggedUnion ppTypeExpr structs id tagTypeE s = .ok out)
    (isUnion : UnionOf structs s union) : ∃ cases : List UnionCase,
      List.Forall₂ (fun m c => c.name = m.1 ∧ m.2.annot = some (.utag c.tag) ∧
        m.2.layout = .struct c.structId false) union.members cases ∧
      out.tags = cases.mapIdx ppTagCase ∧
      List.Forall₂ (fun c clause => ppTypeCase ppTypeExpr structs c = .ok clause)
        cases out.types := by
  obtain ⟨tagMember, unionField, m, unionName, members, layout, found⟩ := isUnion
  unfold ppTaggedUnion at accepts
  split at accepts
  · cases accepts
  · rw [members] at accepts
    simp only [bind_eq_ok, unionFieldOf, layout, Except.ok.injEq, Prod.exists,
      Prod.mk.injEq] at accepts
    obtain ⟨tagField, -, _, _, ⟨rfl, rfl⟩, cases, isCases, _, -, _, -, hints, -, types,
      isTypes, rfl⟩ := accepts
    refine ⟨cases, ?_, rfl, mapM_eq_ok.mp isTypes⟩
    simp only [unionCasesOf, found] at isCases
    split at isCases
    · cases isCases
    · split at isCases
      · exact (mapM_eq_ok.mp isCases).imp fun _ _ => unionCaseOf_ok
      · cases isCases

/-- The clause of a case: its layout is named by the member, its types come from the fields of
the member's struct. -/
theorem ppTypeCase_ok {c : UnionCase} {clause : TypeClause}
    (run : ppTypeCase ppTypeExpr structs c = .ok clause) :
    clause.constructorName = c.tag.1 ∧ clause.layout = "struct_" ++ c.name ∧
      ∃ s, structs.lookup c.structId = some s ∧
        List.Forall₂ (fun x type => ∃ field ∈ s.members, field.1 = x ∧
          ∃ ty, field.2.annot = some (.field ty) ∧ ppTypeExpr ty = .ok type)
          (s.members.map Prod.fst) clause.types := by
  unfold ppTypeCase at run
  split at run
  · cases run
  next s found =>
    obtain ⟨fields, isFields, run⟩ := bind_eq_ok.mp run
    obtain ⟨types, isTypes, run⟩ := bind_eq_ok.mp run
    cases run
    refine ⟨rfl, rfl, s, found, ?_⟩
    have printed := (mapM_eq_ok.mp isTypes)
    have gathered := gatherStructFields_ok isFields
    rw [List.forall₂_map_left_iff]
    rw [List.forall₂_iff_get] at gathered printed ⊢
    obtain ⟨sameLength, gathered⟩ := gathered
    obtain ⟨sameLength', printed⟩ := printed
    refine ⟨sameLength.trans sameLength', fun i bound bound' => ?_⟩
    obtain ⟨-, isField⟩ := gathered i bound (sameLength ▸ bound)
    exact ⟨_, List.get_mem _ _, rfl, _, isField, printed i (sameLength ▸ bound) bound'⟩

/-- The definition of every declaration is printed. -/
theorem ppStructUnion_mem {n : Nat} {definitions : List PrintedDef}
    (emits : ppStructs n structs = some definitions) {d : String × AnnotStructDecl}
    (member : d ∈ structs) : ppStructUnion (d.1, d.2.forget) ∈ definitions := by
  obtain ⟨sorted, result, rfl⟩ := Option.map_eq_some_iff.mp emits
  rw [sortStructs_eq_rotateSort] at result
  refine List.mem_map_of_mem ((rotateSort_perm result).mem_iff.mpr ?_)
  exact List.mem_map_of_mem member

private theorem ppStructUnion_fst {d : String × StructWithDeps} {name : String} :
    (ppStructUnion d).1 = "struct_" ++ name ↔ d.2.isUnion = false ∧ d.1 = name := by
  unfold ppStructUnion
  split
  next isUnion =>
    simp only [isUnion, Bool.true_eq_false, false_and, iff_false]
    intro same
    have start := congrArg (fun s => s.toList.head?) same
    simp at start
  next isStruct =>
    simp [isStruct]

/-! ## Tags -/

/-- The tag of a constructor is the index of the first case with it. -/
theorem tagOf_eq_findIdx? {cases : List UnionCase} (printed : out.tags = cases.mapIdx ppTagCase)
    (constructorName : String) : out.tagOf constructorName =
      (cases.map fun c => c.tag.1).findIdx? (· = constructorName) := by
  have shifted (k : Nat) : ((cases.mapIdx fun i => ppTagCase (k + i)).find? fun clause =>
      clause.constructorName = constructorName).map (·.number) =
        ((cases.map fun c => c.tag.1).findIdx? (· = constructorName)).map (k + ·) := by
    clear printed
    induction cases generalizing k with
    | nil => rfl
    | cons c cases inductionHypothesis =>
        have others := inductionHypothesis (k + 1)
        simp only [Nat.add_assoc, Nat.add_comm 1] at others
        rw [List.mapIdx_cons, List.find?_cons, List.map_cons, List.findIdx?_cons]
        by_cases same : c.tag.1 = constructorName
        · simp [ppTagCase, same]
        · simpa [ppTagCase, same, Function.comp_def] using others
  rw [TaggedUnion.tagOf, printed]
  simpa using shifted 0

/-! ## Agreement of the printed parts -/

/-- Constructors of the cases, seen from the members. -/
theorem map_constructorName {members : List (String × AnnotFieldData)} {cases : List UnionCase}
    (isCases : List.Forall₂ (fun m c => c.name = m.1 ∧ m.2.annot = some (.utag c.tag) ∧
      m.2.layout = .struct c.structId false) members cases) :
    members.map (fun m => m.2.constructorName) = (cases.map fun c => c.tag.1).map some := by
  induction isCases with
  | nil => rfl
  | cons isCase _ inductionHypothesis =>
      rw [List.map_cons, List.map_cons, List.map_cons, inductionHypothesis,
        AnnotFieldData.constructorName, isCase.2.1]

/-- The layout of a member is that of its struct when the struct has the member's name. -/
theorem layoutAgrees_iff {n : Nat} {definitions : List PrintedDef}
    (emits : ppStructs n structs = some definitions) {m : String × AnnotFieldData} {c : UnionCase}
    {clause : TypeClause} (isName : c.name = m.1) (isStruct : m.2.layout = .struct c.structId false)
    (run : ppTypeCase ppTypeExpr structs c = .ok clause) :
    LayoutAgrees ppTypeExpr structs definitions m clause ↔
      m.2.layout = .struct m.1 false ∧ ∀ id s, m.2.layout = .struct id false →
        structs.lookup id = some s → s.isUnion = false := by
  obtain ⟨-, layout, s, found, types⟩ := ppTypeCase_ok run
  rw [isName] at layout
  constructor
  · rintro ⟨structId, s', isStruct', found', d, -, rfl, sameName, -⟩
    rw [layout, ppStructUnion_fst] at sameName
    obtain ⟨notUnion, rfl⟩ := sameName
    refine ⟨isStruct', fun id s isId foundId => ?_⟩
    cases isStruct'.symm.trans isId
    cases found'.symm.trans foundId
    exact notUnion
  · rintro ⟨named, notUnion⟩
    have sameId : c.structId = m.1 := by
      injection isStruct.symm.trans named
    have isPrinted := ppStructUnion_mem emits (mem_of_lookup found)
    have isStructDef := notUnion _ s isStruct found
    refine ⟨c.structId, s, isStruct, found, _, isPrinted, rfl, ?_, ?_⟩
    · rw [layout]
      exact ppStructUnion_fst.mpr ⟨isStructDef, sameId⟩
    · have entries :
        (ppStructUnion (c.structId, s.forget)).2 = ppMembers s.forget.members true := by
        have notUnion : s.forget.isUnion = false := isStructDef
        simp [ppStructUnion, notUnion]
      rw [entries, namedFields_ppMembers]
      simpa [AnnotStructDecl.forget] using types

/-- The printed parts of a tagged union agree with each other and with the printed
definitions exactly when every member of the union has the name of its struct, and a
constructor of its own. -/
theorem ppTaggedUnion_agrees_iff {n : Nat} {definitions : List PrintedDef}
    (accepts : ppTaggedUnion ppTypeExpr structs id tagTypeE s = .ok out)
    (emits : ppStructs n structs = some definitions) (isUnion : UnionOf structs s union) :
    CasesAgree ppTypeExpr structs definitions union out ↔ NamedAsStructs structs union := by
  obtain ⟨cases, isCases, tags, isTypes⟩ := ppTaggedUnion_ok accepts isUnion
  have constructors := map_constructorName isCases
  have isConstructor (i : Nat) (c : String) : (cases.map fun c => c.tag.1)[i]? = some c ↔
      ∃ m, union.members[i]? = some m ∧ m.2.constructorName = some c := by
    have same := congrArg (·[i]? = some (some c)) constructors
    simpa using same.symm
  have tagsAgree :
      (∀ (i : Nat) m c, union.members[i]? = some m → m.2.constructorName = some c →
      out.tagOf c = some i) ↔ (union.members.map fun m => m.2.constructorName).Nodup := by
    rw [constructors, List.nodup_map_iff (Option.some_injective _), ← findIdx?_eq_self_iff]
    simp only [tagOf_eq_findIdx? tags, isConstructor]
    exact ⟨fun agree i c ⟨m, isMember, isName⟩ => agree i m c isMember isName,
      fun agree i m c isMember isName => agree i c ⟨m, isMember, isName⟩⟩
  have typesAgree : List.Forall₂ (fun m clause =>
      m.2.constructorName = some clause.constructorName ∧
        LayoutAgrees ppTypeExpr structs definitions m clause) union.members out.types ↔
      ∀ m ∈ union.members, m.2.layout = .struct m.1 false ∧ ∀ id s,
        m.2.layout = .struct id false → structs.lookup id = some s → s.isUnion = false := by
    refine forall₂_iff_forall_mem ((forall₂_comp isCases isTypes).imp ?_)
    rintro m clause ⟨c, ⟨isName, isTag, isStruct⟩, run⟩
    have sameConstructor : m.2.constructorName = some clause.constructorName := by
      rw [AnnotFieldData.constructorName, isTag, (ppTypeCase_ok run).1]
    rw [and_iff_right sameConstructor]
    exact layoutAgrees_iff emits isName isStruct run
  constructor
  · rintro ⟨types, tags⟩
    have named := typesAgree.mp types
    exact ⟨fun m member => (named m member).1, fun m member => (named m member).2,
      tagsAgree.mp tags⟩
  · rintro ⟨names, notUnion, distinct⟩
    exact ⟨typesAgree.mpr fun m member => ⟨names m member, notUnion m member⟩,
      tagsAgree.mpr distinct⟩

end

/-! ## A tagged union with one member -/

/-- Prints a type name. -/
def ppTypeName : TypeExpr → Result String
  | .params id [] => .ok ("(" ++ id ++ ")")
  | _ => panicNoPos "Unexpected ellipsis."

/-- The struct `item` with a tag and a union. -/
def itemDecl : AnnotStructDecl where
  annot := some (.taggedU (.ident "item_ref"))
  deps := ["item_union"]
  isUnion := false
  members := [("tag", ⟨⟨8, 8, .int (.size false)⟩, some .none⟩),
    ("u", ⟨⟨8, 8, .struct "item_union" true⟩, some .none⟩)]

/-- The union of `item`. Its member has the name `x` and the struct `empty`. -/
def itemUnion (x : String) : AnnotStructDecl where
  annot := some .union
  deps := ["empty"]
  isUnion := true
  members := [(x, ⟨⟨8, 8, .struct "empty" false⟩, some (.utag ("Empty", []))⟩)]

def emptyDecl : AnnotStructDecl where
  annot := some (.basic ⟨[], [], [], [], [], none, none, false, defaultUnfoldOrder⟩)
  deps := []
  isUnion := false
  members := [("dummy", ⟨⟨8, 8, .ptr⟩, some (.field (.params "null" []))⟩)]

def itemStructs (x : String) : List (String × AnnotStructDecl) :=
  [("empty", emptyDecl), ("item_union", itemUnion x), ("item", itemDecl)]

def itemTaggedUnion (x : String) : TaggedUnion where
  tagType := "item_ref"
  infoType := "item_ref"
  tags := [⟨"Empty", 0, 0⟩]
  hints := [⟨"simpl_item_tag_Empty", 0, [], "Empty"⟩]
  baseLayout := "struct_item"
  tagFieldName := "tag"
  unionFieldName := "u"
  unionLayout := "union_item_union"
  types := [⟨"Empty", [], "struct_" ++ x, ["(null)"]⟩]

def itemDefinitions (x : String) : List PrintedDef :=
  [("struct_empty", [(some "dummy", .layout .ptr)]),
    ("union_item_union", [(some x, .layout (.struct "empty" false))]),
    ("struct_item", [(some "tag", .layout (.int (.size false))),
      (some "u", .layout (.struct "item_union" true))])]

private theorem itemStructs_accepted (x : String) :
    ppTaggedUnion ppTypeName (itemStructs x) "item" (.ident "item_ref") itemDecl =
      .ok (itemTaggedUnion x) := by
  rfl

private theorem itemStructs_emitted (x : String) :
    ppStructs 4 (itemStructs x) = some (itemDefinitions x) := by
  rfl

private theorem itemStructs_unionOf (x : String) : UnionOf (itemStructs x) itemDecl (itemUnion x) :=
  ⟨_, _, _, _, rfl, rfl, rfl⟩

theorem ppTaggedUnion_agrees_item :
    CasesAgree ppTypeName (itemStructs "empty") (itemDefinitions "empty") (itemUnion "empty")
      (itemTaggedUnion "empty") := by
  refine (ppTaggedUnion_agrees_iff (itemStructs_accepted "empty") (itemStructs_emitted "empty")
    (itemStructs_unionOf "empty")).mpr ⟨?_, ?_, by decide⟩
  · intro m member
    cases List.mem_singleton.mp member
    rfl
  · intro m member id s isStruct found
    cases List.mem_singleton.mp member
    cases isStruct
    cases found
    rfl

/-- A member `e` of the struct `empty` gives the layout `struct_e`, which is not defined. -/
theorem ppTaggedUnion_otherName :
    ppTaggedUnion ppTypeName (itemStructs "e") "item" (.ident "item_ref") itemDecl =
        .ok (itemTaggedUnion "e") ∧
      ppStructs 4 (itemStructs "e") = some (itemDefinitions "e") ∧
      "struct_e" ∈ (itemTaggedUnion "e").types.map (·.layout) ∧
      "struct_e" ∉ (itemDefinitions "e").map Prod.fst ∧
      ¬ CasesAgree ppTypeName (itemStructs "e") (itemDefinitions "e") (itemUnion "e")
        (itemTaggedUnion "e") := by
  have notDefined : "struct_e" ∉ (itemDefinitions "e").map Prod.fst := by decide
  refine ⟨itemStructs_accepted "e", itemStructs_emitted "e", by decide,
    notDefined, fun agree => ?_⟩
  obtain ⟨m, -, -, structId, s, -, -, d, isDefined, -, isLayout, -⟩ :=
    exists_of_mem_right agree.types (List.mem_singleton_self _)
  exact notDefined (List.mem_map.mpr ⟨d, isDefined, isLayout⟩)

end RefinedC.Frontend
