import RefinedC.Frontend.NaturalLayout

/-!
Struct declarations and their tags.

Owns: which declaration is emitted for a tag definition, the recursion equation
of the layouts that printed definitions denote, and that C's layout rules apply
to every type that the frontend accepts.
-/

namespace RefinedC.Frontend

open Library

section

variable {impl : Impl} {tags : List (Sym × TagDef)} {structs : List (String × Coq.StructDecl)}

/-! ## Declarations and their tags -/

/-- `decl` is the declaration of the tag definition `d`. -/
def DeclOf (impl : Impl) (tags : List (Sym × TagDef)) (d : Sym × TagDef)
    (named : String × Coq.StructDecl) : Prop :=
  symToStr d.1 = named.1 ∧ structDecl impl tags d.2 = .ok named.2

theorem translateStructs_declOf (translated : translateStructs impl tags = .ok structs) :
    List.Forall₂ (DeclOf impl tags) tags structs := by
  refine List.Forall₂.imp ?_ (mapM_eq_ok.mp translated)
  intro d named build
  obtain ⟨decl, built, result⟩ := bind_eq_ok.mp build
  cases result
  exact ⟨rfl, built⟩

theorem fieldData_eq_ok {ty : CType} {data : Coq.FieldData}
    (found : fieldData impl tags ty = .ok data) : alignOf impl tags ty = .ok data.align ∧
      sizeOf impl tags ty = .ok data.size ∧ layoutOf impl false ty = .ok data.layout := by
  simp only [fieldData, bind_eq_ok] at found
  obtain ⟨align, isAlign, size, isSize, layout, isLayout, result⟩ := found
  cases result
  exact ⟨isAlign, isSize, isLayout⟩

theorem structDecl_eq_ok {d : TagDef} {decl : Coq.StructDecl}
    (built : structDecl impl tags d = .ok decl) :
    decl.isUnion = d.isUnion ∧ List.Forall₂
      (fun m m' => m.1 = m'.1 ∧ fieldData impl tags m.2 = .ok m'.2) d.members decl.members := by
  obtain ⟨members, fields, result⟩ := bind_eq_ok.mp built
  have each : List.Forall₂ (fun m m' => m.1 = m'.1 ∧ fieldData impl tags m.2 = .ok m'.2)
      d.members members := by
    refine List.Forall₂.imp ?_ (mapM_eq_ok.mp fields)
    intro m m' field
    obtain ⟨data, found, result⟩ := bind_eq_ok.mp field
    cases result
    exact ⟨rfl, found⟩
  cases d with
  | struct ms =>
      cases result
      exact ⟨rfl, each⟩
  | union ms =>
      cases result
      exact ⟨rfl, each⟩

theorem findDecl_of_findTag {ts : List (Sym × TagDef)} {ss : List (String × Coq.StructDecl)}
    (decls : List.Forall₂ (DeclOf impl tags) ts ss) {id : String} {d : TagDef}
    (found : findTag ts id = .ok d) :
    ∃ decl, structDecl impl tags d = .ok decl ∧ findDecl ss (d.isUnion, id) = .ok decl := by
  induction decls with
  | nil => simp [findTag] at found
  | @cons d' named ts ss head tail inductionHypothesis =>
      obtain ⟨sameName, built⟩ := head
      by_cases first : symToStr d'.1 = id
      · have same : d'.2 = d := by simpa [findTag, first] using found
        subst same
        refine ⟨named.2, built, ?_⟩
        simp [findDecl, ← sameName, first, (structDecl_eq_ok built).1]
      · have rest : findTag ts id = .ok d := by simpa [findTag, first] using found
        obtain ⟨decl, builtRest, foundRest⟩ := inductionHypothesis rest
        refine ⟨decl, builtRest, ?_⟩
        simpa [findDecl, ← sameName, first] using foundRest

theorem findTag_of_mem {ts : List (Sym × TagDef)}
    (distinct : (ts.map fun d => symToStr d.1).Nodup) {s : Sym} {d : TagDef}
    (member : (s, d) ∈ ts) : findTag ts (symToStr s) = .ok d := by
  induction ts with
  | nil => cases member
  | cons head tail inductionHypothesis =>
      rw [List.map_cons, List.nodup_cons] at distinct
      rcases List.mem_cons.mp member with same | inTail
      · subst same
        simp [findTag]
      · have other : symToStr head.1 ≠ symToStr s := fun same =>
          distinct.1 (List.mem_map.mpr ⟨(s, d), inTail, same.symm⟩)
        simpa [findTag, other] using inductionHypothesis distinct.2 inTail

private theorem findTag_of_findDecl (T : TagDefs)
    (translated : translateStructs impl T.tags = .ok structs)
    {name : DefName} {decl : Coq.StructDecl} (found : findDecl structs name = .ok decl) :
    ∃ d, findTag T.tags name.2 = .ok d ∧ structDecl impl T.tags d = .ok decl := by
  cases search : structs.find? (fun d => d.1 = name.2 ∧ d.2.isUnion = name.1) with
  | none =>
      rw [findDecl, search] at found
      cases found
  | some named =>
      rw [findDecl, search] at found
      cases found
      have matching := List.find?_some search
      simp only [decide_eq_true_eq] at matching
      obtain ⟨d, member, sameName, built⟩ := exists_of_mem_right
        (translateStructs_declOf translated) (List.mem_of_find?_eq_some search)
      refine ⟨d.2, ?_, built⟩
      rw [← matching.1, ← sameName]
      exact findTag_of_mem T.distinct member

/-! ## Recursion equation of printed definitions -/

def layoutNames : Coq.Layout → List DefName
  | .struct name isUnion => [(isUnion, name)]
  | .array l _ => layoutNames l
  | _ => []

def declMentions (decl : Coq.StructDecl) : List DefName :=
  decl.members.flatMap fun m => layoutNames m.2.layout

private theorem denoteLayout_congr {f g : DefName → Result Caesium.Layout} {l : Coq.Layout}
    (same : ∀ u ∈ layoutNames l, f u = g u) : denoteLayout f l = denoteLayout g l := by
  induction l with
  | struct name isUnion => exact same _ List.mem_cons_self
  | array l n inductionHypothesis => rw [denoteLayout, denoteLayout, inductionHypothesis same]
  | _ => rfl

private theorem mem_ppFields {isStruct : Bool} {nbBytes : Int}
    {members : List (String × Coq.FieldData)} {entry : Option String × PrintedLayout}
    (member : entry ∈ (ppFields isStruct nbBytes members).1) :
    (∃ n, entry.2 = .padding n) ∨ ∃ m ∈ members, entry.2 = .layout m.2.layout := by
  induction members generalizing nbBytes with
  | nil => cases member
  | cons m members inductionHypothesis =>
      simp only [ppFields, List.mem_append, List.mem_cons] at member
      rcases member with pad | rfl | rest
      · unfold ppPadding at pad
        split at pad
        · cases List.mem_singleton.mp pad
          exact .inl ⟨_, rfl⟩
        · cases pad
      · exact .inr ⟨m, List.mem_cons_self, rfl⟩
      · rcases inductionHypothesis rest with padding | ⟨m', member, same⟩
        · exact .inl padding
        · exact .inr ⟨m', List.mem_cons_of_mem m member, same⟩

theorem mem_ppMembers {isStruct : Bool} {members : List (String × Coq.FieldData)}
    {entry : Option String × PrintedLayout} (member : entry ∈ ppMembers members isStruct) :
    (∃ n, entry.2 = .padding n) ∨ ∃ m ∈ members, entry.2 = .layout m.2.layout := by
  unfold ppMembers at member
  split at member
  · simp only at member
    split at member
    · rcases List.mem_append.mp member with inFields | last
      · exact mem_ppFields inFields
      · cases List.mem_singleton.mp last
        exact .inl ⟨_, rfl⟩
    · exact mem_ppFields member
  · exact mem_ppFields member

private theorem denoteDecl_congr {f g : DefName → Result Caesium.Layout} {decl : Coq.StructDecl}
    (same : ∀ u ∈ declMentions decl, f u = g u) : denoteDecl f decl = denoteDecl g decl := by
  have printed : denoteMembers f (ppMembers decl.members (!decl.isUnion)) =
      denoteMembers g (ppMembers decl.members (!decl.isUnion)) := by
    apply mapM_congr
    intro entry member
    rcases mem_ppMembers member with ⟨n, isPadding⟩ | ⟨m, inMembers, isLayout⟩
    · rw [isPadding]
      rfl
    · rw [isLayout, denotePrinted, denotePrinted,
        denoteLayout_congr fun u inside => same u (List.mem_flatMap.mpr ⟨m, inMembers, inside⟩)]
  rw [denoteDecl, denoteDecl, printed]

private theorem layoutNames_tagsOf {ty : CType} {l : Coq.Layout}
    (layout : layoutOf impl false ty = .ok l)
    {u : DefName} (inside : u ∈ layoutNames l) : u.2 ∈ tagsOf ty := by
  fun_induction tagsOf ty generalizing l with
  | case1 ty size inductionHypothesis =>
      cases size with
      | none =>
          cases layout
          cases inside
      | some n =>
          obtain ⟨inner, innerLayout, result⟩ := bind_eq_ok.mp layout
          cases result
          exact inductionHypothesis innerLayout inside
  | case2 ty inductionHypothesis => exact inductionHypothesis layout inside
  | case3 s =>
      cases layout
      cases List.mem_singleton.mp inside
      exact List.mem_cons_self
  | case4 s =>
      cases layout
      cases List.mem_singleton.mp inside
      exact List.mem_cons_self
  | case5 ty noArray noAtomic noStruct noUnion =>
      cases ty with
      | integer i =>
          obtain ⟨found, -, result⟩ := bind_eq_ok.mp layout
          cases found <;> cases result <;> cases inside
      | floating f => cases layout
      | array ty size => exact absurd rfl (noArray ty size)
      | atomic ty => exact absurd rfl (noAtomic ty)
      | struct s => exact absurd rfl (noStruct s)
      | union s => exact absurd rfl (noUnion s)
      | _ =>
          cases layout
          cases inside

/-- Printed definitions refer to each other as the tags do. -/
theorem decls_acyclic (T : TagDefs) (translated : translateStructs impl T.tags = .ok structs) :
    Acyclic (findDecl structs) declMentions := by
  intro name cycle
  refine T.acyclic name.2 (cycle.lift Prod.snd ?_)
  rintro u v ⟨decl, found, mentioned⟩
  obtain ⟨d, foundTag, built⟩ := findTag_of_findDecl T translated found
  obtain ⟨m, member, inside⟩ := List.mem_flatMap.mp mentioned
  obtain ⟨-, fields⟩ := structDecl_eq_ok built
  obtain ⟨m', inDef, -, field⟩ := exists_of_mem_right fields member
  refine ⟨d, foundTag, TagDef.mem_mentions inDef ?_⟩
  exact layoutNames_tagsOf (fieldData_eq_ok field).2.2 inside

def declNames (structs : List (String × Coq.StructDecl)) : Finset DefName :=
  (structs.map fun d => (d.2.isUnion, d.1)).toFinset

private theorem findDecl_mem_declNames (name : DefName) (decl : Coq.StructDecl)
    (found : findDecl structs name = .ok decl) : name ∈ declNames structs := by
  cases search : structs.find? (fun d => d.1 = name.2 ∧ d.2.isUnion = name.1) with
  | none =>
      rw [findDecl, search] at found
      cases found
  | some named =>
      have matching := List.find?_some search
      simp only [decide_eq_true_eq] at matching
      rw [declNames, List.mem_toFinset]
      refine List.mem_map.mpr ⟨named, List.mem_of_find?_eq_some search, ?_⟩
      rw [matching.1, matching.2]

theorem definedLayout_eq (T : TagDefs) (translated : translateStructs impl T.tags = .ok structs)
    (name : DefName) : definedLayout structs name =
      findDecl structs name >>= denoteDecl (definedLayout structs) := by
  have bound := List.toFinset_card_le (structs.map fun d => (d.2.isUnion, d.1))
  rw [List.length_map] at bound
  apply unroll_eq (decls_acyclic T translated) findDecl_mem_declNames _ bound
  intro f g decl same
  exact denoteDecl_congr same


/-! ## Types that the frontend accepts -/

section

variable {padUnions : Bool}

private theorem integer_natural (agrees : ImplAgrees impl) {i : IntegerType} {l : Coq.Layout}
    (layout : layoutOfIntType impl i = .ok l) :
    ∃ size align, NaturalLayout impl tags padUnions (.integer i) size align := by
  obtain ⟨found, translated, -⟩ := bind_eq_ok.mp layout
  cases found with
  | none =>
      obtain ⟨size, align⟩ := agrees.bool i translated
      exact ⟨1, 1, .integer size align⟩
  | some it =>
      obtain ⟨size, align⟩ := agrees.integer i it translated
      exact ⟨_, _, .integer size align⟩

/-- C's layout rules apply to a type whose tags they apply to. -/
theorem type_natural (agrees : ImplAgrees impl) {ty : CType} {l : Coq.Layout}
    (complete : Complete tags ty) (layout : layoutOf impl false ty = .ok l)
    (tagNatural : ∀ u ∈ tagsOf ty, ∀ d, findTag tags u = .ok d →
      ∃ data, NaturalMembers impl tags padUnions d.members data) :
    ∃ size align, NaturalLayout impl tags padUnions ty size align := by
  fun_induction Complete tags ty generalizing l with
  | case1 i => exact integer_natural agrees layout
  | case2 ty =>
      obtain ⟨size, align⟩ := agrees.pointer
      exact ⟨_, _, .pointer size align⟩
  | case3 ty n inductionHypothesis =>
      obtain ⟨inner, innerLayout, -⟩ := bind_eq_ok.mp layout
      obtain ⟨size, align, natural⟩ := inductionHypothesis complete innerLayout tagNatural
      exact ⟨_, _, .array natural⟩
  | case4 ty inductionHypothesis =>
      obtain ⟨size, align, natural⟩ := inductionHypothesis complete layout tagNatural
      exact ⟨_, _, .atomic natural⟩
  | case5 s =>
      obtain ⟨members, found⟩ := complete
      obtain ⟨data, natural⟩ := tagNatural _ List.mem_cons_self _ found
      exact ⟨_, _, .struct found natural⟩
  | case6 s =>
      obtain ⟨members, found⟩ := complete
      obtain ⟨data, natural⟩ := tagNatural _ List.mem_cons_self _ found
      exact ⟨_, _, .union found natural⟩
  | case7 => exact complete.elim

private theorem members_natural {ms : List (String × CType)} {ms' : List (String × Coq.FieldData)}
    (built : List.Forall₂ (fun m m' => m.1 = m'.1 ∧ fieldData impl tags m.2 = .ok m'.2) ms ms')
    (natural : ∀ m ∈ ms, ∀ l, layoutOf impl false m.2 = .ok l →
      ∃ size align, NaturalLayout impl tags padUnions m.2 size align) :
    ∃ data, NaturalMembers impl tags padUnions ms data := by
  induction built with
  | nil => exact ⟨[], .nil⟩
  | @cons m m' ms ms' head tail inductionHypothesis =>
      obtain ⟨size, align, layout⟩ :=
        natural m List.mem_cons_self _ (fieldData_eq_ok head.2).2.2
      obtain ⟨data, rest⟩ := inductionHypothesis fun m'' member =>
        natural m'' (List.mem_cons_of_mem m member)
      exact ⟨(align, size) :: data, .cons layout rest⟩

/-- C's layout rules apply to every tag. -/
theorem tag_natural (agrees : ImplAgrees impl) (T : TagDefs)
    (translated : translateStructs impl T.tags = .ok structs) {id : String} {d : TagDef}
    (found : findTag T.tags id = .ok d) :
    ∃ data, NaturalMembers impl T.tags padUnions d.members data := by
  refine T.acyclic.induction findTag_mem_tagNames
    (P := fun id => ∀ d, findTag T.tags id = .ok d →
      ∃ data, NaturalMembers impl T.tags padUnions d.members data)
    ?_ id d found d found
  intro id d found inductionHypothesis d' found'
  cases found.symm.trans found'
  obtain ⟨decl, built, -⟩ := findDecl_of_findTag (translateStructs_declOf translated) found
  obtain ⟨-, fields⟩ := structDecl_eq_ok built
  obtain ⟨s, member, -⟩ := findTag_mem found
  apply members_natural fields
  intro m inDef l layout
  refine type_natural agrees (T.complete _ member m inDef) layout ?_
  intro u inside d'' found''
  exact inductionHypothesis u (TagDef.mem_mentions inDef inside) d'' found'' d'' found''

/-- C's layout rules apply to every complete type that the frontend accepts. -/
theorem complete_natural (agrees : ImplAgrees impl) (T : TagDefs)
    (translated : translateStructs impl T.tags = .ok structs) {ty : CType} {l : Coq.Layout}
    (complete : Complete T.tags ty) (layout : layoutOf impl false ty = .ok l) :
    ∃ size align, NaturalLayout impl T.tags padUnions ty size align :=
  type_natural agrees complete layout fun _ _ _ found => tag_natural agrees T translated found

end

end

end RefinedC.Frontend
