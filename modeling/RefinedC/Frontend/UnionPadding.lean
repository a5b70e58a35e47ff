import RefinedC.Frontend.StructAgreement

/-!
Sizes that are multiples of alignments.

Owns: that native sizes are the sizes of emitted layouts up to wrap-around, and the
exact sets of tag definitions over which every size that the frontend computes is a
multiple of the alignment.

The frontend pads structs but not unions. The wrap-around keeps multiples of an
alignment, but the largest of some wrapped sizes may be that of another member than
the largest one.
-/

namespace RefinedC.Frontend

open Library

/-- No union needs padding after its largest member. -/
def UnionsUnpadded (impl : Impl) (tags : List (Sym × TagDef)) : Prop :=
  ∀ s members data, (s, TagDef.union members) ∈ tags →
    NaturalMembers impl tags true members data → maxAlign data ∣ maxSize data

/-- The largest member of every union has a native size. -/
def UnionsFit (impl : Impl) (tags : List (Sym × TagDef)) : Prop :=
  ∀ s members data, (s, TagDef.union members) ∈ tags →
    NaturalMembers impl tags true members data → maxSize data < 2 ^ 62

/-- Size and alignment of a type, the layout that is emitted for it, and the
elements of arrays of it. -/
structure SizeMultiple (impl : Impl) (tags : List (Sym × TagDef))
    (structs : List (String × Coq.StructDecl)) (ty : CType) (l : Coq.Layout) : Prop where
  size : ∀ size, sizeOf impl tags ty = .ok size →
    ∃ align : Nat, alignOf impl tags ty = .ok align ∧ size.tmod align = 0
  layout : ∃ ly, denote structs l = .ok ly ∧ ly.layoutWf ∧
    ∀ base i, ly.lyAlign ∣ base → ly.lyAlign ∣ base + (Caesium.mkArrayLayout ly i).lySize

/-! ## Wrapped sums of members -/

section

variable {data : List (Nat × Int)} {fields : List (String × Caesium.Layout)}

/-- The number of bytes that the frontend counts is the number of bytes that is
printed, up to wrap-around. -/
theorem wrapInt_placeNative (positive : ∀ m ∈ data, 0 < m.1)
    (sizes : List.Forall₂ (fun m field => m.2 = wrapInt 62 field.2.lySize) data fields)
    (nbBytes : Int) :
    wrapInt 62 (nbBytes + (Caesium.fieldSizes (placeNative nbBytes data fields)).sum) =
      wrapInt 62 (data.foldl addMember nbBytes) := by
  induction sizes generalizing nbBytes with
  | nil => simp [placeNative, Caesium.fieldSizes]
  | @cons m field data fields head tail inductionHypothesis =>
      rw [List.forall_mem_cons] at positive
      have pad := truncPadding_nonneg positive.1 nbBytes
      have split : (Caesium.fieldSizes (placeNative nbBytes (m :: data) (field :: fields))).sum =
          (truncPadding m.1 nbBytes).toNat + (field.2.lySize +
            (Caesium.fieldSizes (placeNative (addMember nbBytes m) data fields)).sum) := by
        rw [placeNative, Caesium.fieldSizes_append, List.sum_append, Caesium.fieldSizes_padField]
        rfl
      rw [List.foldl_cons, ← inductionHypothesis positive.2, split]
      generalize (Caesium.fieldSizes (placeNative (addMember nbBytes m) data fields)).sum = rest
      have before : nbBytes + ((truncPadding m.1 nbBytes).toNat + (field.2.lySize + rest) : Nat) =
          nbBytes + truncPadding m.1 nbBytes + rest + field.2.lySize := by
        omega
      rw [before, addMember_eq, head, wrapInt_wrap_add, Int.add_right_comm _ (wrapInt 62 _),
        wrapInt_add_wrap]

/-- Native and printed size of a struct agree up to wrap-around, and its alignment
divides both. -/
theorem wrapInt_placeStruct (positive : ∀ m ∈ data, 0 < m.1)
    (sizes : List.Forall₂ (fun m field => m.2 = wrapInt 62 field.2.lySize) data fields)
    (divides : maxAlign data ∣ 2 ^ 63) :
    structSize data = wrapInt 62 (Caesium.fieldSizes (placeStruct data fields)).sum ∧
      maxAlign data ∣ (Caesium.fieldSizes (placeStruct data fields)).sum := by
  have pad := truncPadding_nonneg (maxAlign_pos data) (data.foldl addMember 0)
  have multiple := dvd_add_truncPadding (maxAlign data) (data.foldl addMember 0)
  have counted := wrapInt_placeNative positive sizes 0
  rw [Int.zero_add] at counted
  have split : ((Caesium.fieldSizes (placeStruct data fields)).sum : Int) =
      (Caesium.fieldSizes (placeNative 0 data fields)).sum +
        truncPadding (maxAlign data) (data.foldl addMember 0) := by
    rw [placeStruct, Caesium.fieldSizes_append, List.sum_append, Caesium.fieldSizes_padField]
    omega
  have same : structSize data = wrapInt 62 (Caesium.fieldSizes (placeStruct data fields)).sum := by
    rw [structSize, split, ← wrapInt_wrap_add, ← counted, wrapInt_wrap_add]
  refine ⟨same, Int.natCast_dvd_natCast.mp ?_⟩
  rw [← dvd_wrapInt_iff divides, ← same, structSize, dvd_wrapInt_iff divides]
  exact multiple

end

/-! ## Sizes over unions that need no padding -/

section

variable {impl : Impl} {tags : List (Sym × TagDef)} {T : TagDefs}
  {structs : List (String × Coq.StructDecl)}

mutual

/-- Padding the unions then changes nothing. -/
theorem NaturalLayout.unpadded (unpadded : UnionsUnpadded impl tags) :
    ∀ {ty : CType} {n align : Nat},
    NaturalLayout impl tags true ty n align → NaturalLayout impl tags false ty n align
  | _, _, _, .integer isSize isAlign => .integer isSize isAlign
  | _, _, _, .pointer isSize isAlign => .pointer isSize isAlign
  | _, _, _, .array inner => .array (inner.unpadded unpadded)
  | _, _, _, .atomic inner => .atomic (inner.unpadded unpadded)
  | _, _, _, .struct found members => .struct found (members.unpadded unpadded)
  | _, _, _, .union found members => by
      obtain ⟨s, member, -⟩ := findTag_mem found
      rw [unionSize, if_pos rfl, alignUp_of_dvd (unpadded s _ _ member members)]
      exact .union found (members.unpadded unpadded)

private theorem NaturalMembers.unpadded (unpadded : UnionsUnpadded impl tags) :
    ∀ {members : List (String × CType)} {data : List (Nat × Nat)},
    NaturalMembers impl tags true members data → NaturalMembers impl tags false members data
  | _, _, .nil => .nil
  | _, _, .cons head tail => .cons (head.unpadded unpadded) (tail.unpadded unpadded)

end

/-- The emitted layout of a type is well formed, and its size is the native size up to
wrap-around. -/
def TypeMultiple (impl : Impl) (tags : List (Sym × TagDef))
    (structs : List (String × Coq.StructDecl)) (ty : CType) : Prop :=
  ∀ l ly, layoutOf impl false ty = .ok l → denote structs l = .ok ly →
    ly.layoutWf ∧ ∀ size, sizeOf impl tags ty = .ok size → size = wrapInt 62 ly.lySize

private theorem lySize_denote_lt (it : Coq.IntType) : it.denote.itLayout.lySize < 2 ^ 62 := by
  fun_cases Coq.IntType.denote it <;> decide

private theorem integer_multiple (agrees : ImplAgrees impl) (i : IntegerType) :
    TypeMultiple impl tags structs (.integer i) := by
  intro l ly layout denoted
  obtain ⟨found, translated, result⟩ := bind_eq_ok.mp layout
  cases found with
  | none =>
      cases result
      cases denoted
      obtain ⟨isSize, -⟩ := agrees.bool i translated
      refine ⟨dvd_refl 1, fun size found => ?_⟩
      rw [sizeOf, sizeOfWith, isSize] at found
      cases found
      exact (wrapInt_natCast (by decide)).symm
  | some it =>
      cases result
      cases denoted
      obtain ⟨isSize, -⟩ := agrees.integer i it translated
      refine ⟨dvd_refl _, fun size found => ?_⟩
      rw [sizeOf, sizeOfWith, isSize] at found
      cases found
      exact (wrapInt_natCast (lySize_denote_lt it)).symm

private theorem pointer_multiple (agrees : ImplAgrees impl) (ty : CType) :
    TypeMultiple impl tags structs (.pointer ty) := by
  intro l ly layout denoted
  cases layout
  cases denoted
  refine ⟨dvd_refl _, fun size found => ?_⟩
  rw [sizeOf, sizeOfWith, agrees.pointer.1] at found
  cases found
  exact (wrapInt_natCast (by decide)).symm

private theorem array_multiple {ty : CType} (k : Nat) (inner : TypeMultiple impl tags structs ty) :
    TypeMultiple impl tags structs (.array ty (some k)) := by
  intro l ly layout denoted
  obtain ⟨l', innerLayout, result⟩ := bind_eq_ok.mp layout
  cases result
  obtain ⟨ly', innerDenoted, result⟩ := bind_eq_ok.mp denoted
  cases result
  obtain ⟨wellFormed, sizes⟩ := inner l' ly' innerLayout innerDenoted
  refine ⟨Dvd.dvd.mul_right wellFormed k, fun size found => ?_⟩
  obtain ⟨k', isInt, rest⟩ := bind_eq_ok.mp found
  obtain ⟨size', innerSize, result⟩ := bind_eq_ok.mp rest
  cases result
  rw [toInt] at isInt
  split at isInt
  · cases isInt
    have printed : ((Caesium.mkArrayLayout ly' k).lySize : Int) = ly'.lySize * k := by
      exact_mod_cast rfl
    rw [sizes size' innerSize, wrapInt_wrap_mul, printed]
  · cases isInt

private theorem TagEmitted.struct_multiple {s : Sym} {decl : Coq.StructDecl}
    {fields : List (String × Caesium.Layout)} {data : List (Nat × Nat)}
    (tag : TagEmitted impl T.tags structs (symToStr s) false decl fields data)
    (sizes : List.Forall₂ (fun m field => m.2 = wrapInt 62 field.2.lySize)
      (nativeData decl.members) fields) :
    TypeMultiple impl T.tags structs (.struct s) := by
  intro l ly layout denoted
  cases layout
  cases tag.layout.symm.trans denoted
  obtain ⟨aligns, -, divides⟩ := tag.members.maxAlign_eq
  have positive : ∀ m ∈ nativeData decl.members, 0 < m.1 := by
    intro m member
    obtain ⟨field, -, align⟩ :=
      exists_of_mem_right (List.Forall₂.flip tag.members.aligned) member
    rw [align]
    exact field.2.lyAlign_pos
  rw [← aligns] at divides
  obtain ⟨same, multiple⟩ := wrapInt_placeStruct positive sizes divides
  refine ⟨?_, fun size found => ?_⟩
  · rw [if_neg Bool.false_ne_true, Caesium.Layout.layoutWf,
      tag.members.struct.sameAlign, ← aligns]
    exact multiple
  · rw [sizeOf, sizeOfWith, tag.native, tag.align, ok_bind, ← aligns, sizeOfData_false] at found
    cases found
    exact same

private theorem TagEmitted.union_multiple {s : Sym} {decl : Coq.StructDecl}
    {fields : List (String × Caesium.Layout)} {data : List (Nat × Nat)}
    (tag : TagEmitted impl T.tags structs (symToStr s) true decl fields data)
    (unpadded : maxAlign data ∣ maxSize data) (fits : maxSize data < 2 ^ 62) :
    TypeMultiple impl T.tags structs (.union s) := by
  intro l ly layout denoted
  cases layout
  cases tag.layout.symm.trans denoted
  obtain ⟨printed, native⟩ := tag.members.union.exact _ rfl (.inl fits)
  refine ⟨?_, fun size found => ?_⟩
  · rw [if_pos rfl, Caesium.Layout.layoutWf, tag.members.union.sameAlign, printed]
    exact unpadded
  · rw [sizeOf, sizeOfWith, tag.native, ok_bind, sizeOfData, if_pos rfl] at found
    cases found
    rw [native, if_pos rfl, printed, wrapInt_natCast fits]

mutual

/-- Layouts are well formed, and sizes exact up to wrap-around, if no union needs
padding. -/
theorem NaturalLayout.multiple (agrees : ImplAgrees impl)
    (translated : translateStructs impl T.tags = .ok structs) (fit : UnionsFit impl T.tags)
    (unpadded : UnionsUnpadded impl T.tags) : ∀ {ty : CType} {n align : Nat},
    NaturalLayout impl T.tags true ty n align → TypeMultiple impl T.tags structs ty
  | _, _, _, .integer _ _ => integer_multiple agrees _
  | _, _, _, .pointer _ _ => pointer_multiple agrees _
  | _, _, _, .array inner => array_multiple _ (inner.multiple agrees translated fit unpadded)
  | _, _, _, .atomic inner => inner.multiple agrees translated fit unpadded
  | _, _, _, .struct found members => by
      obtain ⟨decl, fields, built, tag⟩ :=
        tag_emitted translated found ((members.unpadded unpadded).emitted agrees translated)
      exact tag.struct_multiple
        (members.multiple agrees translated fit unpadded _ _ built tag.members.matches)
  | _, _, _, .union found members => by
      obtain ⟨decl, fields, built, tag⟩ :=
        tag_emitted translated found ((members.unpadded unpadded).emitted agrees translated)
      obtain ⟨s, member, -⟩ := findTag_mem found
      exact tag.union_multiple (unpadded s _ _ member members) (fit s _ _ member members)

private theorem NaturalMembers.multiple (agrees : ImplAgrees impl)
    (translated : translateStructs impl T.tags = .ok structs) (fit : UnionsFit impl T.tags)
    (unpadded : UnionsUnpadded impl T.tags) :
    ∀ {members : List (String × CType)} {data : List (Nat × Nat)},
    NaturalMembers impl T.tags true members data → ∀ members' fields, List.Forall₂
      (fun m m' => m.1 = m'.1 ∧ fieldData impl T.tags m.2 = .ok m'.2) members members' →
      List.Forall₂ (MemberMatches (definedLayout structs)) members' fields →
      List.Forall₂ (fun m field => m.2 = wrapInt 62 field.2.lySize) (nativeData members') fields
  | _, _, .nil, _, _, .nil, .nil => .nil
  | _, _, .cons head tail, _ :: _, _ :: _, .cons built rest, .cons isMatch matching => by
      obtain ⟨-, isSize, layout⟩ := fieldData_eq_ok built.2
      have sizes := (head.multiple agrees translated fit unpadded _ _ layout isMatch.layout).2
      exact .cons (sizes _ isSize)
        (tail.multiple agrees translated fit unpadded _ _ rest matching)

end

/-! ## Unions whose size is a multiple of the alignment -/

/-- A union of which the frontend's size is a multiple of the alignment needs no
padding, if its size is native. -/
theorem union_unpadded (agrees : ImplAgrees impl)
    (translated : translateStructs impl T.tags = .ok structs)
    (multiples : ∀ ty l, Complete T.tags ty → layoutOf impl false ty = .ok l →
      SizeMultiple impl T.tags structs ty l)
    {s : Sym} {members : List (String × CType)} {data : List (Nat × Nat)}
    (found : findTag T.tags (symToStr s) = .ok (.union members))
    (natural : NaturalMembers impl T.tags false members data) (fits : maxSize data < 2 ^ 62) :
    maxAlign data ∣ maxSize data := by
  obtain ⟨decl, fields, -, tag⟩ :=
    tag_emitted translated found (natural.emitted agrees translated)
  have isSize : sizeOf impl T.tags (.union s) =
      .ok ((nativeData decl.members).foldl (fun acc m => max acc m.2) 0) := by
    rw [sizeOf, sizeOfWith, tag.native, ok_bind, sizeOfData, if_pos rfl]
  obtain ⟨align, isAlign, multiple⟩ :=
    (multiples (.union s) _ ⟨members, found⟩ rfl).size _ isSize
  obtain ⟨-, native⟩ := tag.members.union.exact _ rfl (.inl fits)
  have isAlign' : alignOf impl T.tags (.union s) = .ok (maxAlign data) := tag.align
  cases isAlign'.symm.trans isAlign
  rw [native] at multiple
  exact Int.natCast_dvd_natCast.mp (Int.dvd_of_tmod_eq_zero multiple)

mutual

/-- Padding the unions then changes no size that is native. -/
theorem NaturalLayout.unpadded_of_small (unions : ∀ s members data,
      findTag tags (symToStr s) = .ok (.union members) →
      NaturalMembers impl tags false members data → maxSize data < 2 ^ 62 →
      maxAlign data ∣ maxSize data) : ∀ {ty : CType} {n align : Nat},
    NaturalLayout impl tags true ty n align →
      ∃ n', NaturalLayout impl tags false ty n' align ∧ (n < 2 ^ 62 → n' = n)
  | _, _, _, .integer isSize isAlign => ⟨_, .integer isSize isAlign, fun _ => rfl⟩
  | _, _, _, .pointer isSize isAlign => ⟨_, .pointer isSize isAlign, fun _ => rfl⟩
  | _, _, _, @NaturalLayout.array _ _ _ ty k n align inner => by
      obtain ⟨n', natural, same⟩ := inner.unpadded_of_small unions
      refine ⟨n' * k, .array natural, fun small => ?_⟩
      rcases Nat.eq_zero_or_pos k with rfl | positive
      · rfl
      · rw [same (lt_of_le_of_lt (Nat.le_mul_of_pos_right n positive) small)]
  | _, _, _, .atomic inner => by
      obtain ⟨n', natural, same⟩ := inner.unpadded_of_small unions
      exact ⟨n', .atomic natural, same⟩
  | _, _, _, .struct found members => by
      obtain ⟨data', natural, aligns, same⟩ := members.unpadded_of_small unions
      rw [← aligns]
      refine ⟨_, .struct found natural, fun small => ?_⟩
      have sizes := same fun m member =>
        lt_of_le_of_lt (le_trans (size_le_membersEnd member 0) (le_alignUp _ _)) small
      rw [sizes]
  | _, _, _, @NaturalLayout.union _ _ _ s ms data found members => by
      obtain ⟨data', natural, aligns, same⟩ := members.unpadded_of_small unions
      rw [← aligns]
      refine ⟨_, .union found natural, fun small => ?_⟩
      rw [unionSize, if_pos rfl] at small
      have fits : maxSize data < 2 ^ 62 := lt_of_le_of_lt (le_alignUp (maxAlign data) _) small
      have sizes := same fun m member => lt_of_le_of_lt (size_le_maxSize member) fits
      subst sizes
      rw [unionSize, unionSize, if_pos rfl, alignUp_of_dvd (unions s ms data' found natural fits)]
      rfl

private theorem NaturalMembers.unpadded_of_small (unions : ∀ s members data,
      findTag tags (symToStr s) = .ok (.union members) →
      NaturalMembers impl tags false members data → maxSize data < 2 ^ 62 →
      maxAlign data ∣ maxSize data) :
    ∀ {members : List (String × CType)} {data : List (Nat × Nat)},
    NaturalMembers impl tags true members data →
      ∃ data', NaturalMembers impl tags false members data' ∧
      maxAlign data' = maxAlign data ∧ ((∀ m ∈ data, m.2 < 2 ^ 62) → data' = data)
  | _, _, .nil => ⟨[], .nil, rfl, fun _ => rfl⟩
  | _, _, .cons head tail => by
      obtain ⟨n', natural, same⟩ := head.unpadded_of_small unions
      obtain ⟨data', others, aligns, rest⟩ := tail.unpadded_of_small unions
      refine ⟨_, .cons natural others, ?_, fun small => ?_⟩
      · rw [maxAlign_cons, maxAlign_cons, aligns]
      · rw [List.forall_mem_cons] at small
        rw [same small.1, rest small.2]

end

/-- Over tag definitions whose unions have native sizes, sizes are multiples of
alignments exactly if no union needs padding. That no union of a native size needs
padding is necessary over all tag definitions. -/
theorem sizeMultiple_iff (impl : Impl) (agrees : ImplAgrees impl) (T : TagDefs)
    (structs : List (String × Coq.StructDecl))
    (translated : translateStructs impl T.tags = .ok structs) :
    (UnionsFit impl T.tags → ((∀ ty l, Complete T.tags ty → layoutOf impl false ty = .ok l →
      SizeMultiple impl T.tags structs ty l) ↔ UnionsUnpadded impl T.tags)) ∧
    ((∀ ty l, Complete T.tags ty → layoutOf impl false ty = .ok l →
      SizeMultiple impl T.tags structs ty l) → ∀ s members data,
      (s, TagDef.union members) ∈ T.tags → NaturalMembers impl T.tags true members data →
      maxSize data < 2 ^ 62 → maxAlign data ∣ maxSize data) := by
  have necessary : (∀ ty l, Complete T.tags ty → layoutOf impl false ty = .ok l →
      SizeMultiple impl T.tags structs ty l) → ∀ s members data,
      (s, TagDef.union members) ∈ T.tags → NaturalMembers impl T.tags true members data →
      maxSize data < 2 ^ 62 → maxAlign data ∣ maxSize data := by
    intro multiples s members data member natural fits
    obtain ⟨data', natural', -, same⟩ :=
      natural.unpadded_of_small fun _ _ _ => union_unpadded agrees translated multiples
    have sizes := same fun m inData => lt_of_le_of_lt (size_le_maxSize inData) fits
    subst sizes
    exact union_unpadded agrees translated multiples
      (findTag_of_mem T.distinct member) natural' fits
  refine ⟨fun fit => ⟨fun multiples s members data member natural =>
    necessary multiples s members data member natural (fit s members data member natural), ?_⟩,
    necessary⟩
  intro unpadded ty l complete layout
  obtain ⟨n, align, natural⟩ := complete_natural agrees T translated complete layout
  obtain ⟨isAlign, ly, denoted, emitted⟩ :=
    (natural.unpadded unpadded).emitted agrees translated l layout
  obtain ⟨wellFormed, sizes⟩ :=
    natural.multiple agrees translated fit unpadded l ly layout denoted
  refine ⟨fun size isSize => ⟨align, isAlign, ?_⟩, ly, denoted, wellFormed,
    fun base i aligned => ?_⟩
  · rw [sizes size isSize]
    apply Int.tmod_eq_zero_of_dvd
    rw [dvd_wrapInt_iff emitted.divides, ← emitted.sameAlign]
    exact Int.natCast_dvd_natCast.mpr wellFormed
  · exact Nat.dvd_add aligned (Dvd.dvd.mul_right wellFormed i)

end

/-! ## Two unions -/

def tagV : Sym := ⟨3, "V"⟩
def membersV : List (String × CType) :=
  [("i", .integer (.signed .int)), ("b", .array charTy (some 8))]

/-- `union V { int i; char b[8]; }`. -/
def unpaddedTags : TagDefs where
  tags := [(tagV, .union membersV)]
  distinct := by decide
  acyclic := by
    apply acyclic_of_measure fun _ => 0
    rintro u v ⟨d, found, mentioned⟩
    obtain ⟨s, member, -⟩ := findTag_mem found
    cases List.mem_singleton.mp member
    cases mentioned
  complete := by
    intro d member m inDef
    cases List.mem_singleton.mp member
    simp only [TagDef.members, membersV, List.mem_cons, List.not_mem_nil, or_false] at inDef
    rcases inDef with rfl | rfl
    · trivial
    · trivial

def unpaddedStructs : List (String × Coq.StructDecl) :=
  [("V",
    ⟨true,
      [("i", ⟨4, 4, .int (.i32 true)⟩), ("b", ⟨1, 8, .array (.int (.i8 true)) 8⟩)]⟩)]

/-- `i` and `b` by C's layout rules. -/
theorem naturalMembers_V {data : List (Nat × Nat)}
    (natural : NaturalMembers lp64 unpaddedTags.tags true membersV data) :
    data = [(4, 4), (1, 8)] := by
  obtain _ | ⟨⟨sizeI, alignI⟩, _ | ⟨_ | _ | ⟨⟨sizeB, alignB⟩⟩, _ | _⟩⟩ :=
    natural
  cases sizeI
  cases alignI
  cases sizeB
  cases alignB
  rfl

private theorem unpaddedTags_unpadded : UnionsUnpadded lp64 unpaddedTags.tags := by
  intro s members data member natural
  cases List.mem_singleton.mp member
  rw [naturalMembers_V natural]
  decide

private theorem unpaddedTags_fit : UnionsFit lp64 unpaddedTags.tags := by
  intro s members data member natural
  cases List.mem_singleton.mp member
  rw [naturalMembers_V natural]
  decide

theorem sizeMultiple_unpadded :
    SizeMultiple lp64 unpaddedTags.tags unpaddedStructs (.array (.union tagV) (some 3))
      (.array (.struct "V" true) 3) :=
  ((sizeMultiple_iff lp64 lp64_agrees unpaddedTags unpaddedStructs rfl).1 unpaddedTags_fit).mpr
    unpaddedTags_unpadded (.array (.union tagV) (some 3)) _ ⟨membersV, rfl⟩ rfl

/-- `union U { int i; char b[5]; }` has size 5 and alignment 4. -/
theorem sizeMultiple_fails_nested :
    Complete nestedTags.tags (.union tagU) ∧
      translateStructs lp64 nestedTags.tags = .ok nestedStructs ∧
      sizeOf lp64 nestedTags.tags (.union tagU) = .ok 5 ∧
      alignOf lp64 nestedTags.tags (.union tagU) = .ok 4 ∧
      ¬ SizeMultiple lp64 nestedTags.tags nestedStructs (.union tagU) (.struct "U" true) := by
  have size : sizeOf lp64 nestedTags.tags (.union tagU) = .ok 5 := rfl
  have align : alignOf lp64 nestedTags.tags (.union tagU) = .ok 4 := rfl
  refine ⟨⟨membersU, rfl⟩, rfl, size, align, ?_⟩
  intro isMultiple
  obtain ⟨align', isAlign, multiple⟩ := isMultiple.size 5 size
  cases align.symm.trans isAlign
  exact absurd multiple (by decide)

end RefinedC.Frontend
