import RefinedC.Caesium.Determinism
import RefinedC.Caesium.MemCastFixpoint
import RefinedC.Caesium.Notation
import RefinedC.Caesium.PointerOrder

/-!
Construction of structs and access to their members.

Source: `theories/caesium/struct.v` (`offset_of`, `index_of`, `field_index_of`, `pad_struct`,
`check_fields_aligned`, `GetMemberLoc`), `StructInit` of `theories/caesium/notation.v`, and
`mem_cast` of `theories/caesium/heap.v`.

Owns: how the numberings of the members of a struct line up, the value that a struct
initialiser builds, loading a struct and loading its members, and where the members are in
memory.
-/

namespace RefinedC.Caesium

open RefinedC.Library

/-! ## Numberings of members -/

/-- Member `f` is at position `i` with padding, and at position `k` without. -/
inductive MemberAt (f : VarName) (ly : Layout) : FieldList → Nat → Nat → Prop where
  | here {s : FieldList} : MemberAt f ly ((some f, ly) :: s) 0 0
  | afterMember {g : VarName} {ly' : Layout} {s : FieldList} {i k : Nat} :
      g ≠ f → MemberAt f ly s i k → MemberAt f ly ((some g, ly') :: s) (i + 1) (k + 1)
  | afterPadding {ly' : Layout} {s : FieldList} {i k : Nat} :
      MemberAt f ly s i k → MemberAt f ly ((none, ly') :: s) (i + 1) k

private theorem fieldNames_eq (s : FieldList) : fieldNames s = (fieldMembers s).map Prod.fst := by
  induction s with
  | nil => rfl
  | cons field s inductionHypothesis =>
      obtain ⟨name, ly⟩ := field
      unfold fieldNames fieldMembers at inductionHypothesis ⊢
      cases name <;> simp [inductionHypothesis]

private theorem exists_memberAt {s : FieldList} {f : VarName} {ly : Layout}
    (nodup : (fieldNames s).Nodup) (member : (f, ly) ∈ fieldMembers s) :
    ∃ i k, MemberAt f ly s i k := by
  induction s with
  | nil => cases member
  | cons field s inductionHypothesis =>
      obtain ⟨name, ly'⟩ := field
      cases name with
      | none =>
          obtain ⟨i, k, found⟩ := inductionHypothesis nodup member
          exact ⟨i + 1, k, .afterPadding found⟩
      | some g =>
          have split : fieldMembers ((some g, ly') :: s) = (g, ly') :: fieldMembers s := rfl
          have names : fieldNames ((some g, ly') :: s) = g :: fieldNames s := rfl
          rw [split] at member
          rw [names, List.nodup_cons] at nodup
          rcases List.mem_cons.mp member with same | inTail
          · cases same
            exact ⟨0, 0, .here⟩
          · obtain ⟨i, k, found⟩ := inductionHypothesis nodup.2 inTail
            have other : g ≠ f := by
              rintro rfl
              rw [fieldNames_eq] at nodup
              exact nodup.1 (List.mem_map.mpr ⟨_, inTail, rfl⟩)
            exact ⟨i + 1, k + 1, .afterMember other found⟩

namespace MemberAt

variable {f g : VarName} {ly ly' : Layout} {s : FieldList} {i j k k' : Nat}

private theorem getElem (found : MemberAt f ly s i k) : s[i]? = some (some f, ly) := by
  induction found with
  | here => rfl
  | afterMember _ _ inductionHypothesis => exact inductionHypothesis
  | afterPadding _ inductionHypothesis => exact inductionHypothesis

theorem fieldMembers (found : MemberAt f ly s i k) : (fieldMembers s)[k]? = some (f, ly) := by
  induction found with
  | here => rfl
  | afterMember _ _ inductionHypothesis => exact inductionHypothesis
  | afterPadding _ inductionHypothesis => exact inductionHypothesis

theorem indexOf (found : MemberAt f ly s i k) : indexOf s f = some i := by
  unfold Caesium.indexOf
  induction found with
  | here => simp [List.findIdx?_cons]
  | afterMember other _ inductionHypothesis =>
      rw [List.findIdx?_cons, inductionHypothesis]
      simp [other]
  | afterPadding _ inductionHypothesis =>
      rw [List.findIdx?_cons, inductionHypothesis]
      simp

theorem offsetOf (found : MemberAt f ly s i k) : offsetOf s f = some (offsetOfIdx s i) := by
  rw [Caesium.offsetOf, found.indexOf, Option.map_some]

theorem fieldIndexOf (found : MemberAt f ly s i k) : fieldIndexOf s f = some k := by
  induction found with
  | here => simp [Caesium.fieldIndexOf]
  | afterMember other _ inductionHypothesis =>
      simp [Caesium.fieldIndexOf, inductionHypothesis, other]
  | afterPadding _ inductionHypothesis => simp [Caesium.fieldIndexOf, inductionHypothesis]

theorem padStruct {α : Type} (found : MemberAt f ly s i k) (l : List α) (d : Layout → α) :
    (padStruct s l d)[i]? = some (l[k]?.getD (d ly)) := by
  induction found generalizing l with
  | here => cases l <;> rfl
  | afterMember _ _ inductionHypothesis =>
      have tail := inductionHypothesis l.tail
      rw [List.getElem?_tail] at tail
      exact tail
  | afterPadding _ inductionHypothesis => exact inductionHypothesis l

theorem size (found : MemberAt f ly s i k) : (fieldSizes s)[i]? = some ly.lySize := by
  rw [fieldSizes, List.getElem?_map, found.getElem, Option.map_some]

end MemberAt

private theorem padStruct_padding {α : Type} {s : FieldList} {i : Nat} {ly : Layout}
    (padding : s[i]? = some (none, ly)) (l : List α) (d : Layout → α) :
    (padStruct s l d)[i]? = some (d ly) := by
  induction s generalizing i l with
  | nil => simp at padding
  | cons field s inductionHypothesis =>
      obtain ⟨name, ly'⟩ := field
      cases i with
      | zero =>
          cases padding
          rfl
      | succ i =>
          cases name with
          | none => exact inductionHypothesis padding l
          | some name => exact inductionHypothesis padding l.tail

/-! ## Offsets -/

section

variable {s : FieldList} {i j : Nat} {name : Option VarName} {ly : Layout}

private theorem offsetOfIdx_succ (field : s[i]? = some (name, ly)) :
    offsetOfIdx s (i + 1) = offsetOfIdx s i + ly.lySize := by
  have size : (fieldSizes s)[i]? = some ly.lySize := by
    rw [fieldSizes, List.getElem?_map, field, Option.map_some]
  rw [offsetOfIdx, List.take_add_one, size, List.sum_append, offsetOfIdx]
  simp

private theorem offsetOfIdx_mono (le : i ≤ j) : offsetOfIdx s i ≤ offsetOfIdx s j := by
  obtain ⟨n, rfl⟩ := Nat.exists_eq_add_of_le le
  rw [offsetOfIdx, offsetOfIdx, List.take_add, List.sum_append]
  exact Nat.le_add_right _ _

/-- A field ends before every later one starts. -/
theorem offsetOfIdx_add_le (field : s[i]? = some (name, ly)) (later : i < j) :
    offsetOfIdx s i + ly.lySize ≤ offsetOfIdx s j := by
  rw [← offsetOfIdx_succ field]
  exact offsetOfIdx_mono later

private theorem offsetOfIdx_add_le_size (field : s[i]? = some (name, ly)) :
    offsetOfIdx s i + ly.lySize ≤ (fieldSizes s).sum := by
  have inside : i < (fieldSizes s).length := by
    rw [fieldSizes, List.length_map]
    exact (List.getElem?_eq_some_iff.mp field).1
  have whole : offsetOfIdx s (fieldSizes s).length = (fieldSizes s).sum := by
    rw [offsetOfIdx, List.take_length]
  rw [← whole]
  exact offsetOfIdx_add_le field inside

private theorem checkFieldsAligned_offset {pos : Nat} (aligned : checkFieldsAligned s pos = true)
    (field : s[i]? = some (name, ly)) : ly.lyAlign ∣ pos + offsetOfIdx s i := by
  induction s generalizing pos i with
  | nil => simp at field
  | cons first s inductionHypothesis =>
      obtain ⟨name', ly'⟩ := first
      rw [checkFieldsAligned, Bool.and_eq_true, decide_eq_true_eq] at aligned
      cases i with
      | zero =>
          cases field
          exact Nat.dvd_of_mod_eq_zero aligned.1
      | succ i =>
          have later := inductionHypothesis aligned.2 field
          have shifted : offsetOfIdx ((name', ly') :: s) (i + 1) =
              ly'.lySize + offsetOfIdx s i := by
            simp [offsetOfIdx, fieldSizes]
          rwa [shifted, ← Nat.add_assoc]

private theorem lyAlign_dvd_layoutOfMembers (field : (name, ly) ∈ s) :
    ly.lyAlign ∣ (layoutOfMembers s).lyAlign := by
  refine Nat.pow_dvd_pow 2 ?_
  induction s with
  | nil => cases field
  | cons first s inductionHypothesis =>
      rcases List.mem_cons.mp field with rfl | inTail
      · exact Nat.le_max_left _ _
      · exact (inductionHypothesis inTail).trans (Nat.le_max_right _ _)

end

/-! ## Members of a struct layout -/

/-- The bytes from offset `off` on, `n` of them. -/
def slice (off n : Nat) (v : Val) : Val := (v.drop off).take n

section

variable {sl : StructLayout} {f g : VarName} {ly ly' : Layout}

private theorem StructLayout.memberAt (member : (f, ly) ∈ fieldMembers sl.slMembers) :
    ∃ i k, MemberAt f ly sl.slMembers i k :=
  exists_memberAt sl.slNodup member

/-- Every member has one layout. -/
theorem StructLayout.layout_unique (member : (f, ly) ∈ fieldMembers sl.slMembers)
    (member' : (f, ly') ∈ fieldMembers sl.slMembers) : ly = ly' := by
  obtain ⟨i, k, found⟩ := StructLayout.memberAt member
  obtain ⟨i', k', found'⟩ := StructLayout.memberAt member'
  have same : i = i' := Option.some.inj (found.indexOf.symm.trans found'.indexOf)
  subst same
  cases found.getElem.symm.trans found'.getElem
  rfl

end

/-! ## Struct initialisers -/

/-- The value of each member and each padding of a struct initialiser. -/
def memberVals (sl : StructLayout) (fs : List (VarName × Val)) : List Val :=
  sl.slMembers.map fun field =>
    (field.1.bind (PartialMap.ofList fs)).getD (List.replicate field.2.lySize .mPoison)

/-- Distinct members are given, with values of their size. -/
structure NamesMembers (sl : StructLayout) (fs : List (VarName × Val)) : Prop where
  nodup : (fs.map Prod.fst).Nodup
  members : ∀ f v, (f, v) ∈ fs → ∃ ly, (f, ly) ∈ fieldMembers sl.slMembers ∧
      hasLayoutVal v ly

/-- `v` is what the struct initialiser with the values `fs` builds. -/
structure StructBuilt (sl : StructLayout) (fs : List (VarName × Val)) (v : Val) : Prop where
  evaluates : ∀ σ e σ',
    ExprStep (.structInit sl (fs.map fun field => (field.1, .val field.2))) σ e σ' ↔
      e = toRtexpr (.val v) ∧ σ' = σ
  size : hasLayoutVal v sl.layoutOf
  given : ∀ f ly x, (f, ly) ∈ fieldMembers sl.slMembers → (f, x) ∈ fs →
    ∃ off, offsetOf sl.slMembers f = some off ∧ slice off ly.lySize v = x
  missing : ∀ f ly, (f, ly) ∈ fieldMembers sl.slMembers → f ∉ fs.map Prod.fst →
    ∃ off, offsetOf sl.slMembers f = some off ∧
      slice off ly.lySize v = List.replicate ly.lySize .mPoison

section

variable {sl : StructLayout} {fs : List (VarName × Val)} {f : VarName} {ly : Layout}

private theorem structInit_eq (sl : StructLayout) (fs : List (VarName × Val)) :
    Expr.structInit sl (fs.map fun field => (field.1, .val field.2)) =
      .concat ((memberVals sl fs).map .val) := by
  rw [Expr.structInit, memberVals, List.map_map]
  refine congrArg Expr.concat (List.map_congr_left fun field _ => ?_)
  have bindings : field.1.bind (PartialMap.ofList (fs.map fun field => (field.1, .val field.2))) =
      (field.1.bind (PartialMap.ofList fs)).map Expr.val := by
    cases field.1 with
    | none => rfl
    | some name => exact PartialMap.ofList_map Expr.val
  rw [bindings, Function.comp_apply]
  cases field.1.bind (PartialMap.ofList fs) <;> rfl

private theorem exprStep_concat {vs : List Val} {σ σ' : State} {e : RuntimeExpr} :
    ExprStep (.concat (vs.map .val)) σ e σ' ↔ e = toRtexpr (.val vs.flatten) ∧ σ' = σ := by
  constructor
  · intro step
    generalize shape : Expr.concat (vs.map .val) = redex at step
    cases step <;> simp only [Expr.concat.injEq, reduceCtorEq] at shape
    exact ⟨by rw [map_val_inj shape], rfl⟩
  · rintro ⟨rfl, rfl⟩
    exact .concatS

theorem NamesMembers.lookup (names : NamesMembers sl fs) {x : Val}
    (member : (f, ly) ∈ fieldMembers sl.slMembers) (bound : PartialMap.ofList fs f = some x) :
    x.length = ly.lySize := by
  have inList : (f, x) ∈ fs := PartialMap.mem_of_ofList bound
  obtain ⟨ly', member', size⟩ := names.members f x inList
  rw [StructLayout.layout_unique member member']
  exact size

private theorem memberVals_lengths (names : NamesMembers sl fs) :
    (memberVals sl fs).map List.length = fieldSizes sl.slMembers := by
  rw [memberVals, List.map_map, fieldSizes]
  refine List.map_congr_left fun field inside => ?_
  obtain ⟨name, ly⟩ := field
  have poison : (List.replicate ly.lySize Mbyte.mPoison).length = ly.lySize :=
    List.length_replicate
  cases name with
  | none => exact poison
  | some name =>
      have member : (name, ly) ∈ fieldMembers sl.slMembers :=
        List.mem_filterMap.mpr ⟨_, inside, rfl⟩
      cases bound : PartialMap.ofList fs name with
      | none => simp [bound]
      | some x => simpa [bound] using names.lookup member bound

/-- A member has the value that it is given, or poison. -/
theorem slice_memberVals (names : NamesMembers sl fs)
    (member : (f, ly) ∈ fieldMembers sl.slMembers) :
    ∃ off, offsetOf sl.slMembers f = some off ∧
      slice off ly.lySize (memberVals sl fs).flatten =
        (PartialMap.ofList fs f).getD (List.replicate ly.lySize .mPoison) := by
  obtain ⟨i, k, found⟩ := StructLayout.memberAt member
  refine ⟨offsetOfIdx sl.slMembers i, found.offsetOf, ?_⟩
  generalize isPart : (PartialMap.ofList fs f).getD (List.replicate ly.lySize .mPoison) = part
  have atPosition : (memberVals sl fs)[i]? = some part := by
    rw [memberVals, List.getElem?_map, found.getElem, ← isPart]
    rfl
  have length : part.length = ly.lySize := by
    rw [← isPart]
    cases bound : PartialMap.ofList fs f with
    | none => exact List.length_replicate
    | some x => exact names.lookup member bound
  have piece := pieceAt_flatten atPosition
  rwa [memberVals_lengths names, length] at piece

private theorem structInit_builds (names : NamesMembers sl fs) :
    StructBuilt sl fs (memberVals sl fs).flatten where
  evaluates σ e σ' := by rw [structInit_eq, exprStep_concat]
  size := by
    rw [hasLayoutVal, List.length_flatten, memberVals_lengths names]
    rfl
  given f ly x member bound := by
    obtain ⟨off, isOffset, isValue⟩ := slice_memberVals names member
    rw [PartialMap.ofList_of_mem names.nodup bound] at isValue
    exact ⟨off, isOffset, isValue⟩
  missing f ly member unbound := by
    obtain ⟨off, isOffset, isValue⟩ := slice_memberVals names member
    rw [PartialMap.ofList_eq_none.mpr unbound] at isValue
    exact ⟨off, isOffset, isValue⟩

end

/-! ## Loading a struct -/

/-- Loading the struct and then taking a member is the same as loading the member. -/
structure StructLoads (sl : StructLayout) (ots : List OpType) : Prop where
  member : ∀ fns st v, hasLayoutVal v sl.layoutOf →
    ∀ f ly, (f, ly) ∈ fieldMembers sl.slMembers →
      ∃ off k ot, offsetOf sl.slMembers f = some off ∧
        fieldIndexOf sl.slMembers f = some k ∧ ots[k]? = some ot ∧ ot.otLayout = ly ∧
        slice off ly.lySize (memCast v (.structOp sl ots) fns st) =
          memCast (slice off ly.lySize v) ot fns st
  padding : ∀ fns st v, hasLayoutVal v sl.layoutOf →
    ∀ i ly, sl.slMembers[i]? = some (none, ly) →
      slice (offsetOfIdx sl.slMembers i) ly.lySize (memCast v (.structOp sl ots) fns st) =
        List.replicate ly.lySize .mPoison

section

variable {sl : StructLayout} {ots : List OpType} {v : Val} {fns : Int → Bool} {st : HeapState}

private theorem memCasts_eq (ots : List OpType) (fns : Int → Bool) (st : HeapState) :
    memCasts ots fns st = ots.map fun ot v => memCast v ot fns st := by
  induction ots with
  | nil => rw [memCasts, List.map_nil]
  | cons ot ots inductionHypothesis => rw [memCasts, inductionHypothesis, List.map_cons]

private theorem memberCasts_lengths (s : FieldList) {casts : List (Val → Val)}
    (lengths : ∀ cast ∈ casts, ∀ v, (cast v).length = v.length) :
    List.Forall₂ (fun n f => ∀ v : Val, v.length = n → (f v).length = n) (fieldSizes s)
      (memberCasts s casts) := by
  induction s generalizing casts with
  | nil => exact .nil
  | cons field s inductionHypothesis =>
      obtain ⟨name, ly⟩ := field
      have poison : ∀ v : Val, v.length = ly.lySize →
          (List.replicate ly.lySize Mbyte.mPoison).length = ly.lySize :=
        fun _ _ => List.length_replicate
      cases name with
      | none => exact .cons poison (inductionHypothesis lengths)
      | some name =>
          cases casts with
          | nil => exact .cons poison (inductionHypothesis lengths)
          | cons cast casts =>
              rw [List.forall_mem_cons] at lengths
              exact .cons (fun v length => (lengths.1 v).trans length)
                (inductionHypothesis lengths.2)

/-- A piece of a loaded struct is the change of that piece. -/
theorem slice_memCast (whole : hasLayoutVal v sl.layoutOf) {i n : Nat} {cast : Val → Val}
    (size : (fieldSizes sl.slMembers)[i]? = some n)
    (isCast : (memberCasts sl.slMembers (memCasts ots fns st))[i]? = some cast) :
    slice (offsetOfIdx sl.slMembers i) n (memCast v (.structOp sl ots) fns st) =
      cast (slice (offsetOfIdx sl.slMembers i) n v) := by
  have keepLength : ∀ cast ∈ memCasts ots fns st, ∀ v, (cast v).length = v.length := by
    rw [memCasts_eq, List.forall_mem_map]
    exact fun ot _ v => (memCast_settles fns fns st st ot).lengthF v
  have lengths := memberCasts_lengths sl.slMembers keepLength
  have length : v.length = (fieldSizes sl.slMembers).sum := whole
  rw [memCast_struct, fit_of_length ((length_mapPieces lengths length).trans length.symm)]
  exact pieceAt_mapPieces lengths length size isCast

private theorem struct_loads
    (match_ : ots.map OpType.otLayout = (fieldMembers sl.slMembers).map Prod.snd) :
    StructLoads sl ots where
  member fns st v whole f ly member := by
    obtain ⟨i, k, found⟩ := StructLayout.memberAt member
    have layouts := congrArg (·[k]?) match_
    simp only [List.getElem?_map, found.fieldMembers, Option.map_some] at layouts
    obtain ⟨ot, isOt, isLayout⟩ := Option.map_eq_some_iff.mp layouts
    have isCast : (memberCasts sl.slMembers (memCasts ots fns st))[i]? =
        some (memCast · ot fns st) := by
      rw [memberCasts, found.padStruct, memCasts_eq, List.getElem?_map, isOt]
      rfl
    exact ⟨offsetOfIdx sl.slMembers i, k, ot, found.offsetOf, found.fieldIndexOf, isOt,
      isLayout, slice_memCast whole found.size isCast⟩
  padding fns st v whole i ly padding := by
    have size : (fieldSizes sl.slMembers)[i]? = some ly.lySize := by
      rw [fieldSizes, List.getElem?_map, padding, Option.map_some]
    exact slice_memCast whole size (padStruct_padding padding _ _)

end

/-! ## Members in memory -/

/-- `getMember` computes the location of the member, where that is in bounds. -/
def GetsMember (sl : StructLayout) (l : Loc) (f : VarName) : Prop :=
  ∃ o, Expr.offsetOf sl f = .val o ∧
    Expr.getMember (.val (valOfLoc l)) sl f =
      .binOp (.ptrOffsetOp u8.itLayout) (.intOp sizeT) .ptrOp (.val o) (.val (valOfLoc l)) ∧
    ∀ σ w, EvalBinOp (.ptrOffsetOp u8.itLayout) (.intOp sizeT) .ptrOp σ o (valOfLoc l) w ↔
      heapStateLocInBounds (getMemberLoc l sl f) 0 σ.stHeap ∧ w = valOfLoc (getMemberLoc l sl f)

/-- The members of the struct at `l`. -/
structure StructPlaced (sl : StructLayout) (l : Loc) : Prop where
  inside : ∀ f ly, (f, ly) ∈ fieldMembers sl.slMembers →
    l.2 ≤ (getMemberLoc l sl f).2 ∧
      (getMemberLoc l sl f).2 + ly.lySize ≤ l.2 + sl.layoutOf.lySize
  aligned : ∀ f ly, (f, ly) ∈ fieldMembers sl.slMembers →
      hasLayoutLoc (getMemberLoc l sl f) ly
  disjoint : ∀ f ly g ly', (f, ly) ∈ fieldMembers sl.slMembers →
    (g, ly') ∈ fieldMembers sl.slMembers → f ≠ g → ∀ a : Int,
      ¬ (((getMemberLoc l sl f).2 ≤ a ∧ a < (getMemberLoc l sl f).2 + ly.lySize) ∧
        (getMemberLoc l sl g).2 ≤ a ∧ a < (getMemberLoc l sl g).2 + ly'.lySize)
  computed : ∀ f ly, (f, ly) ∈ fieldMembers sl.slMembers → GetsMember sl l f

section

variable {sl : StructLayout} {l : Loc} {f : VarName} {ly : Layout}

private theorem getMemberLoc_eq {i k : Nat} (found : MemberAt f ly sl.slMembers i k) (l : Loc) :
    getMemberLoc l sl f = (l.1, l.2 + offsetOfIdx sl.slMembers i) := by
  rw [getMemberLoc, found.offsetOf]
  rfl

private theorem getMember_evaluates (member : (f, ly) ∈ fieldMembers sl.slMembers) (l : Loc) :
    GetsMember sl l f := by
  obtain ⟨i, k, found⟩ := StructLayout.memberAt member
  have inRange : IntType.InRange (offsetOfIdx sl.slMembers i) sizeT := by
    have bound := offsetOfIdx_add_le_size found.getElem
    have size := sl.slSize
    have least : sizeT.minInt = 0 := rfl
    unfold IntType.InRange
    omega
  have encoded := valOfZ_eq inRange none
  generalize (bytesOfZ (offsetOfIdx sl.slMembers i : Int) sizeT.bytesPerInt).map
    (Mbyte.mByte · none) = o at encoded
  refine ⟨o, ?_, ?_, fun σ w => ?_⟩
  · rw [Expr.offsetOf, found.offsetOf, Option.bind_some, encoded]
    rfl
  · rw [Expr.getMember, found.offsetOf, Option.bind_some, encoded]
    rfl
  · have isLoc : offsetLoc l u8.itLayout (offsetOfIdx sl.slMembers i) = getMemberLoc l sl f := by
      rw [getMemberLoc, found.offsetOf, offsetLoc]
      exact congrArg (shiftLoc l) (one_mul _)
    rw [ptrOffset_iff (valOfZ_decodes encoded).2.1 (valToLoc_valOfLoc l), isLoc]

private theorem struct_placed (aligned : hasLayoutLoc l sl.layoutOf) : StructPlaced sl l where
  inside f ly member := by
    obtain ⟨i, k, found⟩ := StructLayout.memberAt member
    have bound := offsetOfIdx_add_le_size found.getElem
    have size : sl.layoutOf.lySize = (fieldSizes sl.slMembers).sum := rfl
    rw [getMemberLoc_eq found, size]
    omega
  aligned f ly member := by
    obtain ⟨i, k, found⟩ := StructLayout.memberAt member
    have offset := checkFieldsAligned_offset sl.slFieldsAligned found.getElem
    have whole : (sl.layoutOf.lyAlign : Int) ∣ l.2 := aligned
    have part := lyAlign_dvd_layoutOfMembers (List.mem_of_getElem? found.getElem)
    rw [Nat.zero_add] at offset
    rw [getMemberLoc_eq found]
    exact Int.dvd_add ((Int.natCast_dvd_natCast.mpr part).trans whole)
      (Int.natCast_dvd_natCast.mpr offset)
  disjoint f ly g ly' memberF memberG differ a := by
    obtain ⟨i, k, foundF⟩ := StructLayout.memberAt memberF
    obtain ⟨j, k', foundG⟩ := StructLayout.memberAt memberG
    rw [getMemberLoc_eq foundF, getMemberLoc_eq foundG]
    rcases Nat.lt_trichotomy i j with before | same | after
    · have apart := offsetOfIdx_add_le foundF.getElem before
      omega
    · subst same
      cases foundF.getElem.symm.trans foundG.getElem
      exact absurd rfl differ
    · have apart := offsetOfIdx_add_le foundG.getElem after
      omega
  computed f ly member := getMember_evaluates member l

end

/-! ## The laws together -/

/-- Construction of structs, access to their members and loads agree. -/
theorem struct_access_agrees (sl : StructLayout) :
    (∀ fs, NamesMembers sl fs → ∃ v, StructBuilt sl fs v) ∧
      (∀ ots : List OpType, ots.map OpType.otLayout = (fieldMembers sl.slMembers).map Prod.snd →
        StructLoads sl ots) ∧
      ∀ l, hasLayoutLoc l sl.layoutOf → StructPlaced sl l :=
  ⟨fun _ names => ⟨_, structInit_builds names⟩, fun _ => struct_loads,
    fun _ => struct_placed⟩

/-- A byte, three bytes of padding and an integer, of which the integer is given. -/
theorem struct_access_agrees_padded :
    ∃ sl : StructLayout, sl.slMembers =
        [(some "a", u8.itLayout), (none, ⟨3, 0⟩), (some "b", u32.itLayout)] ∧
      (∃ v, StructBuilt sl [("b", i2v 5 u32)] v) ∧ StructLoads sl [.intOp u8, .intOp u32] ∧
      StructPlaced sl (.provAlloc (some 0), 4096) := by
  obtain ⟨built, loads, placed⟩ := struct_access_agrees
    ⟨[(some "a", u8.itLayout), (none, ⟨3, 0⟩), (some "b", u32.itLayout)], by decide,
      by decide, by decide⟩
  refine ⟨_, rfl, built _ ⟨by decide, fun f v given => ?_⟩, loads _ rfl,
    placed _ (by decide)⟩
  obtain ⟨rfl, rfl⟩ := Prod.mk.inj (List.mem_singleton.mp given)
  exact ⟨u32.itLayout, by decide, by decide⟩

end RefinedC.Caesium
