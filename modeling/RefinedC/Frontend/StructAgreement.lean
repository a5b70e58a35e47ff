import Mathlib.Algebra.Order.BigOperators.Group.List
import RefinedC.Frontend.StructDecls

/-!
Agreement of emitted struct definitions with the frontend's sizes.

Owns: what printed member lists denote, how native sizes relate to C's layout
rules, and the exact structs whose printed member lists, the frontend's sizes and
alignments, and Caesium's layout rules agree.

The frontend counts bytes in native integers, and prints the lengths of arrays in
full. A struct agrees if its size is a native integer.
-/

namespace RefinedC.Frontend

open Library

/-! ## Members that match a layout -/

/-- The layout and the alignment of a member are those of the Caesium layout of
its type. -/
structure MemberMatches (defined : DefName → Result Caesium.Layout)
    (member : String × Coq.FieldData) (field : String × Caesium.Layout) : Prop where
  name : member.1 = field.1
  layout : denoteLayout defined member.2.layout = .ok field.2
  align : member.2.align = field.2.lyAlign

/-- Alignments and native sizes of members. -/
def nativeData (members : List (String × Coq.FieldData)) : List (Nat × Int) :=
  members.map fun m => (m.2.align, m.2.size)

/-- Members after `nbBytes` bytes, each after the padding that is printed for it. -/
def placeNative :
    Int → List (Nat × Int) → List (String × Caesium.Layout) → Caesium.FieldList
  | nbBytes, m :: data, (name, ly) :: fields =>
      Caesium.padField (truncPadding m.1 nbBytes).toNat ++
        (some name, ly) :: placeNative (addMember nbBytes m) data fields
  | _, _, _ => []

/-- The members and the padding at the end. -/
def placeStruct (data : List (Nat × Int)) (fields : List (String × Caesium.Layout)) :
    Caesium.FieldList :=
  placeNative 0 data fields ++
    Caesium.padField (truncPadding (maxAlign data) (data.foldl addMember 0)).toNat

section

variable {defined : DefName → Result Caesium.Layout} {members : List (String × Coq.FieldData)}
  {fields : List (String × Caesium.Layout)}

private theorem denoteMembers_append {entries entries' : List (Option String × PrintedLayout)}
    {s s' : Caesium.FieldList} (first : denoteMembers defined entries = .ok s)
    (second : denoteMembers defined entries' = .ok s') :
    denoteMembers defined (entries ++ entries') = .ok (s ++ s') := by
  rw [denoteMembers, mapM_eq_ok] at first second ⊢
  exact List.rel_append first second

private theorem denoteMembers_cons {id : Option String} {l : PrintedLayout} {ly : Caesium.Layout}
    {entries : List (Option String × PrintedLayout)} {s : Caesium.FieldList}
    (head : denotePrinted defined l = .ok ly) (tail : denoteMembers defined entries = .ok s) :
    denoteMembers defined ((id, l) :: entries) = .ok ((id, ly) :: s) := by
  rw [denoteMembers, mapM_eq_ok] at tail ⊢
  exact .cons (by rw [head]; rfl) tail

/-- A padding is printed as the bytes that it has. -/
theorem denoteMembers_padding (defined : DefName → Result Caesium.Layout) {n : Int}
    (positive : 0 < n) : denoteMembers defined [(none, .padding n.toNat)] =
      .ok (Caesium.padField n.toNat) := by
  have nonzero : n.toNat ≠ 0 := by omega
  simp [denoteMembers, denotePrinted, Caesium.padField, nonzero, bind, Except.bind, pure,
    Except.pure]

private theorem ppPadding_struct (defined : DefName → Result Caesium.Layout) {align : Nat}
    (positive : 0 < align) (nbBytes size : Int) :
    denoteMembers defined (ppPadding true align nbBytes).1 =
        .ok (Caesium.padField (truncPadding align nbBytes).toNat) ∧
      wrapInt 62 ((ppPadding true align nbBytes).2 + size) = addMember nbBytes (align, size) := by
  by_cases aligned : nbBytes.tmod align = 0
  · simp [ppPadding, addMember, truncPadding, aligned, Caesium.padField, denoteMembers, pure,
      Except.pure]
  · have below : nbBytes.tmod align < align :=
      Int.tmod_lt_of_pos nbBytes (by exact_mod_cast positive)
    simp only [ppPadding, addMember, truncPadding, aligned, if_false, Bool.true_and, ne_eq,
      not_false_eq_true, decide_true, if_true, and_true]
    exact denoteMembers_padding defined (by omega)

theorem MemberMatches.positive {member : String × Coq.FieldData} {field : String × Caesium.Layout}
    (isMatch : MemberMatches defined member field) : 0 < member.2.align := by
  rw [isMatch.align]
  exact field.2.lyAlign_pos

/-- The members of a struct are printed where `placeNative` puts them. -/
theorem ppFields_struct (found : List.Forall₂ (MemberMatches defined) members fields)
    (nbBytes : Int) :
    denoteMembers defined (ppFields true nbBytes members).1 =
        .ok (placeNative nbBytes (nativeData members) fields) ∧
      (ppFields true nbBytes members).2 = (nativeData members).foldl addMember nbBytes := by
  induction found generalizing nbBytes with
  | nil => exact ⟨rfl, rfl⟩
  | @cons member field members fields head tail inductionHypothesis =>
      obtain ⟨pad, bytes⟩ :=
        ppPadding_struct defined head.positive nbBytes member.2.size
      obtain ⟨entries, finish⟩ :=
        inductionHypothesis (addMember nbBytes (member.2.align, member.2.size))
      obtain ⟨id, data⟩ := member
      obtain ⟨name, ly⟩ := field
      obtain ⟨sameName, layout, align⟩ := head
      simp only at sameName layout align bytes pad entries finish
      subst sameName
      rw [ppFields, bytes]
      exact ⟨denoteMembers_append pad (denoteMembers_cons layout entries), finish⟩

private theorem maxAlign_nativeData (members : List (String × Coq.FieldData)) :
    members.foldl (fun acc m => max acc m.2.align) 1 = maxAlign (nativeData members) := by
  rw [maxAlign, nativeData, List.map_map, List.foldl_map]
  rfl

/-- The printed members of a struct, with the padding at the end. -/
theorem ppMembers_struct (found : List.Forall₂ (MemberMatches defined) members fields) :
    denoteMembers defined (ppMembers members true) =
      .ok (placeStruct (nativeData members) fields) := by
  obtain ⟨entries, finish⟩ := ppFields_struct found 0
  have below := Int.tmod_lt_of_pos ((nativeData members).foldl addMember 0)
    (show (0 : Int) < maxAlign (nativeData members) from by exact_mod_cast maxAlign_pos _)
  simp only [ppMembers, if_true, maxAlign_nativeData, finish]
  by_cases aligned :
      ((nativeData members).foldl addMember 0).tmod (maxAlign (nativeData members)) = 0
  · rw [if_neg (not_not.mpr aligned), entries, placeStruct, truncPadding, if_pos aligned,
      Int.toNat_zero, Caesium.padField, if_pos rfl, List.append_nil]
  · rw [if_pos aligned, placeStruct, truncPadding, if_neg aligned]
    exact denoteMembers_append entries (denoteMembers_padding defined (by omega))

private theorem ppFields_union (found : List.Forall₂ (MemberMatches defined) members fields)
    (nbBytes : Int) : denoteMembers defined (ppFields false nbBytes members).1 =
      .ok (fields.map fun field => (some field.1, field.2)) := by
  induction found generalizing nbBytes with
  | nil => rfl
  | @cons member field members fields head tail inductionHypothesis =>
      rw [List.map_cons, ← head.name]
      exact denoteMembers_cons head.layout (inductionHypothesis _)

/-- Layout of a declaration whose members match. -/
theorem denoteDecl_eq (found : List.Forall₂ (MemberMatches defined) members fields)
    (isUnion : Bool) :
    denoteDecl defined ⟨isUnion, members⟩ = .ok (if isUnion then Caesium.ulLayoutMembers fields
      else Caesium.layoutOfMembers (placeStruct (nativeData members) fields)) := by
  cases isUnion with
  | true =>
      have printed : denoteMembers defined (ppMembers members false) =
          .ok (fields.map fun field => (some field.1, field.2)) := ppFields_union found 0
      have named : Caesium.fieldMembers (fields.map fun field => (some field.1, field.2)) =
          fields := by
        simp [Caesium.fieldMembers, List.filterMap_map]
      simp only [denoteDecl, Bool.not_true, printed, ok_bind, if_true, named]
  | false =>
      simp only [denoteDecl, Bool.not_false, ppMembers_struct found, ok_bind, Bool.false_eq_true,
        if_false]

end

/-! ## Sums of native integers -/

theorem addMember_eq (acc : Int) (m : Nat × Int) :
    addMember acc m = wrapInt 62 (acc + truncPadding m.1 acc + m.2) := by
  rw [addMember, wrapInt_wrap_add]
  rfl

private theorem addMember_natCast {align pos size : Nat} (positive : 0 < align)
    (bounded : alignUp align pos + size < 2 ^ 62) :
    addMember pos (align, (size : Int)) = (alignUp align pos + size : Nat) := by
  rw [← wrapInt_natCast bounded, addMember_eq, truncPadding_natCast positive, alignUp]
  push_cast
  rfl

private theorem wrapInt_foldl_addMember (data : List (Nat × Int)) :
    wrapInt 62 (data.foldl addMember 0) = data.foldl addMember 0 := by
  induction data using List.reverseRecOn with
  | nil => exact wrapInt_zero 62
  | append_singleton data m inductionHypothesis =>
      rw [List.foldl_append, List.foldl_cons, List.foldl_nil, addMember_eq, wrapInt_wrap]

/-- Native size of a struct with the given members. -/
def structSize (data : List (Nat × Int)) : Int :=
  wrapInt 62 (data.foldl addMember 0 + truncPadding (maxAlign data) (data.foldl addMember 0))

theorem sizeOfData_false (data : List (Nat × Int)) :
    sizeOfData false (.ok (maxAlign data)) data = .ok (structSize data) := by
  simp only [sizeOfData, Bool.false_eq_true, if_false, ok_bind, structSize, truncPadding]
  split
  · rw [Int.add_zero, wrapInt_foldl_addMember]
  · rfl

/-! ## Placements by native integers -/

/-- The data of members whose sizes are those of their layouts. -/
def layoutData (fields : List (String × Caesium.Layout)) : List (Nat × Int) :=
  fields.map fun field => (field.2.lyAlign, (field.2.lySize : Int))

section

variable {data : List (Nat × Int)} {fields : List (String × Caesium.Layout)}

private theorem fieldMembers_placeNative
    (aligned : List.Forall₂ (fun m field => m.1 = field.2.lyAlign) data fields) (nbBytes : Int) :
    Caesium.fieldMembers (placeNative nbBytes data fields) = fields := by
  induction aligned generalizing nbBytes with
  | nil => rfl
  | @cons m field data fields head tail inductionHypothesis =>
      rw [placeNative, Caesium.fieldMembers_append, Caesium.fieldMembers_padField, List.nil_append]
      rw [Caesium.fieldMembers, List.filterMap_cons]
      exact congrArg (field :: ·) (inductionHypothesis _)

private theorem alignLogs_placeNative
    (aligned : List.Forall₂ (fun m field => m.1 = field.2.lyAlign) data fields) (nbBytes : Int) :
    Caesium.maxList ((placeNative nbBytes data fields).map fun field => field.2.lyAlignLog) =
      Caesium.maxAlignLog fields := by
  induction aligned generalizing nbBytes with
  | nil => rfl
  | cons head tail inductionHypothesis =>
      rw [placeNative, List.map_append, Caesium.maxList_append, Caesium.alignLogs_padField,
        List.map_cons, Caesium.maxList, inductionHypothesis]
      simp [Caesium.maxAlignLog, Caesium.maxList]

/-- No member is larger than the struct. -/
theorem lySize_le_placeNative
    (aligned : List.Forall₂ (fun m field => m.1 = field.2.lyAlign) data fields) (nbBytes : Int)
    {field : String × Caesium.Layout} (member : field ∈ fields) :
    field.2.lySize ≤ (Caesium.fieldSizes (placeNative nbBytes data fields)).sum := by
  apply List.le_sum_of_mem
  refine List.mem_map.mpr ⟨(some field.1, field.2), ?_, rfl⟩
  rw [← fieldMembers_placeNative aligned nbBytes, Caesium.fieldMembers,
    List.mem_filterMap] at member
  obtain ⟨⟨name, ly⟩, inPlace, named⟩ := member
  obtain ⟨name', rfl, rfl⟩ := Option.map_eq_some_iff.mp named
  exact inPlace

/-- Members of exact sizes are placed as without bounds, if the end of the last one
is a native integer. -/
theorem placeNative_layoutData {pos : Nat}
    (bounded : pos +
      (Caesium.fieldSizes (placeNative pos (layoutData fields) fields)).sum < 2 ^ 62 ∨
      Caesium.placeEnd pos fields < 2 ^ 62) :
    placeNative pos (layoutData fields) fields = Caesium.placeFrom pos fields ∧
      (layoutData fields).foldl addMember pos = Caesium.placeEnd pos fields := by
  induction fields generalizing pos with
  | nil => exact ⟨rfl, rfl⟩
  | cons field fields inductionHypothesis =>
      have placed : placeNative pos (layoutData (field :: fields)) (field :: fields) =
          Caesium.padField (padding field.2.lyAlign pos) ++ (some field.1, field.2) ::
            placeNative (addMember pos (field.2.lyAlign, (field.2.lySize : Int)))
              (layoutData fields) fields := by
        rw [layoutData, List.map_cons, placeNative, truncPadding_natCast field.2.lyAlign_pos,
          Int.toNat_natCast]
        rfl
      have printedSum (nbBytes : Int) : (Caesium.fieldSizes (Caesium.padField
          (padding field.2.lyAlign pos) ++ (some field.1, field.2) ::
            placeNative nbBytes (layoutData fields) fields)).sum = padding field.2.lyAlign pos +
          (field.2.lySize +
            (Caesium.fieldSizes (placeNative nbBytes (layoutData fields) fields)).sum) := by
        rw [Caesium.fieldSizes_append, List.sum_append, Caesium.fieldSizes_padField]
        rfl
      rw [placed, printedSum] at bounded
      have next : alignUp field.2.lyAlign pos + field.2.lySize < 2 ^ 62 := by
        rcases bounded with printed | natural
        · rw [alignUp]
          omega
        · exact lt_of_le_of_lt (Caesium.le_placeEnd _ fields) natural
      have member := addMember_natCast field.2.lyAlign_pos next
      rw [member] at placed bounded
      have tailBounded :
          alignUp field.2.lyAlign pos + field.2.lySize + (Caesium.fieldSizes (placeNative
          (alignUp field.2.lyAlign pos + field.2.lySize : Nat) (layoutData fields) fields)).sum <
            2 ^ 62 ∨
          Caesium.placeEnd (alignUp field.2.lyAlign pos + field.2.lySize) fields < 2 ^ 62 := by
        apply bounded.imp_left
        intro printed
        have padded : alignUp field.2.lyAlign pos = pos + padding field.2.lyAlign pos := rfl
        omega
      obtain ⟨rest, finish⟩ := inductionHypothesis tailBounded
      refine ⟨?_, ?_⟩
      · rw [placed, rest]
        rfl
      · rw [layoutData, List.map_cons, List.foldl_cons, member]
        exact finish

end

/-! ## Emitted layouts and C's layout rules -/

/-- The layout `ly` and the native size, if any, that are emitted for a type to
which C's layout rules give the size `n` and the alignment `align`. -/
structure EmittedAs (n align : Nat) (size : Result Int) (ly : Caesium.Layout) : Prop where
  sameAlign : ly.lyAlign = align
  divides : align ∣ 2 ^ 63
  exact : ∀ native, size = .ok native → n < 2 ^ 62 ∨ ly.lySize < 2 ^ 62 →
    ly.lySize = n ∧ native = n

/-- Members with their layouts and with their data by C's layout rules. -/
inductive MembersEmitted (defined : DefName → Result Caesium.Layout) :
    List (String × Coq.FieldData) → List (String × Caesium.Layout) →
      List (Nat × Nat) → Prop where
  | nil : MembersEmitted defined [] [] []
  | cons {member : String × Coq.FieldData} {field : String × Caesium.Layout} {align n : Nat}
      {members : List (String × Coq.FieldData)} {fields : List (String × Caesium.Layout)}
      {data : List (Nat × Nat)} :
      MemberMatches defined member field → EmittedAs n align (.ok member.2.size) field.2 →
      MembersEmitted defined members fields data →
      MembersEmitted defined (member :: members) (field :: fields) ((align, n) :: data)

/-- Alignments are powers of two, so the largest one has the largest exponent. -/
theorem maxAlign_layoutData (fields : List (String × Caesium.Layout)) :
    maxAlign (layoutData fields) = 2 ^ Caesium.maxAlignLog fields := by
  rw [maxAlign, foldl_max_eq]
  induction fields with
  | nil => rfl
  | cons field fields inductionHypothesis =>
      rw [layoutData, List.map_cons, List.map_cons, Caesium.maxList, Nat.max_left_comm]
      rw [layoutData] at inductionHypothesis
      rw [inductionHypothesis]
      simp only [Caesium.maxAlignLog, List.map_cons, Caesium.maxList, Caesium.Layout.lyAlign]
      have monotone : Monotone fun n : Nat => 2 ^ n :=
        fun _ _ smaller => Nat.pow_le_pow_right (by decide) smaller
      exact monotone.map_max.symm

theorem maxAlign_cons {α : Type} (m : Nat × α) (data : List (Nat × α)) :
    maxAlign (m :: data) = max m.1 (maxAlign data) := by
  simp [maxAlign, foldl_max_eq, Nat.max_left_comm]

private theorem le_membersEnd (pos : Nat) (data : List (Nat × Nat)) :
    pos ≤ membersEnd pos data := by
  induction data generalizing pos with
  | nil => exact le_refl pos
  | cons m data inductionHypothesis =>
      have padded := le_alignUp m.1 pos
      have rest := inductionHypothesis (alignUp m.1 pos + m.2)
      exact le_trans (le_trans padded (Nat.le_add_right _ m.2)) rest

theorem size_le_membersEnd {data : List (Nat × Nat)} {m : Nat × Nat} (member : m ∈ data)
    (pos : Nat) : m.2 ≤ membersEnd pos data := by
  induction data generalizing pos with
  | nil => cases member
  | cons m' data inductionHypothesis =>
      rcases List.mem_cons.mp member with rfl | inTail
      · exact le_trans (Nat.le_add_left m.2 _) (le_membersEnd _ data)
      · exact inductionHypothesis inTail _

theorem size_le_maxSize {data : List (Nat × Nat)} {m : Nat × Nat} (member : m ∈ data) :
    m.2 ≤ maxSize data := by
  induction data with
  | nil => cases member
  | cons m' data inductionHypothesis =>
      rw [maxSize_cons]
      rcases List.mem_cons.mp member with rfl | inTail
      · exact le_max_left _ _
      · exact le_trans (inductionHypothesis inTail) (le_max_right _ _)

section

variable {defined : DefName → Result Caesium.Layout} {members : List (String × Coq.FieldData)}
  {fields : List (String × Caesium.Layout)} {data : List (Nat × Nat)}

theorem MembersEmitted.matches (emitted : MembersEmitted defined members fields data) :
    List.Forall₂ (MemberMatches defined) members fields := by
  induction emitted with
  | nil => exact .nil
  | cons head _ _ inductionHypothesis => exact .cons head inductionHypothesis

theorem MembersEmitted.aligned (emitted : MembersEmitted defined members fields data) :
    List.Forall₂ (fun m field => m.1 = field.2.lyAlign) (nativeData members) fields :=
  List.forall₂_map_left_iff.mpr (List.Forall₂.imp (fun _ _ head => head.align) emitted.matches)

/-- The strictest alignment, as the frontend, Caesium and C have it. -/
theorem MembersEmitted.maxAlign_eq (emitted : MembersEmitted defined members fields data) :
    maxAlign (nativeData members) = maxAlign data ∧
      maxAlign (layoutData fields) = maxAlign data ∧ maxAlign data ∣ 2 ^ 63 := by
  induction emitted with
  | nil => exact ⟨rfl, rfl, one_dvd _⟩
  | @cons member field align n members fields data head size _ inductionHypothesis =>
      obtain ⟨native, layout, divides⟩ := inductionHypothesis
      rw [nativeData] at native
      rw [layoutData] at layout
      rw [nativeData, layoutData, List.map_cons, List.map_cons, maxAlign_cons, maxAlign_cons,
        maxAlign_cons, native, layout, head.align, size.sameAlign]
      refine ⟨rfl, rfl, ?_⟩
      rcases le_total align (maxAlign data) with smaller | larger
      · rw [max_eq_right smaller]
        exact divides
      · rw [max_eq_left larger]
        exact size.divides

/-- The sizes of members are exact if they are native integers. -/
theorem MembersEmitted.exact (emitted : MembersEmitted defined members fields data)
    (bounded : (∀ m ∈ data, m.2 < 2 ^ 62) ∨ ∀ field ∈ fields, field.2.lySize < 2 ^ 62) :
    nativeData members = layoutData fields ∧
      data = fields.map fun field => (field.2.lyAlign, field.2.lySize) := by
  induction emitted with
  | nil => exact ⟨rfl, rfl⟩
  | @cons member field align n members fields data head size _ inductionHypothesis =>
      rw [List.forall_mem_cons, List.forall_mem_cons] at bounded
      obtain ⟨printed, native⟩ := size.exact _ rfl (bounded.imp And.left And.left)
      obtain ⟨rest, natural⟩ := inductionHypothesis (bounded.imp And.right And.right)
      rw [nativeData, layoutData] at rest ⊢
      rw [List.map_cons, List.map_cons, List.map_cons, rest, ← natural, head.align, native,
        printed, size.sameAlign]
      exact ⟨rfl, rfl⟩

private theorem placeEnd_eq (pos : Nat) (fields : List (String × Caesium.Layout)) :
    Caesium.placeEnd pos fields =
      membersEnd pos (fields.map fun field => (field.2.lyAlign, field.2.lySize)) := by
  induction fields generalizing pos with
  | nil => rfl
  | cons field fields inductionHypothesis => exact inductionHypothesis _

/-- A struct is placed and sized as by C's layout rules, if its size is a native
integer. -/
theorem MembersEmitted.placeStruct_eq (emitted : MembersEmitted defined members fields data)
    (bounded : alignUp (maxAlign data) (membersEnd 0 data) < 2 ^ 62 ∨
      (Caesium.fieldSizes (placeStruct (nativeData members) fields)).sum < 2 ^ 62) :
    placeStruct (nativeData members) fields = Caesium.place fields ∧
      (Caesium.fieldSizes (Caesium.place fields)).sum =
        alignUp (maxAlign data) (membersEnd 0 data) ∧
      structSize (nativeData members) = (alignUp (maxAlign data) (membersEnd 0 data) : Nat) := by
  have padded := le_alignUp (maxAlign data) (membersEnd 0 data)
  have split : (Caesium.fieldSizes (placeStruct (nativeData members) fields)).sum =
      (Caesium.fieldSizes (placeNative 0 (nativeData members) fields)).sum +
        (truncPadding (maxAlign (nativeData members))
          ((nativeData members).foldl addMember 0)).toNat := by
    rw [placeStruct, Caesium.fieldSizes_append, List.sum_append, Caesium.fieldSizes_padField]
  have membersBounded :
      (∀ m ∈ data, m.2 < 2 ^ 62) ∨ ∀ field ∈ fields, field.2.lySize < 2 ^ 62 := by
    refine bounded.imp (fun small m member => ?_) fun small field member => ?_
    · have below := size_le_membersEnd member 0
      omega
    · have below := lySize_le_placeNative emitted.aligned 0 member
      omega
  obtain ⟨exact, natural⟩ := emitted.exact membersBounded
  obtain ⟨-, aligns, -⟩ := emitted.maxAlign_eq
  rw [exact] at split bounded ⊢
  have endBounded :
      0 + (Caesium.fieldSizes (placeNative (0 : Nat) (layoutData fields) fields)).sum <
      2 ^ 62 ∨ Caesium.placeEnd 0 fields < 2 ^ 62 := by
    refine bounded.symm.imp (fun small => ?_) fun small => ?_
    · rw [Nat.zero_add]
      exact lt_of_le_of_lt (split ▸ Nat.le_add_right _ _) small
    · rw [placeEnd_eq, ← natural]
      omega
  obtain ⟨placed, finish⟩ := placeNative_layoutData endBounded
  rw [Nat.cast_zero] at placed finish
  have isPlace : placeStruct (layoutData fields) fields = Caesium.place fields := by
    rw [placeStruct, placed, finish, truncPadding_natCast (maxAlign_pos _), Int.toNat_natCast,
      maxAlign_layoutData]
    rfl
  have isSum : (Caesium.fieldSizes (Caesium.place fields)).sum =
      alignUp (maxAlign data) (membersEnd 0 data) := by
    rw [Caesium.fieldSizes_place, placeEnd_eq, ← natural, ← maxAlign_layoutData, aligns]
  refine ⟨isPlace, isSum, ?_⟩
  rw [isPlace, isSum, or_self] at bounded
  rw [structSize, finish, truncPadding_natCast (maxAlign_pos _), aligns, placeEnd_eq, ← natural,
    ← wrapInt_natCast bounded, alignUp]
  push_cast
  rfl

private theorem alignLogs_placeStruct
    (aligned : List.Forall₂ (fun m field => m.1 = field.2.lyAlign) (nativeData members) fields) :
    Caesium.maxList ((placeStruct (nativeData members) fields).map fun field =>
      field.2.lyAlignLog) = Caesium.maxAlignLog fields := by
  rw [placeStruct, List.map_append, Caesium.maxList_append, alignLogs_placeNative aligned,
    Caesium.alignLogs_padField]
  exact Nat.max_zero _

theorem MembersEmitted.struct (emitted : MembersEmitted defined members fields data) :
    EmittedAs (alignUp (maxAlign data) (membersEnd 0 data)) (maxAlign data)
      (.ok (structSize (nativeData members)))
      (Caesium.layoutOfMembers (placeStruct (nativeData members) fields)) := by
  obtain ⟨-, aligns, divides⟩ := emitted.maxAlign_eq
  refine ⟨?_, divides, fun native isNative bounded => ?_⟩
  · rw [← aligns, maxAlign_layoutData, Caesium.Layout.lyAlign, Caesium.layoutOfMembers,
      alignLogs_placeStruct emitted.aligned]
  · cases isNative
    obtain ⟨placed, sum, size⟩ := emitted.placeStruct_eq bounded
    rw [placed]
    exact ⟨sum, size⟩

private theorem le_maxList {ns : List Nat} {n : Nat} (member : n ∈ ns) :
    n ≤ Caesium.maxList ns := by
  induction ns with
  | nil => cases member
  | cons n' ns inductionHypothesis =>
      rcases List.mem_cons.mp member with rfl | inTail
      · exact le_max_left _ _
      · exact le_trans (inductionHypothesis inTail) (le_max_right _ _)

private theorem foldl_max_layoutData (fields : List (String × Caesium.Layout)) (start : Nat) :
    (layoutData fields).foldl (fun acc m => max acc m.2) (start : Int) =
      (max start (Caesium.ulLayoutMembers fields).lySize : Nat) := by
  induction fields generalizing start with
  | nil => simp [layoutData, Caesium.ulLayoutMembers, Caesium.maxList]
  | cons field fields inductionHypothesis =>
      have step : max (start : Int) (field.2.lySize : Int) = (max start field.2.lySize : Nat) := by
        omega
      rw [layoutData] at inductionHypothesis
      rw [layoutData, List.map_cons, List.foldl_cons, step, inductionHypothesis, Nat.max_assoc]
      rfl

private theorem maxSize_layouts (fields : List (String × Caesium.Layout)) :
    maxSize (fields.map fun field => (field.2.lyAlign, field.2.lySize)) =
      (Caesium.ulLayoutMembers fields).lySize := by
  rw [maxSize, foldl_max_eq, Nat.zero_max, List.map_map]
  rfl

theorem MembersEmitted.union (emitted : MembersEmitted defined members fields data) :
    EmittedAs (maxSize data) (maxAlign data)
      (.ok ((nativeData members).foldl (fun acc m => max acc m.2) 0))
      (Caesium.ulLayoutMembers fields) := by
  obtain ⟨-, aligns, divides⟩ := emitted.maxAlign_eq
  refine ⟨?_, divides, fun native isNative bounded => ?_⟩
  · rw [← aligns, maxAlign_layoutData]
    rfl
  · cases isNative
    have membersBounded :
        (∀ m ∈ data, m.2 < 2 ^ 62) ∨ ∀ field ∈ fields, field.2.lySize < 2 ^ 62 := by
      refine bounded.imp (fun small m member => ?_) fun small field member => ?_
      · exact lt_of_le_of_lt (size_le_maxSize member) small
      · exact lt_of_le_of_lt (le_maxList (List.mem_map.mpr ⟨field, member, rfl⟩)) small
    obtain ⟨exact, natural⟩ := emitted.exact membersBounded
    have native := foldl_max_layoutData fields 0
    rw [Nat.cast_zero, Nat.zero_max] at native
    rw [exact, native, natural, maxSize_layouts]
    exact ⟨rfl, rfl⟩

end

/-! ## Emitted definitions -/

/-- Emitted integer types have at most 64 bits. -/
theorem alignLog_denote_le (it : Coq.IntType) : it.denote.itLayout.lyAlignLog ≤ 63 := by
  fun_cases Coq.IntType.denote it <;> decide

private theorem emitted_of_same {n k : Nat} {ly : Caesium.Layout} (size : ly.lySize = n)
    (alignLog : ly.lyAlignLog = k) (small : k ≤ 63) : EmittedAs n (2 ^ k) (.ok n) ly where
  sameAlign := by rw [Caesium.Layout.lyAlign, alignLog]
  divides := Nat.pow_dvd_pow 2 small
  exact _ isNative _ := ⟨size, (Except.ok.inj isNative).symm⟩

section

variable {impl : Impl} {T : TagDefs} {structs : List (String × Coq.StructDecl)}

/-- The emitted layout, alignment and size of a type to which C's layout rules give
the size `n` and the alignment `align`. -/
def TypeEmitted (impl : Impl) (tags : List (Sym × TagDef))
    (structs : List (String × Coq.StructDecl)) (ty : CType) (n align : Nat) : Prop :=
  ∀ l, layoutOf impl false ty = .ok l → alignOf impl tags ty = .ok align ∧
    ∃ ly, denote structs l = .ok ly ∧ EmittedAs n align (sizeOf impl tags ty) ly

private theorem integer_emitted (agrees : ImplAgrees impl) {i : IntegerType} {n align : Nat}
    (isSize : impl.sizeofIty i = some n) (isAlign : impl.alignofIty i = some align) :
    TypeEmitted impl T.tags structs (.integer i) n align := by
  intro l layout
  have size' : sizeOf impl T.tags (.integer i) = .ok (n : Int) := by
    rw [sizeOf, sizeOfWith, isSize]
    rfl
  refine ⟨by simp [alignOf, alignOfWith, isAlign, unwrap], ?_⟩
  rw [size']
  obtain ⟨found, translated, result⟩ := bind_eq_ok.mp layout
  cases found with
  | none =>
      cases result
      obtain ⟨size, align⟩ := agrees.bool i translated
      cases isSize.symm.trans size
      cases isAlign.symm.trans align
      have emitted : EmittedAs 1 (2 ^ 0) (.ok (1 : Nat)) Caesium.boolLayout :=
        emitted_of_same rfl rfl (Nat.zero_le 63)
      exact ⟨Caesium.boolLayout, rfl, emitted⟩
  | some it =>
      cases result
      obtain ⟨size, align⟩ := agrees.integer i it translated
      cases isSize.symm.trans size
      cases isAlign.symm.trans align
      exact ⟨it.denote.itLayout, rfl, emitted_of_same rfl rfl (alignLog_denote_le it)⟩

private theorem pointer_emitted (agrees : ImplAgrees impl) {ty : CType} {n align : Nat}
    (isSize : impl.sizeofPointer = some n) (isAlign : impl.alignofPointer = some align) :
    TypeEmitted impl T.tags structs (.pointer ty) n align := by
  intro l layout
  cases layout
  obtain ⟨size, align⟩ := agrees.pointer
  cases isSize.symm.trans size
  cases isAlign.symm.trans align
  have size' : sizeOf impl T.tags (.pointer ty) = .ok (Caesium.voidPtr.lySize : Int) := by
    rw [sizeOf, sizeOfWith, isSize]
    rfl
  refine ⟨by simp [alignOf, alignOfWith, isAlign, unwrap], Caesium.voidPtr, rfl, ?_⟩
  rw [size']
  exact emitted_of_same rfl rfl (Nat.le_of_ble_eq_true rfl)

private theorem array_emitted {ty : CType} {n align : Nat} (k : Nat)
    (inner : TypeEmitted impl T.tags structs ty n align) :
    TypeEmitted impl T.tags structs (.array ty (some k)) (n * k) align := by
  intro l layout
  obtain ⟨l', innerLayout, result⟩ := bind_eq_ok.mp layout
  cases result
  obtain ⟨isAlign, ly, denoted, emitted⟩ := inner l' innerLayout
  refine ⟨isAlign, Caesium.mkArrayLayout ly k, bind_eq_ok.mpr ⟨ly, denoted, rfl⟩,
    emitted.sameAlign, emitted.divides, fun native found bounded => ?_⟩
  obtain ⟨k', isInt, rest⟩ := bind_eq_ok.mp found
  obtain ⟨size', innerSize, result⟩ := bind_eq_ok.mp rest
  cases result
  rw [toInt] at isInt
  split at isInt
  · cases isInt
    rcases Nat.eq_zero_or_pos k with rfl | positive
    · -- an empty array has size 0 whatever its elements are
      simp [Caesium.mkArrayLayout, Caesium.Layout.lyMult, wrapInt_zero]
    · have printed : (Caesium.mkArrayLayout ly k).lySize = ly.lySize * k := rfl
      have small : n < 2 ^ 62 ∨ ly.lySize < 2 ^ 62 := by
        refine bounded.imp (fun small => ?_) fun small => ?_
        · exact lt_of_le_of_lt (Nat.le_mul_of_pos_right n positive) small
        · exact lt_of_le_of_lt (Nat.le_mul_of_pos_right ly.lySize positive) small
      obtain ⟨sameSize, native⟩ := emitted.exact size' innerSize small
      rw [printed, sameSize, or_self] at bounded
      rw [printed, sameSize, native, ← wrapInt_natCast bounded]
      push_cast
      exact ⟨rfl, rfl⟩
  · cases isInt

/-! ## Tags -/

private theorem built_sized {ms : List (String × CType)} {ms' : List (String × Coq.FieldData)}
    (built : List.Forall₂
      (fun m m' => m.1 = m'.1 ∧ fieldData impl T.tags m.2 = .ok m'.2) ms ms') :
    MembersSized impl T.tags ms (nativeData ms') := by
  refine List.forall₂_map_right_iff.mpr (List.Forall₂.imp ?_ built)
  intro m m' field
  obtain ⟨isAlign, isSize, -⟩ := fieldData_eq_ok field.2
  exact ⟨isAlign, isSize⟩

/-- The printed definition of a tag, with the layouts of its members. -/
structure TagEmitted (impl : Impl) (tags : List (Sym × TagDef))
    (structs : List (String × Coq.StructDecl)) (id : String) (isUnion : Bool)
    (decl : Coq.StructDecl) (fields : List (String × Caesium.Layout)) (data : List (Nat × Nat)) :
    Prop where
  printed : findDecl structs (isUnion, id) = .ok decl
  members : MembersEmitted (definedLayout structs) decl.members fields data
  layout : definedLayout structs (isUnion, id) = .ok (if isUnion then
    Caesium.ulLayoutMembers fields
    else Caesium.layoutOfMembers (placeStruct (nativeData decl.members) fields))
  native : memberData impl tags id = .ok (nativeData decl.members)
  align : alignOfStruct impl tags id = .ok (maxAlign data)

theorem tag_emitted (translated : translateStructs impl T.tags = .ok structs) {id : String}
    {d : TagDef} {data : List (Nat × Nat)} (found : findTag T.tags id = .ok d)
    (members : ∀ ms', List.Forall₂
      (fun m m' => m.1 = m'.1 ∧ fieldData impl T.tags m.2 = .ok m'.2) d.members ms' →
      ∃ fields, MembersEmitted (definedLayout structs) ms' fields data) :
    ∃ decl fields, List.Forall₂
      (fun m m' => m.1 = m'.1 ∧ fieldData impl T.tags m.2 = .ok m'.2)
      d.members decl.members ∧ TagEmitted impl T.tags structs id d.isUnion decl fields data := by
  obtain ⟨decl, isDecl, printed⟩ :=
    findDecl_of_findTag (translateStructs_declOf translated) found
  obtain ⟨isUnion, built⟩ := structDecl_eq_ok isDecl
  obtain ⟨fields, emitted⟩ := members decl.members built
  obtain ⟨aligns, -, -⟩ := emitted.maxAlign_eq
  have sized := built_sized built
  refine ⟨decl, fields, built, printed, emitted, ?_, sized.memberData_eq_ok T.acyclic found, ?_⟩
  · rw [definedLayout_eq T translated, printed, ← isUnion]
    exact denoteDecl_eq emitted.matches decl.isUnion
  · rw [← aligns]
    exact sized.alignOfStruct_eq_ok T.acyclic found

theorem TagEmitted.struct {s : Sym} {decl : Coq.StructDecl}
    {fields : List (String × Caesium.Layout)} {data : List (Nat × Nat)}
    (tag : TagEmitted impl T.tags structs (symToStr s) false decl fields data) :
    TypeEmitted impl T.tags structs (.struct s) (alignUp (maxAlign data) (membersEnd 0 data))
      (maxAlign data) := by
  intro l layout
  cases layout
  obtain ⟨aligns, -, -⟩ := tag.members.maxAlign_eq
  refine ⟨tag.align, _, tag.layout, ?_⟩
  rw [sizeOf, sizeOfWith, tag.native, tag.align, ok_bind]
  nth_rewrite 3 [← aligns]
  rw [sizeOfData_false]
  exact tag.members.struct

theorem TagEmitted.union {s : Sym} {decl : Coq.StructDecl}
    {fields : List (String × Caesium.Layout)} {data : List (Nat × Nat)}
    (tag : TagEmitted impl T.tags structs (symToStr s) true decl fields data) :
    TypeEmitted impl T.tags structs (.union s) (maxSize data) (maxAlign data) := by
  intro l layout
  cases layout
  refine ⟨tag.align, _, tag.layout, ?_⟩
  rw [sizeOf, sizeOfWith, tag.native, ok_bind, sizeOfData, if_pos rfl]
  exact tag.members.union

mutual

/-- Emitted layouts and sizes follow C's layout rules, as long as they are native
integers. -/
theorem NaturalLayout.emitted (agrees : ImplAgrees impl)
    (translated : translateStructs impl T.tags = .ok structs) : ∀ {ty : CType} {n align : Nat},
    NaturalLayout impl T.tags false ty n align → TypeEmitted impl T.tags structs ty n align
  | _, _, _, .integer isSize isAlign => integer_emitted agrees isSize isAlign
  | _, _, _, .pointer isSize isAlign => pointer_emitted agrees isSize isAlign
  | _, _, _, .array inner => array_emitted _ (inner.emitted agrees translated)
  | _, _, _, .atomic inner => inner.emitted agrees translated
  | _, _, _, .struct found members => by
      obtain ⟨decl, fields, -, tag⟩ :=
        tag_emitted translated found (members.emitted agrees translated)
      exact tag.struct
  | _, _, _, .union found members => by
      obtain ⟨decl, fields, -, tag⟩ :=
        tag_emitted translated found (members.emitted agrees translated)
      exact tag.union

theorem NaturalMembers.emitted (agrees : ImplAgrees impl)
    (translated : translateStructs impl T.tags = .ok structs) :
    ∀ {members : List (String × CType)} {data : List (Nat × Nat)},
    NaturalMembers impl T.tags false members data → ∀ members', List.Forall₂
      (fun m m' => m.1 = m'.1 ∧ fieldData impl T.tags m.2 = .ok m'.2) members members' →
      ∃ fields, MembersEmitted (definedLayout structs) members' fields data
  | _, _, .nil, _, .nil => ⟨[], .nil⟩
  | _, _, .cons head tail, m' :: _, .cons built rest => by
      obtain ⟨isAlign, isSize, layout⟩ := fieldData_eq_ok built.2
      obtain ⟨isAlign', ly, denoted, emitted⟩ := head.emitted agrees translated _ layout
      obtain ⟨fields, others⟩ := tail.emitted agrees translated _ rest
      have align := Except.ok.inj (isAlign.symm.trans isAlign')
      rw [isSize] at emitted
      exact ⟨(m'.1, ly) :: fields,
        .cons ⟨rfl, denoted, align.trans emitted.sameAlign.symm⟩ emitted others⟩

end

/-! ## Agreement -/

/-- A printed member list agrees with the members of a struct. -/
structure StructAgrees (impl : Impl) (tags : List (Sym × TagDef))
    (structs : List (String × Coq.StructDecl)) (s : Sym) (members : List (String × CType))
    (printed : Caesium.FieldList) : Prop where
  aligned : Caesium.checkFieldsAligned printed 0 = true
  size : sizeOfStruct impl tags false s = .ok ((Caesium.fieldSizes printed).sum : Nat)
  align : alignOfStruct impl tags (symToStr s) = .ok (Caesium.layoutOfMembers printed).lyAlign
  divides : (Caesium.layoutOfMembers printed).lyAlign ∣ (Caesium.fieldSizes printed).sum
  members : List.Forall₂
      (fun m field => m.1 = field.1 ∧ ∃ l, layoutOf impl false m.2 = .ok l ∧
    denote structs l = .ok field.2 ∧ sizeOf impl tags m.2 = .ok field.2.lySize ∧
    alignOf impl tags m.2 = .ok field.2.lyAlign) members (Caesium.fieldMembers printed)
  offsets : Caesium.LeastOffsets 0 (Caesium.fieldMembers printed)
    (Caesium.memberOffsets 0 printed)

/-- Members whose native sizes are those of their layouts agree. -/
theorem members_agree {ms : List (String × CType)} {ms' : List (String × Coq.FieldData)}
    {fields : List (String × Caesium.Layout)} (built : List.Forall₂
      (fun m m' => m.1 = m'.1 ∧ fieldData impl T.tags m.2 = .ok m'.2) ms ms')
    (matching : List.Forall₂ (MemberMatches (definedLayout structs)) ms' fields)
    (exact : nativeData ms' = layoutData fields) :
    List.Forall₂ (fun m field => m.1 = field.1 ∧ ∃ l, layoutOf impl false m.2 = .ok l ∧
      denote structs l = .ok field.2 ∧ sizeOf impl T.tags m.2 = .ok field.2.lySize ∧
      alignOf impl T.tags m.2 = .ok field.2.lyAlign) ms fields := by
  induction built generalizing fields with
  | nil =>
      cases matching
      exact .nil
  | @cons m m' ms ms' head tail inductionHypothesis =>
      obtain ⟨isAlign, isSize, layout⟩ := fieldData_eq_ok head.2
      cases matching with
      | cons memberMatches rest =>
          rw [nativeData, layoutData, List.map_cons, List.map_cons, List.cons.injEq,
            Prod.mk.injEq] at exact
          rw [exact.1.1] at isAlign
          rw [exact.1.2] at isSize
          exact .cons ⟨head.1.trans memberMatches.name, _, layout, memberMatches.layout,
            isSize, isAlign⟩ (inductionHypothesis rest exact.2)

private theorem structSize_lt (data : List (Nat × Int)) : structSize data < 2 ^ 62 :=
  wrapInt_lt 62 _

private theorem TagEmitted.sizeOfStruct_eq {s : Sym} {decl : Coq.StructDecl}
    {fields : List (String × Caesium.Layout)} {data : List (Nat × Nat)}
    (tag : TagEmitted impl T.tags structs (symToStr s) false decl fields data) :
    sizeOfStruct impl T.tags false s = .ok (structSize (nativeData decl.members)) := by
  obtain ⟨aligns, -, -⟩ := tag.members.maxAlign_eq
  rw [sizeOfStruct, tag.native, tag.align, ok_bind, ← aligns, sizeOfData_false]

/-- The definition that is printed for a struct agrees with the frontend's sizes and
alignments and with Caesium's layout rules, exactly if the size of the struct by C's
layout rules is a native integer. -/
theorem struct_agrees_iff (impl : Impl) (agrees : ImplAgrees impl) (T : TagDefs)
    (structs : List (String × Coq.StructDecl))
    (translated : translateStructs impl T.tags = .ok structs) (s : Sym)
    (members : List (String × CType)) (member : (s, .struct members) ∈ T.tags) :
    (∃ size align, NaturalLayout impl T.tags false (.struct s) size align) ∧
      ∀ size align, NaturalLayout impl T.tags false (.struct s) size align →
        ∃ decl printed, findDecl structs (false, symToStr s) = .ok decl ∧
          slMembers structs decl = .ok printed ∧
          (StructAgrees impl T.tags structs s members printed ↔ size < 2 ^ 62) := by
  have isTag := findTag_of_mem T.distinct member
  refine ⟨?_, ?_⟩
  · obtain ⟨data, natural⟩ := tag_natural agrees T translated isTag
    exact ⟨_, _, .struct isTag natural⟩
  intro size align natural
  cases natural with
  | @struct _ members' data found natural =>
    cases isTag.symm.trans found
    obtain ⟨decl, fields, built, tag⟩ :=
      tag_emitted translated found (natural.emitted agrees translated)
    have printed := ppMembers_struct tag.members.matches
    refine ⟨decl, placeStruct (nativeData decl.members) fields, tag.printed, printed, ?_⟩
    constructor
    · intro agree
      -- the frontend's size is a native integer, and so is the size that is printed
      have native := Except.ok.inj (tag.sizeOfStruct_eq.symm.trans agree.size)
      have below := structSize_lt (nativeData decl.members)
      rw [native] at below
      have small : (Caesium.fieldSizes (placeStruct (nativeData decl.members) fields)).sum <
          2 ^ 62 := by exact_mod_cast below
      obtain ⟨placed, sum, -⟩ := tag.members.placeStruct_eq (.inr small)
      rw [placed, sum] at small
      exact small
    · intro small
      obtain ⟨placed, sum, size⟩ := tag.members.placeStruct_eq (.inl small)
      obtain ⟨exact, -⟩ := tag.members.exact (.inl fun m inData =>
        lt_of_le_of_lt (le_trans (size_le_membersEnd inData 0) (le_alignUp _ _)) small)
      obtain ⟨-, aligns, -⟩ := tag.members.maxAlign_eq
      rw [placed]
      refine ⟨Caesium.checkFieldsAligned_place fields, ?_, ?_,
        Caesium.layoutWf_place fields, ?_, ?_⟩
      · rw [tag.sizeOfStruct_eq, size, sum]
      · rw [tag.align, Caesium.layoutOfMembers_place, ← aligns, maxAlign_layoutData]
        rfl
      · rw [Caesium.fieldMembers_place]
        exact members_agree built tag.members.matches exact
      · rw [Caesium.fieldMembers_place]
        exact Caesium.leastOffsets_place fields

end

/-! ## An implementation and a nested struct -/

def lp64Size : IntegerBaseType → Nat
  | .ichar => 1
  | .short => 2
  | .int => 4
  | .long | .longLong | .intmax | .intptr => 8
  | .intN n | .intLeastN n | .intFastN n => n / 8

def lp64Integer : IntegerType → Option Nat
  | .char | .bool => some 1
  | .signed i | .unsigned i => some (lp64Size i)
  | .enum _ | .wchar | .wint => some 4
  | .size | .ptrdiff | .ptraddr => some 8

/-- Sizes of an LP64 platform. -/
def lp64 : Impl where
  sizeofIty := lp64Integer
  alignofIty := lp64Integer
  sizeofFty _ := some 8
  alignofFty _ := some 8
  sizeofPointer := some 8
  alignofPointer := some 8
  charSigned := true
  typeofEnum _ := .signed .int

theorem lp64_agrees : ImplAgrees lp64 where
  integer := by
    intro i it translated
    cases i with
    | signed b => cases b <;> cases translated <;> exact ⟨rfl, rfl⟩
    | unsigned b => cases b <;> cases translated <;> exact ⟨rfl, rfl⟩
    | _ => cases translated <;> exact ⟨rfl, rfl⟩
  bool := by
    intro i translated
    cases i with
    | signed b => cases b <;> cases translated
    | unsigned b => cases b <;> cases translated
    | _ => cases translated <;> exact ⟨rfl, rfl⟩
  pointer := ⟨rfl, rfl⟩

def charTy : CType := .integer .char
def shortTy : CType := .integer (.signed .short)
def tagU : Sym := ⟨2, "U"⟩
def membersU : List (String × CType) :=
  [("i", .integer (.signed .int)), ("b", .array charTy (some 5))]
def membersS : List (String × CType) :=
  [("c", charTy), ("u", .union tagU), ("a", .array shortTy (some 3))]

/-- `struct S { char c; union U u; short a[3]; }` with
`union U { int i; char b[5]; }`. -/
def nestedTags : TagDefs where
  tags := [(⟨1, "S"⟩, .struct membersS), (tagU, .union membersU)]
  distinct := by decide
  acyclic := by
    apply acyclic_of_measure fun id => if id = "S" then 1 else 0
    rintro u v ⟨d, found, mentioned⟩
    obtain ⟨s, member, same⟩ := findTag_mem found
    rcases List.mem_cons.mp member with isS | isU
    · cases isS
      cases List.mem_singleton.mp mentioned
      subst same
      decide
    · cases List.mem_singleton.mp isU
      cases mentioned
  complete := by
    intro d member m inDef
    rcases List.mem_cons.mp member with rfl | isU
    · simp only [TagDef.members, membersS, List.mem_cons, List.not_mem_nil, or_false] at inDef
      rcases inDef with rfl | rfl | rfl
      · trivial
      · exact ⟨membersU, rfl⟩
      · trivial
    · cases List.mem_singleton.mp isU
      simp only [TagDef.members, membersU, List.mem_cons, List.not_mem_nil, or_false] at inDef
      rcases inDef with rfl | rfl
      · trivial
      · trivial

def nestedStructs : List (String × Coq.StructDecl) :=
  [("S", ⟨false, [("c", ⟨1, 1, .int (.i8 true)⟩), ("u", ⟨4, 5, .struct "U" true⟩),
      ("a", ⟨2, 6, .array (.int (.i16 true)) 3⟩)]⟩),
    ("U",
      ⟨true,
        [("i", ⟨4, 4, .int (.i32 true)⟩), ("b", ⟨1, 5, .array (.int (.i8 true)) 5⟩)]⟩)]

/-- `S` has 16 bytes: `u` of 5 bytes is at offset 4 and `a` at offset 10. -/
theorem struct_agrees_iff_nested :
    ∃ decl printed, findDecl nestedStructs (false, "S") = .ok decl ∧
      slMembers nestedStructs decl = .ok printed ∧
      StructAgrees lp64 nestedTags.tags nestedStructs ⟨1, "S"⟩ membersS printed := by
  have naturalU : NaturalMembers lp64 nestedTags.tags false membersU [(4, 4), (1, 1 * 5)] :=
    .cons (.integer rfl rfl) (.cons (.array (.integer rfl rfl)) .nil)
  have naturalS : NaturalMembers lp64 nestedTags.tags false membersS
      [(1, 1), (4, 5), (2, 2 * 3)] :=
    .cons (.integer rfl rfl) (.cons (.union rfl naturalU) (.cons (.array (.integer rfl rfl)) .nil))
  have natural : NaturalLayout lp64 nestedTags.tags false (.struct ⟨1, "S"⟩) 16 4 :=
    .struct rfl naturalS
  obtain ⟨decl, printed, found, members, agree⟩ :=
    (struct_agrees_iff lp64 lp64_agrees nestedTags
      nestedStructs rfl ⟨1, "S"⟩ membersS List.mem_cons_self).2 16 4 natural
  exact ⟨decl, printed, found, members, agree.mpr (by decide)⟩

/-! ## A struct that is too large -/

def membersHuge : List (String × CType) :=
  [("a", .array (.array charTy (some 2)) (some 2305843009213693953)),
    ("b", .integer (.signed .int))]

/-- `struct S { char a[2305843009213693953][2]; int b; }`. -/
def hugeTags : TagDefs where
  tags := [(⟨1, "S"⟩, .struct membersHuge)]
  distinct := by decide
  acyclic := by
    apply acyclic_of_measure fun _ => 0
    rintro u v ⟨d, found, mentioned⟩
    obtain ⟨s, member, -⟩ := findTag_mem found
    cases List.mem_singleton.mp member
    cases mentioned
  complete := by
    intro d member m inDef
    cases List.mem_singleton.mp member
    simp only [TagDef.members, membersHuge, List.mem_cons, List.not_mem_nil, or_false] at inDef
    rcases inDef with rfl | rfl
    · trivial
    · trivial

/-- The size of `a` is 2 bytes more than the largest native integer. -/
def hugeStructs : List (String × Coq.StructDecl) :=
  [("S", ⟨false, [("a", ⟨1, -4611686018427387902,
      .array (.array (.int (.i8 true)) 2) 2305843009213693953⟩),
    ("b", ⟨4, 4, .int (.i32 true)⟩)]⟩)]

/-- The frontend's size is negative, and `b` is printed behind 6 bytes of padding
instead of 2. -/
theorem struct_agrees_fails_huge :
    translateStructs lp64 hugeTags.tags = .ok hugeStructs ∧
      sizeOfStruct lp64 hugeTags.tags false ⟨1, "S"⟩ = .ok (-4611686018427387892) ∧
      ∃ decl printed, findDecl hugeStructs (false, "S") = .ok decl ∧
        slMembers hugeStructs decl = .ok printed ∧
        Caesium.memberOffsets 0 printed = [("a", 0), ("b", 4611686018427387912)] ∧
        ¬ StructAgrees lp64 hugeTags.tags hugeStructs ⟨1, "S"⟩ membersHuge printed := by
  have size : sizeOfStruct lp64 hugeTags.tags false ⟨1, "S"⟩ = .ok (-4611686018427387892) := rfl
  refine ⟨rfl, size, ⟨_, _, rfl, rfl, rfl, ?_⟩⟩
  intro agree
  have same := Except.ok.inj (size.symm.trans agree.size)
  omega

end RefinedC.Frontend
