import RefinedC.Frontend.CoqAst
import RefinedC.Library.NativeInt
import RefinedC.Library.Unroll

/-!
Layouts, operation types, sizes and alignments of C types.

Source: `translate_int_type`, `layout_of`, `tag_def_data`, `op_type_of`,
`op_type_opt`, `align_of`, `align_of_struct`, `size_of`, `size_of_struct` and the
struct declarations of `translate` in `frontend/ail_to_coq.ml`.

Owns: the frontend's view of C types, with the recursion equations of the
functions that go through tag definitions.

Does not own: the C implementation of Cerberus, which is a parameter. The
recursion through tag definitions is cut off after as many nested tags as there
are definitions: a deeper recursion does not terminate in the source.

Sizes are OCaml's native integers, of 62 value bits, that wrap around. Alignments
are those of scalar types, or their maximum, and stay natural numbers.
-/

namespace RefinedC.Frontend

open Library

/-! ## The C implementation -/

/-- Choices of the C implementation that the frontend asks Cerberus for. -/
structure Impl where
  sizeofIty : IntegerType → Option Nat
  alignofIty : IntegerType → Option Nat
  sizeofFty : FloatingType → Option Nat
  alignofFty : FloatingType → Option Nat
  sizeofPointer : Option Nat
  alignofPointer : Option Nat
  charSigned : Bool
  typeofEnum : Sym → IntegerType

/-! ## Integer types -/

def sizeOfBaseType (impl : Impl) (signed : Bool) : IntegerBaseType → Result Coq.IntType
  | .intN _ => .error (.notImpl "size_of_base_type (IntN_t)")
  | .intLeastN _ => .error (.notImpl "size_of_base_type (Int_leastN_t)")
  | .intFastN _ => .error (.notImpl "size_of_base_type (Int_fastN_t)")
  | .intmax => .error (.notImpl "size_of_base_type (Intmax_t)")
  | .intptr => .ok (.intptr signed)
  | i =>
      match impl.sizeofIty (if signed then .signed i else .unsigned i) with
      | some 1 => .ok (.i8 signed)
      | some 2 => .ok (.i16 signed)
      | some 4 => .ok (.i32 signed)
      | some 8 => .ok (.i64 signed)
      | some p => .error (.notImpl s!"unknown integer precision: {p}")
      | none => .error .assertFalse

/-- Integer types other than enumerations. -/
def translateIntTypeBase (impl : Impl) : IntegerType → Result (Option Coq.IntType)
  | .char => some <$> sizeOfBaseType impl impl.charSigned .ichar
  | .bool => .ok none
  | .signed i => some <$> sizeOfBaseType impl true i
  | .unsigned i => some <$> sizeOfBaseType impl false i
  | .enum _ => .error .stackOverflow
  | .wchar => .error (.notImpl "layout_of (Wchar_t)")
  | .wint => .error (.notImpl "layout_of (Win_t)")
  | .size => .ok (some (.size false))
  | .ptrdiff => .ok (some .ptrdiff)
  | .ptraddr => .error (.notImpl "layout_of (Ptraddr_t)")

/-- The type of an enumeration is never an enumeration. -/
def translateIntType (impl : Impl) : IntegerType → Result (Option Coq.IntType)
  | .enum s => translateIntTypeBase impl (impl.typeofEnum s)
  | i => translateIntTypeBase impl i

/-! ## Layouts -/

def layoutOfIntType (impl : Impl) (i : IntegerType) : Result Coq.Layout := do
  match ← translateIntType impl i with
  | some it => .ok (.int it)
  | none => .ok .bool

/-- Layout of a C type. Arrays are pointers when `fa` says that the type is that
of a function argument. -/
def layoutOf (impl : Impl) (fa : Bool) : CType → Result Coq.Layout
  | .void => .ok .void
  | .integer i => layoutOfIntType impl i
  | .floating _ => .error (.notImpl "layout_of (Basic float)")
  | .array ty size =>
      if fa then .ok .ptr
      else match size with
        | none => .ok .ptr
        | some n => do
            let l ← layoutOf impl fa ty
            .ok (.array l n)
  | .functionNoParams _ => .ok .ptr
  | .function _ _ => .ok .ptr
  | .pointer _ => .ok .ptr
  | .atomic ty => layoutOf impl fa ty
  | .struct s => .ok (.struct (symToStr s) false)
  | .union s => .ok (.struct (symToStr s) true)

/-! ## Tag definitions -/

/-- The first definition whose tag has the given name. -/
def findTag (tags : List (Sym × TagDef)) (id : String) : Result TagDef :=
  match tags.find? (fun d => symToStr d.1 = id) with
  | some d => .ok d.2
  | none => .error .notFound

/-- Tags that the size of a type depends on. -/
def tagsOf : CType → List String
  | .array ty _ => tagsOf ty
  | .atomic ty => tagsOf ty
  | .struct s => [symToStr s]
  | .union s => [symToStr s]
  | _ => []

def TagDef.mentions (d : TagDef) : List String := d.members.flatMap fun m => tagsOf m.2

def throughTags {β : Type} (tags : List (Sym × TagDef))
    (body : (String → Result β) → TagDef → Result β) (id : String) : Result β :=
  unroll (findTag tags) .stackOverflow body tags.length id

/-! ## Operation types -/

def opTypeOfIntType (impl : Impl) (i : IntegerType) : Result Coq.OpType := do
  match ← translateIntType impl i with
  | some it => .ok (.int it)
  | none => .ok .bool

def opTypeOfWith (impl : Impl) (data : String → Result (List (String × Coq.OpType))) :
    CType → Result Coq.OpType
  | .void => .error (.notImpl "op_type_of (Void)")
  | .integer i => opTypeOfIntType impl i
  | .floating _ => .error (.notImpl "op_type_of (Basic float)")
  | .array _ _ => .error (.notImpl "op_type_of (Array)")
  | .functionNoParams _ => .error (.notImpl "op_type_of (Function)")
  | .function _ _ => .error (.notImpl "op_type_of (Function)")
  | .pointer ty => do
      let l ← layoutOf impl false ty
      .ok (.ptr l)
  | .atomic ty => do
      match ← opTypeOfWith impl data ty with
      | .int it => .ok (.int it)
      | .bool => .ok .bool
      | _ => .error (.notImpl "op_type_of (Atomic not an int)")
  | .struct s => do
      let fields ← data (symToStr s)
      .ok (.struct (symToStr s) (fields.map Prod.snd))
  | .union _ => .error (.notImpl "op_type_of (Union)")

def tagDefData (impl : Impl) (tags : List (Sym × TagDef)) :
    String → Result (List (String × Coq.OpType)) :=
  throughTags tags fun data d =>
    d.members.mapM fun m => do
      let ot ← opTypeOfWith impl data m.2
      .ok (m.1, ot)

def opTypeOf (impl : Impl) (tags : List (Sym × TagDef)) : CType → Result Coq.OpType :=
  opTypeOfWith impl (tagDefData impl tags)

/-- Operation type of a type that can be cast. -/
def opTypeOpt (impl : Impl) : CType → Result (Option Coq.OpType)
  | .void => .ok none
  | .integer i => some <$> opTypeOfIntType impl i
  | .floating _ => .ok none
  | .array _ _ => .ok none
  | .functionNoParams _ => .ok none
  | .function _ _ => .ok none
  | .pointer ty => do
      let l ← layoutOf impl false ty
      .ok (some (.ptr l))
  | .atomic ty => do
      match ← opTypeOpt impl ty with
      | some (.int it) => .ok (some (.int it))
      | some .bool => .ok (some .bool)
      | _ => .ok none
  | .struct _ => .ok none
  | .union _ => .ok none

/-! ## Alignments and sizes -/

def unwrap (msg : String) : Option Nat → Result Nat
  | some n => .ok n
  | none => .error (.panic msg)

def alignOfWith (impl : Impl) (structAlign : String → Result Nat) : CType → Result Nat
  | .void => .ok 1
  | .integer i => unwrap "Undefined alignment requirement." (impl.alignofIty i)
  | .floating f => unwrap "Undefined alignment requirement." (impl.alignofFty f)
  | .array ty _ => alignOfWith impl structAlign ty
  | .functionNoParams _ => unwrap "Undefined alignment requirement." impl.alignofPointer
  | .function _ _ => unwrap "Undefined alignment requirement." impl.alignofPointer
  | .pointer _ => unwrap "Undefined alignment requirement." impl.alignofPointer
  | .atomic ty => alignOfWith impl structAlign ty
  | .struct s => structAlign (symToStr s)
  | .union s => structAlign (symToStr s)

/-- Strictest alignment of the members. -/
def alignOfMembers (impl : Impl) (structAlign : String → Result Nat)
    (members : List (String × CType)) : Result Nat :=
  members.foldlM (fun acc m => do
    let align ← alignOfWith impl structAlign m.2
    .ok (max acc align)) 1

def alignOfStruct (impl : Impl) (tags : List (Sym × TagDef)) : String → Result Nat :=
  throughTags tags fun structAlign d => alignOfMembers impl structAlign d.members

def alignOf (impl : Impl) (tags : List (Sym × TagDef)) : CType → Result Nat :=
  alignOfWith impl (alignOfStruct impl tags)

/-- `Nat_big_num.to_int`. -/
def toInt (n : Nat) : Result Int := if n < 2 ^ 62 then .ok n else .error .overflow

/-- End of a member that is placed after `acc` bytes. The sums are those of
native integers, and so is the remainder. -/
def addMember (acc : Int) (m : Nat × Int) : Int :=
  let pad := if acc.tmod m.1 = 0 then 0 else m.1 - acc.tmod m.1
  wrapInt 62 (wrapInt 62 (acc + pad) + m.2)

/-- Size of a union, or of a struct of alignment `structAlign`, from the
alignments and sizes of its members. -/
def sizeOfData (isUnion : Bool) (structAlign : Result Nat) (data : List (Nat × Int)) :
    Result Int :=
  if isUnion then .ok (data.foldl (fun acc m => max acc m.2) 0)
  else do
    let size := data.foldl addMember 0
    let align ← structAlign
    if size.tmod align = 0 then .ok size else .ok (wrapInt 62 (size + (align - size.tmod align)))

def sizeOfWith (impl : Impl) (tags : List (Sym × TagDef))
    (data : String → Result (List (Nat × Int))) : CType → Result Int
  | .void => .ok 1
  | .integer i => Nat.cast <$> unwrap "Undefined size." (impl.sizeofIty i)
  | .floating f => Nat.cast <$> unwrap "Undefined size." (impl.sizeofFty f)
  | .array _ none => Nat.cast <$> unwrap "Undefined size." impl.sizeofPointer
  | .array ty (some n) => do
      let n ← toInt n
      let size ← sizeOfWith impl tags data ty
      .ok (wrapInt 62 (size * n))
  | .functionNoParams _ => Nat.cast <$> unwrap "Undefined size." impl.sizeofPointer
  | .function _ _ => Nat.cast <$> unwrap "Undefined size." impl.sizeofPointer
  | .pointer _ => Nat.cast <$> unwrap "Undefined size." impl.sizeofPointer
  | .atomic ty => sizeOfWith impl tags data ty
  | .struct s => do
      sizeOfData false (alignOfStruct impl tags (symToStr s)) (← data (symToStr s))
  | .union s => do
      sizeOfData true (alignOfStruct impl tags (symToStr s)) (← data (symToStr s))

/-- Alignments and sizes of the members of a tag. -/
def memberData (impl : Impl) (tags : List (Sym × TagDef)) :
    String → Result (List (Nat × Int)) :=
  throughTags tags fun data d =>
    d.members.mapM fun m => do
      let align ← alignOf impl tags m.2
      let size ← sizeOfWith impl tags data m.2
      .ok (align, size)

def sizeOf (impl : Impl) (tags : List (Sym × TagDef)) : CType → Result Int :=
  sizeOfWith impl tags (memberData impl tags)

def sizeOfStruct (impl : Impl) (tags : List (Sym × TagDef)) (isUnion : Bool) (s : Sym) :
    Result Int := do
  sizeOfData isUnion (alignOfStruct impl tags (symToStr s)) (← memberData impl tags (symToStr s))

/-! ## Struct declarations -/

def fieldData (impl : Impl) (tags : List (Sym × TagDef)) (ty : CType) : Result Coq.FieldData := do
  let align ← alignOf impl tags ty
  let size ← sizeOf impl tags ty
  let layout ← layoutOf impl false ty
  .ok ⟨align, size, layout⟩

def structDecl (impl : Impl) (tags : List (Sym × TagDef)) (def_ : TagDef) :
    Result Coq.StructDecl := do
  let members ← def_.members.mapM fun m => do
    let data ← fieldData impl tags m.2
    .ok (m.1, data)
  match def_ with
  | .struct _ => .ok ⟨false, members⟩
  | .union _ => .ok ⟨true, members⟩

/-- Declarations of all structs and unions. -/
def translateStructs (impl : Impl) (tags : List (Sym × TagDef)) :
    Result (List (String × Coq.StructDecl)) :=
  tags.mapM fun d => do
    let decl ← structDecl impl tags d.2
    .ok (symToStr d.1, decl)

/-! ## Recursion equations -/

theorem findTag_mem {tags : List (Sym × TagDef)} {id : String} {d : TagDef}
    (found : findTag tags id = .ok d) : ∃ s, (s, d) ∈ tags ∧ symToStr s = id := by
  unfold findTag at found
  cases search : tags.find? (fun d => symToStr d.1 = id) with
  | none => simp [search] at found
  | some d' =>
      simp only [search, Except.ok.injEq] at found
      subst found
      exact ⟨d'.1, List.mem_of_find?_eq_some search, by simpa using List.find?_some search⟩

def tagNames (tags : List (Sym × TagDef)) : Finset String :=
  (tags.map fun d => symToStr d.1).toFinset

theorem findTag_mem_tagNames {tags : List (Sym × TagDef)} (id : String) (d : TagDef)
    (found : findTag tags id = .ok d) : id ∈ tagNames tags := by
  obtain ⟨s, member, same⟩ := findTag_mem found
  rw [tagNames, List.mem_toFinset]
  exact List.mem_map.mpr ⟨(s, d), member, same⟩

private theorem tagNames_card_le (tags : List (Sym × TagDef)) :
    (tagNames tags).card ≤ tags.length := by
  have bound := List.toFinset_card_le (tags.map fun d => symToStr d.1)
  rwa [List.length_map] at bound

section

variable {impl : Impl} {tags : List (Sym × TagDef)}

private theorem throughTags_eq {β : Type} {body : (String → Result β) → TagDef → Result β}
    (acyclic : Acyclic (findTag tags) TagDef.mentions)
    (congruence : ∀ f g d, (∀ u ∈ TagDef.mentions d, f u = g u) → body f d = body g d)
    (id : String) :
    throughTags tags body id = findTag tags id >>= body (throughTags tags body) :=
  unroll_eq acyclic findTag_mem_tagNames congruence (tagNames_card_le tags) id

theorem TagDef.mem_mentions {d : TagDef} {m : String × CType} {u : String}
    (member : m ∈ d.members) (inside : u ∈ tagsOf m.2) : u ∈ d.mentions :=
  List.mem_flatMap.mpr ⟨m, member, inside⟩

private theorem alignOfWith_congr {f g : String → Result Nat} {ty : CType}
    (same : ∀ u ∈ tagsOf ty, f u = g u) : alignOfWith impl f ty = alignOfWith impl g ty := by
  fun_induction alignOfWith impl f ty with
  | case4 ty _ inductionHypothesis => exact inductionHypothesis same
  | case8 ty inductionHypothesis => exact inductionHypothesis same
  | case9 s => exact same _ List.mem_cons_self
  | case10 s => exact same _ List.mem_cons_self
  | _ => rfl

private theorem alignOfMembers_congr {f g : String → Result Nat} {d : TagDef}
    (same : ∀ u ∈ d.mentions, f u = g u) :
    alignOfMembers impl f d.members = alignOfMembers impl g d.members := by
  apply foldlM_congr
  intro acc m member
  rw [alignOfWith_congr fun u inside => same u (TagDef.mem_mentions member inside)]

private theorem alignOfStruct_eq (acyclic : Acyclic (findTag tags) TagDef.mentions) (id : String) :
    alignOfStruct impl tags id = findTag tags id >>= fun d =>
      alignOfMembers impl (alignOfStruct impl tags) d.members := by
  apply throughTags_eq acyclic
  intro f g d same
  exact alignOfMembers_congr same

private theorem sizeOfWith_congr {f g : String → Result (List (Nat × Int))} {ty : CType}
    (same : ∀ u ∈ tagsOf ty, f u = g u) :
    sizeOfWith impl tags f ty = sizeOfWith impl tags g ty := by
  fun_induction sizeOfWith impl tags f ty with
  | case5 ty n inductionHypothesis => rw [sizeOfWith, inductionHypothesis same]
  | case9 ty inductionHypothesis => exact inductionHypothesis same
  | case10 s => rw [sizeOfWith, same _ List.mem_cons_self]
  | case11 s => rw [sizeOfWith, same _ List.mem_cons_self]
  | _ => rfl

private theorem memberData_eq (acyclic : Acyclic (findTag tags) TagDef.mentions) (id : String) :
    memberData impl tags id = findTag tags id >>= fun d =>
      d.members.mapM fun m => (do
        let align ← alignOf impl tags m.2
        let size ← sizeOf impl tags m.2
        .ok (align, size)) := by
  apply throughTags_eq acyclic
  intro f g d same
  apply mapM_congr
  intro m member
  rw [sizeOfWith_congr fun u inside => same u (TagDef.mem_mentions member inside)]

/-! ## Sizes of members -/

/-- Strictest alignment of members given by alignment and size. -/
def maxAlign {α : Type} (data : List (Nat × α)) : Nat := (data.map Prod.fst).foldl max 1

/-- The frontend's alignments and sizes of members. -/
def MembersSized (impl : Impl) (tags : List (Sym × TagDef)) (members : List (String × CType))
    (data : List (Nat × Int)) : Prop :=
  List.Forall₂ (fun m data => alignOf impl tags m.2 = .ok data.1 ∧
    sizeOf impl tags m.2 = .ok data.2) members data

theorem MembersSized.memberData_eq_ok (acyclic : Acyclic (findTag tags) TagDef.mentions)
    {id : String} {d : TagDef} {data : List (Nat × Int)} (found : findTag tags id = .ok d)
    (sized : MembersSized impl tags d.members data) : memberData impl tags id = .ok data := by
  rw [memberData_eq acyclic, found]
  refine mapM_eq_ok.mpr (List.Forall₂.imp ?_ sized)
  rintro m ⟨align, size⟩ ⟨isAlign, isSize⟩
  simp only at isAlign isSize
  simp only [isAlign, isSize, ok_bind]

theorem MembersSized.alignOfStruct_eq_ok (acyclic : Acyclic (findTag tags) TagDef.mentions)
    {id : String} {d : TagDef} {data : List (Nat × Int)} (found : findTag tags id = .ok d)
    (sized : MembersSized impl tags d.members data) :
    alignOfStruct impl tags id = .ok (maxAlign data) := by
  have aligns : List.Forall₂ (fun m align => alignOf impl tags m.2 = .ok align) d.members
      (data.map Prod.fst) :=
    List.forall₂_map_right_iff.mpr (List.Forall₂.imp (fun _ _ both => both.1) sized)
  rw [alignOfStruct_eq acyclic, found]
  exact foldlM_of_forall₂ aligns 1

end

end RefinedC.Frontend
