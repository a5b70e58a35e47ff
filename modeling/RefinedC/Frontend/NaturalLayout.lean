import RefinedC.Frontend.PpStruct

/-!
C's layout rules.

Owns: complete object types over acyclic tag definitions, what is assumed of the
C implementation, and the sizes and alignments that C's layout rules give to
complete types, without bounds on sizes.

Unions are padded to their alignment as C asks for, or not at all, as the
frontend has it.
-/

namespace RefinedC.Frontend

open Library

/-! ## Complete types -/

/-- Complete object types. -/
def Complete (tags : List (Sym × TagDef)) : CType → Prop
  | .integer _ => True
  | .pointer _ => True
  | .array ty (some _) => Complete tags ty
  | .atomic ty => Complete tags ty
  | .struct s => ∃ members, findTag tags (symToStr s) = .ok (.struct members)
  | .union s => ∃ members, findTag tags (symToStr s) = .ok (.union members)
  | _ => False

/-- Tag definitions of a C program. -/
structure TagDefs where
  tags : List (Sym × TagDef)
  distinct : (tags.map fun d => symToStr d.1).Nodup
  acyclic : Acyclic (findTag tags) TagDef.mentions
  complete : ∀ d ∈ tags, ∀ m ∈ d.2.members, Complete tags m.2

def TagDef.isUnion : TagDef → Bool
  | .struct _ => false
  | .union _ => true

/-- Integer types and pointers have the size and the alignment of their Caesium
layouts. -/
structure ImplAgrees (impl : Impl) : Prop where
  integer : ∀ i it, translateIntType impl i = .ok (some it) →
    impl.sizeofIty i = some it.denote.itLayout.lySize ∧
      impl.alignofIty i = some it.denote.itLayout.lyAlign
  bool : ∀ i, translateIntType impl i = .ok none →
    impl.sizeofIty i = some 1 ∧ impl.alignofIty i = some 1
  pointer : impl.sizeofPointer = some Caesium.voidPtr.lySize ∧
    impl.alignofPointer = some Caesium.voidPtr.lyAlign

/-! ## Sizes and alignments -/

def maxSize (data : List (Nat × Nat)) : Nat := (data.map Prod.snd).foldl max 0

/-- End of the last member. -/
def membersEnd (pos : Nat) (data : List (Nat × Nat)) : Nat :=
  data.foldl (fun pos m => alignUp m.1 pos + m.2) pos

def unionSize (padUnions : Bool) (data : List (Nat × Nat)) : Nat :=
  if padUnions then alignUp (maxAlign data) (maxSize data) else maxSize data

mutual

/-- Size and alignment of a complete type. -/
inductive NaturalLayout (impl : Impl) (tags : List (Sym × TagDef)) (padUnions : Bool) :
    CType → Nat → Nat → Prop where
  | integer {i : IntegerType} {size align : Nat} :
      impl.sizeofIty i = some size → impl.alignofIty i = some align →
      NaturalLayout impl tags padUnions (.integer i) size align
  | pointer {ty : CType} {size align : Nat} :
      impl.sizeofPointer = some size → impl.alignofPointer = some align →
      NaturalLayout impl tags padUnions (.pointer ty) size align
  | array {ty : CType} {n size align : Nat} :
      NaturalLayout impl tags padUnions ty size align →
      NaturalLayout impl tags padUnions (.array ty (some n)) (size * n) align
  | atomic {ty : CType} {size align : Nat} :
      NaturalLayout impl tags padUnions ty size align →
      NaturalLayout impl tags padUnions (.atomic ty) size align
  | struct {s : Sym} {members : List (String × CType)} {data : List (Nat × Nat)} :
      findTag tags (symToStr s) = .ok (.struct members) →
      NaturalMembers impl tags padUnions members data →
      NaturalLayout impl tags padUnions (.struct s) (alignUp (maxAlign data) (membersEnd 0 data))
        (maxAlign data)
  | union {s : Sym} {members : List (String × CType)} {data : List (Nat × Nat)} :
      findTag tags (symToStr s) = .ok (.union members) →
      NaturalMembers impl tags padUnions members data →
      NaturalLayout impl tags padUnions (.union s) (unionSize padUnions data) (maxAlign data)

/-- Alignments and sizes of members. -/
inductive NaturalMembers (impl : Impl) (tags : List (Sym × TagDef)) (padUnions : Bool) :
    List (String × CType) → List (Nat × Nat) → Prop where
  | nil : NaturalMembers impl tags padUnions [] []
  | cons {name : String} {ty : CType} {size align : Nat} {members : List (String × CType)}
      {data : List (Nat × Nat)} :
      NaturalLayout impl tags padUnions ty size align →
      NaturalMembers impl tags padUnions members data →
      NaturalMembers impl tags padUnions ((name, ty) :: members) ((align, size) :: data)

end

theorem foldl_max_eq (ns : List Nat) (start : Nat) :
    ns.foldl max start = max start (Caesium.maxList ns) := by
  induction ns generalizing start with
  | nil => simp [Caesium.maxList]
  | cons n ns inductionHypothesis =>
      rw [List.foldl_cons, inductionHypothesis, Caesium.maxList, Nat.max_assoc]

theorem maxAlign_pos {α : Type} (data : List (Nat × α)) : 0 < maxAlign data := by
  rw [maxAlign, foldl_max_eq]
  exact lt_of_lt_of_le Nat.one_pos (le_max_left _ _)

theorem maxSize_cons (m : Nat × Nat) (data : List (Nat × Nat)) :
    maxSize (m :: data) = max m.2 (maxSize data) := by
  simp [maxSize, foldl_max_eq]

end RefinedC.Frontend
