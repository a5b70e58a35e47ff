import RefinedC.Caesium.Loc

/-!
Struct and union layouts of Caesium, and the types of its operations.

Source: `theories/caesium/struct.v`.

Owns: field lists with anonymous padding, offsets and indices of their members,
the executable alignment check, the invariant-carrying struct and union layouts
with the layouts they denote, and the operation types of loads, stores and
operators.
-/

namespace RefinedC.Caesium

abbrev VarName := String

/-- Members of a struct in memory order. Padding has no name. -/
abbrev FieldList := List (Option VarName × Layout)

def fieldMembers (s : FieldList) : List (VarName × Layout) :=
  s.filterMap (fun field => field.1.map (fun name => (name, field.2)))

def fieldNames (s : FieldList) : List VarName := s.filterMap Prod.fst

def fieldSizes (s : FieldList) : List Nat := s.map (fun field => field.2.lySize)

def maxList : List Nat → Nat
  | [] => 0
  | n :: ns => max n (maxList ns)

/-! ## Positions of members -/

def offsetOfIdx (s : FieldList) (i : Nat) : Nat := ((fieldSizes s).take i).sum

def indexOf (s : FieldList) (n : VarName) : Option Nat :=
  s.findIdx? fun field => decide (field.1 = some n)

def offsetOf (s : FieldList) (n : VarName) : Option Nat := (indexOf s n).map (offsetOfIdx s)

/-- Position of a member when padding does not count. -/
def fieldIndexOf (s : FieldList) (n : VarName) : Option Nat :=
  match s with
  | [] => none
  | (n', _) :: s' =>
      if n' = some n then some 0
      else (fieldIndexOf s' n).map (if n'.isSome then (· + 1) else id)

/-! ## Structs and unions -/

def padStruct {α : Type} (s : FieldList) (l : List α) (f : Layout → α) : List α :=
  match s with
  | [] => []
  | (some _, ly) :: s' => l.head?.getD (f ly) :: padStruct s' l.tail f
  | (none, ly) :: s' => f ly :: padStruct s' l f

/-- Every member starts at a multiple of its alignment when the first one
starts at `pos`. -/
def checkFieldsAligned (s : FieldList) (pos : Nat) : Bool :=
  match s with
  | [] => true
  | (_, ly) :: s' =>
      decide (pos % ly.lyAlign = 0) && checkFieldsAligned s' (pos + ly.lySize)

structure StructLayout where
  slMembers : FieldList
  slNodup : (fieldNames slMembers).Nodup
  slSize : ((fieldSizes slMembers).sum : Int) < sizeT.maxInt + 1
  slFieldsAligned : checkFieldsAligned slMembers 0 = true

/-- Layout of a list of members laid out one after the other. -/
def layoutOfMembers (s : FieldList) : Layout :=
  ⟨(fieldSizes s).sum, maxList (s.map (fun field => field.2.lyAlignLog))⟩

def StructLayout.layoutOf (s : StructLayout) : Layout := layoutOfMembers s.slMembers

/-- Location of a member of the struct at `l`. -/
def getMemberLoc (l : Loc) (s : StructLayout) (m : VarName) : Loc :=
  shiftLoc l ((offsetOf s.slMembers m).getD 0)

structure UnionLayout where
  ulMembers : List (VarName × Layout)
  ulNodup : (ulMembers.map Prod.fst).Nodup
  ulSize : (maxList (ulMembers.map (fun field => field.2.lySize)) : Int) < sizeT.maxInt + 1

/-- Layout of a list of members that all start at the same address. -/
def ulLayoutMembers (s : List (VarName × Layout)) : Layout :=
  ⟨maxList (s.map (fun field => field.2.lySize)),
    maxList (s.map (fun field => field.2.lyAlignLog))⟩

def UnionLayout.ulLayout (ul : UnionLayout) : Layout := ulLayoutMembers ul.ulMembers

/-! ## Types of operations -/

/-- Types of operations. -/
inductive OpType where
  | boolOp
  | intOp (i : IntType)
  | ptrOp
  | structOp (sl : StructLayout) (ots : List OpType)
  | untypedOp (ly : Layout)

def OpType.otLayout : OpType → Layout
  | .boolOp => boolLayout
  | .ptrOp => voidPtr
  | .intOp it => it.itLayout
  | .structOp sl _ => sl.layoutOf
  | .untypedOp ly => ly

end RefinedC.Caesium
