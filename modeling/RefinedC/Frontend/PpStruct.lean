import RefinedC.Caesium.Placement
import RefinedC.Frontend.RcAnnot
import RefinedC.Frontend.TypeLayout

/-!
Printed struct and union definitions.

Source: `pp_simple_coq_expr`, `pp_layout` and `pp_members` of `frontend/coq_pp.ml`.

Owns: the member lists that are printed, with their padding entries, and the
Caesium layouts that printed layouts denote once all definitions are read.

A printed list is modelled by its entries. The separators are not: the source
prints one between any two entries. The number of bytes is a native integer that
wraps around. A padding is never negative, so its decimal is that of a number of
bytes.
-/

namespace RefinedC.Frontend

open Library

/-! ## Printed expressions -/

def panicNoPos {α : Type} (msg : String) : Result α := .error (.panic msg)

def ppSimpleCoqExpr (wrapInt : Bool) : CoqExpr → Result String
  | .ident x => .ok x
  | .all [.plain s] => .ok (if wrapInt then "(" ++ s ++ ")" else s)
  | _ => panicNoPos "Antiquotation forbidden here."

/-! ## Printed members -/

/-- Layout in a printed entry: a layout by name, or `Layout n 0`. -/
inductive PrintedLayout where
  | layout (l : Coq.Layout)
  | padding (n : Nat)

/-- Padding in front of a struct member, and the number of bytes after it. -/
def ppPadding (isStruct : Bool) (align : Nat) (nbBytes : Int) :
    List (Option String × PrintedLayout) × Int :=
  if isStruct && nbBytes.tmod align ≠ 0 then
    let pad := align - nbBytes.tmod align
    ([(none, .padding pad.toNat)], wrapInt 62 (nbBytes + pad))
  else ([], nbBytes)

/-- Entries of the members, and the number of bytes after them. -/
def ppFields (isStruct : Bool) : Int → List (String × Coq.FieldData) →
    List (Option String × PrintedLayout) × Int
  | nbBytes, [] => ([], nbBytes)
  | nbBytes, (id, field) :: members =>
      let pad := ppPadding isStruct field.align nbBytes
      let rest := ppFields isStruct (wrapInt 62 (pad.2 + field.size)) members
      (pad.1 ++ (some id, .layout field.layout) :: rest.1, rest.2)

def ppMembers (members : List (String × Coq.FieldData)) (isStruct : Bool) :
    List (Option String × PrintedLayout) :=
  let fields := ppFields isStruct 0 members
  if isStruct then
    let maxAlign : Nat := members.foldl (fun acc m => max acc m.2.align) 1
    let r := fields.2.tmod maxAlign
    if r ≠ 0 then fields.1 ++ [(none, .padding (maxAlign - r).toNat)] else fields.1
  else fields.1

/-! ## Denotation -/

/-- A printed definition is named by `struct_id` or by `union_id`. -/
abbrev DefName := Bool × String

def denoteLayout (defined : DefName → Result Caesium.Layout) :
    Coq.Layout → Result Caesium.Layout
  | .void => .ok Caesium.voidLayout
  | .bool => .ok Caesium.boolLayout
  | .ptr => .ok Caesium.voidPtr
  | .struct name isUnion => defined (isUnion, name)
  | .int it => .ok it.denote.itLayout
  | .array l n => do
      let ly ← denoteLayout defined l
      .ok (Caesium.mkArrayLayout ly n)

def denotePrinted (defined : DefName → Result Caesium.Layout) :
    PrintedLayout → Result Caesium.Layout
  | .layout l => denoteLayout defined l
  | .padding n => .ok ⟨n, 0⟩

def denoteMembers (defined : DefName → Result Caesium.Layout)
    (entries : List (Option String × PrintedLayout)) : Result Caesium.FieldList :=
  entries.mapM fun entry => do
    let ly ← denotePrinted defined entry.2
    .ok (entry.1, ly)

/-- Layout of a struct or union from its printed members. -/
def denoteDecl (defined : DefName → Result Caesium.Layout) (decl : Coq.StructDecl) :
    Result Caesium.Layout := do
  let members ← denoteMembers defined (ppMembers decl.members (!decl.isUnion))
  if decl.isUnion then .ok (Caesium.ulLayoutMembers (Caesium.fieldMembers members))
  else .ok (Caesium.layoutOfMembers members)

/-- The definition of a name, if it is printed. -/
def findDecl (structs : List (String × Coq.StructDecl)) (name : DefName) :
    Result Coq.StructDecl :=
  match structs.find? (fun d => d.1 = name.2 ∧ d.2.isUnion = name.1) with
  | some d => .ok d.2
  | none => .error .notFound

/-- Caesium layout of a printed definition. -/
def definedLayout (structs : List (String × Coq.StructDecl)) : DefName → Result Caesium.Layout :=
  unroll (findDecl structs) .stackOverflow denoteDecl structs.length

/-- Caesium layout that an emitted layout denotes. -/
def denote (structs : List (String × Coq.StructDecl)) : Coq.Layout → Result Caesium.Layout :=
  denoteLayout (definedLayout structs)

/-- The value of the printed `sl_members`. -/
def slMembers (structs : List (String × Coq.StructDecl)) (decl : Coq.StructDecl) :
    Result Caesium.FieldList :=
  denoteMembers (definedLayout structs) (ppMembers decl.members true)

end RefinedC.Frontend
