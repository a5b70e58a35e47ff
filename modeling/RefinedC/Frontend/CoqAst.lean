import RefinedC.Caesium.Struct
import RefinedC.Frontend.Ail

/-!
The programs that the frontend emits.

Source: `frontend/coq_ast.ml`, and the constants printed for integer types by
`frontend/coq_pp.ml`.

Owns: integer types, layouts and operation types by name, expressions,
statements, struct declarations and function definitions of the emitted code.

Source locations are left out. Annotations keep their text. The keys of a switch
map are printed integers and stay integers here. A call keeps the declared return
type of the function, which the source has at hand and does not emit.
-/

namespace RefinedC.Frontend.Coq

/-! ## Types -/

inductive IntType where
  | size (signed : Bool)
  | intptr (signed : Bool)
  | ptrdiff
  | i8 (signed : Bool)
  | i16 (signed : Bool)
  | i32 (signed : Bool)
  | i64 (signed : Bool)
deriving DecidableEq, Repr

/-- Caesium integer type that `pp_int_type` prints. -/
def IntType.denote : IntType → Caesium.IntType
  | .size true => Caesium.ssizeT
  | .size false => Caesium.sizeT
  | .intptr true => Caesium.ssizeT
  | .intptr false => Caesium.sizeT
  | .ptrdiff => Caesium.ssizeT
  | .i8 true => Caesium.i8
  | .i8 false => Caesium.u8
  | .i16 true => Caesium.i16
  | .i16 false => Caesium.u16
  | .i32 true => Caesium.i32
  | .i32 false => Caesium.u32
  | .i64 true => Caesium.i64
  | .i64 false => Caesium.u64

/-- Name of the Caesium constant. -/
def IntType.pp : IntType → String
  | .size true => "ssize_t"
  | .size false => "size_t"
  | .intptr true => "intptr_t"
  | .intptr false => "uintptr_t"
  | .ptrdiff => "ptrdiff_t"
  | .i8 true => "i8"
  | .i8 false => "u8"
  | .i16 true => "i16"
  | .i16 false => "u16"
  | .i32 true => "i32"
  | .i32 false => "u32"
  | .i64 true => "i64"
  | .i64 false => "u64"

inductive Layout where
  | void
  | bool
  | ptr
  | struct (name : String) (isUnion : Bool)
  | int (it : IntType)
  | array (l : Layout) (size : Nat)
deriving DecidableEq, Repr

inductive OpType where
  | bool
  | int (it : IntType)
  | ptr (l : Layout)
  | struct (name : String) (ops : List OpType)
  | untyped (l : Layout)

mutual

def OpType.decEq : (a b : OpType) → Decidable (a = b)
  | .bool, .bool => isTrue rfl
  | .int i, .int j => decidable_of_iff (i = j) (by simp)
  | .ptr l, .ptr k => decidable_of_iff (l = k) (by simp)
  | .untyped l, .untyped k => decidable_of_iff (l = k) (by simp)
  | .struct n os, .struct m ps =>
      match (inferInstance : Decidable (n = m)), OpType.decEqList os ps with
      | isTrue names, isTrue ops => isTrue (by rw [names, ops])
      | isFalse names, _ => isFalse (by simp [names])
      | _, isFalse ops => isFalse (by simp [ops])
  | .bool, .int _ | .bool, .ptr _ | .bool, .struct _ _ | .bool, .untyped _
  | .int _, .bool | .int _, .ptr _ | .int _, .struct _ _ | .int _, .untyped _
  | .ptr _, .bool | .ptr _, .int _ | .ptr _, .struct _ _ | .ptr _, .untyped _
  | .struct _ _, .bool | .struct _ _, .int _ | .struct _ _, .ptr _ | .struct _ _, .untyped _
  | .untyped _, .bool | .untyped _, .int _ | .untyped _, .ptr _ | .untyped _, .struct _ _ =>
      isFalse nofun

def OpType.decEqList : (a b : List OpType) → Decidable (a = b)
  | [], [] => isTrue rfl
  | o :: os, p :: ps =>
      match OpType.decEq o p, OpType.decEqList os ps with
      | isTrue head, isTrue tail => isTrue (by rw [head, tail])
      | isFalse head, _ => isFalse (by simp [head])
      | _, isFalse tail => isFalse (by simp [tail])
  | [], _ :: _ | _ :: _, [] => isFalse nofun

end

instance : DecidableEq OpType := OpType.decEq

/-! ## Expressions and statements -/

inductive UnOp where
  | notBool
  | notInt
  | neg
  | cast (ot : OpType)

inductive BinOp where
  | add | sub | mul | div | mod | and | or | xor | shl | shr
  | eq | ne | lt | gt | le | ge | comma | lazyAnd | lazyOr
deriving DecidableEq, Repr

inductive Value where
  | null
  | void
  | int (i : String) (it : IntType)
  | sizeOf (l : Layout)

inductive Expr where
  | var (name : Option String) (global : Bool)
  | val (v : Value)
  | unOp (op : UnOp) (ot : OpType) (e : Expr)
  | binOp (op : BinOp) (ot1 ot2 : OpType) (e1 e2 : Expr)
  | deref (atomic : Bool) (ot : OpType) (e : Expr)
  | cas (ot : OpType) (e1 e2 e3 : Expr)
  | call (ret : CType) (e : Expr) (es : List Expr)
  | ifE (ot : OpType) (e1 e2 e3 : Expr)
  | skipE (e : Expr)
  | use (atomic : Bool) (ot : OpType) (e : Expr)
  | addrOf (e : Expr)
  | lValue (e : Expr)
  | getMember (e : Expr) (struct : String) (fromUnion : Bool) (member : String)
  | offsetOf (struct : String) (fromUnion : Bool) (member : String)
  | annotExpr (n : Nat) (annot : String) (e : Expr)
  | struct (name : String) (members : List String) (es : List Expr)
  | rcMacro (name : String) (args : List String) (es : List Expr) (e : Expr)
  | copyAID (ot : OpType) (e1 e2 : Expr)

inductive ExprAnnot where
  | annot (text : String)
  | assert (id : Nat)

inductive Stmt where
  | goto (label : String)
  | ret (e : Expr)
  | switch (it : IntType) (e : Expr) (map : List (Int × Nat)) (branches : List Stmt)
      (default : Stmt)
  | assign (atomic : Bool) (ot : OpType) (e1 e2 : Expr) (s : Stmt)
  | skipS (s : Stmt)
  | ifS (ot : OpType) (join : Option String) (e : Expr) (s1 s2 : Stmt)
  | assert (ot : OpType) (e : Expr) (s : Stmt)
  | exprS (annot : Option ExprAnnot) (e : Expr) (s : Stmt)

/-! ## Declarations -/

/-- Member of a struct or union: alignment, size and layout. -/
structure FieldData where
  align : Nat
  size : Int
  layout : Layout

structure StructDecl where
  isUnion : Bool
  members : List (String × FieldData)

structure FuncDef where
  args : List (String × Layout)
  vars : List (String × Layout)
  init : String
  blocks : List (String × Stmt)

end RefinedC.Frontend.Coq
