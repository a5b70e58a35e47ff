import RefinedC.Frontend.TranslateExpr

/-!
Types of emitted expressions.

Owns: the natural operation type of an emitted expression, which exists when every
operator is applied to operands of the operation types that are written on it, and
the type of the values of a C type.

Pointers are all of one type: the printer drops the layout of a pointer type.
Arguments of calls and macros and the members of struct initialisers have no type
written on them.
-/

namespace RefinedC.Frontend

open Library

inductive ValueType where
  | void
  | bool
  | int (it : Coq.IntType)
  | ptr
  | floating
  | struct (name : String)
  | untyped (l : Coq.Layout)
deriving DecidableEq, Repr

def ValueType.of : Coq.OpType → ValueType
  | .bool => .bool
  | .int it => .int it
  | .ptr _ => .ptr
  | .struct name _ => .struct name
  | .untyped l => .untyped l

/-! ## Emitted expressions -/

/-- Type of an arithmetic operation. A pointer can be offset, and two pointers have
a difference. -/
def arithmeticType : Coq.BinOp → ValueType → ValueType → Option ValueType
  | .sub, .ptr, .ptr => some (.int .ptrdiff)
  | .add, .ptr, .int _ | .add, .ptr, .bool | .sub, .ptr, .int _ | .sub, .ptr, .bool => some .ptr
  | .add, .int _, .ptr | .add, .bool, .ptr => some .ptr
  | _, t1, t2 => if t1 = t2 then some t1 else none

def binOpType (op : Coq.BinOp) (t1 t2 : ValueType) : Option ValueType :=
  match op with
  | .eq | .ne | .lt | .gt | .le | .ge | .lazyAnd | .lazyOr => some (.int (.i32 true))
  | .comma => some t2
  | op => arithmeticType op t1 t2

def unOpType (t : ValueType) : Coq.UnOp → ValueType
  | .cast ot => .of ot
  | .notBool | .notInt | .neg => t

/-- Type of the values of a C type. -/
def valueTypeOf (impl : Impl) : CType → Option ValueType
  | .void => some .void
  | .integer i =>
      match opTypeOfIntType impl i with
      | .ok ot => some (.of ot)
      | .error _ => none
  | .floating _ => some .floating
  | .array _ _ => none
  | .functionNoParams _ | .function _ _ | .pointer _ => some .ptr
  | .atomic ty => valueTypeOf impl ty
  | .struct s | .union s => some (.struct (symToStr s))

mutual

def naturalType (impl : Impl) : Coq.Expr → Option ValueType
  | .var _ _ => some .ptr
  | .val .null => some .ptr
  | .val .void => some .void
  | .val (.int _ it) => some (.int it)
  | .val (.sizeOf _) => some (.int (.size false))
  | .unOp op ot e =>
      if naturalType impl e = some (.of ot) then some (unOpType (.of ot) op) else none
  | .binOp op ot1 ot2 e1 e2 =>
      if naturalType impl e1 = some (.of ot1) ∧ naturalType impl e2 = some (.of ot2) then
        binOpType op (.of ot1) (.of ot2)
      else none
  | .deref _ ot e | .use _ ot e =>
      if naturalType impl e = some .ptr then some (.of ot) else none
  | .cas ot e1 e2 e3 =>
      if naturalType impl e1 = some .ptr ∧ naturalType impl e2 = some .ptr ∧
          naturalType impl e3 = some (.of ot) then some .bool
      else none
  | .call ret e es =>
      if (naturalType impl e).isSome ∧ allTyped impl es then valueTypeOf impl ret else none
  | .ifE ot e1 e2 e3 =>
      if naturalType impl e1 = some (.of ot) ∧ naturalType impl e2 = naturalType impl e3 then
        naturalType impl e2
      else none
  | .skipE e | .lValue e | .annotExpr _ _ e => naturalType impl e
  | .addrOf e | .getMember e _ _ _ => if naturalType impl e = some .ptr then some .ptr else none
  | .offsetOf _ _ _ => some (.int (.size false))
  | .struct name _ es => if allTyped impl es then some (.struct name) else none
  | .rcMacro _ _ es e => if allTyped impl es then naturalType impl e else none
  | .copyAID ot e1 e2 =>
      if naturalType impl e1 = some (.of ot) ∧ naturalType impl e2 = some .ptr then some .ptr
      else none

def allTyped (impl : Impl) : List Coq.Expr → Bool
  | [] => true
  | e :: es => (naturalType impl e).isSome && allTyped impl es

end

/-! ## Values of C types -/

section

variable {impl : Impl} {ty : CType}

end

end RefinedC.Frontend
