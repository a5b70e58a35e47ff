import RefinedC.Frontend.TranslateBlock

/-!
Well-typed Ail expressions.

Owns: C's typing rules for the annotated expressions that the frontend translates.

Does not own: the integer promotions and usual arithmetic conversions, which are
parameters of the context. Constructs that the translation rejects are not
constrained.
-/

namespace RefinedC.Frontend

/-- Type of the value of an object. -/
def unatomic : CType → CType
  | .atomic ty => ty
  | ty => ty

def CType.isInteger : CType → Bool
  | .integer _ => true
  | _ => false

def CType.isScalar : CType → Bool
  | .integer _ | .pointer _ | .floating _ => true
  | _ => false

def BinaryOperator.isLogical : BinaryOperator → Bool
  | .and | .or | .lt | .gt | .le | .ge | .eq | .ne => true
  | _ => false

def TypeCat.IsRvalue (tc : TypeCat) : Prop := ∃ ty, tc = .rvalue ty

/-- Types of the operands and of the result of a binary operator. -/
inductive BinaryTyped (ctx : Ctx) : BinaryOperator → CType → CType → CType → Prop where
  | arithmetic {op i j} : BinaryTyped ctx (.arithmetic op) (.integer i) (.integer j)
      (compoundType ctx (.integer i) (.integer j) op)
  | offset {ty i} :
      BinaryTyped ctx (.arithmetic .add) (.pointer ty) (.integer i) (.pointer ty)
  | offsetLeft {ty i} :
      BinaryTyped ctx (.arithmetic .add) (.integer i) (.pointer ty) (.pointer ty)
  | offsetBack {ty i} :
      BinaryTyped ctx (.arithmetic .sub) (.pointer ty) (.integer i) (.pointer ty)
  | difference {ty1 ty2} :
      BinaryTyped ctx (.arithmetic .sub) (.pointer ty1) (.pointer ty2) (.integer .ptrdiff)
  | comma {ty1 ty2} : BinaryTyped ctx .comma ty1 ty2 ty2
  | logical {op ty1 ty2} : op.isLogical → ty1.isScalar → ty2.isScalar →
      BinaryTyped ctx op ty1 ty2 (.integer (.signed .int))

/-- Types of the branches and of the result of a conditional. An integer beside a
pointer is a null pointer constant. -/
inductive CondTyped (ctx : Ctx) : CType → CType → CType → Prop where
  | arithmetic {i j} :
      CondTyped ctx (.integer i) (.integer j) (ctx.usualArithmetic (.integer i) (.integer j))
  | same {ty} : ty.isInteger = false → CondTyped ctx ty ty ty
  | pointers {ty1 ty2 ty} : CondTyped ctx (.pointer ty1) (.pointer ty2) (.pointer ty)
  | nullLeft {i ty1 ty} : CondTyped ctx (.integer i) (.pointer ty1) (.pointer ty)
  | nullRight {i ty1 ty} : CondTyped ctx (.pointer ty1) (.integer i) (.pointer ty)

/-- Result of a builtin that is translated in expressions. -/
def BuiltinTyped (args : List Expr) (ret : CType) : Builtin → Prop
  | .atomicLoad => ∀ a1 a2, args = [a1, a2] → ∃ ty, typeOf a1 = .pointer ty ∧
    ret = unatomic ty
  | .atomicCompareExchangeStrong => ret = .integer .bool
  | .copyAllocId => ∃ ty, ret = .pointer ty
  | _ => True

mutual

def WellTyped (ctx : Ctx) : Expr → Prop
  | .annotated tc node => NodeTyped ctx tc node

def NodeTyped (ctx : Ctx) (tc : TypeCat) : ExprNode → Prop
  | .unary .address e => WellTyped ctx e ∧ tc = .rvalue (.pointer (typeOf e))
  | .unary .indirection e =>
      WellTyped ctx e ∧ ∃ ty, tcOf e = .rvalue (.pointer ty) ∧ tc = .lvalue ty
  | .unary .plus e | .unary .minus e | .unary .bnot e =>
      WellTyped ctx e ∧ ∃ i, tcOf e = .rvalue (.integer i) ∧
        tc = .rvalue (ctx.integerPromote (.integer i))
  | .binary e1 op e2 => WellTyped ctx e1 ∧ WellTyped ctx e2 ∧ ∃ ty1 ty2 ty,
      tcOf e1 = .rvalue ty1 ∧ tcOf e2 = .rvalue ty2 ∧ tc = .rvalue ty ∧
        BinaryTyped ctx op ty1 ty2 ty
  | .cond e1 (some e2) e3 => WellTyped ctx e1 ∧ WellTyped ctx e2 ∧ WellTyped ctx e3 ∧
      ∃ ty1 ty2 ty3 ty, tcOf e1 = .rvalue ty1 ∧ tcOf e2 = .rvalue ty2 ∧
        tcOf e3 = .rvalue ty3 ∧
        tc = .rvalue ty ∧ ty1.isScalar ∧ CondTyped ctx ty2 ty3 ty
  | .cast ty e => WellTyped ctx e ∧ (tcOf e).IsRvalue ∧ tc = .rvalue ty
  | .call e es => ListTyped ctx es ∧ ∃ ret, tc = .rvalue ret ∧ CalleeTyped ctx es ret e
  | .offsetof _ _ | .sizeof _ => tc = .rvalue (.integer .size)
  | .struct s _ es => MembersTyped ctx es ∧ tc = .rvalue (.struct s)
  | .compound ty e => WellTyped ctx e ∧ (tcOf e).IsRvalue ∧ tc = .lvalue ty
  | .memberof e _ | .memberofptr e _ => WellTyped ctx e ∧ ∃ ty, tc = .lvalue ty
  | .const .null => ∃ ty, tc = .rvalue (.pointer ty)
  | .const (.integer _) => ∃ i, tc = .rvalue (.integer i)
  | .ident _ => ∃ ty, tc = .lvalue ty
  | .rvalue e => WellTyped ctx e ∧ ∃ ty, tcOf e = .lvalue ty ∧ tc = .rvalue (unatomic ty)
  | .arrayDecay e =>
      WellTyped ctx e ∧ ∃ ty size, tcOf e = .lvalue (.array ty size) ∧
        tc = .rvalue (.pointer ty)
  | .functionDecay e => WellTyped ctx e ∧ tc = .rvalue (.pointer (typeOf e))
  | .atomic e => WellTyped ctx e ∧ ∃ ty, tcOf e = .rvalue ty ∧ tc = .rvalue (.atomic ty)
  | _ => True

/-- A called function returns values of type `ret`. -/
def CalleeTyped (ctx : Ctx) (args : List Expr) (ret : CType) : Expr → Prop
  | .annotated _ (.functionDecay e) => CalleeTyped ctx args ret e
  | .annotated _ (.ident f) =>
      ∀ decl, ctx.funDecls.lookup (symToStr f) = some decl → decl.ret = ret
  | .annotated _ (.builtin b) => BuiltinTyped args ret b
  | .annotated tc node =>
      NodeTyped ctx tc node ∧ ∃ params, getFunctionType (cTypeOfTypeCat tc) = .ok (ret, params)

def ListTyped (ctx : Ctx) : List Expr → Prop
  | [] => True
  | e :: es => WellTyped ctx e ∧ ListTyped ctx es

def MembersTyped (ctx : Ctx) : List (Option Expr) → Prop
  | [] => True
  | none :: es => MembersTyped ctx es
  | some e :: es => WellTyped ctx e ∧ MembersTyped ctx es

end

/-- What the parameters of a context owe to C: promoted and common types are never
`_Bool`, and `int` has 32 bits. -/
structure Conversions (ctx : Ctx) : Prop where
  promote : ∀ i ot, opTypeOpt ctx.impl (ctx.integerPromote (.integer i)) = .ok (some ot) →
    ∃ it, ot = .int it
  common : ∀ i j ot,
    opTypeOpt ctx.impl (ctx.usualArithmetic (.integer i) (.integer j)) = .ok (some ot) →
      ∃ it, ot = .int it
  commonInteger : ∀ i j, (ctx.usualArithmetic (.integer i) (.integer j)).isInteger
  promoteInteger : ∀ i, (ctx.integerPromote (.integer i)).isInteger
  int : opTypeOfIntType ctx.impl (.signed .int) = .ok (.int (.i32 true))

end RefinedC.Frontend
