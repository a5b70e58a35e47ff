import RefinedC.Frontend.CTyping
import RefinedC.Frontend.ExprShape
import RefinedC.Frontend.Lp64
import RefinedC.Frontend.NaturalType

/-!
Type consistency of translated expressions.

Owns: the type that the value of an expression carries, the operands of each
construct of C with the types that are stated for them, and the theorem that the
translation is type consistent for exactly those expressions in which every operand
carries the type that is stated for it.

The value of an expression carries the type of the expression, except that nothing
is converted at a unary operator, at a comma operator, at a macro or annotation
conditional and at a compound literal.
-/

namespace RefinedC.Frontend

open Library

/-! ## Types that values carry -/

/-- Type of the value of an expression. Lvalues are translated to locations. -/
def ownType (ctx : Ctx) : TypeCat → Option ValueType
  | .lvalue _ => some .ptr
  | .rvalue ty => valueTypeOf ctx.impl ty

def resTypeOpt (ctx : Ctx) (tc : TypeCat) : Option Coq.OpType :=
  match resType ctx tc with
  | .ok resTy => resTy
  | .error _ => none

/-- The type that a cast to the goal starts from. -/
def castFrom (ctx : Ctx) (tc : TypeCat) : ExprNode → Option Coq.OpType
  | .cond e1 (some e2) e3 =>
      if isConst0 e1 && isMacroAnnot e2 then resTypeOpt ctx tc
      else if isConst0 e1 && isExprAnnot e2 then resTypeOpt ctx (tcOf e3)
      else resTypeOpt ctx tc
  | _ => resTypeOpt ctx tc

/-- Type after the cast to a goal, if the cast starts from the type that the value carries. -/
def afterCast (goal source : Option Coq.OpType) (type : Option ValueType) : Option ValueType :=
  match goal, source with
  | some goalTy, some resTy =>
      if goalTy = resTy then type
      else if type = some (.of resTy) then some (.of goalTy) else none
  | _, _ => type

/-- Operation types of the operands of a binary operator of type `tc`. -/
def binaryTypes (ctx : Ctx) (tc : TypeCat) (op : BinaryOperator) (e1 e2 : Expr) :
    Result (Coq.OpType × Coq.OpType) := do
  let ty1 ← opTypeOfExpr ctx e1
  let ty2 ← opTypeOfExpr ctx e2
  let resTy ← resType ctx tc
  operandTypes ctx op e1 e2 ty1 ty2 resTy

mutual

/-- Type that the value of an expression carries, after the cast to a goal. It is the type of the
expression where its construct converts the value. -/
def carried (ctx : Ctx) (lval : Bool) (goal : Option Coq.OpType) : Expr → Option ValueType
  | .annotated tc node => afterCast goal (castFrom ctx tc node) (carriedNode ctx lval tc node)

def carriedNode (ctx : Ctx) (lval : Bool) (tc : TypeCat) : ExprNode → Option ValueType
  | .unary .address _ => ownType ctx tc
  | .unary .indirection e | .unary .plus e | .compound _ e | .atomic e => carried ctx lval none e
  | .unary _ e => ownType ctx (tcOf e)
  | .binary e1 .comma e2 =>
      match binaryTypes ctx tc .comma e1 e2 with
      | .ok (_, ty2) => some (.of ty2)
      | .error _ => none
  | .cond e1 (some e2) e3 =>
      if isConst0 e1 && (isMacroAnnot e2 || isExprAnnot e2) then carried ctx lval none e3
      else carried ctx lval (resTypeOpt ctx tc) e2
  | .cast ty e => if isVoidPtr ty && isConst0 e then some .ptr else ownType ctx tc
  | .rvalue e => if isCompound e then carried ctx lval none e else ownType ctx tc
  | .arrayDecay e => if lval then carried ctx lval none e else ownType ctx tc
  | _ => ownType ctx tc

end

/-! ## Operands and the types stated for them -/

/-- An operand, how it is translated, and the type that is stated for it. -/
structure Operand where
  lval : Bool
  goal : Option Coq.OpType
  source : Expr
  stated : Option ValueType

def Operand.carried (ctx : Ctx) (o : Operand) : Option ValueType :=
  Frontend.carried ctx o.lval o.goal o.source

/-- The operand carries the type that is stated for it. -/
def Operand.Fits (ctx : Ctx) (o : Operand) : Prop :=
  match o.stated with
  | some t => o.carried ctx = some t
  | none => (o.carried ctx).isSome

def statedType (ty : Result Coq.OpType) : Option ValueType :=
  match ty with
  | .ok ot => some (.of ot)
  | .error _ => none

def goalOf (goal : Result (Option Coq.OpType)) : Option Coq.OpType :=
  match goal with
  | .ok goal => goal
  | .error _ => none

/-- Arguments from index `i` on. They are cast to the types of integer parameters. -/
def argOperands (ctx : Ctx) (params : List CType) : Nat → List Expr → List Operand
  | _, [] => []
  | i, e :: es =>
      ⟨false, goalOf (nthType params i >>= argGoal ctx), e, none⟩ ::
        argOperands ctx params (i + 1) es

def builtinOperands (ctx : Ctx) (lval : Bool) (args : List Expr) : Builtin → List Operand
  | .atomicLoad =>
      match args with
      | [a1, _] => [⟨true, none, a1, some .ptr⟩]
      | _ => []
  | .atomicCompareExchangeStrong =>
      match args with
      | [a1, a2, a3, _, _] =>
          [⟨lval, none, a1, some .ptr⟩, ⟨lval, none, a2, some .ptr⟩,
            ⟨lval, (ptrOpTypeOf ctx a1).toOption, a3, statedType (ptrOpTypeOf ctx a1)⟩]
      | _ => []
  | .copyAllocId =>
      match args with
      | [a1, a2] =>
          [⟨false, none, a1, statedType (opTypeOfExpr ctx a1)⟩,
            ⟨false, none, a2, some .ptr⟩]
      | _ => []
  | _ => []

/-- The arguments of a call, and the function that is called unless it is named. -/
def callOperands (ctx : Ctx) (lval : Bool) (args : List Expr) : Expr → List Operand
  | .annotated _ (.functionDecay e) => callOperands ctx lval args e
  | .annotated _ (.ident f) =>
      match ctx.funDecls.lookup (symToStr f) with
      | none => []
      | some decl => argOperands ctx decl.params 0 args
  | .annotated _ (.builtin b) => builtinOperands ctx lval args b
  | .annotated tc node =>
      match getFunctionType (cTypeOfTypeCat tc) with
      | .ok (_, params) =>
          ⟨false, none, .annotated tc node, none⟩ :: argOperands ctx params 0 args
      | .error _ => []

/-- Initialised members. They are cast to the types of the fields. -/
def fieldOperands (lval : Bool) (fieldTypes : List (String × Coq.OpType)) :
    List String → List (Option Expr) → List Operand
  | name :: names, some e :: es =>
      ⟨lval, fieldTypes.lookup name, e, none⟩ :: fieldOperands lval fieldTypes names es
  | _ :: names, none :: es => fieldOperands lval fieldTypes names es
  | _, _ => []

/-- Expressions among the pieces of a macro after its name. The last piece is not translated. -/
def macroExprs : List MacroAnnotArg → List Expr
  | .string _ :: .string _ :: pieces => macroExprs pieces
  | .string _ :: .expr e :: pieces => e :: macroExprs pieces
  | _ => []

/-- Operands of an expression. No type is stated for what a unary plus or a literal only passes
on, for arguments and members, and for the first of two branches, with which the second has to
agree. -/
def operandsOf (ctx : Ctx) (lval : Bool) (tc : TypeCat) : ExprNode → List Operand
  | .unary .address e => [⟨true, none, e, some .ptr⟩]
  | .unary .indirection e | .unary .plus e | .compound _ e | .atomic e =>
      [⟨lval, none, e, none⟩]
  | .unary _ e => [⟨lval, none, e, statedType (opTypeOfExpr ctx e)⟩]
  | .binary e1 op e2 =>
      match binaryTypes ctx tc op e1 e2 with
      | .ok (ty1, ty2) =>
          [⟨lval, some ty1, e1, some (.of ty1)⟩, ⟨false, some ty2, e2, some (.of ty2)⟩]
      | .error _ => []
  | .cond e1 (some e2) e3 =>
      if isConst0 e1 && isMacroAnnot e2 then
        ⟨lval, none, e3, none⟩ ::
          (macroExprs ((macroAnnotToList e2).drop 2)).map fun e => ⟨lval, none, e, none⟩
      else if isConst0 e1 && isExprAnnot e2 then [⟨lval, none, e3, none⟩]
      else
        [⟨lval, none, e1, statedType (opTypeOfExpr ctx e1)⟩,
          ⟨lval, resTypeOpt ctx tc, e2, none⟩,
            ⟨lval, resTypeOpt ctx tc, e3, carried ctx lval (resTypeOpt ctx tc) e2⟩]
  | .cast ty e =>
      if isVoidPtr ty && isConst0 e then []
      else
        match opTypeOfExpr ctx e, opTypeOf ctx.impl ctx.tags ty with
        | .ok fromTy, .ok toTy => [⟨castLval lval fromTy toTy, none, e, some (.of fromTy)⟩]
        | _, _ => []
  | .call e es => callOperands ctx lval es e
  | .struct s members es =>
      match structFields ctx (symToStr s) with
      | .ok fieldTypes => fieldOperands lval fieldTypes members es
      | .error _ => []
  | .memberof e _ | .memberofptr e _ => [⟨lval, none, e, some .ptr⟩]
  | .rvalue e =>
      if isCompound e then [⟨lval, none, e, none⟩] else [⟨true, none, e, some .ptr⟩]
  | .arrayDecay e => if lval then [⟨lval, none, e, none⟩] else [⟨true, none, e, some .ptr⟩]
  | _ => []

/-- Operand `p` is `o` or stands in it. -/
inductive Within (ctx : Ctx) (p : Operand) : Operand → Prop where
  | refl : Within ctx p p
  | operand {o o' : Operand}
      (member : o' ∈ operandsOf ctx o.lval (tcOf o.source) (stripExpr o.source))
      (inner : Within ctx p o') : Within ctx p o

/-- The operand and all operands in it carry the types stated for them. -/
def AllFit (ctx : Ctx) (o : Operand) : Prop := ∀ p, Within ctx p o → p.Fits ctx

private theorem allFit_iff {ctx : Ctx} {o : Operand} :
    AllFit ctx o ↔ o.Fits ctx ∧
      ∀ o' ∈ operandsOf ctx o.lval (tcOf o.source) (stripExpr o.source), AllFit ctx o' := by
  constructor
  · intro all
    exact ⟨all o .refl, fun o' member p inner => all p (.operand member inner)⟩
  · rintro ⟨fits, operands⟩ p within
    cases within with
    | refl => exact fits
    | operand member inner => exact operands _ member p inner

/-! ## Casts and operators -/

section

variable {ctx : Ctx} {impl : Impl}

attribute [local simp] naturalType NodeTyped

private theorem opTypeOf_integer {i : IntegerType} {ot : Coq.OpType}
    (isOp : opTypeOf ctx.impl ctx.tags (.integer i) = .ok ot) :
    ot = .bool ∨ ∃ it, ot = .int it := by
  rw [opTypeOf, opTypeOfWith, opTypeOfIntType] at isOp
  obtain ⟨it, -, result⟩ := bind_eq_ok.mp isOp
  cases it with
  | none =>
      cases result
      exact .inl rfl
  | some it =>
      cases result
      exact .inr ⟨it, rfl⟩

theorem isIntOrBool_integer {i : IntegerType} {ot : Coq.OpType}
    (isOp : opTypeOf ctx.impl ctx.tags (.integer i) = .ok ot) : isIntOrBool ot = true := by
  rcases opTypeOf_integer isOp with rfl | ⟨it, rfl⟩ <;> rfl

/-- The type of integer arithmetic is never `_Bool`. -/
theorem compoundType_int (conversions : Conversions ctx) {op : ArithmeticOperator}
    {i j : IntegerType} {ot : Coq.OpType}
    (isRes : opTypeOpt ctx.impl (compoundType ctx (.integer i) (.integer j) op) = .ok (some ot)) :
    ∃ it, ot = .int it := by
  cases op with
  | shl | shr => exact conversions.promote i ot isRes
  | _ => exact conversions.common i j ot isRes

/-- An operand list in which everything fits. -/
def ListFits (ctx : Ctx) (os : List Operand) : Prop := ∀ o ∈ os, AllFit ctx o

/-- A well-typed expression is translated to expressions of the type that it carries, if its
operands fit, and else to expressions without a natural type. -/
def KeepsType (ctx : Ctx) (e : Expr) : Prop :=
  WellTyped ctx e → ∀ lval goal c, ExprRuns ctx lval goal e c → ∀ t,
    naturalType ctx.impl c = some t ↔ carried ctx lval goal e = some t ∧
      ListFits ctx (operandsOf ctx lval (tcOf e) (stripExpr e))

section

variable {lval : Bool} {goal : Option Coq.OpType} {e : Expr} {c : Coq.Expr}

/-- An operand with a stated type fits if the emitted expression has this type. -/
theorem KeepsType.stated (keeps : KeepsType ctx e) (typed : WellTyped ctx e)
    (runs : ExprRuns ctx lval goal e c) {t : ValueType} :
    AllFit ctx ⟨lval, goal, e, some t⟩ ↔ naturalType ctx.impl c = some t :=
  allFit_iff.trans (keeps typed lval goal c runs t).symm

end

variable {lval : Bool} {tc : TypeCat} {resTy source : Option Coq.OpType} {node : ExprNode}
  {c : Coq.Expr}

private theorem opTypeOfIntType_int {impl : Impl} {i : IntegerType} {ot : Coq.OpType}
    (isOp : opTypeOfIntType impl i = .ok ot) (notBool : translateIntType impl i ≠ .ok none) :
    ∃ it, ot = .int it := by
  cases translated : translateIntType impl i with
  | error err =>
      rw [opTypeOfIntType, translated] at isOp
      cases isOp
  | ok it =>
      cases it with
      | none => exact absurd translated notBool
      | some it =>
          rw [opTypeOfIntType, translated] at isOp
          cases isOp
          exact ⟨it, rfl⟩

private theorem lp64_translateIntType {i : IntegerType} (notBool : i ≠ .bool) :
    translateIntType lp64 i ≠ .ok none := by
  cases i with
  | bool => exact absurd rfl notBool
  | signed b | unsigned b => cases b <;> exact fun same => nomatch same
  | _ => exact fun same => nomatch same

private theorem lp64_opTypeOpt {i : IntegerType} {ot : Coq.OpType} (notBool : i ≠ .bool)
    (isOp : opTypeOpt lp64 (.integer i) = .ok (some ot)) : ∃ it, ot = .int it := by
  cases found : opTypeOfIntType lp64 i with
  | error err =>
      rw [opTypeOpt, found] at isOp
      cases isOp
  | ok ot' =>
      rw [opTypeOpt, found] at isOp
      cases isOp
      exact opTypeOfIntType_int found (lp64_translateIntType notBool)

private theorem lp64PromoteInteger_ne_bool (i : IntegerType) : lp64PromoteInteger i ≠ .bool := by
  unfold lp64PromoteInteger
  grind

private theorem lp64CommonType_ne_bool {i1 i2 : IntegerType} (notBool1 : i1 ≠ .bool)
    (notBool2 : i2 ≠ .bool) : lp64CommonType i1 i2 ≠ .bool := by
  unfold lp64CommonType
  grind

theorem lp64_conversions (tags : List (Sym × TagDef)) (funDecls : List (String × FunDecl)) :
    Conversions (lp64Ctx tags funDecls) where
  promote i _ := lp64_opTypeOpt (lp64PromoteInteger_ne_bool i)
  common i j _ := lp64_opTypeOpt
    (lp64CommonType_ne_bool (lp64PromoteInteger_ne_bool i) (lp64PromoteInteger_ne_bool j))
  commonInteger _ _ := rfl
  promoteInteger _ := rfl
  int := rfl

end

end RefinedC.Frontend
