import RefinedC.Frontend.Denotation
import RefinedC.Frontend.CTyping

/-!
Values of C's integer expressions.

Owns: integer conversions, the value that C gives to an expression over integer
constants and variables, or why it gives none, and the well-typed expressions of this
kind.

Does not own: the promotions and the usual arithmetic conversions, which are parameters
of the context. Where C leaves a result undefined or to the implementation there is no
value: overflow at a signed type, division by zero, a remainder whose quotient the type
does not have, shifts out of range or of a negative value, and the conversion to a signed
type that does not have the value. The operand of a unary operator is of promoted type:
the translation does not promote it.
-/

namespace RefinedC.Frontend

open Library

/-- Why C gives an expression no value. -/
inductive Undefined where
  /-- The signed type does not have the result. -/
  | overflow
  | divisionByZero
  /-- The type does not have the quotient that belongs to a remainder. -/
  | remainder
  | shift
  /-- No integer expression over constants and variables. -/
  | unsupported
deriving DecidableEq, Repr

abbrev CValue := Except Undefined Int

/-! ## Conversions -/

/-- Operation type of the values of a type. -/
def scalarType (ctx : Ctx) (ty : CType) : Option Coq.OpType :=
  match opTypeOpt ctx.impl ty with
  | .ok ot => ot
  | .error _ => none

/-- The value that an integer has at a type: unsigned types wrap around. -/
def valueAt : Option Coq.OpType → Int → CValue
  | some .bool, n => .ok (if n = 0 then 0 else 1)
  | some (.int it), n =>
      if it.denote.itSigned then
        if Caesium.IntType.InRange n it.denote then .ok n else .error .overflow
      else .ok (n % it.denote.intModulus)
  | _, _ => .error .unsupported

/-- Conversion between two types. Nothing happens between types of one operation type. -/
def convert (source target : Option Coq.OpType) (n : Int) : CValue :=
  if source = target then .ok n else valueAt target n

/-! ## Operators -/

/-- Results of arithmetic before they are brought into their type. The width of the type
bounds shift amounts, and a remainder needs a quotient of the type. -/
def cArithmetic (it : Caesium.IntType) : ArithmeticOperator → Int → Int → CValue
  | .mul, n1, n2 => .ok (n1 * n2)
  | .div, n1, n2 => if n2 = 0 then .error .divisionByZero else .ok (n1.tdiv n2)
  | .mod, n1, n2 =>
      if n2 = 0 then .error .divisionByZero
      else if Caesium.IntType.InRange (n1.tdiv n2) it then .ok (n1.tmod n2)
      else .error .remainder
  | .add, n1, n2 => .ok (n1 + n2)
  | .sub, n1, n2 => .ok (n1 - n2)
  | .shl, n1, n2 =>
      if 0 ≤ n1 ∧ 0 ≤ n2 ∧ n2 < it.bitsPerInt then .ok (n1 * 2 ^ n2.toNat)
        else .error .shift
  | .shr, n1, n2 =>
      if 0 ≤ n1 ∧ 0 ≤ n2 ∧ n2 < it.bitsPerInt then .ok (n1 / 2 ^ n2.toNat)
        else .error .shift
  | .band, n1, n2 => .ok (Int.land n1 n2)
  | .bxor, n1, n2 => .ok (Int.xor n1 n2)
  | .bor, n1, n2 => .ok (Int.lor n1 n2)

def isShift : ArithmeticOperator → Bool
  | .shl | .shr => true
  | _ => false

/-- Arithmetic at the type of the result. The amount of a shift is not converted. -/
def evalArithmetic (op : ArithmeticOperator) (type1 type2 result : Option Coq.OpType)
    (n1 n2 : Int) : CValue :=
  match result with
  | some (.int it) => do
      let n1 ← convert type1 result n1
      let n2 ← if isShift op then .ok n2 else convert type2 result n2
      let n ← cArithmetic it.denote op n1 n2
      valueAt result n
  | _ => .error .unsupported

def cComparison : BinaryOperator → Int → Int → Except Undefined Bool
  | .lt, n1, n2 => .ok (decide (n1 < n2))
  | .gt, n1, n2 => .ok (decide (n1 > n2))
  | .le, n1, n2 => .ok (decide (n1 ≤ n2))
  | .ge, n1, n2 => .ok (decide (n1 ≥ n2))
  | .eq, n1, n2 => .ok (decide (n1 = n2))
  | .ne, n1, n2 => .ok (decide (n1 ≠ n2))
  | _, _, _ => .error .unsupported

/-- Comparison at the common type. -/
def evalComparison (op : BinaryOperator) (type1 type2 common : Option Coq.OpType)
    (n1 n2 : Int) : CValue := do
  let n1 ← convert type1 common n1
  let n2 ← convert type2 common n2
  let b ← cComparison op n1 n2
  .ok (Caesium.boolToZ b)

/-! ## Expressions -/

section

variable (ctx : Ctx) (vals : String → Option Int)

mutual

/-- Value of an integer expression, for the values of the variables. -/
def evalExpr : Expr → CValue
  | .annotated tc node => evalNode (cTypeOfTypeCat tc) node

def evalNode (ty : CType) : ExprNode → CValue
  | .const (.integer (.iConstant n)) => .ok n
  | .const (.integer (.iConstantMax i)) =>
      match scalarType ctx (.integer i) with
      | some (.int it) => .ok it.denote.maxInt
      | _ => .error .unsupported
  | .const (.integer (.iConstantMin i)) =>
      match scalarType ctx (.integer i) with
      | some (.int it) => .ok it.denote.minInt
      | _ => .error .unsupported
  | .rvalue (.annotated _ (.ident s)) =>
      match vals (symToStr s) with
      | some n => .ok n
      | none => .error .unsupported
  | .unary .plus e => evalExpr e
  | .unary .minus e => do
      let n ← evalExpr e
      valueAt (scalarType ctx ty) (-n)
  | .unary .bnot e => do
      let n ← evalExpr e
      valueAt (scalarType ctx ty) (Int.lnot n)
  | .binary e1 (.arithmetic op) e2 => do
      let n1 ← evalExpr e1
      let n2 ← evalExpr e2
      evalArithmetic op (scalarType ctx (typeOf e1)) (scalarType ctx (typeOf e2))
        (scalarType ctx ty) n1 n2
  | .binary e1 .and e2 => do
      let n1 ← evalExpr e1
      if n1 = 0 then .ok 0 else do
        let n2 ← evalExpr e2
        .ok (if n2 = 0 then 0 else 1)
  | .binary e1 .or e2 => do
      let n1 ← evalExpr e1
      if n1 = 0 then do
        let n2 ← evalExpr e2
        .ok (if n2 = 0 then 0 else 1)
      else .ok 1
  | .binary e1 op e2 => do
      let n1 ← evalExpr e1
      let n2 ← evalExpr e2
      evalComparison op (scalarType ctx (typeOf e1)) (scalarType ctx (typeOf e2))
        (scalarType ctx (ctx.usualArithmetic (typeOf e1) (typeOf e2))) n1 n2
  | .cond e1 (some e2) e3 => do
      let n1 ← evalExpr e1
      if n1 = 0 then do
        let n ← evalExpr e3
        convert (scalarType ctx (typeOf e3)) (scalarType ctx ty) n
      else do
        let n ← evalExpr e2
        convert (scalarType ctx (typeOf e2)) (scalarType ctx ty) n
  | .cast ty' e => do
      let n ← evalExpr e
      convert (scalarType ctx (typeOf e)) (scalarType ctx ty') n
  | _ => .error .unsupported

end

end

/-- A variable with a value. -/
structure Variable where
  ty : CType
  value : Int

def valuesOf (vars : String → Option Variable) (x : String) : Option Int :=
  (vars x).map Variable.value

/-- The constant is a value of its type. -/
def ConstantFits (ctx : Ctx) (i : IntegerType) (n : Int) : Prop :=
  0 ≤ n ∧ ∀ it, opTypeOfIntType ctx.impl i = .ok (.int it) →
    Caesium.IntType.InRange n it.denote

/-- Well-typed integer expressions over constants and variables. -/
inductive IntegerExpr (ctx : Ctx) (vars : String → Option Variable) :
    IntegerType → Expr → Prop where
  | const {i : IntegerType} {n : Int} (fits : ConstantFits ctx i n) :
      IntegerExpr ctx vars i (.annotated (.rvalue (.integer i)) (.const (.integer (.iConstant n))))
  | constMax {i j : IntegerType} :
      IntegerExpr ctx vars i
        (.annotated (.rvalue (.integer i)) (.const (.integer (.iConstantMax j))))
  | constMin {i j : IntegerType} :
      IntegerExpr ctx vars i
        (.annotated (.rvalue (.integer i)) (.const (.integer (.iConstantMin j))))
  | read {i : IntegerType} {s : Sym} {x : Variable} (isVar : vars (symToStr s) = some x)
      (type : unatomic x.ty = .integer i) :
      IntegerExpr ctx vars i
        (.annotated (.rvalue (.integer i)) (.rvalue (.annotated (.lvalue x.ty) (.ident s))))
  | plus {i : IntegerType} {e : Expr} (operand : IntegerExpr ctx vars i e)
      (promoted : ctx.integerPromote (.integer i) = .integer i) :
      IntegerExpr ctx vars i (.annotated (.rvalue (.integer i)) (.unary .plus e))
  | minus {i : IntegerType} {e : Expr} (operand : IntegerExpr ctx vars i e)
      (promoted : ctx.integerPromote (.integer i) = .integer i) :
      IntegerExpr ctx vars i (.annotated (.rvalue (.integer i)) (.unary .minus e))
  | bnot {i : IntegerType} {e : Expr} (operand : IntegerExpr ctx vars i e)
      (promoted : ctx.integerPromote (.integer i) = .integer i) :
      IntegerExpr ctx vars i (.annotated (.rvalue (.integer i)) (.unary .bnot e))
  | arithmetic {i j k : IntegerType} {op : ArithmeticOperator} {e1 e2 : Expr}
      (left : IntegerExpr ctx vars i e1) (right : IntegerExpr ctx vars j e2)
      (type : compoundType ctx (.integer i) (.integer j) op = .integer k) :
      IntegerExpr ctx vars k (.annotated (.rvalue (.integer k)) (.binary e1 (.arithmetic op) e2))
  | logical {i j : IntegerType} {op : BinaryOperator} {e1 e2 : Expr} (isLogical : op.isLogical)
      (left : IntegerExpr ctx vars i e1) (right : IntegerExpr ctx vars j e2) :
      IntegerExpr ctx vars (.signed .int)
        (.annotated (.rvalue (.integer (.signed .int))) (.binary e1 op e2))
  | cond {i j k m : IntegerType} {e1 e2 e3 : Expr} (condition : IntegerExpr ctx vars i e1)
      (first : IntegerExpr ctx vars j e2) (second : IntegerExpr ctx vars k e3)
      (type : ctx.usualArithmetic (.integer j) (.integer k) = .integer m) :
      IntegerExpr ctx vars m (.annotated (.rvalue (.integer m)) (.cond e1 (some e2) e3))
  | cast {i j : IntegerType} {e : Expr} (operand : IntegerExpr ctx vars i e) :
      IntegerExpr ctx vars j (.annotated (.rvalue (.integer j)) (.cast (.integer j) e))

theorem IntegerExpr.tcOf_eq {ctx : Ctx} {vars : String → Option Variable} {i : IntegerType}
    {e : Expr} (expr : IntegerExpr ctx vars i e) : tcOf e = .rvalue (.integer i) := by
  cases expr <;> rfl

theorem IntegerExpr.typeOf_eq {ctx : Ctx} {vars : String → Option Variable} {i : IntegerType}
    {e : Expr} (expr : IntegerExpr ctx vars i e) : typeOf e = .integer i := by
  rw [typeOf, expr.tcOf_eq]
  rfl

/-- No integer expression is an annotation. -/
theorem IntegerExpr.not_annot {ctx : Ctx} {vars : String → Option Variable} {i : IntegerType}
    {e : Expr} (expr : IntegerExpr ctx vars i e) :
    isMacroAnnot e = false ∧ isExprAnnot e = false := by
  cases expr with
  | logical isLogical =>
      rename_i op _ _ _ _
      cases op with
      | comma => cases isLogical
      | _ => exact ⟨rfl, rfl⟩
  | _ => exact ⟨rfl, rfl⟩

end RefinedC.Frontend
