import RefinedC.Caesium.Notation
import RefinedC.Frontend.EmittedFunction
import RefinedC.Frontend.PpStruct

/-!
Caesium code that emitted code denotes.

Source: `pp_op_type`, `pp_un_op`, `pp_bin_op`, `pp_expr`, `pp_stmt` and
`pp_function_def` of `frontend/coq_pp.ml`, read through the notations of
`theories/caesium/notation.v`.

Owns: the expression, statement or function that the printed text stands for, once
the names of structs, unions and globals are known.

A macro is printed with a check that it unfolds to its last expression, which is
therefore its meaning. Locations are left out.
-/

namespace RefinedC.Frontend

open Library

/-- What the names in a code file stand for, and whether loads are printed without a
memory cast. -/
structure CodeEnv where
  structs : String → Option Caesium.StructLayout
  unions : String → Option Caesium.UnionLayout
  globals : String → Option Caesium.Loc
  noMemCast : Bool

/-- A name that has to be defined. -/
def known {α : Type} : Option α → Result α
  | some a => .ok a
  | none => .error .notFound

@[simp] theorem known_eq_ok {α : Type} {o : Option α} {a : α} :
    known o = .ok a ↔ o = some a := by
  cases o with
  | none => simp [known]
  | some b => simp [known]

section

variable (env : CodeEnv)

def CodeEnv.defined : DefName → Result Caesium.Layout
  | (false, name) => do
      let sl ← known (env.structs name)
      .ok sl.layoutOf
  | (true, name) => do
      let ul ← known (env.unions name)
      .ok ul.ulLayout

def CodeEnv.layout : Coq.Layout → Result Caesium.Layout := denoteLayout env.defined

/-! ## Operators -/

mutual

/-- The layout behind a pointer is not printed. -/
def denoteOpType : Coq.OpType → Result Caesium.OpType
  | .bool => .ok .boolOp
  | .int it => .ok (.intOp it.denote)
  | .ptr _ => .ok .ptrOp
  | .struct name ops => do
      let sl ← known (env.structs name)
      let ops ← denoteOpTypes ops
      .ok (.structOp sl ops)
  | .untyped l => do
      let ly ← env.layout l
      .ok (.untypedOp ly)

def denoteOpTypes : List Coq.OpType → Result (List Caesium.OpType)
  | [] => .ok []
  | ot :: ots => do
      let ot ← denoteOpType ot
      let ots ← denoteOpTypes ots
      .ok (ot :: ots)

end

def denoteUnOp : Coq.UnOp → Result Caesium.UnOp
  | .notBool => .ok .notBoolOp
  | .notInt => .ok .notIntOp
  | .neg => .ok .negOp
  | .cast ot => do
      let ot ← denoteOpType env ot
      .ok (.castOp ot)

def Coq.BinOp.pp : Coq.BinOp → String
  | .add => "+"
  | .sub => "-"
  | .mul => "×"
  | .div => "/"
  | .mod => "%"
  | .and => "&"
  | .or => "|"
  | .xor => "^"
  | .shl => "<<"
  | .shr => ">>"
  | .eq => "="
  | .ne => "!="
  | .lt => "<"
  | .gt => ">"
  | .le => "≤"
  | .ge => "≥"
  | .comma => ","
  | .lazyAnd => "&&"
  | .lazyOr => "||"

/-- An operator between operands that are not pointers beside integers. Results of
comparisons have type `i32`. -/
def plainBinOp (ot1 ot2 : Caesium.OpType) (e1 e2 : Caesium.Expr) : Coq.BinOp → Caesium.Expr
  | .add => .binOp .addOp ot1 ot2 e1 e2
  | .sub => .binOp .subOp ot1 ot2 e1 e2
  | .mul => .binOp .mulOp ot1 ot2 e1 e2
  | .div => .binOp .divOp ot1 ot2 e1 e2
  | .mod => .binOp .modOp ot1 ot2 e1 e2
  | .and => .binOp .andOp ot1 ot2 e1 e2
  | .or => .binOp .orOp ot1 ot2 e1 e2
  | .xor => .binOp .xorOp ot1 ot2 e1 e2
  | .shl => .binOp .shlOp ot1 ot2 e1 e2
  | .shr => .binOp .shrOp ot1 ot2 e1 e2
  | .eq => .binOp (.eqOp Caesium.i32) ot1 ot2 e1 e2
  | .ne => .binOp (.neOp Caesium.i32) ot1 ot2 e1 e2
  | .lt => .binOp (.ltOp Caesium.i32) ot1 ot2 e1 e2
  | .gt => .binOp (.gtOp Caesium.i32) ot1 ot2 e1 e2
  | .le => .binOp (.leOp Caesium.i32) ot1 ot2 e1 e2
  | .ge => .binOp (.geOp Caesium.i32) ot1 ot2 e1 e2
  | .comma => .binOp .comma ot1 ot2 e1 e2
  | .lazyAnd => Caesium.Expr.logicalAnd ot1 ot2 Caesium.i32 e1 e2
  | .lazyOr => Caesium.Expr.logicalOr ot1 ot2 Caesium.i32 e1 e2

/-- Offsets take their operands in the other order. -/
def denoteBinary (op : Coq.BinOp) (ty1 ty2 : Coq.OpType) (e1 e2 : Caesium.Expr) :
    Result Caesium.Expr :=
  match ty1, ty2, op with
  | ty1, ty2, .comma => plain ty1 ty2
  | .ptr l, .int it, .add => do
      let ly ← env.layout l
      .ok (.binOp (.ptrOffsetOp ly) (.intOp it.denote) .ptrOp e2 e1)
  | .ptr l, .int it, .sub => do
      let ly ← env.layout l
      .ok (.binOp (.ptrNegOffsetOp ly) (.intOp it.denote) .ptrOp e2 e1)
  | .ptr l, .ptr _, .sub => do
      let ly ← env.layout l
      .ok (.binOp (.ptrDiffOp ly) .ptrOp .ptrOp e1 e2)
  | .int it, .ptr _, .eq =>
      .ok (plainBinOp .ptrOp .ptrOp (.unOp (.castOp .ptrOp) (.intOp it.denote) e1) e2 .eq)
  | .int it, .ptr _, .ne =>
      .ok (plainBinOp .ptrOp .ptrOp (.unOp (.castOp .ptrOp) (.intOp it.denote) e1) e2 .ne)
  | .ptr _, .int it, .eq =>
      .ok (plainBinOp .ptrOp .ptrOp e1 (.unOp (.castOp .ptrOp) (.intOp it.denote) e2) .eq)
  | .ptr _, .int it, .ne =>
      .ok (plainBinOp .ptrOp .ptrOp e1 (.unOp (.castOp .ptrOp) (.intOp it.denote) e2) .ne)
  | .ptr _, .int _, op | .int _, .ptr _, op =>
      .error (.panic ("Invalid use of binary operation [" ++ op.pp ++ "]."))
  | ty1, ty2, _ => plain ty1 ty2
where
  plain (ty1 ty2 : Coq.OpType) : Result Caesium.Expr := do
    let ot1 ← denoteOpType env ty1
    let ot2 ← denoteOpType env ty2
    .ok (plainBinOp ot1 ot2 e1 e2 op)

/-! ## Constants -/

/-- Value of a decimal numeral. -/
def readDigits (s : String) : Option Nat :=
  if s.toList ≠ [] ∧ s.toList.all Char.isDigit then
    some (Nat.ofDigitChars 10 s.toList 0) else none

def printedIntTypes : List Coq.IntType :=
  [true, false].flatMap (fun signed =>
    [.size signed, .intptr signed, .i8 signed, .i16 signed, .i32 signed, .i64 signed]) ++ [.ptrdiff]

/-- The integer that the text of a constant stands for: a numeral or the bound of a
type. A minus sign is not read in this place. -/
def readInteger (s : String) : Option Int :=
  match readDigits s with
  | some n => some n
  | none =>
      match printedIntTypes.find? fun it => s = "(max_int " ++ it.pp ++ ")" with
      | some it => some it.denote.maxInt
      | none =>
          (printedIntTypes.find? fun it => s = "(min_int " ++ it.pp ++ ")").map fun it =>
            it.denote.minInt

def denoteValue : Coq.Value → Result Caesium.Val
  | .null => .ok (Caesium.valOfLoc Caesium.nullLoc)
  | .void => .ok []
  | .int s it => do
      let n ← known (readInteger s)
      .ok (Caesium.i2v n it.denote)
  | .sizeOf l => do
      let ly ← env.layout l
      .ok (Caesium.i2v ly.lySize Caesium.sizeT)

/-! ## Expressions -/

def accessOrder (atomic : Bool) : Caesium.Order := if atomic then .scOrd else .na1Ord

mutual

def denoteExpr : Coq.Expr → Result Caesium.Expr
  | .var none _ => .ok (.var "_")
  | .var (some x) true => do
      let l ← known (env.globals x)
      .ok (.val (Caesium.valOfLoc l))
  | .var (some x) false => .ok (.var x)
  | .val v => do
      let v ← denoteValue env v
      .ok (.val v)
  | .unOp op ot e => do
      let op ← denoteUnOp env op
      let ot ← denoteOpType env ot
      let e ← denoteExpr e
      .ok (.unOp op ot e)
  | .binOp op ty1 ty2 e1 e2 => do
      let e1 ← denoteExpr e1
      let e2 ← denoteExpr e2
      denoteBinary env op ty1 ty2 e1 e2
  | .deref atomic ot e => do
      let ot ← denoteOpType env ot
      let e ← denoteExpr e
      .ok (.deref (accessOrder atomic) ot (!env.noMemCast) e)
  | .cas ot e1 e2 e3 => do
      let ot ← denoteOpType env ot
      let e1 ← denoteExpr e1
      let e2 ← denoteExpr e2
      let e3 ← denoteExpr e3
      .ok (.cas ot e1 e2 e3)
  | .call _ e es => do
      let e ← denoteExpr e
      let es ← denoteExprs es
      .ok (.call e es)
  | .ifE ot e1 e2 e3 => do
      let ot ← denoteOpType env ot
      let e1 ← denoteExpr e1
      let e2 ← denoteExpr e2
      let e3 ← denoteExpr e3
      .ok (.ifE ot e1 e2 e3)
  | .skipE e => do
      let e ← denoteExpr e
      .ok (.skipE e)
  | .use atomic ot e => do
      let ot ← denoteOpType env ot
      let e ← denoteExpr e
      .ok (Caesium.Expr.use (accessOrder atomic) ot (!env.noMemCast) e)
  | .addrOf e => do
      let e ← denoteExpr e
      .ok (Caesium.Expr.addrOf e)
  | .lValue e => do
      let e ← denoteExpr e
      .ok (Caesium.Expr.lValue e)
  | .getMember e name false member => do
      let e ← denoteExpr e
      let sl ← known (env.structs name)
      .ok (Caesium.Expr.getMember e sl member)
  | .getMember e name true member => do
      let e ← denoteExpr e
      let ul ← known (env.unions name)
      .ok (Caesium.Expr.getMemberUnion e ul member)
  | .offsetOf name false member => do
      let sl ← known (env.structs name)
      .ok (Caesium.Expr.offsetOf sl member)
  | .offsetOf name true member => do
      let ul ← known (env.unions name)
      .ok (Caesium.Expr.offsetOfUnion ul member)
  | .annotExpr n annot e => do
      let e ← denoteExpr e
      .ok (Caesium.Expr.annotExpr n annot e)
  | .struct name members es => do
      let sl ← known (env.structs name)
      let es ← denoteExprs es
      .ok (Caesium.Expr.structInit sl (members.zip es))
  | .rcMacro _ _ es e => do
      let _ ← denoteExprs es
      denoteExpr e
  | .copyAID ot e1 e2 => do
      let ot ← denoteOpType env ot
      let e1 ← denoteExpr e1
      let e2 ← denoteExpr e2
      .ok (.copyAllocId ot e1 e2)

def denoteExprs : List Coq.Expr → Result (List Caesium.Expr)
  | [] => .ok []
  | e :: es => do
      let e ← denoteExpr e
      let es ← denoteExprs es
      .ok (e :: es)

end

variable {env} in
theorem denoteExpr_unOp {op : Coq.UnOp} {ot : Coq.OpType} {e : Coq.Expr} {ce : Caesium.Expr}
    (denoted : denoteExpr env (.unOp op ot e) = .ok ce) :
    ∃ cop cot ce', denoteUnOp env op = .ok cop ∧ denoteOpType env ot = .ok cot ∧
      denoteExpr env e = .ok ce' ∧ ce = .unOp cop cot ce' := by
  obtain ⟨cop, isOp, denoted⟩ := bind_eq_ok.mp denoted
  obtain ⟨cot, isType, denoted⟩ := bind_eq_ok.mp denoted
  obtain ⟨ce', operand, denoted⟩ := bind_eq_ok.mp denoted
  exact ⟨cop, cot, ce', isOp, isType, operand, (Except.ok.inj denoted).symm⟩

variable {env} in
theorem denoteExpr_binOp {op : Coq.BinOp} {ty1 ty2 : Coq.OpType} {e1 e2 : Coq.Expr}
    {ce : Caesium.Expr} (denoted : denoteExpr env (.binOp op ty1 ty2 e1 e2) = .ok ce) :
    ∃ ce1 ce2, denoteExpr env e1 = .ok ce1 ∧ denoteExpr env e2 = .ok ce2 ∧
      denoteBinary env op ty1 ty2 ce1 ce2 = .ok ce := by
  obtain ⟨ce1, first, denoted⟩ := bind_eq_ok.mp denoted
  obtain ⟨ce2, second, denoted⟩ := bind_eq_ok.mp denoted
  exact ⟨ce1, ce2, first, second, denoted⟩

variable {env} in
theorem denoteExpr_ifE {ot : Coq.OpType} {e1 e2 e3 : Coq.Expr} {ce : Caesium.Expr}
    (denoted : denoteExpr env (.ifE ot e1 e2 e3) = .ok ce) :
    ∃ cot ce1 ce2 ce3, denoteOpType env ot = .ok cot ∧ denoteExpr env e1 = .ok ce1 ∧
      denoteExpr env e2 = .ok ce2 ∧ denoteExpr env e3 = .ok ce3 ∧
        ce = .ifE cot ce1 ce2 ce3 := by
  obtain ⟨cot, isType, denoted⟩ := bind_eq_ok.mp denoted
  obtain ⟨ce1, condition, denoted⟩ := bind_eq_ok.mp denoted
  obtain ⟨ce2, first, denoted⟩ := bind_eq_ok.mp denoted
  obtain ⟨ce3, second, denoted⟩ := bind_eq_ok.mp denoted
  exact ⟨cot, ce1, ce2, ce3, isType, condition, first, second, (Except.ok.inj denoted).symm⟩

variable {env} in
theorem denoteExpr_use {atomic : Bool} {ot : Coq.OpType} {e : Coq.Expr} {ce : Caesium.Expr}
    (denoted : denoteExpr env (.use atomic ot e) = .ok ce) :
    ∃ cot ce', denoteOpType env ot = .ok cot ∧ denoteExpr env e = .ok ce' ∧
      ce = Caesium.Expr.use (accessOrder atomic) cot (!env.noMemCast) ce' := by
  obtain ⟨cot, isType, denoted⟩ := bind_eq_ok.mp denoted
  obtain ⟨ce', operand, denoted⟩ := bind_eq_ok.mp denoted
  exact ⟨cot, ce', isType, operand, (Except.ok.inj denoted).symm⟩

/-! ## Statements -/

/-- Annotations take no steps. -/
def annotateStmt (annot : Option Coq.ExprAnnot) (s : Caesium.Stmt) : Caesium.Stmt :=
  match annot with
  | none => s
  | some a => Caesium.Stmt.annotStmt 0 a s

mutual

def denoteStmt : Coq.Stmt → Result Caesium.Stmt
  | .goto id => .ok (.goto id)
  | .ret e => do
      let e ← denoteExpr env e
      .ok (.return e)
  | .switch it e map branches default => do
      let e ← denoteExpr env e
      let bs ← denoteStmts branches
      let default ← denoteStmt default
      .ok (.switch it.denote e (PartialMap.ofList map) bs default)
  | .assign atomic ot e1 e2 s => do
      let ot ← denoteOpType env ot
      let e1 ← denoteExpr env e1
      let e2 ← denoteExpr env e2
      let s ← denoteStmt s
      .ok (.assign (accessOrder atomic) ot e1 e2 s)
  | .skipS s => denoteStmt s
  | .ifS ot join e s1 s2 => do
      let ot ← denoteOpType env ot
      let e ← denoteExpr env e
      let s1 ← denoteStmt s1
      let s2 ← denoteStmt s2
      .ok (.ifS ot join e s1 s2)
  | .assert ot e s => do
      let ot ← denoteOpType env ot
      let e ← denoteExpr env e
      let s ← denoteStmt s
      .ok (Caesium.Stmt.assert ot e s)
  | .exprS annot e s => do
      let e ← denoteExpr env e
      let s ← denoteStmt s
      .ok (annotateStmt annot (.exprS e s))

def denoteStmts : List Coq.Stmt → Result (List Caesium.Stmt)
  | [] => .ok []
  | s :: ss => do
      let s ← denoteStmt s
      let ss ← denoteStmts ss
      .ok (s :: ss)

end

/-! ## Functions -/

def denoteVars (vars : List (String × Coq.Layout)) :
    Result (List (Caesium.VarName × Caesium.Layout)) :=
  vars.mapM fun v => do
    let ly ← env.layout v.2
    .ok (v.1, ly)

def denoteBlocks (blocks : List (String × Coq.Stmt)) :
    Result (List (Caesium.Label × Caesium.Stmt)) :=
  blocks.mapM fun b => do
    let s ← denoteStmt env b.2
    .ok (b.1, s)

/-- The initial block is printed as a constant. -/
def denoteFunction (fn : Coq.FuncDef) : Result Caesium.Function := do
  let args ← denoteVars env fn.args
  let vars ← denoteVars env fn.vars
  let blocks ← denoteBlocks env fn.blocks
  .ok ⟨args, vars, PartialMap.ofList blocks, (ppFunctionDef fn).fInit⟩

end

end RefinedC.Frontend
