import RefinedC.Caesium.Evaluation
import RefinedC.Caesium.LockState
import RefinedC.Caesium.ReifiedSubst
import RefinedC.Frontend.TypeConsistency
import RefinedC.Frontend.ValueEncoding

/-!
Translated integer expressions compute C's values.

Source: `translate_expr` of `frontend/ail_to_coq.ml` and `pp_expr` of
`frontend/coq_pp.ml`, evaluated by the rules of `theories/caesium/lang.v`.

Owns: that every evaluation of an emitted integer expression ends in an encoding of
the value that C gives to its source, converted to the goal type, while other threads
leave the variables that it reads as they are, unless C leaves a remainder of it
undefined.

Does not own: expressions over pointers, structs and calls. Nothing is said about
emitted expressions whose evaluation does not end.
-/

namespace RefinedC.Frontend

open Library

/-! ## Types -/

section

variable {ctx : Ctx} {i : IntegerType} {ot : Coq.OpType}

private theorem scalarType_integer (isOp : opTypeOfIntType ctx.impl i = .ok ot) :
    scalarType ctx (.integer i) = some ot := by
  rw [scalarType, opTypeOpt, isOp]
  rfl

private theorem resType_integer {resTy : Option Coq.OpType}
    (isOp : opTypeOfIntType ctx.impl i = .ok ot)
    (isRes : resType ctx (.rvalue (.integer i)) = .ok resTy) : resTy = some ot := by
  rw [resType, cTypeOfTypeCat, opTypeOpt, isOp] at isRes
  cases isRes
  rfl

private theorem IntegerExpr.opType {vars : String → Option Variable} {e : Expr}
    (expr : IntegerExpr ctx vars i e) (isOp : opTypeOfExpr ctx e = .ok ot) :
    opTypeOfIntType ctx.impl i = .ok ot := by
  rw [opTypeOfExpr, expr.typeOf_eq, opTypeOf, opTypeOfWith] at isOp
  exact isOp

private theorem isIntOrBool_intType (isOp : opTypeOfIntType ctx.impl i = .ok ot) :
    isIntOrBool ot = true := by
  have isIntegerOp : opTypeOf ctx.impl ctx.tags (.integer i) = .ok ot := by
    rw [opTypeOf, opTypeOfWith]
    exact isOp
  exact isIntOrBool_integer isIntegerOp

/-- Promoted types are not `_Bool`. -/
theorem promoted_int (conversions : Conversions ctx)
    (promoted : ctx.integerPromote (.integer i) = .integer i)
    (isOp : opTypeOfIntType ctx.impl i = .ok ot) : ∃ it, ot = .int it := by
  apply conversions.promote i ot
  rw [promoted, opTypeOpt, isOp]
  rfl

end

/-! ## Evaluations of emitted expressions -/

section

variable (env : CodeEnv) (P : Caesium.State → Prop) (locs : List (Caesium.VarName × Caesium.Val))

/-- Every evaluation of the emitted expression ends in an encoding of the integer at the
type that it is cast to. -/
def Preserved (own target : Coq.OpType) (value : CValue) (c : Coq.Expr) : Prop :=
  ∀ ce σ v σ', denoteExpr env c = .ok ce →
    Caesium.Evaluates P (Caesium.substL locs ce) σ v σ' →
      Yields value fun n => (∃ w, Encodes own n w) ∧ Encodes target (castValue target n) v

/-- The expression is preserved with every cast to a goal type. -/
def Preserves (ctx : Ctx) (vals : String → Option Int) (i : IntegerType) (e : Expr) : Prop :=
  ∀ own goal c, opTypeOfIntType ctx.impl i = .ok own →
    (∀ ot ∈ goal, isIntOrBool ot = true) →
    ExprRuns ctx false goal e c →
      Preserved env P locs own (goal.getD own) (evalExpr ctx vals e) c

variable {env P locs} {own target : Coq.OpType} {value : CValue} {c : Coq.Expr}

private theorem Preserved.of_encodes
    (ends : ∀ ce σ v σ', denoteExpr env c = .ok ce →
      Caesium.Evaluates P (Caesium.substL locs ce) σ v σ' →
        Yields value fun n => Encodes own n v) :
    Preserved env P locs own own value c := by
  intro ce σ v σ' denoted run
  refine (ends ce σ v σ' denoted run).imp fun n encodes => ⟨⟨v, encodes⟩, ?_⟩
  rwa [encodes.castValue_eq]

theorem Preserved.encodes (preserved : Preserved env P locs own own value c) {ce : Caesium.Expr}
    {σ σ' : Caesium.State} {v : Caesium.Val} (denoted : denoteExpr env c = .ok ce)
    (run : Caesium.Evaluates P (Caesium.substL locs ce) σ v σ') :
    Yields value fun n => Encodes own n v := by
  refine (preserved ce σ v σ' denoted run).imp ?_
  rintro n ⟨⟨w, before⟩, after⟩
  rwa [before.castValue_eq] at after

/-- Only the converted value is kept. -/
theorem Preserved.converted (preserved : Preserved env P locs own target value c) :
    Preserved env P locs target target (value >>= convert (some own) (some target)) c := by
  apply Preserved.of_encodes
  intro ce σ v σ' denoted run
  refine (preserved ce σ v σ' denoted run).bind ?_
  rintro n ⟨⟨w, before⟩, after⟩
  exact .inr ⟨_, before.convert after, after⟩

/-- An emitted cast. -/
theorem Preserved.unOp_cast (operand : Preserved env P locs own own value c)
    (scalar : isIntOrBool target = true) :
    Preserved env P locs own target value (.unOp (.cast target) own c) := by
  intro ce σ v σ' denoted run
  obtain ⟨cop, cown, ce', isCast, isOwn, inner, rfl⟩ := denoteExpr_unOp denoted
  obtain ⟨cot, isTarget, same⟩ := bind_eq_ok.mp isCast
  cases same
  rw [Caesium.substL_unary locs ce' fun _ _ _ => rfl] at run
  obtain ⟨w, σ1, σ2, before, -, eval⟩ := Caesium.evaluates_unOp run
  refine (operand.encodes inner before).imp fun n encodes => ⟨⟨w, encodes⟩, ?_⟩
  exact encodes_cast encodes isOwn isTarget scalar eval

/-- The cast to a goal. -/
theorem Preserved.castTo {goal : Option Coq.OpType} (node : Preserved env P locs own own value c)
    (scalar : ∀ ot ∈ goal, isIntOrBool ot = true) :
    Preserved env P locs own (goal.getD own) value (castTo goal (c, some own)) := by
  cases goal with
  | none => exact node
  | some target =>
      unfold Frontend.castTo
      simp only [Option.getD_some]
      split
      · rename_i same
        rw [same]
        exact node
      · exact node.unOp_cast (scalar target rfl)

/-! ## Forms of expressions -/

/-- A constant of the emitted code. -/
theorem preserved_val {it : Coq.IntType} {n : Int} {text : String}
    (isValue : readInteger text = some n) (inRange : Caesium.IntType.InRange n it.denote)
    (same : value = .ok n) :
    Preserved env P locs (.int it) (.int it) value (.val (.int text it)) := by
  apply Preserved.of_encodes
  intro ce σ v σ' denoted run
  obtain ⟨w, isConst, result⟩ := bind_eq_ok.mp denoted
  obtain ⟨m, isInt, same⟩ := bind_eq_ok.mp isConst
  cases result
  cases same
  cases isValue.symm.trans (known_eq_ok.mp isInt)
  rw [Caesium.substL_val] at run
  obtain rfl := Caesium.evaluates_val run
  exact .inr ⟨n, same, encodes_i2v inRange⟩

private theorem preserved_neg {it : Coq.IntType}
    (operand : Preserved env P locs (.int it) (.int it) value c) :
    Preserved env P locs (.int it) (.int it)
      (value >>= fun n => valueAt (some (.int it)) (-n)) (.unOp .neg (.int it) c) := by
  apply Preserved.of_encodes
  intro ce σ v σ' denoted run
  obtain ⟨cop, cot, ce', isOp, isType, inner, rfl⟩ := denoteExpr_unOp denoted
  cases isOp
  cases isType
  rw [Caesium.substL_unary locs ce' fun _ _ _ => rfl] at run
  obtain ⟨w, σ1, σ2, before, -, eval⟩ := Caesium.evaluates_unOp run
  exact (operand.encodes inner before).bind fun n encodes => .inr ⟨_, evalUnOp_neg encodes eval⟩

private theorem preserved_bnot {it : Coq.IntType}
    (operand : Preserved env P locs (.int it) (.int it) value c) :
    Preserved env P locs (.int it) (.int it)
      (value >>= fun n => valueAt (some (.int it)) (Int.lnot n)) (.unOp .notInt (.int it) c) := by
  apply Preserved.of_encodes
  intro ce σ v σ' denoted run
  obtain ⟨cop, cot, ce', isOp, isType, inner, rfl⟩ := denoteExpr_unOp denoted
  cases isOp
  cases isType
  rw [Caesium.substL_unary locs ce' fun _ _ _ => rfl] at run
  obtain ⟨w, σ1, σ2, before, -, eval⟩ := Caesium.evaluates_unOp run
  exact (operand.encodes inner before).bind fun n encodes => .inr (evalUnOp_bnot encodes eval)

section

variable {it : Coq.IntType} {own1 own2 : Coq.OpType} {value1 value2 : CValue} {c1 c2 : Coq.Expr}

/-- The operands of an operator that is not lazy. -/
theorem binOp_yields {cop : Caesium.BinOp} {op : Coq.BinOp} {result : Int → Int → CValue}
    (left : Preserved env P locs own1 (.int it) value1 c1)
    (right : Preserved env P locs own2 (.int it) value2 c2)
    (isOp : ∀ ot1 ot2 e1 e2, plainBinOp ot1 ot2 e1 e2 op = .binOp cop ot1 ot2 e1 e2)
    {ce : Caesium.Expr} {σ σ' : Caesium.State} {v : Caesium.Val} {holds : Int → Prop}
    (denoted : denoteExpr env (.binOp op (.int it) (.int it) c1 c2) = .ok ce)
    (run : Caesium.Evaluates P (Caesium.substL locs ce) σ v σ')
    (eval : ∀ n1 n2 w1 w2 σ1, convert (some own1) (some (.int it)) n1 = .ok n1 →
      convert (some own2) (some (.int it)) n2 = .ok n2 → Encodes (.int it) n1 w1 →
      Encodes (.int it) n2 w2 →
      Caesium.EvalBinOp cop (.intOp it.denote) (.intOp it.denote) σ1 w1 w2 v →
        Yields (result n1 n2) holds) :
    Yields (value1 >>= fun n1 => value2 >>= fun n2 => result n1 n2) holds := by
  obtain ⟨ce1, ce2, denoted1, denoted2, denoted⟩ := denoteExpr_binOp denoted
  obtain rfl : Caesium.Expr.binOp cop (.intOp it.denote) (.intOp it.denote) ce1 ce2 = ce := by
    rw [← isOp]
    cases op
    all_goals exact Except.ok.inj denoted
  rw [Caesium.substL_binary locs ce1 ce2 fun _ _ _ _ => rfl] at run
  obtain ⟨w1, w2, σ1, σ2, σ3, run1, run2, -, isResult⟩ := Caesium.evaluates_binOp run
  refine (left ce1 σ w1 σ1 denoted1 run1).bind ?_
  rintro n1 ⟨⟨u1, before1⟩, encodes1⟩
  refine (right ce2 σ1 w2 σ2 denoted2 run2).bind ?_
  rintro n2 ⟨⟨u2, before2⟩, encodes2⟩
  exact eval n1 n2 w1 w2 σ3 (before1.convert encodes1) (before2.convert encodes2) encodes1 encodes2
    isResult

private theorem preserved_arithmetic {op : ArithmeticOperator}
    (left : Preserved env P locs own1 (.int it) value1 c1)
    (right : Preserved env P locs own2 (.int it) value2 c2) :
    Preserved env P locs (.int it) (.int it)
      (value1 >>= fun n1 => value2 >>= fun n2 =>
        evalArithmetic op (some own1) (some own2) (some (.int it)) n1 n2)
      (.binOp (arithOp op) (.int it) (.int it) c1 c2) := by
  apply Preserved.of_encodes
  intro ce σ v σ' denoted run
  apply binOp_yields left right (plainBinOp_arith op) denoted run
  intro n1 n2 w1 w2 σ1 convert1 convert2 encodes1 encodes2 eval
  simp only [evalArithmetic, convert1, convert2, ite_self, ok_bind]
  exact evalBinOp_arith encodes1 encodes2 eval

private theorem preserved_comparison {op : BinaryOperator} {cop : Caesium.BinOp}
    (isOp : comparisonBinOp op = some cop)
    (left : Preserved env P locs own1 (.int it) value1 c1)
    (right : Preserved env P locs own2 (.int it) value2 c2) :
    Preserved env P locs (.int (.i32 true)) (.int (.i32 true))
      (value1 >>= fun n1 => value2 >>= fun n2 =>
        evalComparison op (some own1) (some own2) (some (.int it)) n1 n2)
      (.binOp (binOp op) (.int it) (.int it) c1 c2) := by
  apply Preserved.of_encodes
  intro ce σ v σ' denoted run
  apply binOp_yields left right (plainBinOp_comparison isOp) denoted run
  intro n1 n2 w1 w2 σ1 convert1 convert2 encodes1 encodes2 eval
  obtain ⟨b, isResult, encodes⟩ := evalBinOp_comparison isOp encodes1 encodes2 eval
  simp only [evalComparison, convert1, convert2, isResult, ok_bind]
  exact .ok encodes

/-! ### Conditions -/

private theorem castValue_eq_zero (ot : Coq.OpType) (n : Int) : castValue ot n = 0 ↔ n = 0 := by
  cases ot with
  | bool =>
      rw [castValue]
      split
      · simp [*]
      · simp [*]
  | int it => rfl
  | ptr l => rfl
  | struct name ots => rfl
  | untyped l => rfl

/-- A condition decides which expression is evaluated after it. -/
theorem evaluates_condition {cot : Caesium.OpType} {ce1 e2 e3 : Caesium.Expr}
    {σ σ' : Caesium.State} {v : Caesium.Val} (condition : Preserved env P locs own target value c)
    (denoted : denoteExpr env c = .ok ce1) (isOp : denoteOpType env target = .ok cot)
    (run : Caesium.Evaluates P (.ifE cot (Caesium.substL locs ce1) e2 e3) σ v σ') :
    Yields value fun n => ∃ σ1, Caesium.Evaluates P (if n = 0 then e3 else e2) σ1 v σ' := by
  obtain ⟨w, σ1, σ2, b, before, outcome, rest⟩ := Caesium.evaluates_ifE run
  refine (condition ce1 σ w σ1 denoted before).imp ?_
  rintro n ⟨-, encodes⟩
  obtain rfl := castToBool_encodes encodes isOp outcome
  refine ⟨σ2, ?_⟩
  by_cases zero : n = 0
  · rw [if_pos zero]
    rw [(castValue_eq_zero target n).mpr zero] at rest
    exact rest
  · rw [if_neg zero]
    rw [if_pos (by simpa [castValue_eq_zero] using zero)] at rest
    exact rest

/-- The results of lazy operators. -/
theorem encodes_truth {n : Int} {σ σ' : Caesium.State} {v : Caesium.Val}
    (run : Caesium.Evaluates P
      (if n = 0 then .val (Caesium.i2v 0 Caesium.i32) else .val (Caesium.i2v 1 Caesium.i32)) σ v
        σ') :
    Encodes (.int (.i32 true)) (if n = 0 then 0 else 1) v := by
  by_cases zero : n = 0
  · rw [if_pos zero] at run ⊢
    obtain rfl := Caesium.evaluates_val run
    exact encodes_i2v (by decide)
  · rw [if_neg zero] at run ⊢
    obtain rfl := Caesium.evaluates_val run
    exact encodes_i2v (by decide)

private theorem preserved_and (left : Preserved env P locs own1 (.int it) value1 c1)
    (right : Preserved env P locs own2 (.int it) value2 c2) :
    Preserved env P locs (.int (.i32 true)) (.int (.i32 true))
      (value1 >>= fun n1 => if n1 = 0 then .ok 0 else
        value2 >>= fun n2 => .ok (if n2 = 0 then 0 else 1))
      (.binOp .lazyAnd (.int it) (.int it) c1 c2) := by
  apply Preserved.of_encodes
  intro ce σ v σ' denoted run
  obtain ⟨ce1, ce2, denoted1, denoted2, denoted⟩ := denoteExpr_binOp denoted
  cases denoted
  rw [show plainBinOp (.intOp it.denote) (.intOp it.denote) ce1 ce2 .lazyAnd =
    Caesium.Expr.logicalAnd _ _ _ _ _ from rfl, Caesium.substL_logicalAnd] at run
  refine (evaluates_condition left denoted1 rfl run).bind ?_
  rintro n1 ⟨σ1, rest⟩
  by_cases zero : n1 = 0
  · rw [if_pos zero] at rest ⊢
    exact .ok (encodes_truth (n := 0) (by rw [if_pos rfl]; exact rest))
  · rw [if_neg zero] at rest ⊢
    refine (evaluates_condition right denoted2 rfl rest).bind ?_
    rintro n2 ⟨σ2, rest⟩
    exact .ok (encodes_truth rest)

private theorem preserved_or (left : Preserved env P locs own1 (.int it) value1 c1)
    (right : Preserved env P locs own2 (.int it) value2 c2) :
    Preserved env P locs (.int (.i32 true)) (.int (.i32 true))
      (value1 >>= fun n1 => if n1 = 0 then
        value2 >>= fun n2 => .ok (if n2 = 0 then 0 else 1) else .ok 1)
      (.binOp .lazyOr (.int it) (.int it) c1 c2) := by
  apply Preserved.of_encodes
  intro ce σ v σ' denoted run
  obtain ⟨ce1, ce2, denoted1, denoted2, denoted⟩ := denoteExpr_binOp denoted
  cases denoted
  rw [show plainBinOp (.intOp it.denote) (.intOp it.denote) ce1 ce2 .lazyOr =
    Caesium.Expr.logicalOr _ _ _ _ _ from rfl, Caesium.substL_logicalOr] at run
  refine (evaluates_condition left denoted1 rfl run).bind ?_
  rintro n1 ⟨σ1, rest⟩
  by_cases zero : n1 = 0
  · rw [if_pos zero] at rest ⊢
    refine (evaluates_condition right denoted2 rfl rest).bind ?_
    rintro n2 ⟨σ2, rest⟩
    exact .ok (encodes_truth rest)
  · rw [if_neg zero] at rest ⊢
    exact .ok (encodes_truth (n := 1) (by rw [if_neg (by decide)]; exact rest))

private theorem preserved_ifE {value3 : CValue} {c3 : Coq.Expr}
    (condition : Preserved env P locs own own value c)
    (first : Preserved env P locs target target value2 c2)
    (second : Preserved env P locs target target value3 c3) :
    Preserved env P locs target target
      (value >>= fun n => if n = 0 then value3 else value2) (.ifE own c c2 c3) := by
  apply Preserved.of_encodes
  intro ce σ v σ' denoted run
  obtain ⟨cot, ce1, ce2, ce3, isOp, denoted1, denoted2, denoted3, rfl⟩ := denoteExpr_ifE denoted
  rw [Caesium.substL_ifE] at run
  refine (evaluates_condition condition denoted1 isOp run).bind ?_
  rintro n ⟨σ1, rest⟩
  by_cases zero : n = 0
  · rw [if_pos zero] at rest ⊢
    exact second.encodes denoted3 rest
  · rw [if_neg zero] at rest ⊢
    exact first.encodes denoted2 rest

end

end

/-! ## Variables -/

section

variable (ctx : Ctx) (env : CodeEnv) (vars : String → Option Variable)
  (place : String → Caesium.Loc)

/-- The heap holds the values of the variables. -/
def VarsHeld (σ : Caesium.State) : Prop :=
  ∀ x var, vars x = some var → ∃ ot cot bytes Plk,
    opTypeOf ctx.impl ctx.tags var.ty = .ok ot ∧ denoteOpType env ot = .ok cot ∧
      Caesium.heapAt (place x) cot.otLayout bytes Plk σ.stHeap.hsHeap ∧
        Encodes ot var.value bytes

/-- Emitted variables stand for the places of variables, which replace local variables when
a function is entered. -/
def VarsPlaced (locs : List (Caesium.VarName × Caesium.Val)) : Prop :=
  ∀ x var, vars x = some var →
    if ctx.isLocal x then
      Caesium.substL locs (.var x) = .val (Caesium.valOfLoc (place x))
    else env.globals x = some (place x)

variable {ctx env vars place}

private theorem opTypeOf_unatomic {ty : CType} {i : IntegerType} {ot : Coq.OpType}
    (isInteger : unatomic ty = .integer i) (isOp : opTypeOf ctx.impl ctx.tags ty = .ok ot) :
    opTypeOfIntType ctx.impl i = .ok ot := by
  cases ty with
  | integer j =>
      cases isInteger
      rw [opTypeOf, opTypeOfWith] at isOp
      exact isOp
  | atomic ty' =>
      cases isInteger
      rw [opTypeOf, opTypeOfWith, opTypeOfWith] at isOp
      obtain ⟨ot', isOp', same⟩ := bind_eq_ok.mp isOp
      rw [isOp']
      cases ot' with
      | bool | int it => exact same
      | ptr l | struct name ots | untyped l => cases same
  | _ => cases isInteger

private theorem exprRuns_ident {tc : TypeCat} {s : Sym} {c : Coq.Expr}
    (runs : ExprRuns ctx true none (.annotated tc (.ident s)) c) :
    c = .var (some (symToStr s)) (!ctx.isLocal (symToStr s)) := by
  obtain ⟨used, used', run⟩ := runs
  simp only [translateExpr, translateNode, run_bind_eq_ok, run_liftResult_eq_ok,
    run_pure_eq_ok] at run
  obtain ⟨resTy, _, -, ⟨c', source⟩, _, nodeRun, rfl, -⟩ := run
  cases isLocal : ctx.isLocal (symToStr s) with
  | true =>
      rw [isLocal, if_pos rfl] at nodeRun
      cases nodeRun
      rfl
  | false =>
      rw [isLocal, if_neg (by decide)] at nodeRun
      cases nodeRun
      rfl

/-- The address of a variable. -/
theorem denoteExpr_placed {locs : List (Caesium.VarName × Caesium.Val)}
    {x : String} {var : Variable}
    {ce : Caesium.Expr} (placed : VarsPlaced ctx env vars place locs) (isVar : vars x = some var)
    (denoted : denoteExpr env (.var (some x) (!ctx.isLocal x)) = .ok ce) :
    Caesium.substL locs ce = .val (Caesium.valOfLoc (place x)) := by
  have isPlace := placed x var isVar
  cases isLocal : ctx.isLocal x with
  | true =>
      rw [isLocal, if_pos rfl] at isPlace
      rw [isLocal] at denoted
      cases denoted
      exact isPlace
  | false =>
      rw [isLocal, if_neg (by decide)] at isPlace
      rw [isLocal] at denoted
      obtain ⟨l, isGlobal, result⟩ := bind_eq_ok.mp denoted
      cases result
      cases isPlace.symm.trans (known_eq_ok.mp isGlobal)
      exact Caesium.substL_val locs _

/-- A load of a variable gives its value. -/
theorem preserved_use {locs : List (Caesium.VarName × Caesium.Val)} {x : String} {var : Variable}
    {ot : Coq.OpType} {atomic : Bool} (placed : VarsPlaced ctx env vars place locs)
    (isVar : vars x = some var) (isOp : opTypeOf ctx.impl ctx.tags var.ty = .ok ot) :
    Preserved env (VarsHeld ctx env vars place) locs ot ot (.ok var.value)
      (.use atomic ot (.var (some x) (!ctx.isLocal x))) := by
  apply Preserved.of_encodes
  intro ce σ v σ' denoted run
  obtain ⟨cot, ce', isCot, inner, rfl⟩ := denoteExpr_use denoted
  unfold Caesium.Expr.use at run
  rw [Caesium.substL_unary locs ce' fun _ _ _ => rfl, denoteExpr_placed placed isVar inner] at run
  obtain ⟨w, σ1, l, v', σ2, Plk, pointer, held, isLoc, cells, result⟩ :=
    Caesium.evaluates_deref run
  obtain rfl := Caesium.evaluates_val pointer
  rw [Caesium.valToLoc_valOfLoc] at isLoc
  cases isLoc
  obtain ⟨ot', cot', bytes, Plk', isOp', isCot', cells', encodes⟩ := held x var isVar
  cases isOp.symm.trans isOp'
  cases isCot.symm.trans isCot'
  obtain rfl := Caesium.heapAt_functional cells cells'
  rw [encodes_memCast encodes isCot, ite_self] at result
  rw [result]
  exact .ok encodes

end

/-! ## Operands of operators -/

section

variable {ctx : Ctx} {vals : String → Option Int} {e1 e2 : Expr} {ty1 ty2 : Coq.OpType}

private theorem evalNode_comparison {op : BinaryOperator} {cop : Caesium.BinOp} {ty : CType}
    (isOp : comparisonBinOp op = some cop) :
    evalNode ctx vals ty (.binary e1 op e2) =
      (evalExpr ctx vals e1 >>= fun n1 => evalExpr ctx vals e2 >>= fun n2 =>
        evalComparison op (scalarType ctx (typeOf e1)) (scalarType ctx (typeOf e2))
          (scalarType ctx (ctx.usualArithmetic (typeOf e1) (typeOf e2))) n1 n2) := by
  cases op
  all_goals cases isOp
  all_goals simp only [evalNode]

private theorem isLogical_cases {op : BinaryOperator} (isLogical : op.isLogical) :
    op = .and ∨ op = .or ∨ ∃ cop, comparisonBinOp op = some cop := by
  cases op with
  | and => exact .inl rfl
  | or => exact .inr (.inl rfl)
  | lt | gt | le | ge | eq | ne => exact .inr (.inr ⟨_, rfl⟩)
  | arithmetic op | comma => cases isLogical

/-- Operands of arithmetic are converted to the type of the result. -/
theorem operandTypes_arithmetic {op : ArithmeticOperator} {it : Coq.IntType}
    (scalar1 : isIntOrBool ty1 = true) (scalar2 : isIntOrBool ty2 = true) :
    operandTypes ctx (.arithmetic op) e1 e2 ty1 ty2 (some (.int it)) = .ok (.int it, .int it) := by
  rw [operandTypes, scalar1, scalar2]
  rfl

/-- Operands of comparisons and lazy operators are converted to their common type. -/
theorem operandTypes_logical (conversions : Conversions ctx) {op : BinaryOperator}
    {i j : IntegerType} {it : Coq.IntType} {ty1' ty2' : Coq.OpType} (isLogical : op.isLogical)
    (isInteger1 : typeOf e1 = .integer i) (isInteger2 : typeOf e2 = .integer j)
    (scalar1 : isIntOrBool ty1 = true) (scalar2 : isIntOrBool ty2 = true)
    (operands : operandTypes ctx op e1 e2 ty1 ty2 (some (.int it)) = .ok (ty1', ty2')) :
    ∃ it', ty1' = .int it' ∧ ty2' = .int it' ∧
      scalarType ctx (ctx.usualArithmetic (typeOf e1) (typeOf e2)) = some (.int it') := by
  have notArith : isArith op = false := by
    cases op with
    | arithmetic op => cases isLogical
    | _ => rfl
  rw [operandTypes, scalar1, scalar2] at operands
  simp only [Bool.and_self, if_true, notArith, Bool.false_eq_true, if_false] at operands
  obtain ⟨ty, isCommon, same⟩ := bind_eq_ok.mp operands
  cases same
  rw [isInteger1, isInteger2] at isCommon ⊢
  have isInteger := conversions.commonInteger i j
  cases common : ctx.usualArithmetic (.integer i) (.integer j) with
  | integer k =>
      rw [common, opTypeOf, opTypeOfWith] at isCommon
      have isRes : opTypeOpt ctx.impl (ctx.usualArithmetic (.integer i) (.integer j)) =
          .ok (some ty1') := by
        rw [common, opTypeOpt, isCommon]
        rfl
      obtain ⟨it', rfl⟩ := conversions.common i j ty1' isRes
      exact ⟨it', rfl, rfl, scalarType_integer isCommon⟩
  | _ =>
      rw [common] at isInteger
      cases isInteger

end

/-! ## Integer expressions -/

section

variable {ctx : Ctx} {env : CodeEnv} {vars : String → Option Variable}
  {place : String → Caesium.Loc} {locs : List (Caesium.VarName × Caesium.Val)} {i : IntegerType}
  {node : ExprNode}

/-- What is left to show of a node: the cast to a goal comes after it. -/
theorem preserves_of_node {P : Caesium.State → Prop} {vals : String → Option Int}
    (each : ∀ own source c, opTypeOfIntType ctx.impl i = .ok own →
      NodeShape ctx false (some own) node c source →
        source = some own ∧
          Preserved env P locs own own (evalNode ctx vals (.integer i) node) c) :
    Preserves env P locs ctx vals i (.annotated (.rvalue (.integer i)) node) := by
  intro own goal c isOp scalar runs
  obtain ⟨resTy, c', source, isRes, shape, rfl⟩ := runs.shape
  obtain rfl := resType_integer isOp isRes
  obtain ⟨rfl, preserved⟩ := each own source c' isOp shape
  rw [evalExpr]
  exact preserved.castTo scalar

private theorem getIntType_opType {j : IntegerType} {it : Coq.IntType}
    (isInt : getIntType ctx j = .ok it) :
    opTypeOfIntType ctx.impl j = .ok (.int it) := by
  rw [getIntType] at isInt
  obtain ⟨it', translated, result⟩ := bind_eq_ok.mp isInt
  rw [opTypeOfIntType, translated]
  cases it' with
  | none => cases result
  | some it' =>
      cases result
      rfl

private theorem translateConstant_integer {own : Coq.OpType} {n : IntegerConstant} {v : Coq.Value}
    (translated : translateConstant ctx (some own) (.integer n) = .ok v) :
    ∃ text fixedTy it, integerConstantToString ctx n = .ok (text, fixedTy) ∧ own = .int it ∧
      v = .int text it ∧ ∀ it' ∈ fixedTy, it' = it := by
  rw [translateConstant] at translated
  obtain ⟨⟨text, fixedTy⟩, isText, result⟩ := bind_eq_ok.mp translated
  cases own with
  | int it =>
      cases fixedTy with
      | none =>
          cases result
          exact ⟨text, none, it, isText, rfl, rfl, nofun⟩
      | some it' =>
          simp only at result
          split at result
          · rename_i same
            cases result
            cases same
            exact ⟨text, some it, it, isText, rfl, rfl,
              fun it' inside => (Option.some.inj inside).symm⟩
          · cases result
  | bool | ptr l | struct name ots | untyped l =>
      cases fixedTy with
      | none => cases result
      | some it' => cases result

private theorem IntegerExpr.exists_opType {lval : Bool} {goal : Option Coq.OpType}
    {c : Coq.Expr} {e : Expr}
    (expr : IntegerExpr ctx vars i e) (runs : ExprRuns ctx lval goal e c) :
    ∃ ot, opTypeOfIntType ctx.impl i = .ok ot := by
  obtain ⟨tc, node⟩ := e
  obtain ⟨resTy, c', source, isRes, -, -⟩ := runs.shape
  obtain rfl : tc = .rvalue (.integer i) := expr.tcOf_eq
  rw [resType, cTypeOfTypeCat, opTypeOpt] at isRes
  obtain ⟨ot, isOp, -⟩ := map_eq_ok.mp isRes
  exact ⟨ot, isOp⟩

private theorem castLval_false (fromTy toTy : Coq.OpType) : castLval false fromTy toTy = false := by
  unfold castLval
  split
  · rfl
  · rfl

/-- The translation preserves the values of integer expressions. -/
theorem IntegerExpr.preserves (conversions : Conversions ctx)
    (placed : VarsPlaced ctx env vars place locs) {e : Expr} (expr : IntegerExpr ctx vars i e) :
    Preserves env (VarsHeld ctx env vars place) locs ctx (valuesOf vars) i e := by
  induction expr with
  | @const i n fits =>
      apply preserves_of_node
      intro own source c isOp shape
      cases shape with
      | const translated =>
          obtain ⟨text, fixedTy, it, isText, rfl, rfl, -⟩ :=
            translateConstant_integer translated
          cases isText
          refine ⟨rfl, preserved_val (readInteger_toString fits.1) (fits.2 it isOp) ?_⟩
          rw [evalNode]
  | @constMax i j =>
      apply preserves_of_node
      intro own source c isOp shape
      cases shape with
      | const translated =>
          obtain ⟨text, fixedTy, it, isText, rfl, rfl, fixed⟩ :=
            translateConstant_integer translated
          obtain ⟨it', isInt, same⟩ := bind_eq_ok.mp isText
          cases same
          obtain rfl := fixed it' rfl
          refine ⟨rfl, preserved_val (readInteger_max it') ⟨minInt_le_maxInt _, le_rfl⟩ ?_⟩
          rw [evalNode, scalarType_integer (getIntType_opType isInt)]
  | @constMin i j =>
      apply preserves_of_node
      intro own source c isOp shape
      cases shape with
      | const translated =>
          obtain ⟨text, fixedTy, it, isText, rfl, rfl, fixed⟩ :=
            translateConstant_integer translated
          obtain ⟨it', isInt, same⟩ := bind_eq_ok.mp isText
          cases same
          obtain rfl := fixed it' rfl
          refine ⟨rfl, preserved_val (readInteger_min it') ⟨le_rfl, minInt_le_maxInt _⟩ ?_⟩
          rw [evalNode, scalarType_integer (getIntType_opType isInt)]
  | @read i s x isVar type =>
      apply preserves_of_node
      intro own source c isOp shape
      cases shape with
      | rvalueCompound literal => cases literal
      | rvalue notLiteral isType object =>
          obtain rfl := exprRuns_ident object
          have isType' := opTypeOf_unatomic type isType
          cases isOp.symm.trans isType'
          refine ⟨rfl, ?_⟩
          have isValue : valuesOf vars (symToStr s) = some x.value := by
            rw [valuesOf, isVar, Option.map_some]
          simp only [evalNode, isValue]
          exact preserved_use placed isVar isType
  | @plus i e operand promoted inductionHypothesis =>
      apply preserves_of_node
      intro own source c isOp shape
      cases shape with
      | plus run =>
          refine ⟨rfl, ?_⟩
          rw [evalNode]
          exact inductionHypothesis own none c isOp nofun run
  | @minus i e operand promoted inductionHypothesis =>
      apply preserves_of_node
      intro own source c isOp shape
      cases shape with
      | minus isType run =>
          cases isOp.symm.trans (operand.opType isType)
          obtain ⟨it, rfl⟩ := promoted_int conversions promoted isOp
          refine ⟨rfl, ?_⟩
          rw [evalNode, scalarType_integer isOp]
          exact preserved_neg (inductionHypothesis (.int it) none _ isOp nofun run)
  | @bnot i e operand promoted inductionHypothesis =>
      apply preserves_of_node
      intro own source c isOp shape
      cases shape with
      | bnot isType run =>
          cases isOp.symm.trans (operand.opType isType)
          obtain ⟨it, rfl⟩ := promoted_int conversions promoted isOp
          refine ⟨rfl, ?_⟩
          rw [evalNode, scalarType_integer isOp]
          exact preserved_bnot (inductionHypothesis (.int it) none _ isOp nofun run)
  | @arithmetic i j k op e1 e2 left right type leftHypothesis rightHypothesis =>
      apply preserves_of_node
      intro own source c isOp shape
      cases shape with
      | binary isOp1 isOp2 operands run1 run2 =>
          have isOp1 := left.opType isOp1
          have isOp2 := right.opType isOp2
          have isResult : opTypeOpt ctx.impl (compoundType ctx (.integer i) (.integer j) op)
              = .ok (some own) := by
            rw [type, opTypeOpt, isOp]
            rfl
          obtain ⟨it, rfl⟩ := compoundType_int conversions isResult
          rw [operandTypes_arithmetic (isIntOrBool_intType isOp1) (isIntOrBool_intType isOp2)]
            at operands
          cases operands
          refine ⟨rfl, ?_⟩
          rw [evalNode, left.typeOf_eq, right.typeOf_eq, scalarType_integer isOp,
            scalarType_integer isOp1, scalarType_integer isOp2]
          exact preserved_arithmetic
            (leftHypothesis _ (some (.int it)) _ isOp1 (fun _ isGoal => by cases isGoal; rfl) run1)
            (rightHypothesis _ (some (.int it)) _ isOp2 (fun _ isGoal => by cases isGoal; rfl) run2)
  | @logical i j op e1 e2 isLogical left right leftHypothesis rightHypothesis =>
      apply preserves_of_node
      intro own source c isOp shape
      cases conversions.int.symm.trans isOp
      cases shape with
      | binary isOp1 isOp2 operands run1 run2 =>
          have isOp1 := left.opType isOp1
          have isOp2 := right.opType isOp2
          obtain ⟨it, rfl, rfl, common⟩ :=
            operandTypes_logical conversions isLogical left.typeOf_eq right.typeOf_eq
              (isIntOrBool_intType isOp1) (isIntOrBool_intType isOp2) operands
          have preserved1 :=
            leftHypothesis _ (some (.int it)) _ isOp1 (fun _ isGoal => by cases isGoal; rfl) run1
          have preserved2 :=
            rightHypothesis _ (some (.int it)) _ isOp2 (fun _ isGoal => by cases isGoal; rfl) run2
          refine ⟨rfl, ?_⟩
          rcases isLogical_cases isLogical with rfl | rfl | ⟨cop, isComparison⟩
          · rw [evalNode]
            exact preserved_and preserved1 preserved2
          · rw [evalNode]
            exact preserved_or preserved1 preserved2
          · rw [evalNode_comparison isComparison, common, left.typeOf_eq, right.typeOf_eq,
              scalarType_integer isOp1, scalarType_integer isOp2]
            exact preserved_comparison isComparison preserved1 preserved2
  | @cond i j k m e1 e2 e3 condition first second type conditionHypothesis firstHypothesis
      secondHypothesis =>
      apply preserves_of_node
      intro own source c isOp shape
      cases shape with
      | rcMacro isMacro =>
          rw [first.not_annot.1, Bool.and_false] at isMacro
          cases isMacro
      | annotExpr notMacro isAnnot =>
          rw [first.not_annot.2, Bool.and_false] at isAnnot
          cases isAnnot
      | cond notMacro notAnnot isOp1 run1 run2 run3 =>
          have isOp1 := condition.opType isOp1
          obtain ⟨own2, isOp2⟩ := first.exists_opType run2
          obtain ⟨own3, isOp3⟩ := second.exists_opType run3
          have scalar : ∀ ot ∈ some own, isIntOrBool ot = true := fun _ isGoal => by
            cases isGoal
            exact isIntOrBool_intType isOp
          refine ⟨rfl, ?_⟩
          rw [evalNode, first.typeOf_eq, second.typeOf_eq, scalarType_integer isOp,
            scalarType_integer isOp2, scalarType_integer isOp3]
          exact preserved_ifE (conditionHypothesis _ none _ isOp1 nofun run1)
            (firstHypothesis _ _ _ isOp2 scalar run2).converted
            (secondHypothesis _ _ _ isOp3 scalar run3).converted
  | @cast i j e operand inductionHypothesis =>
      apply preserves_of_node
      intro own source c isOp shape
      cases shape with
      | null isNull => cases isNull
      | cast notNull isFrom isTo run =>
          have isFrom := operand.opType isFrom
          rw [opTypeOf, opTypeOfWith] at isTo
          cases isOp.symm.trans isTo
          rw [castLval_false] at run
          refine ⟨rfl, ?_⟩
          rw [evalNode, operand.typeOf_eq, scalarType_integer isOp, scalarType_integer isFrom]
          exact ((inductionHypothesis _ none _ isFrom nofun run).unOp_cast
            (isIntOrBool_intType isOp)).converted

/-- A thread that evaluates a translated expression, while all threads leave the values of its
variables as they are, ends in an encoding of C's value, converted to the goal type, unless C
leaves a remainder that the expression evaluates undefined. -/
theorem translateExpr_preserves (conversions : Conversions ctx) {e : Expr}
    (expr : IntegerExpr ctx vars i e) {own : Coq.OpType} {goal : Option Coq.OpType}
    (isOp : opTypeOfIntType ctx.impl i = .ok own) (scalar : ∀ ot ∈ goal, isIntOrBool ot = true)
    {used used' : Used} {c : Coq.Expr} {ce : Caesium.Expr}
    (translated : translateExpr ctx false goal e used = .ok (c, used'))
    (denoted : denoteExpr env c = .ok ce) (placed : VarsPlaced ctx env vars place locs) {j : Nat}
    {cfg cfg' : EctxiLanguage.Config Caesium.RuntimeExpr Caesium.State} {v : Caesium.Val}
    (start : VarsHeld ctx env vars place cfg.2)
    (run : Relation.ReflTransGen
      (fun a b => VarsHeld ctx env vars place b.2 ∧ Caesium.cLang.PoolStep a b) cfg cfg')
    (thread : cfg.1[j]? = some (Caesium.toRtexpr (Caesium.substL locs ce)))
    (thread' : cfg'.1[j]? = some (Caesium.ofVal v)) :
    evalExpr ctx (valuesOf vars) e = .error .remainder ∨
      ∃ n m, evalExpr ctx (valuesOf vars) e = .ok n ∧
        convert (some own) (some (goal.getD own)) n = .ok m ∧ Encodes (goal.getD own) m v := by
  have evaluates : Caesium.Evaluates (VarsHeld ctx env vars place) (Caesium.substL locs ce) cfg.2 v
      cfg'.2 := ⟨start, EctxiLanguage.stepsIn_of_pool run thread thread'⟩
  refine Or.imp id ?_ (expr.preserves conversions placed own goal c isOp scalar
    ⟨_, _, translated⟩ ce cfg.2 v cfg'.2 denoted evaluates)
  rintro ⟨n, isValue, ⟨w, before⟩, after⟩
  exact ⟨n, _, isValue, before.convert after, after⟩

end

/-! ## A run -/

/-- `b + 1` for a variable `b` of type `unsigned char`. -/
def nextByte : Expr :=
  .annotated (.rvalue (.integer (.signed .int)))
    (.binary
      (.annotated (.rvalue (.integer (.unsigned .ichar)))
        (.rvalue (.annotated (.lvalue (.integer (.unsigned .ichar))) (.ident ⟨1, "b"⟩))))
      (.arithmetic .add) (intConst (.signed .int) 1))

def byteVars : String → Option Variable := fun _ => some ⟨.integer (.unsigned .ichar), 0⟩

/-- All globals are the shared byte. -/
def byteEnv : CodeEnv := ⟨fun _ => none, fun _ => none, fun _ => some Caesium.sharedLoc, false⟩

private theorem nextByte_integer :
    IntegerExpr (lp64Ctx [] []) byteVars (.signed .int) nextByte := by
  have operand : IntegerExpr (lp64Ctx [] []) byteVars (.unsigned .ichar)
      (.annotated (.rvalue (.integer (.unsigned .ichar)))
        (.rvalue (.annotated (.lvalue (.integer (.unsigned .ichar))) (.ident ⟨1, "b"⟩)))) :=
    .read (x := ⟨.integer (.unsigned .ichar), 0⟩) rfl rfl
  refine .arithmetic (j := .signed .int) operand (.const ⟨by decide, fun it isOp => ?_⟩) rfl
  cases isOp
  decide

private theorem byteVars_held {σ : Caesium.State} {lk : Caesium.LockState}
    (cell : σ.stHeap.hsHeap 1 = some ⟨3, lk, .mByte Caesium.byte0 none⟩) :
    VarsHeld (lp64Ctx [] []) byteEnv byteVars (fun _ => Caesium.sharedLoc) σ := by
  intro x var isVar
  cases isVar
  have aligned :
      Caesium.hasLayoutLoc Caesium.sharedLoc (Caesium.OpType.intOp Caesium.u8).otLayout := by
    decide
  refine ⟨.int (.i8 false), .intOp Caesium.u8, [.mByte Caesium.byte0 none], fun _ => True, rfl,
    rfl, ⟨⟨3, rfl⟩, aligned, rfl, ⟨3, lk, cell, rfl, trivial⟩, trivial⟩, ?_⟩
  show Caesium.valToZ _ _ = some 0
  decide

/-- The byte after one half of a load. -/
def byteAfter (o : Caesium.Order) (σ : Caesium.State) : Caesium.State :=
  Caesium.heapFmap
    (Caesium.heapUpd Caesium.sharedLoc [.mByte Caesium.byte0 none] (Caesium.derefEndSt o)) σ

private theorem byte_load {o : Caesium.Order} {n : Nat} {σ : Caesium.State}
    (cell : σ.stHeap.hsHeap 1 = some ⟨3, .rSt n, .mByte Caesium.byte0 none⟩)
    (starts : Caesium.derefStartSt o (.rSt n)) :
    Caesium.ExprStep
      (.deref o (.intOp Caesium.u8) true (.val (Caesium.valOfLoc Caesium.sharedLoc))) σ
      (Caesium.toRtexpr (Caesium.derefEndExpr o (.intOp Caesium.u8) true
        (Caesium.valOfLoc Caesium.sharedLoc) [.mByte Caesium.byte0 none] σ)) (byteAfter o σ) :=
  .derefS (Caesium.valToLoc_valOfLoc Caesium.sharedLoc)
    ⟨⟨3, rfl⟩, by decide, rfl, ⟨3, .rSt n, cell, rfl, starts⟩, trivial⟩

private theorem alone_step (K : List Caesium.LangEctx) {e e' : Caesium.RuntimeExpr}
    {σ σ' : Caesium.State} (step : Caesium.RuntimeStep e σ e' σ') :
    Caesium.cLang.PoolStep ([Caesium.cLang.fill K e], σ) ([Caesium.cLang.fill K e'], σ') :=
  ⟨0, _, _, rfl, .ectx K step, rfl⟩

def nextByteContext : List Caesium.LangEctx :=
  [.exprCtx (.binOpLCtx .addOp (.intOp Caesium.i32) (.intOp Caesium.i32)
      (Caesium.toRtexpr (.val (Caesium.i2v 1 Caesium.i32)))),
    .exprCtx (.unOpCtx (.castOp (.intOp Caesium.i32)) (.intOp Caesium.u8))]

/-- The load, the cast of what is loaded, and the addition. -/
theorem nextByte_run :
    Relation.ReflTransGen
      (fun a b => VarsHeld (lp64Ctx [] []) byteEnv byteVars (fun _ => Caesium.sharedLoc) b.2 ∧
        Caesium.cLang.PoolStep a b)
      ([Caesium.cLang.fill nextByteContext
        (Caesium.toRtexpr (.deref .na1Ord (.intOp Caesium.u8) true
        (.val (Caesium.valOfLoc Caesium.sharedLoc))))], Caesium.sharedByte)
      ([Caesium.ofVal (Caesium.i2v 1 Caesium.i32)],
        byteAfter .na2Ord (byteAfter .na1Ord Caesium.sharedByte)) := by
  have first := byte_load (o := .na1Ord) (n := 0) (σ := Caesium.sharedByte) rfl ⟨0, rfl⟩
  have second := byte_load (o := .na2Ord) (n := 1) (σ := byteAfter .na1Ord Caesium.sharedByte) rfl
    ⟨0, rfl⟩
  have cast : Caesium.ExprStep (.unOp (.castOp (.intOp Caesium.i32)) (.intOp Caesium.u8)
      (.val [.mByte Caesium.byte0 none])) (byteAfter .na2Ord (byteAfter .na1Ord Caesium.sharedByte))
      (Caesium.toRtexpr (.val (Caesium.i2v 0 Caesium.i32)))
      (byteAfter .na2Ord (byteAfter .na1Ord Caesium.sharedByte)) :=
    .unOpS (.castOpII (i := 0) (by decide) (by decide))
  have zero : Caesium.valToZ (Caesium.i2v 0 Caesium.i32) Caesium.i32 = some 0 := by decide
  have one : Caesium.valToZ (Caesium.i2v 1 Caesium.i32) Caesium.i32 = some 1 := by decide
  have add : Caesium.ExprStep (.binOp .addOp (.intOp Caesium.i32) (.intOp Caesium.i32)
      (.val (Caesium.i2v 0 Caesium.i32)) (.val (Caesium.i2v 1 Caesium.i32)))
      (byteAfter .na2Ord (byteAfter .na1Ord Caesium.sharedByte))
      (Caesium.toRtexpr (.val (Caesium.i2v 1 Caesium.i32)))
      (byteAfter .na2Ord (byteAfter .na1Ord Caesium.sharedByte)) :=
    .binOpS (.arithOpII (n := 1) rfl zero one (by decide))
  refine .head ⟨byteVars_held rfl, alone_step nextByteContext (.exprStep first)⟩ ?_
  refine .head ⟨byteVars_held rfl, alone_step nextByteContext (.exprStep second)⟩ ?_
  refine .head ⟨byteVars_held rfl, alone_step (nextByteContext.take 1) (.exprStep cast)⟩ ?_
  exact .single ⟨byteVars_held rfl, alone_step [] (.exprStep add)⟩

theorem translateExpr_preserves_nextByte :
    ∃ n m, evalExpr (lp64Ctx [] []) (valuesOf byteVars) nextByte = .ok n ∧
      convert (some (.int (.i32 true))) (some (.int (.i32 true))) n = .ok m ∧
        Encodes (.int (.i32 true)) m (Caesium.i2v 1 Caesium.i32) := by
  have isValue : evalExpr (lp64Ctx [] []) (valuesOf byteVars) nextByte = .ok 1 := rfl
  have translated : translateExpr (lp64Ctx [] []) false none nextByte ⟨[], []⟩ =
      .ok (_, ⟨["b"], []⟩) := rfl
  have placed : VarsPlaced (lp64Ctx [] []) byteEnv byteVars (fun _ => Caesium.sharedLoc) [] := by
    intro x var isVar
    rfl
  have scalar : ∀ ot ∈ (none : Option Coq.OpType), isIntOrBool ot = true := nofun
  have preserved := translateExpr_preserves (lp64_conversions [] []) nextByte_integer rfl scalar
    translated rfl placed (byteVars_held rfl) nextByte_run (j := 0) rfl rfl
  exact preserved.resolve_left (by rw [isValue]; simp)

end RefinedC.Frontend
