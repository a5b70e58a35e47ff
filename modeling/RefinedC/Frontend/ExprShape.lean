import RefinedC.Frontend.TranslateExpr

/-!
Successful translations of expressions.

Owns: what a successful run of `translate_expr` and `translate_call` has done, as
relations between the source and the emitted expression. The used globals and
functions are left out of the relations: no emitted expression depends on them.

Results about translated expressions go by recursion on the source and invert one
node at a time with `NodeRuns.shape`; they do not run the translation again.
-/

namespace RefinedC.Frontend

open Library

/-! ## Runs -/

def ExprRuns (ctx : Ctx) (lval : Bool) (goal : Option Coq.OpType) (e : Expr) (c : Coq.Expr) :
    Prop :=
  ∃ used used', translateExpr ctx lval goal e used = .ok (c, used')

def NodeRuns (ctx : Ctx) (lval : Bool) (resTy : Option Coq.OpType) (node : ExprNode) (c : Coq.Expr)
    (source : Option Coq.OpType) : Prop :=
  ∃ used used', translateNode ctx lval resTy node used = .ok ((c, source), used')

/-- Arguments from index `i` on. -/
inductive ArgsRun (ctx : Ctx) (params : List CType) :
    Nat → List Expr → List Coq.Expr → Prop where
  | nil {i : Nat} : ArgsRun ctx params i [] []
  | cons {i : Nat} {ty : CType} {goal : Option Coq.OpType} {e : Expr} {es : List Expr}
      {c : Coq.Expr} {cs : List Coq.Expr} (param : nthType params i = .ok ty)
      (isGoal : argGoal ctx ty = .ok goal) (arg : ExprRuns ctx false goal e c)
      (rest : ArgsRun ctx params (i + 1) es cs) : ArgsRun ctx params i (e :: es) (c :: cs)

/-- Members of a struct initialiser. -/
inductive FieldsRun (ctx : Ctx) (lval : Bool) (fieldTypes : List (String × Coq.OpType)) :
    List String → List (Option Expr) → List String → List Coq.Expr → Prop where
  | nilNames {es : List (Option Expr)} : FieldsRun ctx lval fieldTypes [] es [] []
  | nilFields {names : List String} : FieldsRun ctx lval fieldTypes names [] [] []
  | absent {name : String} {names ids : List String} {es : List (Option Expr)}
      {cs : List Coq.Expr} (rest : FieldsRun ctx lval fieldTypes names es ids cs) :
      FieldsRun ctx lval fieldTypes (name :: names) (none :: es) ids cs
  | present {name : String} {names ids : List String} {e : Expr} {es : List (Option Expr)}
      {c : Coq.Expr} {cs : List Coq.Expr} {ot : Coq.OpType}
      (isField : fieldTypes.lookup name = some ot) (field : ExprRuns ctx lval (some ot) e c)
      (rest : FieldsRun ctx lval fieldTypes names es ids cs) :
      FieldsRun ctx lval fieldTypes (name :: names) (some e :: es) (name :: ids) (c :: cs)

/-- Pieces of a macro after its name. -/
inductive PiecesRun (ctx : Ctx) (lval : Bool) :
    List MacroAnnotArg → List String → List Coq.Expr → Prop where
  | last {piece : MacroAnnotArg} : PiecesRun ctx lval [piece] [] []
  | arg {s : String} {pieces : List MacroAnnotArg} {args : List String} {cs : List Coq.Expr}
      (rest : PiecesRun ctx lval pieces args cs) :
      PiecesRun ctx lval (.string "ARG" :: .string s :: pieces) (s :: args) cs
  | expr {e : Expr} {c : Coq.Expr} {pieces : List MacroAnnotArg} {args : List String}
      {cs : List Coq.Expr} (piece : ExprRuns ctx lval none e c)
      (rest : PiecesRun ctx lval pieces args cs) :
      PiecesRun ctx lval (.string "EXPR" :: .expr e :: pieces) args (c :: cs)

/-- Calls of a builtin that are translated. -/
inductive BuiltinRuns (ctx : Ctx) :
    CallPlace → Bool → List Expr → Builtin → CallRes → Prop where
  | atomicStore {lval : Bool} {a1 a2 a3 : Expr} {ot : Coq.OpType} {c1 c2 : Coq.Expr}
      (object : ptrOpTypeOf ctx a1 = .ok ot) (left : ExprRuns ctx true none a1 (.addrOf c1))
      (right : ExprRuns ctx false (some ot) a2 c2) :
      BuiltinRuns ctx .inStmt lval [a1, a2, a3] .atomicStore (.atomicStore ot c1 c2)
  | atomicLoad {lval : Bool} {a1 a2 : Expr} {ot : Coq.OpType} {c1 : Coq.Expr}
      (object : ptrOpTypeOf ctx a1 = .ok ot) (address : ExprRuns ctx true none a1 (.addrOf c1)) :
      BuiltinRuns ctx .inExpr lval [a1, a2] .atomicLoad
        (.atomicExpr (if lval then .deref true ot c1 else .use true ot c1))
  | compareExchangeStrong {place : CallPlace} {lval : Bool} {a1 a2 a3 a4 a5 : Expr}
      {ot : Coq.OpType} {c1 c2 c3 : Coq.Expr} (object : ptrOpTypeOf ctx a1 = .ok ot)
      (first : ExprRuns ctx lval none a1 c1) (second : ExprRuns ctx lval none a2 c2)
      (third : ExprRuns ctx lval (some ot) a3 c3) :
      BuiltinRuns ctx place lval [a1, a2, a3, a4, a5] .atomicCompareExchangeStrong
        (.atomicExpr (.cas ot c1 c2 c3))
  | copyAllocId {place : CallPlace} {a1 a2 : Expr} {ot : Coq.OpType} {c1 c2 : Coq.Expr}
      (address : opTypeOf ctx.impl ctx.tags (typeOf a1) = .ok ot)
      (first : ExprRuns ctx false none a1 c1) (second : ExprRuns ctx false none a2 c2) :
      BuiltinRuns ctx place false [a1, a2] .copyAllocId (.atomicExpr (.copyAID ot c1 c2))

/-- Function expressions that are not looked through. -/
def isCallee : ExprNode → Bool
  | .functionDecay _ | .ident _ | .builtin _ => false
  | _ => true

inductive CallRuns (ctx : Ctx) (place : CallPlace) (lval : Bool) (args : List Expr) :
    Expr → CallRes → Prop where
  | decay {tc : TypeCat} {e : Expr} {r : CallRes} (callee : CallRuns ctx place lval args e r) :
      CallRuns ctx place lval args (.annotated tc (.functionDecay e)) r
  | direct {tc : TypeCat} {f : Sym} {decl : FunDecl} {cs : List Coq.Expr}
      (found : ctx.funDecls.lookup (symToStr f) = some decl)
      (arguments : ArgsRun ctx decl.params 0 args cs) :
      CallRuns ctx place lval args (.annotated tc (.ident f))
        (.simple decl.ret (.var (some (symToStr f)) true) (cs.mapIdx (annotate decl.annotArgs)))
  | builtin {tc : TypeCat} {b : Builtin} {r : CallRes}
      (call : BuiltinRuns ctx place lval args b r) :
      CallRuns ctx place lval args (.annotated tc (.builtin b)) r
  | indirect {tc : TypeCat} {node : ExprNode} {ret : CType} {params : List CType}
      {resTy source : Option Coq.OpType} {c : Coq.Expr} {cs : List Coq.Expr}
      (plain : isCallee node = true)
      (isFunction : getFunctionType (cTypeOfTypeCat tc) = .ok (ret, params))
      (res : resType ctx tc = .ok resTy) (callee : NodeRuns ctx false resTy node c source)
      (arguments : ArgsRun ctx params 0 args cs) :
      CallRuns ctx place lval args (.annotated tc node) (.simple ret c cs)

/-- What the call of an expression is emitted as. -/
def CallRes.asExpr (lval : Bool) : CallRes → Option Coq.Expr
  | .simple ret c cs => some (if lval then .lValue (.call ret c cs) else .call ret c cs)
  | .atomicExpr c => some c
  | .atomicStore _ _ _ => none

/-- What a node is translated to, and the type that a cast to a goal starts from. -/
inductive NodeShape (ctx : Ctx) (lval : Bool) (resTy : Option Coq.OpType) :
    ExprNode → Coq.Expr → Option Coq.OpType → Prop where
  | address {e : Expr} {c : Coq.Expr} (operand : ExprRuns ctx true none e c) :
      NodeShape ctx lval resTy (.unary .address e) (.addrOf c) resTy
  | indirection {e : Expr} {c : Coq.Expr} (operand : ExprRuns ctx lval none e c) :
      NodeShape ctx lval resTy (.unary .indirection e) c resTy
  | plus {e : Expr} {c : Coq.Expr} (operand : ExprRuns ctx lval none e c) :
      NodeShape ctx lval resTy (.unary .plus e) c resTy
  | minus {e : Expr} {c : Coq.Expr} {ty : Coq.OpType} (isOp : opTypeOfExpr ctx e = .ok ty)
      (operand : ExprRuns ctx lval none e c) :
      NodeShape ctx lval resTy (.unary .minus e) (.unOp .neg ty c) resTy
  | bnot {e : Expr} {c : Coq.Expr} {ty : Coq.OpType} (isOp : opTypeOfExpr ctx e = .ok ty)
      (operand : ExprRuns ctx lval none e c) :
      NodeShape ctx lval resTy (.unary .bnot e) (.unOp .notInt ty c) resTy
  | binary {e1 e2 : Expr} {op : BinaryOperator} {c1 c2 : Coq.Expr} {ty1 ty2 ty1' ty2' : Coq.OpType}
      (isOp1 : opTypeOfExpr ctx e1 = .ok ty1) (isOp2 : opTypeOfExpr ctx e2 = .ok ty2)
      (operands : operandTypes ctx op e1 e2 ty1 ty2 resTy = .ok (ty1', ty2'))
      (left : ExprRuns ctx lval (some ty1') e1 c1) (right : ExprRuns ctx false (some ty2') e2 c2) :
      NodeShape ctx lval resTy (.binary e1 op e2) (.binOp (binOp op) ty1' ty2' c1 c2) resTy
  | rcMacro {e1 e2 e3 : Expr} {c3 : Coq.Expr} {piece : MacroAnnotArg} {name : String}
      {pieces : List MacroAnnotArg} {args : List String} {cs : List Coq.Expr}
      (isMacro : (isConst0 e1 && isMacroAnnot e2) = true)
      (split : macroAnnotToList e2 = piece :: .string name :: pieces)
      (arguments : PiecesRun ctx lval pieces args cs) (result : ExprRuns ctx lval none e3 c3) :
      NodeShape ctx lval resTy (.cond e1 (some e2) e3) (.rcMacro name args cs c3) resTy
  | annotExpr {e1 e2 e3 : Expr} {c3 : Coq.Expr} {name : String} {resTy3 : Option Coq.OpType}
      (notMacro : (isConst0 e1 && isMacroAnnot e2) = false)
      (isAnnot : (isConst0 e1 && isExprAnnot e2) = true)
      (res : resType ctx (tcOf e3) = .ok resTy3) (result : ExprRuns ctx lval none e3 c3) :
      NodeShape ctx lval resTy (.cond e1 (some e2) e3) (.annotExpr 1 name c3) resTy3
  | cond {e1 e2 e3 : Expr} {c1 c2 c3 : Coq.Expr} {ty : Coq.OpType}
      (notMacro : (isConst0 e1 && isMacroAnnot e2) = false)
      (notAnnot : (isConst0 e1 && isExprAnnot e2) = false) (isOp : opTypeOfExpr ctx e1 = .ok ty)
      (condition : ExprRuns ctx lval none e1 c1) (first : ExprRuns ctx lval resTy e2 c2)
      (second : ExprRuns ctx lval resTy e3 c3) :
      NodeShape ctx lval resTy (.cond e1 (some e2) e3) (.ifE ty c1 c2 c3) resTy
  | null {ty : CType} {e : Expr} (isNull : (isVoidPtr ty && isConst0 e) = true) :
      NodeShape ctx lval resTy (.cast ty e) (.val .null) resTy
  | cast {ty : CType} {e : Expr} {c : Coq.Expr} {fromTy toTy : Coq.OpType}
      (notNull : (isVoidPtr ty && isConst0 e) = false) (isFrom : opTypeOfExpr ctx e = .ok fromTy)
      (isTo : opTypeOf ctx.impl ctx.tags ty = .ok toTy)
      (operand : ExprRuns ctx (castLval lval fromTy toTy) none e c) :
      NodeShape ctx lval resTy (.cast ty e) (.unOp (.cast toTy) fromTy c) resTy
  | call {e : Expr} {es : List Expr} {r : CallRes} {c : Coq.Expr}
      (called : CallRuns ctx .inExpr lval es e r) (emitted : r.asExpr lval = some c) :
      NodeShape ctx lval resTy (.call e es) c resTy
  | offsetof {ty : CType} {member name : String} {fromUnion : Bool} :
      NodeShape ctx lval resTy (.offsetof ty member) (.offsetOf name fromUnion member) resTy
  | struct {s : Sym} {members ids : List String} {es : List (Option Expr)}
      {fieldTypes : List (String × Coq.OpType)} {cs : List Coq.Expr} (isRvalue : lval = false)
      (types : structFields ctx (symToStr s) = .ok fieldTypes)
      (fields : FieldsRun ctx lval fieldTypes members es ids cs) :
      NodeShape ctx lval resTy (.struct s members es) (.struct (symToStr s) ids cs) resTy
  | compound {ty : CType} {e : Expr} {c : Coq.Expr} (init : ExprRuns ctx lval none e c) :
      NodeShape ctx lval resTy (.compound ty e) c resTy
  | memberof {e : Expr} {c : Coq.Expr} {member name : String} {fromUnion : Bool}
      (isLvalue : lval = true) (object : ExprRuns ctx lval none e c) :
      NodeShape ctx lval resTy (.memberof e member) (.getMember c name fromUnion member) resTy
  | memberofptr {e : Expr} {c : Coq.Expr} {member name : String} {fromUnion : Bool}
      (object : ExprRuns ctx lval none e c) :
      NodeShape ctx lval resTy (.memberofptr e member) (.getMember c name fromUnion member) resTy
  | const {constant : Constant} {v : Coq.Value}
      (value : translateConstant ctx resTy constant = .ok v) :
      NodeShape ctx lval resTy (.const constant) (.val v) resTy
  | ident {s : Sym} {global : Bool} :
      NodeShape ctx lval resTy (.ident s) (.var (some (symToStr s)) global) resTy
  | sizeof {ty : CType} {l : Coq.Layout} :
      NodeShape ctx lval resTy (.sizeof ty) (.val (.sizeOf l)) resTy
  | rvalueCompound {e : Expr} {c : Coq.Expr} (literal : isCompound e = true)
      (init : ExprRuns ctx lval none e c) : NodeShape ctx lval resTy (.rvalue e) c resTy
  | rvalue {e : Expr} {c : Coq.Expr} {ty : Coq.OpType} (notLiteral : isCompound e = false)
      (isOp : opTypeOfExpr ctx e = .ok ty) (object : ExprRuns ctx true none e c) :
      NodeShape ctx lval resTy (.rvalue e)
        (if lval then .deref (ctx.isAtomic (typeOf e)) ty c
          else .use (ctx.isAtomic (typeOf e)) ty c)
        resTy
  | arrayDecayLval {e : Expr} {c : Coq.Expr} (isLvalue : lval = true)
      (array : ExprRuns ctx lval none e c) : NodeShape ctx lval resTy (.arrayDecay e) c resTy
  | arrayDecay {e : Expr} {c : Coq.Expr} (isRvalue : lval = false)
      (array : ExprRuns ctx true none e c) : NodeShape ctx lval resTy
        (.arrayDecay e) (.addrOf c) resTy
  | functionDecay {e : Expr} {s : Sym} (isIdent : stripExpr e = .ident s) :
      NodeShape ctx lval resTy (.functionDecay e) (.var (some (symToStr s)) true) resTy
  | atomic {e : Expr} {c : Coq.Expr} (operand : ExprRuns ctx lval none e c) :
      NodeShape ctx lval resTy (.atomic e) c resTy

/-! ## Lists of delayed translations -/

section

variable {ctx : Ctx} {place : CallPlace} {lval : Bool}

attribute [local simp] translateNode translateExpr

/-- A translated node, without a cast to a goal. -/
theorem NodeRuns.toExpr {tc : TypeCat} {node : ExprNode} {resTy source : Option Coq.OpType}
    {c : Coq.Expr} (runs : NodeRuns ctx lval resTy node c source)
    (res : resType ctx tc = .ok resTy) : ExprRuns ctx lval none (.annotated tc node) c := by
  obtain ⟨used, used', run⟩ := runs
  refine ⟨used, used', ?_⟩
  simp only [translateExpr, run_bind_eq_ok, run_liftResult_eq_ok, run_pure_eq_ok]
  exact ⟨resTy, _, ⟨res, rfl⟩, (c, source), _, run, rfl, rfl⟩

private theorem translateArgs_runs {params : List CType} {i : Nat} {es : List Expr}
    {cs : List Coq.Expr} {used used' : Used}
    (run : translateArgs ctx params i (delayedArgs ctx es) used = .ok (cs, used')) :
    ArgsRun ctx params i es cs := by
  induction es generalizing i used cs with
  | nil =>
      rw [delayedArgs] at run
      obtain ⟨rfl, -⟩ := run_pure_eq_ok.mp run
      exact .nil
  | cons e es inductionHypothesis =>
      simp only [delayedArgs, translateArgs, run_bind_eq_ok, run_liftResult_eq_ok,
        run_pure_eq_ok] at run
      obtain ⟨ty, _, ⟨param, rfl⟩, goal, _, ⟨isGoal, rfl⟩, c, _, translated, cs', _, rest,
        rfl, rfl⟩ := run
      exact .cons param isGoal ⟨_, _, translated⟩ (inductionHypothesis rest)

private theorem translateFields_runs {fieldTypes : List (String × Coq.OpType)}
    {names ids : List String} {es : List (Option Expr)} {cs : List Coq.Expr} {used used' : Used}
    (run : translateFields fieldTypes names (delayedFields ctx lval es) used =
      .ok ((ids, cs), used')) : FieldsRun ctx lval fieldTypes names es ids cs := by
  induction es generalizing names used ids cs with
  | nil =>
      rw [delayedFields] at run
      cases names with
      | nil | cons =>
          obtain ⟨same, -⟩ := run_pure_eq_ok.mp run
          cases same
          exact .nilFields
  | cons e es inductionHypothesis =>
      cases names with
      | nil =>
          cases e with
          | none | some =>
              obtain ⟨same, -⟩ := run_pure_eq_ok.mp run
              cases same
              exact .nilNames
      | cons name names =>
          cases e with
          | none =>
              rw [delayedFields, translateFields] at run
              exact .absent (inductionHypothesis run)
          | some e =>
              rw [delayedFields, translateFields] at run
              cases isField : fieldTypes.lookup name with
              | none =>
                  rw [isField] at run
                  cases run
              | some ot =>
                  simp only [isField, run_bind_eq_ok, run_pure_eq_ok] at run
                  obtain ⟨c, _, translated, ⟨ids', cs'⟩, _, rest, same, rfl⟩ := run
                  cases same
                  exact .present isField ⟨_, _, translated⟩ (inductionHypothesis rest)

theorem getMacroArg_expr {e e' : Expr} (piece : getMacroArg e = .expr e') : e' = e := by
  unfold getMacroArg at piece
  split at piece
  · split at piece <;> cases piece
    rfl
  · cases piece
    rfl

/-- The pieces of a macro are operands of its chain of comma operators. -/
theorem sizeOf_piece {e e' : Expr} (piece : .expr e' ∈ macroAnnotToList e) :
    SizeOf.sizeOf e' ≤ SizeOf.sizeOf e := by
  fun_induction macroAnnotToList e with
  | case1 tc e1 e2 inductionHypothesis =>
      simp only [Expr.annotated.sizeOf_spec, ExprNode.binary.sizeOf_spec]
      rcases List.mem_append.mp piece with inFirst | isSecond
      · have smaller := inductionHypothesis inFirst
        omega
      · rw [getMacroArg_expr (List.mem_singleton.mp isSecond).symm]
        omega
  | case2 e notComma => rw [getMacroArg_expr (List.mem_singleton.mp piece).symm]

/-- The translation that goes with a piece of a macro is the one of its expression. -/
def PieceDelayed (ctx : Ctx) (lval : Bool) (piece : MacroAnnotArg) (m : ExprM Coq.Expr) : Prop :=
  ∀ e, piece = .expr e → m = translateExpr ctx lval none e

private theorem macroTranslations_delayed (ctx : Ctx) (lval : Bool) (e : Expr) :
    List.Forall₂ (PieceDelayed ctx lval) (macroAnnotToList e) (macroTranslations ctx lval e) := by
  have single {e : Expr} :
      PieceDelayed ctx lval (getMacroArg e) (translateExpr ctx lval none e) := by
    intro e' piece
    rw [getMacroArg_expr piece]
  fun_induction macroAnnotToList e with
  | case1 tc e1 e2 inductionHypothesis =>
      rw [macroTranslations]
      exact List.rel_append inductionHypothesis (.cons single .nil)
  | case2 e notComma =>
      obtain ⟨tc, node⟩ := e
      have whole : macroTranslations ctx lval (.annotated tc node) =
          [translateExpr ctx lval none (.annotated tc node)] := by
        rw [macroTranslations, translateExpr]
        intro e1 e2 shape
        exact notComma tc e1 e2 (by rw [shape])
      rw [whole]
      exact .cons single .nil

private theorem processRest_runs {pieces : List (MacroAnnotArg × ExprM Coq.Expr)}
    (delayed : ∀ p ∈ pieces, PieceDelayed ctx lval p.1 p.2) {used used' : Used}
    {args : List String} {cs : List Coq.Expr}
    (run : processRest pieces used = .ok ((args, cs), used')) :
    PiecesRun ctx lval (pieces.map Prod.fst) args cs := by
  induction pieces using processRest.induct generalizing used used' args cs with
  | case1 piece =>
      obtain ⟨same, -⟩ := run_pure_eq_ok.mp run
      cases same
      exact .last
  | case2 m1 s m2 rest inductionHypothesis =>
      simp only [processRest, if_true, run_bind_eq_ok, run_pure_eq_ok] at run
      obtain ⟨⟨args', cs'⟩, _, others, same, rfl⟩ := run
      cases same
      exact .arg (inductionHypothesis (fun p member => delayed p (by simp [member])) others)
  | case3 kind m1 s m2 rest notArg =>
      simp only [processRest, notArg, if_false] at run
      cases run
  | case4 m1 e m2 rest inductionHypothesis =>
      simp only [processRest, if_true, run_bind_eq_ok, run_pure_eq_ok] at run
      obtain ⟨⟨args', cs'⟩, _, others, c, _, translated, same, rfl⟩ := run
      cases same
      have isExpr : m2 = translateExpr ctx lval none e := delayed (.expr e, m2) (by simp) e rfl
      rw [isExpr] at translated
      exact .expr ⟨_, _, translated⟩
        (inductionHypothesis (fun p member => delayed p (by simp [member])) others)
  | case5 kind m1 e m2 rest notExpr =>
      simp only [processRest, notExpr, if_false] at run
      cases run
  | case6 pieces notSingle notArg notExpr =>
      rw [processRest] at run
      · cases run
      · exact notSingle
      · exact notArg
      · exact notExpr

/-- The pieces of a macro, together with their delayed translations. -/
theorem macroZip_runs {e : Expr} {first second : MacroAnnotArg × ExprM Coq.Expr}
    {rest : List (MacroAnnotArg × ExprM Coq.Expr)} {used used' : Used} {args : List String}
    {cs : List Coq.Expr}
    (pieces : (macroAnnotToList e).zip (macroTranslations ctx lval e) = first :: second :: rest)
    (run : processRest rest used = .ok ((args, cs), used')) :
    macroAnnotToList e = first.1 :: second.1 :: rest.map Prod.fst ∧
      PiecesRun ctx lval (rest.map Prod.fst) args cs := by
  have delayed := macroTranslations_delayed ctx lval e
  constructor
  · have all := List.map_fst_zip (Nat.le_of_eq delayed.length_eq)
    rw [pieces] at all
    exact all.symm
  · refine processRest_runs ?_ run
    intro p member
    have inZip : (p.1, p.2) ∈ (macroAnnotToList e).zip (macroTranslations ctx lval e) := by
      rw [pieces]
      simp [member]
    exact List.forall₂_zip delayed inZip

/-! ## Calls -/

private theorem addressOperand_eq_ok {msg : String} {c c' : Coq.Expr}
    (address : addressOperand msg c = .ok c') : c = .addrOf c' := by
  unfold addressOperand at address
  split at address <;> cases address
  rfl

private theorem atomicStore_runs {args : List Expr} {r : CallRes} {used used' : Used}
    (run : atomicStore ctx place (delayedArgs ctx args) used = .ok (r, used')) :
    BuiltinRuns ctx place lval args .atomicStore r := by
  match args, run with
  | [a1, a2, a3], run =>
      simp only [delayedArgs, atomicStore, run_bind_eq_ok, run_liftResult_eq_ok] at run
      obtain ⟨ot, _, ⟨object, rfl⟩, c1, _, left, c2, _, right, _, _, ⟨-, rfl⟩, _, _,
        ⟨-, rfl⟩, placed⟩ := run
      cases place with
      | inExpr => cases placed
      | inStmt =>
          simp only [run_bind_eq_ok, run_liftResult_eq_ok, run_pure_eq_ok] at placed
          obtain ⟨c1', _, ⟨address, rfl⟩, rfl, -⟩ := placed
          rw [addressOperand_eq_ok address] at left
          exact .atomicStore object ⟨_, _, left⟩ ⟨_, _, right⟩
  | [], run | [_], run | [_, _], run | _ :: _ :: _ :: _ :: _, run => cases run

private theorem atomicLoad_runs {args : List Expr} {r : CallRes} {used used' : Used}
    (run : atomicLoad ctx place lval (delayedArgs ctx args) used = .ok (r, used')) :
    BuiltinRuns ctx place lval args .atomicLoad r := by
  match args, run with
  | [a1, a2], run =>
      simp only [delayedArgs, atomicLoad, run_bind_eq_ok, run_liftResult_eq_ok] at run
      obtain ⟨ot, _, ⟨object, rfl⟩, c1, _, operand, _, _, ⟨-, rfl⟩, _, _,
          ⟨-, rfl⟩, placed⟩ := run
      cases place with
      | inStmt => cases placed
      | inExpr =>
          simp only [run_bind_eq_ok, run_liftResult_eq_ok, run_pure_eq_ok] at placed
          obtain ⟨c1', _, ⟨address, rfl⟩, rfl, -⟩ := placed
          rw [addressOperand_eq_ok address] at operand
          exact .atomicLoad object ⟨_, _, operand⟩
  | [], run | [_], run | _ :: _ :: _ :: _, run => cases run

private theorem compareExchangeStrong_runs {args : List Expr} {r : CallRes} {used used' : Used}
    (run : compareExchangeStrong ctx lval (delayedArgs ctx args) used = .ok (r, used')) :
    BuiltinRuns ctx place lval args .atomicCompareExchangeStrong r := by
  match args, run with
  | [a1, a2, a3, a4, a5], run =>
      simp only [delayedArgs, compareExchangeStrong, run_bind_eq_ok, run_liftResult_eq_ok,
        run_pure_eq_ok] at run
      obtain ⟨ot, _, ⟨object, rfl⟩, c1, _, first, c2, _, second, c3, _, third, _,
        _, ⟨-, rfl⟩, _, _, ⟨-, rfl⟩, _, _, ⟨-, rfl⟩, rfl, -⟩ := run
      exact .compareExchangeStrong object ⟨_, _, first⟩ ⟨_, _, second⟩ ⟨_, _, third⟩
  | [], run | [_], run | [_, _], run | [_, _, _], run | [_, _, _, _], run
  | _ :: _ :: _ :: _ :: _ :: _ :: _, run => cases run

private theorem copyAllocId_runs {args : List Expr} {r : CallRes} {used used' : Used}
    (run : copyAllocId ctx lval (delayedArgs ctx args) used = .ok (r, used')) :
    BuiltinRuns ctx place lval args .copyAllocId r := by
  match args, run with
  | [a1, a2], run =>
      simp only [delayedArgs, copyAllocId, run_bind_eq_ok, run_liftResult_eq_ok] at run
      obtain ⟨ot, _, ⟨address, rfl⟩, c1, _, first, c2, _, second, placed⟩ := run
      cases lval with
      | true => cases placed
      | false =>
          simp only [Bool.false_eq_true, if_false, run_pure_eq_ok] at placed
          obtain ⟨rfl, -⟩ := placed
          exact .copyAllocId address ⟨_, _, first⟩ ⟨_, _, second⟩
  | [], run | [_], run | _ :: _ :: _ :: _, run => cases run

theorem translateBuiltin_runs {args : List Expr} {b : Builtin} {r : CallRes} {used used' : Used}
    (run : translateBuiltin ctx place lval (delayedArgs ctx args) b used = .ok (r, used')) :
    BuiltinRuns ctx place lval args b r := by
  cases b with
  | atomicStore => exact atomicStore_runs run
  | atomicLoad => exact atomicLoad_runs run
  | atomicCompareExchangeStrong => exact compareExchangeStrong_runs run
  | copyAllocId => exact copyAllocId_runs run
  | _ => cases run

private theorem translateDirectCall_runs {args : List Expr} {tc : TypeCat} {f : Sym} {r : CallRes}
    {used used' : Used}
    (run : translateDirectCall ctx f (delayedArgs ctx args) used = .ok (r, used')) :
    CallRuns ctx place lval args (.annotated tc (.ident f)) r := by
  simp only [translateDirectCall, run_bind_eq_ok] at run
  obtain ⟨_, _, -, run⟩ := run
  cases found : ctx.funDecls.lookup (symToStr f) with
  | none =>
      rw [found] at run
      cases run
  | some decl =>
      simp only [found, run_bind_eq_ok, run_pure_eq_ok] at run
      obtain ⟨cs, _, arguments, rfl, -⟩ := run
      exact .direct found (translateArgs_runs arguments)

theorem translateCall_runs {args : List Expr} {r : CallRes} :
    ∀ (e : Expr) {used used' : Used},
      translateCall ctx place lval (delayedArgs ctx args) e used = .ok (r, used') →
      CallRuns ctx place lval args e r
  | .annotated tc node, used, used', run => by
      cases node with
      | functionDecay e =>
          rw [translateCall] at run
          exact .decay (translateCall_runs e run)
      | ident f =>
          rw [translateCall] at run
          exact translateDirectCall_runs run
      | builtin b =>
          rw [translateCall] at run
          exact .builtin (translateBuiltin_runs run)
      | _ =>
          simp only [translateCall, run_bind_eq_ok, run_liftResult_eq_ok, run_pure_eq_ok] at run
          obtain ⟨⟨ret, params⟩, _, ⟨isFunction, rfl⟩, resTy, _,
            ⟨res, rfl⟩, ⟨c, source⟩, _, callee, cs, _, arguments, rfl, -⟩ := run
          exact .indirect rfl isFunction res ⟨_, _, callee⟩ (translateArgs_runs arguments)

/-! ## Nodes -/

private theorem translateNode_cond_shape {resTy source : Option Coq.OpType} {e1 e2 e3 : Expr}
    {c : Coq.Expr} (runs : NodeRuns ctx lval resTy (.cond e1 (some e2) e3) c source) :
    NodeShape ctx lval resTy (.cond e1 (some e2) e3) c source := by
  obtain ⟨used, used', run⟩ := runs
  rw [translateNode] at run
  by_cases isMacro : (isConst0 e1 && isMacroAnnot e2) = true
  · rw [if_pos isMacro] at run
    match pieces : (macroAnnotToList e2).zip (macroTranslations ctx lval e2) with
    | first :: (.string name, m) :: rest =>
        simp only [pieces, run_bind_eq_ok, run_pure_eq_ok] at run
        obtain ⟨⟨args, cs⟩, _, arguments, c3, _, result, same, -⟩ := run
        cases same
        obtain ⟨parts, arguments⟩ := macroZip_runs pieces arguments
        exact .rcMacro isMacro parts arguments ⟨_, _, result⟩
    | [] | [_] | _ :: (.expr _, _) :: _ =>
        rw [pieces] at run
        cases run
  · rw [if_neg isMacro] at run
    rw [Bool.not_eq_true] at isMacro
    by_cases isAnnot : (isConst0 e1 && isExprAnnot e2) = true
    · rw [if_pos isAnnot] at run
      match pieces : macroAnnotToList e2 with
      | first :: .string name :: rest =>
          simp only [pieces, run_bind_eq_ok, run_liftResult_eq_ok, run_pure_eq_ok] at run
          obtain ⟨resTy3, _, ⟨res, rfl⟩, c3, _, result, same, -⟩ := run
          cases same
          exact .annotExpr isMacro isAnnot res ⟨_, _, result⟩
      | [] | [_] | _ :: .expr _ :: _ =>
          rw [pieces] at run
          cases run
    · rw [if_neg isAnnot] at run
      rw [Bool.not_eq_true] at isAnnot
      simp only [run_bind_eq_ok, run_liftResult_eq_ok, run_pure_eq_ok] at run
      obtain ⟨ty, _, ⟨isOp, rfl⟩, c1, _, condition, c2, _, first, c3, _, second, same, -⟩ :=
        run
      cases same
      exact .cond isMacro isAnnot isOp ⟨_, _, condition⟩ ⟨_, _, first⟩ ⟨_, _, second⟩

private theorem translateNode_call_shape {resTy source : Option Coq.OpType}
    {e : Expr} {es : List Expr}
    {c : Coq.Expr} (runs : NodeRuns ctx lval resTy (.call e es) c source) :
    NodeShape ctx lval resTy (.call e es) c source := by
  obtain ⟨used, used', run⟩ := runs
  simp only [translateNode, run_bind_eq_ok] at run
  obtain ⟨r, _, called, run⟩ := run
  have called := translateCall_runs e called
  cases r with
  | simple ret c cs =>
      obtain ⟨same, -⟩ := run_pure_eq_ok.mp run
      cases same
      exact .call called rfl
  | atomicExpr c =>
      obtain ⟨same, -⟩ := run_pure_eq_ok.mp run
      cases same
      exact .call called rfl
  | atomicStore => cases run

private theorem translateNode_unary_shape {resTy source : Option Coq.OpType} {op : UnaryOperator}
    {e : Expr} {c : Coq.Expr} (runs : NodeRuns ctx lval resTy (.unary op e) c source) :
    NodeShape ctx lval resTy (.unary op e) c source := by
  obtain ⟨used, used', run⟩ := runs
  cases op <;>
    simp only [translateNode, run_bind_eq_ok, run_liftResult_eq_ok, run_pure_eq_ok] at run
  case address =>
    obtain ⟨c, _, operand, same, -⟩ := run
    cases same
    exact .address ⟨_, _, operand⟩
  case indirection =>
    obtain ⟨c, _, operand, same, -⟩ := run
    cases same
    exact .indirection ⟨_, _, operand⟩
  case plus =>
    obtain ⟨c, _, operand, same, -⟩ := run
    cases same
    exact .plus ⟨_, _, operand⟩
  case minus =>
    obtain ⟨ty, _, ⟨isOp, rfl⟩, c, _, operand, same, -⟩ := run
    cases same
    exact .minus isOp ⟨_, _, operand⟩
  case bnot =>
    obtain ⟨ty, _, ⟨isOp, rfl⟩, c, _, operand, same, -⟩ := run
    cases same
    exact .bnot isOp ⟨_, _, operand⟩
  case postfixIncr | postfixDecr =>
    obtain ⟨ty, _, -, c, _, -, failed⟩ := run
    cases failed

/-- What a successful translation of a node has done. -/
theorem NodeRuns.shape {resTy source : Option Coq.OpType} {node : ExprNode} {c : Coq.Expr}
    (runs : NodeRuns ctx lval resTy node c source) : NodeShape ctx lval resTy node c source := by
  cases node with
  | unary op e => exact translateNode_unary_shape runs
  | call e es => exact translateNode_call_shape runs
  | cond e1 e2 e3 =>
      cases e2 with
      | none =>
          obtain ⟨_, _, run⟩ := runs
          simp at run
      | some e2 => exact translateNode_cond_shape runs
  | binary e1 op e2 =>
      obtain ⟨used, used', run⟩ := runs
      simp only [translateNode, run_bind_eq_ok, run_liftResult_eq_ok, run_pure_eq_ok] at run
      obtain ⟨ty1, _, ⟨isOp1, rfl⟩, ty2, _, ⟨isOp2, rfl⟩, ⟨ty1', ty2'⟩, _,
        ⟨operands, rfl⟩, c1, _, left, c2, _, right, same, -⟩ := run
      cases same
      exact .binary isOp1 isOp2 operands ⟨_, _, left⟩ ⟨_, _, right⟩
  | cast ty e =>
      obtain ⟨used, used', run⟩ := runs
      rw [translateNode] at run
      by_cases isNull : (isVoidPtr ty && isConst0 e) = true
      · rw [if_pos isNull] at run
        obtain ⟨same, -⟩ := run_pure_eq_ok.mp run
        cases same
        exact .null isNull
      · rw [if_neg isNull] at run
        rw [Bool.not_eq_true] at isNull
        simp only [run_bind_eq_ok, run_liftResult_eq_ok, run_pure_eq_ok] at run
        obtain ⟨fromTy, _, ⟨isFrom, rfl⟩, toTy, _, ⟨isTo, rfl⟩, c, _,
            operand, same, -⟩ := run
        cases same
        exact .cast isNull isFrom isTo ⟨_, _, operand⟩
  | offsetof ty member =>
      obtain ⟨used, used', run⟩ := runs
      simp only [translateNode, run_bind_eq_ok, run_liftResult_eq_ok, run_pure_eq_ok] at run
      obtain ⟨_, _, -, same, -⟩ := run
      cases same
      exact .offsetof
  | struct s members es =>
      obtain ⟨used, used', run⟩ := runs
      rw [translateNode] at run
      cases lval with
      | true => cases run
      | false =>
          simp only [Bool.false_eq_true, if_false, run_bind_eq_ok, run_liftResult_eq_ok,
            run_pure_eq_ok] at run
          obtain ⟨fieldTypes, _, ⟨types, rfl⟩, ⟨ids, cs⟩, _, fields, same, -⟩ := run
          cases same
          exact .struct rfl types (translateFields_runs fields)
  | compound ty e =>
      obtain ⟨used, used', run⟩ := runs
      simp only [translateNode, run_bind_eq_ok, run_pure_eq_ok] at run
      obtain ⟨c, _, init, same, -⟩ := run
      cases same
      exact .compound ⟨_, _, init⟩
  | memberof e member =>
      obtain ⟨used, used', run⟩ := runs
      rw [translateNode] at run
      cases lval with
      | false => cases run
      | true =>
          simp only [if_true, run_bind_eq_ok, run_liftResult_eq_ok, run_pure_eq_ok] at run
          obtain ⟨_, _, ⟨-, rfl⟩, c, _, object, same, -⟩ := run
          cases same
          exact .memberof rfl ⟨_, _, object⟩
  | memberofptr e member =>
      obtain ⟨used, used', run⟩ := runs
      simp only [translateNode, run_bind_eq_ok, run_liftResult_eq_ok, run_pure_eq_ok] at run
      obtain ⟨_, _, ⟨-, rfl⟩, c, _, object, same, -⟩ := run
      cases same
      exact .memberofptr ⟨_, _, object⟩
  | const constant =>
      obtain ⟨used, used', run⟩ := runs
      simp only [translateNode, run_bind_eq_ok, run_liftResult_eq_ok, run_pure_eq_ok] at run
      obtain ⟨v, _, ⟨value, rfl⟩, same, -⟩ := run
      cases same
      exact .const value
  | ident s =>
      obtain ⟨used, used', run⟩ := runs
      rw [translateNode] at run
      by_cases isLocal : ctx.isLocal (symToStr s) = true
      · rw [if_pos isLocal] at run
        obtain ⟨same, -⟩ := run_pure_eq_ok.mp run
        cases same
        exact .ident
      · rw [if_neg isLocal, run_bind_eq_ok] at run
        obtain ⟨_, _, -, run⟩ := run
        obtain ⟨same, -⟩ := run_pure_eq_ok.mp run
        cases same
        exact .ident
  | sizeof ty =>
      obtain ⟨used, used', run⟩ := runs
      simp only [translateNode, run_bind_eq_ok, run_liftResult_eq_ok, run_pure_eq_ok] at run
      obtain ⟨l, _, -, same, -⟩ := run
      cases same
      exact .sizeof
  | rvalue e =>
      obtain ⟨used, used', run⟩ := runs
      rw [translateNode] at run
      by_cases literal : isCompound e = true
      · rw [if_pos literal] at run
        simp only [run_bind_eq_ok, run_pure_eq_ok] at run
        obtain ⟨c, _, init, same, -⟩ := run
        cases same
        exact .rvalueCompound literal ⟨_, _, init⟩
      · rw [if_neg literal] at run
        rw [Bool.not_eq_true] at literal
        simp only [run_bind_eq_ok, run_liftResult_eq_ok, run_pure_eq_ok] at run
        obtain ⟨ty, _, ⟨isOp, rfl⟩, c, _, object, same, -⟩ := run
        cases same
        exact .rvalue literal isOp ⟨_, _, object⟩
  | arrayDecay e =>
      obtain ⟨used, used', run⟩ := runs
      rw [translateNode] at run
      cases lval with
      | true =>
          simp only [if_true, run_bind_eq_ok, run_pure_eq_ok] at run
          obtain ⟨c, _, array, same, -⟩ := run
          cases same
          exact .arrayDecayLval rfl ⟨_, _, array⟩
      | false =>
          simp only [Bool.false_eq_true, if_false, run_bind_eq_ok, run_pure_eq_ok] at run
          obtain ⟨c, _, array, same, -⟩ := run
          cases same
          exact .arrayDecay rfl ⟨_, _, array⟩
  | functionDecay e =>
      obtain ⟨used, used', run⟩ := runs
      rw [translateNode] at run
      cases isIdent : stripExpr e with
      | ident s =>
          simp only [isIdent, run_bind_eq_ok, run_pure_eq_ok] at run
          obtain ⟨_, _, -, same, -⟩ := run
          cases same
          exact .functionDecay isIdent
      | _ =>
          rw [isIdent] at run
          cases run
  | atomic e =>
      obtain ⟨used, used', run⟩ := runs
      simp only [translateNode, run_bind_eq_ok, run_pure_eq_ok] at run
      obtain ⟨c, _, operand, same, -⟩ := run
      cases same
      exact .atomic ⟨_, _, operand⟩
  | _ =>
      obtain ⟨_, _, run⟩ := runs
      simp at run

/-- Induction on the size of an expression: the pieces of a macro and the function
behind a decay are not direct operands. -/
theorem Expr.sizeInduction {P : Expr → Prop}
    (step : ∀ tc node, (∀ e, SizeOf.sizeOf e < SizeOf.sizeOf node → P e) →
      P (.annotated tc node))
    (e : Expr) : P e := by
  obtain ⟨tc, node⟩ := e
  exact step tc node fun e _ => Expr.sizeInduction step e
termination_by SizeOf.sizeOf e

theorem sizeOf_lt_call {f e : Expr} {args : List Expr}
    (below : SizeOf.sizeOf e ≤ SizeOf.sizeOf f) :
    SizeOf.sizeOf e < SizeOf.sizeOf (ExprNode.call f args) := by
  simp only [ExprNode.call.sizeOf_spec]
  omega

theorem sizeOf_lt_struct {name : Sym} {members : List String} {es : List (Option Expr)} {e : Expr}
    (member : some e ∈ es) :
    SizeOf.sizeOf e < SizeOf.sizeOf (ExprNode.struct name members es) := by
  have below := List.sizeOf_lt_of_mem member
  simp only [Option.some.sizeOf_spec] at below
  simp only [ExprNode.struct.sizeOf_spec]
  omega

/-- A translated expression is its node with a cast to the goal. -/
theorem ExprRuns.shape {goal : Option Coq.OpType} {tc : TypeCat} {node : ExprNode} {c : Coq.Expr}
    (runs : ExprRuns ctx lval goal (.annotated tc node) c) :
    ∃ resTy c' source, resType ctx tc = .ok resTy ∧ NodeShape ctx lval resTy node c' source ∧
      c = castTo goal (c', source) := by
  obtain ⟨used, used', run⟩ := runs
  simp only [translateExpr, run_bind_eq_ok, run_liftResult_eq_ok, run_pure_eq_ok] at run
  obtain ⟨resTy, _, ⟨res, rfl⟩, ⟨c', source⟩, _, nodeRun, rfl, -⟩ := run
  exact ⟨resTy, c', source, res, NodeRuns.shape ⟨_, _, nodeRun⟩, rfl⟩

end

end RefinedC.Frontend
