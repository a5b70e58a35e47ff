import RefinedC.Frontend.ExprShape
import RefinedC.Frontend.Lp64
import RefinedC.Frontend.TranslateBlock

/-!
Calls in translated statements.

Source: `translate_expr`, `translate_call` and the expression statements of
`translate_block` in `frontend/ail_to_coq.ml`.

Owns: the sites of a source expression that C evaluates and that cannot be repeated
or left out (calls, calls of atomic builtins, and accesses to atomic objects), the
sites of the emitted statement, and when the two correspond one to one.

An emitted macro stands for the expression that it is checked to be equal to
(`CheckedMacroE` of `theories/caesium/notation.v`).
-/

namespace RefinedC.Frontend

open Library

/-! ## Sites of the source -/

/-- A call, or an access to an atomic object. -/
inductive Site where
  | call (f : Expr) (args : List Expr)
  | read (e : Expr)
  | write (e : Expr)

/-- The builtin that is called. -/
def builtinOf : Expr → Option Builtin
  | .annotated _ (.functionDecay e) => builtinOf e
  | .annotated _ (.builtin b) => some b
  | _ => none

/-- The arguments that are evaluated. Memory orders are not. -/
def evaluatedArgs {α : Type} (args : List α) : Option Builtin → List α
  | some .atomicStore => args.take 2
  | some .atomicLoad => args.take 1
  | some .atomicCompareExchangeStrong => args.take 3
  | _ => args

def readSites (ctx : Ctx) (e : Expr) : List Site :=
  if ctx.isAtomic (typeOf e) then [.read e] else []

/-- The value of a compound literal is its initialiser. -/
def rvalueSites (ctx : Ctx) (e : Expr) : List Site :=
  if isCompound e then [] else readSites ctx e

def writeSites (ctx : Ctx) (e : Expr) : List Site :=
  if ctx.isAtomic (typeOf e) then [.write e] else []

mutual

/-- The sites of an expression that C evaluates. -/
def Expr.sites (ctx : Ctx) : Expr → List Site
  | .annotated _ node => ExprNode.sites ctx node

def ExprNode.sites (ctx : Ctx) : ExprNode → List Site
  | .unary _ e | .cast _ e | .assert e | .compound _ e | .memberof e _ | .memberofptr e _
  | .arrayDecay e | .functionDecay e | .atomic e => e.sites ctx
  | .binary e1 _ e2 | .assign e1 e2 | .compoundAssign e1 _ e2 => e1.sites ctx ++ e2.sites ctx
  | .cond e1 (some e2) e3 =>
      if isConst0 e1 && (isMacroAnnot e2 || isExprAnnot e2) then e3.sites ctx
      else e1.sites ctx ++ e2.sites ctx ++ e3.sites ctx
  | .call f args =>
      .call f args :: (f.sites ctx ++
        (evaluatedArgs (argSites ctx args) (builtinOf f)).flatten)
  | .struct _ members es => fieldSites ctx es members
  | .rvalue e => rvalueSites ctx e ++ e.sites ctx
  | _ => []

def argSites (ctx : Ctx) : List Expr → List (List Site)
  | [] => []
  | e :: es => e.sites ctx :: argSites ctx es

/-- Sites of the members of a struct initialiser that are given. -/
def fieldSites (ctx : Ctx) : List (Option Expr) → List String → List Site
  | some e :: es, _ :: members => e.sites ctx ++ fieldSites ctx es members
  | none :: es, _ :: members => fieldSites ctx es members
  | _, _ => []

end

/-- The sites of an expression statement. The left operand of a compound assignment
and the operand of an increment are evaluated once. -/
def stmtSites (ctx : Ctx) (e : Expr) : List Site :=
  match stripExpr e with
  | .assign e1 e2 => writeSites ctx e1 ++ (e1.sites ctx ++ e2.sites ctx)
  | .compoundAssign e1 _ e2 =>
      writeSites ctx e1 ++ (e1.sites ctx ++ (rvalueSites ctx e1 ++ e2.sites ctx))
  | .unary .postfixIncr e | .unary .postfixDecr e =>
      writeSites ctx e ++ (e.sites ctx ++ readSites ctx e)
  | _ => e.sites ctx

/-! ## Sites of emitted statements -/

/-- A call or an atomic access of an emitted statement. -/
inductive EmittedSite where
  | expr (c : Coq.Expr)
  | store (ot : Coq.OpType) (c1 c2 : Coq.Expr)

mutual

def Coq.Expr.sites : Coq.Expr → List EmittedSite
  | .var _ _ | .val _ | .offsetOf _ _ _ => []
  | .unOp _ _ c | .skipE c | .addrOf c | .lValue c | .getMember c _ _ _ | .annotExpr _ _ c
  | .rcMacro _ _ _ c => c.sites
  | .binOp _ _ _ c1 c2 => c1.sites ++ c2.sites
  | .deref atomic ot c => (if atomic then [.expr (.deref atomic ot c)] else []) ++ c.sites
  | .use atomic ot c => (if atomic then [.expr (.use atomic ot c)] else []) ++ c.sites
  | .cas ot c1 c2 c3 => .expr (.cas ot c1 c2 c3) :: (c1.sites ++ (c2.sites ++ c3.sites))
  | .call ret c cs => .expr (.call ret c cs) :: (c.sites ++ Coq.exprsSites cs)
  | .ifE _ c1 c2 c3 => c1.sites ++ c2.sites ++ c3.sites
  | .struct _ _ cs => Coq.exprsSites cs
  | .copyAID ot c1 c2 => .expr (.copyAID ot c1 c2) :: (c1.sites ++ c2.sites)

def Coq.exprsSites : List Coq.Expr → List EmittedSite
  | [] => []
  | c :: cs => c.sites ++ Coq.exprsSites cs

end

private theorem sites_castTo (goal source : Option Coq.OpType) (c : Coq.Expr) :
    (castTo goal (c, source)).sites = c.sites := by
  unfold castTo
  cases goal with
  | none => rfl
  | some goalTy =>
      cases source with
      | none => rfl
      | some resTy =>
          simp only
          split
          · rfl
          · rw [Coq.Expr.sites]

private theorem sites_annotate (annotArgs : List (Nat × Nat × String)) (i : Nat) (c : Coq.Expr) :
    (annotate annotArgs i c).sites = c.sites := by
  unfold annotate
  cases annotArgs.filter fun a => a.1 == i with
  | nil => rfl
  | cons a as => rw [List.foldr_cons, Coq.Expr.sites]

private theorem exprsSites_eq_flatMap (cs : List Coq.Expr) :
    Coq.exprsSites cs = cs.flatMap Coq.Expr.sites := by
  induction cs with
  | nil => rw [Coq.exprsSites, List.flatMap_nil]
  | cons c cs inductionHypothesis =>
      rw [Coq.exprsSites, List.flatMap_cons, inductionHypothesis]

def Head.sites : Head → List EmittedSite
  | .assert _ c | .exprS c => c.sites
  | .assign atomic ot c1 c2 =>
      (if atomic then [.store ot c1 c2] else []) ++ (c1.sites ++ c2.sites)

/-! ## Correspondence -/

/-- What a call is emitted as. -/
def CallRes.site : CallRes → EmittedSite
  | .simple ret c cs => .expr (.call ret c cs)
  | .atomicExpr c => .expr c
  | .atomicStore ot c1 c2 => .store ot c1 c2

/-- An emitted site is the translation of a site of the source. -/
inductive Renders (ctx : Ctx) : Site → EmittedSite → Prop where
  | call {place : CallPlace} {lval : Bool} {f : Expr} {args : List Expr} {r : CallRes}
      (called : CallRuns ctx place lval args f r) : Renders ctx (.call f args) r.site
  | deref {e : Expr} {ot : Coq.OpType} {c : Coq.Expr} (object : ExprRuns ctx true none e c) :
      Renders ctx (.read e) (.expr (.deref true ot c))
  | use {e : Expr} {ot : Coq.OpType} {c : Coq.Expr} (object : ExprRuns ctx true none e c) :
      Renders ctx (.read e) (.expr (.use true ot c))
  | store {e : Expr} {ot : Coq.OpType} {c1 c2 : Coq.Expr} (object : ExprRuns ctx true none e c1) :
      Renders ctx (.write e) (.store ot c1 c2)

/-- A read or a write of an atomic object, or a builtin that is emitted as one. -/
def Site.isAccess : Site → Bool
  | .call f _ => builtinOf f == some .atomicLoad || builtinOf f == some .atomicStore
  | .read _ | .write _ => true

def EmittedSite.isAccess : EmittedSite → Bool
  | .expr (.deref _ _ _) | .expr (.use _ _ _) | .store _ _ _ => true
  | .expr _ => false

/-- Every site of the source is emitted exactly once, in order, and nothing else is. -/
def SameSites (ctx : Ctx) : List Site → List EmittedSite → Prop := List.Forall₂ (Renders ctx)

/-- The sites that count: all of them, or only the calls that are not accesses. -/
def counted {α : Type} (isAccess : α → Bool) (accesses : Bool) (sites : List α) : List α :=
  sites.filter fun s => accesses || !isAccess s

/-- Every counted site of the source is emitted exactly once, in order, and no other
counted site is emitted. -/
def OnceEach (ctx : Ctx) (accesses : Bool) (ss : List Site) (gs : List EmittedSite) : Prop :=
  SameSites ctx (counted Site.isAccess accesses ss) (counted EmittedSite.isAccess accesses gs)

section

variable {ctx : Ctx} {place : CallPlace} {lval : Bool}

attribute [local simp] Expr.sites ExprNode.sites Coq.Expr.sites

theorem SameSites.append {ss ss' : List Site} {gs gs' : List EmittedSite}
    (first : SameSites ctx ss gs) (second : SameSites ctx ss' gs') :
    SameSites ctx (ss ++ ss') (gs ++ gs') :=
  List.rel_append first second

private theorem exprsSites_annotated (annotArgs : List (Nat × Nat × String))
    (cs : List Coq.Expr) :
    Coq.exprsSites (cs.mapIdx (annotate annotArgs)) = Coq.exprsSites cs := by
  rw [exprsSites_eq_flatMap, exprsSites_eq_flatMap, List.flatMap, List.flatMap]
  congr 1
  apply List.ext_getElem
  · simp
  · intro i _ _
    simp [sites_annotate]

/-! ## Lists of expressions -/

/-- The translations of an expression have the sites of the expression. -/
def KeepsSites (ctx : Ctx) (e : Expr) : Prop :=
  ∀ lval goal c, ExprRuns ctx lval goal e c → SameSites ctx (e.sites ctx) c.sites

private theorem argsRun_sites {params : List CType} {i : Nat} {es : List Expr} {cs : List Coq.Expr}
    (run : ArgsRun ctx params i es cs) (keeps : ∀ e ∈ es, KeepsSites ctx e) :
    SameSites ctx (argSites ctx es).flatten (Coq.exprsSites cs) := by
  induction run with
  | nil =>
      rw [argSites, Coq.exprsSites]
      exact .nil
  | cons _ _ arg _ inductionHypothesis =>
      rw [argSites, Coq.exprsSites, List.flatten_cons]
      exact (keeps _ List.mem_cons_self _ _ _ arg).append
        (inductionHypothesis fun e member => keeps e (List.mem_cons_of_mem _ member))

private theorem fieldsRun_sites {fieldTypes : List (String × Coq.OpType)} {names ids : List String}
    {es : List (Option Expr)} {cs : List Coq.Expr}
    (run : FieldsRun ctx lval fieldTypes names es ids cs)
    (keeps : ∀ e, some e ∈ es → KeepsSites ctx e) :
    SameSites ctx (fieldSites ctx es names) (Coq.exprsSites cs) := by
  induction run with
  | @nilNames es =>
      rw [Coq.exprsSites]
      rcases es with _ | ⟨_ | e, es⟩ <;> simp only [fieldSites] <;> exact .nil
  | nilFields =>
      simp only [fieldSites, Coq.exprsSites]
      exact .nil
  | absent _ inductionHypothesis =>
      rw [fieldSites]
      exact inductionHypothesis fun e member => keeps e (List.mem_cons_of_mem _ member)
  | present _ field _ inductionHypothesis =>
      rw [fieldSites, Coq.exprsSites]
      exact (keeps _ List.mem_cons_self _ _ _ field).append
        (inductionHypothesis fun e member => keeps e (List.mem_cons_of_mem _ member))

/-! ## Calls -/

/-- Sites of the operands of an emitted call. -/
def CallRes.operands : CallRes → List EmittedSite
  | .simple _ c cs => c.sites ++ Coq.exprsSites cs
  | .atomicExpr c => c.sites.tail
  | .atomicStore _ c1 c2 => c1.sites ++ c2.sites

private theorem builtinRuns_operands {args : List Expr} {b : Builtin} {r : CallRes}
    (run : BuiltinRuns ctx place lval args b r) (keeps : ∀ e ∈ args, KeepsSites ctx e) :
    SameSites ctx (evaluatedArgs (argSites ctx args) (some b)).flatten r.operands := by
  cases run with
  | atomicStore _ left right =>
      have first := keeps _ (by simp) _ _ _ left
      have second := keeps _ (by simp) _ _ _ right
      rw [Coq.Expr.sites] at first
      simpa [argSites, evaluatedArgs, CallRes.operands] using first.append second
  | atomicLoad _ address =>
      have first := keeps _ (by simp) _ _ _ address
      rw [Coq.Expr.sites] at first
      cases lval <;> simpa [argSites, evaluatedArgs, CallRes.operands] using first
  | compareExchangeStrong _ first second third =>
      have all := (keeps _ (by simp) _ _ _ first).append
        ((keeps _ (by simp) _ _ _ second).append (keeps _ (by simp) _ _ _ third))
      simpa [argSites, evaluatedArgs, CallRes.operands] using all
  | copyAllocId _ first second =>
      have all := (keeps _ (by simp) _ _ _ first).append (keeps _ (by simp) _ _ _ second)
      simpa [argSites, evaluatedArgs, CallRes.operands] using all

theorem builtinOf_callee {tc : TypeCat} {node : ExprNode} (plain : isCallee node = true) :
    builtinOf (.annotated tc node) = none := by
  cases node <;> first | rfl | cases plain

/-- The function and the arguments of a call keep their sites. -/
theorem callRuns_operands {args : List Expr} {f : Expr} {r : CallRes}
    (run : CallRuns ctx place lval args f r) (keeps : ∀ e ∈ args, KeepsSites ctx e)
    (callee : ∀ e, SizeOf.sizeOf e ≤ SizeOf.sizeOf f → KeepsSites ctx e) :
    SameSites ctx (f.sites ctx ++ (evaluatedArgs (argSites ctx args) (builtinOf f)).flatten)
      r.operands := by
  induction run with
  | decay _ inductionHypothesis =>
      rw [Expr.sites, ExprNode.sites, builtinOf]
      refine inductionHypothesis fun e smaller => callee e ?_
      simp only [Expr.annotated.sizeOf_spec, ExprNode.functionDecay.sizeOf_spec]
      omega
  | direct _ arguments =>
      have all := argsRun_sites arguments keeps
      simpa [builtinOf, evaluatedArgs, CallRes.operands, exprsSites_annotated] using all
  | builtin call =>
      rw [Expr.sites, ExprNode.sites, builtinOf]
      exact builtinRuns_operands call keeps
      all_goals simp
  | @indirect tc node ret params resTy source c cs plain _ res calleeRun arguments =>
      rw [builtinOf_callee plain]
      exact (callee _ (Nat.le_refl _) _ _ _ (calleeRun.toExpr res)).append
        (argsRun_sites arguments keeps)

private theorem callRuns_sites {args : List Expr} {f : Expr} {r : CallRes} {c : Coq.Expr}
    (run : CallRuns ctx place lval args f r) (emitted : r.asExpr lval = some c) :
    c.sites = r.site :: r.operands := by
  induction run with
  | decay _ inductionHypothesis => exact inductionHypothesis emitted
  | direct | indirect =>
      cases emitted
      cases lval <;> simp [CallRes.site, CallRes.operands]
  | builtin call =>
      cases call <;> cases emitted
      · cases lval <;> simp [CallRes.site, CallRes.operands]
      · simp [CallRes.site, CallRes.operands]
      · simp [CallRes.site, CallRes.operands]

/-! ## Expressions -/

private theorem readSites_same {e : Expr} {c : Coq.Expr} (object : ExprRuns ctx true none e c)
    (ot : Coq.OpType) (asLval : Bool) :
    SameSites ctx (readSites ctx e)
      (if ctx.isAtomic (typeOf e) then
        [.expr (if asLval then .deref true ot c else .use true ot c)] else []) := by
  unfold readSites
  by_cases atomic : ctx.isAtomic (typeOf e) = true
  · rw [if_pos atomic, if_pos atomic]
    cases asLval
    · exact .cons (.use object) .nil
    · exact .cons (.deref object) .nil
  · rw [if_neg atomic, if_neg atomic]
    exact .nil

private theorem writeSites_same {e : Expr} {c1 : Coq.Expr} (object : ExprRuns ctx true none e c1)
    (ot : Coq.OpType) (c2 : Coq.Expr) :
    SameSites ctx (writeSites ctx e)
      (if ctx.isAtomic (typeOf e) then [.store ot c1 c2] else []) := by
  unfold writeSites
  by_cases atomic : ctx.isAtomic (typeOf e) = true
  · rw [if_pos atomic, if_pos atomic]
    exact .cons (.store object) .nil
  · rw [if_neg atomic, if_neg atomic]
    exact .nil

private theorem const0_sites {e : Expr} (isZero : isConst0 e = true) : e.sites ctx = [] := by
  obtain ⟨tc, node⟩ := e
  cases node <;> first | rfl | cases isZero

private theorem nodeShape_sites {resTy source : Option Coq.OpType} {node : ExprNode} {c : Coq.Expr}
    (smaller : ∀ e, SizeOf.sizeOf e < SizeOf.sizeOf node → KeepsSites ctx e)
    (shape : NodeShape ctx lval resTy node c source) :
    SameSites ctx (ExprNode.sites ctx node) c.sites := by
  cases shape with
  | @address e _ operand | @indirection e _ operand | @plus e _ operand | @minus e _ _ _ operand
  | @bnot e _ _ _ operand | @cast _ e _ _ _ _ _ _ operand | @compound _ e _ operand
  | @memberof e _ _ _ _ _ operand | @memberofptr e _ _ _ _ operand | @atomic e _ operand
  | @arrayDecayLval e _ _ operand | @arrayDecay e _ _ operand =>
      have same := smaller e (by decreasing_tactic) _ _ _ operand
      simpa using same
  | @binary e1 e2 _ _ _ _ _ _ _ _ _ _ left right =>
      have first := smaller e1 (by decreasing_tactic) _ _ _ left
      have second := smaller e2 (by decreasing_tactic) _ _ _ right
      simpa using first.append second
  | @rcMacro _ _ e3 _ _ _ _ _ _ isMacro _ _ result =>
      have same := smaller e3 (by decreasing_tactic) _ _ _ result
      simp only [Bool.and_eq_true] at isMacro
      simpa [isMacro] using same
  | @annotExpr _ _ e3 _ _ _ _ isAnnot _ result =>
      have same := smaller e3 (by decreasing_tactic) _ _ _ result
      simp only [Bool.and_eq_true] at isAnnot
      simpa [isAnnot] using same
  | @cond e1 e2 e3 _ _ _ _ notMacro notAnnot _ condition first second =>
      have sites1 := smaller e1 (by decreasing_tactic) _ _ _ condition
      have sites2 := smaller e2 (by decreasing_tactic) _ _ _ first
      have sites3 := smaller e3 (by decreasing_tactic) _ _ _ second
      have all := (sites1.append sites2).append sites3
      have evaluated : (isConst0 e1 && (isMacroAnnot e2 || isExprAnnot e2)) = false := by
        rw [Bool.and_or_distrib_left, notMacro, notAnnot]
        rfl
      simpa [evaluated] using all
  | @null _ e isNull =>
      simp only [Bool.and_eq_true] at isNull
      rw [ExprNode.sites, const0_sites isNull.2, Coq.Expr.sites]
      exact .nil
  | @call f args r c called emitted =>
      have arguments : ∀ a ∈ args, KeepsSites ctx a :=
        fun a member => smaller a (by decreasing_tactic)
      have operands := callRuns_operands called arguments fun e below =>
        smaller e (sizeOf_lt_call below)
      rw [ExprNode.sites, callRuns_sites called emitted]
      exact .cons (.call called) operands
  | @struct _ _ _ es _ _ _ _ fields =>
      have members : ∀ e, some e ∈ es → KeepsSites ctx e :=
        fun e member => smaller e (sizeOf_lt_struct member)
      have same := fieldsRun_sites fields members
      simpa using same
  | offsetof | const | ident | sizeof =>
      simp only [ExprNode.sites, Coq.Expr.sites]
      exact .nil
  | @rvalueCompound e _ literal init =>
      have same := smaller e (by decreasing_tactic) _ _ _ init
      simpa [rvalueSites, literal] using same
  | @rvalue e c ty notLiteral _ object =>
      have same := smaller e (by decreasing_tactic) _ _ _ object
      have emitted : (if lval then Coq.Expr.deref (ctx.isAtomic (typeOf e)) ty c
          else .use (ctx.isAtomic (typeOf e)) ty c).sites =
          (if ctx.isAtomic (typeOf e) then
            [.expr (if lval then .deref true ty c else .use true ty c)] else []) ++ c.sites := by
        cases lval <;> cases ctx.isAtomic (typeOf e) <;> rfl
      rw [ExprNode.sites, rvalueSites, emitted, notLiteral]
      exact (readSites_same object ty lval).append same
  | @functionDecay e s isIdent =>
      obtain ⟨tc', node'⟩ := e
      cases isIdent
      simp only [ExprNode.sites, Expr.sites, Coq.Expr.sites]
      exact .nil

/-- An expression is translated with each of its sites exactly once. -/
theorem keepsSites (e : Expr) : KeepsSites ctx e := by
  induction e using Expr.sizeInduction with
  | step tc node smaller =>
      intro lval goal c runs
      obtain ⟨resTy, c', source, -, shape, rfl⟩ := runs.shape
      rw [sites_castTo, Expr.sites]
      exact nodeShape_sites smaller shape

/-! ## Statements -/

/-- The operand that a compound assignment or an increment translates twice has no
counted sites. -/
def LvalueWithoutSites (ctx : Ctx) (accesses : Bool) (e : Expr) : Prop :=
  match stripExpr e with
  | .compoundAssign e1 _ _ => counted Site.isAccess accesses (e1.sites ctx) = []
  | .unary .postfixIncr e | .unary .postfixDecr e =>
      counted Site.isAccess accesses (e.sites ctx) = []
  | _ => True

private theorem translateAssign_sites {e e1 e2 : Expr} {head : Head} {used used' : Used}
    (run : translateAssign ctx e e1 e2 used = .ok (head, used')) :
    ∃ writes left right, head.sites = writes ++ (left ++ right) ∧
      SameSites ctx (writeSites ctx e1) writes ∧ SameSites ctx (e1.sites ctx) left ∧
      SameSites ctx (e2.sites ctx) right := by
  simp only [translateAssign, run_bind_eq_ok, run_liftResult_eq_ok, run_pure_eq_ok] at run
  obtain ⟨c1, _, left, ot, _, ⟨-, rfl⟩, goal, _, ⟨-, rfl⟩, c2, _, right, rfl, -⟩ := run
  have object : ExprRuns ctx true none e1 c1 := ⟨_, _, left⟩
  exact ⟨_, _, _, rfl, writeSites_same object ot c2, keepsSites e1 _ _ _ object,
    keepsSites e2 _ _ _ ⟨_, _, right⟩⟩

/-- The value of a compound assignment has the sites of the left operand again. -/
theorem translateCompoundAssign_sites {e e1 e2 : Expr} {op : ArithmeticOperator} {head : Head}
    {used used' : Used} (run : translateCompoundAssign ctx e e1 op e2 used = .ok (head, used')) :
    ∃ writes left value, head.sites = writes ++ (left ++ value) ∧
      SameSites ctx (writeSites ctx e1) writes ∧ SameSites ctx (e1.sites ctx) left ∧
      SameSites ctx ((rvalueSites ctx e1 ++ e1.sites ctx) ++ e2.sites ctx) value := by
  rw [translateCompoundAssign] at run
  match isLeft : tcOf e1, isRight : tcOf e2 with
  | .lvalue ty1, .rvalue ty2 =>
      rw [isLeft, isRight] at run
      have sites := translateAssign_sites run
      rw [Expr.sites, ExprNode.sites, Expr.sites, ExprNode.sites] at sites
      exact sites
  | .rvalue _, _ | .lvalue _, .lvalue _ =>
      rw [isLeft, isRight] at run
      cases run

/-- The operand of an increment is translated once and emitted twice. -/
theorem translateIncrement_sites {e : Expr} {op : Coq.BinOp} {head : Head} {used used' : Used}
    (run : translateIncrement ctx op e used = .ok (head, used')) :
    ∃ writes left reads, head.sites = writes ++ (left ++ (reads ++ left)) ∧
      SameSites ctx (writeSites ctx e) writes ∧ SameSites ctx (e.sites ctx) left ∧
      SameSites ctx (readSites ctx e) reads := by
  simp only [translateIncrement, run_bind_eq_ok, run_liftResult_eq_ok, run_pure_eq_ok] at run
  obtain ⟨ot, _, ⟨-, rfl⟩, resTy, _, ⟨-, rfl⟩, ⟨ty, it⟩, _, ⟨-, rfl⟩, c, _,
      left, rfl, -⟩ := run
  have object : ExprRuns ctx true none e c := ⟨_, _, left⟩
  refine ⟨_, c.sites, _, ?_, writeSites_same object ot (.binOp op ty (.int it)
    (.use (ctx.isAtomic (typeOf e)) ot c) (.val (.int "1" it))), keepsSites e _ _ _ object,
    readSites_same object ot false⟩
  rw [Head.sites, Coq.Expr.sites, Coq.Expr.sites, Coq.Expr.sites, List.append_nil]
  cases ctx.isAtomic (typeOf e) <;> rfl

private theorem callRuns_isAccess {args : List Expr} {f : Expr} {r : CallRes}
    (run : CallRuns ctx place lval args f r) :
    (Site.call f args).isAccess = r.site.isAccess := by
  induction run with
  | decay _ inductionHypothesis => exact inductionHypothesis
  | direct => rfl
  | builtin call =>
      cases call with
      | atomicLoad => cases lval <;> rfl
      | atomicStore | compareExchangeStrong | copyAllocId => rfl
  | indirect plain =>
      rw [Site.isAccess, builtinOf_callee plain]
      rfl

private theorem Renders.isAccess_eq {s : Site} {g : EmittedSite} (same : Renders ctx s g) :
    s.isAccess = g.isAccess := by
  cases same with
  | call called => exact callRuns_isAccess called
  | deref | use | store => rfl

private theorem SameSites.onceEach {accesses : Bool} {ss : List Site} {gs : List EmittedSite}
    (same : SameSites ctx ss gs) : OnceEach ctx accesses ss gs := by
  unfold OnceEach counted
  induction same with
  | nil => exact .nil
  | cons first _ inductionHypothesis =>
      rw [List.filter_cons, List.filter_cons, first.isAccess_eq]
      split
      · exact .cons first inductionHypothesis
      · exact inductionHypothesis

private theorem counted_append {α : Type} (isAccess : α → Bool) (accesses : Bool)
    (xs ys : List α) :
    counted isAccess accesses (xs ++ ys) =
      counted isAccess accesses xs ++ counted isAccess accesses ys :=
  List.filter_append ..

/-- Sites that are emitted a second time leave no correspondence unless there are none. -/
theorem onceEach_again_iff {accesses : Bool} {writes sites reads rest : List Site}
    {gw gs gv : List EmittedSite} (isWrite : SameSites ctx writes gw)
    (isLeft : SameSites ctx sites gs) (isValue : SameSites ctx ((reads ++ sites) ++ rest) gv) :
    OnceEach ctx accesses (writes ++ (sites ++ (reads ++ rest))) (gw ++ (gs ++ gv)) ↔
      counted Site.isAccess accesses sites = [] := by
  have writeOnce : OnceEach ctx accesses writes gw := isWrite.onceEach
  have leftOnce : OnceEach ctx accesses sites gs := isLeft.onceEach
  have valueOnce : OnceEach ctx accesses ((reads ++ sites) ++ rest) gv := isValue.onceEach
  unfold OnceEach at *
  simp only [counted_append] at *
  constructor
  · intro all
    have total := List.Forall₂.length_eq all
    have writeLength := List.Forall₂.length_eq writeOnce
    have leftLength := List.Forall₂.length_eq leftOnce
    have valueLength := List.Forall₂.length_eq valueOnce
    simp only [List.length_append] at total valueLength
    exact List.length_eq_zero_iff.mp (by omega)
  · intro none
    rw [none] at leftOnce valueOnce ⊢
    rw [List.forall₂_nil_left_iff.mp leftOnce]
    rw [List.append_nil] at valueOnce
    exact writeOnce.append valueOnce

private theorem compoundAssign_sites_iff {accesses : Bool} {e e1 e2 : Expr}
    {op : ArithmeticOperator} {head : Head} {used used' : Used}
    (run : translateCompoundAssign ctx e e1 op e2 used = .ok (head, used')) :
    OnceEach ctx accesses
      (writeSites ctx e1 ++ (e1.sites ctx ++ (rvalueSites ctx e1 ++ e2.sites ctx))) head.sites ↔
      counted Site.isAccess accesses (e1.sites ctx) = [] := by
  obtain ⟨writes, left, value, emitted, isWrite, isLeft, isValue⟩ :=
    translateCompoundAssign_sites run
  rw [emitted]
  exact onceEach_again_iff isWrite isLeft isValue

private theorem increment_sites_iff {accesses : Bool} {e : Expr} {op : Coq.BinOp} {head : Head}
    {used used' : Used} (run : translateIncrement ctx op e used = .ok (head, used')) :
    OnceEach ctx accesses (writeSites ctx e ++ (e.sites ctx ++ readSites ctx e)) head.sites ↔
      counted Site.isAccess accesses (e.sites ctx) = [] := by
  obtain ⟨writes, left, reads, emitted, isWrite, isLeft, isRead⟩ := translateIncrement_sites run
  have isValue : SameSites ctx ((readSites ctx e ++ e.sites ctx) ++ []) (reads ++ left) := by
    rw [List.append_nil]
    exact isRead.append isLeft
  have iff := @onceEach_again_iff _ accesses _ _ _ _ _ _ _ isWrite isLeft isValue
  rwa [List.append_nil, ← emitted] at iff

private theorem callStmt_sites {f : Expr} {args : List Expr} {r : CallRes} {head : Head}
    (called : CallRuns ctx .inStmt false args f r)
    (emitted : head.sites = r.site :: r.operands) :
    SameSites ctx (ExprNode.sites ctx (.call f args)) head.sites := by
  rw [ExprNode.sites, emitted]
  exact .cons (.call called)
    (callRuns_operands called (fun e _ => keepsSites e) (fun e _ => keepsSites e))

private theorem plainStmt_sites {e : Expr} {head : Head} {used used' : Used}
    (run : (do
      let e ← translateExpr ctx false none e
      return Head.exprS e : ExprM Head) used = .ok (head, used')) :
    SameSites ctx (e.sites ctx) head.sites := by
  simp only [run_bind_eq_ok, run_pure_eq_ok] at run
  obtain ⟨c, _, inner, rfl, -⟩ := run
  exact keepsSites e _ _ _ ⟨_, _, inner⟩

/-- Calls of an expression statement are emitted exactly once if and only if the
operand that is translated twice has none. -/
theorem exprStmt_sites_iff {accesses : Bool} {e : Expr} {head : Head} {used used' : Used}
    (run : translateExprStmt ctx e used = .ok (head, used')) :
    OnceEach ctx accesses (stmtSites ctx e) head.sites ↔ LvalueWithoutSites ctx accesses e := by
  obtain ⟨tc, node⟩ := e
  cases node with
  | compoundAssign e1 op e2 => exact compoundAssign_sites_iff run
  | assign e1 e2 =>
      obtain ⟨writes, left, right, emitted, isWrite, isLeft, isRight⟩ :=
        translateAssign_sites run
      have same := isWrite.append (isLeft.append isRight)
      rw [← emitted] at same
      exact iff_of_true same.onceEach trivial
  | assert e =>
      simp only [translateExprStmt, stripExpr, run_bind_eq_ok, run_liftResult_eq_ok,
        run_pure_eq_ok] at run
      obtain ⟨ot, _, ⟨-, rfl⟩, c, _, inner, rfl, -⟩ := run
      exact iff_of_true (keepsSites e _ _ _ ⟨_, _, inner⟩).onceEach trivial
  | call f args =>
      simp only [translateExprStmt, stripExpr, run_bind_eq_ok] at run
      obtain ⟨r, _, inner, emit⟩ := run
      have called := translateCall_runs f inner
      have emitted : head.sites = r.site :: r.operands := by
        cases r with
        | simple ret c cs =>
            cases emit
            exact callRuns_sites called rfl
        | atomicExpr c =>
            cases emit
            exact callRuns_sites called rfl
        | atomicStore ot c1 c2 =>
            cases emit
            rfl
      exact iff_of_true (callStmt_sites called emitted).onceEach trivial
  | unary op e =>
      cases op with
      | postfixIncr | postfixDecr => exact increment_sites_iff run
      | _ => exact iff_of_true (plainStmt_sites run).onceEach trivial
  | _ => exact iff_of_true (plainStmt_sites run).onceEach trivial

end

/-- What the translation emits has each call of the source exactly once and no other
call, with the accesses to atomic objects counted or not: for the value of an
initialiser, for conditions and return expressions always, and for an expression
statement if and only if the operand that it translates twice has none. -/
theorem calls_emitted_once (ctx : Ctx) (accesses : Bool) (used used' : Used) :
    (∀ e head, translateExprStmt ctx e used = .ok (head, used') →
      (OnceEach ctx accesses (stmtSites ctx e) head.sites ↔
        LvalueWithoutSites ctx accesses e)) ∧
    (∀ id ty e head, translateInit ctx id ty e used = .ok (head, used') →
      ∃ ot c, head = .assign (ctx.isAtomic ty) ot (.var (some id) false) c ∧
        OnceEach ctx accesses (e.sites ctx) c.sites) ∧
    (∀ e ot c, translateCond ctx e used = .ok ((ot, c), used') →
      OnceEach ctx accesses (e.sites ctx) c.sites) ∧
    (∀ retTy e c, translateReturn ctx retTy e used = .ok (c, used') →
      OnceEach ctx accesses (e.sites ctx) c.sites) := by
  refine ⟨fun e head run => exprStmt_sites_iff run, ?_, ?_, ?_⟩
  · intro id ty e head run
    simp only [translateInit, run_bind_eq_ok, run_liftResult_eq_ok, run_pure_eq_ok] at run
    obtain ⟨ot, _, ⟨-, rfl⟩, c, _, value, rfl, -⟩ := run
    exact ⟨ot, c, rfl, (keepsSites e _ _ _ ⟨_, _, value⟩).onceEach⟩
  · intro e ot c run
    simp only [translateCond, run_bind_eq_ok, run_liftResult_eq_ok, run_pure_eq_ok] at run
    obtain ⟨_, _, ⟨-, rfl⟩, c', _, value, same, -⟩ := run
    cases same
    exact (keepsSites e _ _ _ ⟨_, _, value⟩).onceEach
  · intro retTy e c run
    exact (keepsSites e _ _ _ ⟨_, _, run⟩).onceEach

/-! ## An assignment through the result of a call -/

def slotCtx : Ctx := lp64Ctx [] [("slot", ⟨.pointer (.integer (.signed .int)), [], []⟩)]

def slotFunction : CType := .function (.pointer (.integer (.signed .int))) []

/-- The call `slot()`. -/
def slotCall : Expr :=
  .annotated (.rvalue (.pointer (.integer (.signed .int))))
    (.call (.annotated (.rvalue (.pointer slotFunction))
      (.functionDecay (.annotated (.lvalue slotFunction) (.ident ⟨0, "slot"⟩)))) [])

def slotTarget : Expr :=
  .annotated (.lvalue (.integer (.signed .int))) (.unary .indirection slotCall)

def one : Expr := .annotated (.rvalue (.integer (.signed .int))) (.const (.integer (.iConstant 1)))

/-- The statement `*slot() = 1`. -/
def slotAssign : Expr := .annotated (.rvalue (.integer (.signed .int))) (.assign slotTarget one)

/-- The statement `*slot() += 1`. -/
def slotAdd : Expr :=
  .annotated (.rvalue (.integer (.signed .int))) (.compoundAssign slotTarget .add one)

theorem calls_emitted_once_slotAssign :
    ∃ head used', translateExprStmt slotCtx slotAssign ⟨[], []⟩ = .ok (head, used') ∧
      OnceEach slotCtx true (stmtSites slotCtx slotAssign) head.sites :=
  ⟨_, _, rfl, ((calls_emitted_once slotCtx true ⟨[], []⟩ _).1 slotAssign _ rfl).mpr trivial⟩

/-- The call is emitted twice. -/
theorem slotAdd_calls_twice :
    ∃ head used', translateExprStmt slotCtx slotAdd ⟨[], []⟩ = .ok (head, used') ∧
      ¬ OnceEach slotCtx false (stmtSites slotCtx slotAdd) head.sites := by
  obtain ⟨head, used', run⟩ : ∃ head used',
      translateExprStmt slotCtx slotAdd ⟨[], []⟩ = .ok (head, used') := ⟨_, _, rfl⟩
  refine ⟨head, used', run, fun once => ?_⟩
  exact absurd ((exprStmt_sites_iff run).mp once) (List.cons_ne_nil _ _)

end RefinedC.Frontend
