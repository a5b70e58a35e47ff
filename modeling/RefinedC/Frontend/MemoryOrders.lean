import RefinedC.Frontend.CallSites
import RefinedC.Frontend.Locals
import RefinedC.Frontend.TranslateProgram

/-!
Memory orders of atomic builtins.

Source: `memory_order_of_expr` and the builtins of `translate_call` in
`frontend/ail_to_coq.ml`.

Owns: the memory orders that occur in a program, which of them a successful
translation has found to be sequentially consistent, and the programs in which the
others are too.

Both orders of a compare-and-exchange are read from its fourth argument. Nothing is
read from the pieces of a macro or an annotation that are not emitted.
-/

namespace RefinedC.Frontend

open Library

/-! ## Occurrences -/

/-- A memory order that occurs, and whether the translation looks at it. -/
structure OrderArg where
  arg : Expr
  examined : Bool

/-- Occurrences in a part of the source that is not translated. -/
def skipped (orders : List OrderArg) : List OrderArg := orders.map fun o => ⟨o.arg, false⟩

/-- Index of the first memory order among the arguments of a builtin. -/
def firstOrder : Builtin → Option Nat
  | .atomicThreadFence => some 0
  | .atomicLoad => some 1
  | .atomicStore | .atomicExchange | .atomicFetchKey => some 2
  | .atomicCompareExchangeStrong | .atomicCompareExchangeWeak => some 3
  | _ => none

/-- The orders of a call: the first one is read for all of them. -/
def orderArgs : List Expr → List OrderArg
  | [] => []
  | e :: es => ⟨e, true⟩ :: es.map fun e => ⟨e, false⟩

/-- Occurrences in the arguments of a call, from those in each of them. -/
def callOrders (b : Option Builtin) (args : List Expr) (orders : List (List OrderArg)) :
    List OrderArg :=
  match b.bind firstOrder with
  | none => orders.flatten
  | some n => (orders.take n).flatten ++ orderArgs (args.drop n) ++ skipped (orders.drop n).flatten

/-- Occurrences in the pieces of a macro after its name. The last one is dropped. -/
def macroOrders : List (List OrderArg) → List OrderArg
  | kind :: piece :: rest => skipped kind ++ piece ++ macroOrders rest
  | pieces => skipped pieces.flatten

mutual

def Expr.orders : Expr → List OrderArg
  | .annotated _ node => node.orders

def ExprNode.orders : ExprNode → List OrderArg
  | .unary _ e | .cast _ e | .assert e | .compound _ e | .memberof e _ | .memberofptr e _
  | .sizeofExpr e | .annot _ e | .vaStart e _ | .vaArg e _ | .vaEnd e | .printType e
  | .bmcAssume e | .rvalue e | .arrayDecay e | .functionDecay e | .atomic e => e.orders
  | .binary e1 _ e2 | .assign e1 e2 | .compoundAssign e1 _ e2 | .vaCopy e1 e2 =>
      e1.orders ++ e2.orders
  | .cond e1 none e3 => e1.orders ++ e3.orders
  | .cond e1 (some e2) e3 =>
      if isConst0 e1 && isMacroAnnot e2 then
        skipped ((pieceOrders e2).take 2).flatten ++ macroOrders ((pieceOrders e2).drop 2) ++
          e3.orders
      else if isConst0 e1 && isExprAnnot e2 then skipped e2.orders ++ e3.orders
      else e1.orders ++ e2.orders ++ e3.orders
  | .call f args => f.orders ++ callOrders (builtinOf f) args (argOrders args)
  | .generic e _ es => e.orders ++ (argOrders es).flatten
  | .array _ es => (fieldOrders es).flatten
  | .struct _ members es =>
      ((fieldOrders es).take members.length).flatten ++
        skipped ((fieldOrders es).drop members.length).flatten
  | .union _ _ (some e) => e.orders
  | _ => []

/-- Occurrences in each piece of a chain of comma operators. -/
def pieceOrders : Expr → List (List OrderArg)
  | .annotated _ (.binary e1 .comma e2) => pieceOrders e1 ++ [e2.orders]
  | .annotated _ node => [node.orders]

def argOrders : List Expr → List (List OrderArg)
  | [] => []
  | e :: es => e.orders :: argOrders es

def fieldOrders : List (Option Expr) → List (List OrderArg)
  | [] => []
  | none :: es => [] :: fieldOrders es
  | some e :: es => e.orders :: fieldOrders es

end

mutual

/-- The memory orders that occur in a statement. -/
def Stmt.orders : Stmt → List OrderArg
  | .block _ ss | .par ss => Stmt.ordersList ss
  | .expr e | .returnS e | .regStore _ e => e.orders
  | .ifS e s1 s2 => e.orders ++ s1.orders ++ s2.orders
  | .whileS e s | .doS s e | .switch e s => e.orders ++ s.orders
  | .caseS _ s | .caseRangeGNU _ _ s | .default s | .label _ s | .marker s => s.orders
  | .declaration ds => (fieldOrders (ds.map Prod.snd)).flatten
  | _ => []

def Stmt.ordersList : List Stmt → List OrderArg
  | [] => []
  | s :: ss => s.orders ++ Stmt.ordersList ss

end

/-! ## Orders that have been examined -/

def IsSeqCst (ctx : Ctx) (e : Expr) : Prop := memoryOrderOfExpr ctx e = .ok .seqCst

/-- The orders that the translation looks at are sequentially consistent. -/
def Checked (ctx : Ctx) (orders : List OrderArg) : Prop :=
  ∀ o ∈ orders, o.examined = true → IsSeqCst ctx o.arg

section

variable {ctx : Ctx} {place : CallPlace} {lval : Bool}

attribute [local simp] Expr.orders ExprNode.orders

private theorem checked_nil : Checked ctx [] := fun _ member => absurd member List.not_mem_nil

private theorem checked_append {orders orders' : List OrderArg} :
    Checked ctx (orders ++ orders') ↔ Checked ctx orders ∧ Checked ctx orders' :=
  List.forall_mem_append

private theorem checked_flatten {orders : List (List OrderArg)} :
    Checked ctx orders.flatten ↔ ∀ os ∈ orders, Checked ctx os := by
  simp only [Checked, List.mem_flatten]
  exact ⟨fun all os isPart o member => all o ⟨os, isPart, member⟩,
    fun all o ⟨os, isPart, member⟩ => all os isPart o member⟩

private theorem checked_skipped (orders : List OrderArg) : Checked ctx (skipped orders) := by
  intro o member isExamined
  obtain ⟨o', -, rfl⟩ := List.mem_map.mp member
  cases isExamined

/-- The translations of an expression have examined its orders. -/
def ChecksOrders (ctx : Ctx) (e : Expr) : Prop :=
  ∀ lval goal c, ExprRuns ctx lval goal e c → Checked ctx e.orders

private theorem argsRun_checked {params : List CType} {i : Nat} {es : List Expr}
    {cs : List Coq.Expr}
    (run : ArgsRun ctx params i es cs) (checks : ∀ e ∈ es, ChecksOrders ctx e) :
    Checked ctx (argOrders es).flatten := by
  induction run with
  | nil =>
      rw [argOrders]
      exact checked_nil
  | cons _ _ arg _ inductionHypothesis =>
      rw [argOrders, List.flatten_cons, checked_append]
      exact ⟨checks _ List.mem_cons_self _ _ _ arg,
        inductionHypothesis fun e member => checks e (List.mem_cons_of_mem _ member)⟩

private theorem fieldsRun_checked {fieldTypes : List (String × Coq.OpType)}
    {names ids : List String} {es : List (Option Expr)} {cs : List Coq.Expr}
    (run : FieldsRun ctx lval fieldTypes names es ids cs)
    (checks : ∀ e, some e ∈ es → ChecksOrders ctx e) :
    Checked ctx ((fieldOrders es).take names.length).flatten := by
  induction run with
  | nilNames => exact checked_nil
  | nilFields =>
      rw [fieldOrders, List.take_nil]
      exact checked_nil
  | absent _ inductionHypothesis =>
      rw [fieldOrders, List.length_cons, List.take_succ_cons, List.flatten_cons, List.nil_append]
      exact inductionHypothesis fun e member => checks e (List.mem_cons_of_mem _ member)
  | present _ field _ inductionHypothesis =>
      rw [fieldOrders, List.length_cons, List.take_succ_cons, List.flatten_cons, checked_append]
      exact ⟨checks _ List.mem_cons_self _ _ _ field,
        inductionHypothesis fun e member => checks e (List.mem_cons_of_mem _ member)⟩

/-! ## Macros -/

/-- The occurrences that go with a piece of a macro are those of its expression. -/
def PieceOrders (piece : MacroAnnotArg) (orders : List OrderArg) : Prop :=
  match piece with
  | .string _ => orders = []
  | .expr e => orders = e.orders

private theorem getMacroArg_orders (e : Expr) : PieceOrders (getMacroArg e) e.orders := by
  unfold getMacroArg
  split
  · rename_i inner isDecay
    split
    · rename_i pieces isStr
      obtain ⟨tc, node⟩ := e
      obtain ⟨tc', node'⟩ := inner
      cases isDecay
      cases isStr
      rfl
    · rfl
  · rfl

private theorem pieceOrders_pieces (e : Expr) :
    List.Forall₂ PieceOrders (macroAnnotToList e) (pieceOrders e) := by
  fun_induction macroAnnotToList e with
  | case1 tc e1 e2 inductionHypothesis =>
      rw [pieceOrders]
      exact List.rel_append inductionHypothesis (.cons (getMacroArg_orders e2) .nil)
  | case2 e notComma =>
      obtain ⟨tc, node⟩ := e
      have whole : pieceOrders (.annotated tc node) = [(Expr.annotated tc node).orders] := by
        rw [pieceOrders, Expr.orders]
        intro e1 e2 shape
        exact notComma tc e1 e2 (by rw [shape])
      rw [whole]
      exact .cons (getMacroArg_orders _) .nil

private theorem piecesRun_checked {pieces : List MacroAnnotArg} {args : List String}
    {cs : List Coq.Expr} (run : PiecesRun ctx lval pieces args cs) {orders : List (List OrderArg)}
    (occur : List.Forall₂ PieceOrders pieces orders)
    (checks : ∀ e, .expr e ∈ pieces → ChecksOrders ctx e) :
    Checked ctx (macroOrders orders) := by
  induction run generalizing orders with
  | last =>
      obtain ⟨os, _, -, ⟨⟩, rfl⟩ := List.forall₂_cons_left_iff.mp occur
      exact checked_skipped _
  | arg _ inductionHypothesis =>
      cases occur with
      | cons _ rest =>
          cases rest with
          | cons isPiece rest =>
              rw [macroOrders, isPiece, checked_append, List.append_nil]
              exact ⟨checked_skipped _, inductionHypothesis rest fun e member =>
                checks e (by simp [member])⟩
  | expr piece _ inductionHypothesis =>
      cases occur with
      | cons _ rest =>
          cases rest with
          | cons isPiece rest =>
              rw [macroOrders, isPiece, checked_append, checked_append]
              exact ⟨⟨checked_skipped _, checks _ (by simp) _ _ _ piece⟩,
                inductionHypothesis rest fun e member => checks e (by simp [member])⟩

/-! ## Calls -/

private theorem seqCstOnly_eq_ok {order : Bool} {u : Unit} :
    seqCstOnly order = .ok u ↔ order = true := by
  cases order <;> simp [seqCstOnly]

private theorem checked_orderArgs {e : Expr} (es : List Expr) (isSeqCst : IsSeqCst ctx e) :
    Checked ctx (orderArgs (e :: es)) := by
  intro o member isExamined
  rcases List.mem_cons.mp member with rfl | later
  · exact isSeqCst
  · obtain ⟨e', -, rfl⟩ := List.mem_map.mp later
    cases isExamined

private theorem translateBuiltin_checked {args : List Expr} {b : Builtin} {r : CallRes}
    {used used' : Used} {n : Nat} (isFirst : firstOrder b = some n)
    (run : translateBuiltin ctx place lval (delayedArgs ctx args) b used = .ok (r, used')) :
    Checked ctx (orderArgs (args.drop n)) := by
  have runs := translateBuiltin_runs run
  cases runs with
  | atomicStore =>
      cases isFirst
      simp only [translateBuiltin, delayedArgs, atomicStore, run_bind_eq_ok, run_liftResult_eq_ok,
        seqCstOnly_eq_ok, decide_eq_true_eq] at run
      obtain ⟨_, _, -, _, _, -, _, _, -, order, _, ⟨isOrder, -⟩, _, _, ⟨rfl, -⟩, -⟩ :=
        run
      exact checked_orderArgs _ isOrder
  | atomicLoad =>
      cases isFirst
      simp only [translateBuiltin, delayedArgs, atomicLoad, run_bind_eq_ok, run_liftResult_eq_ok,
        seqCstOnly_eq_ok, decide_eq_true_eq] at run
      obtain ⟨_, _, -, _, _, -, order, _, ⟨isOrder, -⟩, _, _, ⟨rfl, -⟩, -⟩ := run
      exact checked_orderArgs _ isOrder
  | compareExchangeStrong =>
      cases isFirst
      simp only [translateBuiltin, delayedArgs, compareExchangeStrong, run_bind_eq_ok,
        run_liftResult_eq_ok, seqCstOnly_eq_ok, Bool.and_eq_true, decide_eq_true_eq] at run
      obtain ⟨_, _, -, _, _, -, _, _, -, _, _, -, order, _, ⟨isOrder, -⟩, _, _, -, _, _,
        ⟨⟨rfl, -⟩, -⟩, -⟩ := run
      exact checked_orderArgs _ isOrder
  | copyAllocId => cases isFirst

private theorem builtinRuns_checked {args : List Expr} {b : Builtin} {r : CallRes}
    (run : BuiltinRuns ctx place lval args b r) (checks : ∀ e ∈ args, ChecksOrders ctx e) :
    Checked ctx (match firstOrder b with
      | none => (argOrders args).flatten
      | some n => ((argOrders args).take n).flatten) := by
  cases run with
  | atomicStore _ left right | copyAllocId _ left right =>
      simp only [firstOrder, argOrders, checked_flatten, List.take_succ_cons, List.take_zero,
        List.forall_mem_cons]
      exact ⟨checks _ (by simp) _ _ _ left, checks _ (by simp) _ _ _ right, by simp⟩
  | atomicLoad _ address =>
      simp only [firstOrder, argOrders, checked_flatten, List.take_succ_cons, List.take_zero,
        List.forall_mem_cons]
      exact ⟨checks _ (by simp) _ _ _ address, by simp⟩
  | compareExchangeStrong _ first second third =>
      simp only [firstOrder, argOrders, checked_flatten, List.take_succ_cons, List.take_zero,
        List.forall_mem_cons]
      exact ⟨checks _ (by simp) _ _ _ first, checks _ (by simp) _ _ _ second,
        checks _ (by simp) _ _ _ third, by simp⟩

/-- The orders of the function and of the arguments of a call, and those that are
arguments of the call. -/
theorem translateCall_checked {args : List Expr} {r : CallRes}
    (checks : ∀ e ∈ args, ChecksOrders ctx e) : ∀ (f : Expr) {used used' : Used},
      (∀ e, SizeOf.sizeOf e ≤ SizeOf.sizeOf f → ChecksOrders ctx e) →
      translateCall ctx place lval (delayedArgs ctx args) f used = .ok (r, used') →
      Checked ctx (f.orders ++ callOrders (builtinOf f) args (argOrders args))
  | .annotated tc node, used, used', callee, run => by
      cases node with
      | functionDecay e =>
          rw [translateCall] at run
          rw [Expr.orders, ExprNode.orders, builtinOf]
          refine translateCall_checked checks e (fun e' smaller => callee e' ?_) run
          simp only [Expr.annotated.sizeOf_spec, ExprNode.functionDecay.sizeOf_spec]
          omega
      | ident f =>
          cases translateCall_runs _ run with
          | direct _ arguments =>
              simpa [builtinOf, callOrders] using
                argsRun_checked arguments checks
          | indirect plain => cases plain
      | builtin b =>
          rw [translateCall] at run
          have values := builtinRuns_checked (translateBuiltin_runs run) checks
          cases isFirst : firstOrder b with
          | none =>
              rw [isFirst] at values
              simpa [builtinOf, callOrders, isFirst] using values
          | some n =>
              rw [isFirst] at values
              simp only [Expr.orders, ExprNode.orders, builtinOf, callOrders, Option.bind_some,
                isFirst, List.nil_append, checked_append]
              exact ⟨⟨values, translateBuiltin_checked isFirst run⟩, checked_skipped _⟩
      | _ =>
          cases translateCall_runs _ run with
          | indirect plain _ res calleeRun arguments =>
              rw [builtinOf_callee plain, checked_append]
              exact ⟨callee _ (Nat.le_refl _) _ _ _ (calleeRun.toExpr res),
                argsRun_checked arguments checks⟩

/-! ## Expressions -/

private theorem const0_orders {e : Expr} (isZero : isConst0 e = true) : e.orders = [] := by
  obtain ⟨tc, node⟩ := e
  cases node <;> first | rfl | cases isZero

private theorem macro_checked {e : Expr} {piece : MacroAnnotArg} {name : String}
    {pieces : List MacroAnnotArg} {args : List String} {cs : List Coq.Expr}
    (split : macroAnnotToList e = piece :: .string name :: pieces)
    (run : PiecesRun ctx lval pieces args cs)
    (smaller : ∀ e', SizeOf.sizeOf e' ≤ SizeOf.sizeOf e → ChecksOrders ctx e') :
    Checked ctx (macroOrders ((pieceOrders e).drop 2)) := by
  have occur := pieceOrders_pieces e
  rw [split] at occur
  obtain ⟨_, _, -, occur', isOrders⟩ := List.forall₂_cons_left_iff.mp occur
  obtain ⟨_, _, -, occur'', rfl⟩ := List.forall₂_cons_left_iff.mp occur'
  rw [isOrders]
  refine piecesRun_checked run occur'' fun e' member => smaller e' (sizeOf_piece ?_)
  rw [split]
  simp [member]

private theorem nodeShape_checked {resTy source : Option Coq.OpType}
    {node : ExprNode} {c : Coq.Expr}
    (smaller : ∀ e, SizeOf.sizeOf e < SizeOf.sizeOf node → ChecksOrders ctx e)
    (shape : NodeShape ctx lval resTy node c source) (notCall : ∀ f args, node ≠ .call f args) :
    Checked ctx node.orders := by
  cases shape with
  | @address e _ operand | @indirection e _ operand | @plus e _ operand | @minus e _ _ _ operand
  | @bnot e _ _ _ operand | @cast _ e _ _ _ _ _ _ operand | @compound _ e _ operand
  | @memberof e _ _ _ _ _ operand | @memberofptr e _ _ _ _ operand | @atomic e _ operand
  | @arrayDecayLval e _ _ operand | @arrayDecay e _ _ operand
  | @rvalueCompound e _ _ operand | @rvalue e _ _ _ _ operand =>
      rw [ExprNode.orders]
      exact smaller e (by decreasing_tactic) _ _ _ operand
  | @binary e1 e2 _ _ _ _ _ _ _ _ _ _ left right =>
      rw [ExprNode.orders, checked_append]
      exact ⟨smaller e1 (by decreasing_tactic) _ _ _ left,
        smaller e2 (by decreasing_tactic) _ _ _ right⟩
  | @rcMacro e1 e2 e3 _ _ _ _ _ _ isMacro split arguments result =>
      have below e (inPiece : SizeOf.sizeOf e ≤ SizeOf.sizeOf e2) : ChecksOrders ctx e := by
        refine smaller e ?_
        simp only [ExprNode.cond.sizeOf_spec, Option.some.sizeOf_spec]
        omega
      rw [ExprNode.orders, if_pos isMacro, checked_append, checked_append]
      exact ⟨⟨checked_skipped _, macro_checked split arguments below⟩,
        smaller e3 (by decreasing_tactic) _ _ _ result⟩
  | @annotExpr _ _ e3 _ _ _ notMacro isAnnot _ result =>
      rw [ExprNode.orders, notMacro, if_neg Bool.false_ne_true, if_pos isAnnot, checked_append]
      exact ⟨checked_skipped _, smaller e3 (by decreasing_tactic) _ _ _ result⟩
  | @cond e1 e2 e3 _ _ _ _ notMacro notAnnot _ condition first second =>
      rw [ExprNode.orders, notMacro, notAnnot, if_neg Bool.false_ne_true,
        if_neg Bool.false_ne_true, checked_append, checked_append]
      exact ⟨⟨smaller e1 (by decreasing_tactic) _ _ _ condition,
        smaller e2 (by decreasing_tactic) _ _ _ first⟩,
        smaller e3 (by decreasing_tactic) _ _ _ second⟩
  | @null _ e isNull =>
      simp only [Bool.and_eq_true] at isNull
      rw [ExprNode.orders, const0_orders isNull.2]
      exact checked_nil
  | @call f args => exact absurd rfl (notCall f args)
  | @struct _ members _ es _ _ _ _ fields =>
      rw [ExprNode.orders, checked_append]
      exact ⟨fieldsRun_checked fields fun e member => smaller e (sizeOf_lt_struct member),
        checked_skipped _⟩
  | offsetof | const | ident | sizeof => exact checked_nil
  | @functionDecay e s isIdent =>
      obtain ⟨tc', node'⟩ := e
      cases isIdent
      exact checked_nil

/-- A translated expression has sequentially consistent orders where they are examined. -/
theorem checksOrders (e : Expr) : ChecksOrders ctx e := by
  induction e using Expr.sizeInduction with
  | step tc node smaller =>
      intro lval goal c runs
      obtain ⟨resTy, c', source, -, shape, -⟩ := runs.shape
      rw [Expr.orders]
      by_cases isCall : ∃ f args, node = .call f args
      · obtain ⟨f, args, rfl⟩ := isCall
        obtain ⟨used, used', run⟩ := runs
        simp only [translateExpr, translateNode, run_bind_eq_ok] at run
        obtain ⟨_, _, -, _, _, ⟨r, _, called, -⟩, -⟩ := run
        rw [ExprNode.orders]
        exact translateCall_checked (fun a member => smaller a (by decreasing_tactic)) f
          (fun e below => smaller e (sizeOf_lt_call below)) called
      · exact nodeShape_checked smaller shape fun f args same => isCall ⟨f, args, same⟩

/-! ## Statements -/

private theorem translateExprStmt_checked {e : Expr} {head : Head} {used used' : Used}
    (run : translateExprStmt ctx e used = .ok (head, used')) : Checked ctx e.orders := by
  have plain {tc : TypeCat} {node : ExprNode} {head : Head}
      (run : (do
        let e ← translateExpr ctx false none (.annotated tc node)
        return Head.exprS e : ExprM Head) used = .ok (head, used')) :
      Checked ctx (Expr.annotated tc node).orders := by
    simp only [run_bind_eq_ok] at run
    obtain ⟨c, _, inner, -⟩ := run
    exact checksOrders _ _ _ _ ⟨_, _, inner⟩
  have assign {e e1 e2 : Expr} {head : Head}
      (run : translateAssign ctx e e1 e2 used = .ok (head, used')) :
      Checked ctx e1.orders ∧ Checked ctx e2.orders := by
    simp only [translateAssign, run_bind_eq_ok] at run
    obtain ⟨c1, _, left, _, _, -, _, _, -, c2, _, right, -⟩ := run
    exact ⟨checksOrders _ _ _ _ ⟨_, _, left⟩, checksOrders _ _ _ _ ⟨_, _, right⟩⟩
  obtain ⟨tc, node⟩ := e
  cases node with
  | assert e =>
      simp only [translateExprStmt, stripExpr, run_bind_eq_ok] at run
      obtain ⟨_, _, -, c, _, inner, -⟩ := run
      exact checksOrders e _ _ _ ⟨_, _, inner⟩
  | assign e1 e2 =>
      rw [Expr.orders, ExprNode.orders, checked_append]
      exact assign run
  | compoundAssign e1 op e2 =>
      simp only [translateExprStmt, stripExpr, translateCompoundAssign] at run
      rw [Expr.orders, ExprNode.orders, checked_append]
      cases isLeft : tcOf e1 with
      | rvalue ty1 =>
          rw [isLeft] at run
          cases run
      | lvalue ty1 =>
          cases isRight : tcOf e2 with
          | lvalue ty2 =>
              rw [isLeft, isRight] at run
              cases run
          | rvalue ty2 =>
              rw [isLeft, isRight] at run
              obtain ⟨left, value⟩ := assign run
              rw [Expr.orders, ExprNode.orders, checked_append] at value
              exact ⟨left, value.2⟩
  | call f args =>
      simp only [translateExprStmt, stripExpr, run_bind_eq_ok] at run
      obtain ⟨r, _, called, -⟩ := run
      exact translateCall_checked (fun a _ => checksOrders a) f (fun e _ => checksOrders e) called
  | unary op e =>
      cases op with
      | postfixIncr | postfixDecr =>
          simp only [translateExprStmt, stripExpr, translateIncrement, run_bind_eq_ok] at run
          obtain ⟨_, _, -, _, _, -, _, _, -, c, _, left, -⟩ := run
          exact checksOrders e _ _ _ ⟨_, _, left⟩
      | _ => exact plain run
  | _ => exact plain run

private theorem inExpr_checked {α : Type} {m : Ctx → ExprM α} {orders : List OrderArg}
    (checks : ∀ (isLocal : String → Bool) (used used' : Used) (a : α),
      m { ctx with isLocal := isLocal } used = .ok (a, used') →
        Checked { ctx with isLocal := isLocal } orders)
    {σ σ' : State} {a : α} (run : inExpr ctx m σ = .ok (a, σ')) : Checked ctx orders := by
  obtain ⟨used, found, -⟩ := inExpr_eq_ok.mp run
  exact checks σ.isLocal _ _ _ found

private theorem translateCond_checked {e : Expr} {σ σ' : State} {a : Coq.OpType × Coq.Expr}
    (run : inExpr ctx (fun ctx => translateCond ctx e) σ = .ok (a, σ')) :
    Checked ctx e.orders := by
  refine inExpr_checked (fun isLocal used used' a run => ?_) run
  simp only [translateCond, run_bind_eq_ok] at run
  obtain ⟨_, _, -, c, _, inner, -⟩ := run
  exact checksOrders e _ _ _ ⟨_, _, inner⟩

private theorem addDecl_checked {d : Sym × Option Expr} {t t' : Coq.Stmt} {σ σ' : State}
    (run : addDecl ctx d t σ = .ok (t', σ')) :
    Checked ctx (fieldOrders [d.2]).flatten := by
  obtain ⟨s, _ | e⟩ := d
  · exact checked_nil
  · simp only [addDecl, run_bind_eq_ok] at run
    obtain ⟨ty, _, -, head, _, translated, -⟩ := run
    rw [fieldOrders, fieldOrders, List.flatten_singleton]
    refine inExpr_checked (fun isLocal used used' a run => ?_) translated
    simp only [translateInit, run_bind_eq_ok] at run
    obtain ⟨_, _, -, c, _, inner, -⟩ := run
    exact checksOrders e _ _ _ ⟨_, _, inner⟩

private theorem addDecls_checked {ds : List (Sym × Option Expr)} {t t' : Coq.Stmt} {σ σ' : State}
    (run : ds.foldrM (addDecl ctx) t σ = .ok (t', σ')) :
    Checked ctx (fieldOrders (ds.map Prod.snd)).flatten := by
  induction ds generalizing t' σ' with
  | nil => exact checked_nil
  | cons d ds inductionHypothesis =>
      rw [List.foldrM_cons, run_bind_eq_ok] at run
      obtain ⟨t1, σ1, rest, first⟩ := run
      have isFirst := addDecl_checked first
      obtain ⟨s, _ | e⟩ := d
      · rw [List.map_cons, fieldOrders, List.flatten_cons, List.nil_append]
        exact inductionHypothesis rest
      · rw [List.map_cons, fieldOrders, List.flatten_cons, checked_append]
        rw [fieldOrders, fieldOrders, List.flatten_singleton] at isFirst
        exact ⟨isFirst, inductionHypothesis rest⟩

private theorem ordersList_append (ss ss' : List Stmt) :
    Stmt.ordersList (ss ++ ss') = Stmt.ordersList ss ++ Stmt.ordersList ss' := by
  induction ss with
  | nil => rfl
  | cons s ss inductionHypothesis => simp [Stmt.ordersList, inductionHypothesis]

theorem Translates.checked {retTy : Option Coq.OpType} {ks : List KData} {stmts : List Stmt}
    {σ σ' : State} {t : Coq.Stmt} (run : Translates ctx retTy σ ks stmts t σ') :
    Checked ctx (Stmt.ordersList stmts) := by
  induction run with
  | nil => exact checked_nil
  | block _ _ inductionHypothesis =>
      rw [ordersList_append] at inductionHypothesis
      rwa [Stmt.ordersList, Stmt.orders]
  | goto _ inductionHypothesis | returnVoid _ inductionHypothesis
  | breakS _ _ inductionHypothesis | continueS _ _ inductionHypothesis
  | skip _ inductionHypothesis =>
      rw [Stmt.ordersList, Stmt.orders, List.nil_append]
      · exact inductionHypothesis
      all_goals simp
  | returnS _ translated inductionHypothesis =>
      rw [Stmt.ordersList, Stmt.orders, checked_append]
      refine ⟨inExpr_checked (fun isLocal used used' a run => ?_) translated,
        inductionHypothesis⟩
      exact checksOrders _ _ _ _ ⟨_, _, run⟩
  | expr _ translated inductionHypothesis =>
      rw [Stmt.ordersList, Stmt.orders, checked_append]
      exact ⟨inExpr_checked (fun isLocal used used' a run => translateExprStmt_checked run)
        translated, inductionHypothesis⟩
  | ifLast _ _ _ _ condition first second =>
      simp only [Stmt.ordersList, checked_append] at first second ⊢
      rw [Stmt.orders, checked_append, checked_append]
      exact ⟨⟨⟨translateCond_checked condition, first.1⟩, second.1⟩, checked_nil⟩
  | ifCont _ _ _ _ _ _ _ condition rest first second =>
      simp only [Stmt.ordersList, checked_append] at first second ⊢
      rw [Stmt.orders, checked_append, checked_append]
      exact ⟨⟨⟨translateCond_checked condition, first.1⟩, second.1⟩, rest⟩
  | whileS _ _ _ _ condition _ rest body | doS _ _ _ _ condition _ rest body =>
      simp only [Stmt.ordersList, checked_append] at body ⊢
      rw [Stmt.orders, checked_append]
      exact ⟨⟨translateCond_checked condition, body.1⟩, rest⟩
  | switch _ _ _ _ _ _ _ _ translated rest body =>
      simp only [Stmt.ordersList, checked_append] at body ⊢
      rw [Stmt.orders, checked_append]
      refine ⟨⟨inExpr_checked (fun isLocal used used' a run => ?_) translated, body.1⟩,
        rest⟩
      exact checksOrders _ _ _ _ ⟨_, _, run⟩
  | caseS _ _ _ _ body | default _ _ _ _ body | label _ _ body =>
      simp only [Stmt.ordersList, checked_append] at body ⊢
      rwa [Stmt.orders]
  | declaration _ declared rest =>
      rw [Stmt.ordersList, Stmt.orders, checked_append]
      exact ⟨addDecls_checked declared, rest⟩

/-! ## Functions and programs -/

private theorem translateFunction_checked {name : String} {decl : FunDecl} {fd : FunctionDefinition}
    {fn : Coq.FuncDef} (run : translateFunction ctx name decl fd = .ok fn) :
    Checked ctx fd.body.orders := by
  obtain ⟨steps⟩ := translateFunction_run run
  rw [steps.isBody, Stmt.orders]
  exact steps.translates.checked

/-- The memory orders that occur in a program. -/
def FunctionDefs.orders (program : FunctionDefs ctx) : List OrderArg :=
  program.defs.flatMap fun d => d.2.body.orders

/-- Every memory order of a translated program is sequentially consistent exactly when
those that the translation does not look at are. -/
theorem translate_seqCst_iff (program : FunctionDefs ctx)
    {fns : List (String × Option Coq.FuncDef)}
    (run : translateFunctions ctx program.defs = .ok fns) :
    (∀ o ∈ program.orders, IsSeqCst ctx o.arg) ↔
      ∀ o ∈ program.orders, o.examined = false → IsSeqCst ctx o.arg := by
  refine ⟨fun all o member _ => all o member, fun unexamined o member => ?_⟩
  cases isExamined : o.examined with
  | false => exact unexamined o member isExamined
  | true =>
      obtain ⟨d, isDef, inBody⟩ := List.mem_flatMap.mp member
      obtain ⟨decl, fn, translated⟩ := program.translated run isDef
      exact translateFunction_checked translated o inBody isExamined

end

/-! ## A compare-and-exchange with two orders -/

/-- An LP64 platform with a weak memory order. -/
def orderCtx : Ctx :=
  { lp64Ctx [] [("f", ⟨.void, [], []⟩)] with
    decodeMemoryOrder := fun i =>
      if i = 0 then some .relaxed else if i = 5 then some .seqCst else none }

def intOrder (i : Int) : Expr :=
  .annotated (.rvalue (.integer (.signed .int))) (.const (.integer (.iConstant i)))

/-- The address of a global variable. -/
def globalAddress (x : String) (ty : CType) : Expr :=
  .annotated (.rvalue (.pointer ty)) (.unary .address (.annotated (.lvalue ty) (.ident ⟨0, x⟩)))

/-- `void f(void) { atomic_compare_exchange_strong(&x, &y, 1, success, failure); }` -/
def exchangeProgram (success failure : Int) : FunctionDefs orderCtx where
  defs := [(⟨0, "f"⟩, ⟨[], .block [] [.expr (.annotated (.rvalue (.integer .bool))
    (.call (.annotated (.rvalue (.pointer .void)) (.builtin .atomicCompareExchangeStrong))
      [globalAddress "x" (.atomic (.integer (.signed .int))),
        globalAddress "y" (.integer (.signed .int)), intOrder 1, intOrder success,
        intOrder failure]))]⟩)]
  distinct := List.nodup_singleton _
  declared := by
    intro d member
    rw [List.mem_singleton.mp member]
    exact List.mem_cons_self

private theorem exchangeProgram_orders (success failure : Int) :
    (exchangeProgram success failure).orders =
      [⟨intOrder success, true⟩, ⟨intOrder failure, false⟩] := rfl

theorem translate_seqCst_exchange :
    ∃ fns, translateFunctions orderCtx (exchangeProgram 5 5).defs = .ok fns ∧
      ∀ o ∈ (exchangeProgram 5 5).orders, IsSeqCst orderCtx o.arg := by
  obtain ⟨fns, translated⟩ :
      ∃ fns, translateFunctions orderCtx (exchangeProgram 5 5).defs = .ok fns :=
    exists_ok_of_isOk (by decide +kernel)
  refine ⟨fns, translated, (translate_seqCst_iff (exchangeProgram 5 5) translated).mpr ?_⟩
  rw [exchangeProgram_orders]
  intro o member unexamined
  rcases List.mem_pair.mp member with rfl | rfl
  · cases unexamined
  · rfl

/-- A compare-and-exchange with a relaxed order for its failure is translated. -/
theorem translate_weak_exchange :
    ∃ fns, translateFunctions orderCtx (exchangeProgram 5 0).defs = .ok fns ∧
      ∃ o ∈ (exchangeProgram 5 0).orders,
        memoryOrderOfExpr orderCtx o.arg = .ok .relaxed ∧ ¬ IsSeqCst orderCtx o.arg := by
  obtain ⟨fns, translated⟩ :
      ∃ fns, translateFunctions orderCtx (exchangeProgram 5 0).defs = .ok fns :=
    exists_ok_of_isOk (by decide +kernel)
  refine ⟨fns, translated, ⟨intOrder 0, false⟩, by simp [exchangeProgram_orders], rfl, ?_⟩
  exact fun isSeqCst => nomatch isSeqCst

end RefinedC.Frontend
