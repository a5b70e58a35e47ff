import RefinedC.Caesium.Lang
import RefinedC.Library.Ectxi

/-!
Operational semantics of Caesium.

Source: `theories/caesium/lang.v`, sections on evaluation of expressions and
statements and on evaluation contexts.

Owns: the head steps of expressions, statements and runtime expressions, the
evaluation-context items, and the instance of the library's context language
that gives Caesium its thread pools.

No rule of the source emits an observation or forks a thread, so the step
relations drop the two lists of the source that are always empty.
-/

namespace RefinedC.Caesium

open RefinedC.Library

/-! ## Lock states of loads and stores -/

/-- Lock states in which a load of order `o` may start. -/
def derefStartSt (o : Order) (st : LockState) : Prop :=
  ∃ n, st = match o with
    | .na2Ord => .rSt (n + 1)
    | _ => .rSt n

/-- Lock state after a load of order `o`. The last branch is the one that the
source calls unreachable. -/
def derefEndSt (o : Order) (st : Option LockState) : LockState :=
  match o, st with
  | .na1Ord, some (.rSt n) => .rSt (n + 1)
  | .na2Ord, some (.rSt (n + 1)) => .rSt n
  | .scOrd, some st => st
  | _, _ => .wSt

/-- Result of a load of order `o` that finds the bytes `v'`. -/
def derefEndExpr (o : Order) (ot : OpType) (mc : Bool) (v v' : Val) (σ : State) : Expr :=
  match o with
  | .na1Ord => .deref .na2Ord ot mc (.val v)
  | _ => .val (if mc then memCast v' ot σ.fnAddrs σ.stHeap else v')

def assignStartSt (o : Order) (st : LockState) : Prop :=
  st = match o with
    | .na2Ord => .wSt
    | _ => .rSt 0

def assignEndSt (o : Order) (_ : Option LockState) : LockState :=
  match o with
  | .na1Ord => .wSt
  | _ => .rSt 0

def assignEndVal (o : Order) (v2 v' : Val) : Val :=
  match o with
  | .na1Ord => v'
  | _ => v2

def assignEndStmt (o : Order) (ot : OpType) (v1 v2 : Val) (s : Stmt) : Stmt :=
  match o with
  | .na1Ord => .assign .na2Ord ot (.val v1) (.val v2) s
  | _ => s

/-! ## Head steps -/

/-- Locations and values substituted for the variables of a called function. -/
def callSubst (fn : Function) (lsa lsv : List Loc) : List (VarName × Val) :=
  (fn.fArgs.map Prod.fst ++ fn.fLocalVars.map Prod.fst).zip ((lsa ++ lsv).map valOfLoc)

/-- Frame of a called function. -/
def callFrame (fn : Function) (lsa lsv : List Loc) : RuntimeFunction :=
  ⟨substFunction (callSubst fn lsa lsv) fn,
    lsa.zip (fn.fArgs.map Prod.snd) ++ lsv.zip (fn.fLocalVars.map Prod.snd)⟩

inductive ExprStep : Expr → State → RuntimeExpr → State → Prop where
  | skipES {v : Val} {σ : State} :
      ExprStep (.skipE (.val v)) σ (toRtexpr (.val v)) σ
  | unOpS {op : UnOp} {v v' : Val} {σ : State} {ot : OpType}
      (eval : EvalUnOp op ot σ v v') :
      ExprStep (.unOp op ot (.val v)) σ (toRtexpr (.val v')) σ
  | binOpS {op : BinOp} {v1 v2 v' : Val} {σ : State} {ot1 ot2 : OpType}
      (eval : EvalBinOp op ot1 ot2 σ v1 v2 v') :
      ExprStep (.binOp op ot1 ot2 (.val v1) (.val v2)) σ (toRtexpr (.val v')) σ
  | derefS {o : Order} {v : Val} {l : Loc} {ot : OpType} {v' : Val} {σ : State} {mc : Bool}
      (pointer : valToLoc v = some l)
      (cells : heapAt l ot.otLayout v' (derefStartSt o) σ.stHeap.hsHeap) :
      ExprStep (.deref o ot mc (.val v)) σ (toRtexpr (derefEndExpr o ot mc v v' σ))
        (heapFmap (heapUpd l v' (derefEndSt o)) σ)
  | casFailS {l1 l2 : Loc} {vo ve : Val} {σ : State} {z1 z2 : Int} {v1 v2 v3 : Val}
      {ot : OpType}
      (object : valToLoc v1 = some l1)
      (objectCells : heapAt l1 ot.otLayout vo (fun st => ∃ n, st = .rSt n) σ.stHeap.hsHeap)
      (expected : valToLoc v2 = some l2)
      (expectedCells : heapAt l2 ot.otLayout ve (fun st => st = .rSt 0) σ.stHeap.hsHeap)
      (objectValue : valToZOt vo ot = some z1) (expectedValue : valToZOt ve ot = some z2)
      (desired : hasLayoutVal v3 ot.otLayout) (size : ot.otLayout.lySize ≤ bytesPerAddr)
      (different : z1 ≠ z2) :
      ExprStep (.cas ot (.val v1) (.val v2) (.val v3)) σ (toRtexpr (.val (valOfBool false)))
        (heapFmap (heapUpd l2 vo (fun _ => .rSt 0)) σ)
  | casSucS {l1 l2 : Loc} {ot : OpType} {vo ve : Val} {σ : State} {z1 z2 : Int}
      {v1 v2 v3 : Val}
      (object : valToLoc v1 = some l1)
      (objectCells : heapAt l1 ot.otLayout vo (fun st => st = .rSt 0) σ.stHeap.hsHeap)
      (expected : valToLoc v2 = some l2)
      (expectedCells : heapAt l2 ot.otLayout ve (fun st => ∃ n, st = .rSt n) σ.stHeap.hsHeap)
      (objectValue : valToZOt vo ot = some z1) (expectedValue : valToZOt ve ot = some z2)
      (desired : hasLayoutVal v3 ot.otLayout) (size : ot.otLayout.lySize ≤ bytesPerAddr)
      (same : z1 = z2) :
      ExprStep (.cas ot (.val v1) (.val v2) (.val v3)) σ (toRtexpr (.val (valOfBool true)))
        (heapFmap (heapUpd l1 v3 (fun _ => .rSt 0)) σ)
  | callS {lsa lsv : List Loc} {σ : State} {hs' hs'' : HeapState} {vf : Val} {vs : List Val}
      {fn : Function} {a : Int}
      (callee : valToLoc vf = some (fnLoc a)) (defined : σ.stFntbl a = some fn)
      (argCount : lsa.length = fn.fArgs.length)
      (varCount : lsv.length = fn.fLocalVars.length)
      (argLayouts : List.Forall₂ hasLayoutVal vs (fn.fArgs.map Prod.snd))
      (argAligned : List.Forall₂ hasLayoutLoc lsa (fn.fArgs.map Prod.snd))
      (varAligned : List.Forall₂ hasLayoutLoc lsv (fn.fLocalVars.map Prod.snd))
      (allocVars : AllocNewBlocks σ.stHeap .stackAlloc lsv
        (fn.fLocalVars.map (fun p => List.replicate p.2.lySize .mPoison)) hs')
      (allocArgs : AllocNewBlocks hs' .stackAlloc lsa vs hs'') :
      ExprStep (.call (.val vf) (vs.map .val)) σ
        (toRtstmt (callFrame fn lsa lsv) (.goto fn.fInit)) ⟨hs'', σ.stFntbl⟩
  | callFailS {σ : State} {vf : Val} {vs : List Val} {fn : Function} {a : Int}
      (callee : valToLoc vf = some (fnLoc a)) (defined : σ.stFntbl a = some fn)
      (argLayouts : List.Forall₂ hasLayoutVal vs (fn.fArgs.map Prod.snd)) :
      ExprStep (.call (.val vf) (vs.map .val)) σ .allocFailed σ
  | concatS {vs : List Val} {σ : State} :
      ExprStep (.concat (vs.map .val)) σ (toRtexpr (.val vs.flatten)) σ
  | copyAllocIdS {σ : State} {v1 v2 : Val} {a : Int} {it : IntType} {l : Loc}
      (address : valToZ v1 it = some a) (pointer : valToLoc v2 = some l)
      (valid : validPtr (l.1, a) σ.stHeap) :
      ExprStep (.copyAllocId (.intOp it) (.val v1) (.val v2)) σ
        (toRtexpr (.val (valOfLoc (l.1, a)))) σ
  | ifES {v : Val} {ot : OpType} {e1 e2 : Expr} {b : Bool} {σ : State}
      (condition : castToBool ot v σ.stHeap = some b) :
      ExprStep (.ifE ot (.val v) e1 e2) σ (toRtexpr (if b then e1 else e2)) σ
  | allocS {v : Val} {l : Loc} {ly : Layout} {σ : State} {hs' : HeapState}
      (layout : hasLayoutVal v ly) (aligned : hasLayoutLoc l ly)
      (block : AllocNewBlock σ.stHeap .heapAlloc l v hs') :
      ExprStep (.alloc ly (.val v)) σ (toRtexpr (.val (valOfLoc l))) ⟨hs', σ.stFntbl⟩
  | allocFailS {v : Val} {ly : Layout} {σ : State} (layout : hasLayoutVal v ly) :
      ExprStep (.alloc ly (.val v)) σ .allocFailed σ

inductive StmtStep : Stmt → RuntimeFunction → State → RuntimeExpr → State → Prop where
  | assignS {o : Order} {rf : RuntimeFunction} {σ : State} {s : Stmt} {v1 v2 : Val} {l : Loc}
      {v' : Val} {ot : OpType}
      (pointer : valToLoc v1 = some l) (layout : hasLayoutVal v2 ot.otLayout)
      (cells : heapAt l ot.otLayout v' (assignStartSt o) σ.stHeap.hsHeap) :
      StmtStep (.assign o ot (.val v1) (.val v2) s) rf σ
        (toRtstmt rf (assignEndStmt o ot v1 v2 s))
        (heapFmap (heapUpd l (assignEndVal o v2 v') (assignEndSt o)) σ)
  | ifSS {ot : OpType} {join : Option Label} {v : Val} {s1 s2 : Stmt} {rf : RuntimeFunction}
      {σ : State} {b : Bool} (condition : castToBool ot v σ.stHeap = some b) :
      StmtStep (.ifS ot join (.val v) s1 s2) rf σ (toRtstmt rf (if b then s1 else s2)) σ
  | switchS {rf : RuntimeFunction} {σ : State} {v : Val} {n : Int} {m : PartialMap Int Nat}
      {bs : List Stmt} {def_ : Stmt} {it : IntType}
      (value : valToZ v it = some n)
      (inRange : ∀ i, m n = some i → (bs[i]?).isSome) :
      StmtStep (.switch it (.val v) m bs def_) rf σ
        (toRtstmt rf (((m n).bind (fun i => bs[i]?)).getD def_)) σ
  | gotoS {rf : RuntimeFunction} {σ : State} {b : Label} {s : Stmt}
      (block : rf.rfFn.fCode b = some s) :
      StmtStep (.goto b) rf σ (toRtstmt rf s) σ
  | returnS {rf : RuntimeFunction} {σ : State} {hs : HeapState} {v : Val}
      (deallocate : FreeBlocks σ.stHeap .stackAlloc rf.rfLocs hs) :
      StmtStep (.return (.val v)) rf σ (toRtexpr (.val v)) ⟨hs, σ.stFntbl⟩
  | freeS {ly : Layout} {v : Val} {l : Loc} {s : Stmt} {rf : RuntimeFunction} {σ : State}
      {hs' : HeapState} (pointer : valToLoc v = some l) (aligned : hasLayoutLoc l ly)
      (block : FreeBlock σ.stHeap .heapAlloc l ly hs') :
      StmtStep (.free ly (.val v) s) rf σ (toRtstmt rf s) ⟨hs', σ.stFntbl⟩
  | skipSS {rf : RuntimeFunction} {σ : State} {s : Stmt} :
      StmtStep (.skipS s) rf σ (toRtstmt rf s) σ
  | exprSS {rf : RuntimeFunction} {σ : State} {s : Stmt} {v : Val} :
      StmtStep (.exprS (.val v) s) rf σ (toRtstmt rf s) σ

inductive RuntimeStep : RuntimeExpr → State → RuntimeExpr → State → Prop where
  | exprStep {e : Expr} {σ σ' : State} {e' : RuntimeExpr} (step : ExprStep e σ e' σ') :
      RuntimeStep (toRtexpr e) σ e' σ'
  | stmtStep {s : Stmt} {rf : RuntimeFunction} {σ σ' : State} {e' : RuntimeExpr}
      (step : StmtStep s rf σ e' σ') :
      RuntimeStep (toRtstmt rf s) σ e' σ'
  /-- Allocation failure is no undefined behaviour: it loops. -/
  | allocFailedStep {σ : State} : RuntimeStep .allocFailed σ .allocFailed σ

/-! ## Evaluation contexts -/

inductive ExprEctx where
  | unOpCtx (op : UnOp) (ot : OpType)
  | binOpLCtx (op : BinOp) (ot1 ot2 : OpType) (e2 : RuntimeExpr)
  | binOpRCtx (op : BinOp) (ot1 ot2 : OpType) (v1 : Val)
  | copyAllocIdLCtx (ot1 : OpType) (e2 : RuntimeExpr)
  | copyAllocIdRCtx (ot1 : OpType) (v1 : Val)
  | derefCtx (o : Order) (ot : OpType) (memcast : Bool)
  | callLCtx (args : List RuntimeExpr)
  | callRCtx (f : Val) (vl : List Val) (el : List RuntimeExpr)
  | casLCtx (ot : OpType) (e2 e3 : RuntimeExpr)
  | casMCtx (ot : OpType) (v1 : Val) (e3 : RuntimeExpr)
  | casRCtx (ot : OpType) (v1 v2 : Val)
  | concatCtx (vs : List Val) (es : List RuntimeExpr)
  | ifECtx (ot : OpType) (e2 e3 : RuntimeExpr)
  | allocCtx (ly : Layout)
  | skipECtx

def ofVal (v : Val) : RuntimeExpr := .expr (.val v)

def toVal : RuntimeExpr → Option Val
  | .expr (.val v) => some v
  | _ => none

def exprFillItem (Ki : ExprEctx) (e : RuntimeExpr) : RtExpr :=
  match Ki with
  | .unOpCtx op ot => .unOp op ot e
  | .binOpLCtx op ot1 ot2 e2 => .binOp op ot1 ot2 e e2
  | .binOpRCtx op ot1 ot2 v1 => .binOp op ot1 ot2 (ofVal v1) e
  | .copyAllocIdLCtx ot1 e2 => .copyAllocId ot1 e e2
  | .copyAllocIdRCtx ot1 v1 => .copyAllocId ot1 (ofVal v1) e
  | .derefCtx o ot mc => .deref o ot mc e
  | .callLCtx args => .call e args
  | .callRCtx f vl el => .call (ofVal f) (vl.map ofVal ++ e :: el)
  | .casLCtx ot e2 e3 => .cas ot e e2 e3
  | .casMCtx ot v1 e3 => .cas ot (ofVal v1) e e3
  | .casRCtx ot v1 v2 => .cas ot (ofVal v1) (ofVal v2) e
  | .concatCtx vs es => .concat (vs.map ofVal ++ e :: es)
  | .ifECtx ot e2 e3 => .ifE ot e e2 e3
  | .allocCtx ly => .alloc ly e
  | .skipECtx => .skipE e

/-- Assignment is evaluated right to left. -/
inductive StmtEctx where
  | assignRCtx (o : Order) (ot : OpType) (e1 : Expr) (s : Stmt)
  | assignLCtx (o : Order) (ot : OpType) (v2 : Val) (s : Stmt)
  | returnCtx
  | freeCtx (ly : Layout) (s : Stmt)
  | ifSCtx (ot : OpType) (join : Option Label) (s1 s2 : Stmt)
  | switchCtx (it : IntType) (m : PartialMap Int Nat) (bs : List Stmt) (def_ : Stmt)
  | exprSCtx (s : Stmt)

def stmtFillItem (Ki : StmtEctx) (e : RuntimeExpr) : RtStmt :=
  match Ki with
  | .assignRCtx o ot e1 s => .assign o ot (toRtexpr e1) e s
  | .assignLCtx o ot v2 s => .assign o ot e (ofVal v2) s
  | .returnCtx => .return e
  | .freeCtx ly s => .free ly e s
  | .ifSCtx ot join s1 s2 => .ifS ot join e s1 s2
  | .switchCtx it m bs def_ => .switch it e m bs def_
  | .exprSCtx s => .exprS e s

inductive LangEctx where
  | exprCtx (E : ExprEctx)
  | stmtCtx (E : StmtEctx) (rf : RuntimeFunction)

def langFillItem (Ki : LangEctx) (e : RuntimeExpr) : RuntimeExpr :=
  match Ki with
  | .exprCtx E => .expr (exprFillItem E e)
  | .stmtCtx E rf => .stmt rf (stmtFillItem E e)

/-! ## Caesium as a context language -/

theorem toVal_eq_some {e : RuntimeExpr} {v : Val} (isVal : toVal e = some v) : e = ofVal v := by
  unfold toVal at isVal
  split at isVal
  · simp_all [ofVal]
  · simp at isVal

@[simp] theorem toVal_ofVal (v : Val) : toVal (ofVal v) = some v := rfl

@[simp] theorem ofVal_inj {v v' : Val} : ofVal v = ofVal v' ↔ v = v' := by
  simp [ofVal]

theorem toVal_eq_none {e : RuntimeExpr} : toVal e = none ↔ ∀ v, ofVal v ≠ e := by
  constructor
  · rintro notVal v rfl
    simp at notVal
  · intro notVal
    cases isVal : toVal e with
    | none => rfl
    | some v => exact absurd (toVal_eq_some isVal).symm (notVal v)

theorem toRtexprs_vals (vs : List Val) : toRtexprs (vs.map .val) = vs.map ofVal := by
  induction vs with
  | nil => rfl
  | cons v vs inductionHypothesis =>
      simp only [List.map_cons, toRtexprs, inductionHypothesis]
      rfl

/-- Evaluation contexts with a list of arguments: the values to the left of the
hole are determined by the list. -/
theorem vals_append_inj {vl vl' : List Val} {e e' : RuntimeExpr} {el el' : List RuntimeExpr}
    (notVal : toVal e = none) (notVal' : toVal e' = none)
    (equal : vl.map ofVal ++ e :: el = vl'.map ofVal ++ e' :: el') :
    vl = vl' ∧ e = e' ∧ el = el' := by
  induction vl generalizing vl' with
  | nil =>
      cases vl' with
      | nil => simpa using equal
      | cons v' vl' =>
          simp only [List.map_nil, List.nil_append, List.map_cons, List.cons_append,
            List.cons.injEq] at equal
          rw [equal.1] at notVal
          simp at notVal
  | cons v vl inductionHypothesis =>
      cases vl' with
      | nil =>
          simp only [List.map_nil, List.nil_append, List.map_cons, List.cons_append,
            List.cons.injEq] at equal
          rw [← equal.1] at notVal'
          simp at notVal'
      | cons v' vl' =>
          simp only [List.map_cons, List.cons_append, List.cons.injEq] at equal
          obtain ⟨sameVals, rest⟩ := inductionHypothesis equal.2
          have sameHead : v = v' := by simpa [ofVal] using equal.1
          exact ⟨by rw [sameHead, sameVals], rest⟩

/-- No hole in a list of values. -/
theorem mem_vals_isSome {vl vs : List Val} {e : RuntimeExpr} {el : List RuntimeExpr}
    (equal : vs.map ofVal = vl.map ofVal ++ e :: el) : (toVal e).isSome := by
  have member : e ∈ vs.map ofVal := by
    rw [equal]
    simp
  obtain ⟨v, _, rfl⟩ := List.mem_map.mp member
  simp

mutual

theorem toRtexpr_inj : ∀ {e e' : Expr}, toRtexpr e = toRtexpr e' → e = e'
  | .var _, e', equal | .val _, e', equal | .stuckE, e', equal => by
      cases e' <;> simp_all [toRtexpr]
  | .unOp _ _ e, e', equal | .alloc _ e, e', equal | .skipE e, e', equal
  | .deref _ _ _ e, e', equal => by
      cases e' <;> simp [toRtexpr] at equal
      have inner := fun e' => @toRtexpr_inj e e'
      grind
  | .binOp _ _ _ e1 e2, e', equal | .copyAllocId _ e1 e2, e', equal => by
      cases e' <;> simp [toRtexpr] at equal
      have left := fun e' => @toRtexpr_inj e1 e'
      have right := fun e' => @toRtexpr_inj e2 e'
      grind
  | .cas _ e1 e2 e3, e', equal | .ifE _ e1 e2 e3, e', equal => by
      cases e' <;> simp [toRtexpr] at equal
      have first := fun e' => @toRtexpr_inj e1 e'
      have second := fun e' => @toRtexpr_inj e2 e'
      have third := fun e' => @toRtexpr_inj e3 e'
      grind
  | .call f args, e', equal => by
      cases e' <;> simp [toRtexpr] at equal
      have callee := fun e' => @toRtexpr_inj f e'
      have arguments := fun es' => @toRtexprs_inj args es'
      grind
  | .concat es, e', equal => by
      cases e' <;> simp [toRtexpr] at equal
      have parts := fun es' => @toRtexprs_inj es es'
      grind

private theorem toRtexprs_inj : ∀ {es es' : List Expr}, toRtexprs es = toRtexprs es' → es = es'
  | [], es', equal => by
      cases es' <;> simp_all [toRtexprs]
  | e :: es, es', equal => by
      cases es' <;> simp [toRtexprs] at equal
      have head := fun e' => @toRtexpr_inj e e'
      have tail := fun es' => @toRtexprs_inj es es'
      grind

end

private theorem exprFillItem_noVal_inj {E E' : ExprEctx} {e e' : RuntimeExpr}
    (notVal : toVal e = none) (notVal' : toVal e' = none)
    (equal : exprFillItem E e = exprFillItem E' e') : E = E' := by
  have ne := toVal_eq_none.mp notVal
  have ne' := toVal_eq_none.mp notVal'
  cases E <;> cases E' <;>
    simp only [exprFillItem, RtExpr.unOp.injEq, RtExpr.binOp.injEq, RtExpr.copyAllocId.injEq,
      RtExpr.deref.injEq, RtExpr.call.injEq, RtExpr.cas.injEq, RtExpr.concat.injEq,
      RtExpr.ifE.injEq, RtExpr.alloc.injEq, reduceCtorEq] at equal
  case callRCtx.callRCtx =>
    obtain ⟨sameVals, -, sameRest⟩ := vals_append_inj notVal notVal' equal.2
    simp_all
  case concatCtx.concatCtx =>
    obtain ⟨sameVals, -, sameRest⟩ := vals_append_inj notVal notVal' equal
    simp_all
  all_goals simp_all

private theorem stmtFillItem_noVal_inj {E E' : StmtEctx} {e e' : RuntimeExpr}
    (notVal : toVal e = none) (notVal' : toVal e' = none)
    (equal : stmtFillItem E e = stmtFillItem E' e') : E = E' := by
  have ne := toVal_eq_none.mp notVal
  have ne' := toVal_eq_none.mp notVal'
  cases E <;> cases E' <;>
    simp only [stmtFillItem, RtStmt.assign.injEq, RtStmt.return.injEq, RtStmt.free.injEq,
      RtStmt.ifS.injEq, RtStmt.switch.injEq, RtStmt.exprS.injEq, reduceCtorEq] at equal
  case assignRCtx.assignRCtx =>
    have sameLeft := toRtexpr_inj equal.2.2.1
    simp_all
  all_goals simp_all

private theorem langFillItem_inj {K : LangEctx} {e e' : RuntimeExpr}
    (equal : langFillItem K e = langFillItem K e') : e = e' := by
  cases K with
  | exprCtx E => cases E <;> simp_all [langFillItem, exprFillItem]
  | stmtCtx E rf => cases E <;> simp_all [langFillItem, stmtFillItem]

private theorem langFillItem_noVal_inj {K K' : LangEctx} {e e' : RuntimeExpr}
    (notVal : toVal e = none) (notVal' : toVal e' = none)
    (equal : langFillItem K e = langFillItem K' e') : K = K' := by
  cases K <;> cases K' <;> simp only [langFillItem, RuntimeExpr.expr.injEq,
    RuntimeExpr.stmt.injEq, reduceCtorEq] at equal
  · rw [exprFillItem_noVal_inj notVal notVal' equal]
  · rw [stmtFillItem_noVal_inj notVal notVal' equal.2, equal.1]

private theorem langFillItem_toVal {K : LangEctx} {e : RuntimeExpr} :
    toVal (langFillItem K e) = none := by
  cases K with
  | exprCtx E => cases E <;> rfl
  | stmtCtx E rf => rfl

private theorem exprStep_fillItem {e : Expr} {σ σ' : State} {r inner : RuntimeExpr} {K : LangEctx}
    (step : ExprStep e σ r σ') (shape : toRtexpr e = langFillItem K inner) :
    (toVal inner).isSome := by
  cases K with
  | stmtCtx E rf => cases e <;> simp [toRtexpr, langFillItem] at shape
  | exprCtx E =>
      cases step <;> cases E <;>
        simp only [toRtexpr, toRtexprs_vals, langFillItem, exprFillItem, RuntimeExpr.expr.injEq,
          RtExpr.unOp.injEq, RtExpr.binOp.injEq, RtExpr.copyAllocId.injEq, RtExpr.deref.injEq,
          RtExpr.call.injEq, RtExpr.cas.injEq, RtExpr.concat.injEq, RtExpr.ifE.injEq,
          RtExpr.alloc.injEq, RtExpr.skipE.injEq, reduceCtorEq] at shape
      all_goals first
        | exact mem_vals_isSome shape
        | exact mem_vals_isSome shape.2
        | grind [toVal]

private theorem stmtStep_fillItem {s : Stmt} {rf : RuntimeFunction} {σ σ' : State}
    {r inner : RuntimeExpr} {K : LangEctx}
    (step : StmtStep s rf σ r σ') (shape : toRtstmt rf s = langFillItem K inner) :
    (toVal inner).isSome := by
  cases K with
  | exprCtx E => cases s <;> simp [toRtstmt, langFillItem] at shape
  | stmtCtx E rf =>
      cases step <;> cases E <;>
        simp only [toRtstmt, toRtexpr, langFillItem, stmtFillItem, RuntimeExpr.stmt.injEq,
          RtStmt.assign.injEq, RtStmt.return.injEq, RtStmt.free.injEq, RtStmt.ifS.injEq,
          RtStmt.switch.injEq, RtStmt.exprS.injEq, reduceCtorEq, and_false] at shape
      all_goals grind [toVal]

private theorem runtimeStep_fillItem {inner r : RuntimeExpr} {σ σ' : State} {K : LangEctx}
    (step : RuntimeStep (langFillItem K inner) σ r σ') : (toVal inner).isSome := by
  generalize shape : langFillItem K inner = redex at step
  cases step with
  | exprStep step => exact exprStep_fillItem step shape.symm
  | stmtStep step => exact stmtStep_fillItem step shape.symm
  | allocFailedStep => cases K <;> simp [langFillItem] at shape

private theorem runtimeStep_toVal {e r : RuntimeExpr} {σ σ' : State}
    (step : RuntimeStep e σ r σ') : toVal e = none := by
  cases step with
  | exprStep step => cases step <;> rfl
  | stmtStep step => cases step <;> rfl
  | allocFailedStep => rfl

theorem runtimeStep_fntbl {e e' : RuntimeExpr} {σ σ' : State}
    (step : RuntimeStep e σ e' σ') : σ'.stFntbl = σ.stFntbl := by
  cases step with
  | exprStep step => cases step <;> rfl
  | stmtStep step => cases step <;> rfl
  | allocFailedStep => rfl

/-! ## Inversion of steps at a given redex -/

theorem toRtstmt_inj {rf rf' : RuntimeFunction} {s s' : Stmt}
    (equal : toRtstmt rf s = toRtstmt rf' s') : rf = rf' ∧ s = s' := by
  have inner := @toRtexpr_inj
  cases s <;> cases s' <;> simp [toRtstmt] at equal <;> grind

theorem toRtexpr_ne_toRtstmt {e : Expr} {rf : RuntimeFunction} {s : Stmt} :
    toRtexpr e ≠ toRtstmt rf s := by
  cases e <;> cases s <;> simp [toRtexpr, toRtstmt]

theorem runtimeStep_toRtexpr {e : Expr} {σ σ' : State} {e' : RuntimeExpr}
    (step : RuntimeStep (toRtexpr e) σ e' σ') : ExprStep e σ e' σ' := by
  generalize shape : toRtexpr e = redex at step
  cases step with
  | exprStep step => exact toRtexpr_inj shape ▸ step
  | stmtStep step => exact absurd shape toRtexpr_ne_toRtstmt
  | allocFailedStep => cases e <;> simp [toRtexpr] at shape

theorem runtimeStep_toRtstmt {s : Stmt} {rf : RuntimeFunction} {σ σ' : State}
    {e' : RuntimeExpr} (step : RuntimeStep (toRtstmt rf s) σ e' σ') :
    StmtStep s rf σ e' σ' := by
  generalize shape : toRtstmt rf s = redex at step
  cases step with
  | exprStep step => exact absurd shape.symm toRtexpr_ne_toRtstmt
  | stmtStep step =>
      obtain ⟨rfl, rfl⟩ := toRtstmt_inj shape
      exact step
  | allocFailedStep => cases s <;> simp [toRtstmt] at shape

/-! ## The instance -/

/-- Caesium with its evaluation contexts. -/
def cLang : EctxiLanguage RuntimeExpr Val LangEctx State where
  toVal := toVal
  fillItem := langFillItem
  headStep := RuntimeStep
  valStuck := runtimeStep_toVal
  fillItemInj := langFillItem_inj
  fillItemVal := fun _ => langFillItem_toVal
  fillItemNoValInj := langFillItem_noVal_inj
  headStepFillItem := runtimeStep_fillItem

end RefinedC.Caesium
