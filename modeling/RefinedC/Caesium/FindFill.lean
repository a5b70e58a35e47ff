import RefinedC.Caesium.Evaluation
import RefinedC.Caesium.LockState
import RefinedC.Caesium.Reified

/-!
Contexts of reified expressions and statements.

Source: `ectx_item`, `fill`, `find_expr_fill`, `stmt_ectx`, `stmt_fill` and
`find_stmt_fill` of module `W` in `theories/caesium/tactics.v`.

Owns: the search for the expression that is evaluated first, and that evaluation binds
there: it evaluates what was found, and then the rest around its value.

Does not own: the search in arguments of calls, in macros and in struct initialisers,
which finds nothing.
-/

namespace RefinedC.Caesium

open RefinedC.Library

namespace W

/-! ## Contexts of expressions -/

inductive EctxItem where
  | unOpCtx (op : UnOp) (ot : OpType)
  | binOpLCtx (op : BinOp) (ot1 ot2 : OpType) (e2 : Expr)
  | binOpRCtx (op : BinOp) (ot1 ot2 : OpType) (v1 : Val)
  | copyAllocIdLCtx (ot1 : OpType) (e2 : Expr)
  | copyAllocIdRCtx (ot1 : OpType) (v1 : Val)
  | derefCtx (o : Order) (ot : OpType) (memcast : Bool)
  | casLCtx (ot : OpType) (e2 e3 : Expr)
  | casMCtx (ot : OpType) (v1 : Val) (e3 : Expr)
  | casRCtx (ot : OpType) (v1 v2 : Val)
  | callLCtx (args : List Expr)
  | callRCtx (f : Val) (vl : List Val) (el : List Expr)
  | concatCtx (vs : List Val) (es : List Expr)
  | ifECtx (ot : OpType) (e2 e3 : Expr)
  | allocCtx (ly : Layout)
  | skipECtx
  -- the derived forms
  | useCtx (o : Order) (ot : OpType) (memcast : Bool)
  | addrOfCtx
  | lValueCtx
  | annotExprCtx (n : Nat) {A : Type} (a : A)
  | locInfoECtx (a : LocationInfo)
  | getMemberCtx (s : StructLayout) (m : VarName)
  | getMemberUnionCtx (ul : UnionLayout) (m : VarName)

def fillItem (Ki : EctxItem) (e : Expr) : Expr :=
  match Ki with
  | .unOpCtx op ot => .unOp op ot e
  | .binOpLCtx op ot1 ot2 e2 => .binOp op ot1 ot2 e e2
  | .binOpRCtx op ot1 ot2 v1 => .binOp op ot1 ot2 (.val v1) e
  | .copyAllocIdLCtx ot1 e2 => .copyAllocId ot1 e e2
  | .copyAllocIdRCtx ot1 v1 => .copyAllocId ot1 (.val v1) e
  | .derefCtx o ot mc => .deref o ot mc e
  | .casLCtx ot e2 e3 => .cas ot e e2 e3
  | .casMCtx ot v1 e3 => .cas ot (.val v1) e e3
  | .casRCtx ot v1 v2 => .cas ot (.val v1) (.val v2) e
  | .callLCtx args => .call e args
  | .callRCtx f vl el => .call (.val f) (vl.map .val ++ e :: el)
  | .concatCtx vs es => .concat (vs.map .val ++ e :: es)
  | .ifECtx ot e2 e3 => .ifE ot e e2 e3
  | .allocCtx ly => .alloc ly e
  | .skipECtx => .skipE e
  | .useCtx o ot mc => .use o ot mc e
  | .addrOfCtx => .addrOf e
  | .lValueCtx => .lValue e
  | .annotExprCtx n a => .annotExpr n a e
  | .locInfoECtx a => .locInfoE a e
  | .getMemberCtx s m => .getMember e s m
  | .getMemberUnionCtx ul m => .getMemberUnion e ul m

/-- The first item is the innermost one. -/
def fill (K : List EctxItem) (e : Expr) : Expr := K.foldl (fun e Ki => fillItem Ki e) e

private theorem fill_app (K1 K2 : List EctxItem) (e : Expr) :
    fill (K1 ++ K2) e = fill K2 (fill K1 e) :=
  List.foldl_append

/-! ## The search -/

/-- Adds an item to what was found below it. -/
def under (found : Option (List EctxItem × Expr)) (K : EctxItem)
    (otherwise : Option (List EctxItem × Expr)) : Option (List EctxItem × Expr) :=
  match found with
  | some (Ks, e') => some (Ks ++ [K], e')
  | none => otherwise

/-- Nothing is found to the right of an expression that is not a value. -/
def underVal (e : Expr) (found : List EctxItem × Expr) (K : Val → EctxItem) :
    Option (List EctxItem × Expr) :=
  match e with
  | .val v => some (found.1 ++ [K v], found.2)
  | _ => none

def underSecond (e1 : Expr) (found : Option (List EctxItem × Expr)) (K : Val → EctxItem)
    (otherwise : Option (List EctxItem × Expr)) : Option (List EctxItem × Expr) :=
  match found with
  | some f => underVal e1 f K
  | none => otherwise

def findExprFill (e : Expr) (bindVal : Bool) : Option (List EctxItem × Expr) :=
  match e with
  | .var _ => none
  | .val v => if bindVal then some ([], .val v) else none
  | .loc l => if bindVal then some ([], .loc l) else none
  | .expr e => some ([], .expr e)
  | .stuckE => some ([], .stuckE)
  | .unOp op ot e1 => under (findExprFill e1 bindVal) (.unOpCtx op ot) (some ([], e))
  | .binOp op ot1 ot2 e1 e2 =>
      under (findExprFill e1 bindVal) (.binOpLCtx op ot1 ot2 e2)
        (underSecond e1 (findExprFill e2 bindVal) (.binOpRCtx op ot1 ot2) (some ([], e)))
  | .copyAllocId ot1 e1 e2 =>
      under (findExprFill e1 bindVal) (.copyAllocIdLCtx ot1 e2)
        (underSecond e1 (findExprFill e2 bindVal) (.copyAllocIdRCtx ot1) (some ([], e)))
  | .cas ot e1 e2 e3 =>
      under (findExprFill e1 bindVal) (.casLCtx ot e2 e3)
        (underSecond e1 (findExprFill e2 bindVal) (fun v1 => .casMCtx ot v1 e3)
          (match findExprFill e3 bindVal with
          | some found =>
              match e1 with
              | .val v1 => underVal e2 found (.casRCtx ot v1)
              | _ => none
          | none => some ([], e)))
  | .call f args => under (findExprFill f bindVal) (.callLCtx args) none
  | .concat _ | .macroE _ _ _ | .offsetOf _ _ | .offsetOfUnion _ _ | .logicalAnd _ _ _ _ _
  | .logicalOr _ _ _ _ _ => none
  | .ifE ot e1 e2 e3 => under (findExprFill e1 bindVal) (.ifECtx ot e2 e3) (some ([], e))
  | .alloc ly e1 => under (findExprFill e1 bindVal) (.allocCtx ly) (some ([], e))
  | .skipE e1 => under (findExprFill e1 bindVal) .skipECtx (some ([], e))
  | .deref o ot mc e1 => under (findExprFill e1 bindVal) (.derefCtx o ot mc) (some ([], e))
  | .use o ot mc e1 => under (findExprFill e1 bindVal) (.useCtx o ot mc) (some ([], e))
  | .addrOf e1 => under (findExprFill e1 bindVal) .addrOfCtx (some ([], e))
  | .lValue e1 => under (findExprFill e1 bindVal) .lValueCtx (some ([], e))
  | .annotExpr n a e1 => under (findExprFill e1 bindVal) (.annotExprCtx n a) (some ([], e))
  | .locInfoE a e1 => under (findExprFill e1 bindVal) (.locInfoECtx a) (some ([], e))
  | .structInit _ _ => none
  | .getMember e1 s m => under (findExprFill e1 bindVal) (.getMemberCtx s m) (some ([], e))
  | .getMemberUnion e1 ul m =>
      under (findExprFill e1 bindVal) (.getMemberUnionCtx ul m) (some ([], e))

/-- Whatever is found fills its context to the expression. -/
def Finds (found : Option (List EctxItem × Expr)) (e : Expr) : Prop :=
  ∀ Ks e', found = some (Ks, e') → e = fill Ks e'

section

variable {e e1 e2 : Expr} {found : Option (List EctxItem × Expr)}

private theorem finds_none (e : Expr) : Finds none e := nofun

private theorem finds_self (e : Expr) : Finds (some ([], e)) e := by
  intro Ks e' found
  cases found
  rfl

private theorem under_finds {K : EctxItem} {otherwise : Option (List EctxItem × Expr)}
    (inner : Finds found e1) (isItem : fillItem K e1 = e) (other : Finds otherwise e) :
    Finds (under found K otherwise) e := by
  intro Ks e' result
  cases found with
  | none => exact other Ks e' result
  | some f =>
      cases result
      rw [fill_app, ← inner _ _ rfl, ← isItem]
      rfl

private theorem underVal_finds {f : List EctxItem × Expr} {K : Val → EctxItem}
    (inner : Finds (some f) e2)
    (isItem : ∀ v, e1 = .val v → fillItem (K v) e2 = e) : Finds (underVal e1 f K) e := by
  intro Ks e' result
  cases e1 with
  | val v =>
      cases result
      rw [fill_app, ← inner _ _ rfl, ← isItem v rfl]
      rfl
  | _ => cases result

private theorem underSecond_finds {K : Val → EctxItem}
    {otherwise : Option (List EctxItem × Expr)}
    (inner : Finds found e2) (isItem : ∀ v, e1 = .val v → fillItem (K v) e2 = e)
    (other : Finds otherwise e) :
    Finds (underSecond e1 found K otherwise) e := by
  cases found with
  | none => exact other
  | some f => exact underVal_finds inner isItem

end

private theorem findExprFill_finds (bindVal : Bool) :
    (e : Expr) → Finds (findExprFill e bindVal) e
  | .var x => finds_none _
  | .val v => by
      rw [findExprFill]
      split
      · exact finds_self _
      · exact finds_none _
  | .loc l => by
      rw [findExprFill]
      split
      · exact finds_self _
      · exact finds_none _
  | .expr e => finds_self _
  | .stuckE => finds_self _
  | .unOp op ot e1 => under_finds (findExprFill_finds bindVal e1) rfl (finds_self _)
  | .binOp op ot1 ot2 e1 e2 =>
      under_finds (findExprFill_finds bindVal e1) rfl
        (underSecond_finds (findExprFill_finds bindVal e2) (fun v isVal => by rw [isVal]; rfl)
          (finds_self _))
  | .copyAllocId ot1 e1 e2 =>
      under_finds (findExprFill_finds bindVal e1) rfl
        (underSecond_finds (findExprFill_finds bindVal e2) (fun v isVal => by rw [isVal]; rfl)
          (finds_self _))
  | .cas ot e1 e2 e3 => by
      refine under_finds (findExprFill_finds bindVal e1) rfl
        (underSecond_finds (findExprFill_finds bindVal e2) (fun v isVal => by rw [isVal]; rfl) ?_)
      have inner := findExprFill_finds bindVal e3
      cases found : findExprFill e3 bindVal with
      | none => exact finds_self _
      | some f =>
          rw [found] at inner
          cases e1 with
          | val v1 => exact underVal_finds inner fun v isVal => by rw [isVal]; rfl
          | _ => exact finds_none _
  | .call f args => under_finds (findExprFill_finds bindVal f) rfl (finds_none _)
  | .concat _ | .macroE _ _ _ | .offsetOf _ _ | .offsetOfUnion _ _ | .logicalAnd _ _ _ _ _
  | .logicalOr _ _ _ _ _ | .structInit _ _ => finds_none _
  | .ifE ot e1 e2 e3 => under_finds (findExprFill_finds bindVal e1) rfl (finds_self _)
  | .alloc ly e1 => under_finds (findExprFill_finds bindVal e1) rfl (finds_self _)
  | .skipE e1 => under_finds (findExprFill_finds bindVal e1) rfl (finds_self _)
  | .deref o ot mc e1 => under_finds (findExprFill_finds bindVal e1) rfl (finds_self _)
  | .use o ot mc e1 => under_finds (findExprFill_finds bindVal e1) rfl (finds_self _)
  | .addrOf e1 => under_finds (findExprFill_finds bindVal e1) rfl (finds_self _)
  | .lValue e1 => under_finds (findExprFill_finds bindVal e1) rfl (finds_self _)
  | .annotExpr n a e1 => under_finds (findExprFill_finds bindVal e1) rfl (finds_self _)
  | .locInfoE a e1 => under_finds (findExprFill_finds bindVal e1) rfl (finds_self _)
  | .getMember e1 s m => under_finds (findExprFill_finds bindVal e1) rfl (finds_self _)
  | .getMemberUnion e1 ul m => under_finds (findExprFill_finds bindVal e1) rfl (finds_self _)

/-! ## Contexts of the language -/

/-- The items of the language that an item stands for, from the outermost one. -/
def itemContext (Ki : EctxItem) : List LangEctx :=
  match Ki with
  | .unOpCtx op ot => [.exprCtx (.unOpCtx op ot)]
  | .binOpLCtx op ot1 ot2 e2 => [.exprCtx (.binOpLCtx op ot1 ot2 (toRtexpr (toExpr e2)))]
  | .binOpRCtx op ot1 ot2 v1 => [.exprCtx (.binOpRCtx op ot1 ot2 v1)]
  | .copyAllocIdLCtx ot1 e2 => [.exprCtx (.copyAllocIdLCtx ot1 (toRtexpr (toExpr e2)))]
  | .copyAllocIdRCtx ot1 v1 => [.exprCtx (.copyAllocIdRCtx ot1 v1)]
  | .derefCtx o ot mc | .useCtx o ot mc => [.exprCtx (.derefCtx o ot mc)]
  | .casLCtx ot e2 e3 =>
      [.exprCtx (.casLCtx ot (toRtexpr (toExpr e2)) (toRtexpr (toExpr e3)))]
  | .casMCtx ot v1 e3 => [.exprCtx (.casMCtx ot v1 (toRtexpr (toExpr e3)))]
  | .casRCtx ot v1 v2 => [.exprCtx (.casRCtx ot v1 v2)]
  | .callLCtx args => [.exprCtx (.callLCtx (toRtexprs (toExprs args)))]
  | .callRCtx f vl el => [.exprCtx (.callRCtx f vl (toRtexprs (toExprs el)))]
  | .concatCtx vs es => [.exprCtx (.concatCtx vs (toRtexprs (toExprs es)))]
  | .ifECtx ot e2 e3 => [.exprCtx (.ifECtx ot (toRtexpr (toExpr e2)) (toRtexpr (toExpr e3)))]
  | .allocCtx ly => [.exprCtx (.allocCtx ly)]
  | .skipECtx => [.exprCtx .skipECtx]
  | .addrOfCtx | .lValueCtx | .locInfoECtx _ | .getMemberUnionCtx _ _ => []
  | .annotExprCtx n _ => List.replicate n (.exprCtx .skipECtx)
  | .getMemberCtx s m =>
      [.exprCtx (.binOpRCtx (.ptrOffsetOp u8.itLayout) (.intOp sizeT) .ptrOp
        (((Caesium.offsetOf s.slMembers m).bind fun m => valOfZ m sizeT none).getD [.mPoison]))]

def context (Ks : List EctxItem) : List LangEctx :=
  match Ks with
  | [] => []
  | K :: Ks => context Ks ++ itemContext K

private theorem toExprs_append (es1 es2 : List Expr) :
    toExprs (es1 ++ es2) = toExprs es1 ++ toExprs es2 := by
  induction es1 with
  | nil => rfl
  | cons e es1 inductionHypothesis =>
      rw [List.cons_append, toExprs, toExprs, inductionHypothesis, List.cons_append]

private theorem toRtexprs_append (es1 es2 : List Caesium.Expr) :
    toRtexprs (es1 ++ es2) = toRtexprs es1 ++ toRtexprs es2 := by
  induction es1 with
  | nil => rfl
  | cons e es1 inductionHypothesis =>
      rw [List.cons_append, toRtexprs, toRtexprs, inductionHypothesis, List.cons_append]

private theorem toExprs_vals (vs : List Val) : toExprs (vs.map .val) = vs.map .val := by
  induction vs with
  | nil => rfl
  | cons v vs inductionHypothesis =>
      rw [List.map_cons, toExprs, inductionHypothesis]
      rfl

/-- Arguments to the right of values. -/
theorem toRtexprs_hole (vs : List Val) (e : Expr) (es : List Expr) :
    toRtexprs (toExprs (vs.map .val ++ e :: es)) =
      vs.map ofVal ++ toRtexpr (toExpr e) :: toRtexprs (toExprs es) := by
  rw [toExprs_append, toRtexprs_append, toExprs_vals, toRtexprs_vals, toExprs, toRtexprs]

private theorem fillItem_context (Ki : EctxItem) (e : Expr) :
    toRtexpr (toExpr (fillItem Ki e)) = cLang.fill (itemContext Ki) (toRtexpr (toExpr e)) := by
  cases Ki with
  | callRCtx f vl el =>
      rw [fillItem, toExpr, toRtexpr, toRtexprs_hole]
      rfl
  | concatCtx vs es =>
      rw [fillItem, toExpr, toRtexpr, toRtexprs_hole]
      rfl
  | annotExprCtx n a =>
      rw [fillItem, toExpr, itemContext, Caesium.Expr.annotExpr]
      induction n with
      | zero => rfl
      | succ n inductionHypothesis =>
          rw [Nat.repeat, toRtexpr, inductionHypothesis]
          rfl
  | _ => rfl

private theorem fill_context (Ks : List EctxItem) (e : Expr) :
    toRtexpr (toExpr (fill Ks e)) = cLang.fill (context Ks) (toRtexpr (toExpr e)) := by
  induction Ks generalizing e with
  | nil => rfl
  | cons K Ks inductionHypothesis =>
      show toRtexpr (toExpr (fill Ks (fillItem K e))) = _
      rw [inductionHypothesis, fillItem_context, context, cLang.fill_append]

/-! ## Contexts of statements -/

inductive StmtEctx where
  | assignRCtx (o : Order) (ot : OpType) (e1 : Expr) (s : Stmt)
  | assignLCtx (o : Order) (ot : OpType) (v2 : Val) (s : Stmt)
  | returnCtx
  | ifSCtx (ot : OpType) (join : Option Label) (s1 s2 : Stmt)
  | switchCtx (it : IntType) (m : PartialMap Int Nat) (bs : List Stmt) (def_ : Stmt)
  | exprSCtx (s : Stmt)
  | assertCtx (ot : OpType) (s : Stmt)
  | freeCtx (ly : Layout) (s : Stmt)

def stmtFill (Ki : StmtEctx) (e : Expr) : Stmt :=
  match Ki with
  | .assignRCtx o ot e1 s => .assign o ot e1 e s
  | .assignLCtx o ot v2 s => .assign o ot e (.val v2) s
  | .returnCtx => .return e
  | .exprSCtx s => .exprS e s
  | .ifSCtx ot join s1 s2 => .ifS ot join e s1 s2
  | .switchCtx it m bs def_ => .switch it e m bs def_
  | .assertCtx ot s => .assert ot e s
  | .freeCtx ly s => .free ly e s

/-- Values are not found. -/
def unlessVal (e : Expr) (K : StmtEctx) : Option (StmtEctx × Expr) :=
  match e with
  | .val _ => none
  | _ => some (K, e)

def findStmtFill (s : Stmt) : Option (StmtEctx × Expr) :=
  match s with
  | .goto _ | .stmt _ | .annotStmt _ _ _ | .locInfoS _ _ | .skipS _ | .stuckS => none
  | .return e => unlessVal e .returnCtx
  | .exprS e s => unlessVal e (.exprSCtx s)
  | .ifS ot join e s1 s2 => unlessVal e (.ifSCtx ot join s1 s2)
  | .switch it e m bs def_ => unlessVal e (.switchCtx it m bs def_)
  | .assign o ot e1 e2 s =>
      match e2 with
      | .val v => unlessVal e1 (.assignLCtx o ot v s)
      | _ => some (.assignRCtx o ot e1 s, e2)
  | .assert ot e s => unlessVal e (.assertCtx ot s)
  | .free ly e s => unlessVal e (.freeCtx ly s)

private theorem unlessVal_eq_some {e e' : Expr} {K K' : StmtEctx}
    (found : unlessVal e K = some (K', e')) :
    K' = K ∧ e' = e := by
  cases e with
  | val v => cases found
  | _ =>
      cases found
      exact ⟨rfl, rfl⟩

private theorem findStmtFill_correct {s : Stmt} {K : StmtEctx} {e : Expr}
    (found : findStmtFill s = some (K, e)) : s = stmtFill K e := by
  cases s with
  | assign o ot e1 e2 s =>
      cases e2 with
      | val v =>
          obtain ⟨rfl, rfl⟩ := unlessVal_eq_some found
          rfl
      | _ =>
          cases found
          rfl
  | «return» e | exprS e s | ifS ot join e s1 s2 | switch it e m bs def_ | assert ot e s
  | free ly e s =>
      obtain ⟨rfl, rfl⟩ := unlessVal_eq_some found
      rfl
  | _ => cases found

def stmtContext (K : StmtEctx) (rf : RuntimeFunction) : LangEctx :=
  match K with
  | .assignRCtx o ot e1 s => .stmtCtx (.assignRCtx o ot (toExpr e1) (toStmt s)) rf
  | .assignLCtx o ot v2 s => .stmtCtx (.assignLCtx o ot v2 (toStmt s)) rf
  | .returnCtx => .stmtCtx .returnCtx rf
  | .exprSCtx s => .stmtCtx (.exprSCtx (toStmt s)) rf
  | .ifSCtx ot join s1 s2 => .stmtCtx (.ifSCtx ot join (toStmt s1) (toStmt s2)) rf
  | .switchCtx it m bs def_ => .stmtCtx (.switchCtx it m (toStmts bs) (toStmt def_)) rf
  | .assertCtx ot s => .stmtCtx (.ifSCtx ot none (toStmt s) .stuckS) rf
  | .freeCtx ly s => .stmtCtx (.freeCtx ly (toStmt s)) rf

private theorem stmtFill_context (K : StmtEctx) (rf : RuntimeFunction) (e : Expr) :
    toRtstmt rf (toStmt (stmtFill K e)) = cLang.fill [stmtContext K rf] (toRtexpr (toExpr e)) := by
  cases K
  all_goals rfl

end W

/-! ## Binding -/

section

variable {P : State → Prop} {σ σ' : State}

/-- Evaluation under a context binds. -/
theorem stepsIn_bind_iff {K : List LangEctx} {e : Expr} {b : RuntimeExpr × State} (start : P σ)
    (isVal : (toVal b.1).isSome) :
    cLang.StepsIn P (cLang.fill K (toRtexpr e), σ) b ↔
      ∃ w σ1, Evaluates P e σ w σ1 ∧ cLang.StepsIn P (cLang.fill K (ofVal w), σ1) b := by
  rw [EctxiLanguage.stepsIn_fill_iff isVal]
  constructor
  · rintro ⟨e', σ1, isValue, before, after⟩
    obtain ⟨w, isW⟩ := Option.isSome_iff_exists.mp isValue
    obtain rfl := toVal_eq_some isW
    exact ⟨w, σ1, ⟨start, before⟩, after⟩
  · rintro ⟨w, σ1, before, after⟩
    exact ⟨ofVal w, σ1, rfl, before.2, after⟩

/-- Where the searches find an expression, evaluation binds: what was found is evaluated
first, and its value takes its place. Other threads may run in between. -/
theorem find_binds :
    (∀ e bindVal Ks e', W.findExprFill e bindVal = some (Ks, e') → ∀ v,
      Evaluates P (W.toExpr e) σ v σ' ↔
        ∃ w σ1, Evaluates P (W.toExpr e') σ w σ1 ∧
          Evaluates P (W.toExpr (W.fill Ks (.val w))) σ1 v σ') ∧
    ∀ s K e', W.findStmtFill s = some (K, e') → P σ → ∀ rf v,
      cLang.StepsIn P (toRtstmt rf (W.toStmt s), σ) (ofVal v, σ') ↔
        ∃ w σ1, Evaluates P (W.toExpr e') σ w σ1 ∧
          cLang.StepsIn P (toRtstmt rf (W.toStmt (W.stmtFill K (.val w))), σ1) (ofVal v, σ') := by
  constructor
  · intro e bindVal Ks e' found v
    obtain rfl := W.findExprFill_finds bindVal e Ks e' found
    constructor
    · rintro ⟨start, run⟩
      rw [W.fill_context, stepsIn_bind_iff start rfl] at run
      obtain ⟨w, σ1, before, after⟩ := run
      refine ⟨w, σ1, before, before.holds, ?_⟩
      rw [W.fill_context]
      exact after
    · rintro ⟨w, σ1, before, -, after⟩
      rw [W.fill_context] at after
      refine ⟨before.1, ?_⟩
      rw [W.fill_context]
      exact (stepsIn_bind_iff before.1 rfl).mpr ⟨w, σ1, before, after⟩
  · intro s K e' found start rf v
    obtain rfl := W.findStmtFill_correct found
    rw [W.stmtFill_context, stepsIn_bind_iff start rfl]
    constructor
    · rintro ⟨w, σ1, before, after⟩
      refine ⟨w, σ1, before, ?_⟩
      rw [W.stmtFill_context]
      exact after
    · rintro ⟨w, σ1, before, after⟩
      refine ⟨w, σ1, before, ?_⟩
      rw [W.stmtFill_context] at after
      exact after

end

/-- A load of one shared byte. -/
def useShared : W.Expr :=
  .use .na1Ord (.intOp u8) false (.addrOf (.expr (.val (valOfLoc sharedLoc))))

/-- The address of a load is found, and the load in a statement that returns it. -/
theorem find_binds_use :
    (Evaluates (fun _ => True) (W.toExpr useShared) sharedByte [.mByte byte0 none] sharedByte ↔
      ∃ w σ1,
        Evaluates (fun _ => True)
          (W.toExpr (.expr (.val (valOfLoc sharedLoc)))) sharedByte w σ1 ∧
          Evaluates (fun _ => True)
            (W.toExpr (W.fill [.addrOfCtx, .useCtx .na1Ord (.intOp u8) false] (.val w))) σ1
            [.mByte byte0 none] sharedByte) ∧
      ∀ rf, cLang.StepsIn (fun _ => True) (toRtstmt rf (W.toStmt (.return useShared)), sharedByte)
          (ofVal [.mByte byte0 none], sharedByte) ↔
        ∃ w σ1, Evaluates (fun _ => True) (W.toExpr useShared) sharedByte w σ1 ∧
          cLang.StepsIn (fun _ => True)
            (toRtstmt rf (W.toStmt (W.stmtFill .returnCtx (.val w))), σ1)
            (ofVal [.mByte byte0 none], sharedByte) :=
  ⟨find_binds.1 useShared false _ _ rfl _,
    fun rf => find_binds.2 (.return useShared) _ _ rfl trivial rf _⟩

end RefinedC.Caesium
