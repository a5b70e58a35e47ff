import RefinedC.Caesium.LockState
import RefinedC.Caesium.WellScoped
import RefinedC.Frontend.Denotation
import RefinedC.Frontend.FunctionScope

/-!
Properties of the Caesium code that emitted code denotes.

Owns: properties of expressions and statements that pass from the parts of the
printed code to the whole, and with them that the functions of emitted programs are
well scoped and have no second-phase accesses.
-/

namespace RefinedC.Frontend

open Library

/-! ## Properties by composition -/

/-- A property of expressions that the forms that are printed pass on from their
parts. Accesses are never in their second phase. -/
structure ExprProperty (locals : String → Prop) (P : Caesium.Expr → Prop) : Prop where
  var : ∀ {x}, locals x → P (.var x)
  val : ∀ {v}, P (.val v)
  stuckE : P .stuckE
  unOp : ∀ {op ot e}, P e → P (.unOp op ot e)
  binOp : ∀ {op ot1 ot2 e1 e2}, P e1 → P e2 → P (.binOp op ot1 ot2 e1 e2)
  copyAllocId : ∀ {ot e1 e2}, P e1 → P e2 → P (.copyAllocId ot e1 e2)
  deref : ∀ {o ot mc e}, o ≠ .na2Ord → P e → P (.deref o ot mc e)
  cas : ∀ {ot e1 e2 e3}, P e1 → P e2 → P e3 → P (.cas ot e1 e2 e3)
  call : ∀ {f args}, P f → (∀ a ∈ args, P a) → P (.call f args)
  concat : ∀ {es}, (∀ e ∈ es, P e) → P (.concat es)
  ifE : ∀ {ot e1 e2 e3}, P e1 → P e2 → P e3 → P (.ifE ot e1 e2 e3)
  skipE : ∀ {e}, P e → P (.skipE e)

/-- A property of statements, above one of expressions. -/
structure StmtProperty (labels : String → Prop) (P : Caesium.Expr → Prop)
    (Q : Caesium.Stmt → Prop) : Prop where
  goto : ∀ {b}, labels b → Q (.goto b)
  stuckS : Q .stuckS
  ret : ∀ {e}, P e → Q (.return e)
  ifS : ∀ {ot join e s1 s2}, P e → Q s1 → Q s2 → Q (.ifS ot join e s1 s2)
  switch : ∀ {it e m bs def_}, P e → Caesium.SwitchInRange m bs.length →
      (∀ s ∈ bs, Q s) →
    Q def_ → Q (.switch it e m bs def_)
  assign : ∀ {o ot e1 e2 s}, o ≠ .na2Ord → P e1 → P e2 → Q s → Q (.assign o ot e1 e2 s)
  exprS : ∀ {e s}, P e → Q s → Q (.exprS e s)

/-- Fewer variables. -/
theorem ExprProperty.of_locals {locals locals' : String → Prop} {P : Caesium.Expr → Prop}
    (property : ExprProperty locals P) (fewer : ∀ x, locals' x → locals x) :
    ExprProperty locals' P :=
  { property with var := fun isLocal => property.var (fewer _ isLocal) }

/-- Fewer labels. -/
theorem StmtProperty.of_labels {labels labels' : String → Prop} {P : Caesium.Expr → Prop}
    {Q : Caesium.Stmt → Prop} (lifted : StmtProperty labels P Q)
    (fewer : ∀ b, labels' b → labels b) : StmtProperty labels' P Q :=
  { lifted with goto := fun isLabel => lifted.goto (fewer _ isLabel) }

private theorem accessOrder_ne (atomic : Bool) : accessOrder atomic ≠ .na2Ord := by
  cases atomic with
  | true => nofun
  | false => nofun

section

variable {env : CodeEnv} {locals globals labels : String → Prop} {P : Caesium.Expr → Prop}
  {Q : Caesium.Stmt → Prop}

namespace ExprProperty

variable (property : ExprProperty locals P)

include property

theorem plainBinOp {ot1 ot2 : Caesium.OpType} {e1 e2 : Caesium.Expr} (first : P e1) (second : P e2)
    (op : Coq.BinOp) : P (plainBinOp ot1 ot2 e1 e2 op) := by
  cases op with
  | lazyAnd => exact property.ifE first (property.ifE second property.val property.val) property.val
  | lazyOr => exact property.ifE first property.val (property.ifE second property.val property.val)
  | _ => exact property.binOp first second

theorem denoteBinary {op : Coq.BinOp} {ty1 ty2 : Coq.OpType} {e1 e2 e : Caesium.Expr}
    (first : P e1) (second : P e2) (found : denoteBinary env op ty1 ty2 e1 e2 = .ok e) : P e := by
  have plain : ∀ {ty1 ty2}, denoteBinary.plain env op e1 e2 ty1 ty2 = .ok e → P e := by
    intro ty1 ty2 found
    obtain ⟨ot1, -, found⟩ := bind_eq_ok.mp found
    obtain ⟨ot2, -, found⟩ := bind_eq_ok.mp found
    cases found
    exact property.plainBinOp first second op
  unfold Frontend.denoteBinary at found
  split at found
  · exact plain found
  · obtain ⟨ly, -, found⟩ := bind_eq_ok.mp found
    cases found
    exact property.binOp second first
  · obtain ⟨ly, -, found⟩ := bind_eq_ok.mp found
    cases found
    exact property.binOp second first
  · obtain ⟨ly, -, found⟩ := bind_eq_ok.mp found
    cases found
    exact property.binOp first second
  · cases found
    exact property.binOp (property.unOp first) second
  · cases found
    exact property.binOp (property.unOp first) second
  · cases found
    exact property.binOp first (property.unOp second)
  · cases found
    exact property.binOp first (property.unOp second)
  · cases found
  · cases found
  · exact plain found

theorem annotExpr {e : Caesium.Expr} (holds : P e) (n : Nat) (annot : String) :
    P (Caesium.Expr.annotExpr n annot e) := by
  induction n with
  | zero => exact holds
  | succ n inductionHypothesis => exact property.skipE inductionHypothesis

theorem structInit {fields : List (String × Caesium.Expr)} (sl : Caesium.StructLayout)
    (each : ∀ f ∈ fields, P f.2) : P (Caesium.Expr.structInit sl fields) := by
  refine property.concat fun e member => ?_
  obtain ⟨⟨name, ly⟩, -, rfl⟩ := List.mem_map.mp member
  cases found : name.bind (PartialMap.ofList fields) with
  | none => exact property.val
  | some e =>
      obtain ⟨x, -, bound⟩ := Option.bind_eq_some_iff.mp found
      exact each _ (PartialMap.mem_of_ofList bound)

theorem getMember {e : Caesium.Expr} (holds : P e) (sl : Caesium.StructLayout) (m : String) :
    P (Caesium.Expr.getMember e sl m) := property.binOp property.val holds

theorem offsetOf (sl : Caesium.StructLayout) (m : String) : P (Caesium.Expr.offsetOf sl m) := by
  unfold Caesium.Expr.offsetOf
  cases (Caesium.offsetOf sl.slMembers m).bind fun m => Caesium.valOfZ m Caesium.sizeT none with
  | none => exact property.stuckE
  | some v => exact property.val

end ExprProperty

/-! ## Expressions and statements -/

mutual

/-- The property holds of every expression that is denoted. -/
theorem denoteExpr_holds (property : ExprProperty locals P) :
    ∀ {c : Coq.Expr} {e : Caesium.Expr}, c.Names locals globals →
      denoteExpr env c = .ok e → P e
  | .var none _, _, names, _ => names.elim
  | .var (some x) true, _, _, found => by
      obtain ⟨l, -, found⟩ := bind_eq_ok.mp found
      cases found
      exact property.val
  | .var (some x) false, _, names, found => by
      cases found
      exact property.var names
  | .val v, _, _, found => by
      obtain ⟨v', -, found⟩ := bind_eq_ok.mp found
      cases found
      exact property.val
  | .unOp op ot c, _, names, found => by
      obtain ⟨op', -, found⟩ := bind_eq_ok.mp found
      obtain ⟨ot', -, found⟩ := bind_eq_ok.mp found
      obtain ⟨e, operand, found⟩ := bind_eq_ok.mp found
      cases found
      exact property.unOp (denoteExpr_holds (c := c) property names operand)
  | .binOp op ty1 ty2 c1 c2, _, names, found => by
      obtain ⟨e1, first, found⟩ := bind_eq_ok.mp found
      obtain ⟨e2, second, found⟩ := bind_eq_ok.mp found
      exact property.denoteBinary (denoteExpr_holds property names.1 first)
        (denoteExpr_holds property names.2 second) found
  | .deref atomic ot c, _, names, found => by
      obtain ⟨ot', -, found⟩ := bind_eq_ok.mp found
      obtain ⟨e, operand, found⟩ := bind_eq_ok.mp found
      cases found
      exact property.deref (accessOrder_ne atomic)
        (denoteExpr_holds (c := c) property names operand)
  | .use atomic ot c, _, names, found => by
      obtain ⟨ot', -, found⟩ := bind_eq_ok.mp found
      obtain ⟨e, operand, found⟩ := bind_eq_ok.mp found
      cases found
      exact property.deref (accessOrder_ne atomic)
        (denoteExpr_holds (c := c) property names operand)
  | .cas ot c1 c2 c3, _, names, found => by
      obtain ⟨ot', -, found⟩ := bind_eq_ok.mp found
      obtain ⟨e1, first, found⟩ := bind_eq_ok.mp found
      obtain ⟨e2, second, found⟩ := bind_eq_ok.mp found
      obtain ⟨e3, third, found⟩ := bind_eq_ok.mp found
      cases found
      exact property.cas (denoteExpr_holds property names.1 first)
        (denoteExpr_holds property names.2.1 second)
        (denoteExpr_holds property names.2.2 third)
  | .ifE ot c1 c2 c3, _, names, found => by
      obtain ⟨ot', -, found⟩ := bind_eq_ok.mp found
      obtain ⟨e1, first, found⟩ := bind_eq_ok.mp found
      obtain ⟨e2, second, found⟩ := bind_eq_ok.mp found
      obtain ⟨e3, third, found⟩ := bind_eq_ok.mp found
      cases found
      exact property.ifE (denoteExpr_holds property names.1 first)
        (denoteExpr_holds property names.2.1 second)
        (denoteExpr_holds property names.2.2 third)
  | .call _ c cs, _, names, found => by
      obtain ⟨e, callee, found⟩ := bind_eq_ok.mp found
      obtain ⟨es, args, found⟩ := bind_eq_ok.mp found
      cases found
      exact property.call (denoteExpr_holds property names.1 callee)
        (denoteExprs_holds property names.2 args)
  | .skipE c, _, names, found => by
      obtain ⟨e, operand, found⟩ := bind_eq_ok.mp found
      cases found
      exact property.skipE (denoteExpr_holds (c := c) property names operand)
  | .addrOf c, _, names, found | .lValue c, _, names, found => by
      obtain ⟨e, operand, found⟩ := bind_eq_ok.mp found
      cases found
      exact denoteExpr_holds (c := c) property names operand
  | .getMember c name false m, _, names, found => by
      obtain ⟨e, operand, found⟩ := bind_eq_ok.mp found
      obtain ⟨sl, -, found⟩ := bind_eq_ok.mp found
      cases found
      exact property.getMember (denoteExpr_holds (c := c) property names operand) sl m
  | .getMember c name true m, _, names, found => by
      obtain ⟨e, operand, found⟩ := bind_eq_ok.mp found
      obtain ⟨ul, -, found⟩ := bind_eq_ok.mp found
      cases found
      exact denoteExpr_holds (c := c) property names operand
  | .offsetOf name false m, _, _, found => by
      obtain ⟨sl, -, found⟩ := bind_eq_ok.mp found
      cases found
      exact property.offsetOf sl m
  | .offsetOf name true m, _, _, found => by
      obtain ⟨ul, -, found⟩ := bind_eq_ok.mp found
      cases found
      exact property.val
  | .annotExpr n annot c, _, names, found => by
      obtain ⟨e, operand, found⟩ := bind_eq_ok.mp found
      cases found
      exact property.annotExpr (denoteExpr_holds (c := c) property names operand) n annot
  | .struct name members cs, _, names, found => by
      obtain ⟨sl, -, found⟩ := bind_eq_ok.mp found
      obtain ⟨es, fields, found⟩ := bind_eq_ok.mp found
      cases found
      exact property.structInit sl fun f member =>
        denoteExprs_holds property names fields f.2 (List.of_mem_zip (a := f.1) member).2
  | .rcMacro _ _ cs c, _, names, found => by
      obtain ⟨es, -, found⟩ := bind_eq_ok.mp found
      exact denoteExpr_holds property names.1 found
  | .copyAID ot c1 c2, _, names, found => by
      obtain ⟨ot', -, found⟩ := bind_eq_ok.mp found
      obtain ⟨e1, first, found⟩ := bind_eq_ok.mp found
      obtain ⟨e2, second, found⟩ := bind_eq_ok.mp found
      cases found
      exact property.copyAllocId (denoteExpr_holds property names.1 first)
        (denoteExpr_holds property names.2 second)

private theorem denoteExprs_holds (property : ExprProperty locals P) :
    ∀ {cs : List Coq.Expr} {es : List Caesium.Expr}, Coq.exprsNames locals globals cs →
      denoteExprs env cs = .ok es → ∀ e ∈ es, P e
  | [], _, _, found => by
      cases found
      exact List.forall_mem_nil _
  | c :: cs, _, names, found => by
      obtain ⟨e, first, found⟩ := bind_eq_ok.mp found
      obtain ⟨es, rest, found⟩ := bind_eq_ok.mp found
      cases found
      exact List.forall_mem_cons.mpr
        ⟨denoteExpr_holds property names.1 first, denoteExprs_holds property names.2 rest⟩

end

private theorem denoteStmts_length : ∀ {ts : List Coq.Stmt} {ss : List Caesium.Stmt},
    denoteStmts env ts = .ok ss → ss.length = ts.length
  | [], _, found => by
      cases found
      rfl
  | t :: ts, _, found => by
      obtain ⟨s, -, found⟩ := bind_eq_ok.mp found
      obtain ⟨ss, rest, found⟩ := bind_eq_ok.mp found
      cases found
      rw [List.length_cons, List.length_cons, denoteStmts_length rest]

mutual

/-- The property holds of every statement that is denoted. -/
theorem denoteStmt_holds (property : ExprProperty locals P) (lifted : StmtProperty labels P Q) :
    ∀ {t : Coq.Stmt} {s : Caesium.Stmt}, t.Names locals globals → t.Closed labels →
      denoteStmt env t = .ok s → Q s
  | .goto id, _, _, closed, found => by
      cases found
      exact lifted.goto closed
  | .ret c, _, names, _, found => by
      obtain ⟨e, operand, found⟩ := bind_eq_ok.mp found
      cases found
      exact lifted.ret (denoteExpr_holds (c := c) property names operand)
  | .switch it c map branches default, _, names, closed, found => by
      simp only [Coq.Stmt.Names, Coq.Stmt.Closed] at names closed
      obtain ⟨e, operand, found⟩ := bind_eq_ok.mp found
      obtain ⟨bs, isBranches, found⟩ := bind_eq_ok.mp found
      obtain ⟨def_, isDefault, found⟩ := bind_eq_ok.mp found
      cases found
      refine lifted.switch (denoteExpr_holds property names.1 operand) (fun n i inMap => ?_)
        (denoteStmts_holds property lifted names.2.1 closed.2.1 isBranches)
        (denoteStmt_holds property lifted names.2.2 closed.2.2 isDefault)
      rw [denoteStmts_length isBranches]
      exact closed.1 (n, i) (PartialMap.mem_of_ofList inMap)
  | .assign atomic ot c1 c2 t, _, names, closed, found => by
      simp only [Coq.Stmt.Names, Coq.Stmt.Closed] at names closed
      obtain ⟨ot', -, found⟩ := bind_eq_ok.mp found
      obtain ⟨e1, left, found⟩ := bind_eq_ok.mp found
      obtain ⟨e2, right, found⟩ := bind_eq_ok.mp found
      obtain ⟨s, rest, found⟩ := bind_eq_ok.mp found
      cases found
      exact lifted.assign (accessOrder_ne atomic) (denoteExpr_holds property names.1 left)
        (denoteExpr_holds property names.2.1 right)
        (denoteStmt_holds property lifted names.2.2 closed rest)
  | .skipS t, _, names, closed, found => by
      simp only [Coq.Stmt.Names, Coq.Stmt.Closed] at names closed
      exact denoteStmt_holds (t := t) property lifted names closed found
  | .ifS ot join c t1 t2, _, names, closed, found => by
      simp only [Coq.Stmt.Names, Coq.Stmt.Closed] at names closed
      obtain ⟨ot', -, found⟩ := bind_eq_ok.mp found
      obtain ⟨e, condition, found⟩ := bind_eq_ok.mp found
      obtain ⟨s1, first, found⟩ := bind_eq_ok.mp found
      obtain ⟨s2, second, found⟩ := bind_eq_ok.mp found
      cases found
      exact lifted.ifS (denoteExpr_holds property names.1 condition)
        (denoteStmt_holds property lifted names.2.1 closed.2.1 first)
        (denoteStmt_holds property lifted names.2.2 closed.2.2 second)
  | .assert ot c t, _, names, closed, found => by
      simp only [Coq.Stmt.Names, Coq.Stmt.Closed] at names closed
      obtain ⟨ot', -, found⟩ := bind_eq_ok.mp found
      obtain ⟨e, condition, found⟩ := bind_eq_ok.mp found
      obtain ⟨s, rest, found⟩ := bind_eq_ok.mp found
      cases found
      exact lifted.ifS (denoteExpr_holds property names.1 condition)
        (denoteStmt_holds property lifted names.2 closed rest) lifted.stuckS
  | .exprS annot c t, _, names, closed, found => by
      simp only [Coq.Stmt.Names, Coq.Stmt.Closed] at names closed
      obtain ⟨e, operand, found⟩ := bind_eq_ok.mp found
      obtain ⟨s, rest, found⟩ := bind_eq_ok.mp found
      have plain : Q (.exprS e s) := lifted.exprS (denoteExpr_holds property names.1 operand)
        (denoteStmt_holds property lifted names.2 closed rest)
      cases found
      cases annot with
      | none => exact plain
      | some a => exact plain

private theorem denoteStmts_holds (property : ExprProperty locals P)
    (lifted : StmtProperty labels P Q) :
    ∀ {ts : List Coq.Stmt} {ss : List Caesium.Stmt}, Coq.stmtsNames locals globals ts →
      Coq.Stmt.ClosedList labels ts → denoteStmts env ts = .ok ss → ∀ s ∈ ss, Q s
  | [], _, _, _, found => by
      cases found
      exact List.forall_mem_nil _
  | t :: ts, _, names, closed, found => by
      obtain ⟨s, first, found⟩ := bind_eq_ok.mp found
      obtain ⟨ss, rest, found⟩ := bind_eq_ok.mp found
      cases found
      exact List.forall_mem_cons.mpr ⟨denoteStmt_holds property lifted names.1 closed.1 first,
        denoteStmts_holds property lifted names.2 closed.2 rest⟩

end

end

/-! ## Accesses and names -/

private theorem exprs_noNa2 {es : List Caesium.Expr} (each : ∀ e ∈ es, e.NoNa2) :
    Caesium.Exprs.NoNa2 es := by
  induction es with
  | nil => trivial
  | cons e es inductionHypothesis =>
      obtain ⟨first, rest⟩ := List.forall_mem_cons.mp each
      exact ⟨first, inductionHypothesis rest⟩

private theorem stmts_noNa2 {ss : List Caesium.Stmt} (each : ∀ s ∈ ss, s.NoNa2) :
    Caesium.Stmts.NoNa2 ss := by
  induction ss with
  | nil => trivial
  | cons s ss inductionHypothesis =>
      obtain ⟨first, rest⟩ := List.forall_mem_cons.mp each
      exact ⟨first, inductionHypothesis rest⟩

theorem noNa2_exprProperty (locals : String → Prop) :
    ExprProperty locals Caesium.Expr.NoNa2 where
  var _ := trivial
  val := trivial
  stuckE := trivial
  unOp := id
  binOp first second := ⟨first, second⟩
  copyAllocId first second := ⟨first, second⟩
  deref notSecond operand := ⟨notSecond, operand⟩
  cas first second third := ⟨first, second, third⟩
  call callee args := ⟨callee, exprs_noNa2 args⟩
  concat each := exprs_noNa2 each
  ifE condition first second := ⟨condition, first, second⟩
  skipE := id

theorem noNa2_stmtProperty (labels : String → Prop) :
    StmtProperty labels Caesium.Expr.NoNa2 Caesium.Stmt.NoNa2 where
  goto _ := trivial
  stuckS := trivial
  ret := id
  ifS condition first second := ⟨condition, first, second⟩
  switch operand _ branches default := ⟨operand, stmts_noNa2 branches, default⟩
  assign notSecond left right rest := ⟨notSecond, left, right, rest⟩
  exprS operand rest := ⟨operand, rest⟩

private theorem exprs_scoped {xs : String → Prop} {es : List Caesium.Expr}
    (each : ∀ e ∈ es, e.Scoped xs) :
    Caesium.Exprs.Scoped xs es := by
  induction es with
  | nil => trivial
  | cons e es inductionHypothesis =>
      obtain ⟨first, rest⟩ := List.forall_mem_cons.mp each
      exact ⟨first, inductionHypothesis rest⟩

private theorem stmts_scoped {xs labels : String → Prop} {ss : List Caesium.Stmt}
    (each : ∀ s ∈ ss, s.Scoped xs labels) : Caesium.Stmts.Scoped xs labels ss := by
  induction ss with
  | nil => trivial
  | cons s ss inductionHypothesis =>
      obtain ⟨first, rest⟩ := List.forall_mem_cons.mp each
      exact ⟨first, inductionHypothesis rest⟩

theorem scoped_exprProperty (locals : String → Prop) :
    ExprProperty locals (Caesium.Expr.Scoped locals) where
  var isLocal := isLocal
  val := trivial
  stuckE := trivial
  unOp := id
  binOp first second := ⟨first, second⟩
  copyAllocId first second := ⟨first, second⟩
  deref _ := id
  cas first second third := ⟨first, second, third⟩
  call callee args := ⟨callee, exprs_scoped args⟩
  concat each := exprs_scoped each
  ifE condition first second := ⟨condition, first, second⟩
  skipE := id

theorem scoped_stmtProperty (locals labels : String → Prop) :
    StmtProperty labels (Caesium.Expr.Scoped locals) (Caesium.Stmt.Scoped locals labels) where
  goto isLabel := isLabel
  stuckS := trivial
  ret := id
  ifS condition first second := ⟨condition, first, second⟩
  switch operand inRange branches default := ⟨operand, inRange, stmts_scoped branches, default⟩
  assign _ left right rest := ⟨left, right, rest⟩
  exprS operand rest := ⟨operand, rest⟩

end RefinedC.Frontend
