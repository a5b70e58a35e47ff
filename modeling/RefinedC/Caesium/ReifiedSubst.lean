import RefinedC.Caesium.Reified

/-!
Substitution on reified expressions and statements.

Source: `subst_l` of `theories/caesium/lang.v`, and `to_expr_subst_l` and `to_stmt_subst` of
`theories/caesium/tactics.v`.

Owns: substitution of one variable after the other in the derived forms, and that the
simultaneous substitution on reified syntax agrees with it.
-/

namespace RefinedC.Caesium

open RefinedC.Library

/-! ## One variable after the other -/

section

variable (xs : List (VarName × Val)) (e e1 e2 e3 : Expr) (es : List Expr)

attribute [local simp] subst substs substL

private theorem substs_eq_map (x : VarName) (v : Val) (es : List Expr) :
    substs x v es = es.map (subst x v) := by
  induction es with
  | nil => simp
  | cons e es inductionHypothesis => simp [inductionHypothesis]

private theorem map_substL_nil : es.map (substL []) = es := List.map_id es

/-- What one substitution goes through, a list of them goes through. -/
theorem substL_unary {f : Expr → Expr} (through : ∀ x v e, subst x v (f e) = f (subst x v e)) :
    substL xs (f e) = f (substL xs e) := by
  induction xs generalizing e with
  | nil => rfl
  | cons binding xs inductionHypothesis =>
      rw [substL, substL, through, inductionHypothesis]

theorem substL_binary {f : Expr → Expr → Expr}
    (through : ∀ x v e1 e2, subst x v (f e1 e2) = f (subst x v e1) (subst x v e2)) :
    substL xs (f e1 e2) = f (substL xs e1) (substL xs e2) := by
  induction xs generalizing e1 e2 with
  | nil => rfl
  | cons binding xs inductionHypothesis =>
      rw [substL, substL, substL, through, inductionHypothesis]

private theorem substL_ternary {f : Expr → Expr → Expr → Expr}
    (through : ∀ x v e1 e2 e3,
      subst x v (f e1 e2 e3) = f (subst x v e1) (subst x v e2) (subst x v e3)) :
    substL xs (f e1 e2 e3) = f (substL xs e1) (substL xs e2) (substL xs e3) := by
  induction xs generalizing e1 e2 e3 with
  | nil => rfl
  | cons binding xs inductionHypothesis =>
      simp [through, inductionHypothesis]

private theorem substL_macroE {m : List Expr → Expr} (through : Expr.MacroWfSubst m) :
    substL xs (m es) = m (es.map (substL xs)) := by
  induction xs generalizing es with
  | nil => rw [substL, map_substL_nil]
  | cons binding xs inductionHypothesis =>
      rw [substL, through, inductionHypothesis, List.map_map]
      rfl

private theorem substL_constant {e : Expr} (through : ∀ x v, subst x v e = e) :
    substL xs e = e := by
  induction xs with
  | nil => rfl
  | cons binding xs inductionHypothesis => rw [substL, through, inductionHypothesis]

/-- The first binding of a variable counts: the value that it leaves has no variables. -/
theorem substL_var (y : VarName) :
    substL xs (.var y) =
      match W.listFindFast (fun x => decide (x.1 = y)) xs with
      | some (_, v) => .val v
      | none => .var y := by
  induction xs with
  | nil => rfl
  | cons binding xs inductionHypothesis =>
      show substL xs (if binding.1 = y then .val binding.2 else .var y) = _
      rw [W.listFindFast]
      by_cases same : binding.1 = y
      · rw [if_pos same, if_pos (decide_eq_true same)]
        exact substL_constant xs fun _ _ => rfl
      · rw [if_neg same, if_neg (by simpa using same), inductionHypothesis]

theorem substL_val (v : Val) : substL xs (.val v) = .val v :=
  substL_constant xs fun _ _ => rfl

private theorem substL_call :
    substL xs (.call e es) = .call (substL xs e) (es.map (substL xs)) := by
  induction xs generalizing e es with
  | nil => rw [substL, substL, map_substL_nil]
  | cons binding xs inductionHypothesis =>
      show substL xs (.call (subst binding.1 binding.2 e) (substs binding.1 binding.2 es)) = _
      rw [substL, substs_eq_map, inductionHypothesis, List.map_map]
      rfl

private theorem substL_concat : substL xs (.concat es) = .concat (es.map (substL xs)) :=
  substL_macroE xs es fun x v es => congrArg Expr.concat (substs_eq_map x v es)

theorem substL_ifE (ot : OpType) :
    substL xs (.ifE ot e1 e2 e3) = .ifE ot (substL xs e1) (substL xs e2) (substL xs e3) :=
  substL_ternary xs e1 e2 e3 fun _ _ _ _ _ => rfl

/-! ## The derived forms -/

theorem substL_logicalAnd (ot1 ot2 : OpType) (rit : IntType) :
    substL xs (.logicalAnd ot1 ot2 rit e1 e2) =
      .logicalAnd ot1 ot2 rit (substL xs e1) (substL xs e2) := by
  simp only [Expr.logicalAnd, substL_ifE, substL_val]

theorem substL_logicalOr (ot1 ot2 : OpType) (rit : IntType) :
    substL xs (.logicalOr ot1 ot2 rit e1 e2) =
      .logicalOr ot1 ot2 rit (substL xs e1) (substL xs e2) := by
  simp only [Expr.logicalOr, substL_ifE, substL_val]

private theorem substL_annotExpr (n : Nat) {A : Type} (a : A) :
    substL xs (.annotExpr n a e) = .annotExpr n a (substL xs e) := by
  refine substL_unary xs e fun x v e => ?_
  unfold Expr.annotExpr
  induction n with
  | zero => rfl
  | succ n inductionHypothesis => exact congrArg Expr.skipE inductionHypothesis

private theorem substL_getMember (s : StructLayout) (m : VarName) :
    substL xs (.getMember e s m) = .getMember (substL xs e) s m := by
  unfold Expr.getMember
  exact (substL_binary xs _ _ fun _ _ _ _ => rfl).trans (by rw [substL_val])

private theorem substL_offsetOf (s : StructLayout) (m : VarName) :
    substL xs (.offsetOf s m) = .offsetOf s m := by
  refine substL_constant xs fun x v => ?_
  unfold Expr.offsetOf
  cases (offsetOf s.slMembers m).bind fun m => valOfZ m sizeT none with
  | none => rfl
  | some o => rfl

/-- The initialiser looks its members up in a map, whose values are substituted into. -/
theorem substL_structInit (ly : StructLayout) (fs : List (String × Expr)) :
    substL xs (.structInit ly fs) =
      .structInit ly (fs.map fun field => (field.1, substL xs field.2)) := by
  rw [Expr.structInit, Expr.structInit, substL_concat, List.map_map]
  refine congrArg Expr.concat (List.map_congr_left fun idly _ => ?_)
  have bindings : idly.1.bind (PartialMap.ofList
      (fs.map fun field => (field.1, substL xs field.2))) =
      (idly.1.bind (PartialMap.ofList fs)).map (substL xs) := by
    cases idly.1 with
    | none => rfl
    | some name => exact PartialMap.ofList_map (substL xs)
  rw [Function.comp_apply, bindings]
  cases idly.1.bind (PartialMap.ofList fs) with
  | none => exact substL_val xs _
  | some e => rfl

end

/-! ## Reified syntax -/

namespace W

mutual

private theorem toExpr_substL (xs : List (VarName × Val)) :
    (e : Expr) → toExpr (substL xs e) = Caesium.substL xs (toExpr e)
  | .var y => by
      rw [substL, toExpr, substL_var]
      cases listFindFast (fun x => decide (x.1 = y)) xs with
      | none => rw [toExpr]
      | some binding => rw [toExpr]
  | .loc l => by
      rw [substL, toExpr, substL_val]
  | .val v => by
      rw [substL, toExpr, substL_val]
  | .unOp op ot e => by
      rw [substL, toExpr, toExpr, toExpr_substL xs e]
      exact (substL_unary xs _ fun _ _ _ => by rw [subst]).symm
  | .binOp op ot1 ot2 e1 e2 => by
      rw [substL, toExpr, toExpr, toExpr_substL xs e1, toExpr_substL xs e2]
      exact (substL_binary xs _ _ fun _ _ _ _ => by rw [subst]).symm
  | .copyAllocId ot1 e1 e2 => by
      rw [substL, toExpr, toExpr, toExpr_substL xs e1, toExpr_substL xs e2]
      exact (substL_binary xs _ _ fun _ _ _ _ => by rw [subst]).symm
  | .deref o ot mc e => by
      rw [substL, toExpr, toExpr, toExpr_substL xs e]
      exact (substL_unary xs _ fun _ _ _ => by rw [subst]).symm
  | .cas ot e1 e2 e3 => by
      rw [substL, toExpr, toExpr, toExpr_substL xs e1, toExpr_substL xs e2, toExpr_substL xs e3]
      exact (substL_ternary xs _ _ _ fun _ _ _ _ _ => by rw [subst]).symm
  | .call f args => by
      rw [substL, toExpr, toExpr, toExpr_substL xs f, toExprs_substLs xs args, substL_call]
  | .concat es => by
      rw [substL, toExpr, toExpr, toExprs_substLs xs es, substL_concat]
  | .ifE ot e1 e2 e3 => by
      rw [substL, toExpr, toExpr, toExpr_substL xs e1, toExpr_substL xs e2, toExpr_substL xs e3,
        substL_ifE]
  | .alloc ly e => by
      rw [substL, toExpr, toExpr, toExpr_substL xs e]
      exact (substL_unary xs _ fun _ _ _ => by rw [subst]).symm
  | .skipE e => by
      rw [substL, toExpr, toExpr, toExpr_substL xs e]
      exact (substL_unary xs _ fun _ _ _ => by rw [subst]).symm
  | .stuckE => by
      rw [substL, toExpr]
      exact (substL_constant xs fun _ _ => by rw [subst]).symm
  | .logicalAnd ot1 ot2 rit e1 e2 => by
      rw [substL, toExpr, toExpr, toExpr_substL xs e1, toExpr_substL xs e2, substL_logicalAnd]
  | .logicalOr ot1 ot2 rit e1 e2 => by
      rw [substL, toExpr, toExpr, toExpr_substL xs e1, toExpr_substL xs e2, substL_logicalOr]
  | .use o ot mc e => by
      rw [substL, toExpr, toExpr, toExpr_substL xs e]
      exact (substL_unary xs _ fun _ _ _ => by rw [Caesium.Expr.use, subst, Caesium.Expr.use]).symm
  | .addrOf e => by
      rw [substL, toExpr, toExpr, toExpr_substL xs e]
      rfl
  | .lValue e => by
      rw [substL, toExpr, toExpr, toExpr_substL xs e]
      rfl
  | .getMember e s m => by
      rw [substL, toExpr, toExpr, toExpr_substL xs e, substL_getMember]
  | .getMemberUnion e ul m => by
      rw [substL, toExpr, toExpr, toExpr_substL xs e]
      rfl
  | .offsetOf s m => by
      rw [substL, toExpr, substL_offsetOf]
  | .offsetOfUnion ul m => by
      rw [substL, toExpr]
      exact (substL_val xs _).symm
  | .annotExpr n a e => by
      rw [substL, toExpr, toExpr, toExpr_substL xs e, substL_annotExpr]
  | .locInfoE a e => by
      rw [substL, toExpr, toExpr, toExpr_substL xs e]
      rfl
  | .structInit ly fs => by
      rw [substL, toExpr, toExpr, toFields_substFields xs fs, substL_structInit]
  | .macroE m es wf => by
      rw [substL, toExpr, toExpr, toExprs_substLs xs es]
      exact (substL_macroE xs _ wf).symm
  | .expr e => by
      rw [substL, toExpr, toExpr]

private theorem toExprs_substLs (xs : List (VarName × Val)) :
    (es : List Expr) → toExprs (substLs xs es) = (toExprs es).map (Caesium.substL xs)
  | [] => by
      rw [substLs, toExprs, List.map_nil]
  | e :: es => by
      rw [substLs, toExprs, toExprs, toExpr_substL xs e, toExprs_substLs xs es, List.map_cons]

private theorem toFields_substFields (xs : List (VarName × Val)) :
    (fs : List (String × Expr)) → toFields (substFields xs fs) =
      (toFields fs).map fun field => (field.1, Caesium.substL xs field.2)
  | [] => by
      rw [substFields, toFields, List.map_nil]
  | (x, e) :: fs => by
      rw [substFields, toFields, toFields, toExpr_substL xs e, toFields_substFields xs fs,
        List.map_cons]

end

mutual

private theorem toStmt_substStmt (xs : List (VarName × Val)) :
    (s : Stmt) → toStmt (substStmt xs s) = Caesium.substStmt xs (toStmt s)
  | .goto b => by
      rw [substStmt, toStmt, Caesium.substStmt]
  | .return e => by
      rw [substStmt, toStmt, toStmt, Caesium.substStmt, toExpr_substL]
  | .ifS ot join e s1 s2 => by
      rw [substStmt, toStmt, toStmt, Caesium.substStmt, toExpr_substL, toStmt_substStmt xs s1,
        toStmt_substStmt xs s2]
  | .switch it e m bs def_ => by
      rw [substStmt, toStmt, toStmt, Caesium.substStmt, toExpr_substL, toStmts_substStmts xs bs,
        toStmt_substStmt xs def_]
  | .assign o ot e1 e2 s => by
      rw [substStmt, toStmt, toStmt, Caesium.substStmt, toExpr_substL, toExpr_substL,
        toStmt_substStmt xs s]
  | .free ly e s => by
      rw [substStmt, toStmt, toStmt, Caesium.substStmt, toExpr_substL, toStmt_substStmt xs s]
  | .skipS s => by
      rw [substStmt, toStmt, toStmt, Caesium.substStmt, toStmt_substStmt xs s]
  | .stuckS => by
      rw [substStmt, toStmt, Caesium.substStmt]
  | .exprS e s => by
      rw [substStmt, toStmt, toStmt, Caesium.substStmt, toExpr_substL, toStmt_substStmt xs s]
  | .assert ot e s => by
      rw [substStmt, toStmt, toStmt, Caesium.Stmt.assert, Caesium.Stmt.assert, Caesium.substStmt,
        Caesium.substStmt, toExpr_substL, toStmt_substStmt xs s]
  | .annotStmt n a s => by
      rw [substStmt, toStmt, toStmt, toStmt_substStmt xs s]
      unfold Caesium.Stmt.annotStmt
      induction n with
      | zero => rfl
      | succ n inductionHypothesis =>
          rw [Nat.repeat, inductionHypothesis, Nat.repeat, Caesium.substStmt]
  | .locInfoS a s => by
      rw [substStmt, toStmt, toStmt, toStmt_substStmt xs s]
      rfl
  | .stmt s => by
      rw [substStmt, toStmt, toStmt]

private theorem toStmts_substStmts (xs : List (VarName × Val)) :
    (ss : List Stmt) → toStmts (substStmts xs ss) = Caesium.substStmts xs (toStmts ss)
  | [] => by
      rw [substStmts, toStmts, Caesium.substStmts]
  | s :: ss => by
      rw [substStmts, toStmts, toStmts, Caesium.substStmts, toStmt_substStmt xs s,
        toStmts_substStmts xs ss]

end

end W

/-- The simultaneous substitution on reified syntax is the substitution of one variable after
the other. -/
theorem reified_subst_agrees (xs : List (VarName × Val)) :
    (∀ e : W.Expr, W.toExpr (W.substL xs e) = substL xs (W.toExpr e)) ∧
      ∀ s : W.Stmt, W.toStmt (W.substStmt xs s) = substStmt xs (W.toStmt s) :=
  ⟨W.toExpr_substL xs, W.toStmt_substStmt xs⟩

end RefinedC.Caesium
