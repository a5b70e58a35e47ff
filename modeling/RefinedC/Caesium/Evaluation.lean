import RefinedC.Caesium.NonAtomic
import RefinedC.Library.Evaluation

/-!
Evaluation of expressions to values.

Source: the rules and contexts of expressions in `theories/caesium/lang.v`.

Owns: what it takes to evaluate each form of expression without calls, while other
threads may change the state as long as a condition on states holds.
-/

namespace RefinedC.Caesium

open RefinedC.Library

/-- The expression evaluates to the value through states that satisfy `P`. -/
def Evaluates (P : State → Prop) (e : Expr) (σ : State) (v : Val) (σ' : State) : Prop :=
  P σ ∧ cLang.StepsIn P (toRtexpr e, σ) (ofVal v, σ')

section

variable {P : State → Prop} {σ σ' : State} {v : Val}

theorem Evaluates.holds {e : Expr} (run : Evaluates P e σ v σ') : P σ' := run.2.holds run.1

theorem evaluates_val {w : Val} (run : Evaluates P (.val w) σ v σ') : v = w :=
  ofVal_inj.mp (run.2.of_value rfl)

/-- An operand is evaluated first. -/
theorem Evaluates.operand {e : Expr} {K : LangEctx} {b : RuntimeExpr × State} (start : P σ)
    (run : cLang.StepsIn P (langFillItem K (toRtexpr e), σ) b) (isVal : (toVal b.1).isSome) :
    ∃ w σ1, Evaluates P e σ w σ1 ∧ cLang.StepsIn P (langFillItem K (ofVal w), σ1) b := by
  obtain ⟨e1, σ1, isValue, before, after⟩ :=
    EctxiLanguage.StepsIn.split (K := [K]) run isVal
  obtain ⟨w, isW⟩ := Option.isSome_iff_exists.mp isValue
  obtain rfl : e1 = ofVal w := toVal_eq_some isW
  exact ⟨w, σ1, ⟨start, before⟩, after⟩

/-! ## Redexes -/

private theorem unOp_isRedex (op : UnOp) (ot : OpType) (w : Val) :
    cLang.IsRedex (toRtexpr (.unOp op ot (.val w))) := by
  refine ⟨rfl, ?_⟩
  intro item e' shape
  cases item with
  | stmtCtx E rf => cases shape
  | exprCtx E =>
      cases E <;> cases shape
      rfl

private theorem binOp_isRedex (op : BinOp) (ot1 ot2 : OpType) (w1 w2 : Val) :
    cLang.IsRedex (toRtexpr (.binOp op ot1 ot2 (.val w1) (.val w2))) := by
  refine ⟨rfl, ?_⟩
  intro item e' shape
  cases item with
  | stmtCtx E rf => cases shape
  | exprCtx E =>
      cases E <;> cases shape
      all_goals rfl

private theorem ifE_isRedex (ot : OpType) (w : Val) (e2 e3 : Expr) :
    cLang.IsRedex (toRtexpr (.ifE ot (.val w) e2 e3)) := by
  refine ⟨rfl, ?_⟩
  intro item e' shape
  cases item with
  | stmtCtx E rf => cases shape
  | exprCtx E =>
      cases E <;> cases shape
      rfl

/-! ## Forms of expressions -/

theorem evaluates_unOp {op : UnOp} {ot : OpType} {e : Expr}
    (run : Evaluates P (.unOp op ot e) σ v σ') :
    ∃ w σ1 σ2, Evaluates P e σ w σ1 ∧ P σ2 ∧ EvalUnOp op ot σ2 w v := by
  obtain ⟨w, σ1, operand, rest⟩ :=
    Evaluates.operand (K := .exprCtx (.unOpCtx op ot)) run.1 run.2 rfl
  obtain ⟨σ2, e', σ3, holds, head, -, rest⟩ := EctxiLanguage.StepsIn.head
    (e := toRtexpr (.unOp op ot (.val w))) rest operand.holds rfl (unOp_isRedex op ot w)
  cases runtimeStep_toRtexpr head with
  | unOpS eval =>
      cases ofVal_inj.mp (rest.of_value rfl)
      exact ⟨w, σ1, σ2, operand, holds, eval⟩

theorem evaluates_binOp {op : BinOp} {ot1 ot2 : OpType} {e1 e2 : Expr}
    (run : Evaluates P (.binOp op ot1 ot2 e1 e2) σ v σ') :
    ∃ w1 w2 σ1 σ2 σ3, Evaluates P e1 σ w1 σ1 ∧ Evaluates P e2 σ1 w2 σ2 ∧ P σ3 ∧
      EvalBinOp op ot1 ot2 σ3 w1 w2 v := by
  obtain ⟨w1, σ1, left, rest⟩ :=
    Evaluates.operand (K := .exprCtx (.binOpLCtx op ot1 ot2 (toRtexpr e2))) run.1 run.2 rfl
  obtain ⟨w2, σ2, right, rest⟩ :=
    Evaluates.operand (K := .exprCtx (.binOpRCtx op ot1 ot2 w1)) left.holds rest rfl
  obtain ⟨σ3, e', σ4, holds, head, -, rest⟩ := EctxiLanguage.StepsIn.head
    (e := toRtexpr (.binOp op ot1 ot2 (.val w1) (.val w2))) rest right.holds rfl
    (binOp_isRedex op ot1 ot2 w1 w2)
  cases runtimeStep_toRtexpr head with
  | binOpS eval =>
      cases ofVal_inj.mp (rest.of_value rfl)
      exact ⟨w1, w2, σ1, σ2, σ3, left, right, holds, eval⟩

theorem evaluates_ifE {ot : OpType} {e1 e2 e3 : Expr}
    (run : Evaluates P (.ifE ot e1 e2 e3) σ v σ') :
    ∃ w σ1 σ2 b, Evaluates P e1 σ w σ1 ∧ castToBool ot w σ2.stHeap = some b ∧
      Evaluates P (if b then e2 else e3) σ2 v σ' := by
  obtain ⟨w, σ1, condition, rest⟩ :=
    Evaluates.operand (K := .exprCtx (.ifECtx ot (toRtexpr e2) (toRtexpr e3))) run.1 run.2 rfl
  obtain ⟨σ2, e', σ3, -, head, holds, rest⟩ := EctxiLanguage.StepsIn.head
    (e := toRtexpr (.ifE ot (.val w) e2 e3)) rest condition.holds rfl (ifE_isRedex ot w e2 e3)
  cases runtimeStep_toRtexpr head with
  | ifES outcome => exact ⟨w, σ1, _, _, condition, outcome, holds, rest⟩

/-- A load of one step. -/
theorem evaluates_deref_last {o : Order} {ot : OpType} {mc : Bool} {w : Val}
    (order : o ≠ .na1Ord) (start : P σ)
    (run : cLang.StepsIn P (toRtexpr (.deref o ot mc (.val w)), σ) (ofVal v, σ')) :
    ∃ l v' σ1, P σ1 ∧ valToLoc w = some l ∧
      heapAt l ot.otLayout v' (derefStartSt o) σ1.stHeap.hsHeap ∧
      v = if mc then memCast v' ot σ1.fnAddrs σ1.stHeap else v' := by
  obtain ⟨σ1, e', σ2, holds, head, -, rest⟩ :=
    EctxiLanguage.StepsIn.head run start rfl (deref_isRedex o ot mc w)
  cases runtimeStep_toRtexpr head with
  | @derefS _ _ l _ v' _ _ pointer cells =>
      refine ⟨l, v', σ1, holds, pointer, cells, ?_⟩
      cases o with
      | na1Ord => exact absurd rfl order
      | scOrd => exact ofVal_inj.mp (rest.of_value rfl)
      | na2Ord => exact ofVal_inj.mp (rest.of_value rfl)

/-- A non-atomic load reads in the second one of its steps. -/
theorem evaluates_deref {o : Order} {ot : OpType} {mc : Bool} {e : Expr}
    (run : Evaluates P (.deref o ot mc e) σ v σ') :
    ∃ w σ1 l v' σ2 Plk, Evaluates P e σ w σ1 ∧ P σ2 ∧ valToLoc w = some l ∧
      heapAt l ot.otLayout v' Plk σ2.stHeap.hsHeap ∧
      v = if mc then memCast v' ot σ2.fnAddrs σ2.stHeap else v' := by
  obtain ⟨w, σ1, pointer, rest⟩ :=
    Evaluates.operand (K := .exprCtx (.derefCtx o ot mc)) run.1 run.2 rfl
  by_cases order : o = .na1Ord
  · subst order
    obtain ⟨σ2, e', σ3, -, head, holds, rest⟩ := EctxiLanguage.StepsIn.head
      (e := toRtexpr (.deref .na1Ord ot mc (.val w))) rest pointer.holds rfl
      (deref_isRedex .na1Ord ot mc w)
    cases runtimeStep_toRtexpr head with
    | derefS =>
        obtain ⟨l, v', σ4, holds, isLoc, cells, result⟩ :=
          evaluates_deref_last (by decide) holds rest
        exact ⟨w, σ1, l, v', σ4, _, pointer, holds, isLoc, cells, result⟩
  · obtain ⟨l, v', σ4, holds, isLoc, cells, result⟩ :=
      evaluates_deref_last order pointer.holds rest
    exact ⟨w, σ1, l, v', σ4, _, pointer, holds, isLoc, cells, result⟩

end

end RefinedC.Caesium
