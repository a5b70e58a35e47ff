import RefinedC.Caesium.HeapInvariant

/-!
Scoping of variables and labels over whole runs.

Source: substitution, `fn_call` frames, and the rules `GotoS` and `SwitchS` of
`theories/caesium/lang.v`.

Owns: expressions and statements whose variables and labels are defined and
whose switches stay within their branches, the preservation of this by
substitution and by every step, and the absence of scoping errors in every
configuration that a run of well-scoped threads reaches.
-/

namespace RefinedC.Caesium

open RefinedC.Library

/-! ## Scoped programs -/

mutual

/-- All variables of the expression satisfy `xs`. -/
def Expr.Scoped (xs : VarName → Prop) : Expr → Prop
  | .var x => xs x
  | .val _ | .stuckE => True
  | .unOp _ _ e | .alloc _ e | .skipE e | .deref _ _ _ e => e.Scoped xs
  | .binOp _ _ _ e1 e2 | .copyAllocId _ e1 e2 => e1.Scoped xs ∧ e2.Scoped xs
  | .cas _ e1 e2 e3 | .ifE _ e1 e2 e3 => e1.Scoped xs ∧ e2.Scoped xs ∧ e3.Scoped xs
  | .call f args => f.Scoped xs ∧ Exprs.Scoped xs args
  | .concat es => Exprs.Scoped xs es

def Exprs.Scoped (xs : VarName → Prop) : List Expr → Prop
  | [] => True
  | e :: es => e.Scoped xs ∧ Exprs.Scoped xs es

end

/-- The indices of a switch are those of its branches. -/
def SwitchInRange (m : PartialMap Int Nat) (count : Nat) : Prop :=
  ∀ n i, m n = some i → i < count

mutual

/-- All variables of the statement satisfy `xs` and all targets of its jumps
satisfy `labels`. -/
def Stmt.Scoped (xs : VarName → Prop) (labels : Label → Prop) : Stmt → Prop
  | .goto b => labels b
  | .stuckS => True
  | .return e => e.Scoped xs
  | .ifS _ _ e s1 s2 => e.Scoped xs ∧ s1.Scoped xs labels ∧ s2.Scoped xs labels
  | .switch _ e m bs def_ =>
      e.Scoped xs ∧ SwitchInRange m bs.length ∧ Stmts.Scoped xs labels bs ∧
        def_.Scoped xs labels
  | .assign _ _ e1 e2 s => e1.Scoped xs ∧ e2.Scoped xs ∧ s.Scoped xs labels
  | .free _ e s | .exprS e s => e.Scoped xs ∧ s.Scoped xs labels
  | .skipS s => s.Scoped xs labels

def Stmts.Scoped (xs : VarName → Prop) (labels : Label → Prop) : List Stmt → Prop
  | [] => True
  | s :: ss => s.Scoped xs labels ∧ Stmts.Scoped xs labels ss

end

/-- The label has a block. -/
def Function.Defines (fn : Function) (b : Label) : Prop := (fn.fCode b).isSome

/-- The blocks of the function have variables in `xs` and jump to blocks. -/
def Function.ScopedIn (xs : VarName → Prop) (fn : Function) : Prop :=
  ∀ b s, fn.fCode b = some s → s.Scoped xs fn.Defines

/-- Variables of the function: its arguments and local variables. -/
def Function.vars (fn : Function) : List VarName :=
  fn.fArgs.map Prod.fst ++ fn.fLocalVars.map Prod.fst

structure Function.WellScoped (fn : Function) : Prop where
  blocks : fn.ScopedIn (· ∈ fn.vars)
  init : fn.Defines fn.fInit

/-- No variables are in scope. -/
def noVars : VarName → Prop := fun _ => False

mutual

def RuntimeExpr.Scoped : RuntimeExpr → Prop
  | .expr e => e.Scoped
  | .stmt rf s => rf.rfFn.ScopedIn noVars ∧ s.Scoped rf.rfFn.Defines
  | .allocFailed => True

def RuntimeExprs.Scoped : List RuntimeExpr → Prop
  | [] => True
  | e :: es => e.Scoped ∧ RuntimeExprs.Scoped es

def RtExpr.Scoped : RtExpr → Prop
  | .var _ => False
  | .val _ | .stuckE => True
  | .unOp _ _ e | .alloc _ e | .skipE e | .deref _ _ _ e => e.Scoped
  | .binOp _ _ _ e1 e2 | .copyAllocId _ e1 e2 => e1.Scoped ∧ e2.Scoped
  | .cas _ e1 e2 e3 | .ifE _ e1 e2 e3 => e1.Scoped ∧ e2.Scoped ∧ e3.Scoped
  | .call f args => f.Scoped ∧ RuntimeExprs.Scoped args
  | .concat es => RuntimeExprs.Scoped es

def RtStmt.Scoped (labels : Label → Prop) : RtStmt → Prop
  | .goto b => labels b
  | .stuckS => True
  | .return e => e.Scoped
  | .ifS _ _ e s1 s2 => e.Scoped ∧ s1.Scoped noVars labels ∧ s2.Scoped noVars labels
  | .switch _ e m bs def_ =>
      e.Scoped ∧ SwitchInRange m bs.length ∧ Stmts.Scoped noVars labels bs ∧
        def_.Scoped noVars labels
  | .assign _ _ e1 e2 s => e1.Scoped ∧ e2.Scoped ∧ s.Scoped noVars labels
  | .free _ e s | .exprS e s => e.Scoped ∧ s.Scoped noVars labels
  | .skipS s => s.Scoped noVars labels

end

mutual

private theorem scoped_toRtexpr : ∀ {e : Expr}, (toRtexpr e).Scoped ↔ e.Scoped noVars
  | .var _ | .val _ | .stuckE => by
      simp [toRtexpr, RuntimeExpr.Scoped, RtExpr.Scoped, Expr.Scoped, noVars]
  | .unOp _ _ e | .alloc _ e | .skipE e | .deref _ _ _ e => by
      simp [toRtexpr, RuntimeExpr.Scoped, RtExpr.Scoped, Expr.Scoped, @scoped_toRtexpr e]
  | .binOp _ _ _ e1 e2 | .copyAllocId _ e1 e2 => by
      simp [toRtexpr, RuntimeExpr.Scoped, RtExpr.Scoped, Expr.Scoped, @scoped_toRtexpr e1,
        @scoped_toRtexpr e2]
  | .cas _ e1 e2 e3 | .ifE _ e1 e2 e3 => by
      simp [toRtexpr, RuntimeExpr.Scoped, RtExpr.Scoped, Expr.Scoped, @scoped_toRtexpr e1,
        @scoped_toRtexpr e2, @scoped_toRtexpr e3]
  | .call f args => by
      simp [toRtexpr, RuntimeExpr.Scoped, RtExpr.Scoped, Expr.Scoped, @scoped_toRtexpr f,
        @scoped_toRtexprs args]
  | .concat es => by
      simp [toRtexpr, RuntimeExpr.Scoped, RtExpr.Scoped, Expr.Scoped, @scoped_toRtexprs es]

private theorem scoped_toRtexprs :
    ∀ {es : List Expr}, RuntimeExprs.Scoped (toRtexprs es) ↔ Exprs.Scoped noVars es
  | [] => by simp [toRtexprs, RuntimeExprs.Scoped, Exprs.Scoped]
  | e :: es => by
      simp [toRtexprs, RuntimeExprs.Scoped, Exprs.Scoped, @scoped_toRtexpr e, @scoped_toRtexprs es]

end

private theorem scoped_toRtstmt {rf : RuntimeFunction} {s : Stmt} :
    (toRtstmt rf s).Scoped ↔ rf.rfFn.ScopedIn noVars ∧ s.Scoped noVars rf.rfFn.Defines := by
  cases s <;> simp [toRtstmt, RuntimeExpr.Scoped, RtStmt.Scoped, Stmt.Scoped, scoped_toRtexpr]

/-! ## Substitution -/

mutual

private theorem scoped_subst {xs ys : VarName → Prop} {x : VarName} {v : Val}
    (closes : ∀ y, xs y → y ≠ x → ys y) :
    ∀ {e : Expr}, e.Scoped xs → (subst x v e).Scoped ys
  | .var y, inScope => by
      simp only [subst]
      split
      · trivial
      · rename_i different
        exact closes y inScope (Ne.symm different)
  | .val _, _ | .stuckE, _ => trivial
  | .unOp _ _ e, inScope | .alloc _ e, inScope | .skipE e, inScope | .deref _ _ _ e, inScope => by
      simp only [subst, Expr.Scoped] at inScope ⊢
      exact scoped_subst closes inScope
  | .binOp _ _ _ e1 e2, inScope | .copyAllocId _ e1 e2, inScope => by
      simp only [subst, Expr.Scoped] at inScope ⊢
      exact ⟨scoped_subst closes inScope.1, scoped_subst closes inScope.2⟩
  | .cas _ e1 e2 e3, inScope | .ifE _ e1 e2 e3, inScope => by
      simp only [subst, Expr.Scoped] at inScope ⊢
      exact ⟨scoped_subst closes inScope.1, scoped_subst closes inScope.2.1,
        scoped_subst closes inScope.2.2⟩
  | .call f args, inScope => by
      simp only [subst, Expr.Scoped] at inScope ⊢
      exact ⟨scoped_subst closes inScope.1, scoped_substs closes inScope.2⟩
  | .concat es, inScope => by
      simp only [subst, Expr.Scoped] at inScope ⊢
      exact scoped_substs closes inScope

private theorem scoped_substs {xs ys : VarName → Prop} {x : VarName} {v : Val}
    (closes : ∀ y, xs y → y ≠ x → ys y) :
    ∀ {es : List Expr}, Exprs.Scoped xs es → Exprs.Scoped ys (substs x v es)
  | [], _ => trivial
  | e :: es, inScope => by
      simp only [substs, Exprs.Scoped] at inScope ⊢
      exact ⟨scoped_subst closes inScope.1, scoped_substs closes inScope.2⟩

end

/-- Substituting all variables that are in scope closes an expression. -/
theorem scoped_substL {bindings : List (VarName × Val)} {e : Expr}
    (inScope : e.Scoped (· ∈ bindings.map Prod.fst)) : (substL bindings e).Scoped noVars := by
  induction bindings generalizing e with
  | nil =>
      have none : (fun y => y ∈ ([] : List (VarName × Val)).map Prod.fst) = noVars := by
        funext y
        simp [noVars]
      rwa [none] at inScope
  | cons binding bindings inductionHypothesis =>
      obtain ⟨x, v⟩ := binding
      refine inductionHypothesis (scoped_subst ?_ inScope)
      intro y member different
      exact (List.mem_cons.mp member).resolve_left different

@[simp] theorem length_substStmts (bindings : List (VarName × Val)) (ss : List Stmt) :
    (substStmts bindings ss).length = ss.length := by
  induction ss with
  | nil => rfl
  | cons s ss inductionHypothesis => simp [substStmts, inductionHypothesis]

mutual

private theorem scoped_substStmt {bindings : List (VarName × Val)} {labels : Label → Prop} :
    ∀ {s : Stmt}, s.Scoped (· ∈ bindings.map Prod.fst) labels →
      (substStmt bindings s).Scoped noVars labels
  | .goto _, inScope => inScope
  | .stuckS, _ => trivial
  | .return e, inScope => by
      simp only [substStmt, Stmt.Scoped] at inScope ⊢
      exact scoped_substL inScope
  | .ifS _ _ e s1 s2, inScope => by
      simp only [substStmt, Stmt.Scoped] at inScope ⊢
      exact ⟨scoped_substL inScope.1, scoped_substStmt inScope.2.1,
        scoped_substStmt inScope.2.2⟩
  | .switch _ e m bs def_, inScope => by
      simp only [substStmt, Stmt.Scoped] at inScope ⊢
      rw [length_substStmts]
      exact ⟨scoped_substL inScope.1, inScope.2.1, scoped_substStmts inScope.2.2.1,
        scoped_substStmt inScope.2.2.2⟩
  | .assign _ _ e1 e2 s, inScope => by
      simp only [substStmt, Stmt.Scoped] at inScope ⊢
      exact ⟨scoped_substL inScope.1, scoped_substL inScope.2.1, scoped_substStmt inScope.2.2⟩
  | .free _ e s, inScope | .exprS e s, inScope => by
      simp only [substStmt, Stmt.Scoped] at inScope ⊢
      exact ⟨scoped_substL inScope.1, scoped_substStmt inScope.2⟩
  | .skipS s, inScope => by
      simp only [substStmt, Stmt.Scoped] at inScope ⊢
      exact scoped_substStmt inScope

private theorem scoped_substStmts {bindings : List (VarName × Val)} {labels : Label → Prop} :
    ∀ {ss : List Stmt}, Stmts.Scoped (· ∈ bindings.map Prod.fst) labels ss →
      Stmts.Scoped noVars labels (substStmts bindings ss)
  | [], _ => trivial
  | s :: ss, inScope => by
      simp only [substStmts, Stmts.Scoped] at inScope ⊢
      exact ⟨scoped_substStmt inScope.1, scoped_substStmts inScope.2⟩

end

/-! ## Steps -/

/-- The frame of a call has no variables left. -/
theorem Function.WellScoped.callFrame {fn : Function} {lsa lsv : List Loc}
    (wellScoped : fn.WellScoped) (argCount : lsa.length = fn.fArgs.length)
    (varCount : lsv.length = fn.fLocalVars.length) :
    (callFrame fn lsa lsv).rfFn.ScopedIn noVars ∧
      (callFrame fn lsa lsv).rfFn.Defines fn.fInit := by
  have names : (callSubst fn lsa lsv).map Prod.fst = fn.vars := by
    refine List.map_fst_zip ?_
    simp [argCount, varCount]
  have sameLabels : (substFunction (callSubst fn lsa lsv) fn).Defines = fn.Defines := by
    funext b
    simp [Function.Defines, substFunction]
  refine ⟨?_, ?_⟩
  · intro b s found
    obtain ⟨body, block, rfl⟩ := Option.map_eq_some_iff.mp found
    have inScope := wellScoped.blocks b body block
    rw [← names] at inScope
    change Stmt.Scoped noVars (substFunction (callSubst fn lsa lsv) fn).Defines _
    rw [sameLabels]
    exact scoped_substStmt inScope
  · change (substFunction (callSubst fn lsa lsv) fn).Defines fn.fInit
    rw [sameLabels]
    exact wellScoped.init

private theorem scoped_stmts_getElem {xs : VarName → Prop}
    {labels : Label → Prop} {ss : List Stmt}
    {i : Nat} {s : Stmt} (inScope : Stmts.Scoped xs labels ss) (found : ss[i]? = some s) :
    s.Scoped xs labels := by
  induction ss generalizing i with
  | nil => simp at found
  | cons head tail inductionHypothesis =>
      simp only [Stmts.Scoped] at inScope
      cases i with
      | zero =>
          simp only [List.getElem?_cons_zero, Option.some.injEq] at found
          exact found ▸ inScope.1
      | succ i => exact inductionHypothesis inScope.2 (by simpa using found)

/-- All functions of the state are well scoped. -/
def State.WellScoped (σ : State) : Prop := ∀ a fn, σ.stFntbl a = some fn → fn.WellScoped

private theorem exprStep_scoped {e : Expr} {σ σ' : State} {e' : RuntimeExpr} (fns : σ.WellScoped)
    (inScope : e.Scoped noVars) (step : ExprStep e σ e' σ') : e'.Scoped := by
  cases step with
  | skipES | unOpS | binOpS | casFailS | casSucS | concatS | copyAllocIdS | allocS => trivial
  | callFailS | allocFailS => trivial
  | @derefS o _ _ _ _ _ _ => cases o <;> trivial
  | @callS lsa lsv _ _ _ _ _ fn _ callee defined argCount varCount =>
      obtain ⟨blocks, init⟩ := (fns _ fn defined).callFrame argCount varCount
      exact scoped_toRtstmt.mpr ⟨blocks, init⟩
  | @ifES _ _ e1 e2 b =>
      refine scoped_toRtexpr.mpr ?_
      cases b
      · exact inScope.2.2
      · exact inScope.2.1

private theorem stmtStep_scoped {s : Stmt} {rf : RuntimeFunction} {σ σ' : State}
    {e' : RuntimeExpr} (body : rf.rfFn.ScopedIn noVars) (inScope : s.Scoped noVars rf.rfFn.Defines)
    (step : StmtStep s rf σ e' σ') : e'.Scoped := by
  cases step with
  | @assignS o _ _ s =>
      refine scoped_toRtstmt.mpr ⟨body, ?_⟩
      cases o
      · exact inScope.2.2
      · exact ⟨trivial, trivial, inScope.2.2⟩
      · exact inScope.2.2
  | @ifSS _ _ _ s1 s2 _ _ b =>
      refine scoped_toRtstmt.mpr ⟨body, ?_⟩
      cases b
      · exact inScope.2.2
      · exact inScope.2.1
  | @switchS _ _ v n m bs def_ =>
      refine scoped_toRtstmt.mpr ⟨body, ?_⟩
      cases branch : (m n).bind (fun i => bs[i]?) with
      | none => exact inScope.2.2.2
      | some target =>
          obtain ⟨i, -, found⟩ := Option.bind_eq_some_iff.mp branch
          exact scoped_stmts_getElem inScope.2.2.1 found
  | gotoS block => exact scoped_toRtstmt.mpr ⟨body, body _ _ block⟩
  | returnS => trivial
  | freeS | exprSS => exact scoped_toRtstmt.mpr ⟨body, inScope.2⟩
  | skipSS => exact scoped_toRtstmt.mpr ⟨body, inScope⟩

private theorem runtimeStep_scoped {e e' : RuntimeExpr} {σ σ' : State} (fns : σ.WellScoped)
    (inScope : e.Scoped) (step : RuntimeStep e σ e' σ') : e'.Scoped := by
  cases step with
  | exprStep step => exact exprStep_scoped fns (scoped_toRtexpr.mp inScope) step
  | stmtStep step =>
      obtain ⟨body, inScope⟩ := scoped_toRtstmt.mp inScope
      exact stmtStep_scoped body inScope step
  | allocFailedStep => trivial

/-! ## Contexts -/

private theorem scoped_vals_append {vl : List Val} {es : List RuntimeExpr} :
    RuntimeExprs.Scoped (vl.map ofVal ++ es) ↔ RuntimeExprs.Scoped es := by
  induction vl with
  | nil => simp
  | cons v vl inductionHypothesis =>
      simp [RuntimeExprs.Scoped, ofVal, RuntimeExpr.Scoped, RtExpr.Scoped] at *
      exact inductionHypothesis

/-- A context is scoped by itself: its hole takes any scoped expression. -/
theorem scoped_fillItem {K : LangEctx} {e : RuntimeExpr} (inScope : (langFillItem K e).Scoped) :
    e.Scoped ∧ ∀ e' : RuntimeExpr, e'.Scoped → (langFillItem K e').Scoped := by
  cases K with
  | exprCtx E =>
      cases E <;>
        simp only [langFillItem, exprFillItem, RuntimeExpr.Scoped, RtExpr.Scoped,
          RuntimeExprs.Scoped, scoped_vals_append] at inScope ⊢ <;> tauto
  | stmtCtx E rf =>
      cases E <;> simp only [langFillItem, stmtFillItem, RuntimeExpr.Scoped, RtStmt.Scoped]
        at inScope ⊢ <;> tauto

private theorem scoped_fill {K : List LangEctx} {e : RuntimeExpr}
    (inScope : (cLang.fill K e).Scoped) :
    e.Scoped ∧ ∀ e' : RuntimeExpr, e'.Scoped → (cLang.fill K e').Scoped := by
  induction K with
  | nil => exact ⟨inScope, fun _ => id⟩
  | cons item K inductionHypothesis =>
      obtain ⟨inner, outer⟩ := scoped_fillItem (K := item) inScope
      obtain ⟨redex, context⟩ := inductionHypothesis inner
      exact ⟨redex, fun e' filled => outer _ (context e' filled)⟩

/-! ## Whole runs -/

/-- All threads and functions are well scoped. -/
structure ScopedConfig (c : EctxiLanguage.Config RuntimeExpr State) : Prop where
  threads : ∀ t ∈ c.1, t.Scoped
  fns : c.2.WellScoped

theorem ScopedConfig.step {c c' : EctxiLanguage.Config RuntimeExpr State}
    (inScope : ScopedConfig c) (step : cLang.PoolStep c c') : ScopedConfig c' := by
  obtain ⟨i, t, t', found, ⟨K, headStep⟩, threads⟩ := step
  rename_i e e'
  have table := runtimeStep_fntbl headStep
  refine ⟨?_, ?_⟩
  · intro t member
    rw [threads] at member
    rcases List.mem_or_eq_of_mem_set member with old | rfl
    · exact inScope.threads t old
    · obtain ⟨redex, context⟩ := scoped_fill (inScope.threads _ (List.mem_of_getElem? found))
      exact context e' (runtimeStep_scoped inScope.fns redex headStep)
  · intro a fn isFn
    rw [table] at isFn
    exact inScope.fns a fn isFn

/-- Runs of well-scoped threads never get stuck at a free variable, at a jump
to a block that does not exist or at a switch that misses its branches. -/
theorem wellScoped_run {c₀ c : EctxiLanguage.Config RuntimeExpr State} {i : Nat}
    {K : List LangEctx} {e : RuntimeExpr} (inScope : ScopedConfig c₀)
    (run : cLang.PoolSteps c₀ c) (thread : c.1[i]? = some (cLang.fill K e)) :
    (∀ x, e ≠ toRtexpr (.var x)) ∧
      (∀ rf b, e = toRtstmt rf (.goto b) → ∃ c', cLang.PoolStepBy i c c') ∧
      (∀ rf it v m bs def_, e = toRtstmt rf (.switch it (.val v) m bs def_) →
        (valToZ v it).isSome → ∃ c', cLang.PoolStepBy i c c') := by
  have reached := cLang.invariant_of_poolSteps ScopedConfig.step inScope run
  obtain ⟨redex, -⟩ := scoped_fill (reached.threads _ (List.mem_of_getElem? thread))
  have steps : ∀ {e' σ'}, RuntimeStep e c.2 e' σ' → ∃ c', cLang.PoolStepBy i c c' := by
    intro e' σ' step
    exact ⟨(c.1.set i (cLang.fill K e'), σ'), _, _, thread, .ectx K step, rfl⟩
  refine ⟨?_, ?_, ?_⟩
  · rintro x rfl
    exact redex
  · rintro rf b rfl
    obtain ⟨-, defined⟩ := scoped_toRtstmt.mp redex
    obtain ⟨s, block⟩ := Option.isSome_iff_exists.mp defined
    exact steps (.stmtStep (.gotoS block))
  · rintro rf it v m bs def_ rfl isInt
    obtain ⟨-, -, inRange, -⟩ := scoped_toRtstmt.mp redex
    obtain ⟨n, value⟩ := Option.isSome_iff_exists.mp isInt
    refine steps (.stmtStep (.switchS value ?_))
    intro i found
    simpa using inRange n i found

/-! ## A call that jumps to a switch -/

def chooseStmt : Stmt :=
  .switch u8 (.val [.mByte byte0 none]) (PartialMap.empty.insert 0 0) [.return (.val [])]
    (.goto "#0")

def chooseFn : Function where
  fArgs := []
  fLocalVars := []
  fCode := PartialMap.empty.insert "#0" chooseStmt
  fInit := "#0"

def chooseState : State := ⟨globalByte, PartialMap.empty.insert 64 chooseFn⟩

def callChoose : EctxiLanguage.Config RuntimeExpr State :=
  ([toRtexpr (.call (.val (valOfLoc (fnLoc 64))) ([].map .val))], chooseState)

/-- The thread is in a frame of the function. -/
def choosing (s : Stmt) : EctxiLanguage.Config RuntimeExpr State :=
  ([toRtstmt (callFrame chooseFn [] []) s], chooseState)

private theorem chooseFn_wellScoped : chooseFn.WellScoped where
  blocks b s block := by
    change PartialMap.insert _ _ _ b = some s at block
    by_cases here : b = "#0"
    · subst here
      rw [PartialMap.insert_same] at block
      cases block
      refine ⟨trivial, ?_, ⟨trivial, trivial⟩, rfl⟩
      intro n i found
      by_cases isZero : n = 0
      · subst isZero
        rw [PartialMap.insert_same] at found
        cases found
        exact Nat.one_pos
      · rw [PartialMap.insert_other isZero] at found
        cases found
    · rw [PartialMap.insert_other here] at block
      cases block
  init := rfl

private theorem callChoose_scoped : ScopedConfig callChoose where
  threads t member := by
    obtain rfl := List.mem_singleton.mp member
    exact ⟨trivial, trivial⟩
  fns a fn found := by
    change PartialMap.insert _ _ _ a = some fn at found
    by_cases here : a = 64
    · subst here
      rw [PartialMap.insert_same] at found
      cases found
      exact chooseFn_wellScoped
    · rw [PartialMap.insert_other here] at found
      cases found

private theorem callChoose_step : cLang.PoolStep callChoose (choosing (.goto "#0")) := by
  have step : ExprStep (.call (.val (valOfLoc (fnLoc 64))) ([].map .val)) chooseState
      (toRtstmt (callFrame chooseFn [] []) (.goto "#0")) chooseState :=
    .callS (valToLoc_valOfLoc _) rfl rfl rfl .nil .nil .nil .nil .nil
  exact ⟨0, _, _, rfl, .ectx [] (.exprStep step), rfl⟩

private theorem choosing_goto : cLang.PoolStep (choosing (.goto "#0")) (choosing chooseStmt) :=
  ⟨0, _, _, rfl, .ectx [] (.stmtStep (.gotoS rfl)), rfl⟩

/-- The called function can jump to its first block, and the switch there can branch. -/
theorem wellScoped_run_choosing : (∃ c', cLang.PoolStepBy 0 (choosing (.goto "#0")) c') ∧
    (∀ x, toRtstmt (callFrame chooseFn [] []) chooseStmt ≠ toRtexpr (.var x)) ∧
      ∃ c', cLang.PoolStepBy 0 (choosing chooseStmt) c' := by
  have jumps := wellScoped_run (i := 0) (K := [])
    (e := toRtstmt (callFrame chooseFn [] []) (.goto "#0")) callChoose_scoped
    (.single callChoose_step) rfl
  have branches := wellScoped_run (i := 0) (K := [])
    (e := toRtstmt (callFrame chooseFn [] []) chooseStmt) callChoose_scoped
    (.tail (.single callChoose_step) choosing_goto) rfl
  exact ⟨jumps.2.1 _ _ rfl, branches.1, branches.2.2 _ _ _ _ _ _ rfl (by decide)⟩

end RefinedC.Caesium
