import RefinedC.Caesium.Step

/-!
Pending non-atomic accesses of Caesium threads.

Owns: the absence of second-phase accesses (`Na2Ord`) in programs, the threads
whose current redex is a pending load or store and the addresses these cover,
and the complete list of effects one step of a thread can have on the lock
states of the heap (`HeadEffect`).

Every invariant about lock states is derived from `runtimeStep_effect`; no later
proof looks at the individual step rules again.
-/

namespace RefinedC.Caesium

open RefinedC.Library

/-! ## Programs without second-phase accesses -/

mutual

def Expr.NoNa2 : Expr → Prop
  | .var _ | .val _ | .stuckE => True
  | .unOp _ _ e | .alloc _ e | .skipE e => e.NoNa2
  | .binOp _ _ _ e1 e2 | .copyAllocId _ e1 e2 => e1.NoNa2 ∧ e2.NoNa2
  | .deref o _ _ e => o ≠ .na2Ord ∧ e.NoNa2
  | .cas _ e1 e2 e3 | .ifE _ e1 e2 e3 => e1.NoNa2 ∧ e2.NoNa2 ∧ e3.NoNa2
  | .call f args => f.NoNa2 ∧ Exprs.NoNa2 args
  | .concat es => Exprs.NoNa2 es

def Exprs.NoNa2 : List Expr → Prop
  | [] => True
  | e :: es => e.NoNa2 ∧ Exprs.NoNa2 es

end

mutual

def Stmt.NoNa2 : Stmt → Prop
  | .goto _ | .stuckS => True
  | .return e => e.NoNa2
  | .ifS _ _ e s1 s2 => e.NoNa2 ∧ s1.NoNa2 ∧ s2.NoNa2
  | .switch _ e _ bs def_ => e.NoNa2 ∧ Stmts.NoNa2 bs ∧ def_.NoNa2
  | .assign o _ e1 e2 s => o ≠ .na2Ord ∧ e1.NoNa2 ∧ e2.NoNa2 ∧ s.NoNa2
  | .free _ e s | .exprS e s => e.NoNa2 ∧ s.NoNa2
  | .skipS s => s.NoNa2

def Stmts.NoNa2 : List Stmt → Prop
  | [] => True
  | s :: ss => s.NoNa2 ∧ Stmts.NoNa2 ss

end

/-- No body of the function contains a second-phase access. -/
def Function.NoNa2 (fn : Function) : Prop := ∀ b s, fn.fCode b = some s → s.NoNa2

mutual

def RuntimeExpr.NoNa2 : RuntimeExpr → Prop
  | .expr e => e.NoNa2
  | .stmt rf s => rf.rfFn.NoNa2 ∧ s.NoNa2
  | .allocFailed => True

def RuntimeExprs.NoNa2 : List RuntimeExpr → Prop
  | [] => True
  | e :: es => e.NoNa2 ∧ RuntimeExprs.NoNa2 es

def RtExpr.NoNa2 : RtExpr → Prop
  | .var _ | .val _ | .stuckE => True
  | .unOp _ _ e | .alloc _ e | .skipE e => e.NoNa2
  | .binOp _ _ _ e1 e2 | .copyAllocId _ e1 e2 => e1.NoNa2 ∧ e2.NoNa2
  | .deref o _ _ e => o ≠ .na2Ord ∧ e.NoNa2
  | .cas _ e1 e2 e3 | .ifE _ e1 e2 e3 => e1.NoNa2 ∧ e2.NoNa2 ∧ e3.NoNa2
  | .call f args => f.NoNa2 ∧ RuntimeExprs.NoNa2 args
  | .concat es => RuntimeExprs.NoNa2 es

def RtStmt.NoNa2 : RtStmt → Prop
  | .goto _ | .stuckS => True
  | .return e => e.NoNa2
  | .ifS _ _ e s1 s2 => e.NoNa2 ∧ s1.NoNa2 ∧ s2.NoNa2
  | .switch _ e _ bs def_ => e.NoNa2 ∧ Stmts.NoNa2 bs ∧ def_.NoNa2
  | .assign o _ e1 e2 s => o ≠ .na2Ord ∧ e1.NoNa2 ∧ e2.NoNa2 ∧ s.NoNa2
  | .free _ e s | .exprS e s => e.NoNa2 ∧ s.NoNa2
  | .skipS s => s.NoNa2

end

mutual

private theorem noNa2_toRtexpr : ∀ {e : Expr}, (toRtexpr e).NoNa2 ↔ e.NoNa2
  | .var _ | .val _ | .stuckE => by
      simp [toRtexpr, RuntimeExpr.NoNa2, RtExpr.NoNa2, Expr.NoNa2]
  | .unOp _ _ e | .alloc _ e | .skipE e | .deref _ _ _ e => by
      simp [toRtexpr, RuntimeExpr.NoNa2, RtExpr.NoNa2, Expr.NoNa2, @noNa2_toRtexpr e]
  | .binOp _ _ _ e1 e2 | .copyAllocId _ e1 e2 => by
      simp [toRtexpr, RuntimeExpr.NoNa2, RtExpr.NoNa2, Expr.NoNa2, @noNa2_toRtexpr e1,
        @noNa2_toRtexpr e2]
  | .cas _ e1 e2 e3 | .ifE _ e1 e2 e3 => by
      simp [toRtexpr, RuntimeExpr.NoNa2, RtExpr.NoNa2, Expr.NoNa2, @noNa2_toRtexpr e1,
        @noNa2_toRtexpr e2, @noNa2_toRtexpr e3]
  | .call f args => by
      simp [toRtexpr, RuntimeExpr.NoNa2, RtExpr.NoNa2, Expr.NoNa2, @noNa2_toRtexpr f,
        @noNa2_toRtexprs args]
  | .concat es => by
      simp [toRtexpr, RuntimeExpr.NoNa2, RtExpr.NoNa2, Expr.NoNa2, @noNa2_toRtexprs es]

private theorem noNa2_toRtexprs :
    ∀ {es : List Expr}, RuntimeExprs.NoNa2 (toRtexprs es) ↔ Exprs.NoNa2 es
  | [] => by simp [toRtexprs, RuntimeExprs.NoNa2, Exprs.NoNa2]
  | e :: es => by
      simp [toRtexprs, RuntimeExprs.NoNa2, Exprs.NoNa2, @noNa2_toRtexpr e, @noNa2_toRtexprs es]

end

theorem noNa2_toRtstmt {rf : RuntimeFunction} {s : Stmt} :
    (toRtstmt rf s).NoNa2 ↔ rf.rfFn.NoNa2 ∧ s.NoNa2 := by
  cases s <;> simp [toRtstmt, RuntimeExpr.NoNa2, RtStmt.NoNa2, Stmt.NoNa2, noNa2_toRtexpr]

mutual

private theorem noNa2_subst {x : VarName} {v : Val} :
    ∀ {e : Expr}, e.NoNa2 → (subst x v e).NoNa2
  | .var y, _ => by
      simp only [subst]
      split <;> trivial
  | .val _, _ | .stuckE, _ => trivial
  | .unOp _ _ e, h | .alloc _ e, h | .skipE e, h => by
      simp only [subst, Expr.NoNa2] at h ⊢
      exact noNa2_subst h
  | .deref _ _ _ e, h => by
      simp only [subst, Expr.NoNa2] at h ⊢
      exact ⟨h.1, noNa2_subst h.2⟩
  | .binOp _ _ _ e1 e2, h | .copyAllocId _ e1 e2, h => by
      simp only [subst, Expr.NoNa2] at h ⊢
      exact ⟨noNa2_subst h.1, noNa2_subst h.2⟩
  | .cas _ e1 e2 e3, h | .ifE _ e1 e2 e3, h => by
      simp only [subst, Expr.NoNa2] at h ⊢
      exact ⟨noNa2_subst h.1, noNa2_subst h.2.1, noNa2_subst h.2.2⟩
  | .call f args, h => by
      simp only [subst, Expr.NoNa2] at h ⊢
      exact ⟨noNa2_subst h.1, noNa2_substs h.2⟩
  | .concat es, h => by
      simp only [subst, Expr.NoNa2] at h ⊢
      exact noNa2_substs h

private theorem noNa2_substs {x : VarName} {v : Val} :
    ∀ {es : List Expr}, Exprs.NoNa2 es → Exprs.NoNa2 (substs x v es)
  | [], _ => trivial
  | e :: es, h => by
      simp only [substs, Exprs.NoNa2] at h ⊢
      exact ⟨noNa2_subst h.1, noNa2_substs h.2⟩

end

private theorem noNa2_substL {xs : List (VarName × Val)} {e : Expr} (h : e.NoNa2) :
    (substL xs e).NoNa2 := by
  induction xs generalizing e with
  | nil => exact h
  | cons head tail inductionHypothesis => exact inductionHypothesis (noNa2_subst h)

mutual

private theorem noNa2_substStmt {xs : List (VarName × Val)} :
    ∀ {s : Stmt}, s.NoNa2 → (substStmt xs s).NoNa2
  | .goto _, _ | .stuckS, _ => trivial
  | .return e, h => by
      simp only [substStmt, Stmt.NoNa2] at h ⊢
      exact noNa2_substL h
  | .ifS _ _ e s1 s2, h => by
      simp only [substStmt, Stmt.NoNa2] at h ⊢
      exact ⟨noNa2_substL h.1, noNa2_substStmt h.2.1, noNa2_substStmt h.2.2⟩
  | .switch _ e _ bs def_, h => by
      simp only [substStmt, Stmt.NoNa2] at h ⊢
      exact ⟨noNa2_substL h.1, noNa2_substStmts h.2.1, noNa2_substStmt h.2.2⟩
  | .assign _ _ e1 e2 s, h => by
      simp only [substStmt, Stmt.NoNa2] at h ⊢
      exact ⟨h.1, noNa2_substL h.2.1, noNa2_substL h.2.2.1, noNa2_substStmt h.2.2.2⟩
  | .free _ e s, h | .exprS e s, h => by
      simp only [substStmt, Stmt.NoNa2] at h ⊢
      exact ⟨noNa2_substL h.1, noNa2_substStmt h.2⟩
  | .skipS s, h => by
      simp only [substStmt, Stmt.NoNa2] at h ⊢
      exact noNa2_substStmt h

private theorem noNa2_substStmts {xs : List (VarName × Val)} :
    ∀ {ss : List Stmt}, Stmts.NoNa2 ss → Stmts.NoNa2 (substStmts xs ss)
  | [], _ => trivial
  | s :: ss, h => by
      simp only [substStmts, Stmts.NoNa2] at h ⊢
      exact ⟨noNa2_substStmt h.1, noNa2_substStmts h.2⟩

end

private theorem noNa2_substFunction {xs : List (VarName × Val)} {fn : Function} (h : fn.NoNa2) :
    (substFunction xs fn).NoNa2 := by
  intro b s found
  simp only [substFunction, Option.map_eq_some_iff] at found
  obtain ⟨body, lookup, rfl⟩ := found
  exact noNa2_substStmt (h b body lookup)

private theorem noNa2_stmts_getElem {ss : List Stmt} {i : Nat} {s : Stmt}
    (h : Stmts.NoNa2 ss) (found : ss[i]? = some s) : s.NoNa2 := by
  induction ss generalizing i with
  | nil => simp at found
  | cons head tail inductionHypothesis =>
      simp only [Stmts.NoNa2] at h
      cases i with
      | zero =>
          simp only [List.getElem?_cons_zero, Option.some.injEq] at found
          exact found ▸ h.1
      | succ i => exact inductionHypothesis h.2 (by simpa using found)

/-! ## Contexts without second-phase accesses -/

private theorem noNa2_vals_append {vl : List Val} {es : List RuntimeExpr} :
    RuntimeExprs.NoNa2 (vl.map ofVal ++ es) ↔ RuntimeExprs.NoNa2 es := by
  induction vl with
  | nil => simp
  | cons v vl inductionHypothesis =>
      simp [RuntimeExprs.NoNa2, ofVal, RuntimeExpr.NoNa2, RtExpr.NoNa2] at *
      exact inductionHypothesis

/-- The hole of a context item, filled with a value. -/
def unitVal : RuntimeExpr := ofVal []

private theorem noNa2_fillItem {K : LangEctx} {e : RuntimeExpr} :
    (langFillItem K e).NoNa2 ↔ (langFillItem K unitVal).NoNa2 ∧ e.NoNa2 := by
  have unit : unitVal.NoNa2 := trivial
  cases K with
  | exprCtx E =>
      cases E <;>
        simp [langFillItem, exprFillItem, RuntimeExpr.NoNa2, RtExpr.NoNa2, RuntimeExprs.NoNa2,
          noNa2_vals_append, unit] <;> tauto
  | stmtCtx E rf =>
      cases E <;> simp [langFillItem, stmtFillItem, RuntimeExpr.NoNa2, RtStmt.NoNa2, unit] <;>
        tauto

theorem noNa2_fill {K : List LangEctx} {e : RuntimeExpr} :
    (cLang.fill K e).NoNa2 ↔ (cLang.fill K unitVal).NoNa2 ∧ e.NoNa2 := by
  induction K with
  | nil =>
      have unit : unitVal.NoNa2 := trivial
      simp [EctxiLanguage.fill, unit]
  | cons item K inductionHypothesis =>
      change (langFillItem item (cLang.fill K e)).NoNa2 ↔
        (langFillItem item (cLang.fill K unitVal)).NoNa2 ∧ e.NoNa2
      rw [noNa2_fillItem, inductionHypothesis, noNa2_fillItem (e := cLang.fill K unitVal)]
      tauto

/-! ## Pending accesses -/

/-- Address `a` is one of the bytes of an access of type `ot` at `l`. -/
def Covers (l : Loc) (ot : OpType) (a : Int) : Prop :=
  l.2 ≤ a ∧ a < l.2 + ot.otLayout.lySize

/-- A load between its two steps. -/
def pendingDeref (ot : OpType) (mc : Bool) (v : Val) : RuntimeExpr :=
  toRtexpr (.deref .na2Ord ot mc (.val v))

/-- A store between its two steps. -/
def pendingAssign (rf : RuntimeFunction) (ot : OpType) (v1 v2 : Val) (s : Stmt) : RuntimeExpr :=
  toRtstmt rf (.assign .na2Ord ot (.val v1) (.val v2) s)

/-- The current redex of thread `t` is a pending load that covers `a`. -/
def DerefCovers (a : Int) (t : RuntimeExpr) : Prop :=
  ∃ K ot mc v l, t = cLang.fill K (pendingDeref ot mc v) ∧ valToLoc v = some l ∧ Covers l ot a

/-- The current redex of thread `t` is a pending store that covers `a`. -/
def AssignCovers (a : Int) (t : RuntimeExpr) : Prop :=
  ∃ K rf ot v1 v2 s l, t = cLang.fill K (pendingAssign rf ot v1 v2 s) ∧
    valToLoc v1 = some l ∧ Covers l ot a

theorem deref_isRedex (o : Order) (ot : OpType) (mc : Bool) (v : Val) :
    cLang.IsRedex (toRtexpr (.deref o ot mc (.val v))) := by
  refine ⟨rfl, ?_⟩
  intro item inner shape
  cases item with
  | stmtCtx E rf => simp [toRtexpr, cLang, langFillItem] at shape
  | exprCtx E =>
      cases E <;> simp [toRtexpr, cLang, langFillItem, exprFillItem] at shape
      rw [← shape.2.2.2]
      rfl

theorem pendingDeref_isRedex (ot : OpType) (mc : Bool) (v : Val) :
    cLang.IsRedex (pendingDeref ot mc v) := deref_isRedex .na2Ord ot mc v

theorem pendingAssign_isRedex (rf : RuntimeFunction) (ot : OpType) (v1 v2 : Val) (s : Stmt) :
    cLang.IsRedex (pendingAssign rf ot v1 v2 s) := by
  refine ⟨rfl, ?_⟩
  intro item inner shape
  cases item with
  | exprCtx E => simp [pendingAssign, toRtstmt, cLang, langFillItem] at shape
  | stmtCtx E rf' =>
      cases E <;>
        simp [pendingAssign, toRtstmt, toRtexpr, cLang, langFillItem, stmtFillItem] at shape
      · rw [← shape.2.2.2.2.1]
        rfl
      · rw [← shape.2.2.2.1]
        rfl

theorem pendingDeref_not_noNa2 {ot : OpType} {mc : Bool} {v : Val} :
    ¬ (pendingDeref ot mc v).NoNa2 := by
  simp [pendingDeref, noNa2_toRtexpr, Expr.NoNa2]

theorem pendingAssign_not_noNa2 {rf : RuntimeFunction} {ot : OpType} {v1 v2 : Val} {s : Stmt} :
    ¬ (pendingAssign rf ot v1 v2 s).NoNa2 := by
  simp [pendingAssign, noNa2_toRtstmt, Stmt.NoNa2]

theorem not_derefCovers_of_noNa2 {a : Int} {t : RuntimeExpr} (h : t.NoNa2) :
    ¬ DerefCovers a t := by
  rintro ⟨K, ot, mc, v, l, rfl, -, -⟩
  exact pendingDeref_not_noNa2 (noNa2_fill.mp h).2

theorem not_assignCovers_of_noNa2 {a : Int} {t : RuntimeExpr} (h : t.NoNa2) :
    ¬ AssignCovers a t := by
  rintro ⟨K, rf, ot, v1, v2, s, l, rfl, -, -⟩
  exact pendingAssign_not_noNa2 (noNa2_fill.mp h).2

section Redex

variable {a : Int} {K : List LangEctx} {ot : OpType} {v v1 v2 : Val} {l : Loc}
  {rf : RuntimeFunction} {s : Stmt} {mc : Bool}

theorem derefCovers_pendingDeref (pointer : valToLoc v = some l) :
    DerefCovers a (cLang.fill K (pendingDeref ot mc v)) ↔ Covers l ot a := by
  constructor
  · rintro ⟨K', ot', mc', v', l', shape, pointer', covers⟩
    obtain ⟨-, redex⟩ := cLang.fill_redex_unique (pendingDeref_isRedex ot mc v)
      (pendingDeref_isRedex ot' mc' v') shape
    simp [pendingDeref, toRtexpr] at redex
    obtain ⟨rfl, -, rfl⟩ := redex
    rw [pointer] at pointer'
    exact Option.some.inj pointer' ▸ covers
  · intro covers
    exact ⟨K, ot, mc, v, l, rfl, pointer, covers⟩

theorem not_assignCovers_pendingDeref :
    ¬ AssignCovers a (cLang.fill K (pendingDeref ot mc v)) := by
  rintro ⟨K', rf', ot', v1', v2', s', l', shape, -, -⟩
  obtain ⟨-, redex⟩ := cLang.fill_redex_unique (pendingDeref_isRedex ot mc v)
    (pendingAssign_isRedex rf' ot' v1' v2' s') shape
  simp [pendingDeref, pendingAssign, toRtexpr, toRtstmt] at redex

theorem assignCovers_pendingAssign (pointer : valToLoc v1 = some l) :
    AssignCovers a (cLang.fill K (pendingAssign rf ot v1 v2 s)) ↔ Covers l ot a := by
  constructor
  · rintro ⟨K', rf', ot', v1', v2', s', l', shape, pointer', covers⟩
    obtain ⟨-, redex⟩ := cLang.fill_redex_unique (pendingAssign_isRedex rf ot v1 v2 s)
      (pendingAssign_isRedex rf' ot' v1' v2' s') shape
    simp [pendingAssign, toRtstmt, toRtexpr] at redex
    obtain ⟨-, rfl, rfl, -⟩ := redex
    rw [pointer] at pointer'
    exact Option.some.inj pointer' ▸ covers
  · intro covers
    exact ⟨K, rf, ot, v1, v2, s, l, rfl, pointer, covers⟩

theorem not_derefCovers_pendingAssign :
    ¬ DerefCovers a (cLang.fill K (pendingAssign rf ot v1 v2 s)) := by
  rintro ⟨K', ot', mc', v', l', shape, -, -⟩
  obtain ⟨-, redex⟩ := cLang.fill_redex_unique (pendingAssign_isRedex rf ot v1 v2 s)
    (pendingDeref_isRedex ot' mc' v') shape
  simp [pendingDeref, pendingAssign, toRtexpr, toRtstmt] at redex

end Redex

/-! ## What a step does to lock states -/

/-- The cell at `a`, if there is one, is neither read nor written. -/
def Unlocked (h : Heap) (a : Int) : Prop :=
  ∀ cell, h a = some cell → cell.hcLockState = .rSt 0

/-- Cells change only between unlocked and unmapped. -/
def LockNeutral (h h' : Heap) : Prop :=
  ∀ a, h' a = h a ∨ (Unlocked h a ∧ Unlocked h' a)

theorem LockNeutral.refl (h : Heap) : LockNeutral h h := fun _ => .inl rfl

theorem LockNeutral.trans {h h' h'' : Heap} (first : LockNeutral h h')
    (second : LockNeutral h' h'') : LockNeutral h h'' := by
  intro a
  rcases first a with same | ⟨before, after⟩ <;> rcases second a with
    same' | ⟨before', after'⟩
  · exact .inl (same'.trans same)
  · refine .inr ⟨?_, after'⟩
    intro cell found
    exact before' cell (same ▸ found)
  · refine .inr ⟨before, ?_⟩
    intro cell found
    exact after cell (same' ▸ found)
  · exact .inr ⟨before, after'⟩

/-- The access of type `ot` at `l` changes each of its cells by `R`, keeps the
owner of every cell, and leaves all other cells alone. -/
def AccessEffect (l : Loc) (ot : OpType) (R : HeapCell → HeapCell → Prop) (h h' : Heap) :
    Prop :=
  ∃ aid, l.1 = .provAlloc (some aid) ∧ hasLayoutLoc l ot.otLayout ∧
    (∀ a, Covers l ot a → ∃ cell cell', h a = some cell ∧ h' a = some cell' ∧
      cell.hcAllocId = aid ∧ cell'.hcAllocId = aid ∧ R cell cell') ∧
    ∀ a, ¬ Covers l ot a → h' a = h a

theorem heapUpd_effect {l : Loc} {ot : OpType} {old new : Val} {Plk : LockState → Prop}
    {h : Heap} (flk : Option LockState → LockState)
    (cells : heapAt l ot.otLayout old Plk h) (length : hasLayoutVal new ot.otLayout) :
    AccessEffect l ot (fun cell cell' => Plk cell.hcLockState ∧
        cell'.hcLockState = flk (some cell.hcLockState) ∧
        (new = old → cell'.hcValue = cell.hcValue))
      h (heapUpd l new flk h) := by
  obtain ⟨⟨aid, provenance⟩, aligned, oldLength, lookup⟩ := cells
  unfold hasLayoutVal at length oldLength
  refine ⟨aid, provenance, aligned, ?_, ?_⟩
  · intro a covers
    obtain ⟨aid', lk, b, cell, value, owner, lockOk⟩ :=
      heapLookup_cell lookup covers.1 (by rw [oldLength]; exact covers.2)
    obtain ⟨b', value', updated⟩ := heapUpdate_inside (v := new)
      (fun m => m.getD ((provAllocId l.1).getD dummyAllocId)) flk h
      covers.1 (by rw [length]; exact covers.2)
    have sameOwner : aid' = aid := by
      rw [provenance] at owner
      simpa using owner.symm
    refine ⟨⟨aid', lk, b⟩, ⟨aid', flk (some lk), b'⟩, cell, ?_, sameOwner, sameOwner,
      lockOk, rfl, ?_⟩
    · rw [cell] at updated
      exact updated
    · rintro rfl
      rw [value] at value'
      exact (Option.some.inj value').symm
  · intro a outside
    apply heapUpdate_outside
    unfold Covers at outside
    rw [length]
    omega

theorem AccessEffect.neutral {l : Loc} {ot : OpType} {R : HeapCell → HeapCell → Prop}
    {h h' : Heap} (effect : AccessEffect l ot R h h') (unlocked : ∀ cell cell', R cell cell' →
      cell.hcLockState = .rSt 0 ∧ cell'.hcLockState = .rSt 0) : LockNeutral h h' := by
  obtain ⟨aid, -, -, inside, outside⟩ := effect
  intro a
  by_cases covers : Covers l ot a
  · obtain ⟨cell, cell', before, after, -, -, related⟩ := inside a covers
    obtain ⟨lockBefore, lockAfter⟩ := unlocked cell cell' related
    refine .inr ⟨?_, ?_⟩
    · intro found isCell
      rw [before] at isCell
      exact Option.some.inj isCell ▸ lockBefore
    · intro found isCell
      rw [after] at isCell
      exact Option.some.inj isCell ▸ lockAfter
  · exact .inl (outside a covers)

private theorem AccessEffect.unchanged {l : Loc} {ot : OpType} {R : HeapCell → HeapCell → Prop}
    {h h' : Heap} (effect : AccessEffect l ot R h h') (same : ∀ cell cell', R cell cell' →
      cell'.hcLockState = cell.hcLockState ∧ cell'.hcValue = cell.hcValue) : h' = h := by
  obtain ⟨aid, -, -, inside, outside⟩ := effect
  funext a
  by_cases covers : Covers l ot a
  · obtain ⟨cell, cell', before, after, owner, owner', related⟩ := inside a covers
    obtain ⟨sameLock, sameValue⟩ := same cell cell' related
    rw [before, after]
    cases cell
    cases cell'
    simp_all
  · exact outside a covers

theorem AllocNewBlock.neutral {σ σ' : HeapState} {kind : AllocKind} {l : Loc} {v : Val}
    (block : AllocNewBlock σ kind l v σ') : LockNeutral σ.hsHeap σ'.hsHeap := by
  obtain ⟨provenance, fresh, inRange, rangeFree⟩ := block
  rename_i aid
  intro a
  by_cases inside : l.2 ≤ a ∧ a < l.2 + v.length
  · refine .inr ⟨?_, ?_⟩
    · intro cell found
      rw [rangeFree a inside] at found
      cases found
    · intro cell found
      obtain ⟨b, -, updated⟩ := heapUpdate_inside (fun _ => aid) (fun _ => .rSt 0) σ.hsHeap
        inside.1 inside.2
      change heapUpdate _ _ _ _ _ a = some cell at found
      rw [updated] at found
      cases found
      rfl
  · exact .inl (heapUpdate_outside (by omega))

theorem AllocNewBlocks.neutral {σ σ' : HeapState} {kind : AllocKind} {ls : List Loc}
    {vs : List Val} (blocks : AllocNewBlocks σ kind ls vs σ') :
    LockNeutral σ.hsHeap σ'.hsHeap := by
  induction blocks with
  | nil => exact .refl _
  | cons first _ inductionHypothesis => exact first.neutral.trans inductionHypothesis

theorem FreeBlock.neutral {σ σ' : HeapState} {kind : AllocKind} {l : Loc} {ly : Layout}
    (block : FreeBlock σ kind l ly σ') : LockNeutral σ.hsHeap σ'.hsHeap := by
  obtain ⟨provenance, alive, length, unlocked⟩ := block
  intro a
  by_cases inside : l.2 ≤ a ∧ a < l.2 + ly.lySize
  · refine .inr ⟨?_, ?_⟩
    · intro cell found
      obtain ⟨aid, lk, b, isCell, -, -, lockOk⟩ :=
        heapLookup_cell unlocked inside.1 (by rw [length]; exact inside.2)
      rw [isCell] at found
      cases found
      exact lockOk
    · intro cell found
      change heapFree _ _ _ a = some cell at found
      rw [heapFree_inside inside.1 inside.2] at found
      cases found
  · exact .inl (heapFree_outside (by omega))

theorem FreeBlocks.neutral {σ σ' : HeapState} {kind : AllocKind} {ls : List (Loc × Layout)}
    (blocks : FreeBlocks σ kind ls σ') : LockNeutral σ.hsHeap σ'.hsHeap := by
  induction blocks with
  | nil => exact .refl _
  | cons first _ inductionHypothesis => exact first.neutral.trans inductionHypothesis

/-! ## The effects of a step -/

/-- Second-phase accesses occur in the redex only as the redex itself. -/
def RedexOk (e : RuntimeExpr) : Prop :=
  e.NoNa2 ∨ (∃ ot mc v, e = pendingDeref ot mc v) ∨
    ∃ rf ot v1 v2 s, e = pendingAssign rf ot v1 v2 s ∧ rf.rfFn.NoNa2 ∧ s.NoNa2

/-- All function bodies of the state are free of second-phase accesses. -/
def State.NoNa2 (σ : State) : Prop := ∀ a fn, σ.stFntbl a = some fn → fn.NoNa2

def readStarts (cell cell' : HeapCell) : Prop :=
  ∃ n, cell.hcLockState = .rSt n ∧ cell'.hcLockState = .rSt (n + 1) ∧
    cell'.hcValue = cell.hcValue

def readEnds (cell cell' : HeapCell) : Prop :=
  ∃ n, cell.hcLockState = .rSt (n + 1) ∧ cell'.hcLockState = .rSt n ∧
    cell'.hcValue = cell.hcValue

def writeStarts (cell cell' : HeapCell) : Prop :=
  cell.hcLockState = .rSt 0 ∧ cell'.hcLockState = .wSt ∧ cell'.hcValue = cell.hcValue

def writeEnds (cell cell' : HeapCell) : Prop :=
  cell.hcLockState = .wSt ∧ cell'.hcLockState = .rSt 0

/-- Everything a head step can do to lock states and to the presence of
second-phase accesses. -/
inductive HeadEffect : RuntimeExpr → Heap → RuntimeExpr → Heap → Prop where
  | neutral {e e' : RuntimeExpr} {h h' : Heap} (before : e.NoNa2) (after : e'.NoNa2)
      (heap : LockNeutral h h') : HeadEffect e h e' h'
  | readStart {ot : OpType} {mc : Bool} {v : Val} {l : Loc} {h h' : Heap}
      (pointer : valToLoc v = some l) (access : AccessEffect l ot readStarts h h') :
      HeadEffect (toRtexpr (.deref .na1Ord ot mc (.val v))) h (pendingDeref ot mc v) h'
  | readEnd {ot : OpType} {mc : Bool} {v : Val} {l : Loc} {e' : RuntimeExpr} {h h' : Heap}
      (pointer : valToLoc v = some l) (access : AccessEffect l ot readEnds h h')
      (after : e'.NoNa2) : HeadEffect (pendingDeref ot mc v) h e' h'
  | writeStart {rf : RuntimeFunction} {ot : OpType} {v1 v2 : Val} {s : Stmt} {l : Loc}
      {h h' : Heap} (pointer : valToLoc v1 = some l) (layout : hasLayoutVal v2 ot.otLayout)
      (body : rf.rfFn.NoNa2) (rest : s.NoNa2) (access : AccessEffect l ot writeStarts h h') :
      HeadEffect (toRtstmt rf (.assign .na1Ord ot (.val v1) (.val v2) s)) h
        (pendingAssign rf ot v1 v2 s) h'
  | writeEnd {rf : RuntimeFunction} {ot : OpType} {v1 v2 : Val} {s : Stmt} {l : Loc}
      {e' : RuntimeExpr} {h h' : Heap} (pointer : valToLoc v1 = some l)
      (access : AccessEffect l ot writeEnds h h') (after : e'.NoNa2) :
      HeadEffect (pendingAssign rf ot v1 v2 s) h e' h'

theorem AccessEffect.mono {l : Loc} {ot : OpType} {R R' : HeapCell → HeapCell → Prop}
    {h h' : Heap} (effect : AccessEffect l ot R h h')
    (weaken : ∀ cell cell', R cell cell' → R' cell cell') : AccessEffect l ot R' h h' := by
  obtain ⟨aid, provenance, aligned, inside, outside⟩ := effect
  refine ⟨aid, provenance, aligned, ?_, outside⟩
  intro a covers
  obtain ⟨cell, cell', before, after, owner, owner', related⟩ := inside a covers
  exact ⟨cell, cell', before, after, owner, owner', weaken cell cell' related⟩

private theorem redexOk_toRtexpr {e : Expr} (ok : RedexOk (toRtexpr e)) :
    e.NoNa2 ∨ ∃ ot mc v, e = .deref .na2Ord ot mc (.val v) := by
  rcases ok with free | ⟨ot, mc, v, shape⟩ | ⟨rf, ot, v1, v2, s, shape, -, -⟩
  · exact .inl (noNa2_toRtexpr.mp free)
  · exact .inr ⟨ot, mc, v, toRtexpr_inj shape⟩
  · cases e <;> simp [toRtexpr, pendingAssign, toRtstmt] at shape

/-- A redex that is no second phase of a load. -/
theorem redexOk_noNa2 {e : Expr} (ok : RedexOk (toRtexpr e))
    (other : ∀ ot mc v, e ≠ .deref .na2Ord ot mc (.val v)) : e.NoNa2 :=
  (redexOk_toRtexpr ok).resolve_right fun ⟨ot, mc, v, shape⟩ => other ot mc v shape

private theorem redexOk_toRtstmt {rf : RuntimeFunction} {s : Stmt} (ok : RedexOk (toRtstmt rf s)) :
    rf.rfFn.NoNa2 ∧ (s.NoNa2 ∨
      ∃ ot v1 v2 rest, s = .assign .na2Ord ot (.val v1) (.val v2) rest ∧ rest.NoNa2) := by
  rcases ok with free | ⟨ot, mc, v, shape⟩ | ⟨rf', ot, v1, v2, rest, shape, body, restOk⟩
  · have := noNa2_toRtstmt.mp free
    exact ⟨this.1, .inl this.2⟩
  · cases s <;> simp [toRtstmt, pendingDeref, toRtexpr] at shape
  · cases s <;> simp [toRtstmt, pendingAssign, toRtexpr] at shape
    obtain ⟨rfl, rfl, rfl, left, right, rfl⟩ := shape
    have leftVal : _ = Expr.val v1 := toRtexpr_inj left
    have rightVal : _ = Expr.val v2 := toRtexpr_inj right
    exact ⟨body, .inr ⟨_, v1, v2, _, by rw [leftVal, rightVal], restOk⟩⟩

/-- A redex that is no second phase of a store. -/
theorem redexOk_stmt_noNa2 {rf : RuntimeFunction} {s : Stmt} (ok : RedexOk (toRtstmt rf s))
    (other : ∀ ot v1 v2 rest, s ≠ .assign .na2Ord ot (.val v1) (.val v2) rest) : s.NoNa2 :=
  (redexOk_toRtstmt ok).2.resolve_right fun ⟨ot, v1, v2, rest, shape, _⟩ =>
    other ot v1 v2 rest shape

private theorem exprStep_effect {e : Expr} {σ σ' : State} {e' : RuntimeExpr} (fns : σ.NoNa2)
    (ok : RedexOk (toRtexpr e)) (step : ExprStep e σ e' σ') :
    HeadEffect (toRtexpr e) σ.stHeap.hsHeap e' σ'.stHeap.hsHeap := by
  have valFree : ∀ v : Val, (toRtexpr (.val v)).NoNa2 := fun _ => trivial
  cases step with
  | skipES =>
      exact .neutral trivial (valFree _) (.refl _)
  | unOpS eval => exact .neutral trivial (valFree _) (.refl _)
  | binOpS eval => exact .neutral ⟨trivial, trivial⟩ (valFree _) (.refl _)
  | @derefS o v l ot v' _ mc pointer cells =>
      have effect := heapUpd_effect (derefEndSt o) cells cells.2.2.1
      cases o with
      | scOrd =>
          have same := effect.unchanged (by
            rintro cell cell' ⟨⟨n, start⟩, ending, value⟩
            exact ⟨by rw [ending, start]; rfl, value rfl⟩)
          refine .neutral (noNa2_toRtexpr.mpr ⟨by simp, trivial⟩) (valFree _) ?_
          intro a
          exact .inl (congrFun same a)
      | na1Ord =>
          refine .readStart pointer (effect.mono ?_)
          rintro cell cell' ⟨⟨n, start⟩, ending, value⟩
          exact ⟨n, start, by rw [ending, start]; rfl, value rfl⟩
      | na2Ord =>
          refine .readEnd pointer (effect.mono ?_) (valFree _)
          rintro cell cell' ⟨⟨n, start⟩, ending, value⟩
          exact ⟨n, start, by rw [ending, start]; rfl, value rfl⟩
  | @casFailS l1 l2 vo ve _ z1 z2 v1 v2 v3 ot _ objectCells _ expectedCells =>
      have effect := heapUpd_effect (fun _ => .rSt 0) expectedCells
        objectCells.2.2.1
      refine .neutral ⟨trivial, trivial, trivial⟩ (valFree _) (effect.neutral ?_)
      rintro cell cell' ⟨start, ending, -⟩
      exact ⟨start, ending⟩
  | @casSucS l1 l2 ot vo ve _ z1 z2 v1 v2 v3 _ objectCells _ _ _ _ desired =>
      have effect := heapUpd_effect (fun _ => .rSt 0) objectCells desired
      refine .neutral ⟨trivial, trivial, trivial⟩ (valFree _) (effect.neutral ?_)
      rintro cell cell' ⟨start, ending, -⟩
      exact ⟨start, ending⟩
  | callS callee defined _ _ _ _ _ allocVars allocArgs =>
      have callFree := redexOk_noNa2 ok nofun
      refine .neutral (noNa2_toRtexpr.mpr callFree) ?_ (allocVars.neutral.trans allocArgs.neutral)
      exact noNa2_toRtstmt.mpr ⟨noNa2_substFunction (fns _ _ defined), trivial⟩
  | callFailS =>
      have callFree := redexOk_noNa2 ok nofun
      exact .neutral (noNa2_toRtexpr.mpr callFree) trivial (.refl _)
  | concatS =>
      have concatFree := redexOk_noNa2 ok nofun
      exact .neutral (noNa2_toRtexpr.mpr concatFree) (valFree _) (.refl _)
  | copyAllocIdS => exact .neutral ⟨trivial, trivial⟩ (valFree _) (.refl _)
  | @ifES v ot e1 e2 b =>
      have ifFree : Expr.NoNa2 (.ifE ot (.val v) e1 e2) := redexOk_noNa2 ok nofun
      refine .neutral (noNa2_toRtexpr.mpr ifFree) (noNa2_toRtexpr.mpr ?_) (.refl _)
      cases b
      · exact ifFree.2.2
      · exact ifFree.2.1
  | allocS _ _ block => exact .neutral trivial (valFree _) block.neutral
  | allocFailS => exact .neutral trivial trivial (.refl _)

private theorem stmtStep_effect {s : Stmt} {rf : RuntimeFunction} {σ σ' : State}
    {e' : RuntimeExpr} (ok : RedexOk (toRtstmt rf s)) (step : StmtStep s rf σ e' σ') :
    HeadEffect (toRtstmt rf s) σ.stHeap.hsHeap e' σ'.stHeap.hsHeap := by
  obtain ⟨body, free⟩ := redexOk_toRtstmt ok
  cases step with
  | @assignS o _ _ s v1 v2 l v' ot pointer layout cells =>
      have newLength : hasLayoutVal (assignEndVal o v2 v') ot.otLayout := by
        cases o
        · exact layout
        · exact cells.2.2.1
        · exact layout
      have effect := heapUpd_effect (assignEndSt o) cells newLength
      cases o with
      | scOrd =>
          have restFree := redexOk_stmt_noNa2 ok nofun
          refine .neutral (noNa2_toRtstmt.mpr ⟨body, restFree⟩)
            (noNa2_toRtstmt.mpr ⟨body, restFree.2.2.2⟩) (effect.neutral ?_)
          rintro cell cell' ⟨start, ending, -⟩
          exact ⟨start, ending⟩
      | na1Ord =>
          have restFree := redexOk_stmt_noNa2 ok nofun
          refine .writeStart pointer layout body restFree.2.2.2 (effect.mono ?_)
          rintro cell cell' ⟨start, ending, value⟩
          exact ⟨start, ending, value rfl⟩
      | na2Ord =>
          have restFree : s.NoNa2 := by
            rcases free with free | ⟨_, _, _, _, shape, restOk⟩
            · exact free.2.2.2
            · cases shape
              exact restOk
          refine .writeEnd pointer (effect.mono ?_) (noNa2_toRtstmt.mpr ⟨body, restFree⟩)
          rintro cell cell' ⟨start, ending, -⟩
          exact ⟨start, ending⟩
  | @ifSS ot join v s1 s2 _ _ b =>
      have ifFree := redexOk_stmt_noNa2 ok nofun
      refine .neutral (noNa2_toRtstmt.mpr ⟨body, ifFree⟩)
        (noNa2_toRtstmt.mpr ⟨body, ?_⟩) (.refl _)
      cases b
      · exact ifFree.2.2
      · exact ifFree.2.1
  | @switchS _ _ v n m bs def_ it =>
      have switchFree := redexOk_stmt_noNa2 ok nofun
      refine .neutral (noNa2_toRtstmt.mpr ⟨body, switchFree⟩)
        (noNa2_toRtstmt.mpr ⟨body, ?_⟩)
        (.refl _)
      cases branch : (m n).bind (fun i => bs[i]?) with
      | none => exact switchFree.2.2
      | some target =>
          obtain ⟨i, -, found⟩ := Option.bind_eq_some_iff.mp branch
          exact noNa2_stmts_getElem switchFree.2.1 found
  | gotoS block =>
      exact .neutral (noNa2_toRtstmt.mpr ⟨body, trivial⟩)
        (noNa2_toRtstmt.mpr ⟨body, body _ _ block⟩) (.refl _)
  | returnS deallocate =>
      exact .neutral (noNa2_toRtstmt.mpr ⟨body, trivial⟩) trivial deallocate.neutral
  | freeS _ _ block =>
      have freeFree := redexOk_stmt_noNa2 ok nofun
      exact .neutral (noNa2_toRtstmt.mpr ⟨body, freeFree⟩)
        (noNa2_toRtstmt.mpr ⟨body, freeFree.2⟩) block.neutral
  | skipSS =>
      have skipFree := redexOk_stmt_noNa2 ok nofun
      exact .neutral (noNa2_toRtstmt.mpr ⟨body, skipFree⟩)
        (noNa2_toRtstmt.mpr ⟨body, skipFree⟩) (.refl _)
  | exprSS =>
      have exprFree := redexOk_stmt_noNa2 ok nofun
      exact .neutral (noNa2_toRtstmt.mpr ⟨body, exprFree⟩)
        (noNa2_toRtstmt.mpr ⟨body, exprFree.2⟩) (.refl _)

theorem runtimeStep_effect {e e' : RuntimeExpr} {σ σ' : State} (fns : σ.NoNa2)
    (ok : RedexOk e) (step : RuntimeStep e σ e' σ') :
    HeadEffect e σ.stHeap.hsHeap e' σ'.stHeap.hsHeap := by
  cases step with
  | exprStep step => exact exprStep_effect fns ok step
  | stmtStep step => exact stmtStep_effect ok step
  | allocFailedStep => exact .neutral trivial trivial (.refl _)

end RefinedC.Caesium
