import RefinedC.Caesium.DataRace

/-!
Actions of a frame while the threads of a pool run.

Source: the statement rules and contexts of `theories/caesium/lang.v`.

Owns: the statement that a frame executes, beside the runtime statement in which
its expressions are partly evaluated, the action of each head step of a frame,
and the actions of a frame over runs of a pool. Every run from a thread that
entered a frame has such a record (`frameRun_of_poolSteps`).

Does not own: which actions the code of a frame allows one after the other.
-/

namespace RefinedC.Caesium

open RefinedC.Library

/-! ## Actions -/

/-- What a frame does when a statement completes: the statement's expressions as its
code has them, and the outcome that decides how the frame continues. -/
inductive FrameEvent where
  | assign (o : Order) (ot : OpType) (e1 e2 : Expr)
  | cond (ot : OpType) (e : Expr) (outcome : Bool)
  | switch (it : IntType) (e : Expr) (outcome : Int)
  | free (ly : Layout) (e : Expr)
  | expr (e : Expr)
  | ret (e : Expr)

/-- Statement that a frame executes. -/
inductive FramePos where
  | running (s : Stmt)
  | returned

/-- Head steps of a frame. The first statement is the one of the code; the second one has
values in the place of its expressions. -/
inductive Performs (code : PartialMap Label Stmt) (σ : State) :
    Stmt → Stmt → Option FrameEvent → FramePos → Prop where
  | goto {b : Label} {s : Stmt} (block : code b = some s) :
      Performs code σ (.goto b) (.goto b) none (.running s)
  | ret {e : Expr} {v : Val} :
      Performs code σ (.return e) (.return (.val v)) (some (.ret e)) .returned
  | ifS {ot : OpType} {join : Option Label} {e : Expr} {v : Val} {s1 s2 : Stmt} {b : Bool}
      (condition : castToBool ot v σ.stHeap = some b) :
      Performs code σ (.ifS ot join e s1 s2) (.ifS ot join (.val v) s1 s2) (some (.cond ot e b))
        (.running (if b then s1 else s2))
  | switch {it : IntType} {e : Expr} {v : Val} {m : PartialMap Int Nat} {bs : List Stmt}
      {def_ : Stmt} {n : Int} (value : valToZ v it = some n)
      (inRange : ∀ i, m n = some i → (bs[i]?).isSome) :
      Performs code σ (.switch it e m bs def_) (.switch it (.val v) m bs def_)
        (some (.switch it e n)) (.running (((m n).bind (fun i => bs[i]?)).getD def_))
  /-- The first of the two steps of a non-atomic assignment. -/
  | start {ot : OpType} {e1 e2 : Expr} {v1 v2 : Val} {s : Stmt} :
      Performs code σ (.assign .na1Ord ot e1 e2 s) (.assign .na1Ord ot (.val v1) (.val v2) s) none
        (.running (.assign .na1Ord ot e1 e2 s))
  | assign {o o' : Order} {ot : OpType} {e1 e2 : Expr} {v1 v2 : Val} {s : Stmt}
      (last : o' ≠ .na1Ord) (order : o' = o ∨ o = .na1Ord ∧ o' = .na2Ord) :
      Performs code σ (.assign o ot e1 e2 s) (.assign o' ot (.val v1) (.val v2) s)
        (some (.assign o ot e1 e2)) (.running s)
  | free {ly : Layout} {e : Expr} {v : Val} {s : Stmt} :
      Performs code σ (.free ly e s) (.free ly (.val v) s) (some (.free ly e)) (.running s)
  | skipS {s : Stmt} : Performs code σ (.skipS s) (.skipS s) none (.running s)
  | exprS {e : Expr} {v : Val} {s : Stmt} :
      Performs code σ (.exprS e s) (.exprS (.val v) s) (some (.expr e)) (.running s)

/-- Steps of a frame that executes the statement `s`: inside of an expression of the
statement, or of the frame itself. -/
inductive FrameStep (rf : RuntimeFunction) (s : Stmt) :
    RuntimeExpr → State → Option FrameEvent → FramePos → RuntimeExpr →
      State → Prop where
  | inside {E : StmtEctx} {e e' : RuntimeExpr} {σ σ' : State}
      (step : cLang.PrimStep e σ e' σ') :
      FrameStep rf s (langFillItem (.stmtCtx E rf) e) σ none (.running s)
        (langFillItem (.stmtCtx E rf) e') σ'
  | head {s' : Stmt} {t' : RuntimeExpr} {σ σ' : State}
      {event : Option FrameEvent} {pos : FramePos}
      (step : StmtStep s' rf σ t' σ') (performs : Performs rf.rfFn.fCode σ s s' event pos) :
      FrameStep rf s (toRtstmt rf s') σ event pos t' σ'

/-! ## Statements in progress -/

/-- The runtime statement is the statement with its expressions partly evaluated. -/
inductive InProgress : Stmt → RtStmt → Prop where
  | goto {b : Label} : InProgress (.goto b) (.goto b)
  | ret {e : Expr} {r : RuntimeExpr} : InProgress (.return e) (.return r)
  | ifS {ot : OpType} {join : Option Label} {e : Expr} {r : RuntimeExpr} {s1 s2 : Stmt} :
      InProgress (.ifS ot join e s1 s2) (.ifS ot join r s1 s2)
  | switch {it : IntType} {e : Expr} {r : RuntimeExpr} {m : PartialMap Int Nat} {bs : List Stmt}
      {def_ : Stmt} : InProgress (.switch it e m bs def_) (.switch it r m bs def_)
  | assign {o : Order} {ot : OpType} {e1 e2 : Expr} {r1 r2 : RuntimeExpr} {s : Stmt} :
      InProgress (.assign o ot e1 e2 s) (.assign o ot r1 r2 s)
  | assignEnd {ot : OpType} {e1 e2 : Expr} {v1 v2 : Val} {s : Stmt} :
      InProgress (.assign .na1Ord ot e1 e2 s) (.assign .na2Ord ot (ofVal v1) (ofVal v2) s)
  | free {ly : Layout} {e : Expr} {r : RuntimeExpr} {s : Stmt} :
      InProgress (.free ly e s) (.free ly r s)
  | skipS {s : Stmt} : InProgress (.skipS s) (.skipS s)
  | stuckS : InProgress .stuckS .stuckS
  | exprS {e : Expr} {r : RuntimeExpr} {s : Stmt} : InProgress (.exprS e s) (.exprS r s)

/-- `t` is the frame at the position. -/
def AtPos (rf : RuntimeFunction) (t : RuntimeExpr) : FramePos → Prop
  | .running s => ∃ r, t = .stmt rf r ∧ InProgress s r
  | .returned => ∃ v, t = ofVal v

private theorem atPos_toRtstmt (rf : RuntimeFunction) (s : Stmt) :
    AtPos rf (toRtstmt rf s) (.running s) := by
  cases s
  all_goals exact ⟨_, rfl, by constructor⟩

theorem AtPos.toVal_eq_none {rf : RuntimeFunction} {t : RuntimeExpr} {s : Stmt}
    (atPos : AtPos rf t (.running s)) : toVal t = none := by
  obtain ⟨r, rfl, -⟩ := atPos
  rfl

/-- What is evaluated inside of a statement may be replaced. -/
theorem InProgress.fillItem {s : Stmt} {E : StmtEctx} {e e' : RuntimeExpr}
    (progress : InProgress s (stmtFillItem E e)) (notVal : toVal e = none) :
    InProgress s (stmtFillItem E e') := by
  generalize shape : stmtFillItem E e = r at progress
  cases progress with
  | assignEnd =>
      cases E <;> simp only [stmtFillItem, RtStmt.assign.injEq, reduceCtorEq] at shape
      · rw [shape.2.2.2.1] at notVal
        cases notVal
      · rw [shape.2.2.1] at notVal
        cases notVal
  | goto | skipS | stuckS => cases E <;> cases shape
  | ret | ifS | switch | assign | free | exprS => cases E <;> cases shape <;> constructor

section

variable {rf : RuntimeFunction} {s : Stmt} {t t' : RuntimeExpr} {σ σ' : State}

/-- The head step of a frame performs the action of its statement. -/
theorem InProgress.performs {s' : Stmt} {r : RtStmt} (progress : InProgress s r)
    (shape : toRtstmt rf s' = .stmt rf r) (step : StmtStep s' rf σ t' σ') :
    ∃ event pos, Performs rf.rfFn.fCode σ s s' event pos := by
  cases step with
  | @assignS o =>
      cases progress <;> simp only [toRtstmt, toRtexpr, RuntimeExpr.stmt.injEq,
        RtStmt.assign.injEq, reduceCtorEq, true_and, and_false] at shape
      case assign =>
        obtain ⟨rfl, rfl, -, -, rfl⟩ := shape
        cases o with
        | na1Ord => exact ⟨_, _, .start⟩
        | scOrd => exact ⟨_, _, .assign (by simp) (.inl rfl)⟩
        | na2Ord => exact ⟨_, _, .assign (by simp) (.inl rfl)⟩
      case assignEnd =>
        obtain ⟨rfl, rfl, -, -, rfl⟩ := shape
        exact ⟨_, _, .assign (by simp) (.inr ⟨rfl, rfl⟩)⟩
  | ifSS condition =>
      cases progress <;> cases shape
      exact ⟨_, _, .ifS condition⟩
  | switchS value inRange =>
      cases progress <;> cases shape
      exact ⟨_, _, .switch value inRange⟩
  | gotoS block =>
      cases progress <;> cases shape
      exact ⟨_, _, .goto block⟩
  | returnS =>
      cases progress <;> cases shape
      exact ⟨_, _, .ret⟩
  | freeS =>
      cases progress <;> cases shape
      exact ⟨_, _, .free⟩
  | skipSS =>
      cases progress <;> cases shape
      exact ⟨_, _, .skipS⟩
  | exprSS =>
      cases progress <;> cases shape
      exact ⟨_, _, .exprS⟩

/-- A frame that performed an action is at the position after it. -/
theorem Performs.atPos {s' : Stmt} {event : Option FrameEvent} {pos : FramePos}
    (performs : Performs rf.rfFn.fCode σ s s' event pos) (step : StmtStep s' rf σ t' σ') :
    AtPos rf t' pos := by
  cases performs with
  | goto block =>
      cases step with
      | gotoS found =>
          cases block.symm.trans found
          exact atPos_toRtstmt rf _
  | ret =>
      cases step with
      | returnS => exact ⟨_, rfl⟩
  | ifS condition =>
      cases step with
      | ifSS holds =>
          cases condition.symm.trans holds
          exact atPos_toRtstmt rf _
  | switch value inRange =>
      cases step with
      | switchS value' _ =>
          cases value.symm.trans value'
          exact atPos_toRtstmt rf _
  | start =>
      cases step with
      | assignS => exact ⟨_, rfl, .assignEnd⟩
  | @assign o o' _ _ _ _ _ _ last order =>
      cases step with
      | assignS =>
          cases o' with
          | na1Ord => exact absurd rfl last
          | scOrd => exact atPos_toRtstmt rf _
          | na2Ord => exact atPos_toRtstmt rf _
  | free =>
      cases step with
      | freeS => exact atPos_toRtstmt rf _
  | skipS =>
      cases step with
      | skipSS => exact atPos_toRtstmt rf _
  | exprS =>
      cases step with
      | exprSS => exact atPos_toRtstmt rf _

/-- Every step of a frame that executes a statement is a step of that statement. -/
theorem AtPos.step (atPos : AtPos rf t (.running s)) (step : cLang.PrimStep t σ t' σ') :
    ∃ event pos, FrameStep rf s t σ event pos t' σ' := by
  obtain ⟨r, rfl, progress⟩ := atPos
  generalize shape : RuntimeExpr.stmt rf r = t at step
  obtain ⟨K, step⟩ := step
  rename_i e e'
  cases K with
  | nil =>
      cases step with
      | @exprStep e _ _ _ step => cases e <;> cases shape
      | allocFailedStep => cases shape
      | @stmtStep s' rf' _ _ _ step =>
          have frame : rf' = rf := by cases s' <;> cases shape <;> rfl
          subst frame
          obtain ⟨event, pos, performs⟩ := progress.performs shape.symm step
          exact ⟨event, pos, .head step performs⟩
  | cons item K =>
      cases item with
      | exprCtx E => cases shape
      | stmtCtx E rf' =>
          cases shape
          exact ⟨none, .running s, .inside (.ectx K step)⟩

theorem FrameStep.primStep {event : Option FrameEvent} {pos : FramePos}
    (step : FrameStep rf s t σ event pos t' σ') : cLang.PrimStep t σ t' σ' := by
  cases step with
  | @inside E _ _ _ _ step => exact step.fill [.stmtCtx E rf]
  | head step => exact .ectx [] (.stmtStep step)

/-- A step of a frame leads to its new position. -/
theorem FrameStep.atPos {event : Option FrameEvent} {pos : FramePos}
    (step : FrameStep rf s t σ event pos t' σ') (before : AtPos rf t (.running s)) :
    AtPos rf t' pos := by
  cases step with
  | inside step =>
      obtain ⟨r, shape, progress⟩ := before
      cases shape
      exact ⟨_, rfl, progress.fillItem step.toVal_eq_none⟩
  | head step performs => exact performs.atPos step

/-- A failed assertion has no steps. -/
theorem AtPos.stuck {K : List LangEctx} (atPos : AtPos rf t (.running .stuckS)) :
    Stuck (cLang.fill K t) σ := by
  have notVal := atPos.toVal_eq_none
  refine ⟨cLang.toVal_fill notVal K, ?_⟩
  intro t' σ' step
  obtain ⟨e', inner, -⟩ := step.inside notVal
  obtain ⟨event, pos, step⟩ := atPos.step inner
  obtain ⟨r, rfl, progress⟩ := atPos
  cases progress
  generalize shape : RuntimeExpr.stmt rf .stuckS = t at step
  cases step with
  | @inside E => cases E <;> cases shape
  | head _ performs => cases performs

end

/-! ## Runs of a pool -/

/-- Runs of a pool after thread `i` entered the frame `rf` under the context `K`, with the
actions of the frame and its position. -/
inductive FrameRun (i : Nat) (K : List LangEctx) (rf : RuntimeFunction)
    (start : EctxiLanguage.Config RuntimeExpr State) :
    EctxiLanguage.Config RuntimeExpr State → List FrameEvent → FramePos → Prop where
  | enter (entered : start.1[i]? = some (cLang.fill K (toRtstmt rf (.goto rf.rfFn.fInit)))) :
      FrameRun i K rf start start [] (.running (.goto rf.rfFn.fInit))
  | other {c c' : EctxiLanguage.Config RuntimeExpr State} {events : List FrameEvent}
      {pos : FramePos} {j : Nat} (before : FrameRun i K rf start c events pos)
      (step : cLang.PoolStepBy j c c') (different : j ≠ i) : FrameRun i K rf start c' events pos
  | step {c c' : EctxiLanguage.Config RuntimeExpr State} {events : List FrameEvent} {s : Stmt}
      {t t' : RuntimeExpr} {event : Option FrameEvent} {pos : FramePos}
      (before : FrameRun i K rf start c events (.running s))
      (thread : c.1[i]? = some (cLang.fill K t)) (step : FrameStep rf s t c.2 event pos t' c'.2)
      (threads : c'.1 = c.1.set i (cLang.fill K t')) :
      FrameRun i K rf start c' (events ++ event.toList) pos
  | left {c c' : EctxiLanguage.Config RuntimeExpr State} {events : List FrameEvent}
      (before : FrameRun i K rf start c events .returned) (step : cLang.PoolStepBy i c c') :
      FrameRun i K rf start c' events .returned

section

variable {i : Nat} {K : List LangEctx} {rf : RuntimeFunction}
  {start c c' : EctxiLanguage.Config RuntimeExpr State}

/-- The thread is at the recorded position, until the frame has returned. -/
def Holds (i : Nat) (K : List LangEctx) (rf : RuntimeFunction)
    (c : EctxiLanguage.Config RuntimeExpr State) (pos : FramePos) : Prop :=
  pos = .returned ∨ ∃ t, c.1[i]? = some (cLang.fill K t) ∧ AtPos rf t pos

/-- Every record ends at the position of the thread. -/
theorem FrameRun.holds {events : List FrameEvent} {pos : FramePos}
    (run : FrameRun i K rf start c events pos) : Holds i K rf c pos := by
  induction run with
  | enter entered => exact .inr ⟨_, entered, atPos_toRtstmt rf _⟩
  | other _ step different inductionHypothesis =>
      refine inductionHypothesis.imp id ?_
      rintro ⟨t, thread, atPos⟩
      exact ⟨t, by rw [step.thread_other different, thread], atPos⟩
  | left => exact .inl rfl
  | step _ thread step threads inductionHypothesis =>
      rcases inductionHypothesis with isReturned | ⟨u, thread', atPos⟩
      · cases isReturned
      · cases cLang.fill_inj K (Option.some.inj (thread'.symm.trans thread))
        refine .inr ⟨_, ?_, step.atPos atPos⟩
        rw [threads, List.getElem?_set_self (List.getElem?_eq_some_iff.mp thread).1]

/-- Every record is one of a run of the pool. -/
theorem FrameRun.poolSteps {events : List FrameEvent} {pos : FramePos}
    (run : FrameRun i K rf start c events pos) : cLang.PoolSteps start c := by
  induction run with
  | enter entered => exact .refl
  | other _ step _ inductionHypothesis => exact inductionHypothesis.tail ⟨_, step⟩
  | left _ step inductionHypothesis => exact inductionHypothesis.tail ⟨_, step⟩
  | step _ thread step threads inductionHypothesis =>
      exact inductionHypothesis.tail ⟨i, _, _, thread, step.primStep.fill K, threads⟩

theorem FrameRun.next {events : List FrameEvent} {pos : FramePos}
    (run : FrameRun i K rf start c events pos) (step : cLang.PoolStep c c') :
    ∃ events' pos', FrameRun i K rf start c' events' pos' := by
  obtain ⟨j, step⟩ := step
  by_cases same : j = i
  · subst same
    rcases run.holds with rfl | ⟨t, thread, atPos⟩
    · exact ⟨events, .returned, .left run step⟩
    · cases pos with
      | returned => exact ⟨events, .returned, .left run step⟩
      | running s =>
          obtain ⟨u, u', found, prim, threads⟩ := step
          cases thread.symm.trans found
          obtain ⟨t', inner, rfl⟩ := prim.inside atPos.toVal_eq_none
          obtain ⟨event, pos', frameStep⟩ := atPos.step inner
          exact ⟨_, pos', .step run thread frameStep threads⟩
  · exact ⟨events, pos, .other run step same⟩

/-- Every run of a pool from a thread that entered a frame has a record of that frame. -/
theorem frameRun_of_poolSteps
    (entered : start.1[i]? = some (cLang.fill K (toRtstmt rf (.goto rf.rfFn.fInit))))
    (run : cLang.PoolSteps start c) : ∃ events pos, FrameRun i K rf start c events pos := by
  induction run with
  | refl => exact ⟨[], _, .enter entered⟩
  | tail _ step inductionHypothesis =>
      obtain ⟨events, pos, before⟩ := inductionHypothesis
      exact before.next step

end

end RefinedC.Caesium
