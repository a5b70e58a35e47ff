import RefinedC.Frontend.StmtSemantics
import RefinedC.Frontend.StmtSyntax
import RefinedC.Library.AssocList

/-!
What a successful translation of statements does.

Owns: the translation of a statement list as a relation between states, with one
rule for each form of statement, and what every translation keeps: blocks are only
added, and cases are only registered with the innermost switch.
-/

namespace RefinedC.Frontend

open Library

/-! ## Operations on the state -/

def State.fresh (σ : State) : State := { σ with blockId := σ.blockId + 1 }

/-- What follows gets the label and the state after it. -/
theorem run_freshBlockId_bind {α : Type} (f : String → TransM α) (σ : State) :
    (freshBlockId >>= f) σ = f (blockName σ.blockId) σ.fresh := rfl

private theorem run_pushSwitch_bind {α : Type} (data : SwitchData)
    (f : Unit → TransM α) (σ : State) :
    (pushSwitch data >>= f) σ = f () { σ with switches := data :: σ.switches } := rfl

theorem addBlock_eq_ok {σ σ' : State} {id : String} {s : Coq.Stmt} :
    addBlock id s σ = .ok ((), σ') ↔
      σ.blocks.lookup id = none ∧ { σ with blocks := (id, s) :: σ.blocks } = σ' := by
  cases found : σ.blocks.lookup id with
  | none => simp [addBlock, found]
  | some s' => simp [addBlock, found]

theorem inExpr_eq_ok {α : Type} {ctx : Ctx} {m : Ctx → ExprM α} {σ σ' : State} {a : α} :
    inExpr ctx m σ = .ok (a, σ') ↔ ∃ used,
      m { ctx with isLocal := σ.isLocal } σ.used = .ok (a, used) ∧
      { σ with used := used } = σ' := by
  rw [inExpr, bind_eq_ok]
  constructor
  · rintro ⟨⟨a', used⟩, found, result⟩
    cases result
    exact ⟨used, found, rfl⟩
  · rintro ⟨used, found, rfl⟩
    exact ⟨(a, used), found, rfl⟩

/-- A declaration with an initialiser translates it, and one without has no effect. -/
theorem addDecl_cases {ctx : Ctx} {d : Sym × Option Expr} {t t' : Coq.Stmt} {σ σ' : State}
    (run : addDecl ctx d t σ = .ok (t', σ')) :
    (d.2 = none ∧ t = t' ∧ σ = σ') ∨ ∃ e isVar ty head, d.2 = some e ∧
      σ.localVars.lookup (symToStr d.1) = some (isVar, ty) ∧
      inExpr ctx (fun ctx => translateInit ctx (symToStr d.1) ty e) σ = .ok (head, σ') ∧
      head.attach t = t' := by
  obtain ⟨x, init⟩ := d
  cases init with
  | none => exact .inl ⟨rfl, run_pure_eq_ok.mp run⟩
  | some e =>
      simp only [addDecl, run_bind_eq_ok, run_pure_eq_ok] at run
      obtain ⟨ty, σ1, found, head, σ2, translated, attached, rfl⟩ := run
      unfold findLocal at found
      split at found
      next isVar ty' isLocal =>
        cases found
        exact .inr ⟨e, isVar, ty, head, rfl, isLocal, translated, attached⟩
      next => cases found

private theorem addDecl_others {ctx : Ctx} {d : Sym × Option Expr}
    {t t' : Coq.Stmt} {σ σ' : State}
    (run : addDecl ctx d t σ = .ok (t', σ')) : ∃ used, σ' = { σ with used := used } := by
  rcases addDecl_cases run with ⟨-, -, rfl⟩ | ⟨e, isVar, ty, head, -, -, translated, -⟩
  · exact ⟨σ.used, rfl⟩
  · obtain ⟨used, -, rfl⟩ := inExpr_eq_ok.mp translated
    exact ⟨used, rfl⟩

theorem addDecls_others {ctx : Ctx} {ds : List (Sym × Option Expr)} {t t' : Coq.Stmt}
    {σ σ' : State} (run : ds.foldrM (addDecl ctx) t σ = .ok (t', σ')) :
    ∃ used, σ' = { σ with used := used } := by
  induction ds generalizing t' σ' with
  | nil =>
      obtain ⟨-, rfl⟩ := run_pure_eq_ok.mp run
      exact ⟨σ.used, rfl⟩
  | cons d ds inductionHypothesis =>
      rw [List.foldrM_cons] at run
      obtain ⟨t1, σ1, rest, first⟩ := run_bind_eq_ok.mp run
      obtain ⟨used1, rfl⟩ := inductionHypothesis rest
      obtain ⟨used2, rfl⟩ := addDecl_others first
      exact ⟨used2, rfl⟩

theorem inExpr_translatesTo {α : Type} {ctx : Ctx} {m : Ctx → ExprM α} {σ σ' : State} {a : α}
    (run : inExpr ctx m σ = .ok (a, σ')) : TranslatesTo ctx m a := by
  obtain ⟨used, found, -⟩ := inExpr_eq_ok.mp run
  exact ⟨_, _, _, found⟩

private theorem translateBoolExpr_eq_ok {ctx : Ctx} {idCont : Option String} {s1 s2 t : Coq.Stmt}
    {e : Expr} {σ σ' : State} :
    translateBoolExpr ctx idCont s1 s2 e σ = .ok (t, σ') ↔ ∃ ot e',
      inExpr ctx (fun ctx => translateCond ctx e) σ = .ok ((ot, e'), σ') ∧
        .ifS ot idCont e' s1 s2 = t := by
  rw [translateBoolExpr, run_bind_eq_ok]
  constructor
  · rintro ⟨⟨ot, e'⟩, σ1, translated, result⟩
    obtain ⟨rfl, rfl⟩ := run_pure_eq_ok.mp result
    exact ⟨ot, e', translated, rfl⟩
  · rintro ⟨ot, e', translated, rfl⟩
    exact ⟨(ot, e'), σ', translated, rfl⟩

private theorem pushSwitch_eq_ok {σ σ' : State} {data : SwitchData} {u : Unit} :
    pushSwitch data σ = .ok (u, σ') ↔ { σ with switches := data :: σ.switches } = σ' := by
  rw [pushSwitch, Except.ok.injEq, Prod.mk.injEq]
  exact and_iff_right rfl

/-! ## Translation as a relation -/

/-- `Translates ctx retTy σ ks stmts t σ'`: the statements are translated to `t`,
with the continuation stack `ks`, from state `σ` to state `σ'`. -/
inductive Translates (ctx : Ctx) (retTy : Option Coq.OpType) :
    State → List KData → List Stmt → Coq.Stmt → State → Prop where
  | nil {σ ks t} : kGen KData.kFinal (kPopCases ks) = .ok t → Translates ctx retTy σ ks [] t σ
  | block {σ σ1 σ' ks bindings ss stmts t} : insertBindings bindings σ = .ok ((), σ1) →
      Translates ctx retTy σ1 ks (ss ++ stmts) t σ' →
      Translates ctx retTy σ ks (.block bindings ss :: stmts) t σ'
  | goto {σ σ' ks l stmts t} : Translates ctx retTy σ ks stmts t σ' →
      Translates ctx retTy σ ks (.goto l :: stmts) (.goto (symToStr l)) σ'
  | returnVoid {σ σ' ks stmts t} : Translates ctx retTy σ ks stmts t σ' →
      Translates ctx retTy σ ks (.returnVoid :: stmts) (.ret (.val .void)) σ'
  | breakS {σ σ' ks stmts t t'} : Translates ctx retTy σ ks stmts t' σ' →
      kGen KData.kBreak ks = .ok t → Translates ctx retTy σ ks (.breakS :: stmts) t σ'
  | continueS {σ σ' ks stmts t t'} : Translates ctx retTy σ ks stmts t' σ' →
      kGen KData.kContinue ks = .ok t → Translates ctx retTy σ ks (.continueS :: stmts) t σ'
  | returnS {σ σ1 σ' ks e e' stmts t} : Translates ctx retTy σ ks stmts t σ1 →
      inExpr ctx (fun ctx => translateReturn ctx retTy e) σ1 = .ok (e', σ') →
      Translates ctx retTy σ ks (.returnS e :: stmts) (.ret e') σ'
  | skip {σ σ' ks stmts t} : Translates ctx retTy σ ks stmts t σ' →
      Translates ctx retTy σ ks (.skip :: stmts) t σ'
  | expr {σ σ1 σ' ks e head stmts t} : Translates ctx retTy σ ks stmts t σ1 →
      inExpr ctx (fun ctx => translateExprStmt ctx e) σ1 = .ok (head, σ') →
      Translates ctx retTy σ ks (.expr e :: stmts) (head.attach t) σ'
  | ifLast {σ σ1 σ2 σ3 σ4 σ' ks e s1 s2 t1 t2 ot e'} :
      Translates ctx retTy σ.fresh ks [s1] t1 σ1 →
      addBlock (blockName σ.blockId) t1 σ1 = .ok ((), σ2) →
      Translates ctx retTy σ2.fresh ks [s2] t2 σ3 →
      addBlock (blockName σ2.blockId) t2 σ3 = .ok ((), σ4) →
      inExpr ctx (fun ctx => translateCond ctx e) σ4 = .ok ((ot, e'), σ') →
      Translates ctx retTy σ ks [.ifS e s1 s2]
        (.ifS ot none e' (.goto (blockName σ.blockId)) (.goto (blockName σ2.blockId))) σ'
  | ifCont {σ σ1 σ2 σ3 σ4 σ5 σ6 σ' ks e s1 s2 stmts tc t1 t2 ot e'} : stmts ≠ [] →
      Translates ctx retTy σ.fresh ks stmts tc σ1 →
      addBlock (blockName σ.blockId) tc σ1 = .ok ((), σ2) →
      Translates ctx retTy σ2.fresh (kPushFinal (.goto (blockName σ.blockId)) ks) [s1] t1 σ3 →
      addBlock (blockName σ2.blockId) t1 σ3 = .ok ((), σ4) →
      Translates ctx retTy σ4.fresh (kPushFinal (.goto (blockName σ.blockId)) ks) [s2] t2 σ5 →
      addBlock (blockName σ4.blockId) t2 σ5 = .ok ((), σ6) →
      inExpr ctx (fun ctx => translateCond ctx e) σ6 = .ok ((ot, e'), σ') →
      Translates ctx retTy σ ks (.ifS e s1 s2 :: stmts)
        (.ifS ot (some (blockName σ.blockId)) e' (.goto (blockName σ2.blockId))
          (.goto (blockName σ4.blockId))) σ'
  | whileS {σ σ1 σ2 σ3 σ4 σ5 σ' ks e s stmts tc tb ot e'} :
      Translates ctx retTy σ.fresh.fresh.fresh ks stmts tc σ1 →
      addBlock (blockName (σ.blockId + 2)) tc σ1 = .ok ((), σ2) →
      Translates ctx retTy σ2 (⟨some (.goto (blockName (σ.blockId + 2))),
        some (.goto (blockName σ.blockId)), some (.goto (blockName σ.blockId)), false⟩ :: ks)
        [s] tb σ3 →
      addBlock (blockName (σ.blockId + 1)) tb σ3 = .ok ((), σ4) →
      inExpr ctx (fun ctx => translateCond ctx e) σ4 = .ok ((ot, e'), σ5) →
      addBlock (blockName σ.blockId) (.ifS ot none e' (.goto (blockName (σ.blockId + 1)))
        (.goto (blockName (σ.blockId + 2)))) σ5 = .ok ((), σ') →
      Translates ctx retTy σ ks (.whileS e s :: stmts) (.goto (blockName σ.blockId)) σ'
  | doS {σ σ1 σ2 σ3 σ4 σ5 σ' ks e s stmts tc tb ot e'} :
      Translates ctx retTy σ.fresh.fresh.fresh ks stmts tc σ1 →
      addBlock (blockName (σ.blockId + 2)) tc σ1 = .ok ((), σ2) →
      Translates ctx retTy σ2 (⟨some (.goto (blockName (σ.blockId + 2))),
        some (.goto (blockName σ.blockId)), some (.goto (blockName σ.blockId)), false⟩ :: ks)
        [s] tb σ3 →
      addBlock (blockName (σ.blockId + 1)) tb σ3 = .ok ((), σ4) →
      inExpr ctx (fun ctx => translateCond ctx e) σ4 = .ok ((ot, e'), σ5) →
      addBlock (blockName σ.blockId) (.ifS ot none e' (.goto (blockName (σ.blockId + 1)))
        (.goto (blockName (σ.blockId + 2)))) σ5 = .ok ((), σ') →
      Translates ctx retTy σ ks (.doS s e :: stmts) (.goto (blockName (σ.blockId + 1))) σ'
  | switch {σ σ1 σ2 σ3 σ4 σ5 σ' ks e s stmts tc tb it data branches default e'} :
      Translates ctx retTy σ.fresh ks stmts tc σ1 →
      addBlock (blockName σ.blockId) tc σ1 = .ok ((), σ2) →
      switchType ctx e = .ok it →
      Translates ctx retTy { σ2.fresh.fresh with switches :=
          ⟨[], blockName σ2.blockId, blockName (σ2.blockId + 1), none⟩ :: σ2.switches }
        (⟨some (.goto (blockName σ.blockId)), none, some (.goto (blockName σ.blockId)),
          false⟩ :: ks)
        [s] tb σ3 →
      popSwitch σ3 = .ok (data, σ4) →
      caseBranches data.cases = .ok branches →
      defaultBranch (.goto (blockName σ.blockId)) data.default = .ok default →
      addBlock data.curLabel (.goto (blockName σ.blockId)) σ4 = .ok ((), σ5) →
      inExpr ctx (fun ctx => translateExpr ctx false none e) σ5 = .ok (e', σ') →
      Translates ctx retTy σ ks (.switch e s :: stmts)
        (.switch it e' (data.cases.mapIdx fun i c => (c.1, i)) branches default) σ'
  | caseS {σ σ1 σ2 σ3 σ' ks i s stmts ref curLabel nextLabel t} :
      registerCase i σ = .ok ((ref, curLabel, nextLabel), σ1) →
      Translates ctx retTy σ1 (kPushFinalCase (.goto nextLabel) ks) (s :: stmts) t σ2 →
      addBlock curLabel t σ2 = .ok ((), σ3) →
      setCase ref (.goto curLabel) σ3 = .ok ((), σ') →
      Translates ctx retTy σ ks (.caseS i s :: stmts) (.goto curLabel) σ'
  | default {σ σ1 σ2 σ3 σ' ks s stmts curLabel nextLabel t} :
      registerDefault σ = .ok ((curLabel, nextLabel), σ1) →
      Translates ctx retTy σ1 (kPushFinalCase (.goto nextLabel) ks) (s :: stmts) t σ2 →
      addBlock curLabel t σ2 = .ok ((), σ3) →
      setDefault (.goto curLabel) σ3 = .ok ((), σ') →
      Translates ctx retTy σ ks (.default s :: stmts) (.goto curLabel) σ'
  | label {σ σ1 σ' ks l s stmts t} :
      Translates ctx retTy σ ks (s :: stmts) t σ1 →
      addBlock (symToStr l) t σ1 = .ok ((), σ') →
      Translates ctx retTy σ ks (.label l s :: stmts) (.goto (symToStr l)) σ'
  | declaration {σ σ1 σ' ks ds stmts t t'} :
      Translates ctx retTy σ ks stmts t σ1 →
      ds.foldrM (addDecl ctx) t σ1 = .ok (t', σ') →
      Translates ctx retTy σ ks (.declaration ds :: stmts) t' σ'

/-- Every successful translation follows the rules. -/
theorem trans_translates {ctx : Ctx} {retTy : Option Coq.OpType} {ks : List KData}
    {stmts : List Stmt} {σ σ' : State} {t : Coq.Stmt}
    (run : trans ctx retTy ks stmts σ = .ok (t, σ')) :
    Translates ctx retTy σ ks stmts t σ' := by
  induction ks, stmts using trans.induct ctx retTy generalizing σ σ' t with
  | case1 ks =>
      rw [trans, run_liftResult_eq_ok] at run
      obtain ⟨found, rfl⟩ := run
      exact .nil found
  | case2 ks bindings ss stmts inductionHypothesis =>
      simp only [trans, run_bind_eq_ok] at run
      obtain ⟨⟨⟩, σ1, inserted, rest⟩ := run
      exact .block inserted (inductionHypothesis rest)
  | case3 ks l stmts inductionHypothesis =>
      simp only [trans, run_bind_eq_ok, run_pure_eq_ok] at run
      obtain ⟨s, σ1, rest, rfl, rfl⟩ := run
      exact .goto (inductionHypothesis rest)
  | case4 ks stmts inductionHypothesis =>
      simp only [trans, run_bind_eq_ok, run_pure_eq_ok] at run
      obtain ⟨s, σ1, rest, rfl, rfl⟩ := run
      exact .returnVoid (inductionHypothesis rest)
  | case5 ks stmts inductionHypothesis =>
      simp only [trans, run_bind_eq_ok, run_liftResult_eq_ok] at run
      obtain ⟨s, σ1, rest, found, rfl⟩ := run
      exact .breakS (inductionHypothesis rest) found
  | case6 ks stmts inductionHypothesis =>
      simp only [trans, run_bind_eq_ok, run_liftResult_eq_ok] at run
      obtain ⟨s, σ1, rest, found, rfl⟩ := run
      exact .continueS (inductionHypothesis rest) found
  | case7 ks e stmts inductionHypothesis =>
      simp only [trans, run_bind_eq_ok, run_pure_eq_ok] at run
      obtain ⟨s, σ1, rest, e', σ2, translated, rfl, rfl⟩ := run
      exact .returnS (inductionHypothesis rest) translated
  | case8 ks stmts inductionHypothesis =>
      rw [trans] at run
      exact .skip (inductionHypothesis run)
  | case9 ks e stmts inductionHypothesis =>
      simp only [trans, run_bind_eq_ok, run_pure_eq_ok] at run
      obtain ⟨s, σ1, rest, head, σ2, translated, rfl, rfl⟩ := run
      exact .expr (inductionHypothesis rest) translated
  | case10 ks e s1 s2 stmts empty hypothesis1 hypothesis2 =>
      have noStmts : stmts = [] := List.isEmpty_iff.mp empty
      subst noStmts
      simp only [trans, List.isEmpty_nil, if_true, run_freshBlockId_bind, run_bind_eq_ok,
        run_pure_eq_ok, translateBoolExpr_eq_ok] at run
      obtain ⟨_, _, ⟨rfl, rfl⟩, t1, σ1, branch1, ⟨⟩, σ2, added1, t2, σ3, branch2,
        ⟨⟩, σ4, added2, ot, e', translated, rfl⟩ := run
      exact .ifLast (hypothesis1 ks branch1) added1 (hypothesis2 ks branch2) added2 translated
  | case11 ks e s1 s2 stmts nonempty hypothesis1 hypothesis2 hypothesis =>
      simp only [trans, nonempty, Bool.false_eq_true, if_false, run_freshBlockId_bind,
        run_bind_eq_ok, run_pure_eq_ok, translateBoolExpr_eq_ok] at run
      obtain ⟨tc, σ1, cont, ⟨⟩, σ2, addedCont, _, _, ⟨rfl, rfl⟩, t1, σ3,
        branch1, ⟨⟩, σ4, added1, t2, σ5, branch2, ⟨⟩, σ6, added2, ot, e',
          translated, rfl⟩ := run
      have someStmts : stmts ≠ [] := fun none => nonempty (List.isEmpty_iff.mpr none)
      exact .ifCont someStmts (hypothesis cont) addedCont (hypothesis1 _ branch1) added1
        (hypothesis2 _ branch2) added2 translated
  | case12 ks e s stmts hypothesis hypothesisBody =>
      simp only [trans, run_freshBlockId_bind, run_bind_eq_ok, run_pure_eq_ok,
        translateBoolExpr_eq_ok] at run
      obtain ⟨tc, σ1, cont, ⟨⟩, σ2, addedCont, tb, σ3, body, ⟨⟩, σ4, addedBody, _,
        σ5, ⟨ot, e', translated, rfl⟩, ⟨⟩, σ6, addedCond, rfl, rfl⟩ := run
      exact .whileS (hypothesis cont) addedCont (hypothesisBody _ _ body) addedBody translated
        addedCond
  | case13 ks s e stmts hypothesis hypothesisBody =>
      simp only [trans, run_freshBlockId_bind, run_bind_eq_ok, run_pure_eq_ok,
        translateBoolExpr_eq_ok] at run
      obtain ⟨tc, σ1, cont, ⟨⟩, σ2, addedCont, tb, σ3, body, ⟨⟩, σ4, addedBody, _,
        σ5, ⟨ot, e', translated, rfl⟩, ⟨⟩, σ6, addedCond, rfl, rfl⟩ := run
      exact .doS (hypothesis cont) addedCont (hypothesisBody _ _ body) addedBody translated
        addedCond
  | case14 ks e s stmts hypothesis hypothesisBody =>
      simp only [trans, run_freshBlockId_bind, run_pushSwitch_bind, run_bind_eq_ok, run_pure_eq_ok,
        run_liftResult_eq_ok] at run
      obtain ⟨tc, σ1, cont, ⟨⟩, σ2, addedCont, it, _, ⟨isInt, rfl⟩, tb, σ3, body, data,
        σ4, popped, branches, _, ⟨found, rfl⟩, default, _, ⟨isDefault, rfl⟩, ⟨⟩, σ5,
          addedLast, e', σ6,
        translated, rfl, rfl⟩ := run
      exact .switch (hypothesis cont) addedCont isInt (hypothesisBody _ body) popped found isDefault
        addedLast translated
  | case15 ks i s stmts hypothesis =>
      simp only [trans, run_bind_eq_ok, run_pure_eq_ok] at run
      obtain ⟨⟨ref, curLabel, nextLabel⟩, σ1, registered, t, σ2, body, ⟨⟩, σ3, added,
        ⟨⟩, σ4, filled, rfl, rfl⟩ := run
      exact .caseS registered (hypothesis nextLabel body) added filled
  | case16 ks low high s stmts =>
      rw [trans, run_liftResult_eq_ok] at run
      cases run.1
  | case17 ks s stmts hypothesis =>
      simp only [trans, run_bind_eq_ok, run_pure_eq_ok] at run
      obtain ⟨⟨curLabel, nextLabel⟩, σ1, registered, t, σ2, body, ⟨⟩, σ3,
        added, ⟨⟩, σ4, filled, rfl, rfl⟩ := run
      exact .default registered (hypothesis nextLabel body) added filled
  | case18 ks l s stmts hypothesis =>
      simp only [trans, run_bind_eq_ok, run_pure_eq_ok] at run
      obtain ⟨t, σ1, body, ⟨⟩, σ2, added, rfl, rfl⟩ := run
      exact .label (hypothesis body) added
  | case19 ks ds stmts hypothesis =>
      simp only [trans, run_bind_eq_ok] at run
      obtain ⟨t, σ1, rest, declared⟩ := run
      exact .declaration (hypothesis rest) declared
  | case20 ks ss stmts =>
      rw [trans, run_liftResult_eq_ok] at run
      cases run.1
  | case21 ks r e stmts =>
      rw [trans, run_liftResult_eq_ok] at run
      cases run.1
  | case22 ks s stmts =>
      rw [trans, run_liftResult_eq_ok] at run
      cases run.1

/-- The rules describe the translation. -/
theorem Translates.trans {ctx : Ctx} {retTy : Option Coq.OpType} {ks : List KData}
    {stmts : List Stmt} {σ σ' : State} {t : Coq.Stmt}
    (run : Translates ctx retTy σ ks stmts t σ') :
    trans ctx retTy ks stmts σ = .ok (t, σ') := by
  induction run with
  | nil found => 
      rw [Frontend.trans, run_liftResult_eq_ok]
      exact ⟨found, rfl⟩
  | block inserted _ body =>
      rw [Frontend.trans, run_bind_eq_ok]
      exact ⟨(), _, inserted, body⟩
  | goto _ rest | returnVoid _ rest =>
      rw [Frontend.trans, run_bind_eq_ok]
      exact ⟨_, _, rest, rfl⟩
  | breakS _ found rest | continueS _ found rest =>
      rw [Frontend.trans, run_bind_eq_ok]
      exact ⟨_, _, rest, run_liftResult_eq_ok.mpr ⟨found, rfl⟩⟩
  | returnS _ translated rest | expr _ translated rest =>
      simp only [Frontend.trans, run_bind_eq_ok]
      exact ⟨_, _, rest, _, _, translated, rfl⟩
  | skip _ rest => rwa [Frontend.trans]
  | ifLast _ added1 _ added2 translated branch1 branch2 =>
      simp only [Frontend.trans, List.isEmpty_nil, if_true, run_freshBlockId_bind, run_bind_eq_ok,
        run_pure_eq_ok, translateBoolExpr_eq_ok]
      exact ⟨_, _, ⟨rfl, rfl⟩, _, _, branch1, (), _, added1, _, _, branch2, (), _, added2, _,
        _, translated, rfl⟩
  | ifCont someStmts _ addedCont _ added1 _ added2 translated cont branch1 branch2 =>
      simp only [Frontend.trans, List.isEmpty_iff, someStmts, if_false, run_freshBlockId_bind,
        run_bind_eq_ok, run_pure_eq_ok, translateBoolExpr_eq_ok]
      exact ⟨_, _, cont, (), _, addedCont, _, _, ⟨rfl, rfl⟩, _, _, branch1, (), _, added1, _,
        _, branch2, (), _, added2, _, _, translated, rfl⟩
  | whileS _ addedCont _ addedBody translated addedCond cont body =>
      simp only [Frontend.trans, run_freshBlockId_bind, run_bind_eq_ok, run_pure_eq_ok,
        translateBoolExpr_eq_ok]
      exact ⟨_, _, cont, (), _, addedCont, _, _, body, (), _, addedBody, _, _,
        ⟨_, _, translated, rfl⟩, (), _, addedCond, trivial, rfl⟩
  | doS _ addedCont _ addedBody translated addedCond cont body =>
      simp only [Frontend.trans, run_freshBlockId_bind, run_bind_eq_ok, run_pure_eq_ok,
        translateBoolExpr_eq_ok]
      exact ⟨_, _, cont, (), _, addedCont, _, _, body, (), _, addedBody, _, _,
        ⟨_, _, translated, rfl⟩, (), _, addedCond, rfl, rfl⟩
  | switch _ addedCont isInt _ popped found isDefault addedLast translated cont body =>
      simp only [Frontend.trans, run_freshBlockId_bind, run_pushSwitch_bind, run_bind_eq_ok,
        run_pure_eq_ok, run_liftResult_eq_ok]
      exact ⟨_, _, cont, (), _, addedCont, _, _, ⟨isInt, rfl⟩, _, _, body, _, _, popped, _, _,
        ⟨found, rfl⟩, _, _, ⟨isDefault, rfl⟩, (), _, addedLast, _, _,
          translated, rfl, rfl⟩
  | caseS registered _ added filled body =>
      simp only [Frontend.trans, run_bind_eq_ok, run_pure_eq_ok]
      exact ⟨_, _, registered, _, _, body, (), _, added, (), _, filled, rfl, rfl⟩
  | default registered _ added filled body =>
      simp only [Frontend.trans, run_bind_eq_ok, run_pure_eq_ok]
      exact ⟨_, _, registered, _, _, body, (), _, added, (), _, filled, rfl, rfl⟩
  | label _ added body =>
      simp only [Frontend.trans, run_bind_eq_ok, run_pure_eq_ok]
      exact ⟨_, _, body, (), _, added, trivial, rfl⟩
  | declaration _ declared rest =>
      simp only [Frontend.trans, run_bind_eq_ok]
      exact ⟨_, _, rest, declared⟩

/-! ## Registration of cases -/

theorem popSwitch_eq_ok {σ σ' : State} {data : SwitchData} :
    popSwitch σ = .ok (data, σ') ↔ ∃ rest, σ.switches = data :: rest ∧
      { σ with switches := rest } = σ' := by
  unfold popSwitch
  cases σ.switches with
  | nil => simp
  | cons data' rest => simp

theorem registerCase_eq_ok {σ σ' : State} {i : Int} {ref : Nat} {curLabel nextLabel : String}
    (run : registerCase i σ = .ok ((ref, curLabel, nextLabel), σ')) :
    ∃ data rest, σ.switches = data :: rest ∧ data.default = none ∧
      ref = data.cases.length ∧
      curLabel = data.curLabel ∧ nextLabel = data.nextLabel ∧
      σ' = { σ.fresh with switches :=
        ⟨data.cases ++ [(i, none)], data.nextLabel, blockName σ.blockId, none⟩ :: rest } := by
  simp only [registerCase, run_bind_eq_ok, popSwitch_eq_ok] at run
  obtain ⟨data, _, ⟨rest, top, rfl⟩, run⟩ := run
  cases noDefault : data.default with
  | some default => simp [noDefault, liftResult, bind, StateT.bind, Except.bind] at run
  | none =>
      simp only [noDefault, Option.isSome_none, Bool.false_eq_true, if_false,
        run_freshBlockId_bind, run_pushSwitch_bind, run_pure_eq_ok] at run
      obtain ⟨same, rfl⟩ := run
      cases same
      exact ⟨data, rest, top, noDefault, rfl, rfl, rfl, rfl⟩

theorem registerDefault_eq_ok {σ σ' : State} {curLabel nextLabel : String}
    (run : registerDefault σ = .ok ((curLabel, nextLabel), σ')) :
    ∃ data rest, σ.switches = data :: rest ∧ data.default = none ∧
      curLabel = data.curLabel ∧ nextLabel = data.nextLabel ∧
      σ' = { σ.fresh with switches :=
        ⟨data.cases, data.nextLabel, blockName σ.blockId, some none⟩ :: rest } := by
  simp only [registerDefault, run_bind_eq_ok, popSwitch_eq_ok] at run
  obtain ⟨data, _, ⟨rest, top, rfl⟩, run⟩ := run
  cases noDefault : data.default with
  | some default => simp [noDefault, liftResult, bind, StateT.bind, Except.bind] at run
  | none =>
      simp only [noDefault, Option.isSome_none, Bool.false_eq_true, if_false,
        run_freshBlockId_bind, run_pushSwitch_bind, run_pure_eq_ok] at run
      obtain ⟨same, rfl⟩ := run
      cases same
      exact ⟨data, rest, top, noDefault, rfl, rfl, rfl⟩

theorem setCase_eq_ok {σ σ' : State} {ref : Nat} {s : Coq.Stmt} :
    setCase ref s σ = .ok ((), σ') ↔ ∃ data rest, σ.switches = data :: rest ∧
      { σ with switches :=
        { data with cases := data.cases.modify ref fun c => (c.1, some s) } :: rest } = σ' := by
  simp only [setCase, run_bind_eq_ok, popSwitch_eq_ok, pushSwitch_eq_ok]
  constructor
  · rintro ⟨data, _, ⟨rest, top, rfl⟩, rfl⟩
    exact ⟨data, rest, top, rfl⟩
  · rintro ⟨data, rest, top, rfl⟩
    exact ⟨data, _, ⟨rest, top, rfl⟩, rfl⟩

theorem setDefault_eq_ok {σ σ' : State} {s : Coq.Stmt} :
    setDefault s σ = .ok ((), σ') ↔ ∃ data rest, σ.switches = data :: rest ∧
      { σ with switches := { data with default := some (some s) } :: rest } = σ' := by
  simp only [setDefault, run_bind_eq_ok, popSwitch_eq_ok, pushSwitch_eq_ok]
  constructor
  · rintro ⟨data, _, ⟨rest, top, rfl⟩, rfl⟩
    exact ⟨data, rest, top, rfl⟩
  · rintro ⟨data, rest, top, rfl⟩
    exact ⟨data, _, ⟨rest, top, rfl⟩, rfl⟩

/-! ## Growth of the state -/

/-- The data of a switch after the cases `cases` and, if `default` holds, the
default have been translated. -/
structure SwitchData.Grows (cases : List Int) (default : Bool) (data data' : SwitchData) :
    Prop where
  cases : ∃ new : List (Int × Coq.Stmt),
    data'.cases = data.cases ++ new.map (fun c => (c.1, some c.2)) ∧
      (new.map Prod.fst).Perm cases
  default : if default then data.default = none ∧ ∃ s, data'.default = some (some s)
    else data'.default = data.default

/-- Cases are registered with the innermost switch, and there are none outside of
switches. -/
def SwitchesGrow (cases : List Int) (default : Bool) : List SwitchData → List SwitchData → Prop
  | [], switches' => switches' = [] ∧ cases = [] ∧ default = false
  | data :: rest, switches' =>
      ∃ data', switches' = data' :: rest ∧ data.Grows cases default data'

/-- What a translation keeps of the state. -/
structure Grows (cases : List Int) (default : Bool) (σ σ' : State) : Prop where
  blocks : ∀ id s, σ.blocks.lookup id = some s → σ'.blocks.lookup id = some s
  locals : ∀ id v, σ.localVars.lookup id = some v → σ'.localVars.lookup id = some v
  switches : SwitchesGrow cases default σ.switches σ'.switches

theorem SwitchData.Grows.refl (data : SwitchData) : data.Grows [] false data :=
  ⟨⟨[], by simp, .nil⟩, rfl⟩

theorem SwitchData.Grows.trans {cases1 cases2 : List Int} {default1 default2 : Bool}
    {d1 d2 d3 : SwitchData} (first : d1.Grows cases1 default1 d2)
    (second : d2.Grows cases2 default2 d3) :
    d1.Grows (cases1 ++ cases2) (default1 || default2) d3 := by
  obtain ⟨⟨new1, cases1Eq, perm1⟩, defaultEq1⟩ := first
  obtain ⟨⟨new2, cases2Eq, perm2⟩, defaultEq2⟩ := second
  refine ⟨⟨new1 ++ new2, by simp [cases1Eq, cases2Eq], by simpa using perm1.append perm2⟩,
    ?_⟩
  cases default1 with
  | true =>
      obtain ⟨none1, s, some2⟩ := defaultEq1
      cases default2 with
      | true => simp [some2] at defaultEq2
      | false => exact ⟨none1, s, defaultEq2.trans some2⟩
  | false =>
      have same : d2.default = d1.default := defaultEq1
      rw [Bool.false_or, ← same]
      exact defaultEq2

theorem SwitchesGrow.refl (switches : List SwitchData) :
    SwitchesGrow [] false switches switches := by
  cases switches with
  | nil => exact ⟨rfl, rfl, rfl⟩
  | cons data rest => exact ⟨data, rfl, .refl data⟩

theorem SwitchesGrow.trans {cases1 cases2 : List Int} {default1 default2 : Bool}
    {sw1 sw2 sw3 : List SwitchData} (first : SwitchesGrow cases1 default1 sw1 sw2)
    (second : SwitchesGrow cases2 default2 sw2 sw3) :
    SwitchesGrow (cases1 ++ cases2) (default1 || default2) sw1 sw3 := by
  cases sw1 with
  | nil =>
      obtain ⟨rfl, rfl, rfl⟩ := first
      exact second
  | cons data rest =>
      obtain ⟨data', rfl, grows1⟩ := first
      obtain ⟨data'', rfl, grows2⟩ := second
      exact ⟨data'', rfl, grows1.trans grows2⟩

theorem Grows.trans {cases1 cases2 : List Int} {default1 default2 : Bool} {σ1 σ2 σ3 : State}
    (first : Grows cases1 default1 σ1 σ2) (second : Grows cases2 default2 σ2 σ3) :
    Grows (cases1 ++ cases2) (default1 || default2) σ1 σ3 where
  blocks id s found := second.blocks id s (first.blocks id s found)
  locals id v found := second.locals id v (first.locals id v found)
  switches := first.switches.trans second.switches

theorem Grows.perm {cases cases' : List Int} {default default' : Bool} {σ σ' : State}
    (grows : Grows cases default σ σ') (perm : cases.Perm cases') (same : default = default') :
    Grows cases' default' σ σ' := by
  subst same
  refine ⟨grows.blocks, grows.locals, ?_⟩
  have switches := grows.switches
  cases before : σ.switches with
  | nil =>
      rw [before] at switches
      obtain ⟨after, rfl, noDefault⟩ := switches
      exact ⟨after, List.nil_perm.mp perm, noDefault⟩
  | cons data rest =>
      rw [before] at switches
      obtain ⟨data', after, ⟨⟨new, casesEq, permNew⟩, defaultEq⟩⟩ := switches
      exact ⟨data', after, ⟨⟨new, casesEq, permNew.trans perm⟩, defaultEq⟩⟩

/-- Grows without new cases. -/
abbrev Keeps (σ σ' : State) : Prop := Grows [] false σ σ'

theorem Keeps.after {cases : List Int} {default : Bool} {σ1 σ2 σ3 : State}
    (grows : Grows cases default σ1 σ2) (keeps : Keeps σ2 σ3) : Grows cases default σ1 σ3 :=
  (grows.trans keeps).perm (by rw [List.append_nil]) (Bool.or_false _)

theorem fresh_keeps (σ : State) : Keeps σ σ.fresh :=
  ⟨fun _ _ found => found, fun _ _ found => found, .refl σ.switches⟩

theorem addBlock_keeps {σ σ' : State} {id : String} {s : Coq.Stmt}
    (run : addBlock id s σ = .ok ((), σ')) : Keeps σ σ' := by
  obtain ⟨absent, rfl⟩ := addBlock_eq_ok.mp run
  exact ⟨fun _ _ found => lookup_cons_of_absent absent found, fun _ _ found => found,
    .refl σ.switches⟩

theorem inExpr_keeps {α : Type} {ctx : Ctx} {m : Ctx → ExprM α} {σ σ' : State} {a : α}
    (run : inExpr ctx m σ = .ok (a, σ')) : Keeps σ σ' := by
  obtain ⟨used, -, rfl⟩ := inExpr_eq_ok.mp run
  exact ⟨fun _ _ found => found, fun _ _ found => found, .refl σ.switches⟩

theorem insertBinding_eq_ok {σ σ' : State} {id : String} {ty : CType} :
    insertBindings.insertBinding id ty σ = .ok ((), σ') ↔ σ.localVars.lookup id = none ∧
      { σ with localVars := (id, true, ty) :: σ.localVars } = σ' := by
  cases found : σ.localVars.lookup id with
  | none => simp [insertBindings.insertBinding, State.isLocal, found]
  | some v => simp [insertBindings.insertBinding, State.isLocal, found]

theorem insertBindings_keeps {bindings : List (Sym × CType)} {σ σ' : State}
    (run : insertBindings bindings σ = .ok ((), σ')) : Keeps σ σ' := by
  induction bindings generalizing σ with
  | nil =>
      obtain ⟨-, rfl⟩ := run_pure_eq_ok.mp run
      exact ⟨fun _ _ found => found, fun _ _ found => found, .refl σ.switches⟩
  | cons binding bindings inductionHypothesis =>
      obtain ⟨⟨⟩, σ1, inserted, rest⟩ := run_bind_eq_ok.mp run
      obtain ⟨absent, rfl⟩ := insertBinding_eq_ok.mp inserted
      have first : Keeps σ { σ with localVars :=
          (symToStr binding.1, true, binding.2) :: σ.localVars } :=
        ⟨fun _ _ found => found, fun _ _ found => lookup_cons_of_absent absent found,
          .refl σ.switches⟩
      exact first.trans (inductionHypothesis rest)

theorem addDecl_keeps {ctx : Ctx} {d : Sym × Option Expr} {t t' : Coq.Stmt} {σ σ' : State}
    (run : addDecl ctx d t σ = .ok (t', σ')) : Keeps σ σ' := by
  obtain ⟨used, rfl⟩ := addDecl_others run
  exact ⟨fun _ _ found => found, fun _ _ found => found, .refl σ.switches⟩

theorem addDecls_keeps {ctx : Ctx} {ds : List (Sym × Option Expr)} {t t' : Coq.Stmt}
    {σ σ' : State} (run : ds.foldrM (addDecl ctx) t σ = .ok (t', σ')) : Keeps σ σ' := by
  obtain ⟨used, rfl⟩ := addDecls_others run
  exact ⟨fun _ _ found => found, fun _ _ found => found, .refl σ.switches⟩

theorem modify_append_length {α : Type} (l r : List α) (a : α) (f : α → α) :
    (l ++ a :: r).modify l.length f = l ++ f a :: r := by
  induction l with
  | nil => rfl
  | cons b l inductionHypothesis => simp [inductionHypothesis]

/-- The rule for a case adds its entry. -/
theorem registerCase_grows {i : Int} {s : Coq.Stmt} {σ σ1 σ2 σ' : State} {ref : Nat}
    {curLabel nextLabel : String} {cases : List Int} {default : Bool}
    (registered : registerCase i σ = .ok ((ref, curLabel, nextLabel), σ1))
    (body : Grows cases default σ1 σ2) (filled : setCase ref s σ2 = .ok ((), σ')) :
    Grows (i :: cases) default σ σ' := by
  obtain ⟨data, rest, top, noDefault, rfl, -, -, rfl⟩ := registerCase_eq_ok registered
  obtain ⟨data2, rest2, top2, rfl⟩ := setCase_eq_ok.mp filled
  refine ⟨body.blocks, body.locals, ?_⟩
  obtain ⟨data2', top2', ⟨⟨new, newCases, perm⟩, defaults⟩⟩ := body.switches
  rw [top2] at top2'
  cases top2'
  rw [top]
  refine ⟨_, rfl, ⟨(i, s) :: new, ?_, ?_⟩, ?_⟩
  · rw [newCases, List.append_assoc, List.singleton_append, modify_append_length]
    rfl
  · simpa using perm
  · rw [noDefault]
    exact defaults

/-- The rule for a default fills the default. -/
theorem registerDefault_grows {s : Coq.Stmt} {σ σ1 σ2 σ' : State} {curLabel nextLabel : String}
    {cases : List Int} {default : Bool}
    (registered : registerDefault σ = .ok ((curLabel, nextLabel), σ1))
    (body : Grows cases default σ1 σ2) (filled : setDefault s σ2 = .ok ((), σ')) :
    Grows cases true σ σ' := by
  obtain ⟨data, rest, top, noDefault, -, -, rfl⟩ := registerDefault_eq_ok registered
  obtain ⟨data2, rest2, top2, rfl⟩ := setDefault_eq_ok.mp filled
  refine ⟨body.blocks, body.locals, ?_⟩
  obtain ⟨data2', top2', ⟨newCases, -⟩⟩ := body.switches
  rw [top2] at top2'
  cases top2'
  rw [top]
  exact ⟨_, rfl, newCases, noDefault, s, rfl⟩

/-- A nested switch registers nothing with the enclosing one. -/
theorem switch_keeps {σ σ3 σ4 : State} {data data0 : SwitchData} {cases : List Int}
    {default : Bool} (body : Grows cases default { σ with switches := data0 :: σ.switches } σ3)
    (popped : popSwitch σ3 = .ok (data, σ4)) :
    Keeps σ σ4 ∧ data0.Grows cases default data := by
  obtain ⟨rest, top, rfl⟩ := popSwitch_eq_ok.mp popped
  obtain ⟨data', top', grows⟩ := body.switches
  rw [top] at top'
  cases top'
  exact ⟨⟨body.blocks, body.locals, .refl σ.switches⟩, grows⟩

/-- A translation registers the cases of its statements. -/
theorem Translates.grows {ctx : Ctx} {retTy : Option Coq.OpType} {σ σ' : State} {ks : List KData}
    {stmts : List Stmt} {t : Coq.Stmt} (translates : Translates ctx retTy σ ks stmts t σ') :
    Grows (casesOfList stmts) (hasDefaultList stmts) σ σ' := by
  induction translates with
  | nil => exact ⟨fun _ _ found => found, fun _ _ found => found, .refl _⟩
  | block inserted _ body =>
      rw [casesOfList_append, hasDefaultList_append] at body
      exact (insertBindings_keeps inserted).trans body
  | goto _ rest => exact rest
  | returnVoid _ rest => exact rest
  | breakS _ _ rest => exact rest
  | continueS _ _ rest => exact rest
  | returnS _ translated rest => exact Keeps.after rest (inExpr_keeps translated)
  | skip _ rest => exact rest
  | expr _ translated rest => exact Keeps.after rest (inExpr_keeps translated)
  | ifLast _ added1 _ added2 translated branch1 branch2 =>
      have first := Keeps.after ((fresh_keeps _).trans branch1) (addBlock_keeps added1)
      have second := Keeps.after ((fresh_keeps _).trans branch2) (addBlock_keeps added2)
      refine (Keeps.after (first.trans second) (inExpr_keeps translated)).perm ?_ ?_
      · simp [casesOfList, casesOf]
      · simp [hasDefaultList, hasDefault]
  | ifCont _ _ addedCont _ added1 _ added2 translated cont branch1 branch2 =>
      have rest := Keeps.after ((fresh_keeps _).trans cont) (addBlock_keeps addedCont)
      have first := Keeps.after ((fresh_keeps _).trans branch1) (addBlock_keeps added1)
      have second := Keeps.after ((fresh_keeps _).trans branch2) (addBlock_keeps added2)
      refine (Keeps.after (rest.trans (first.trans second)) (inExpr_keeps translated)).perm ?_ ?_
      · simp only [casesOfList, casesOf, List.append_nil, List.nil_append]
        exact List.perm_append_comm
      · simp [hasDefaultList, hasDefault, Bool.or_comm]
  | whileS _ addedCont _ addedBody translated addedCond cont body
  | doS _ addedCont _ addedBody translated addedCond cont body =>
      have rest := Keeps.after ((fresh_keeps _).trans ((fresh_keeps _).trans
        ((fresh_keeps _).trans cont))) (addBlock_keeps addedCont)
      have loop := Keeps.after (Keeps.after (Keeps.after body (addBlock_keeps addedBody))
        (inExpr_keeps translated)) (addBlock_keeps addedCond)
      refine (rest.trans loop).perm ?_ ?_
      · simpa [casesOfList, casesOf] using List.perm_append_comm
      · simp [hasDefaultList, hasDefault, Bool.or_comm]
  | switch _ addedCont _ _ popped _ _ addedLast translated cont body =>
      have rest := Keeps.after ((fresh_keeps _).trans cont) (addBlock_keeps addedCont)
      have inner := (switch_keeps (σ := State.fresh (State.fresh _)) body popped).1
      have outer := Keeps.after (Keeps.after (Keeps.after rest
        ((fresh_keeps _).trans ((fresh_keeps _).trans inner))) (addBlock_keeps addedLast))
        (inExpr_keeps translated)
      exact outer
  | caseS registered _ added filled body =>
      exact registerCase_grows registered (Keeps.after body (addBlock_keeps added)) filled
  | default registered _ added filled body =>
      exact registerDefault_grows registered (Keeps.after body (addBlock_keeps added)) filled
  | label _ added body => exact Keeps.after body (addBlock_keeps added)
  | declaration _ declared rest => exact Keeps.after rest (addDecls_keeps declared)

end RefinedC.Frontend
