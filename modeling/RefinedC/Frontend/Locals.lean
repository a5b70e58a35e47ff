import RefinedC.Frontend.Translates

/-!
Local variables of translated functions.

Owns: which variables a translation declares, and that their names are distinct.

Nested blocks are flattened, so that every variable of the body becomes a variable
of the function. A name that is already taken stops the translation.
-/

namespace RefinedC.Frontend

open Library

/-- Variables that are declared by bindings, as they are stored. -/
def declaredVars (bindings : List (Sym × CType)) : List (String × CType) :=
  bindings.map fun b => (symToStr b.1, b.2)

@[simp] theorem declaredVars_append (bindings bindings' : List (Sym × CType)) :
    declaredVars (bindings ++ bindings') = declaredVars bindings ++ declaredVars bindings' :=
  List.map_append

abbrev LocalVars := List (String × Bool × CType)

/-- Between `vars` and `vars'` the variables of the bindings have been inserted. -/
structure Inserts (bindings : List (Sym × CType)) (vars vars' : LocalVars) : Prop where
  perm : ∃ new : List (String × CType), new.Perm (declaredVars bindings) ∧
    vars' = new.map (fun v => (v.1, true, v.2)) ++ vars
  distinct : (vars.map Prod.fst).Nodup → (vars'.map Prod.fst).Nodup

theorem Inserts.of_eq {vars vars' : LocalVars} (same : vars' = vars) : Inserts [] vars vars' :=
  ⟨⟨[], .nil, same⟩, fun distinct => same ▸ distinct⟩

theorem Inserts.trans {bindings1 bindings2 : List (Sym × CType)} {vars1 vars2 vars3 : LocalVars}
    (first : Inserts bindings1 vars1 vars2) (second : Inserts bindings2 vars2 vars3) :
    Inserts (bindings1 ++ bindings2) vars1 vars3 := by
  obtain ⟨⟨new1, perm1, rfl⟩, distinct1⟩ := first
  obtain ⟨⟨new2, perm2, rfl⟩, distinct2⟩ := second
  refine ⟨⟨new2 ++ new1, ?_, by simp⟩, fun distinct => distinct2 (distinct1 distinct)⟩
  rw [declaredVars_append]
  exact (perm2.append perm1).trans List.perm_append_comm

theorem Inserts.after {bindings : List (Sym × CType)} {vars1 vars2 vars3 : LocalVars}
    (inserts : Inserts bindings vars1 vars2) (same : vars3 = vars2) :
    Inserts bindings vars1 vars3 :=
  same ▸ inserts

private theorem Inserts.perm_of {bindings bindings' : List (Sym × CType)} {vars vars' : LocalVars}
    (inserts : Inserts bindings vars vars') (perm : bindings.Perm bindings') :
    Inserts bindings' vars vars' := by
  obtain ⟨⟨new, permNew, same⟩, distinct⟩ := inserts
  exact ⟨⟨new, permNew.trans (perm.map _), same⟩, distinct⟩

/-! ## Operations -/

theorem insertBindings_inserts {bindings : List (Sym × CType)} {σ σ' : State}
    (run : insertBindings bindings σ = .ok ((), σ')) :
    Inserts bindings σ.localVars σ'.localVars := by
  induction bindings generalizing σ with
  | nil =>
      obtain ⟨-, rfl⟩ := run_pure_eq_ok.mp run
      exact .of_eq rfl
  | cons binding bindings inductionHypothesis =>
      obtain ⟨⟨⟩, σ1, inserted, rest⟩ := run_bind_eq_ok.mp run
      obtain ⟨absent, rfl⟩ := insertBinding_eq_ok.mp inserted
      have first : Inserts [binding] σ.localVars
          ((symToStr binding.1, true, binding.2) :: σ.localVars) := by
        refine ⟨⟨[(symToStr binding.1, binding.2)], .refl _, rfl⟩, fun distinct => ?_⟩
        rw [List.map_cons, List.nodup_cons]
        exact ⟨lookup_eq_none_iff.mp absent, distinct⟩
      exact first.trans (inductionHypothesis rest)

/-- Bindings only change the variables. -/
theorem insertBindings_others {bindings : List (Sym × CType)} {σ σ' : State}
    (run : insertBindings bindings σ = .ok ((), σ')) :
    ∃ vars, σ' = { σ with localVars := vars } := by
  induction bindings generalizing σ with
  | nil =>
      obtain ⟨-, rfl⟩ := run_pure_eq_ok.mp run
      exact ⟨σ.localVars, rfl⟩
  | cons binding bindings inductionHypothesis =>
      obtain ⟨⟨⟩, σ1, inserted, rest⟩ := run_bind_eq_ok.mp run
      obtain ⟨-, rfl⟩ := insertBinding_eq_ok.mp inserted
      obtain ⟨vars, others⟩ := inductionHypothesis rest
      exact ⟨vars, others⟩

theorem addBlock_localVars {σ σ' : State} {id : String} {s : Coq.Stmt}
    (run : addBlock id s σ = .ok ((), σ')) : σ'.localVars = σ.localVars := by
  obtain ⟨-, rfl⟩ := addBlock_eq_ok.mp run
  rfl

private theorem inExpr_localVars {α : Type} {ctx : Ctx} {m : Ctx → ExprM α}
    {σ σ' : State} {a : α}
    (run : inExpr ctx m σ = .ok (a, σ')) : σ'.localVars = σ.localVars := by
  obtain ⟨used, -, rfl⟩ := inExpr_eq_ok.mp run
  rfl

theorem addDecls_localVars {ctx : Ctx} {ds : List (Sym × Option Expr)} {t t' : Coq.Stmt}
    {σ σ' : State} (run : ds.foldrM (addDecl ctx) t σ = .ok (t', σ')) :
    σ'.localVars = σ.localVars := by
  obtain ⟨used, rfl⟩ := addDecls_others run
  rfl

/-- A translation inserts the variables of its statements. -/
theorem Translates.inserts {ctx : Ctx} {retTy : Option Coq.OpType} {σ σ' : State}
    {ks : List KData} {stmts : List Stmt} {t : Coq.Stmt}
    (translates : Translates ctx retTy σ ks stmts t σ') :
    Inserts (bindingsOfList stmts) σ.localVars σ'.localVars := by
  induction translates with
  | nil => exact .of_eq rfl
  | block inserted _ body =>
      rw [bindingsOfList_append] at body
      rw [bindingsOfList, bindingsOf, List.append_assoc]
      exact (insertBindings_inserts inserted).trans body
  | goto _ rest | returnVoid _ rest | breakS _ _ rest | continueS _ _ rest | skip _ rest =>
      exact rest
  | returnS _ translated rest | expr _ translated rest =>
      exact rest.after (inExpr_localVars translated)
  | ifLast _ added1 _ added2 translated branch1 branch2 =>
      have first := (branch1.after (addBlock_localVars added1)).trans branch2
      rw [bindingsOfList, bindingsOf, bindingsOfList, List.append_nil]
      simp only [bindingsOfList, List.append_nil] at first
      exact (first.after (addBlock_localVars added2)).after (inExpr_localVars translated)
  | ifCont _ _ addedCont _ added1 _ added2 translated cont branch1 branch2 =>
      have rest := cont.after (addBlock_localVars addedCont)
      have first := branch1.after (addBlock_localVars added1)
      have second := (branch2.after (addBlock_localVars added2)).after (inExpr_localVars translated)
      refine (rest.trans (first.trans second)).perm_of ?_
      simp only [bindingsOfList, bindingsOf, List.append_nil]
      exact List.perm_append_comm
  | whileS _ addedCont _ addedBody translated addedCond cont body
  | doS _ addedCont _ addedBody translated addedCond cont body =>
      have rest := cont.after (addBlock_localVars addedCont)
      have loop := ((body.after (addBlock_localVars addedBody)).after
        (inExpr_localVars translated)).after (addBlock_localVars addedCond)
      refine (rest.trans loop).perm_of ?_
      simp only [bindingsOfList, bindingsOf, List.append_nil]
      exact List.perm_append_comm
  | switch _ addedCont _ _ popped _ _ addedLast translated cont body =>
      have rest := cont.after (addBlock_localVars addedCont)
      obtain ⟨switches, -, rfl⟩ := popSwitch_eq_ok.mp popped
      have same := (inExpr_localVars translated).trans (addBlock_localVars addedLast)
      refine (rest.trans (body.after same)).perm_of ?_
      simp only [bindingsOfList, bindingsOf, List.append_nil]
      exact List.perm_append_comm
  | caseS registered _ added filled body =>
      obtain ⟨data, switches, -, -, -, -, -, rfl⟩ := registerCase_eq_ok registered
      obtain ⟨data', switches', -, rfl⟩ := setCase_eq_ok.mp filled
      have same := addBlock_localVars added
      exact body.after same
  | default registered _ added filled body =>
      obtain ⟨data, switches, -, -, -, -, rfl⟩ := registerDefault_eq_ok registered
      obtain ⟨data', switches', -, rfl⟩ := setDefault_eq_ok.mp filled
      have same := addBlock_localVars added
      exact body.after same
  | label _ added body => exact body.after (addBlock_localVars added)
  | declaration _ declared rest => exact rest.after (addDecls_localVars declared)

/-! ## Functions -/

/-- Parameters and variables of a function, with their types. -/
def functionVars (decl : FunDecl) (fd : FunctionDefinition) : List (String × CType) :=
  (fd.params.map symToStr).zip decl.params ++ declaredVars (bindingsOf fd.body)

/-- Arguments are stored before the variables, the last one first. -/
theorem declareArgs_eq_ok {ctx : Ctx} {tys : List CType} {params : List Sym} {σ σ' : State}
    {args : List (String × Coq.Layout)} (run : declareArgs ctx tys params σ = .ok (args, σ')) :
    args.map Prod.fst = ((params.map symToStr).zip tys).map Prod.fst ∧
      σ' = { σ with localVars := (((params.map symToStr).zip tys).map fun v =>
        (v.1, false, v.2)).reverse ++ σ.localVars } := by
  induction tys generalizing params σ args with
  | nil =>
      obtain ⟨rfl, rfl⟩ := run_pure_eq_ok.mp run
      simp
  | cons ty tys inductionHypothesis =>
      cases params with
      | nil => cases run
      | cons s params =>
          simp only [declareArgs, run_bind_eq_ok, run_liftResult_eq_ok, run_pure_eq_ok] at run
          obtain ⟨⟨⟩, σ1, declared, l, σ2, ⟨-, rfl⟩, rest, σ3, others, rfl, rfl⟩ :=
            run
          cases declared
          obtain ⟨names, rfl⟩ := inductionHypothesis others
          simp [names]

/-- A successful translation of a function, step by step. -/
structure FunctionRun (ctx : Ctx) (name : String) (decl : FunDecl) (fd : FunctionDefinition)
    (fn : Coq.FuncDef) where
  bindings : List (Sym × CType)
  stmts : List Stmt
  retTy : Option Coq.OpType
  body : Coq.Stmt
  withArgs : State
  withVars : State
  translated : State
  final : State
  declared : declareArgs ctx decl.params fd.params initialState = .ok (fn.args, withArgs)
  isBody : fd.body = .block bindings stmts
  inserted : insertBindings bindings withArgs = .ok ((), withVars)
  isRet : opTypeOpt ctx.impl decl.ret = .ok retTy
  translation : translateBlock ctx stmts retTy (name = "main") withVars.fresh =
    .ok (body, translated)
  added : addBlock (blockName withVars.blockId) body translated = .ok ((), final)
  isInit : fn.init = blockName withVars.blockId
  isBlocks : fn.blocks = final.blocks
  collected : collectBindings ctx final.localVars = .ok fn.vars

theorem translateFunction_run {ctx : Ctx} {name : String} {decl : FunDecl}
    {fd : FunctionDefinition} {fn : Coq.FuncDef}
    (run : translateFunction ctx name decl fd = .ok fn) :
    Nonempty (FunctionRun ctx name decl fd fn) := by
  simp only [translateFunction, bind_eq_ok] at run
  obtain ⟨⟨⟨args, init⟩, final⟩, body, vars, collected, result⟩ := run
  cases result
  simp only [translateBody, run_freshBlockId_bind, run_bind_eq_ok, run_liftResult_eq_ok,
    run_pure_eq_ok] at body
  obtain ⟨args', withArgs, declared, ⟨bindings, stmts⟩, _, ⟨isBlock, rfl⟩, ⟨⟩,
    withVars, inserted, retTy, _, ⟨isRet, rfl⟩, t, translated, translation, ⟨⟩, _, added,
      result, rfl⟩ := body
  cases result
  have isBody : fd.body = .block bindings stmts := by
    unfold functionBody at isBlock
    split at isBlock
    · rename_i sameBody
      cases isBlock
      exact sameBody
    · cases isBlock
  exact ⟨⟨bindings, stmts, retTy, t, withArgs, withVars, translated, _, declared, isBody,
    inserted, isRet, translation, added, rfl, rfl, collected⟩⟩

namespace FunctionRun

variable {ctx : Ctx} {name : String} {decl : FunDecl} {fd : FunctionDefinition} {fn : Coq.FuncDef}
  (run : FunctionRun ctx name decl fd fn)

include run

theorem translates : Translates ctx run.retTy run.withVars.fresh
    (kInit run.retTy (name = "main")) run.stmts run.body run.translated :=
  trans_translates run.translation

/-- The arguments are followed by the variables of the body. -/
theorem inserts : Inserts (run.bindings ++ bindingsOfList run.stmts) run.withArgs.localVars
    run.translated.localVars :=
  (insertBindings_inserts run.inserted).trans run.translates.inserts

/-- Every variable that is known after the translation is one of the function. -/
theorem mem_functionVars {id : String} {v : Bool × CType}
    (found : run.translated.localVars.lookup id = some v) : (id, v.2) ∈ functionVars decl fd := by
  obtain ⟨new, perm, vars⟩ := run.inserts.perm
  have member := mem_of_lookup found
  rw [vars, (declareArgs_eq_ok run.declared).2, List.mem_append] at member
  rw [functionVars, run.isBody, bindingsOf, List.mem_append]
  rcases member with isVar | isArg
  · obtain ⟨v', member, same⟩ := List.mem_map.mp isVar
    cases same
    exact .inr (perm.mem_iff.mp member)
  · simp only [initialState, List.append_nil, List.mem_reverse, List.mem_map] at isArg
    obtain ⟨v', member, same⟩ := isArg
    cases same
    exact .inl member

/-- The body is translated from a state that only has variables. -/
theorem withVars_eq : ∃ vars, run.withVars = { initialState with localVars := vars } := by
  obtain ⟨vars, others⟩ := insertBindings_others run.inserted
  rw [(declareArgs_eq_ok run.declared).2] at others
  exact ⟨vars, others⟩

end FunctionRun

end RefinedC.Frontend
