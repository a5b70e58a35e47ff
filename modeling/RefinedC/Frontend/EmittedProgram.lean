import RefinedC.Caesium.DataRace
import RefinedC.Frontend.EmittedCode
import RefinedC.Frontend.TranslateProgram

/-!
Runs of emitted programs.

Source: `translate` of `frontend/ail_to_coq.ml`, `pp_function_def` of
`frontend/coq_pp.ml`, and the initial configurations of `theories/typing/adequacy.v`.

Owns: the functions of a program from its C definitions to Caesium, and what holds
in every configuration that threads of an emitted program reach.
-/

namespace RefinedC.Frontend

open Library

/-! ## Functions -/

section

variable {env : CodeEnv} {fn : Coq.FuncDef} {f : Caesium.Function}

theorem denoteFunction_eq_ok (denoted : denoteFunction env fn = .ok f) :
    ∃ blocks, denoteBlocks env fn.blocks = .ok blocks ∧ f.fCode = PartialMap.ofList blocks ∧
      f.fInit = "#0" ∧ denoteVars env fn.args = .ok f.fArgs ∧
      denoteVars env fn.vars = .ok f.fLocalVars := by
  obtain ⟨args, isArgs, denoted⟩ := bind_eq_ok.mp denoted
  obtain ⟨vars, isVars, denoted⟩ := bind_eq_ok.mp denoted
  obtain ⟨blocks, isBlocks, denoted⟩ := bind_eq_ok.mp denoted
  cases denoted
  exact ⟨blocks, isBlocks, rfl, rfl, isArgs, isVars⟩

/-- Every block of the function is printed. -/
theorem denoteFunction_block (denoted : denoteFunction env fn = .ok f) {id : String}
    {s : Caesium.Stmt} (block : f.fCode id = some s) :
    ∃ t, (id, t) ∈ fn.blocks ∧ denoteStmt env t = .ok s := by
  obtain ⟨blocks, isBlocks, isCode, -⟩ := denoteFunction_eq_ok denoted
  rw [isCode] at block
  obtain ⟨⟨id', t⟩, member, isBlock⟩ :=
    exists_of_mem_right (mapM_eq_ok.mp isBlocks) (PartialMap.mem_of_ofList block)
  obtain ⟨s', isStmt, same⟩ := bind_eq_ok.mp isBlock
  cases same
  exact ⟨t, member, isStmt⟩

/-- Every printed block is a block of the function. -/
theorem denoteFunction_defines (denoted : denoteFunction env fn = .ok f) {id : String}
    (isBlock : (fn.blockMap id).isSome) : f.Defines id := by
  obtain ⟨blocks, isBlocks, isCode, -⟩ := denoteFunction_eq_ok denoted
  obtain ⟨t, found⟩ := Option.isSome_iff_exists.mp isBlock
  rw [Caesium.Function.Defines, isCode, Option.isSome_iff_ne_none, Ne, PartialMap.ofList_eq_none,
    not_not]
  have same : blocks.map Prod.fst = fn.blocks.map Prod.fst := by
    refine (map_eq_map_of_forall₂ ?_).symm
    refine (mapM_eq_ok.mp isBlocks).imp fun b b' isBlock => ?_
    obtain ⟨s, -, same⟩ := bind_eq_ok.mp isBlock
    cases same
    rfl
  rw [same]
  by_contra absent
  rw [Coq.FuncDef.blockMap, lookup_eq_none_iff.mpr absent] at found
  cases found

private theorem denoteVars_names {vars : List (String × Coq.Layout)}
    {vars' : List (Caesium.VarName × Caesium.Layout)} (denoted : denoteVars env vars = .ok vars') :
    vars'.map Prod.fst = vars.map Prod.fst := by
  refine (map_eq_map_of_forall₂ ?_).symm
  refine (mapM_eq_ok.mp denoted).imp fun v v' isVar => ?_
  obtain ⟨ly, -, same⟩ := bind_eq_ok.mp isVar
  cases same
  rfl

private theorem denoteFunction_vars (denoted : denoteFunction env fn = .ok f) :
    f.vars = (fn.args ++ fn.vars).map Prod.fst := by
  obtain ⟨-, -, -, -, isArgs, isVars⟩ := denoteFunction_eq_ok denoted
  rw [Caesium.Function.vars, denoteVars_names isArgs, denoteVars_names isVars, List.map_append]

end

/-! ## Translated functions -/

/-- Labels that are jumped to exist, and cases of a switch are distinct. -/
def FunctionDefinition.WellFormed (fd : FunctionDefinition) : Prop :=
  ∀ bindings stmts, fd.body = .block bindings stmts →
    Frontend.WellFormed (labelsOfList stmts) stmts

section

variable {ctx : Ctx} {name : String} {decl : FunDecl} {fd : FunctionDefinition} {fn : Coq.FuncDef}
  {env : CodeEnv} {f : Caesium.Function} {xs : String → Prop} {P : Caesium.Expr → Prop}
  {Q : Caesium.Stmt → Prop}

/-- A property of statements holds of every block of a translated function. -/
theorem FunctionRun.blocks_hold (run : FunctionRun ctx name decl fd fn)
    (wellFormed : fd.WellFormed) (denoted : denoteFunction env fn = .ok f)
    (property : ExprProperty (· ∈ f.vars) P) (lifted : StmtProperty f.Defines P Q) {id : String}
    {s : Caesium.Stmt} (block : f.fCode id = some s) : Q s := by
  obtain ⟨t, member, isStmt⟩ := denoteFunction_block denoted block
  refine denoteStmt_holds (property.of_locals fun x isLocal => ?_)
    (lifted.of_labels fun id isBlock => denoteFunction_defines denoted isBlock)
    (run.inScope.blocks id t (run.isBlocks ▸ member))
    (run.closed (wellFormed _ _ run.isBody) id t member) isStmt
  rw [denoteFunction_vars denoted]
  exact run.mem_names isLocal

/-- A translated function is well scoped. -/
theorem translateFunction_wellScoped (translated : translateFunction ctx name decl fd = .ok fn)
    (wellFormed : fd.WellFormed) (denoted : denoteFunction env fn = .ok f) : f.WellScoped := by
  obtain ⟨run⟩ := translateFunction_run translated
  refine ⟨fun b s block => ?_, ?_⟩
  · exact run.blocks_hold wellFormed denoted (scoped_exprProperty _)
      (scoped_stmtProperty _ _) block
  · obtain ⟨-, -, -, init, -⟩ := denoteFunction_eq_ok denoted
    have initBlock := run.initBlock
    rw [run.init_eq] at initBlock
    rw [init]
    exact denoteFunction_defines denoted (by rw [initBlock, Option.isSome_some])

/-- A translated function has no second-phase accesses. -/
theorem translateFunction_noNa2 (translated : translateFunction ctx name decl fd = .ok fn)
    (wellFormed : fd.WellFormed) (denoted : denoteFunction env fn = .ok f) : f.NoNa2 := by
  obtain ⟨run⟩ := translateFunction_run translated
  intro b s block
  exact run.blocks_hold wellFormed denoted (noNa2_exprProperty _) (noNa2_stmtProperty _) block

end

/-! ## Programs -/

/-- The functions of a program: the definitions are translated and printed, and the
printed functions are read. -/
def emitFunctions (ctx : Ctx) (defs : List (Sym × FunctionDefinition)) (env : CodeEnv) :
    Result (List Caesium.Function) := do
  let fns ← translateFunctions ctx defs
  (fns.filterMap Prod.snd).mapM (denoteFunction env)

/-- The start of a thread. -/
def initialProg (main : Caesium.Loc) : Caesium.RuntimeExpr :=
  Caesium.toRtexpr (.call (.val (Caesium.valOfLoc main)) [])

def fnListsToFns (addrs : List Int) (fns : List Caesium.Function) :
    PartialMap Int Caesium.Function := PartialMap.ofList (addrs.zip fns)

/-- One thread for every main function, with the allocated globals. -/
def initialConfig (mains : List Caesium.Loc) (hs : Caesium.HeapState) (addrs : List Int)
    (fns : List Caesium.Function) : EctxiLanguage.Config Caesium.RuntimeExpr Caesium.State :=
  (mains.map initialProg, ⟨hs, fnListsToFns addrs fns⟩)

section

variable {ctx : Ctx} {defs : List (Sym × FunctionDefinition)} {env : CodeEnv}
  {fns : List Caesium.Function}

/-- Every emitted function is translated from a definition. -/
theorem emitFunctions_mem (emitted : emitFunctions ctx defs env = .ok fns) {f : Caesium.Function}
    (member : f ∈ fns) : ∃ d ∈ defs, ∃ decl fn,
      translateFunction ctx (symToStr d.1) decl d.2 = .ok fn ∧ denoteFunction env fn = .ok f := by
  obtain ⟨translated, isTranslated, denoted⟩ := bind_eq_ok.mp emitted
  obtain ⟨fn, isPrinted, isFn⟩ := exists_of_mem_right (mapM_eq_ok.mp denoted) member
  obtain ⟨⟨name, result⟩, inside, rfl⟩ := List.mem_filterMap.mp isPrinted
  obtain ⟨⟨name', decl⟩, -, isResult⟩ :=
    exists_of_mem_right (mapM_eq_ok.mp isTranslated) inside
  rw [translateDeclared] at isResult
  split at isResult
  · cases isResult
  · rename_i d found
    obtain ⟨fn', isFn', same⟩ := bind_eq_ok.mp isResult
    cases same
    have sameName : symToStr d.1 = name' := by simpa using List.find?_some found
    exact ⟨d, List.mem_of_find?_eq_some found, decl, fn, sameName ▸ isFn', isFn⟩

private theorem mem_of_fnListsToFns {addrs : List Int} {a : Int} {f : Caesium.Function}
    (found : fnListsToFns addrs fns a = some f) : f ∈ fns :=
  (List.of_mem_zip (PartialMap.mem_of_ofList found)).2

/-- All cells are unlocked. -/
def HeapUnlocked (st : Caesium.HeapState) : Prop :=
  ∀ a cell, st.hsHeap a = some cell → cell.hcLockState = .rSt 0

private theorem allocNewBlock_unlocked {st st' : Caesium.HeapState} {kind : Caesium.AllocKind}
    {l : Caesium.Loc} {v : Caesium.Val} (block : Caesium.AllocNewBlock st kind l v st')
    (before : HeapUnlocked st) : HeapUnlocked st' := by
  intro a cell found
  cases block with
  | allocNewBlock provenance fresh inRange rangeFree =>
      rename_i aid
      simp only [Caesium.heapAlloc] at found
      by_cases inside : l.2 ≤ a ∧ a < l.2 + v.length
      · obtain ⟨b, -, updated⟩ := Caesium.heapUpdate_inside (fun _ => aid)
          (fun _ => Caesium.LockState.rSt 0) st.hsHeap inside.1 inside.2
        rw [updated] at found
        cases found
        rfl
      · rw [Caesium.heapUpdate_outside (by omega)] at found
        exact before a cell found

/-- Allocated globals are unlocked. -/
theorem allocNewBlocks_unlocked {st st' : Caesium.HeapState} {kind : Caesium.AllocKind}
    {ls : List Caesium.Loc} {vs : List Caesium.Val}
    (blocks : Caesium.AllocNewBlocks st kind ls vs st') (before : HeapUnlocked st) :
    HeapUnlocked st' := by
  induction blocks with
  | nil => exact before
  | cons first _ inductionHypothesis =>
      exact inductionHypothesis (allocNewBlock_unlocked first before)

variable {mains : List Caesium.Loc} {addrs : List Int} {gls : List Caesium.Loc}
  {gvs : List Caesium.Val} {hs : Caesium.HeapState}

private theorem initialConfig_scoped (emitted : emitFunctions ctx defs env = .ok fns)
    (wellFormed : ∀ d ∈ defs, d.2.WellFormed) :
    Caesium.ScopedConfig (initialConfig mains hs addrs fns) where
  threads := by
    intro t member
    obtain ⟨main, -, rfl⟩ := List.mem_map.mp member
    exact ⟨trivial, trivial⟩
  fns := by
    intro a f found
    obtain ⟨d, isDef, decl, fn, translated, denoted⟩ :=
      emitFunctions_mem emitted (mem_of_fnListsToFns found)
    exact translateFunction_wellScoped translated (wellFormed d isDef) denoted

private theorem initialConfig_initial (emitted : emitFunctions ctx defs env = .ok fns)
    (wellFormed : ∀ d ∈ defs, d.2.WellFormed)
    (globals : Caesium.AllocNewBlocks Caesium.initialHeapState .globalAlloc gls gvs hs) :
    Caesium.Initial (initialConfig mains hs addrs fns) where
  unlocked := allocNewBlocks_unlocked globals fun a cell found => by cases found
  threads := by
    intro t member
    obtain ⟨main, -, rfl⟩ := List.mem_map.mp member
    exact ⟨trivial, trivial⟩
  fns := by
    intro a f found
    obtain ⟨d, isDef, decl, fn, translated, denoted⟩ :=
      emitFunctions_mem emitted (mem_of_fnListsToFns found)
    exact translateFunction_noNa2 translated (wellFormed d isDef) denoted

/-- In every configuration that threads of an emitted program reach, all names and
labels are defined, lock states count the accesses that are under way, and the heap
agrees with the allocations; a program that is never stuck has no data race. -/
theorem emittedProgram_run {c : EctxiLanguage.Config Caesium.RuntimeExpr Caesium.State}
    (emitted : emitFunctions ctx defs env = .ok fns)
    (wellFormed : ∀ d ∈ defs, d.2.WellFormed)
    (globals : Caesium.AllocNewBlocks Caesium.initialHeapState .globalAlloc gls gvs hs)
    (run : Caesium.cLang.PoolSteps (initialConfig mains hs addrs fns) c) :
    Caesium.ScopedConfig c ∧ Caesium.LockInv c ∧ Caesium.HeapStateInvariant c.2.stHeap ∧
      (Caesium.Safe (initialConfig mains hs addrs fns) →
        ∀ i j a, ¬ Caesium.DataRace c i j a) := by
  have scopedStart : Caesium.ScopedConfig (initialConfig mains hs addrs fns) :=
    initialConfig_scoped emitted wellFormed
  have initial : Caesium.Initial (initialConfig mains hs addrs fns) :=
    initialConfig_initial emitted wellFormed globals
  refine ⟨Caesium.cLang.invariant_of_poolSteps Caesium.ScopedConfig.step scopedStart run,
    initial.lockInv_of_run run, Caesium.heapStateInvariant_iff_owned.mpr ?_, ?_⟩
  · exact Caesium.poolSteps_owned run (globals.events.owned Caesium.initialHeapState_owned)
  · intro safe i j a race
    obtain ⟨-, e1, e1', -, -, ⟨K, σ', thread, step⟩, -⟩ := id race
    have moved : Caesium.cLang.PoolStepBy i c (c.1.set i (Caesium.cLang.fill K e1'), σ') :=
      ⟨_, _, thread, .ectx K step, rfl⟩
    obtain ⟨t, found, stuck⟩ := race.stuck (initial.lockInv_of_run run) moved
    exact safe _ (run.tail ⟨i, moved⟩) t (List.mem_of_getElem? found) stuck

end

/-- One global byte `g`. -/
def globalByteEnv : CodeEnv :=
  ⟨fun _ => none, fun _ => none, PartialMap.empty.insert "g" Caesium.globalLoc, false⟩

/-- `g = 1; return g;` -/
def setDef : FunctionDefinition :=
  let g : Expr := .annotated (.lvalue (.integer (.unsigned .ichar))) (.ident ⟨0, "g"⟩)
  ⟨[], .block [] [
    .expr
      (.annotated (.rvalue (.integer (.unsigned .ichar))) (.assign g (intConst (.signed .int) 1))),
    .returnS (.annotated (.rvalue (.integer (.unsigned .ichar))) (.rvalue g))]⟩

def setDecl : FunDecl := ⟨.integer (.unsigned .ichar), [], []⟩

private theorem setDef_wellFormed : setDef.WellFormed := by
  intro bindings stmts isBody
  cases isBody
  constructor
  · simp [CasesDistinctList, CasesDistinct]
  · simp [gotosOfList, gotosOf]

/-- Two threads that both call the emitted function. -/
theorem emittedProgram_run_set :
    ∃ fns, emitFunctions (lp64Ctx [] [("set", setDecl)])
      [(⟨5, "set"⟩, setDef)] globalByteEnv =
        .ok fns ∧ fns.length = 1 ∧
      ∀ c, Caesium.cLang.PoolSteps
          (initialConfig [Caesium.fnLoc 64, Caesium.fnLoc 64] Caesium.globalByte [64] fns) c →
        Caesium.ScopedConfig c ∧ Caesium.LockInv c ∧ Caesium.HeapStateInvariant c.2.stHeap ∧
          (Caesium.Safe (initialConfig [Caesium.fnLoc 64, Caesium.fnLoc 64] Caesium.globalByte [64]
            fns) → ∀ i j a, ¬ Caesium.DataRace c i j a) := by
  have count : (emitFunctions (lp64Ctx [] [("set", setDecl)]) [(⟨5, "set"⟩, setDef)]
      globalByteEnv).toOption.map List.length = some 1 := by
    decide +kernel
  obtain ⟨fns, emitted⟩ : ∃ fns, emitFunctions (lp64Ctx [] [("set", setDecl)])
      [(⟨5, "set"⟩, setDef)] globalByteEnv = .ok fns := exists_ok_of_isOk (by decide +kernel)
  refine ⟨fns, emitted, ?_, fun c run => ?_⟩
  · rw [emitted] at count
    exact Option.some.inj count
  · have wellFormed : ∀ d ∈ [((⟨5, "set"⟩ : Sym), setDef)], d.2.WellFormed := by
      intro d member
      obtain rfl := List.mem_singleton.mp member
      exact setDef_wellFormed
    exact emittedProgram_run emitted wellFormed Caesium.globalByte_allocated run

end RefinedC.Frontend
