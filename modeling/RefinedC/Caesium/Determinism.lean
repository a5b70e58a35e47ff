import RefinedC.Caesium.Step

/-!
Determinism of a single thread.

Source: `theories/caesium/lang.v`, the relations `eval_bin_op`, `eval_un_op`,
`expr_step`, `stmt_step` and `runtime_step`, and the evaluation contexts.

Owns: functionality of the operators, of loads and of allocation at given
locations, and determinism of the steps of one thread up to the locations that
`Call` and `Alloc` choose.

The source warns at `CmpOpPP` that pointer comparison may be non-deterministic;
`heap_loc_eq` is a function, so it is not.
-/

namespace RefinedC.Caesium

open RefinedC.Library

/-! ## Operators -/

private theorem ptrEqResult_ptrRelResult {op : BinOp} {e : Bool} {a1 a2 : Int}
    {r r' : Bool × IntType}
    (eq : ptrEqResult op e = some r) (rel : ptrRelResult op a1 a2 = some r') : False := by
  cases op <;> simp [ptrEqResult, ptrRelResult] at eq rel

private theorem relResult_arithResult {op : BinOp} {n1 n2 m1 m2 n : Int} {it : IntType}
    {r : Bool × IntType} (rel : relResult op n1 n2 = some r)
    (arith : arithResult op it m1 m2 = some n) : False := by
  cases op <;> simp [relResult, arithResult] at rel arith

private theorem evalBinOp_functional {op : BinOp} {ot1 ot2 : OpType} {σ : State} {v1 v2 v v' : Val}
    (first : EvalBinOp op ot1 ot2 σ v1 v2 v) (second : EvalBinOp op ot1 ot2 σ v1 v2 v') :
    v = v' := by
  cases first with
  | ptrOffsetOpIP | ptrNegOffsetOpIP | commaOp =>
      cases second <;> simp_all [relResult, arithResult, ptrEqResult, ptrRelResult]
  | ptrDiffOpPP => cases second <;> simp_all [ptrEqResult, ptrRelResult]
  | cmpOpPP left right compared outcome result =>
      cases second with
      | ptrDiffOpPP => simp [ptrEqResult] at outcome
      | commaOp => simp [ptrEqResult] at outcome
      | relOpPP _ _ _ _ _ _ outcome' => exact (ptrEqResult_ptrRelResult outcome outcome').elim
      | cmpOpPP left' right' compared' outcome' result' => simp_all
  | relOpPP left right leftLoc rightLoc _ _ outcome result =>
      cases second with
      | ptrDiffOpPP => simp [ptrRelResult] at outcome
      | commaOp => simp [ptrRelResult] at outcome
      | cmpOpPP _ _ _ outcome' => exact (ptrEqResult_ptrRelResult outcome' outcome).elim
      | relOpPP left' right' leftLoc' rightLoc' _ _ outcome' result' => simp_all
  | relOpII outcome left right result =>
      cases second with
      | commaOp => simp [relResult] at outcome
      | arithOpII outcome' => exact (relResult_arithResult outcome outcome').elim
      | relOpII outcome' left' right' result' => simp_all
  | arithOpII outcome left right result =>
      cases second with
      | commaOp => simp [arithResult] at outcome
      | relOpII outcome' => exact (relResult_arithResult outcome' outcome).elim
      | arithOpII outcome' left' right' result' => simp_all

theorem evalUnOp_functional {op : UnOp} {ot : OpType} {σ : State} {v w w' : Val}
    (first : EvalUnOp op ot σ v w) (second : EvalUnOp op ot σ v w') : w = w' := by
  cases first <;> cases second <;> grind [nullLoc]

/-! ## Memory -/

/-- A load finds the bytes that are there. -/
theorem heapAt_functional {l : Loc} {ly : Layout} {v v' : Val} {Plk Plk' : LockState → Prop}
    {h : Heap} (first : heapAt l ly v Plk h) (second : heapAt l ly v' Plk' h) : v = v' := by
  obtain ⟨_, _, length, lookup⟩ := first
  obtain ⟨_, _, length', lookup'⟩ := second
  unfold hasLayoutVal at length length'
  apply List.ext_getElem?
  intro i
  by_cases inside : i < ly.lySize
  · obtain ⟨_, _, b, cell, value, _⟩ :=
      heapLookup_cell (p := l.2 + i) lookup (by omega) (by omega)
    obtain ⟨_, _, b', cell', value', _⟩ :=
      heapLookup_cell (p := l.2 + i) lookup' (by omega) (by omega)
    have index : (l.2 + i - l.2).toNat = i := by omega
    rw [index] at value value'
    rw [cell] at cell'
    cases cell'
    rw [value, value']
  · rw [List.getElem?_eq_none (by omega), List.getElem?_eq_none (by omega)]

theorem AllocNewBlock.functional {st st1 st2 : HeapState} {kind : AllocKind} {l : Loc} {v : Val}
    (first : AllocNewBlock st kind l v st1) (second : AllocNewBlock st kind l v st2) :
    st1 = st2 := by
  obtain ⟨provenance, _, _, _⟩ := first
  obtain ⟨provenance', _, _, _⟩ := second
  rw [provenance] at provenance'
  cases provenance'
  rfl

theorem AllocNewBlocks.functional {st st1 st2 : HeapState} {kind : AllocKind} {ls : List Loc}
    {vs : List Val} (first : AllocNewBlocks st kind ls vs st1)
    (second : AllocNewBlocks st kind ls vs st2) : st1 = st2 := by
  induction first with
  | nil =>
      cases second
      rfl
  | cons block _ inductionHypothesis =>
      cases second with
      | cons block' rest' =>
          rw [← block.functional block'] at rest'
          exact inductionHypothesis rest'

theorem FreeBlock.functional {st st1 st2 : HeapState} {kind : AllocKind} {l : Loc} {ly : Layout}
    (first : FreeBlock st kind l ly st1) (second : FreeBlock st kind l ly st2) : st1 = st2 := by
  obtain ⟨provenance, _, _, _⟩ := first
  obtain ⟨provenance', _, _, _⟩ := second
  rw [provenance] at provenance'
  cases provenance'
  rfl

theorem FreeBlocks.functional {st st1 st2 : HeapState} {kind : AllocKind}
    {ls : List (Loc × Layout)} (first : FreeBlocks st kind ls st1)
    (second : FreeBlocks st kind ls st2) : st1 = st2 := by
  induction first with
  | nil =>
      cases second
      rfl
  | cons block _ inductionHypothesis =>
      cases second with
      | cons block' rest' =>
          rw [← block.functional block'] at rest'
          exact inductionHypothesis rest'

/-! ## Head steps -/

/-- The two redexes whose step chooses locations. -/
def IsCallOrAlloc : RuntimeExpr → Prop
  | .expr (.call _ _) | .expr (.alloc _ _) => True
  | _ => False

/-- The locations that a successful step of such a redex chose, read off its
result: arguments and local variables of a call, or the new block. A failed
allocation has chosen none. -/
def chosenLocs : RuntimeExpr → Option (List Loc)
  | .stmt rf _ => some (rf.rfLocs.map Prod.fst)
  | .expr (.val v) => (valToLoc v).map (fun l => [l])
  | _ => none

private theorem chosenLocs_callFrame {fn : Function} {lsa lsv : List Loc}
    (argCount : lsa.length = fn.fArgs.length) (varCount : lsv.length = fn.fLocalVars.length) :
    chosenLocs (toRtstmt (callFrame fn lsa lsv) (.goto fn.fInit)) = some (lsa ++ lsv) := by
  have args : (lsa.zip (fn.fArgs.map Prod.snd)).map Prod.fst = lsa :=
    List.map_fst_zip (by simp [argCount])
  have vars : (lsv.zip (fn.fLocalVars.map Prod.snd)).map Prod.fst = lsv :=
    List.map_fst_zip (by simp [varCount])
  simp [chosenLocs, toRtstmt, callFrame, args, vars]

private theorem chosenLocs_valOfLoc (l : Loc) :
    chosenLocs (toRtexpr (.val (valOfLoc l))) = some [l] := by
  simp [chosenLocs, toRtexpr]

theorem map_val_inj {vs vs' : List Val} (equal : vs.map Expr.val = vs'.map Expr.val) : vs = vs' :=
  (List.map_inj_right (fun _ _ same => Expr.val.inj same)).mp equal

/-- A pointer reads one integer. -/
theorem heapAt_int_functional {pointer v v' : Val} {l l' : Loc} {ot : OpType} {z z' : Int}
    {Plk Plk' : LockState → Prop} {h : Heap} (isLoc : valToLoc pointer = some l)
    (isLoc' : valToLoc pointer = some l') (cells : heapAt l ot.otLayout v Plk h)
    (cells' : heapAt l' ot.otLayout v' Plk' h) (value : valToZOt v ot = some z)
    (value' : valToZOt v' ot = some z') : z = z' := by
  cases isLoc.symm.trans isLoc'
  rw [heapAt_functional cells cells', value'] at value
  exact Option.some.inj value.symm

private theorem exprStep_functional {e : Expr} {σ σ1 σ2 : State} {r1 r2 : RuntimeExpr}
    (other : ¬ IsCallOrAlloc (toRtexpr e)) (first : ExprStep e σ r1 σ1)
    (second : ExprStep e σ r2 σ2) : r1 = r2 ∧ σ1 = σ2 := by
  cases first with
  | callS | callFailS | allocS | allocFailS => exact absurd trivial other
  | skipES =>
      cases second
      exact ⟨rfl, rfl⟩
  | unOpS eval =>
      cases second with
      | unOpS eval' =>
          rw [evalUnOp_functional eval eval']
          exact ⟨rfl, rfl⟩
  | binOpS eval =>
      cases second with
      | binOpS eval' =>
          rw [evalBinOp_functional eval eval']
          exact ⟨rfl, rfl⟩
  | derefS pointer cells =>
      cases second with
      | derefS pointer' cells' =>
          rw [pointer] at pointer'
          cases pointer'
          rw [heapAt_functional cells cells']
          exact ⟨rfl, rfl⟩
  | casFailS object objectCells expected expectedCells objectValue expectedValue _ _ different =>
      cases second with
      | casFailS object' objectCells' expected' expectedCells' =>
          rw [expected] at expected'
          rw [object] at object'
          cases expected'
          cases object'
          rw [heapAt_functional objectCells objectCells']
          exact ⟨rfl, rfl⟩
      | casSucS object' objectCells' expected' expectedCells' objectValue'
        expectedValue' _ _ same =>
          have object1 := heapAt_int_functional object object' objectCells objectCells' objectValue
            objectValue'
          have expected1 := heapAt_int_functional expected expected' expectedCells expectedCells'
            expectedValue expectedValue'
          exact absurd (object1.trans (same.trans expected1.symm)) different
  | casSucS object objectCells expected expectedCells objectValue expectedValue _ _ same =>
      cases second with
      | casSucS object' =>
          rw [object] at object'
          cases object'
          exact ⟨rfl, rfl⟩
      | casFailS object' objectCells' expected' expectedCells' objectValue' expectedValue' _ _
          different =>
          have object1 := heapAt_int_functional object object' objectCells objectCells' objectValue
            objectValue'
          have expected1 := heapAt_int_functional expected expected' expectedCells expectedCells'
            expectedValue expectedValue'
          exact absurd (object1.symm.trans (same.trans expected1)) different
  | concatS =>
      generalize shape : Expr.concat _ = redex at second
      cases second <;> simp only [Expr.concat.injEq, reduceCtorEq] at shape
      rw [map_val_inj shape]
      exact ⟨rfl, rfl⟩
  | copyAllocIdS address pointer =>
      cases second with
      | copyAllocIdS address' pointer' =>
          rw [address] at address'
          rw [pointer] at pointer'
          cases address'
          cases pointer'
          exact ⟨rfl, rfl⟩
  | ifES condition =>
      cases second with
      | ifES condition' =>
          rw [condition] at condition'
          cases condition'
          exact ⟨rfl, rfl⟩

private theorem callStep_functional {f : Expr} {args : List Expr} {σ σ1 σ2 : State}
    {r1 r2 : RuntimeExpr} {locs : List Loc} (chosen1 : chosenLocs r1 = some locs)
    (chosen2 : chosenLocs r2 = some locs) (first : ExprStep (.call f args) σ r1 σ1)
    (second : ExprStep (.call f args) σ r2 σ2) : r1 = r2 ∧ σ1 = σ2 := by
  generalize shape : Expr.call f args = redex at first
  cases first with
  | callFailS => cases chosen1
  | callS callee defined argCount varCount _ _ _ allocVars allocArgs =>
      simp only [Expr.call.injEq] at shape
      obtain ⟨rfl, rfl⟩ := shape
      rw [chosenLocs_callFrame argCount varCount] at chosen1
      generalize shape' : Expr.call _ _ = redex at second
      cases second with
      | callFailS => cases chosen2
      | callS callee' defined' argCount' varCount' _ _ _ allocVars' allocArgs' =>
          simp only [Expr.call.injEq, Expr.val.injEq] at shape'
          obtain ⟨rfl, sameArgs⟩ := shape'
          have sameVals := map_val_inj sameArgs
          subst sameVals
          rw [callee] at callee'
          cases callee'
          rw [defined] at defined'
          cases defined'
          rw [chosenLocs_callFrame argCount' varCount', ← chosen1] at chosen2
          obtain ⟨rfl, rfl⟩ :=
            List.append_inj (Option.some.inj chosen2) (by rw [argCount, argCount'])
          rw [← allocVars.functional allocVars'] at allocArgs'
          rw [allocArgs.functional allocArgs']
          exact ⟨rfl, rfl⟩
      | _ => cases shape'
  | _ => cases shape

private theorem allocStep_functional {ly : Layout} {e : Expr} {σ σ1 σ2 : State}
    {r1 r2 : RuntimeExpr}
    {locs : List Loc} (chosen1 : chosenLocs r1 = some locs) (chosen2 : chosenLocs r2 = some locs)
    (first : ExprStep (.alloc ly e) σ r1 σ1) (second : ExprStep (.alloc ly e) σ r2 σ2) :
    r1 = r2 ∧ σ1 = σ2 := by
  cases first with
  | allocFailS => cases chosen1
  | allocS _ _ block =>
      cases second with
      | allocFailS => cases chosen2
      | allocS _ _ block' =>
          rw [chosenLocs_valOfLoc] at chosen1 chosen2
          cases chosen1
          cases chosen2
          rw [block.functional block']
          exact ⟨rfl, rfl⟩

private theorem stmtStep_functional {s : Stmt} {rf : RuntimeFunction} {σ σ1 σ2 : State}
    {r1 r2 : RuntimeExpr} (first : StmtStep s rf σ r1 σ1) (second : StmtStep s rf σ r2 σ2) :
    r1 = r2 ∧ σ1 = σ2 := by
  cases first with
  | assignS pointer _ cells =>
      cases second with
      | assignS pointer' _ cells' =>
          rw [pointer] at pointer'
          cases pointer'
          rw [heapAt_functional cells cells']
          exact ⟨rfl, rfl⟩
  | ifSS condition =>
      cases second with
      | ifSS condition' =>
          rw [condition] at condition'
          cases condition'
          exact ⟨rfl, rfl⟩
  | switchS value =>
      cases second with
      | switchS value' =>
          rw [value] at value'
          cases value'
          exact ⟨rfl, rfl⟩
  | gotoS block =>
      cases second with
      | gotoS block' =>
          rw [block] at block'
          cases block'
          exact ⟨rfl, rfl⟩
  | returnS deallocate =>
      cases second with
      | returnS deallocate' =>
          rw [deallocate.functional deallocate']
          exact ⟨rfl, rfl⟩
  | freeS pointer _ block =>
      cases second with
      | freeS pointer' _ block' =>
          rw [pointer] at pointer'
          cases pointer'
          rw [block.functional block']
          exact ⟨rfl, rfl⟩
  | skipSS | exprSS =>
      cases second
      exact ⟨rfl, rfl⟩

/-- Two steps of a redex give the same result unless they chose locations
differently. -/
theorem runtimeStep_functional {e r1 r2 : RuntimeExpr} {σ σ1 σ2 : State}
    (chosen : IsCallOrAlloc e → ∃ locs, chosenLocs r1 = some locs ∧ chosenLocs r2 = some locs)
    (first : RuntimeStep e σ r1 σ1) (second : RuntimeStep e σ r2 σ2) :
    r1 = r2 ∧ σ1 = σ2 := by
  cases first with
  | @exprStep source _ _ _ step =>
      have step' := runtimeStep_toRtexpr second
      by_cases chooses : IsCallOrAlloc (toRtexpr source)
      · obtain ⟨locs, chosen1, chosen2⟩ := chosen chooses
        cases source <;> simp [toRtexpr, IsCallOrAlloc] at chooses
        · exact callStep_functional chosen1 chosen2 step step'
        · exact allocStep_functional chosen1 chosen2 step step'
      · exact exprStep_functional chooses step step'
  | stmtStep step => exact stmtStep_functional step (runtimeStep_toRtstmt second)
  | allocFailedStep =>
      generalize same : RuntimeExpr.allocFailed = e at second
      cases second with
      | @exprStep source => cases source <;> simp [toRtexpr] at same
      | @stmtStep source => cases source <;> simp [toRtstmt] at same
      | allocFailedStep => exact ⟨rfl, rfl⟩

/-! ## Threads -/

private theorem primStep_functional {K : List LangEctx} {e t1 t2 : RuntimeExpr} {σ σ1 σ2 : State}
    (redex : cLang.IsRedex e) (other : ¬ IsCallOrAlloc e)
    (first : cLang.PrimStep (cLang.fill K e) σ t1 σ1)
    (second : cLang.PrimStep (cLang.fill K e) σ t2 σ2) : t1 = t2 ∧ σ1 = σ2 := by
  obtain ⟨r1, step1, rfl⟩ := first.headStep redex
  obtain ⟨r2, step2, rfl⟩ := second.headStep redex
  obtain ⟨rfl, sameState⟩ :=
    runtimeStep_functional (fun chooses => absurd chooses other) step1 step2
  exact ⟨rfl, sameState⟩

/-- A single thread is deterministic up to the choice of fresh blocks: its
decomposition is unique, operators are functions, a redex other than `Call` and
`Alloc` has one result, and so has a successful `Call` or `Alloc` once its
locations are chosen. -/
theorem thread_deterministic :
    (∀ K K' e e', cLang.IsRedex e → cLang.IsRedex e' → cLang.fill K e = cLang.fill K' e' →
      K = K' ∧ e = e') ∧
    (∀ op ot1 ot2 σ v1 v2 v v', EvalBinOp op ot1 ot2 σ v1 v2 v →
      EvalBinOp op ot1 ot2 σ v1 v2 v' → v = v') ∧
    (∀ op ot σ v w w', EvalUnOp op ot σ v w → EvalUnOp op ot σ v w' → w = w') ∧
    (∀ K e σ t1 σ1 t2 σ2, cLang.IsRedex e → ¬ IsCallOrAlloc e →
      cLang.PrimStep (cLang.fill K e) σ t1 σ1 → cLang.PrimStep (cLang.fill K e) σ t2 σ2 →
      t1 = t2 ∧ σ1 = σ2) ∧
    (∀ K e σ r1 σ1 r2 σ2 locs, IsCallOrAlloc e → RuntimeStep e σ r1 σ1 →
      RuntimeStep e σ r2 σ2 →
      chosenLocs r1 = some locs → chosenLocs r2 = some locs →
      cLang.fill K r1 = cLang.fill K r2 ∧ σ1 = σ2) := by
  refine ⟨?_, ?_, ?_, ?_, ?_⟩
  · intro K K' e e' redex redex' equal
    exact cLang.fill_redex_unique redex redex' equal
  · intro op ot1 ot2 σ v1 v2 v v' first second
    exact evalBinOp_functional first second
  · intro op ot σ v w w' first second
    exact evalUnOp_functional first second
  · intro K e σ t1 σ1 t2 σ2 redex other first second
    exact primStep_functional redex other first second
  · intro K e σ r1 σ1 r2 σ2 locs _ first second chosen1 chosen2
    obtain ⟨rfl, sameState⟩ :=
      runtimeStep_functional (fun _ => ⟨locs, chosen1, chosen2⟩) first second
    exact ⟨rfl, sameState⟩

end RefinedC.Caesium
