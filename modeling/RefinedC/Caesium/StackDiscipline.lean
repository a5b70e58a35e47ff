import RefinedC.Caesium.AllocHistory

/-!
Stack discipline over whole runs of a thread pool.

Owns: the statement frames that are active in a thread, the correspondence
between alive stack allocations and the locations recorded in active frames, its
preservation by every step of every thread, and the freeing of arguments and
local variables by the `Return` of their own frame.

The correspondence is derived from `runtimeStep_stack` alone, which says once
what a step does to frames and to stack allocations.
-/

namespace RefinedC.Caesium

open RefinedC.Library

/-! ## Active frames -/

mutual

/-- The statement frames of a runtime expression, outermost first. -/
def RuntimeExpr.frames : RuntimeExpr → List RuntimeFunction
  | .expr e => e.frames
  | .stmt rf s => rf :: s.frames
  | .allocFailed => []

def RuntimeExprs.frames : List RuntimeExpr → List RuntimeFunction
  | [] => []
  | e :: es => e.frames ++ RuntimeExprs.frames es

def RtExpr.frames : RtExpr → List RuntimeFunction
  | .var _ | .val _ | .stuckE => []
  | .unOp _ _ e | .alloc _ e | .skipE e | .deref _ _ _ e => e.frames
  | .binOp _ _ _ e1 e2 | .copyAllocId _ e1 e2 => e1.frames ++ e2.frames
  | .cas _ e1 e2 e3 | .ifE _ e1 e2 e3 => e1.frames ++ e2.frames ++ e3.frames
  | .call f args => f.frames ++ RuntimeExprs.frames args
  | .concat es => RuntimeExprs.frames es

def RtStmt.frames : RtStmt → List RuntimeFunction
  | .goto _ | .stuckS | .skipS _ => []
  | .return e | .ifS _ _ e _ _ | .switch _ e _ _ _ | .free _ e _ | .exprS e _ => e.frames
  | .assign _ _ e1 e2 _ => e1.frames ++ e2.frames

end

mutual

@[simp] theorem frames_toRtexpr : ∀ e : Expr, (toRtexpr e).frames = []
  | .var _ | .val _ | .stuckE => rfl
  | .unOp _ _ e | .alloc _ e | .skipE e | .deref _ _ _ e => by
      simp [toRtexpr, RuntimeExpr.frames, RtExpr.frames, frames_toRtexpr e]
  | .binOp _ _ _ e1 e2 | .copyAllocId _ e1 e2 => by
      simp [toRtexpr, RuntimeExpr.frames, RtExpr.frames, frames_toRtexpr e1, frames_toRtexpr e2]
  | .cas _ e1 e2 e3 | .ifE _ e1 e2 e3 => by
      simp [toRtexpr, RuntimeExpr.frames, RtExpr.frames, frames_toRtexpr e1, frames_toRtexpr e2,
        frames_toRtexpr e3]
  | .call f args => by
      simp [toRtexpr, RuntimeExpr.frames, RtExpr.frames, frames_toRtexpr f, frames_toRtexprs args]
  | .concat es => by
      simp [toRtexpr, RuntimeExpr.frames, RtExpr.frames, frames_toRtexprs es]

private theorem frames_toRtexprs : ∀ es : List Expr, RuntimeExprs.frames (toRtexprs es) = []
  | [] => rfl
  | e :: es => by
      simp [toRtexprs, RuntimeExprs.frames, frames_toRtexpr e, frames_toRtexprs es]

end

@[simp] theorem frames_toRtstmt (rf : RuntimeFunction) (s : Stmt) :
    (toRtstmt rf s).frames = [rf] := by
  cases s <;> simp [toRtstmt, RuntimeExpr.frames, RtStmt.frames]

@[simp] theorem frames_ofVal (v : Val) : (ofVal v).frames = [] := rfl

private theorem frames_vals_append (vl : List Val) (es : List RuntimeExpr) :
    RuntimeExprs.frames (vl.map ofVal ++ es) = RuntimeExprs.frames es := by
  induction vl with
  | nil => rfl
  | cons v vl inductionHypothesis =>
      simp [RuntimeExprs.frames, inductionHypothesis]

/-- The frames under a context item are those in its hole and fixed others. -/
theorem frames_fillItem (K : LangEctx) :
    ∃ rest, ∀ e, (langFillItem K e).frames.Perm (e.frames ++ rest) := by
  cases K with
  | exprCtx E =>
      cases E with
      | unOpCtx | derefCtx | allocCtx | skipECtx =>
          exact ⟨[],
            fun e => by simp [langFillItem, exprFillItem, RuntimeExpr.frames, RtExpr.frames]⟩
      | binOpLCtx _ _ _ e2 | copyAllocIdLCtx _ e2 =>
          exact ⟨e2.frames, fun e => .refl _⟩
      | binOpRCtx | copyAllocIdRCtx | casRCtx =>
          exact ⟨[],
            fun e => by simp [langFillItem, exprFillItem, RuntimeExpr.frames, RtExpr.frames]⟩
      | callLCtx args => exact ⟨RuntimeExprs.frames args, fun e => .refl _⟩
      | callRCtx f vl el | concatCtx vl el =>
          refine ⟨RuntimeExprs.frames el, fun e => ?_⟩
          simp [langFillItem, exprFillItem, RuntimeExpr.frames, RtExpr.frames,
            frames_vals_append, RuntimeExprs.frames]
      | casLCtx _ e2 e3 | ifECtx _ e2 e3 =>
          refine ⟨e2.frames ++ e3.frames, fun e => ?_⟩
          simp [langFillItem, exprFillItem, RuntimeExpr.frames, RtExpr.frames]
      | casMCtx _ v1 e3 =>
          refine ⟨e3.frames, fun e => ?_⟩
          simp [langFillItem, exprFillItem, RuntimeExpr.frames, RtExpr.frames]
  | stmtCtx E rf =>
      -- the frame of the statement itself stands before the hole
      refine ⟨[rf], fun e => ?_⟩
      have moved : (rf :: e.frames).Perm (e.frames ++ [rf]) := 
        List.perm_append_singleton rf e.frames |>.symm
      cases E <;> simpa [langFillItem, stmtFillItem, RuntimeExpr.frames, RtStmt.frames] using moved

private theorem frames_fill (K : List LangEctx) :
    ∃ rest, ∀ e, (cLang.fill K e).frames.Perm (e.frames ++ rest) := by
  induction K with
  | nil => exact ⟨[], fun e => by simp [EctxiLanguage.fill]⟩
  | cons item K inductionHypothesis =>
      obtain ⟨inner, innerPerm⟩ := inductionHypothesis
      obtain ⟨outer, outerPerm⟩ := frames_fillItem item
      refine ⟨inner ++ outer, fun e => ?_⟩
      calc (langFillItem item (cLang.fill K e)).frames
        _ |>.Perm ((cLang.fill K e).frames ++ outer) := outerPerm _
        _ |>.Perm ((e.frames ++ inner) ++ outer) := (innerPerm e).append_right outer
        _ |>.Perm (e.frames ++ (inner ++ outer)) := by rw [List.append_assoc]

/-- The locations and layouts recorded in the active frames of all threads. -/
def stackEntries (ts : List RuntimeExpr) : List (Loc × Layout) :=
  (ts.flatMap RuntimeExpr.frames).flatMap RuntimeFunction.rfLocs

/-- A thread that steps in the pool keeps the entries of its context and of the
other threads. -/
theorem stackEntries_set {ts : List RuntimeExpr} {i : Nat} {K : List LangEctx} {e : RuntimeExpr}
    (e' : RuntimeExpr) (found : ts[i]? = some (cLang.fill K e)) :
    ∃ rest, (stackEntries ts).Perm (e.frames.flatMap RuntimeFunction.rfLocs ++ rest) ∧
      (stackEntries (ts.set i (cLang.fill K e'))).Perm
        (e'.frames.flatMap RuntimeFunction.rfLocs ++ rest) := by
  obtain ⟨context, contextPerm⟩ := frames_fill K
  induction ts generalizing i with
  | nil => simp at found
  | cons t ts inductionHypothesis =>
      cases i with
      | zero =>
          simp only [List.getElem?_cons_zero, Option.some.injEq] at found
          subst found
          refine ⟨context.flatMap RuntimeFunction.rfLocs ++ stackEntries ts, ?_, ?_⟩
          · simpa [stackEntries, List.flatMap_append] using
              ((contextPerm e).flatMap_right RuntimeFunction.rfLocs).append_right (stackEntries ts)
          · simpa [stackEntries, List.flatMap_append] using
              ((contextPerm e').flatMap_right RuntimeFunction.rfLocs).append_right (stackEntries ts)
      | succ i =>
          obtain ⟨rest, before, after⟩ := inductionHypothesis (by simpa using found)
          have head (entries : List (Loc × Layout)) (others : List RuntimeExpr)
              (perm : (stackEntries others).Perm (entries ++ rest)) :
              (stackEntries (t :: others)).Perm
                (entries ++ (t.frames.flatMap RuntimeFunction.rfLocs ++ rest)) := by
            calc stackEntries (t :: others)
              _ = t.frames.flatMap RuntimeFunction.rfLocs ++ stackEntries others := by
                  simp [stackEntries, List.flatMap_append]
              _ |>.Perm (t.frames.flatMap RuntimeFunction.rfLocs ++ (entries ++ rest)) :=
                  perm.append_left _
              _ |>.Perm (entries ++ (t.frames.flatMap RuntimeFunction.rfLocs ++ rest)) :=
                  List.perm_append_comm_assoc _ _ _
          exact ⟨_, head _ _ before, head _ _ after⟩

/-! ## Alive stack allocations -/

/-- Allocation `aid` is alive and on the stack. -/
def StackAlive (st : HeapState) (aid : AllocId) : Prop :=
  ∃ al, st.hsAllocs aid = some al ∧ al.alAlive = true ∧ al.alKind = .stackAlloc

/-- The alive stack allocations are those of the given entries, one for each. -/
structure StackOwned (entries : List (Loc × Layout)) (st : HeapState) : Prop where
  entry : ∀ entry ∈ entries, ∃ aid, entry.1.1 = .provAlloc (some aid) ∧
    st.hsAllocs aid = some ⟨entry.1.2, entry.2.lySize, true, .stackAlloc⟩
  covered : ∀ aid, StackAlive st aid → ∃ entry ∈ entries, entry.1.1 = .provAlloc (some aid)
  once : (entries.map (fun entry => entry.1.1)).Nodup

theorem StackOwned.perm {entries entries' : List (Loc × Layout)} {st : HeapState}
    (owned : StackOwned entries st) (perm : entries.Perm entries') : StackOwned entries' st where
  entry := fun entry member => owned.entry entry (perm.mem_iff.mpr member)
  covered := by
    intro aid alive
    obtain ⟨entry, member, provenance⟩ := owned.covered aid alive
    exact ⟨entry, perm.mem_iff.mp member, provenance⟩
  once := (perm.map _).nodup_iff.mp owned.once

/-- The same stack allocations are alive in both states. -/
def SameStack (st st' : HeapState) : Prop :=
  ∀ aid al, al.alAlive = true → al.alKind = .stackAlloc →
    (st.hsAllocs aid = some al ↔ st'.hsAllocs aid = some al)

private theorem SameStack.stackAlive {st st' : HeapState}
    (same : SameStack st st') (aid : AllocId) :
    StackAlive st aid ↔ StackAlive st' aid := by
  constructor
  · rintro ⟨al, found, alive, kind⟩
    exact ⟨al, (same aid al alive kind).mp found, alive, kind⟩
  · rintro ⟨al, found, alive, kind⟩
    exact ⟨al, (same aid al alive kind).mpr found, alive, kind⟩

theorem StackOwned.same {entries : List (Loc × Layout)} {st st' : HeapState}
    (owned : StackOwned entries st) (same : SameStack st st') : StackOwned entries st' where
  entry := by
    intro entry member
    obtain ⟨aid, provenance, found⟩ := owned.entry entry member
    exact ⟨aid, provenance, (same aid _ rfl rfl).mp found⟩
  covered := fun aid alive => owned.covered aid ((same.stackAlive aid).mpr alive)
  once := owned.once

private theorem AllocNewBlock.sameStack {st st' : HeapState} {l : Loc} {v : Val}
    (block : AllocNewBlock st .heapAlloc l v st') : SameStack st st' := by
  obtain ⟨aid, _, fresh, _, allocs, _⟩ := block.cases
  intro id al alive kind
  by_cases same : id = aid
  · subst same
    rw [allocs, PartialMap.insert_same, fresh]
    simp only [reduceCtorEq, false_iff, Option.some.injEq]
    rintro rfl
    simp at kind
  · rw [allocs, PartialMap.insert_other same]

private theorem FreeBlock.sameStack {st st' : HeapState} {l : Loc} {ly : Layout}
    (block : FreeBlock st .heapAlloc l ly st') : SameStack st st' := by
  obtain ⟨aid, _, found, allocs, _⟩ := block.cases
  intro id al alive kind
  by_cases same : id = aid
  · subst same
    rw [allocs, PartialMap.insert_same, found]
    constructor
    · intro equal
      cases equal
      simp at kind
    · intro equal
      cases equal
      simp at alive
  · rw [allocs, PartialMap.insert_other same]

theorem StackOwned.alloc {entries : List (Loc × Layout)} {st st' : HeapState} {l : Loc} {v : Val}
    {ly : Layout} (owned : StackOwned entries st) (block : AllocNewBlock st .stackAlloc l v st')
    (layout : hasLayoutVal v ly) : StackOwned ((l, ly) :: entries) st' := by
  obtain ⟨aid, provenance, fresh, _, allocs, _⟩ := block.cases
  have newEntry : st'.hsAllocs aid = some ⟨l.2, ly.lySize, true, .stackAlloc⟩ := by
    rw [allocs, PartialMap.insert_same, layout]
  -- the entries that are there already have other identifiers
  have others : ∀ entry ∈ entries, ∃ id, id ≠ aid ∧ entry.1.1 = .provAlloc (some id) ∧
      st.hsAllocs id = some ⟨entry.1.2, entry.2.lySize, true, .stackAlloc⟩ := by
    intro entry member
    obtain ⟨id, entryProv, found⟩ := owned.entry entry member
    refine ⟨id, ?_, entryProv, found⟩
    rintro rfl
    rw [fresh] at found
    cases found
  refine ⟨?_, ?_, ?_⟩
  · intro entry member
    rcases List.mem_cons.mp member with rfl | member
    · exact ⟨aid, provenance, newEntry⟩
    · obtain ⟨id, different, entryProv, found⟩ := others entry member
      exact ⟨id, entryProv, by rw [allocs, PartialMap.insert_other different, found]⟩
  · rintro id ⟨al, found, alive, kind⟩
    by_cases same : id = aid
    · subst same
      exact ⟨(l, ly), List.mem_cons_self, provenance⟩
    · rw [allocs, PartialMap.insert_other same] at found
      obtain ⟨entry, member, entryProv⟩ := owned.covered id ⟨al, found, alive, kind⟩
      exact ⟨entry, List.mem_cons_of_mem _ member, entryProv⟩
  · rw [List.map_cons, List.nodup_cons]
    refine ⟨?_, owned.once⟩
    intro member
    obtain ⟨entry, member, same⟩ := List.mem_map.mp member
    obtain ⟨id, different, entryProv, _⟩ := others entry member
    rw [entryProv, provenance] at same
    cases same
    exact different rfl

theorem StackOwned.allocs {st st' : HeapState} {ls : List Loc} {vs : List Val}
    {lys : List Layout} {kind : AllocKind} (blocks : AllocNewBlocks st kind ls vs st')
    (isStack : kind = .stackAlloc) (layouts : List.Forall₂ hasLayoutVal vs lys)
    {entries : List (Loc × Layout)} (owned : StackOwned entries st) :
    StackOwned (ls.zip lys ++ entries) st' := by
  induction blocks generalizing lys entries with
  | nil => exact owned
  | cons first rest inductionHypothesis =>
      subst isStack
      cases layouts with
      | cons layout layouts =>
          exact (inductionHypothesis rfl layouts (owned.alloc first layout)).perm
            List.perm_middle

theorem StackOwned.free {entries : List (Loc × Layout)} {st st' : HeapState} {l : Loc}
    {ly : Layout} (owned : StackOwned ((l, ly) :: entries) st)
    (block : FreeBlock st .stackAlloc l ly st') : StackOwned entries st' := by
  obtain ⟨aid, provenance, _, allocs, _⟩ := block.cases
  obtain ⟨notHere, once⟩ := List.nodup_cons.mp owned.once
  refine ⟨?_, ?_, once⟩
  · intro entry member
    obtain ⟨id, entryProv, found⟩ := owned.entry entry (List.mem_cons_of_mem _ member)
    have different : id ≠ aid := by
      rintro rfl
      exact notHere (List.mem_map.mpr ⟨entry, member, entryProv.trans provenance.symm⟩)
    exact ⟨id, entryProv, by rw [allocs, PartialMap.insert_other different, found]⟩
  · rintro id ⟨al, found, alive, kind⟩
    by_cases same : id = aid
    · subst same
      rw [allocs, PartialMap.insert_same] at found
      cases found
      simp at alive
    · rw [allocs, PartialMap.insert_other same] at found
      obtain ⟨entry, member, entryProv⟩ := owned.covered id ⟨al, found, alive, kind⟩
      rcases List.mem_cons.mp member with rfl | member
      · rw [provenance] at entryProv
        cases entryProv
        exact absurd rfl same
      · exact ⟨entry, member, entryProv⟩

private theorem StackOwned.frees {st st' : HeapState} {ls : List (Loc × Layout)} {kind : AllocKind}
    (blocks : FreeBlocks st kind ls st') (isStack : kind = .stackAlloc)
    {entries : List (Loc × Layout)} (owned : StackOwned (ls ++ entries) st) :
    StackOwned entries st' := by
  induction blocks with
  | nil => exact owned
  | cons first _ inductionHypothesis =>
      subst isStack
      exact inductionHypothesis rfl (owned.free first)

/-! ## Steps -/

/-- What a head step does to frames and to stack allocations. -/
inductive StackEffect : RuntimeExpr → HeapState → RuntimeExpr → HeapState → Prop where
  | neutral {e e' : RuntimeExpr} {st st' : HeapState} (frames : e'.frames = e.frames)
      (stack : SameStack st st') : StackEffect e st e' st'
  | enter {e e' : RuntimeExpr} {st stVars st' : HeapState} {rf : RuntimeFunction}
      {lsa lsv : List Loc} {vsa vsv : List Val} {lysa lysv : List Layout}
      (before : e.frames = []) (after : e'.frames = [rf])
      (locs : rf.rfLocs = lsa.zip lysa ++ lsv.zip lysv)
      (allocVars : AllocNewBlocks st .stackAlloc lsv vsv stVars)
      (varLayouts : List.Forall₂ hasLayoutVal vsv lysv)
      (allocArgs : AllocNewBlocks stVars .stackAlloc lsa vsa st')
      (argLayouts : List.Forall₂ hasLayoutVal vsa lysa) : StackEffect e st e' st'
  | leave {st st' : HeapState} {rf : RuntimeFunction} {v : Val}
      (deallocate : FreeBlocks st .stackAlloc rf.rfLocs st') :
      StackEffect (toRtstmt rf (.return (.val v))) st (toRtexpr (.val v)) st'

theorem SameStack.refl (st : HeapState) : SameStack st st := fun _ _ _ _ => .rfl

private theorem poisonVars_layout (vars : List (VarName × Layout)) :
    List.Forall₂ hasLayoutVal (vars.map (fun p => List.replicate p.2.lySize .mPoison))
      (vars.map Prod.snd) := by
  induction vars with
  | nil => exact .nil
  | cons x vars inductionHypothesis => exact .cons List.length_replicate inductionHypothesis

private theorem exprStep_stack {e : Expr} {σ σ' : State} {e' : RuntimeExpr}
    (step : ExprStep e σ e' σ') :
    StackEffect (toRtexpr e) σ.stHeap e' σ'.stHeap := by
  cases step with
  | skipES | unOpS | binOpS | concatS | copyAllocIdS | ifES | derefS | casFailS | casSucS =>
      exact .neutral (by simp) (.refl _)
  | callFailS | allocFailS => exact .neutral (by simp [RuntimeExpr.frames]) (.refl _)
  | callS _ _ _ _ argLayouts _ _ allocVars allocArgs =>
      exact .enter (by simp) (frames_toRtstmt _ _) rfl allocVars (poisonVars_layout _) allocArgs
        argLayouts
  | allocS _ _ block => exact .neutral (by simp) block.sameStack

private theorem stmtStep_stack {s : Stmt} {rf : RuntimeFunction} {σ σ' : State} {e' : RuntimeExpr}
    (step : StmtStep s rf σ e' σ') : StackEffect (toRtstmt rf s) σ.stHeap e' σ'.stHeap := by
  cases step with
  | assignS | ifSS | switchS | gotoS | skipSS | exprSS => exact .neutral (by simp) (.refl _)
  | returnS deallocate => exact .leave deallocate
  | freeS _ _ block => exact .neutral (by simp) block.sameStack

private theorem runtimeStep_stack {e e' : RuntimeExpr} {σ σ' : State}
    (step : RuntimeStep e σ e' σ') :
    StackEffect e σ.stHeap e' σ'.stHeap := by
  cases step with
  | exprStep step => exact exprStep_stack step
  | stmtStep step => exact stmtStep_stack step
  | allocFailedStep => exact .neutral rfl (.refl _)

theorem StackEffect.owned {e e' : RuntimeExpr} {st st' : HeapState}
    (effect : StackEffect e st e' st') {rest : List (Loc × Layout)}
    (owned : StackOwned (e.frames.flatMap RuntimeFunction.rfLocs ++ rest) st) :
    StackOwned (e'.frames.flatMap RuntimeFunction.rfLocs ++ rest) st' := by
  cases effect with
  | neutral frames stack =>
      rw [frames]
      exact owned.same stack
  | enter before after locs allocVars varLayouts allocArgs argLayouts =>
      rw [before] at owned
      have allocated := StackOwned.allocs allocArgs rfl argLayouts
        (StackOwned.allocs allocVars rfl varLayouts owned)
      simpa [after, locs, List.append_assoc] using allocated
  | leave deallocate =>
      have released := StackOwned.frees deallocate rfl (by simpa using owned)
      simpa using released

/-! ## The discipline along runs -/

/-- The step is the `Return` of the frame `rf` of one of the threads. -/
def ReturnsFrame (c c' : EctxiLanguage.Config RuntimeExpr State) (rf : RuntimeFunction) : Prop :=
  ∃ i K v, c.1[i]? = some (cLang.fill K (toRtstmt rf (.return (.val v)))) ∧
    c'.1 = c.1.set i (cLang.fill K (toRtexpr (.val v))) ∧
    FreeBlocks c.2.stHeap .stackAlloc rf.rfLocs c'.2.stHeap

private theorem poolStep_stackOwned {c c' : EctxiLanguage.Config RuntimeExpr State}
    (owned : StackOwned (stackEntries c.1) c.2.stHeap) (step : cLang.PoolStep c c') :
    StackOwned (stackEntries c'.1) c'.2.stHeap := by
  obtain ⟨i, t, t', found, ⟨K, step⟩, threads⟩ := step
  rename_i e e'
  obtain ⟨rest, before, after⟩ := stackEntries_set e' found
  rw [threads]
  exact ((runtimeStep_stack step).owned (owned.perm before)).perm after.symm

private theorem AllocNewBlocks.stackAlive {st st' : HeapState} {kind : AllocKind} {ls : List Loc}
    {vs : List Val} (blocks : AllocNewBlocks st kind ls vs st') {aid : AllocId}
    (alive : StackAlive st aid) : StackAlive st' aid := by
  induction blocks with
  | nil => exact alive
  | cons first _ inductionHypothesis =>
      apply inductionHypothesis
      obtain ⟨al, found, isAlive, kind⟩ := alive
      obtain ⟨new, provenance, fresh, _, allocs, _⟩ := first.cases
      have different : aid ≠ new := by
        rintro rfl
        rw [fresh] at found
        cases found
      exact ⟨al, by rw [allocs, PartialMap.insert_other different, found], isAlive, kind⟩

/-- A stack allocation survives every step but the `Return` of its own frame. -/
theorem poolStep_stackAlive {c c' : EctxiLanguage.Config RuntimeExpr State}
    (owned : StackOwned (stackEntries c.1) c.2.stHeap) (step : cLang.PoolStep c c') {aid : AllocId}
    (alive : StackAlive c.2.stHeap aid) :
    StackAlive c'.2.stHeap aid ∨ ∃ rf, ReturnsFrame c c' rf ∧
      ∃ entry ∈ rf.rfLocs, entry.1.1 = .provAlloc (some aid) := by
  obtain ⟨i, t, t', found, ⟨K, step⟩, threads⟩ := step
  rename_i e e'
  obtain ⟨rest, before, after⟩ := stackEntries_set e' found
  cases runtimeStep_stack step with
  | neutral _ stack => exact .inl ((stack.stackAlive aid).mp alive)
  | enter _ _ _ allocVars _ allocArgs _ =>
      exact .inl (allocArgs.stackAlive (allocVars.stackAlive alive))
  | @leave _ _ rf v deallocate =>
      have split := owned.perm before
      obtain ⟨entry, member, provenance⟩ := split.covered aid alive
      rcases List.mem_append.mp member with inFrame | inRest
      · exact .inr ⟨rf, ⟨i, K, v, found, threads, deallocate⟩, entry, by simpa using inFrame,
          provenance⟩
      · -- an entry of another frame is still recorded after the step
        have released : StackOwned rest c'.2.stHeap :=
          StackOwned.frees deallocate rfl (by simpa using split)
        obtain ⟨id, entryProv, kept⟩ := released.entry entry inRest
        rw [provenance] at entryProv
        cases entryProv
        exact .inl ⟨_, kept, rfl, rfl⟩

private theorem AllocsEvolve.not_stackAlive {st st' : HeapState} (evolve : AllocsEvolve st st')
    {aid : AllocId} {al : Allocation} (found : st.hsAllocs aid = some al)
    (dead : al.alAlive = false) : ¬ StackAlive st' aid := by
  rintro ⟨al', found', alive, _⟩
  obtain ⟨later, foundLater, evolves⟩ := evolve aid al found
  rw [foundLater] at found'
  cases found'
  rw [evolves.dead dead] at alive
  cases alive

/-- What stopped to be alive stays dead. -/
theorem AllocsEvolve.stays_freed {st st' st'' : HeapState} {aid : AllocId}
    (alive : StackAlive st aid) (freed : ¬ StackAlive st' aid) (first : AllocsEvolve st st')
    (second : AllocsEvolve st' st'') : ¬ StackAlive st'' aid := by
  obtain ⟨al, found, _, kind⟩ := alive
  obtain ⟨al', found', evolves⟩ := first aid al found
  refine second.not_stackAlive found' ?_
  cases isAlive : al'.alAlive with
  | false => rfl
  | true => exact absurd ⟨al', found', isAlive, evolves.kind.trans kind⟩ freed

/-- A `Return` frees everything that its frame records. -/
theorem FreeBlocks.not_stackAlive {st st' : HeapState} {ls : List (Loc × Layout)}
    {kind : AllocKind} (blocks : FreeBlocks st kind ls st') (notGlobal : kind ≠ .globalAlloc)
    {entry : Loc × Layout} {aid : AllocId} (member : entry ∈ ls)
    (provenance : entry.1.1 = .provAlloc (some aid)) : ¬ StackAlive st' aid := by
  induction blocks with
  | nil => cases member
  | cons first rest inductionHypothesis =>
      rcases List.mem_cons.mp member with rfl | member
      · obtain ⟨freed, firstProv, _, allocs, _⟩ := first.cases
        rw [provenance] at firstProv
        cases firstProv
        have found := congrFun allocs aid
        rw [PartialMap.insert_same] at found
        exact (rest.events notGlobal).allocsEvolve.not_stackAlive found rfl
      · exact inductionHypothesis notGlobal member

private theorem free_isRedex (rf : RuntimeFunction) (ly : Layout) (v : Val) (s : Stmt) :
    cLang.IsRedex (toRtstmt rf (.free ly (.val v) s)) := by
  refine ⟨rfl, ?_⟩
  intro item inner shape
  change toRtstmt rf (.free ly (.val v) s) = langFillItem item inner at shape
  cases item with
  | exprCtx E => cases E <;> simp [toRtstmt, langFillItem] at shape
  | stmtCtx E rf' =>
      cases E <;> simp only [toRtstmt, langFillItem, stmtFillItem, RuntimeExpr.stmt.injEq,
        RtStmt.free.injEq, reduceCtorEq, and_false] at shape
      rw [← shape.2.2.1]
      rfl

private theorem freeStep_sameStack {rf : RuntimeFunction} {ly : Layout} {v : Val} {s : Stmt}
    {σ σ' : State} {e' : RuntimeExpr}
    (step : RuntimeStep (toRtstmt rf (.free ly (.val v) s)) σ e' σ') :
    SameStack σ.stHeap σ'.stHeap := by
  cases runtimeStep_toRtstmt step with
  | freeS _ _ block => exact block.sameStack

/-- In every reachable configuration the alive stack allocations are those
recorded in active frames, in one entry each and with the recorded size. A step
that ends one of them is the `Return` of its own frame, the last word on it;
`Return` frees all entries of its frame, and `Free` none of any. -/
theorem stack_discipline {c c' : EctxiLanguage.Config RuntimeExpr State}
    (noFrames : ∀ t ∈ c.1, t.frames = []) (noStack : ∀ aid, ¬ StackAlive c.2.stHeap aid)
    (run : cLang.PoolSteps c c') :
    (∀ aid, StackAlive c'.2.stHeap aid ↔
        ∃ entry ∈ stackEntries c'.1, entry.1.1 = .provAlloc (some aid)) ∧
      ((stackEntries c'.1).map (fun entry => entry.1.1)).Nodup ∧
      (∀ entry ∈ stackEntries c'.1, ∃ aid al, entry.1.1 = .provAlloc (some aid) ∧
        c'.2.stHeap.hsAllocs aid = some al ∧ al.alLen = entry.2.lySize) ∧
      (∀ c'' aid, cLang.PoolStep c' c'' → StackAlive c'.2.stHeap aid →
        StackAlive c''.2.stHeap aid ∨
          ∃ rf, ReturnsFrame c' c'' rf ∧
            (∃ entry ∈ rf.rfLocs, entry.1.1 = .provAlloc (some aid)) ∧
            ∀ c3, cLang.PoolSteps c'' c3 → ¬ StackAlive c3.2.stHeap aid) ∧
      (∀ c'' rf, ReturnsFrame c' c'' rf → ∀ entry ∈ rf.rfLocs, ∀ aid,
        entry.1.1 = .provAlloc (some aid) → ¬ StackAlive c''.2.stHeap aid) ∧
      (∀ c'' i K rf ly v s, c'.1[i]? = some (cLang.fill K (toRtstmt rf (.free ly (.val v) s))) →
        cLang.PoolStepBy i c' c'' → ∀ aid,
          StackAlive c'.2.stHeap aid → StackAlive c''.2.stHeap aid) := by
  have initial : StackOwned (stackEntries c.1) c.2.stHeap := by
    have empty : stackEntries c.1 = [] := by
      simp only [stackEntries, List.flatMap_eq_nil_iff, List.mem_flatMap]
      rintro rf ⟨t, member, inFrames⟩
      rw [noFrames t member] at inFrames
      cases inFrames
    rw [empty]
    exact ⟨by simp, fun aid alive => absurd alive (noStack aid), .nil⟩
  have owned : StackOwned (stackEntries c'.1) c'.2.stHeap :=
    cLang.invariant_of_poolSteps poolStep_stackOwned initial run
  refine ⟨?_, owned.once, ?_, ?_, ?_, ?_⟩
  · intro aid
    refine ⟨owned.covered aid, ?_⟩
    rintro ⟨entry, member, provenance⟩
    obtain ⟨id, entryProv, found⟩ := owned.entry entry member
    rw [provenance] at entryProv
    cases entryProv
    exact ⟨_, found, rfl, rfl⟩
  · intro entry member
    obtain ⟨aid, provenance, found⟩ := owned.entry entry member
    exact ⟨aid, _, provenance, found, rfl⟩
  · intro c'' aid step alive
    by_cases still : StackAlive c''.2.stHeap aid
    · exact .inl still
    · rcases poolStep_stackAlive owned step alive with kept | ⟨rf, returns, recorded⟩
      · exact absurd kept still
      · exact .inr ⟨rf, returns, recorded, fun c3 later =>
          AllocsEvolve.stays_freed alive still (poolStep_allocsEvolve step)
            (poolSteps_allocsEvolve later)⟩
  · rintro c'' rf ⟨_, _, _, _, _, deallocate⟩ entry member aid provenance
    exact deallocate.not_stackAlive (by decide) member provenance
  · intro c'' i K rf ly v s found step aid alive
    obtain ⟨e', head, _⟩ := step.headStep (free_isRedex rf ly v s) found
    exact ((freeStep_sameStack head).stackAlive aid).mp alive

theorem stack_discipline_afterCall :
    stackEntries afterCall.1 = [(argLoc, u8.itLayout), (varLoc, u8.itLayout)] ∧
      (∀ aid, StackAlive argAllocated aid ↔
        ∃ entry ∈ [(argLoc, u8.itLayout), (varLoc, u8.itLayout)],
          entry.1.1 = .provAlloc (some aid)) := by
  have noFrames : ∀ t ∈ beforeCall.1, t.frames = [] := by
    intro t member
    rw [List.mem_singleton.mp member]
    exact frames_toRtexpr _
  have noStack : ∀ aid, ¬ StackAlive beforeCall.2.stHeap aid := by
    rintro aid ⟨al, found, _, kind⟩
    change PartialMap.insert 1 _ PartialMap.empty aid = some al at found
    by_cases isGlobal : aid = 1
    · subst isGlobal
      cases found
      cases kind
    · rw [PartialMap.insert_other isGlobal] at found
      cases found
  exact ⟨rfl, (stack_discipline noFrames noStack (.single afterCall_step)).1⟩

end RefinedC.Caesium
