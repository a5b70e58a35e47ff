import RefinedC.Frontend.CheckCommand
import RefinedC.Frontend.PpStruct

/-!
Statements of the generated typing proofs.

Source: `pp_proof` of `frontend/coq_pp.ml`, `is_inlined` and `get_context_items` of
`frontend/coq_ast.ml`, and `List.dedup` of `frontend/extra.ml`.

Owns: the parts of the printed lemma that mention globals and functions, and when the
lemma is closed under inlining.

Does not own: the imports, the context and the proof script. The printed types of
globals are left out: a hypothesis on an initialized global only mentions the name of
the global as a string.
-/

namespace RefinedC.Frontend

open Library

/-! ## Functions with their dependencies -/

/-- A function definition as far as its lemma needs it. The dependencies are the globals and
the functions that it uses. -/
structure FuncWithDeps where
  name : String
  annot : Option FunctionAnnot
  args : List (String × Coq.Layout)
  deps : List String × List String

inductive FuncWithDepsOrDecl where
  | fDef (fn : FuncWithDeps)
  | fDec (annot : Option FunctionAnnot)

structure ProofAst where
  globalVars : List (String × Option GlobalAnnot)
  functions : List (String × FuncWithDepsOrDecl)

/-- The definition of a function that is inlined. -/
def inlinedDef (ast : ProofAst) (f : String) : Option FuncWithDeps :=
  match ast.functions.lookup f with
  | some (.fDef fn) => if isInlined fn.annot then some fn else none
  | _ => none

def getContextItems : FuncWithDepsOrDecl → List String
  | .fDef fn =>
      match fn.annot with
      | none => []
      | some annot => annot.context.map Prod.fst
  | .fDec annot =>
      match annot with
      | none => []
      | some annot => annot.context.map Prod.fst

/-! ## Printed lemmas -/

/-- The identifier of the location of a global or a function. -/
def globalId (x : String) : String := "global_" ++ x

/-- An implementation applied to its dependencies. -/
structure PrintedImpl where
  name : String
  args : List String

inductive FunctionPtr where
  | inlined (impl : PrintedImpl)
  | function (typeOf : String) (insts : List String)

inductive PrintedHyp where
  | globalLocs (name id : String)
  | globalType (name : String) (annot : GlobalAnnot)
  | dep (id : String) (ptr : FunctionPtr)

structure PrintedLemma where
  name : String
  binders : List String
  context : List (String × String)
  hyps : List PrintedHyp
  turnstile : Bool
  impl : PrintedImpl
  typeOf : String
  typeArgs : List String

/-- The elements that are not seen yet, each one once. -/
def dedup : List String → List String → List String
  | _, [] => []
  | elts, x :: l => if x ∈ elts then dedup elts l else x :: dedup (x :: elts) l

def mergeDeps (d1 d2 : List String × List String) : List String × List String :=
  (dedup [] (d1.1 ++ d2.1), dedup [] (d1.2 ++ d2.2))

/-- The globals and functions of the lemma. -/
def usedDeps (ast : ProofAst) (fn : FuncWithDeps) : List String × List String :=
  fn.deps.2.foldl (fun acc f =>
    match inlinedDef ast f with
    | some callee => mergeDeps acc callee.deps
    | none => acc) fn.deps

def ppImpl (fn : FuncWithDeps) : PrintedImpl :=
  ⟨"impl_" ++ fn.name, fn.deps.1.map globalId ++ fn.deps.2.map globalId⟩

def ppGlobal (f : String) : PrintedHyp := .globalLocs f (globalId f)

def ppGlobalType (ast : ProofAst) (f : String) : Option PrintedHyp :=
  match ast.globalVars.lookup f with
  | some (some annot) => some (.globalType f annot)
  | _ => none

/-- What the context parameters of the function `f` are in the lemma of `fn`. -/
def contextInstantiations (ast : ProofAst) (fn : FuncWithDeps) (annot : FunctionAnnot)
    (f : String) : Result (List CoqExpr) :=
  if f = fn.name then .ok (annot.context.map fun x => .ident x.1)
  else
    match ast.functions.lookup f with
    | some d =>
        match (getContextItems d).mapM fun x => annot.instantiations.lookup x with
        | none => panicNoPos ("Context instantiation unsuccessful for function [" ++ fn.name ++
            "].")
        | some insts => .ok insts
    | none => .ok []

def ppDep (ast : ProofAst) (fn : FuncWithDeps) (annot : FunctionAnnot) (f : String) :
    Result PrintedHyp := do
  let insts ← contextInstantiations ast fn annot f
  match inlinedDef ast f with
  | some callee => .ok (.dep (globalId f) (.inlined (ppImpl callee)))
  | none =>
      let insts ← insts.mapM (ppSimpleCoqExpr true)
      .ok (.dep (globalId f) (.function ("type_of_" ++ f) insts))

/-- The lemma of a function, or nothing where only a comment is printed. -/
def ppProof (ast : ProofAst) (kind : ProofKind) (fn : FuncWithDeps) :
    Result (Option PrintedLemma) :=
  match kind with
  | .trusted | .skipped => .ok none
  | _ =>
      match fn.annot with
      | none => .error .assertFalse
      | some annot =>
          if fn.args.length ≠ annot.args.length then
            panicNoPos "Argument number missmatch between code and spec."
          else do
            let used := usedDeps ast fn
            let context ← annot.context.mapM fun (x, e) => do
              .ok (x, ← ppSimpleCoqExpr true e)
            let deps ← used.2.mapM (ppDep ast fn annot)
            .ok (some {
              name := "type_" ++ fn.name
              binders := (used.1 ++ used.2).map globalId
              context := context
              hyps := used.1.map ppGlobal ++ used.1.filterMap (ppGlobalType ast) ++ deps
              turnstile := used.2.isEmpty
              impl := ppImpl fn
              typeOf := "type_of_" ++ fn.name
              typeArgs := annot.context.map Prod.fst })

/-! ## Closed lemmas -/

/-- The identifiers of locations in a hypothesis. -/
def PrintedHyp.globalIds : PrintedHyp → List String
  | .globalLocs _ id => [id]
  | .globalType _ _ => []
  | .dep id (.inlined impl) => id :: impl.args
  | .dep id (.function _ _) => [id]

def PrintedLemma.globalIds (stmt : PrintedLemma) : List String :=
  stmt.hyps.flatMap PrintedHyp.globalIds ++ stmt.impl.args

/-- The function `g` can be called by `fn` through a chain of inlined functions. -/
inductive CalledThrough (ast : ProofAst) (fn : FuncWithDeps) : String → Prop where
  | direct {g} : g ∈ fn.deps.2 → CalledThrough ast fn g
  | inlined {f g callee} : CalledThrough ast fn f → inlinedDef ast f = some callee →
      g ∈ callee.deps.2 → CalledThrough ast fn g

/-- What is known about the location of a function. -/
def PtrOf (ast : ProofAst) (f : String) (ptr : FunctionPtr) : Prop :=
  match inlinedDef ast f with
  | some callee => ptr = .inlined (ppImpl callee)
  | none => ∃ insts, ptr = .function ("type_of_" ++ f) insts

/-- Every location is bound, and every function that can be called has its hypothesis. -/
structure ClosedUnderInlining (ast : ProofAst) (fn : FuncWithDeps) (stmt : PrintedLemma) :
    Prop where
  bound : ∀ id ∈ stmt.globalIds, id ∈ stmt.binders
  called : ∀ g, CalledThrough ast fn g → ∃ ptr, PtrOf ast g ptr ∧
      .dep (globalId g) ptr ∈ stmt.hyps

/-- The function or one that it calls and that is inlined depends on the name. -/
def NearDep (ast : ProofAst) (fn : FuncWithDeps) (part : List String × List String → List String)
    (x : String) : Prop :=
  x ∈ part fn.deps ∨ ∃ f ∈ fn.deps.2, ∃ callee, inlinedDef ast f = some callee ∧
    x ∈ part callee.deps

/-- A function that is inlined in a function that is inlined adds no dependencies. -/
def InlinedTwiceAddsNothing (ast : ProofAst) (fn : FuncWithDeps) : Prop :=
  ∀ f ∈ fn.deps.2, ∀ callee, inlinedDef ast f = some callee →
    ∀ g ∈ callee.deps.2, ∀ callee', inlinedDef ast g = some callee' →
      (∀ x ∈ callee'.deps.1, NearDep ast fn Prod.fst x ∨ NearDep ast fn Prod.snd x) ∧
        ∀ x ∈ callee'.deps.2, NearDep ast fn Prod.snd x

/-! ## Used dependencies -/

theorem mem_dedup {elts l : List String} {x : String} :
    x ∈ dedup elts l ↔ x ∈ l ∧ x ∉ elts := by
  induction l generalizing elts with
  | nil => simp [dedup]
  | cons y l inductionHypothesis =>
      unfold dedup
      split
      next seen =>
        rw [inductionHypothesis, List.mem_cons]
        refine and_congr_left fun notSeen => (or_iff_right ?_).symm
        rintro rfl
        exact notSeen seen
      next new =>
        rw [List.mem_cons, List.mem_cons, inductionHypothesis, List.mem_cons, not_or]
        by_cases same : x = y
        · simp [same, new]
        · simp [same]

section

variable {ast : ProofAst} {fn : FuncWithDeps}

private theorem mem_foldl_deps {part : List String × List String → List String} {x : String}
    (merges : ∀ d1 d2, x ∈ part (mergeDeps d1 d2) ↔ x ∈ part d1 ∨ x ∈ part d2)
    (fs : List String) (acc : List String × List String) :
    x ∈ part (fs.foldl (fun acc f =>
      match inlinedDef ast f with
      | some callee => mergeDeps acc callee.deps
      | none => acc) acc) ↔
      x ∈ part acc ∨ ∃ f ∈ fs, ∃ callee, inlinedDef ast f = some callee ∧
        x ∈ part callee.deps := by
  induction fs generalizing acc with
  | nil => simp
  | cons f fs inductionHypothesis =>
      rw [List.foldl_cons, inductionHypothesis]
      cases inlined : inlinedDef ast f with
      | none => simp [inlined]
      | some callee => simp [inlined, merges, or_assoc]

private theorem mem_usedDeps_fst {x : String} :
    x ∈ (usedDeps ast fn).1 ↔ NearDep ast fn Prod.fst x :=
  mem_foldl_deps (by simp [mergeDeps, mem_dedup]) _ _

private theorem mem_usedDeps_snd {x : String} :
    x ∈ (usedDeps ast fn).2 ↔ NearDep ast fn Prod.snd x :=
  mem_foldl_deps (by simp [mergeDeps, mem_dedup]) _ _

/-! ## Identifiers of the lemma -/

private theorem globalId_injective : Function.Injective globalId := fun x y same => by
  simpa [globalId] using same

private theorem mem_map_globalId {xs : List String} {x : String} :
    globalId x ∈ xs.map globalId ↔ x ∈ xs :=
  List.mem_map_of_injective globalId_injective

private theorem ppImpl_args (callee : FuncWithDeps) :
    (ppImpl callee).args = (callee.deps.1 ++ callee.deps.2).map globalId :=
  List.map_append.symm

private theorem ppDep_ok {annot : FunctionAnnot} {f : String} {hyp : PrintedHyp}
    (run : ppDep ast fn annot f = .ok hyp) :
    ∃ ptr, PtrOf ast f ptr ∧ hyp = .dep (globalId f) ptr := by
  unfold ppDep at run
  obtain ⟨insts, -, run⟩ := bind_eq_ok.mp run
  unfold PtrOf
  split at run
  next callee inlined =>
    cases run
    exact ⟨_, by simp, rfl⟩
  next notInlined =>
    obtain ⟨texts, -, run⟩ := bind_eq_ok.mp run
    cases run
    exact ⟨_, by simp, rfl⟩

/-- The parts of a lemma that is printed. -/
theorem ppProof_ok {kind : ProofKind} {stmt : PrintedLemma}
    (run : ppProof ast kind fn = .ok (some stmt)) : ∃ annot deps,
      List.Forall₂ (fun f hyp => ppDep ast fn annot f = .ok hyp) (usedDeps ast fn).2 deps ∧
      stmt.binders = ((usedDeps ast fn).1 ++ (usedDeps ast fn).2).map globalId ∧
      stmt.hyps = (usedDeps ast fn).1.map ppGlobal ++
        (usedDeps ast fn).1.filterMap (ppGlobalType ast) ++ deps ∧
      stmt.impl = ppImpl fn := by
  unfold ppProof at run
  split at run
  · cases run
  · cases run
  · split at run
    · cases run
    next annot _ =>
      split at run
      · cases run
      · obtain ⟨context, -, run⟩ := bind_eq_ok.mp run
        obtain ⟨deps, isDeps, run⟩ := bind_eq_ok.mp run
        cases run
        exact ⟨annot, deps, mapM_eq_ok.mp isDeps, rfl, rfl, rfl⟩

private theorem ppGlobalType_ids {f : String} {hyp : PrintedHyp}
    (printed : ppGlobalType ast f = some hyp) :
    ∃ annot, hyp = .globalType f annot := by
  unfold ppGlobalType at printed
  split at printed
  · cases printed
    exact ⟨_, rfl⟩
  · cases printed

/-- The hypotheses on functions are on the used functions. -/
theorem exists_dep_iff {kind : ProofKind} {stmt : PrintedLemma}
    (run : ppProof ast kind fn = .ok (some stmt)) {g : String} :
    (∃ ptr, PtrOf ast g ptr ∧ .dep (globalId g) ptr ∈ stmt.hyps) ↔
      g ∈ (usedDeps ast fn).2 := by
  obtain ⟨annot, deps, isDeps, -, hyps, -⟩ := ppProof_ok run
  constructor
  · rintro ⟨ptr, -, member⟩
    rw [hyps, List.mem_append, List.mem_append] at member
    rcases member with (isGlobal | isType) | isDep
    · obtain ⟨_, -, same⟩ := List.mem_map.mp isGlobal
      cases same
    · obtain ⟨_, -, printed⟩ := List.mem_filterMap.mp isType
      obtain ⟨_, same⟩ := ppGlobalType_ids printed
      cases same
    · obtain ⟨f, isUsed, printed⟩ := exists_of_mem_right isDeps isDep
      obtain ⟨_, -, same⟩ := ppDep_ok printed
      injection same with sameId
      exact globalId_injective sameId ▸ isUsed
  · intro isUsed
    obtain ⟨hyp, isDep, printed⟩ := exists_of_mem_right isDeps.flip isUsed
    obtain ⟨ptr, isPtr, rfl⟩ := ppDep_ok printed
    exact ⟨ptr, isPtr, hyps ▸ List.mem_append_right _ isDep⟩

/-- The locations are bound when the dependencies of the inlined functions are. -/
theorem bound_iff {kind : ProofKind} {stmt : PrintedLemma}
    (run : ppProof ast kind fn = .ok (some stmt)) :
    (∀ id ∈ stmt.globalIds, id ∈ stmt.binders) ↔
      ∀ f ∈ (usedDeps ast fn).2, ∀ callee, inlinedDef ast f = some callee →
        ∀ x ∈ callee.deps.1 ++ callee.deps.2,
          x ∈ (usedDeps ast fn).1 ++ (usedDeps ast fn).2 := by
  obtain ⟨annot, deps, isDeps, binders, hyps, impl⟩ := ppProof_ok run
  have isBound {x : String} : globalId x ∈ stmt.binders ↔
      x ∈ (usedDeps ast fn).1 ++ (usedDeps ast fn).2 := by
    rw [binders, mem_map_globalId]
  constructor
  · intro bound f isUsed callee inlined x isArg
    obtain ⟨ptr, isPtr, isHyp⟩ := (exists_dep_iff run).mpr isUsed
    simp only [PtrOf, inlined] at isPtr
    refine isBound.mp (bound _ (List.mem_append_left _ (List.mem_flatMap.mpr ⟨_, isHyp, ?_⟩)))
    rw [isPtr, PrintedHyp.globalIds, ppImpl_args]
    exact List.mem_cons_of_mem _ (List.mem_map_of_mem isArg)
  · intro inlinedArgs id isId
    rcases List.mem_append.mp isId with inHyps | inImpl
    · obtain ⟨hyp, isHyp, isId⟩ := List.mem_flatMap.mp inHyps
      rw [hyps, List.mem_append, List.mem_append] at isHyp
      rcases isHyp with (isGlobal | isType) | isDep
      · obtain ⟨x, isUsed, rfl⟩ := List.mem_map.mp isGlobal
        cases List.mem_singleton.mp isId
        exact isBound.mpr (List.mem_append_left _ isUsed)
      · obtain ⟨x, -, printed⟩ := List.mem_filterMap.mp isType
        obtain ⟨_, rfl⟩ := ppGlobalType_ids printed
        cases isId
      · obtain ⟨f, isUsed, printed⟩ := exists_of_mem_right isDeps isDep
        obtain ⟨ptr, isPtr, rfl⟩ := ppDep_ok printed
        have isFunction := isBound.mpr (List.mem_append_right _ isUsed)
        cases ptr with
        | function typeOf insts =>
            cases List.mem_singleton.mp isId
            exact isFunction
        | inlined impl' =>
            unfold PtrOf at isPtr
            split at isPtr
            next callee inlined =>
              cases isPtr
              rcases List.mem_cons.mp isId with rfl | isArg
              · exact isFunction
              · rw [ppImpl_args] at isArg
                obtain ⟨x, isDep, rfl⟩ := List.mem_map.mp isArg
                exact isBound.mpr (inlinedArgs f isUsed callee inlined x isDep)
            · obtain ⟨_, same⟩ := isPtr
              cases same
    · rw [impl, ppImpl_args] at inImpl
      obtain ⟨x, isDep, rfl⟩ := List.mem_map.mp inImpl
      refine isBound.mpr (List.mem_append.mpr ?_)
      rw [mem_usedDeps_fst, mem_usedDeps_snd]
      exact (List.mem_append.mp isDep).imp .inl .inl

/-- The lemma of a function is closed under inlining exactly when a function that is inlined in
a function that is inlined adds no dependencies. -/
theorem ppProof_closed_iff {kind : ProofKind} {stmt : PrintedLemma}
    (run : ppProof ast kind fn = .ok (some stmt)) :
    ClosedUnderInlining ast fn stmt ↔ InlinedTwiceAddsNothing ast fn := by
  have isClosed : ClosedUnderInlining ast fn stmt ↔
      (∀ id ∈ stmt.globalIds, id ∈ stmt.binders) ∧
        ∀ g, CalledThrough ast fn g → g ∈ (usedDeps ast fn).2 := by
    simp only [← exists_dep_iff run]
    exact ⟨fun closed => ⟨closed.bound, closed.called⟩,
      fun closed => ⟨closed.1, closed.2⟩⟩
  rw [isClosed, bound_iff run]
  constructor
  · rintro ⟨bound, called⟩ f isDep callee inlined g isDep' callee' inlined'
    have isCalled : CalledThrough ast fn g := .inlined (.direct isDep) inlined isDep'
    have isUsed := called g isCalled
    refine ⟨fun x isGlobal => ?_, fun x isFunction => ?_⟩
    · rw [← mem_usedDeps_fst, ← mem_usedDeps_snd, ← List.mem_append]
      exact bound g isUsed callee' inlined' x (List.mem_append_left _ isGlobal)
    · exact mem_usedDeps_snd.mp (called x (.inlined isCalled inlined' isFunction))
  · intro adds
    -- The used functions are those that are near, and what is near is used.
    have closed (f : String) (isUsed : f ∈ (usedDeps ast fn).2) (callee : FuncWithDeps)
        (inlined : inlinedDef ast f = some callee) :
        (∀ x ∈ callee.deps.1, NearDep ast fn Prod.fst x ∨ NearDep ast fn Prod.snd x) ∧
          ∀ x ∈ callee.deps.2, NearDep ast fn Prod.snd x := by
      rcases mem_usedDeps_snd.mp isUsed with isDep | ⟨f', isDep, callee', inlined', isDep'⟩
      · exact ⟨fun x isGlobal => .inl (.inr ⟨f, isDep, callee, inlined, isGlobal⟩),
          fun x isFunction => .inr ⟨f, isDep, callee, inlined, isFunction⟩⟩
      · exact adds f' isDep callee' inlined' f isDep' callee inlined
    refine ⟨fun f isUsed callee inlined x isArg => ?_, fun g isCalled => ?_⟩
    · obtain ⟨globals, functions⟩ := closed f isUsed callee inlined
      rw [List.mem_append, mem_usedDeps_fst, mem_usedDeps_snd]
      rcases List.mem_append.mp isArg with isGlobal | isFunction
      · exact globals x isGlobal
      · exact .inr (functions x isFunction)
    · induction isCalled with
      | direct isDep => exact mem_usedDeps_snd.mpr (.inl isDep)
      | inlined _ inlined isDep inductionHypothesis =>
          exact mem_usedDeps_snd.mpr ((closed _ inductionHypothesis _ inlined).2 _ isDep)

end

/-! ## A chain of inlined functions -/

def noSpec (kind : ProofKind) : FunctionAnnot :=
  ⟨[], [], [], [], .params "void" [], [], [], [], [], kind⟩

/-- The function `f` calls `g`, which is inlined. -/
def callerOfG : FuncWithDeps := ⟨"f", some (noSpec .normal), [], ([], ["g"])⟩

/-- The function `g` has the given dependencies. It is inlined, as is `h`, which uses the
global `k` and calls `m`. -/
def chainAst (deps : List String × List String) : ProofAst where
  globalVars := [("k", none)]
  functions := [("f", .fDef callerOfG), ("g", .fDef ⟨"g", some (noSpec .inlined), [], deps⟩),
    ("h", .fDef ⟨"h", some (noSpec .inlined), [], (["k"], ["m"])⟩), ("m", .fDec none)]

theorem ppProof_closed_global :
    ∃ stmt, ppProof (chainAst (["k"], [])) .normal callerOfG = .ok (some stmt) ∧
      ClosedUnderInlining (chainAst (["k"], [])) callerOfG stmt := by
  obtain ⟨stmt, printed⟩ : ∃ stmt,
      ppProof (chainAst (["k"], [])) .normal callerOfG = .ok (some stmt) := ⟨_, rfl⟩
  refine ⟨stmt, printed, (ppProof_closed_iff printed).mpr ?_⟩
  intro f isDep callee inlined g isDep'
  cases List.mem_singleton.mp isDep
  cases inlined
  cases isDep'

/-- The lemma of `f` when `g` calls `h`. -/
def chainLemma : PrintedLemma where
  name := "type_f"
  binders := ["global_g", "global_h"]
  context := []
  hyps := [.dep "global_g" (.inlined ⟨"impl_g", ["global_h"]⟩),
    .dep "global_h" (.inlined ⟨"impl_h", ["global_k", "global_m"]⟩)]
  turnstile := false
  impl := ⟨"impl_f", ["global_g"]⟩
  typeOf := "type_of_f"
  typeArgs := []

/-- The lemma of `f` has the hypothesis of `h`, but does not bind the global of `h` and has
no hypothesis of `m`. -/
theorem ppProof_inlinedTwice :
    ppProof (chainAst ([], ["h"])) .normal callerOfG = .ok (some chainLemma) ∧
      "global_k" ∈ chainLemma.globalIds ∧ "global_k" ∉ chainLemma.binders ∧
      CalledThrough (chainAst ([], ["h"])) callerOfG "m" ∧
      (∀ ptr, .dep (globalId "m") ptr ∉ chainLemma.hyps) ∧
      ¬ ClosedUnderInlining (chainAst ([], ["h"])) callerOfG chainLemma := by
  have mentioned : "global_k" ∈ chainLemma.globalIds := by decide
  have notBound : "global_k" ∉ chainLemma.binders := by decide
  have callsH : CalledThrough (chainAst ([], ["h"])) callerOfG "h" :=
    .inlined (.direct (List.mem_singleton_self "g")) rfl (List.mem_singleton_self "h")
  have noHyp (ptr : FunctionPtr) : .dep (globalId "m") ptr ∉ chainLemma.hyps := by
    simp [chainLemma, globalId]
  exact ⟨rfl, mentioned, notBound, .inlined callsH rfl (List.mem_singleton_self "m"), noHyp,
    fun closed => notBound (closed.bound _ mentioned)⟩

end RefinedC.Frontend
