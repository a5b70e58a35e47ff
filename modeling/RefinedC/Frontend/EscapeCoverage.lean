import Mathlib.Data.List.Induction
import RefinedC.Frontend.EscapeRuns

/-!
Points-to sets and what expressions point at.

Owns: the blocks around a store, that an identifier is classified as its object is, which
points-to sets contain a variable of a block that an expression points at, and that nothing
is in the table for a variable that is not set.

Does not own: the table over a whole run, and the warnings.
-/

namespace RefinedC.Frontend.Escape

open Library

/-! ## Blocks around a store -/

/-- Blocks are numbered by the blocks around them. -/
structure Env.Nested (env : Env) : Prop where
  decreasing : (env.scopes.map Prod.fst).Pairwise (· > ·)
  bounded : ∀ n ∈ env.scopes.map Prod.fst, n < env.counter

private theorem register_numbers (s : Sym) (scopes : Scopes) :
    (scopes.register s).map Prod.fst = scopes.map Prod.fst := by
  cases scopes <;> rfl

private theorem foldl_register_numbers {α : Type} (sym : α → Sym) (l : List α)
    (scopes : Scopes) :
    (l.foldl (fun scopes b => scopes.register (sym b)) scopes).map Prod.fst =
      scopes.map Prod.fst := by
  induction l generalizing scopes with
  | nil => rfl
  | cons b l inductionHypothesis =>
      rw [List.foldl_cons, inductionHypothesis, register_numbers]

theorem nested_ofParams (params : List Sym) : Env.Nested (.ofParams params) := by
  have numbers : (Env.ofParams params).scopes.map Prod.fst = [0] :=
    foldl_register_numbers id params _
  refine ⟨?_, ?_⟩
  · rw [numbers]
    exact List.pairwise_singleton _ _
  · intro n inside
    rw [numbers, List.mem_singleton] at inside
    simp [inside, Env.ofParams]

theorem Env.Nested.enterBlock {env : Env} (nested : Env.Nested env) (bs : List (Sym × CType)) :
    Env.Nested (env.enterBlock bs) := by
  have numbers : (env.enterBlock bs).scopes.map Prod.fst =
      env.counter :: env.scopes.map Prod.fst := foldl_register_numbers Prod.fst bs _
  refine ⟨?_, ?_⟩
  · rw [numbers]
    exact List.pairwise_cons.mpr ⟨nested.bounded, nested.decreasing⟩
  · intro n inside
    rw [numbers] at inside
    have counter : (env.enterBlock bs).counter = env.counter + 1 := rfl
    rcases List.mem_cons.mp inside with rfl | inside
    · omega
    · have := nested.bounded n inside
      omega

section

variable {env : Env} {store : Store}

mutual

private theorem storesOfExpr_env :
    ∀ {e : Expr} {visited : Bool}, store ∈ storesOfExpr env visited e →
    store.env = env
  | .annotated _ _, _, inside => storesOfNode_env inside

private theorem storesOfNode_env : ∀ {node : ExprNode} {visited : Bool},
    store ∈ storesOfNode env visited node → store.env = env
  | .builtin _, _, inside | .str _, _, inside | .const _, _, inside | .ident _, _, inside
  | .sizeof _, _, inside | .alignof _, _, inside | .regLoad _, _, inside
  | .offsetof _ _, _, inside | .union _ _ none, _, inside | .gccStatement, _, inside
  | .invalid, _, inside => nomatch inside
  | .assign e1 e2, _, inside | .compoundAssign e1 _ e2, _, inside => by
      rcases List.mem_cons.mp inside with rfl | inside
      · rfl
      · exact (List.mem_append.mp inside).elim storesOfExpr_env storesOfExpr_env
  | .unary _ e, _, inside | .cast _ e, _, inside | .assert e, _, inside
  | .compound _ e, _, inside | .memberof e _, _, inside | .memberofptr e _, _, inside
  | .sizeofExpr e, _, inside | .annot _ e, _, inside | .vaStart e _, _, inside
  | .vaArg e _, _, inside | .vaEnd e, _, inside | .printType e, _, inside
  | .bmcAssume e, _, inside | .rvalue e, _, inside | .arrayDecay e, _, inside
  | .functionDecay e, _, inside | .atomic e, _, inside | .union _ _ (some e), _, inside =>
      storesOfExpr_env (e := e) inside
  | .binary e1 _ e2, _, inside | .vaCopy e1 e2, _, inside | .cond e1 none e2, _, inside =>
      (List.mem_append.mp inside).elim storesOfExpr_env storesOfExpr_env
  | .cond e1 (some e2) e3, _, inside =>
      (List.mem_append.mp inside).elim storesOfExpr_env fun inside =>
        (List.mem_append.mp inside).elim storesOfExpr_env storesOfExpr_env
  | .call e es, _, inside | .generic e _ es, _, inside =>
      (List.mem_append.mp inside).elim storesOfExpr_env storesOfExprs_env
  | .array _ es, _, inside | .struct _ _ es, _, inside => storesOfOptExprs_env (l := es) inside

private theorem storesOfExprs_env : ∀ {es : List Expr} {visited : Bool},
    store ∈ storesOfExprs env visited es → store.env = env
  | [], _, inside => nomatch inside
  | _ :: _, _, inside => (List.mem_append.mp inside).elim storesOfExpr_env storesOfExprs_env

private theorem storesOfOptExprs_env : ∀ {l : List (Option Expr)} {visited : Bool},
    store ∈ storesOfOptExprs env visited l → store.env = env
  | [], _, inside => nomatch inside
  | none :: es, _, inside => storesOfOptExprs_env (l := es) inside
  | some _ :: _, _, inside => (List.mem_append.mp inside).elim storesOfExpr_env storesOfOptExprs_env

end

private theorem storesOfDecls_env {ds : List (Sym × Option Expr)}
    (inside : store ∈ storesOfDecls env ds) :
    store.env = env := by
  induction ds with
  | nil => nomatch inside
  | cons d ds inductionHypothesis =>
      obtain ⟨s, _ | e⟩ := d
      · exact inductionHypothesis inside
      · rcases List.mem_cons.mp inside with rfl | inside
        · rfl
        · exact (List.mem_append.mp inside).elim storesOfExpr_env inductionHypothesis

end

mutual

/-- The blocks around a store are numbered from the outside. -/
theorem storesOf_nested : ∀ {s : Stmt} {env : Env} {store : Store}, Env.Nested env →
    store ∈ storesOf env s → Env.Nested store.env
  | .skip, _, _, _, inside | .breakS, _, _, _, inside | .continueS, _, _, _, inside
  | .returnVoid, _, _, _, inside | .goto _, _, _, _, inside | .marker _, _, _, _, inside =>
      nomatch inside
  | .expr _, _, _, nested, inside | .returnS _, _, _, nested, inside
  | .regStore _ _, _, _, nested, inside => storesOfExpr_env inside ▸ nested
  | .block bs ss, _, _, nested, inside =>
      storesOfStmts_nested (l := ss) (nested.enterBlock bs) inside
  | .ifS _ _ _, _, _, nested, inside =>
      (List.mem_append.mp inside).elim (fun inside => storesOfExpr_env inside ▸ nested)
        fun inside => (List.mem_append.mp inside).elim (storesOf_nested nested)
          (storesOf_nested nested)
  | .whileS _ _, _, _, nested, inside =>
      (List.mem_append.mp inside).elim (storesOf_nested nested)
        fun inside => storesOfExpr_env inside ▸ nested
  | .doS _ _, _, _, nested, inside | .switch _ _, _, _, nested, inside =>
      (List.mem_append.mp inside).elim (fun inside => storesOfExpr_env inside ▸ nested)
        (storesOf_nested nested)
  | .caseS _ s, _, _, nested, inside | .caseRangeGNU _ _ s, _, _, nested, inside
  | .default s, _, _, nested, inside | .label _ s, _, _, nested, inside =>
      storesOf_nested (s := s) nested inside
  | .declaration _, _, _, nested, inside => storesOfDecls_env inside ▸ nested
  | .par ss, _, _, nested, inside => storesOfStmts_nested (l := ss) nested inside

private theorem storesOfStmts_nested :
    ∀ {l : List Stmt} {env : Env} {store : Store}, Env.Nested env →
    store ∈ storesOfStmts env l → Env.Nested store.env
  | [], _, _, _, inside => nomatch inside
  | _ :: _, _, _, nested, inside =>
      (List.mem_append.mp inside).elim (storesOf_nested nested) (storesOfStmts_nested nested)

end

/-! ## Objects of identifiers -/

private theorem resolveFrames_var {s : Sym} {frames : List Frame} {o : Object}
    (found : resolveFrames s frames = some o) :
    ∃ fr ∈ frames, o = .var fr.inst fr.depth s ∧
      (scopesOf frames).resolve s = some fr.depth := by
  induction frames with
  | nil => nomatch found
  | cons fr frames inductionHypothesis =>
      rw [resolveFrames] at found
      by_cases here : s ∈ fr.syms
      · rw [if_pos here] at found
        refine ⟨fr, List.mem_cons_self, (Option.some.inj found).symm, ?_⟩
        exact if_pos here
      · rw [if_neg here] at found
        obtain ⟨fr', inside, isVar, resolved⟩ := inductionHypothesis found
        exact ⟨fr', List.mem_cons_of_mem _ inside, isVar, (if_neg here).trans resolved⟩

/-- How the object of an identifier is classified in the given blocks. -/
def placeIn (frames : List Frame) : Object → Pointsto
  | .global s => .global s
  | .var _ depth s =>
      if some depth = frames.head?.map Frame.depth then .current s else .localIn depth s
  | .outside _ => .wild

private theorem currentScopeIs_scopesOf (frames : List Frame) :
    (scopesOf frames).currentScopeIs = frames.head?.map Frame.depth := by
  cases frames <;> rfl

/-- An identifier is a global object or a variable of a block that is being executed. -/
theorem denotes_cases {sigm : Sigma} {frames : List Frame} {s : Sym} {o : Object}
    (found : denotes sigm frames s = some o) :
    o = .global s ∨ ∃ fr ∈ frames, o = .var fr.inst fr.depth s := by
  rw [denotes] at found
  split at found
  · exact .inl (Option.some.inj found).symm
  · nomatch found
  · obtain ⟨fr, inside, isVar, -⟩ := resolveFrames_var found
    exact .inr ⟨fr, inside, isVar⟩

theorem classify_denotes {sigm : Sigma} {frames : List Frame} {env : Env} {s : Sym} {o : Object}
    (here : scopesOf frames = env.scopes) (found : denotes sigm frames s = some o) :
    classify sigm env s = .ok (placeIn frames o) := by
  unfold denotes at found
  unfold classify
  cases declared : sigm.declarations.lookup s with
  | some decl =>
      cases decl with
      | object ty =>
          simp only [declared] at found ⊢
          cases found
          rfl
      | function ret params =>
          simp only [declared] at found
          nomatch found
  | none =>
      simp only [declared] at found ⊢
      obtain ⟨fr, -, isVar, resolved⟩ := resolveFrames_var found
      subst isVar
      simp only [← here, resolved, currentScopeIs_scopesOf, placeIn]
      split <;> rfl

theorem symOf_placeIn {sigm : Sigma} {frames : List Frame} {s : Sym} {o : Object}
    (found : denotes sigm frames s = some o) : symOf (placeIn frames o) = some s := by
  rcases denotes_cases found with rfl | ⟨fr, -, rfl⟩
  · rfl
  · rw [placeIn]
    split <;> rfl

section

variable [AilTypesAux] {table : PtrTaints} {classify : Sym → Result Pointsto} {lvalue : Bool}

/-- The points-to set of an lvalue that names a variable. -/
theorem pointsToAux_place {e : Expr} {s : Sym} {pts : List Pointsto} (isPlace : placeOf e = some s)
    (run : pointsToAux table classify lvalue e = .ok pts) :
    ∃ pt, classify s = .ok pt ∧ pts = [pt] := by
  fun_induction placeOf e with
  | case1 tc s' =>
      cases isPlace
      obtain ⟨pt, isPt, run⟩ := bind_eq_ok.mp run
      cases run
      exact ⟨pt, isPt, rfl⟩
  | case2 tc e m inductionHypothesis | case3 tc ty e inductionHypothesis
  | case4 tc e inductionHypothesis => exact inductionHypothesis isPlace run
  | case5 => nomatch isPlace

theorem designates_place {sigm : Sigma} {frames : List Frame} {ways : Ways} {e : Expr} {s : Sym}
    {o : Object} (isPlace : placeOf e = some s) (designates : Designates sigm frames ways e o) :
    denotes sigm frames s = some o := by
  fun_induction placeOf e with
  | case1 tc s' =>
      cases isPlace
      cases designates with
      | ident found => exact found
      | any _ isOpaque => nomatch isOpaque
  | case2 tc e m inductionHypothesis =>
      cases designates with
      | memberof inside => exact inductionHypothesis isPlace inside
      | any _ isOpaque => nomatch isOpaque
  | case3 tc ty e inductionHypothesis =>
      cases designates with
      | annot inside => exact inductionHypothesis isPlace inside
      | any _ isOpaque => nomatch isOpaque
  | case4 tc e inductionHypothesis =>
      cases designates with
      | atomic inside => exact inductionHypothesis isPlace inside
      | any _ isOpaque => nomatch isOpaque
  | case5 => nomatch isPlace

end

/-! ## Points-to sets of what is pointed at -/

/-- The element stands for the variable of a block. -/
def Covers (pt : Pointsto) (depth : Nat) (x : Sym) : Prop :=
  stripPtrval pt = .current x ∨ stripPtrval pt = .localIn depth x

/-- The set contains pointers to the variable. -/
def HasPointer (pts : List Pointsto) (depth : Nat) (x : Sym) : Prop :=
  ∃ pt, .ptrval pt ∈ pts ∧ Covers pt depth x

private theorem covers_placeIn (frames : List Frame) (inst depth : Nat) (x : Sym) :
    Covers (placeIn frames (.var inst depth x)) depth x := by
  rw [placeIn]
  split
  · exact .inl rfl
  · exact .inr rfl

theorem HasPointer.mono {pts pts' : List Pointsto} {depth : Nat} {x : Sym}
    (has : HasPointer pts depth x) (inside : pts ⊆ pts') : HasPointer pts' depth x := by
  obtain ⟨pt, isElement, covers⟩ := has
  exact ⟨pt, inside isElement, covers⟩

theorem getPtrTaints_named {table : PtrTaints} {pt : Pointsto} {s : Sym}
    (named : symOf pt = some s) :
    getPtrTaints table [pt] = (table.lookup s).getD [.wild] := by
  cases pt with
  | current s | localIn _ s | global s =>
      cases named
      simp only [getPtrTaints, List.foldl_cons, List.foldl_nil]
      cases table.lookup s <;> rfl
  | funptr _ | wild | ptrval _ => nomatch named

theorem mem_ptsDeref {pt : Pointsto} {pts : List Pointsto} :
    pt ∈ ptsDeref pts ↔ .ptrval pt ∈ pts := by
  rw [ptsDeref]
  refine (fun (general : ∀ acc, pt ∈ pts.foldl _ acc ↔ .ptrval pt ∈ pts ∨ pt ∈ acc) =>
    (general []).trans (by simp)) ?_
  induction pts with
  | nil => simp
  | cons pt' pts inductionHypothesis =>
      intro acc
      rw [List.foldl_cons, inductionHypothesis]
      cases pt' <;> simp [or_assoc, or_left_comm]

/-- Reads in the given ways give pointers to the variable only if the table has them for what is
read, and the variable then exists. -/
structure ReadsInTable [AilTypesAux] (sigm : Sigma) (frames : List Frame) (env : Env) (ways : Ways)
    (table : PtrTaints) (inst depth : Nat) (x : Sym) : Prop where
  kinds : ¬ ways.anyKind
  reads : ∀ e o, Designates sigm frames ways e o → ways.reads e o (.var inst depth x) →
    isPointer (typeOf e) = true ∧ (∃ fr ∈ frames, fr.inst = inst ∧ fr.depth = depth) ∧
      ∀ pts, pointsToAux table (classify sigm env) false e = .ok pts →
        HasPointer (getPtrTaints table pts) depth x

section

variable [AilTypesAux] {sigm : Sigma} {frames : List Frame} {ways : Ways} {table : PtrTaints}
  {env : Env} {inst depth : Nat} {x : Sym}

mutual

/-- The points-to set of an lvalue contains the variable that it designates. -/
theorem designates_covered (here : scopesOf frames = env.scopes)
    (inTable : ReadsInTable sigm frames env ways table inst depth x) :
    ∀ {e : Expr} {pts : List Pointsto}, Designates sigm frames ways e (.var inst depth x) →
      pointsToAux table (classify sigm env) false e = .ok pts →
      (∃ fr ∈ frames, fr.inst = inst ∧ fr.depth = depth) ∧ ∃ pt ∈ pts, Covers pt depth x
  | _, _, .ident found, run => by
      obtain ⟨pt, isPt, run⟩ := bind_eq_ok.mp run
      cases run
      rw [classify_denotes here found] at isPt
      cases isPt
      refine ⟨?_, _, List.mem_singleton_self _, covers_placeIn frames inst depth x⟩
      rcases denotes_cases found with isGlobal | ⟨fr, inside, isVar⟩
      · nomatch isGlobal
      · cases isVar
        exact ⟨fr, inside, rfl, rfl⟩
  | _, _, .memberof inside, run | _, _, .annot inside, run | _, _, .atomic inside, run =>
      designates_covered here inTable inside run
  | _, _, .memberofptr inside, run => by
      obtain ⟨alive, pt, isElement, covers⟩ := pointsAt_covered here inTable inside run
      exact ⟨alive, _, isElement, covers⟩
  | _, _, .indirection inside noPointer, run => by
      obtain ⟨pts, isSet, run⟩ := bind_eq_ok.mp run
      cases run
      obtain ⟨alive, pt, isElement, covers⟩ := pointsAt_covered here inTable inside isSet
      refine ⟨alive, pt, ?_, covers⟩
      have noPointer := noPointer.resolve_left inTable.kinds
      simp only [pointsToDeref, noPointer]
      exact mem_ptsDeref.mpr isElement
  | _, _, .any kinds _, _ => absurd kinds inTable.kinds

/-- The points-to set of an expression contains pointers to the variable that it points at. -/
theorem pointsAt_covered (here : scopesOf frames = env.scopes)
    (inTable : ReadsInTable sigm frames env ways table inst depth x) :
    ∀ {e : Expr} {pts : List Pointsto}, PointsAt sigm frames ways e (.var inst depth x) →
      pointsToAux table (classify sigm env) false e = .ok pts →
      (∃ fr ∈ frames, fr.inst = inst ∧ fr.depth = depth) ∧ HasPointer pts depth x
  | _, _, .address inside, run => by
      obtain ⟨pts, isSet, run⟩ := bind_eq_ok.mp run
      cases run
      obtain ⟨alive, pt, isElement, covers⟩ := designates_covered here inTable inside isSet
      exact ⟨alive, pt, List.mem_map_of_mem isElement, covers⟩
  | _, _, .rvalue inside isRead, run => by
      obtain ⟨isPtr, alive, has⟩ := inTable.reads _ _ inside isRead
      rw [pointsToAux, pointsToNode, if_pos isPtr] at run
      obtain ⟨places, isSet, run⟩ := bind_eq_ok.mp run
      cases run
      exact ⟨alive, has places isSet⟩
  | .annotated _ (.unary op e), _, .unary arithmetic inside, run => by
      simp only [List.mem_cons, List.not_mem_nil, or_false] at arithmetic
      refine pointsAt_covered here inTable inside ?_
      rcases arithmetic with rfl | rfl | rfl <;> exact run
  | _, _, .cast inside, run | _, _, .annot inside, run | _, _, .atomic inside, run
  | _, _, .assign inside, run | _, _, .compoundRight inside, run =>
      pointsAt_covered here inTable inside run
  | _, _, .left _ inside, run | _, _, .condThen inside, run => by
      obtain ⟨pts1, isSet1, run⟩ := bind_eq_ok.mp run
      obtain ⟨pts2, isSet2, run⟩ := bind_eq_ok.mp run
      cases run
      obtain ⟨alive, has⟩ := pointsAt_covered here inTable inside isSet1
      exact ⟨alive, has.mono (List.subset_append_left _ _)⟩
  | _, _, .right inside, run => by
      obtain ⟨pts1, isSet1, run⟩ := bind_eq_ok.mp run
      obtain ⟨pts2, isSet2, run⟩ := bind_eq_ok.mp run
      cases run
      obtain ⟨alive, has⟩ := pointsAt_covered here inTable inside isSet2
      exact ⟨alive, has.mono (List.subset_append_right _ _)⟩
  | .annotated _ (.cond _ none _), _, .condElse inside, run =>
      pointsAt_covered here inTable inside run
  | .annotated _ (.cond _ (some _) _), _, .condElse inside, run => by
      obtain ⟨pts1, isSet1, run⟩ := bind_eq_ok.mp run
      obtain ⟨pts2, isSet2, run⟩ := bind_eq_ok.mp run
      cases run
      obtain ⟨alive, has⟩ := pointsAt_covered here inTable inside isSet2
      exact ⟨alive, has.mono (List.subset_append_right _ _)⟩
  | _, _, .arrayDecay kinds _, _ | _, _, .increment kinds _ _ _, _ | _, _, .memberof kinds _, _
  | _, _, .compoundLeft kinds _ _, _ | _, _, .condTest kinds _, _ | _, _, .any kinds _, _ =>
      absurd kinds inTable.kinds

end

end

/-! ## Variables that are not set -/

/-- The table has no pointers to the variable. -/
def Untargeted (s : Sym) (table : PtrTaints) : Prop :=
  ∀ s' pts, table.lookup s' = some pts → ∀ pt ∈ pts, symOf (stripPtrval pt) ≠ some s

/-- The table does not know the variable. -/
structure Unknown (s : Sym) (table : PtrTaints) : Prop where
  notSet : table.lookup s = none
  untargeted : Untargeted s table

/-- The table knows of pointers to `t` only in the variable, and of no pointers to it. -/
structure SetTo (s t : Sym) (table : PtrTaints) : Prop where
  onlyTarget : ∀ pts, table.lookup s = some pts → ∀ pt ∈ pts, ∃ pt', pt = .ptrval pt' ∧
      symOf pt' = some t
  untargeted : Untargeted s table

theorem unknown_nil (s : Sym) : Unknown s [] :=
  ⟨rfl, fun _ _ found => nomatch found⟩

theorem setTo_nil (s t : Sym) : SetTo s t [] where
  onlyTarget _ found := nomatch found
  untargeted _ _ found := nomatch found

private theorem symOf_stripPtrval {pt : Pointsto} {s : Sym} (named : symOf pt = some s) :
    symOf (stripPtrval pt) = some s := by
  cases pt with
  | current _ | localIn _ _ | global _ => exact named
  | funptr _ | wild | ptrval _ => nomatch named

private theorem classify_symOf {sigm : Sigma} {env : Env} {s s' : Sym} {pt : Pointsto}
    (run : classify sigm env s' = .ok pt) (named : symOf (stripPtrval pt) = some s) : s' = s := by
  rw [classify] at run
  split at run
  · cases run
    exact Option.some.inj named
  · cases run
    nomatch named
  · split at run
    · nomatch run
    · split at run <;> cases run <;> exact Option.some.inj named

theorem classify_variable {sigm : Sigma} {env : Env} {s : Sym} {pt : Pointsto}
    (run : classify sigm env s = .ok pt) (notFunction : (!isFunction sigm s) = true) :
    symOf pt = some s := by
  rw [classify] at run
  split at run
  · cases run
    rfl
  next declared => simp [isFunction, declared] at notFunction
  · split at run
    · nomatch run
    · split at run <;> cases run <;> rfl

private theorem mem_getPtrTaints {table : PtrTaints} {xs : List Pointsto} {pt : Pointsto}
    (inside : pt ∈ getPtrTaints table xs) :
    pt = .wild ∨ ∃ s pts, table.lookup s = some pts ∧ pt ∈ pts := by
  induction xs using List.reverseRecOn with
  | nil => nomatch inside
  | append_singleton xs pt' inductionHypothesis =>
      rw [getPtrTaints, List.foldl_append, List.foldl_cons, List.foldl_nil] at inside
      cases pt' with
      | current s | localIn _ s | global s =>
          cases found : table.lookup s with
          | none =>
              simp only [found, List.mem_singleton] at inside
              exact .inl inside
          | some pts =>
              simp only [found] at inside
              exact .inr ⟨s, pts, found, inside⟩
      | funptr _ | wild | ptrval _ => exact inductionHypothesis inside

section

variable [AilTypesAux] {sigm : Sigma} {env : Env} {s : Sym} {table : PtrTaints} {lvalue : Bool}

omit [AilTypesAux] in
private theorem getPtrTaints_untargeted (untargeted : Untargeted s table) {xs : List Pointsto} :
    ∀ pt ∈ getPtrTaints table xs, symOf (stripPtrval pt) ≠ some s := by
  intro pt inside
  rcases mem_getPtrTaints inside with rfl | ⟨s', pts, found, inside⟩
  · exact Option.some_ne_none s |>.symm
  · exact untargeted s' pts found pt inside

private theorem pointsToDeref_untargeted (untargeted : Untargeted s table) {ty : CType}
    {pts : List Pointsto} (others : ∀ pt ∈ pts, symOf (stripPtrval pt) ≠ some s) :
    ∀ pt ∈ pointsToDeref table lvalue ty pts, symOf (stripPtrval pt) ≠ some s := by
  have deref : ∀ pt ∈ ptsDeref pts, symOf (stripPtrval pt) ≠ some s :=
    fun pt inside => others (.ptrval pt) (mem_ptsDeref.mp inside)
  have wild : ∀ pt ∈ [Pointsto.wild], symOf (stripPtrval pt) ≠ some s := by
    intro pt inside
    rw [List.mem_singleton.mp inside]
    exact Option.some_ne_none s |>.symm
  simp only [pointsToDeref]
  split
  · split
    · exact getPtrTaints_untargeted untargeted
    · exact wild
  · split
    · split
      · exact deref
      · exact wild
    · exact deref

/-- An expression that does not name the variable has a points-to set without it. -/
theorem pointsToAux_untargeted (untargeted : Untargeted s table) :
    ∀ {e : Expr} {pts : List Pointsto},
    names s e = false → pointsToAux table (classify sigm env) lvalue e = .ok pts →
    ∀ pt ∈ pts, symOf (stripPtrval pt) ≠ some s
  | .annotated _ (.ident s'), pts, unnamed, run => by
      obtain ⟨pt, isPt, run⟩ := bind_eq_ok.mp run
      cases run
      intro pt' inside named
      rw [List.mem_singleton.mp inside] at named
      exact absurd (classify_symOf isPt named) (of_decide_eq_false unnamed)
  | .annotated _ (.unary .address e), _, unnamed, run => by
      obtain ⟨pts, isSet, run⟩ := bind_eq_ok.mp run
      cases run
      have others := pointsToAux_untargeted (e := e) untargeted unnamed isSet
      intro pt inside
      obtain ⟨pt', isElement, rfl⟩ := List.mem_map.mp inside
      exact others pt' isElement
  | .annotated _ (.unary .indirection e), _, unnamed, run => by
      obtain ⟨pts, isSet, run⟩ := bind_eq_ok.mp run
      cases run
      exact pointsToDeref_untargeted untargeted
        (pointsToAux_untargeted (e := e) untargeted unnamed isSet)
  | .annotated _ (.unary .plus e), _, unnamed, run | .annotated _ (.unary .minus e), _, unnamed, run
  | .annotated _ (.unary .bnot e), _, unnamed, run
  | .annotated _ (.unary .postfixIncr e), _, unnamed, run
  | .annotated _ (.unary .postfixDecr e), _, unnamed,
    run | .annotated _ (.cast _ e), _, unnamed, run
  | .annotated _ (.memberof e _), _, unnamed, run | .annotated _ (.memberofptr e _), _, unnamed, run
  | .annotated _ (.annot _ e), _, unnamed, run | .annotated _ (.printType e), _, unnamed, run
  | .annotated _ (.bmcAssume e), _, unnamed, run | .annotated _ (.atomic e), _, unnamed, run
  | .annotated _ (.assign _ e), _, unnamed, run
  | .annotated _ (.compoundAssign _ _ e), _, unnamed, run
  | .annotated _ (.cond _ none e), _, unnamed, run =>
      pointsToAux_untargeted (e := e) untargeted unnamed run
  | .annotated _ (.rvalue e), _, _, run => by
      rw [pointsToAux, pointsToNode] at run
      split at run
      · obtain ⟨pts, -, run⟩ := bind_eq_ok.mp run
        cases run
        exact getPtrTaints_untargeted untargeted
      · cases run
        exact fun _ inside => nomatch inside
  | .annotated _ (.binary e1 _ e2), _, unnamed, run
  | .annotated _ (.cond _ (some e1) e2), _, unnamed, run => by
      obtain ⟨unnamed1, unnamed2⟩ := Bool.or_eq_false_iff.mp unnamed
      obtain ⟨pts1, isSet1, run⟩ := bind_eq_ok.mp run
      obtain ⟨pts2, isSet2, run⟩ := bind_eq_ok.mp run
      cases run
      have others1 := pointsToAux_untargeted (e := e1) untargeted unnamed1 isSet1
      have others2 := pointsToAux_untargeted (e := e2) untargeted unnamed2 isSet2
      exact fun pt inside => (List.mem_append.mp inside).elim (others1 pt) (others2 pt)
  | .annotated _ (.builtin _), _, _, run | .annotated _ (.str _), _, _, run
  | .annotated _ (.const _), _, _, run | .annotated _ (.sizeof _), _, _, run
  | .annotated _ (.alignof _), _, _, run | .annotated _ (.regLoad _), _, _, run
  | .annotated _ (.sizeofExpr _), _, _, run | .annotated _ (.offsetof _ _), _, _, run
  | .annotated _ (.assert _), _, _, run | .annotated _ (.compound _ _), _, _, run
  | .annotated _ (.vaStart _ _), _, _, run | .annotated _ (.vaArg _ _), _, _, run
  | .annotated _ (.vaEnd _), _, _, run | .annotated _ (.vaCopy _ _), _, _, run
  | .annotated _ (.arrayDecay _), _, _, run | .annotated _ (.functionDecay _), _, _, run
  | .annotated _ (.call _ _), _, _, run | .annotated _ (.generic _ _ _), _, _, run
  | .annotated _ (.array _ _), _, _, run | .annotated _ (.struct _ _ _), _, _, run
  | .annotated _ (.union _ _ _), _, _, run => by
      cases run
      exact fun _ inside => nomatch inside
  | .annotated _ .gccStatement, _, _, run | .annotated _ .invalid, _, _, run => nomatch run

omit [AilTypesAux] in
private theorem addTaints_untargeted (untargeted : Untargeted s table) (s' : Sym)
    {pts : List Pointsto} (others : ∀ pt ∈ pts, symOf (stripPtrval pt) ≠ some s) :
    Untargeted s (addTaints table s' pts) := by
  intro s'' pts' found pt inside
  by_cases same : s'' = s'
  · subst same
    rw [lookup_addTaints_self] at found
    cases found
    rcases List.mem_append.mp inside with inside | inside
    · exact others pt inside
    · cases before : table.lookup s'' with
      | none => simp [before] at inside
      | some old =>
          rw [before] at inside
          exact untargeted s'' old before pt inside
  · rw [lookup_addTaints_other same] at found
    exact untargeted s'' pts' found pt inside

omit [AilTypesAux] in
private theorem assignTaints_untargeted (untargeted : Untargeted s table) (xs1 : List Pointsto)
    {xs2 : List Pointsto} (others : ∀ pt ∈ xs2, symOf (stripPtrval pt) ≠ some s) :
    Untargeted s (assignTaints table xs1 xs2) := by
  induction xs1 generalizing table with
  | nil => exact untargeted
  | cons pt xs1 inductionHypothesis =>
      rw [assignTaints, List.foldl_cons]
      split
      next s' _ => exact inductionHypothesis (addTaints_untargeted untargeted s' others)
      · exact inductionHypothesis untargeted

omit [AilTypesAux] in
/-- Stores to other variables leave the entry of the variable. -/
theorem lookup_assignTaints_other {xs1 : List Pointsto} (xs2 : List Pointsto)
    (dests : ∀ pt ∈ xs1, symOf (stripPtrval pt) ≠ some s) :
    (assignTaints table xs1 xs2).lookup s = table.lookup s := by
  induction xs1 generalizing table with
  | nil => rfl
  | cons pt xs1 inductionHypothesis =>
      have tail := fun pt inside => dests pt (List.mem_cons_of_mem _ inside)
      rw [assignTaints, List.foldl_cons]
      split
      next s' named =>
        refine (inductionHypothesis tail).trans (lookup_addTaints_other ?_)
        rintro rfl
        exact dests pt List.mem_cons_self (symOf_stripPtrval named)
      · exact inductionHypothesis tail

/-- A store that does not name the variable leaves its entry and stores no pointer to it. -/
theorem visit_unnamed {st st' : EscapeState} (untargeted : Untargeted s st.table) {store : Store}
    (unnamed : store.names s = false) (run : visit sigm st store = .ok st') :
    Untargeted s st'.table ∧ st'.table.lookup s = st.table.lookup s := by
  obtain ⟨unnamedDest, unnamedRhs⟩ := Bool.or_eq_false_iff.mp unnamed
  unfold visit at run
  split at run
  · split at run
    next isDest =>
      rw [isDest] at unnamedDest
      obtain ⟨xs1, xs2, isSet1, isSet2, isTable, -⟩ := auxAssign_ok run
      rw [isTable]
      exact ⟨assignTaints_untargeted untargeted xs1
          (pointsToAux_untargeted untargeted unnamedRhs isSet2),
        lookup_assignTaints_other xs2 (pointsToAux_untargeted untargeted unnamedDest isSet1)⟩
    next isDest =>
      rw [isDest] at unnamedDest
      obtain ⟨pts, isSet, run⟩ := bind_eq_ok.mp run
      cases run
      exact ⟨addTaints_untargeted untargeted _
        (pointsToAux_untargeted untargeted unnamedRhs isSet),
        lookup_addTaints_other (Ne.symm (of_decide_eq_false unnamedDest))⟩
  · cases run
    exact ⟨untargeted, rfl⟩

theorem visit_unknown {st st' : EscapeState} (unknown : Unknown s st.table) {store : Store}
    (unnamed : store.names s = false) (run : visit sigm st store = .ok st') :
    Unknown s st'.table := by
  obtain ⟨untargeted, same⟩ := visit_unnamed unknown.untargeted unnamed run
  exact ⟨same.trans unknown.notSet, untargeted⟩

/-- The points-to set of the address of a variable. -/
theorem pointsToAux_addressOf {e : Expr} {t : Sym} {pts : List Pointsto}
    (isAddress : addressOf e = some t)
    (run : pointsToAux table (classify sigm env) lvalue e = .ok pts) :
    ∃ pt, classify sigm env t = .ok pt ∧ pts = [.ptrval pt] := by
  fun_induction addressOf e with
  | case1 tc e =>
      obtain ⟨places, isSet, run⟩ := bind_eq_ok.mp run
      cases run
      obtain ⟨pt, isPt, rfl⟩ := pointsToAux_place isAddress isSet
      exact ⟨pt, isPt, rfl⟩
  | case2 tc ty e inductionHypothesis | case3 tc ty e inductionHypothesis =>
      exact inductionHypothesis isAddress run
  | case4 => cases isAddress

omit [AilTypesAux] in
private theorem addTaints_setTo {t : Sym} (setTo : SetTo s t table) {pts : List Pointsto} (s' : Sym)
    (onlyTarget : ∀ pt ∈ pts, ∃ pt', pt = .ptrval pt' ∧ symOf pt' = some t)
    (other : t ≠ s) :
    SetTo s t (addTaints table s' pts) where
  onlyTarget pts' found pt inside := by
    by_cases same : s = s'
    · subst same
      rw [lookup_addTaints_self] at found
      cases found
      rcases List.mem_append.mp inside with inside | inside
      · exact onlyTarget pt inside
      · cases before : table.lookup s with
        | none => simp [before] at inside
        | some old =>
            rw [before] at inside
            exact setTo.onlyTarget old before pt inside
    · rw [lookup_addTaints_other same] at found
      exact setTo.onlyTarget pts' found pt inside
  untargeted := by
    refine addTaints_untargeted setTo.untargeted s' fun pt inside => ?_
    obtain ⟨pt', rfl, named⟩ := onlyTarget pt inside
    have stripped : symOf (stripPtrval pt') = some t := symOf_stripPtrval named
    rw [stripPtrval, stripped]
    exact fun same => other (Option.some.inj same)

theorem visit_setTo {t : Sym} {st st' : EscapeState} (setTo : SetTo s t st.table) {store : Store}
    (isSet : isSetTo sigm [store] s t = true) (run : visit sigm st store = .ok st') :
    SetTo s t st'.table := by
  simp only [isSetTo, List.all_cons, List.all_nil, Bool.and_true, Bool.and_eq_true,
    Bool.or_eq_true, decide_eq_true_eq, beq_iff_eq] at isSet
  obtain ⟨⟨other, isVariable⟩, unnamed | ⟨isPlace, isAddress⟩⟩ := isSet
  · obtain ⟨untargeted, same⟩ := visit_unnamed setTo.untargeted (by simpa using unnamed) run
    exact ⟨fun pts found => setTo.onlyTarget pts (same.symm.trans found), untargeted⟩
  · have only {pts : List Pointsto}
        (isSet : pointsTo st.table (classify sigm store.env) store.rhs = .ok pts) :
        ∀ pt ∈ pts, ∃ pt', pt = .ptrval pt' ∧ symOf pt' = some t := by
      obtain ⟨pt, isPt, rfl⟩ := pointsToAux_addressOf isAddress isSet
      intro pt' inside
      exact ⟨pt, List.mem_singleton.mp inside, classify_variable isPt isVariable⟩
    unfold visit at run
    split at run
    · split at run
      next e1 isDest =>
        rw [isDest] at isPlace
        obtain ⟨xs1, xs2, isSet1, isSet2, isTable, -⟩ := auxAssign_ok run
        obtain ⟨pt, -, rfl⟩ := pointsToAux_place isPlace isSet1
        rw [isTable, assignTaints, List.foldl_cons, List.foldl_nil]
        split
        next s' _ => exact addTaints_setTo setTo s' (only isSet2) other
        · exact setTo
      · obtain ⟨pts, isSet, run⟩ := bind_eq_ok.mp run
        cases run
        exact addTaints_setTo setTo _ (only isSet) other
    · cases run
      exact setTo

/-- What every visit of a store preserves holds after all of them. -/
theorem foldlM_visit_invariant {P : PtrTaints → Prop} {l : List Store} {st st' : EscapeState}
    (preserved : ∀ store ∈ l, ∀ st st', visit sigm st store = .ok st' →
      P st.table → P st'.table)
    (start : P st.table) (run : l.foldlM (visit sigm) st = .ok st') : P st'.table := by
  induction l generalizing st with
  | nil =>
      cases run
      exact start
  | cons store l inductionHypothesis =>
      rw [List.foldlM_cons] at run
      obtain ⟨st1, first, others⟩ := bind_eq_ok.mp run
      exact inductionHypothesis
        (fun store inside => preserved store (List.mem_cons_of_mem _ inside))
        (preserved store List.mem_cons_self _ _ first start) others

/-! ## Values through pointer variables -/

/-- The points-to set of what a pointer variable points to. -/
theorem pointsToAux_through {e : Expr} {pts : List Pointsto} (isThrough : throughOf e = some s)
    (run : pointsToAux table (classify sigm env) lvalue e = .ok pts) :
    ∃ pt, classify sigm env s = .ok pt ∧
      (pts = ptsDeref (getPtrTaints table [pt]) ∨ lvalue = true ∧ .wild ∈ pts) := by
  fun_induction throughOf e with
  | case1 tc e m inductionHypothesis | case2 tc ty e inductionHypothesis
  | case3 tc e inductionHypothesis => exact inductionHypothesis isThrough run
  | case4 tc tc' e isPtr =>
      obtain ⟨pts', pointer, run⟩ := bind_eq_ok.mp run
      cases run
      rw [pointsToAux, pointsToNode, if_pos isPtr.1] at pointer
      obtain ⟨places, isSet, result⟩ := bind_eq_ok.mp pointer
      cases result
      obtain ⟨pt, isPt, rfl⟩ := pointsToAux_place isThrough isSet
      refine ⟨pt, isPt, ?_⟩
      have noPointer :
          ¬ (referencedType (typeOf (.annotated tc' (.rvalue e)))).any isPointer = true :=
        isPtr.2
      simp only [pointsToDeref, if_neg noPointer]
      split
      next isLval =>
        split
        · exact .inl rfl
        · exact .inr ⟨isLval, List.mem_singleton_self _⟩
      · exact .inl rfl
  | case5 => cases isThrough
  | case6 => cases isThrough

omit [AilTypesAux] in
/-- What is read from one variable only. -/
theorem getPtrTaints_of_symOf {xs : List Pointsto} {t : Sym} {pts : List Pointsto}
    (isThere : xs ≠ [])
    (named : ∀ pt ∈ xs, symOf pt = some t) (found : table.lookup t = some pts) :
    getPtrTaints table xs = pts := by
  rcases List.eq_nil_or_concat' xs with rfl | ⟨xs, pt, rfl⟩
  · exact absurd rfl isThere
  · have isLast := named pt (by simp)
    rw [getPtrTaints, List.foldl_append, List.foldl_cons, List.foldl_nil]
    cases pt with
    | current s | localIn _ s | global s =>
        cases isLast
        simp only [found]
    | funptr _ | wild | ptrval _ => nomatch isLast

theorem withoutSet_empty : ∀ {e : Expr} {pts : List Pointsto}, withoutSet e = true →
    pointsToAux table (classify sigm env) lvalue e = .ok pts → pts = []
  | .annotated _ (.arrayDecay _), _, _, run | .annotated _ (.call _ _), _, _, run
  | .annotated _ (.const _), _, _, run => by
      cases run
      rfl
  | .annotated _ (.cast _ e), _, without, run | .annotated _ (.annot _ e), _, without, run =>
      withoutSet_empty (e := e) without run
  | .annotated _ (.binary e1 _ e2), _, without, run => by
      obtain ⟨without1, without2⟩ := Bool.and_eq_true_iff.mp without
      obtain ⟨pts1, isSet1, run⟩ := bind_eq_ok.mp run
      obtain ⟨pts2, isSet2, run⟩ := bind_eq_ok.mp run
      cases run
      rw [withoutSet_empty without1 isSet1, withoutSet_empty without2 isSet2, List.append_nil]
  | .annotated _ (.rvalue e), _, without, run => by
      have noPointer : ¬ isPointer (typeOf e) = true := by simpa [withoutSet] using without
      rw [pointsToAux, pointsToNode, if_neg noPointer] at run
      cases run
      rfl

/-- A pointer variable that is not set may point to anything. -/
theorem isUnsetValue_wild {earlier : List Store}
    (unset : ∀ s, isUnset sigm earlier s = true → table.lookup s = none) :
    ∀ {e : Expr} {pts : List Pointsto}, isUnsetValue sigm earlier e = true →
      pointsToAux table (classify sigm env) lvalue e = .ok pts → .wild ∈ pts
  | .annotated _ (.rvalue e), _, isUnset, run => by
      obtain ⟨isPtr, isUnset⟩ := Bool.and_eq_true_iff.mp isUnset
      obtain ⟨s, isPlace, isUnset⟩ := (Option.any_eq_true _ _).mp isUnset
      rw [pointsToAux, pointsToNode, if_pos isPtr] at run
      obtain ⟨places, isSet, run⟩ := bind_eq_ok.mp run
      cases run
      obtain ⟨pt, isPt, rfl⟩ := pointsToAux_place isPlace isSet
      have named : symOf pt = some s := classify_variable isPt (Bool.and_eq_true_iff.mp isUnset).1
      rw [getPtrTaints_named named, unset s isUnset]
      exact List.mem_singleton_self _
  | .annotated _ (.cast _ e), _, isUnset, run | .annotated _ (.annot _ e), _, isUnset, run =>
      isUnsetValue_wild (e := e) unset isUnset run
  | .annotated _ (.binary e1 _ e2), _, isUnset, run => by
      obtain ⟨pts1, isSet1, run⟩ := bind_eq_ok.mp run
      obtain ⟨pts2, isSet2, run⟩ := bind_eq_ok.mp run
      cases run
      rcases Bool.or_eq_true_iff.mp isUnset with isUnset | isUnset
      · exact List.mem_append_left _ (isUnsetValue_wild unset isUnset isSet1)
      · exact List.mem_append_right _ (isUnsetValue_wild unset isUnset isSet2)

/-- Anything may be stored to at an unknown place. -/
theorem isUnknownPlace_wild {earlier : List Store}
    (unset : ∀ s, isUnset sigm earlier s = true → table.lookup s = none) :
    ∀ {e : Expr} {pts : List Pointsto}, isUnknownPlace sigm earlier e = true →
      pointsToAux table (classify sigm env) true e = .ok pts → .wild ∈ pts
  | .annotated _ (.memberof e _), _, isUnknown, run | .annotated _ (.annot _ e), _, isUnknown, run
  | .annotated _ (.atomic e), _, isUnknown, run => isUnknownPlace_wild (e := e) unset isUnknown run
  | .annotated _ (.memberofptr e _), _, isUnknown, run =>
      isUnsetValue_wild (e := e) unset isUnknown run
  | .annotated _ (.unary .indirection e), _, isUnknown, run => by
      obtain ⟨pts, isSet, run⟩ := bind_eq_ok.mp run
      cases run
      have notKnown : (!pts.isEmpty && pts.all isPtrval) = false := by
        rcases Bool.or_eq_true_iff.mp isUnknown with without | isUnset
        · rw [withoutSet_empty without isSet]
          rfl
        · have wild := isUnsetValue_wild unset isUnset isSet
          rw [Bool.and_eq_false_iff]
          exact .inr (List.all_eq_false.mpr ⟨_, wild, Bool.false_ne_true⟩)
      simp only [pointsToDeref, notKnown]
      split <;> exact List.mem_singleton_self _

end

end RefinedC.Frontend.Escape
