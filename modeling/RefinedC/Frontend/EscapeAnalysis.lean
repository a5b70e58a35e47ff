import Mathlib.Data.List.ProdSigma
import RefinedC.Frontend.Warn
import RefinedC.Library.AssocList

/-!
The escape analysis.

Source: `gt_pointsto` and `warn_file` of `frontend/warn.ml`.

Owns: what is put in the table of pointer variables, the warnings on block-scoped variables
that may escape, the warnings for one file, and the sequence of stores that the analysis goes
through.

The table is shared by all functions of a file. The status of calls that `warn_unseq` computes
is left out: the source ignores it.
-/

namespace RefinedC.Frontend.Escape

open Library

/-! ## Stores -/

def stripPtrval : Pointsto → Pointsto
  | .ptrval z => stripPtrval z
  | z => z

/-- The first object lives strictly longer than the second one. -/
def gtPointsto (pt1 pt2 : Pointsto) : Bool :=
  match pt1, stripPtrval pt2 with
  | .current _, _ => false
  | .localIn n1 _, .localIn n2 _ => decide (n1 < n2)
  | .funptr _, _ | _, .funptr _ => false
  | .global _, .current _ | .global _, .localIn _ _ => true
  | .localIn _ _, .current _ => true
  | _, .wild => false
  | .wild, _ => true
  | _, _ => false

def symOf : Pointsto → Option Sym
  | .current s | .localIn _ s | .global s => some s
  | .funptr _ | .wild | .ptrval _ => none

def addTaints (table : PtrTaints) (s : Sym) (pts : List Pointsto) : PtrTaints :=
  (s, pts ++ (table.lookup s).getD []) :: table.eraseP fun entry => entry.1 = s

def assignTaints (table : PtrTaints) (xs1 xs2 : List Pointsto) : PtrTaints :=
  xs1.foldl (fun table pt =>
    match symOf pt with
    | some s => addTaints table s xs2
    | none => table) table

def escapeWarning : String := "the address of a block-scoped variable may be escaping"

/-- The table, and the warnings of the current function. -/
structure EscapeState where
  table : PtrTaints
  warnings : List String

section

variable [AilTypesAux]

def auxAssign (sigm : Sigma) (env : Env) (st : EscapeState) (e1 e2 : Expr) :
    Result EscapeState := do
  let xs1 ← pointsTo st.table (classify sigm env) e1
  let xs2 ← pointsTo st.table (classify sigm env) e2
  let table := assignTaints st.table xs1 xs2
  if xs2 ≠ [] ∧ (List.product xs1 xs2).any (fun p => gtPointsto p.1 p.2) then
    .ok ⟨table, st.warnings ++ [escapeWarning]⟩
  else .ok ⟨table, st.warnings⟩

def auxInit (sigm : Sigma) (env : Env) (st : EscapeState) (s : Sym) (e : Expr) :
    Result EscapeState := do
  let pts ← pointsTo st.table (classify sigm env) e
  .ok { st with table := addTaints st.table s pts }

/-! ## Expressions and statements -/

mutual

def auxExpr (sigm : Sigma) (env : Env) (st : EscapeState) : Expr → Result EscapeState
  | .annotated _ node => auxNode sigm env st node

def auxNode (sigm : Sigma) (env : Env) (st : EscapeState) : ExprNode → Result EscapeState
  | .builtin _ | .str _ | .const _ | .ident _ | .sizeof _ | .alignof _ | .regLoad _
  | .offsetof _ _ | .union _ _ none => .ok st
  | .assign e1 e2 | .compoundAssign e1 _ e2 => auxAssign sigm env st e1 e2
  | .unary _ e | .cast _ e | .assert e | .compound _ e | .memberof e _ | .memberofptr e _
  | .sizeofExpr e | .annot _ e | .vaStart e _ | .vaArg e _ | .vaEnd e | .printType e
  | .bmcAssume e | .rvalue e | .arrayDecay e | .functionDecay e | .atomic e
  | .union _ _ (some e) => auxExpr sigm env st e
  | .binary e1 _ e2 | .vaCopy e1 e2 | .cond e1 none e2 => do
      let st ← auxExpr sigm env st e1
      auxExpr sigm env st e2
  | .cond e1 (some e2) e3 => do
      let st ← auxExpr sigm env st e1
      let st ← auxExpr sigm env st e2
      auxExpr sigm env st e3
  | .call e es | .generic e _ es => do
      let st ← auxExpr sigm env st e
      auxExprs sigm env st es
  | .array _ es | .struct _ _ es => auxOptExprs sigm env st es
  | .gccStatement => .error (.panic "Not implemented GCC statement expr.")
  | .invalid => .error (.panic "Not implemented invalid expr.")

def auxExprs (sigm : Sigma) (env : Env) (st : EscapeState) : List Expr → Result EscapeState
  | [] => .ok st
  | e :: es => do
      let st ← auxExpr sigm env st e
      auxExprs sigm env st es

def auxOptExprs (sigm : Sigma) (env : Env) (st : EscapeState) :
    List (Option Expr) → Result EscapeState
  | [] => .ok st
  | none :: es => auxOptExprs sigm env st es
  | some e :: es => do
      let st ← auxExpr sigm env st e
      auxOptExprs sigm env st es

end

def auxDecls (sigm : Sigma) (env : Env) (st : EscapeState) :
    List (Sym × Option Expr) → Result EscapeState
  | [] => .ok st
  | (_, none) :: ds => auxDecls sigm env st ds
  | (s, some e) :: ds => do
      let st ← auxInit sigm env st s e
      let st ← auxExpr sigm env st e
      auxDecls sigm env st ds

mutual

def auxStmt (sigm : Sigma) (env : Env) (st : EscapeState) : Stmt → Result EscapeState
  | .skip | .breakS | .continueS | .returnVoid | .goto _ => .ok st
  | .expr e | .returnS e | .regStore _ e => auxExpr sigm env st e
  | .block bs ss => auxStmts sigm (env.enterBlock bs) st ss
  | .ifS e s1 s2 => do
      let st ← auxExpr sigm env st e
      let st ← auxStmt sigm env st s1
      auxStmt sigm env st s2
  | .whileS e s => do
      let st ← auxStmt sigm env st s
      auxExpr sigm env st e
  | .doS s e | .switch e s => do
      let st ← auxExpr sigm env st e
      auxStmt sigm env st s
  | .caseS _ s | .caseRangeGNU _ _ s | .default s | .label _ s => auxStmt sigm env st s
  | .declaration ds => auxDecls sigm env st ds
  | .par ss => auxStmts sigm env st ss
  | .marker _ => .error .assertFalse

def auxStmts (sigm : Sigma) (env : Env) (st : EscapeState) : List Stmt → Result EscapeState
  | [] => .ok st
  | s :: ss => do
      let st ← auxStmt sigm env st s
      auxStmts sigm env st ss

end

/-- The warnings of every function. -/
def warnFunctions (sigm : Sigma) (table : PtrTaints) :
    List (Sym × FunctionDefinition) → Result (List (Sym × List String))
  | [] => .ok []
  | (f, fd) :: defs => do
      let st ← auxStmt sigm (.ofParams fd.params) ⟨table, []⟩ fd.body
      let others ← warnFunctions sigm st.table defs
      return (f, st.warnings) :: others

/-- The warnings on escaping variables, by function, and those on unsequenced accesses. -/
def warnFile (sigm : Sigma) : Result (List (Sym × List String) × List String) := do
  let (table, races) ← taintsOfFunctions sigm sigm.declarations
  let taintsMap ← resolveCalls table
  let escapes ← warnFunctions sigm [] sigm.functionDefinitions
  let warnings ← reportRaces taintsMap races
  return (escapes, warnings)

end

/-! ## The stores of a function -/

/-- What a store stores to: an lvalue, or the variable of a declaration. -/
inductive Dest where
  | lvalue (e : Expr)
  | decl (s : Sym)

/-- An assignment, or a declaration with an initialiser. It is visited unless it stands in
another assignment. -/
structure Store where
  env : Env
  dest : Dest
  rhs : Expr
  visited : Bool

mutual

def storesOfExpr (env : Env) (visited : Bool) : Expr → List Store
  | .annotated _ node => storesOfNode env visited node

def storesOfNode (env : Env) (visited : Bool) : ExprNode → List Store
  | .builtin _ | .str _ | .const _ | .ident _ | .sizeof _ | .alignof _ | .regLoad _
  | .offsetof _ _ | .union _ _ none | .gccStatement | .invalid => []
  | .assign e1 e2 | .compoundAssign e1 _ e2 =>
      ⟨env, .lvalue e1, e2, visited⟩ :: (storesOfExpr env false e1 ++ storesOfExpr env false e2)
  | .unary _ e | .cast _ e | .assert e | .compound _ e | .memberof e _ | .memberofptr e _
  | .sizeofExpr e | .annot _ e | .vaStart e _ | .vaArg e _ | .vaEnd e | .printType e
  | .bmcAssume e | .rvalue e | .arrayDecay e | .functionDecay e | .atomic e
  | .union _ _ (some e) => storesOfExpr env visited e
  | .binary e1 _ e2 | .vaCopy e1 e2 | .cond e1 none e2 =>
      storesOfExpr env visited e1 ++ storesOfExpr env visited e2
  | .cond e1 (some e2) e3 =>
      storesOfExpr env visited e1 ++ (storesOfExpr env visited e2 ++ storesOfExpr env visited e3)
  | .call e es | .generic e _ es => storesOfExpr env visited e ++ storesOfExprs env visited es
  | .array _ es | .struct _ _ es => storesOfOptExprs env visited es

def storesOfExprs (env : Env) (visited : Bool) : List Expr → List Store
  | [] => []
  | e :: es => storesOfExpr env visited e ++ storesOfExprs env visited es

def storesOfOptExprs (env : Env) (visited : Bool) : List (Option Expr) → List Store
  | [] => []
  | none :: es => storesOfOptExprs env visited es
  | some e :: es => storesOfExpr env visited e ++ storesOfOptExprs env visited es

end

def storesOfDecls (env : Env) : List (Sym × Option Expr) → List Store
  | [] => []
  | (_, none) :: ds => storesOfDecls env ds
  | (s, some e) :: ds =>
      ⟨env, .decl s, e, true⟩ :: (storesOfExpr env true e ++ storesOfDecls env ds)

mutual

/-- The stores of a statement in the order of the analysis. -/
def storesOf (env : Env) : Stmt → List Store
  | .skip | .breakS | .continueS | .returnVoid | .goto _ | .marker _ => []
  | .expr e | .returnS e | .regStore _ e => storesOfExpr env true e
  | .block bs ss => storesOfStmts (env.enterBlock bs) ss
  | .ifS e s1 s2 => storesOfExpr env true e ++ (storesOf env s1 ++ storesOf env s2)
  | .whileS e s => storesOf env s ++ storesOfExpr env true e
  | .doS s e | .switch e s => storesOfExpr env true e ++ storesOf env s
  | .caseS _ s | .caseRangeGNU _ _ s | .default s | .label _ s => storesOf env s
  | .declaration ds => storesOfDecls env ds
  | .par ss => storesOfStmts env ss

def storesOfStmts (env : Env) : List Stmt → List Store
  | [] => []
  | s :: ss => storesOf env s ++ storesOfStmts env ss

end

/-- What the analysis does at a store. -/
def visit [AilTypesAux] (sigm : Sigma) (st : EscapeState) (store : Store) : Result EscapeState :=
  if store.visited then
    match store.dest with
    | .lvalue e1 => auxAssign sigm store.env st e1 store.rhs
    | .decl s => auxInit sigm store.env st s store.rhs
  else .ok st

/-! ## The table only grows -/

theorem lookup_addTaints_self (table : PtrTaints) (s : Sym) (pts : List Pointsto) :
    (addTaints table s pts).lookup s = some (pts ++ (table.lookup s).getD []) := by
  simp [addTaints]

theorem lookup_addTaints_other {table : PtrTaints} {s s' : Sym} {pts : List Pointsto}
    (other : s' ≠ s) : (addTaints table s pts).lookup s' = table.lookup s' := by
  have differs : (s' == s) = false := by simpa using other
  rw [addTaints, List.lookup_cons, differs]
  exact lookup_eraseP_other other

/-- What a variable may point to stays in the table. -/
def Grows (table table' : PtrTaints) : Prop :=
  ∀ s pts, table.lookup s = some pts → ∃ pts', table'.lookup s = some pts' ∧ pts ⊆ pts'

theorem Grows.refl (table : PtrTaints) : Grows table table :=
  fun _ pts found => ⟨pts, found, List.Subset.refl pts⟩

theorem Grows.trans {table table' table'' : PtrTaints} (first : Grows table table')
    (second : Grows table' table'') : Grows table table'' := by
  intro s pts found
  obtain ⟨pts', found', inside⟩ := first s pts found
  obtain ⟨pts'', found'', inside'⟩ := second s pts' found'
  exact ⟨pts'', found'', List.Subset.trans inside inside'⟩

private theorem addTaints_grows (table : PtrTaints) (s : Sym) (pts : List Pointsto) :
    Grows table (addTaints table s pts) := by
  intro s' pts' found
  by_cases same : s' = s
  · subst same
    refine ⟨_, lookup_addTaints_self table s' pts, ?_⟩
    rw [found]
    exact List.subset_append_right _ _
  · exact ⟨pts', (lookup_addTaints_other same).trans found, List.Subset.refl _⟩

private theorem assignTaints_grows (table : PtrTaints) (xs1 xs2 : List Pointsto) :
    Grows table (assignTaints table xs1 xs2) := by
  induction xs1 generalizing table with
  | nil => exact .refl table
  | cons pt xs1 inductionHypothesis =>
      rw [assignTaints, List.foldl_cons]
      split
      next s _ => exact (addTaints_grows table s xs2).trans (inductionHypothesis _)
      · exact inductionHypothesis table

/-- The stored set is in the table for a variable that is stored to. -/
theorem assignTaints_named (table : PtrTaints) {pt : Pointsto} {s : Sym} (named : symOf pt = some s)
    (xs2 : List Pointsto) :
    ∃ pts, (assignTaints table [pt] xs2).lookup s = some pts ∧ xs2 ⊆ pts := by
  simp only [assignTaints, List.foldl_cons, List.foldl_nil, named]
  exact ⟨_, lookup_addTaints_self table s xs2, List.subset_append_left _ _⟩

/-! ## The analysis goes through the stores -/

section

variable [AilTypesAux] {sigm : Sigma} {env : Env} {st st' st'' : EscapeState}

theorem foldlM_visit_append {l l' : List Store} (first : l.foldlM (visit sigm) st = .ok st')
    (second : l'.foldlM (visit sigm) st' = .ok st'') :
    (l ++ l').foldlM (visit sigm) st = .ok st'' := by
  rw [List.foldlM_append, first]
  exact second

theorem foldlM_visit_cons {store : Store} {l : List Store}
    (first : visit sigm st store = .ok st') (second : l.foldlM (visit sigm) st' = .ok st'') :
    (store :: l).foldlM (visit sigm) st = .ok st'' := by
  rw [List.foldlM_cons, first]
  exact second

mutual

/-- Stores that are not visited change nothing. -/
theorem storesOfExpr_unvisited : ∀ (e : Expr),
    (storesOfExpr env false e).foldlM (visit sigm) st = .ok st
  | .annotated _ node => storesOfNode_unvisited node

private theorem storesOfNode_unvisited : ∀ (node : ExprNode),
    (storesOfNode env false node).foldlM (visit sigm) st = .ok st
  | .builtin _ | .str _ | .const _ | .ident _ | .sizeof _ | .alignof _ | .regLoad _
  | .offsetof _ _ | .union _ _ none | .gccStatement | .invalid => rfl
  | .assign e1 e2 | .compoundAssign e1 _ e2 =>
      foldlM_visit_append (storesOfExpr_unvisited e1) (storesOfExpr_unvisited e2)
  | .unary _ e | .cast _ e | .assert e | .compound _ e | .memberof e _ | .memberofptr e _
  | .sizeofExpr e | .annot _ e | .vaStart e _ | .vaArg e _ | .vaEnd e | .printType e
  | .bmcAssume e | .rvalue e | .arrayDecay e | .functionDecay e | .atomic e
  | .union _ _ (some e) => storesOfExpr_unvisited e
  | .binary e1 _ e2 | .vaCopy e1 e2 | .cond e1 none e2 =>
      foldlM_visit_append (storesOfExpr_unvisited e1) (storesOfExpr_unvisited e2)
  | .cond e1 (some e2) e3 =>
      foldlM_visit_append (storesOfExpr_unvisited e1)
        (foldlM_visit_append (storesOfExpr_unvisited e2) (storesOfExpr_unvisited e3))
  | .call e es | .generic e _ es =>
      foldlM_visit_append (storesOfExpr_unvisited e) (storesOfExprs_unvisited es)
  | .array _ es | .struct _ _ es => storesOfOptExprs_unvisited es

private theorem storesOfExprs_unvisited : ∀ (es : List Expr),
    (storesOfExprs env false es).foldlM (visit sigm) st = .ok st
  | [] => rfl
  | e :: es => foldlM_visit_append (storesOfExpr_unvisited e) (storesOfExprs_unvisited es)

private theorem storesOfOptExprs_unvisited : ∀ (es : List (Option Expr)),
    (storesOfOptExprs env false es).foldlM (visit sigm) st = .ok st
  | [] => rfl
  | none :: es => storesOfOptExprs_unvisited es
  | some e :: es => foldlM_visit_append (storesOfExpr_unvisited e) (storesOfOptExprs_unvisited es)

end

mutual

/-- The analysis of an expression visits its stores. -/
theorem auxExpr_stores : ∀ {e : Expr} {st st' : EscapeState},
    auxExpr sigm env st e = .ok st' → (storesOfExpr env true e).foldlM (visit sigm) st = .ok st'
  | .annotated _ _, _, _, run => auxNode_stores run

private theorem auxNode_stores : ∀ {node : ExprNode} {st st' : EscapeState},
    auxNode sigm env st node = .ok st' →
      (storesOfNode env true node).foldlM (visit sigm) st = .ok st'
  | .builtin _, _, _, run | .str _, _, _, run | .const _, _, _, run | .ident _, _, _, run
  | .sizeof _, _, _, run | .alignof _, _, _, run | .regLoad _, _, _, run
  | .offsetof _ _, _, _, run | .union _ _ none, _, _, run => run
  | .gccStatement, _, _, run | .invalid, _, _, run => nomatch run
  | .assign e1 e2, _, _, run | .compoundAssign e1 _ e2, _, _, run =>
      foldlM_visit_cons run
        (foldlM_visit_append (storesOfExpr_unvisited e1) (storesOfExpr_unvisited e2))
  | .unary _ e, _, _, run | .cast _ e, _, _, run | .assert e, _, _, run
  | .compound _ e, _, _, run | .memberof e _, _, _, run | .memberofptr e _, _, _, run
  | .sizeofExpr e, _, _, run | .annot _ e, _, _, run | .vaStart e _, _, _, run
  | .vaArg e _, _, _, run | .vaEnd e, _, _, run | .printType e, _, _, run
  | .bmcAssume e, _, _, run | .rvalue e, _, _, run | .arrayDecay e, _, _, run
  | .functionDecay e, _, _, run | .atomic e, _, _, run | .union _ _ (some e), _, _, run =>
      auxExpr_stores run
  | .binary e1 _ e2, _, _, run | .vaCopy e1 e2, _, _, run | .cond e1 none e2, _, _, run => by
      obtain ⟨st1, run1, run2⟩ := bind_eq_ok.mp run
      exact foldlM_visit_append (auxExpr_stores run1) (auxExpr_stores run2)
  | .cond e1 (some e2) e3, _, _, run => by
      obtain ⟨st1, run1, run⟩ := bind_eq_ok.mp run
      obtain ⟨st2, run2, run3⟩ := bind_eq_ok.mp run
      exact foldlM_visit_append (auxExpr_stores run1)
        (foldlM_visit_append (auxExpr_stores run2) (auxExpr_stores run3))
  | .call e es, _, _, run | .generic e _ es, _, _, run => by
      obtain ⟨st1, run1, run2⟩ := bind_eq_ok.mp run
      exact foldlM_visit_append (auxExpr_stores run1) (auxExprs_stores run2)
  | .array _ es, _, _, run | .struct _ _ es, _, _, run => auxOptExprs_stores run

private theorem auxExprs_stores : ∀ {es : List Expr} {st st' : EscapeState},
    auxExprs sigm env st es = .ok st' →
      (storesOfExprs env true es).foldlM (visit sigm) st = .ok st'
  | [], _, _, run => run
  | e :: es, _, _, run => by
      obtain ⟨st1, run1, run2⟩ := bind_eq_ok.mp run
      exact foldlM_visit_append (auxExpr_stores run1) (auxExprs_stores run2)

private theorem auxOptExprs_stores : ∀ {l : List (Option Expr)} {st st' : EscapeState},
    auxOptExprs sigm env st l = .ok st' →
      (storesOfOptExprs env true l).foldlM (visit sigm) st = .ok st'
  | [], _, _, run => run
  | none :: es, _, _, run => auxOptExprs_stores (l := es) run
  | some e :: es, _, _, run => by
      obtain ⟨st1, run1, run2⟩ := bind_eq_ok.mp run
      exact foldlM_visit_append (auxExpr_stores run1) (auxOptExprs_stores run2)

end

private theorem auxDecls_stores {ds : List (Sym × Option Expr)}
    (run : auxDecls sigm env st ds = .ok st') :
    (storesOfDecls env ds).foldlM (visit sigm) st = .ok st' := by
  induction ds generalizing st with
  | nil => exact run
  | cons d ds inductionHypothesis =>
      obtain ⟨s, _ | e⟩ := d
      · exact inductionHypothesis run
      · obtain ⟨st1, run1, run⟩ := bind_eq_ok.mp run
        obtain ⟨st2, run2, run3⟩ := bind_eq_ok.mp run
        exact foldlM_visit_cons run1
          (foldlM_visit_append (auxExpr_stores run2) (inductionHypothesis run3))

mutual

/-- The analysis of a statement visits its stores. -/
theorem auxStmt_stores : ∀ {s : Stmt} {env : Env} {st st' : EscapeState},
    auxStmt sigm env st s = .ok st' → (storesOf env s).foldlM (visit sigm) st = .ok st'
  | .skip, _, _, _, run | .breakS, _, _, _, run | .continueS, _, _, _, run
  | .returnVoid, _, _, _, run | .goto _, _, _, _, run => run
  | .marker _, _, _, _, run => nomatch run
  | .expr e, _, _, _, run | .returnS e, _, _, _, run | .regStore _ e, _, _, _, run =>
      auxExpr_stores run
  | .block _ ss, _, _, _, run => auxStmts_stores (l := ss) run
  | .ifS e s1 s2, _, _, _, run => by
      obtain ⟨st1, run1, run⟩ := bind_eq_ok.mp run
      obtain ⟨st2, run2, run3⟩ := bind_eq_ok.mp run
      exact foldlM_visit_append (auxExpr_stores run1)
        (foldlM_visit_append (auxStmt_stores run2) (auxStmt_stores run3))
  | .whileS e s, _, _, _, run => by
      obtain ⟨st1, run1, run2⟩ := bind_eq_ok.mp run
      exact foldlM_visit_append (auxStmt_stores run1) (auxExpr_stores run2)
  | .doS s e, _, _, _, run | .switch e s, _, _, _, run => by
      obtain ⟨st1, run1, run2⟩ := bind_eq_ok.mp run
      exact foldlM_visit_append (auxExpr_stores run1) (auxStmt_stores run2)
  | .caseS _ s, _, _, _, run | .caseRangeGNU _ _ s, _, _, _, run | .default s, _, _, _, run
  | .label _ s, _, _, _, run => auxStmt_stores (s := s) run
  | .declaration ds, _, _, _, run => auxDecls_stores run
  | .par ss, _, _, _, run => auxStmts_stores (l := ss) run

private theorem auxStmts_stores : ∀ {l : List Stmt} {env : Env} {st st' : EscapeState},
    auxStmts sigm env st l = .ok st' → (storesOfStmts env l).foldlM (visit sigm) st = .ok st'
  | [], _, _, _, run => run
  | s :: ss, _, _, _, run => by
      obtain ⟨st1, run1, run2⟩ := bind_eq_ok.mp run
      exact foldlM_visit_append (auxStmt_stores run1) (auxStmts_stores run2)

end

/-! ## The table in a run of the analysis -/

theorem auxAssign_ok {e1 e2 : Expr} (run : auxAssign sigm env st e1 e2 = .ok st') :
    ∃ xs1 xs2, pointsTo st.table (classify sigm env) e1 = .ok xs1 ∧
      pointsTo st.table (classify sigm env) e2 = .ok xs2 ∧
      st'.table = assignTaints st.table xs1 xs2 ∧
      (escapeWarning ∈ st.warnings → escapeWarning ∈ st'.warnings) ∧
      ∀ pt1 ∈ xs1, ∀ pt2 ∈ xs2, gtPointsto pt1 pt2 = true →
        escapeWarning ∈ st'.warnings := by
  obtain ⟨xs1, isDest, run⟩ := bind_eq_ok.mp run
  obtain ⟨xs2, isValue, run⟩ := bind_eq_ok.mp run
  refine ⟨xs1, xs2, isDest, isValue, ?_⟩
  split at run
  · cases run
    exact ⟨rfl, List.mem_append_left _, fun _ _ _ _ _ => by simp⟩
  next quiet =>
    cases run
    refine ⟨rfl, id, fun pt1 inDest pt2 inValue longer => absurd ?_ quiet⟩
    refine ⟨List.ne_nil_of_mem inValue, List.any_eq_true.mpr ⟨(pt1, pt2), ?_, longer⟩⟩
    exact List.mem_product.mpr ⟨inDest, inValue⟩

private theorem visit_grows {store : Store} (run : visit sigm st store = .ok st') :
    Grows st.table st'.table ∧
    (escapeWarning ∈ st.warnings → escapeWarning ∈ st'.warnings) := by
  unfold visit at run
  split at run
  · split at run
    · obtain ⟨xs1, xs2, -, -, isTable, stays, -⟩ := auxAssign_ok run
      exact ⟨isTable ▸ assignTaints_grows _ _ _, stays⟩
    · obtain ⟨pts, -, run⟩ := bind_eq_ok.mp run
      cases run
      exact ⟨addTaints_grows _ _ _, id⟩
  · cases run
    exact ⟨.refl _, id⟩

theorem foldlM_visit_grows {l : List Store} (run : l.foldlM (visit sigm) st = .ok st') :
    Grows st.table st'.table ∧
    (escapeWarning ∈ st.warnings → escapeWarning ∈ st'.warnings) := by
  induction l generalizing st with
  | nil =>
      cases run
      exact ⟨.refl _, id⟩
  | cons store l inductionHypothesis =>
      rw [List.foldlM_cons] at run
      obtain ⟨st1, first, others⟩ := bind_eq_ok.mp run
      obtain ⟨grows, stays⟩ := visit_grows first
      obtain ⟨grows', stays'⟩ := inductionHypothesis others
      exact ⟨grows.trans grows', stays' ∘ stays⟩

end

end RefinedC.Frontend.Escape
