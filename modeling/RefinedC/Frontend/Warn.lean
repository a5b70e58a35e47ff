import RefinedC.Frontend.Ail

/-!
The analysis of unsequenced accesses.

Source: `frontend/warn.ml`.

Owns: scopes and the classification of variables, the points-to sets of
expressions over a table of what pointer variables may point to, the taints
(loads, stores and calls) of expressions and functions with the pairs that may
race, the resolution of calls, the aliasing test, and the warnings on recorded
pairs.

Does not own: the escape analysis, and `warn_file`, which runs it between
collecting the taints and reporting the races. It neither reads nor extends the
recorded pairs, and the table that it fills is still empty when the taints are
computed.

The recorded pairs of an expression are listed in the order of its operands.
-/

namespace RefinedC.Frontend

open Library

/-- Functions of Cerberus on C types. -/
class AilTypesAux where
  isPointer : CType → Bool
  referencedType : CType → Option CType

export AilTypesAux (isPointer referencedType)

/-- The functions on types without qualifiers. -/
@[reducible]
def plainTypes : AilTypesAux where
  isPointer
    | .pointer _ => true
    | _ => false
  referencedType
    | .pointer ty => some ty
    | _ => none

/-! ## Scopes -/

/-- Scopes from the innermost outwards: block number and registered symbols. -/
abbrev Scopes := List (Nat × List Sym)

namespace Scopes

def createScope (n : Nat) (scopes : Scopes) : Scopes := (n, []) :: scopes

def register (s : Sym) : Scopes → Scopes
  | [] => []
  | (n, syms) :: scopes => (n, s :: syms) :: scopes

def resolve (s : Sym) : Scopes → Option Nat
  | [] => none
  | (n, syms) :: scopes => if s ∈ syms then some n else resolve s scopes

def currentScopeIs : Scopes → Option Nat
  | [] => none
  | (n, _) :: _ => some n

end Scopes

structure Env where
  counter : Nat
  scopes : Scopes

/-- Environment of a function body: parameters live in a block scope. -/
def Env.ofParams (params : List Sym) : Env :=
  ⟨1, params.foldl (fun scopes s => scopes.register s) (Scopes.createScope 0 [])⟩

def Env.enterBlock (env : Env) (bindings : List (Sym × CType)) : Env :=
  ⟨env.counter + 1, bindings.foldl (fun scopes b => scopes.register b.1)
    (env.scopes.createScope env.counter)⟩

/-! ## Points-to sets -/

inductive Pointsto where
  | current (s : Sym)
  | localIn (scope : Nat) (s : Sym)
  | funptr (s : Sym)
  | global (s : Sym)
  | wild
  | ptrval (p : Pointsto)
deriving DecidableEq, Repr

def classify (sigm : Sigma) (env : Env) (s : Sym) : Result Pointsto :=
  match sigm.declarations.lookup s with
  | some (.object _) => .ok (.global s)
  | some (.function _ _) => .ok (.funptr s)
  | none =>
      match env.scopes.resolve s with
      | none => .error .assertFalse
      | some scope =>
          if some scope = env.scopes.currentScopeIs then .ok (.current s)
          else .ok (.localIn scope s)

/-- What has been stored in variables, the newest element first. -/
abbrev PtrTaints := List (Sym × List Pointsto)

def getPtrTaints (table : PtrTaints) (xs : List Pointsto) : List Pointsto :=
  xs.foldl (fun acc pt =>
    match pt with
    | .current s | .localIn _ s | .global s =>
        match table.lookup s with
        | some z => z
        | none => [.wild]
    | .funptr _ | .wild | .ptrval _ => acc) []

def isPtrval : Pointsto → Bool
  | .ptrval _ => true
  | _ => false

def ptsDeref (pts : List Pointsto) : List Pointsto :=
  pts.foldl (fun acc pt =>
    match pt with
    | .ptrval pt' => pt' :: acc
    | _ => acc) []

section

variable [AilTypesAux]

/-- Points-to set of a dereference, from that of the pointer. -/
def pointsToDeref (table : PtrTaints) (isLvalue : Bool) (ty : CType) (pts : List Pointsto) :
    List Pointsto :=
  let known := !pts.isEmpty && pts.all isPtrval
  if (referencedType ty).any isPointer then
    if known then getPtrTaints table (ptsDeref pts) else [.wild]
  else if isLvalue then
    if known then ptsDeref pts else [.wild]
  else ptsDeref pts

mutual

def pointsToAux (table : PtrTaints) (classify : Sym → Result Pointsto) (isLvalue : Bool) :
    Expr → Result (List Pointsto)
  | .annotated _ node => pointsToNode table classify isLvalue node

def pointsToNode (table : PtrTaints) (classify : Sym → Result Pointsto) (isLvalue : Bool) :
    ExprNode → Result (List Pointsto)
  | .builtin _ | .str _ | .const _ | .sizeof _ | .alignof _ | .regLoad _ | .sizeofExpr _
  | .offsetof _ _ | .assert _ => .ok []
  | .ident s => do
      let pt ← classify s
      return [pt]
  | .unary .address e => do
      let pts ← pointsToAux table classify isLvalue e
      return pts.map .ptrval
  | .unary .indirection e => do
      let pts ← pointsToAux table classify isLvalue e
      return pointsToDeref table isLvalue (typeOf e) pts
  | .unary _ e | .cast _ e | .memberof e _ | .memberofptr e _ | .annot _ e | .printType e
  | .bmcAssume e | .atomic e => pointsToAux table classify isLvalue e
  | .compound _ _ | .vaStart _ _ | .vaArg _ _ | .vaEnd _ | .vaCopy _ _ | .arrayDecay _
  | .functionDecay _ | .call _ _ | .generic _ _ _ | .array _ _ | .struct _ _ _ | .union _ _ _ =>
      .ok []
  | .rvalue e =>
      if isPointer (typeOf e) then do
        let pts ← pointsToAux table classify isLvalue e
        return getPtrTaints table pts
      else .ok []
  | .binary e1 _ e2 => do
      let pts1 ← pointsToAux table classify isLvalue e1
      let pts2 ← pointsToAux table classify isLvalue e2
      return pts1 ++ pts2
  | .assign _ e2 | .compoundAssign _ _ e2 | .cond _ none e2 =>
      pointsToAux table classify isLvalue e2
  | .cond _ (some e2) e3 => do
      let pts2 ← pointsToAux table classify isLvalue e2
      let pts3 ← pointsToAux table classify isLvalue e3
      return pts2 ++ pts3
  | .gccStatement => .error (.panic "Not implemented GCC statement expr.")
  | .invalid => .error (.panic "Not implemented invalid expr.")

end

def isLvalue (e : Expr) : Bool :=
  match tcOf e with
  | .lvalue _ => true
  | .rvalue _ => false

def pointsTo (table : PtrTaints) (classify : Sym → Result Pointsto) (e : Expr) :
    Result (List Pointsto) :=
  pointsToAux table classify (isLvalue e) e

end

/-! ## Taints -/

inductive Taint where
  | load (p : Pointsto)
  | store (p : Pointsto)
  | callWild
  | call (f : Sym)
deriving DecidableEq, Repr

/-- Taints of an expression and the pairs recorded for it. -/
structure Taints where
  taints : List Taint
  races : List (List Taint × List Taint)

namespace Taints

def empty : Taints := ⟨[], []⟩

def merge (t1 t2 : Taints) : Taints := ⟨t1.taints ++ t2.taints, t1.races ++ t2.races⟩

/-- Operands of a binary operator: a pair is recorded if both have taints. -/
def ofOperands (t1 t2 : Taints) : Taints :=
  let merged := t1.merge t2
  if t1.taints = [] ∨ t2.taints = [] then merged
  else ⟨merged.taints, (t1.taints, t2.taints) :: merged.races⟩

end Taints

def callTaint : Expr → Taint
  | .annotated _ (.functionDecay (.annotated _ (.ident f))) => .call f
  | _ => .callWild

mutual

def taintExpr (pointsTo : Expr → Result (List Pointsto)) : Expr → Result Taints
  | .annotated _ node => taintNode pointsTo node

def taintNode (pointsTo : Expr → Result (List Pointsto)) : ExprNode → Result Taints
  | .rvalue e => do
      let pts ← pointsTo e
      return ⟨pts.map .load, []⟩
  | .offsetof _ _ | .builtin _ | .str _ | .const _ | .ident _ | .sizeof _ | .alignof _
  | .regLoad _ | .union _ _ none => .ok .empty
  | .unary _ e | .cast _ e | .assert e | .compound _ e | .memberof e _ | .memberofptr e _
  | .sizeofExpr e | .annot _ e | .vaStart e _ | .vaArg e _ | .vaEnd e | .printType e
  | .bmcAssume e | .arrayDecay e | .functionDecay e | .union _ _ (some e) | .atomic e =>
      taintExpr pointsTo e
  | .binary e1 _ e2 => do
      let t1 ← taintExpr pointsTo e1
      let t2 ← taintExpr pointsTo e2
      return t1.ofOperands t2
  | .assign e1 e2 | .compoundAssign e1 _ e2 => do
      let pts ← pointsTo e1
      let t1 ← taintExpr pointsTo e1
      let t2 ← taintExpr pointsTo e2
      return (Taints.mk (pts.map .store) []).merge (t1.merge t2)
  | .cond e1 none e3 | .vaCopy e1 e3 => do
      let t1 ← taintExpr pointsTo e1
      let t3 ← taintExpr pointsTo e3
      return t1.merge t3
  | .cond e1 (some e2) e3 => do
      let t1 ← taintExpr pointsTo e1
      let t2 ← taintExpr pointsTo e2
      let t3 ← taintExpr pointsTo e3
      return t1.merge (t2.merge t3)
  | .call e es => do
      let ts ← taintExprs pointsTo es
      return (Taints.mk [callTaint e] []).merge ts
  | .generic e _ es => do
      let t ← taintExpr pointsTo e
      let ts ← taintExprs pointsTo es
      return t.merge ts
  | .array _ es | .struct _ _ es => taintOptExprs pointsTo es
  | .gccStatement => .error (.panic "Not implemented GCC statement expr.")
  | .invalid => .error (.panic "Not implemented invalid expr.")

def taintExprs (pointsTo : Expr → Result (List Pointsto)) : List Expr → Result Taints
  | [] => .ok .empty
  | e :: es => do
      let t ← taintExpr pointsTo e
      let ts ← taintExprs pointsTo es
      return t.merge ts

def taintOptExprs (pointsTo : Expr → Result (List Pointsto)) :
    List (Option Expr) → Result Taints
  | [] => .ok .empty
  | none :: es => taintOptExprs pointsTo es
  | some e :: es => do
      let t ← taintExpr pointsTo e
      let ts ← taintOptExprs pointsTo es
      return t.merge ts

end

/-- Initialisers of a declaration. -/
def taintDecls (pointsTo : Expr → Result (List Pointsto)) :
    List (Sym × Option Expr) → Result Taints
  | [] => .ok .empty
  | (_, none) :: ds => taintDecls pointsTo ds
  | (_, some e) :: ds => do
      let t ← taintExpr pointsTo e
      let ts ← taintDecls pointsTo ds
      return t.merge ts

section

variable [AilTypesAux]

/-- The points-to sets of the analysis. Nothing is known yet about any pointer
variable. -/
def pointsToIn (sigm : Sigma) (env : Env) : Expr → Result (List Pointsto) :=
  pointsTo [] (classify sigm env)

mutual

def taintStmt (sigm : Sigma) (env : Env) : Stmt → Result Taints
  | .skip | .breakS | .continueS | .returnVoid | .goto _ => .ok .empty
  | .expr e | .returnS e | .regStore _ e => taintExpr (pointsToIn sigm env) e
  | .block bs ss => taintStmts sigm (env.enterBlock bs) ss
  | .ifS e s1 s2 => do
      let t ← taintExpr (pointsToIn sigm env) e
      let t1 ← taintStmt sigm env s1
      let t2 ← taintStmt sigm env s2
      return t.merge (t1.merge t2)
  | .whileS e s | .doS s e | .switch e s => do
      let t ← taintExpr (pointsToIn sigm env) e
      let t1 ← taintStmt sigm env s
      return t.merge t1
  | .caseS _ s | .caseRangeGNU _ _ s | .default s | .label _ s => taintStmt sigm env s
  | .declaration ds => taintDecls (pointsToIn sigm env) ds
  | .par ss => taintStmts sigm env ss
  | .marker _ => .error .assertFalse

def taintStmts (sigm : Sigma) (env : Env) : List Stmt → Result Taints
  | [] => .ok .empty
  | s :: ss => do
      let t ← taintStmt sigm env s
      let ts ← taintStmts sigm env ss
      return t.merge ts

end

/-- Taints of a declared function. A function without definition may do
anything. -/
def taintFunction (sigm : Sigma) (f : Sym) : Result Taints :=
  match sigm.functionDefinitions.lookup f with
  | none => .ok ⟨[.store .wild], []⟩
  | some fd => taintStmt sigm (.ofParams fd.params) fd.body

abbrev TaintTable := List (Sym × List Taint)

/-- The table of function taints, last declaration first, and all recorded
pairs. -/
def taintsOfFunctions (sigm : Sigma) :
    List (Sym × Decl) → Result (TaintTable × List (List Taint × List Taint))
  | [] => .ok ([], [])
  | (_, .object _) :: decls => taintsOfFunctions sigm decls
  | (f, .function _ _) :: decls => do
      let t ← taintFunction sigm f
      let (table, races) ← taintsOfFunctions sigm decls
      return (table ++ [(f, t.taints)], t.races ++ races)

end

/-! ## Resolution of calls -/

/-- `List.assoc`. -/
def assoc (f : Sym) (table : TaintTable) : Result (List Taint) :=
  match table.lookup f with
  | none => .error .notFound
  | some pts => .ok pts

/-- One step of `resolve_calls` in the entry of `fsym`. -/
def resolveStep (table : TaintTable) (fsym : Sym) (acc : List Taint) :
    Taint → Result (List Taint)
  | .call f =>
      if f = fsym then .ok acc
      else do
        let pts ← assoc f table
        return pts ++ acc
  | .callWild => .ok [.store .wild]
  | z => .ok (z :: acc)

def resolveEntry (table : TaintTable) (fsym : Sym) (pts : List Taint) : Result (List Taint) :=
  pts.foldlM (resolveStep table fsym) []

def resolveCalls (xs : TaintTable) : Result TaintTable :=
  xs.mapM (fun entry => do
    let pts ← resolveEntry xs entry.1 entry.2
    return (entry.1, pts))

def resolveStep2 (taintsMap : TaintTable) (acc : List Taint) : Taint → Result (List Taint)
  | .call f => do
      let pts ← assoc f taintsMap
      return pts ++ acc
  | .callWild => .ok [.store .wild]
  | z => .ok (z :: acc)

def resolveCalls2 (taintsMap : TaintTable) (pts : List Taint) : Result (List Taint) :=
  pts.foldlM (resolveStep2 taintsMap) []

/-! ## Reporting -/

def aliasPointsto : Pointsto → Pointsto → Bool
  | .wild, _ | _, .wild => true
  | .current s1, .current s2 | .localIn _ s1, .localIn _ s2 | .funptr s1, .funptr s2
  | .global s1, .global s2 => decide (s1 = s2)
  | _, _ => false

/-- Two resolved taints. Calls are not expected here. -/
def aliasTaints : Taint → Taint → Result Bool
  | .load _, .load _ => .ok false
  | .store z1, .store z2 | .store z1, .load z2 | .load z1, .store z2 => .ok (aliasPointsto z1 z2)
  | _, _ => .error .assertFalse

def mayAlias (pts1 pts2 : List Taint) : Result Bool :=
  (List.product pts1 pts2).anyM (fun p => aliasTaints p.1 p.2)

def unsequencedWarning : String := "a function call potentially introduces non-determinism"

/-- Warnings for the recorded pairs. -/
def reportRaces (taintsMap : TaintTable) :
    List (List Taint × List Taint) → Result (List String)
  | [] => .ok []
  | (xs1, xs2) :: races => do
      let pts1 ← resolveCalls2 taintsMap xs1
      let pts2 ← resolveCalls2 taintsMap xs2
      let racy ← mayAlias pts1 pts2
      let warnings ← reportRaces taintsMap races
      return if racy then unsequencedWarning :: warnings else warnings

end RefinedC.Frontend
