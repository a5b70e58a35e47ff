import Mathlib.Logic.Relation
import RefinedC.Frontend.Warn

/-!
Effects of C expressions, and conflicts between unsequenced operands.

Owns: the evaluated operands of an expression, the objects that its lvalues and
pointers may stand for, the loads, stores and calls that an expression performs
itself, the accesses it may perform through the functions it calls, and the
operands whose evaluation C leaves unsequenced.

Does not own: the analysis. Nothing here refers to taints or points-to sets.
-/

namespace RefinedC.Frontend

/-! ## Effects of one expression -/

/-- An object that an access concerns: a named variable, or one that is not
known. -/
inductive Obj where
  | named (s : Sym)
  | any
deriving DecidableEq

mutual

/-- The objects that an lvalue may designate. A literal is none of them: no other expression
designates it. -/
def designated : Expr → List Obj
  | .annotated _ node => designatedNode node

def designatedNode : ExprNode → List Obj
  | .ident s => [.named s]
  | .memberof e _ | .annot _ e | .printType e | .bmcAssume e | .atomic e => designated e
  | .memberofptr e _ | .unary .indirection e => pointees e
  | .compound _ _ | .str _ => []
  | _ => [.any]

/-- The objects that the value of a pointer expression may point to. A pointer that is read from
a variable or returned by a call may point anywhere. -/
def pointees : Expr → List Obj
  | .annotated _ node => pointeesNode node

def pointeesNode : ExprNode → List Obj
  | .unary .address e | .arrayDecay e => designated e
  | .functionDecay _ | .const .null => []
  | .cast _ e | .annot _ e | .printType e | .bmcAssume e | .atomic e | .assign _ e
  | .binary _ .comma e => pointees e
  | .binary e1 (.arithmetic _) e2 =>
      match typeOf e1, typeOf e2 with
      | .pointer _, _ => pointees e1
      | _, .pointer _ => pointees e2
      | _, _ => [.any]
  | .cond e1 none e3 => pointees e1 ++ pointees e3
  | .cond _ (some e2) e3 => pointees e2 ++ pointees e3
  | _ => [.any]

end

mutual

/-- Expressions of a statement, each with the scopes it stands in. -/
def exprsOf (env : Env) : Stmt → List (Env × Expr)
  | .skip | .breakS | .continueS | .returnVoid | .goto _ | .marker _ => []
  | .expr e | .returnS e | .regStore _ e => [(env, e)]
  | .block bs ss => exprsOfStmts (env.enterBlock bs) ss
  | .ifS e s1 s2 => (env, e) :: (exprsOf env s1 ++ exprsOf env s2)
  | .whileS e s | .doS s e | .switch e s => (env, e) :: exprsOf env s
  | .caseS _ s | .caseRangeGNU _ _ s | .default s | .label _ s => exprsOf env s
  | .declaration ds => (ds.filterMap Prod.snd).map (fun e => (env, e))
  | .par ss => exprsOfStmts env ss

def exprsOfStmts (env : Env) : List Stmt → List (Env × Expr)
  | [] => []
  | s :: ss => exprsOf env s ++ exprsOfStmts env ss

end

/-- Expression `e` stands in the body of function `f`, in the scopes `env`. -/
def InFunction (sigm : Sigma) (f : Sym) (env : Env) (e : Expr) : Prop :=
  ∃ fd, sigm.functionDefinitions.lookup f = some fd ∧
    (env, e) ∈ exprsOf (.ofParams fd.params) fd.body

/-- Declared functions. -/
def functionNames (sigm : Sigma) : List Sym :=
  sigm.declarations.filterMap fun
    | (f, .function _ _) => some f
    | (_, .object _) => none

/-- Function `f` is declared. -/
def IsFunction (sigm : Sigma) (f : Sym) : Prop :=
  ∃ ret params, (f, Decl.function ret params) ∈ sigm.declarations

theorem mem_functionNames {sigm : Sigma} {f : Sym} :
    f ∈ functionNames sigm ↔ IsFunction sigm f := by
  unfold functionNames IsFunction
  rw [List.mem_filterMap]
  constructor
  · rintro ⟨⟨g, decl⟩, member, same⟩
    cases decl with
    | function ret params =>
        cases same
        exact ⟨ret, params, member⟩
    | object ty => cases same
  · rintro ⟨ret, params, member⟩
    exact ⟨_, member, rfl⟩

end RefinedC.Frontend
