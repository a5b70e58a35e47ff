import RefinedC.Caesium.Lang

/-!
Derived forms of Caesium expressions and statements.

Source: `theories/caesium/notation.v`, and `i2v` of `theories/caesium/val.v`.

Owns: the forms that unfold to expressions and statements of the language, annotations and
macros among them.
-/

namespace RefinedC.Caesium

open RefinedC.Library

def i2v (n : Int) (it : IntType) : Val :=
  (valOfZ n it none).getD (List.replicate it.bytesPerInt .mPoison)

structure LocationInfo where
  file : String
  lineStart : Int
  columnStart : Int
  lineEnd : Int
  columnEnd : Int

def locInfo {B : Type} (_a : LocationInfo) (b : B) : B := b

namespace Expr

def logicalAnd (ot1 ot2 : OpType) (rit : IntType) (e1 e2 : Expr) : Expr :=
  .ifE ot1 e1 (.ifE ot2 e2 (.val (i2v 1 rit)) (.val (i2v 0 rit))) (.val (i2v 0 rit))

def logicalOr (ot1 ot2 : OpType) (rit : IntType) (e1 e2 : Expr) : Expr :=
  .ifE ot1 e1 (.val (i2v 1 rit)) (.ifE ot2 e2 (.val (i2v 1 rit)) (.val (i2v 0 rit)))

def use (o : Order) (ot : OpType) (memcast : Bool) (e : Expr) : Expr := .deref o ot memcast e

def addrOf (e : Expr) : Expr := e

def lValue (e : Expr) : Expr := e

/-- An annotation takes `n` steps. -/
def annotExpr (n : Nat) {A : Type} (_a : A) (e : Expr) : Expr := Nat.repeat .skipE n e

def macroE (m : List Expr → Expr) (es : List Expr) : Expr := m es

/-- Substitution into the macro is substitution into its arguments. -/
def MacroWfSubst (m : List Expr → Expr) : Prop :=
  ∀ (x : VarName) (v : Val) (es : List Expr), subst x v (m es) = m (es.map (subst x v))

/-- Members that are not given, and padding, are poison. -/
def structInit (ly : StructLayout) (fs : List (String × Expr)) : Expr :=
  let fs := PartialMap.ofList fs
  .concat (ly.slMembers.map fun idly =>
    (idly.1.bind fs).getD (.val (List.replicate idly.2.lySize .mPoison)))

/-- The offset is the left operand. -/
def getMember (e : Expr) (s : StructLayout) (m : VarName) : Expr :=
  .binOp (.ptrOffsetOp u8.itLayout) (.intOp sizeT) .ptrOp
    (.val (((Caesium.offsetOf s.slMembers m).bind fun m => valOfZ m sizeT none).getD [.mPoison]))
    e

def offsetOf (s : StructLayout) (m : VarName) : Expr :=
  (((Caesium.offsetOf s.slMembers m).bind fun m => valOfZ m sizeT none).map .val).getD .stuckE

def getMemberUnion (e : Expr) (_ul : UnionLayout) (_m : VarName) : Expr := e

def offsetOfUnion (_ul : UnionLayout) (_m : VarName) : Expr := .val (i2v 0 sizeT)

end Expr

namespace Stmt

def assert (ot : OpType) (e : Expr) (s : Stmt) : Stmt := .ifS ot none e s .stuckS

def annotStmt (n : Nat) {A : Type} (_a : A) (s : Stmt) : Stmt := Nat.repeat .skipS n s

end Stmt

end RefinedC.Caesium
