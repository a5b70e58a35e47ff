import RefinedC.Caesium.Notation

/-!
Reified expressions and statements.

Source: module `W` of `theories/caesium/tactics.v`.

Owns: the syntax with a constructor for each derived form, what it stands for, and
substitution on it.

An annotation may have any type, and a reified macro comes with the proof that substitution
goes through it.
-/

namespace RefinedC.Caesium

namespace W

/-! ## Syntax -/

inductive Expr where
  | var (x : VarName)
  | loc (l : Loc)
  | val (v : Val)
  | unOp (op : UnOp) (ot : OpType) (e : Expr)
  | binOp (op : BinOp) (ot1 ot2 : OpType) (e1 e2 : Expr)
  | copyAllocId (ot1 : OpType) (e1 e2 : Expr)
  | deref (o : Order) (ot : OpType) (memcast : Bool) (e : Expr)
  | cas (ot : OpType) (e1 e2 e3 : Expr)
  | call (f : Expr) (args : List Expr)
  | concat (es : List Expr)
  | ifE (ot : OpType) (e1 e2 e3 : Expr)
  | alloc (ly : Layout) (e : Expr)
  | skipE (e : Expr)
  | stuckE
  -- the derived forms
  | logicalAnd (ot1 ot2 : OpType) (rit : IntType) (e1 e2 : Expr)
  | logicalOr (ot1 ot2 : OpType) (rit : IntType) (e1 e2 : Expr)
  | use (o : Order) (ot : OpType) (memcast : Bool) (e : Expr)
  | addrOf (e : Expr)
  | lValue (e : Expr)
  | getMember (e : Expr) (s : StructLayout) (m : VarName)
  | getMemberUnion (e : Expr) (ul : UnionLayout) (m : VarName)
  | offsetOf (s : StructLayout) (m : VarName)
  | offsetOfUnion (ul : UnionLayout) (m : VarName)
  | annotExpr (n : Nat) {A : Type} (a : A) (e : Expr)
  | locInfoE (a : LocationInfo) (e : Expr)
  | structInit (ly : StructLayout) (fs : List (String × Expr))
  | macroE (m : List Caesium.Expr → Caesium.Expr) (es : List Expr) (wf : Expr.MacroWfSubst m)
  /-- An opaque expression. -/
  | expr (e : Caesium.Expr)

inductive Stmt where
  | goto (b : Label)
  | return (e : Expr)
  | ifS (ot : OpType) (join : Option Label) (e : Expr) (s1 s2 : Stmt)
  | switch (it : IntType) (e : Expr) (m : Library.PartialMap Int Nat) (bs : List Stmt)
      (def_ : Stmt)
  | assign (o : Order) (ot : OpType) (e1 e2 : Expr) (s : Stmt)
  | free (ly : Layout) (e : Expr) (s : Stmt)
  | skipS (s : Stmt)
  | stuckS
  | exprS (e : Expr) (s : Stmt)
  | assert (ot : OpType) (e : Expr) (s : Stmt)
  | annotStmt (n : Nat) {A : Type} (a : A) (s : Stmt)
  | locInfoS (a : LocationInfo) (s : Stmt)
  /-- An opaque statement. -/
  | stmt (s : Caesium.Stmt)

/-! ## What it stands for -/

mutual

def toExpr (e : Expr) : Caesium.Expr :=
  match e with
  | .val v => .val v
  | .loc l => .val (valOfLoc l)
  | .var x => .var x
  | .unOp op ot e => .unOp op ot (toExpr e)
  | .binOp op ot1 ot2 e1 e2 => .binOp op ot1 ot2 (toExpr e1) (toExpr e2)
  | .copyAllocId ot1 e1 e2 => .copyAllocId ot1 (toExpr e1) (toExpr e2)
  | .deref o ot mc e => .deref o ot mc (toExpr e)
  | .cas ot e1 e2 e3 => .cas ot (toExpr e1) (toExpr e2) (toExpr e3)
  | .call f args => .call (toExpr f) (toExprs args)
  | .concat es => .concat (toExprs es)
  | .ifE ot e1 e2 e3 => .ifE ot (toExpr e1) (toExpr e2) (toExpr e3)
  | .alloc ly e => .alloc ly (toExpr e)
  | .skipE e => .skipE (toExpr e)
  | .stuckE => .stuckE
  | .logicalAnd ot1 ot2 rit e1 e2 => .logicalAnd ot1 ot2 rit (toExpr e1) (toExpr e2)
  | .logicalOr ot1 ot2 rit e1 e2 => .logicalOr ot1 ot2 rit (toExpr e1) (toExpr e2)
  | .use o ot mc e => .use o ot mc (toExpr e)
  | .addrOf e => .addrOf (toExpr e)
  | .lValue e => .lValue (toExpr e)
  | .annotExpr n a e => .annotExpr n a (toExpr e)
  | .locInfoE a e => locInfo a (toExpr e)
  | .structInit ly fs => .structInit ly (toFields fs)
  | .getMember e s m => .getMember (toExpr e) s m
  | .getMemberUnion e ul m => .getMemberUnion (toExpr e) ul m
  | .offsetOf s m => .offsetOf s m
  | .offsetOfUnion ul m => .offsetOfUnion ul m
  | .macroE m es _ => .macroE m (toExprs es)
  | .expr e => e

def toExprs (es : List Expr) : List Caesium.Expr :=
  match es with
  | [] => []
  | e :: es => toExpr e :: toExprs es

def toFields (fs : List (String × Expr)) : List (String × Caesium.Expr) :=
  match fs with
  | [] => []
  | (x, e) :: fs => (x, toExpr e) :: toFields fs

end

mutual

def toStmt (s : Stmt) : Caesium.Stmt :=
  match s with
  | .goto b => .goto b
  | .return e => .return (toExpr e)
  | .ifS ot join e s1 s2 => .ifS ot join (toExpr e) (toStmt s1) (toStmt s2)
  | .switch it e m bs def_ => .switch it (toExpr e) m (toStmts bs) (toStmt def_)
  | .assign o ot e1 e2 s => .assign o ot (toExpr e1) (toExpr e2) (toStmt s)
  | .free ly e s => .free ly (toExpr e) (toStmt s)
  | .skipS s => .skipS (toStmt s)
  | .stuckS => .stuckS
  | .exprS e s => .exprS (toExpr e) (toStmt s)
  | .assert ot e s => .assert ot (toExpr e) (toStmt s)
  | .annotStmt n a s => .annotStmt n a (toStmt s)
  | .locInfoS a s => locInfo a (toStmt s)
  | .stmt s => s

def toStmts (ss : List Stmt) : List Caesium.Stmt :=
  match ss with
  | [] => []
  | s :: ss => toStmt s :: toStmts ss

end

/-! ## Substitution -/

/-- The first element with the property. -/
def listFindFast {α : Type} (p : α → Bool) : List α → Option α
  | [] => none
  | x :: l => if p x then some x else listFindFast p l

mutual

def substL (xs : List (VarName × Val)) (e : Expr) : Expr :=
  match e with
  | .var y =>
      match listFindFast (fun x => decide (x.1 = y)) xs with
      | some (_, v) => .val v
      | none => .var y
  | .loc l => .loc l
  | .val v => .val v
  | .unOp op ot e => .unOp op ot (substL xs e)
  | .binOp op ot1 ot2 e1 e2 => .binOp op ot1 ot2 (substL xs e1) (substL xs e2)
  | .copyAllocId ot1 e1 e2 => .copyAllocId ot1 (substL xs e1) (substL xs e2)
  | .deref o ot mc e => .deref o ot mc (substL xs e)
  | .cas ot e1 e2 e3 => .cas ot (substL xs e1) (substL xs e2) (substL xs e3)
  | .call f args => .call (substL xs f) (substLs xs args)
  | .concat es => .concat (substLs xs es)
  | .ifE ot e1 e2 e3 => .ifE ot (substL xs e1) (substL xs e2) (substL xs e3)
  | .alloc ly e => .alloc ly (substL xs e)
  | .skipE e => .skipE (substL xs e)
  | .stuckE => .stuckE
  | .logicalAnd ot1 ot2 rit e1 e2 => .logicalAnd ot1 ot2 rit (substL xs e1) (substL xs e2)
  | .logicalOr ot1 ot2 rit e1 e2 => .logicalOr ot1 ot2 rit (substL xs e1) (substL xs e2)
  | .use o ot mc e => .use o ot mc (substL xs e)
  | .addrOf e => .addrOf (substL xs e)
  | .lValue e => .lValue (substL xs e)
  | .annotExpr n a e => .annotExpr n a (substL xs e)
  | .locInfoE a e => .locInfoE a (substL xs e)
  | .structInit ly fs => .structInit ly (substFields xs fs)
  | .getMember e s m => .getMember (substL xs e) s m
  | .getMemberUnion e ul m => .getMemberUnion (substL xs e) ul m
  | .offsetOf s m => .offsetOf s m
  | .offsetOfUnion ul m => .offsetOfUnion ul m
  | .macroE m es wf => .macroE m (substLs xs es) wf
  | .expr e => .expr (Caesium.substL xs e)

def substLs (xs : List (VarName × Val)) (es : List Expr) : List Expr :=
  match es with
  | [] => []
  | e :: es => substL xs e :: substLs xs es

def substFields (xs : List (VarName × Val)) (fs : List (String × Expr)) :
    List (String × Expr) :=
  match fs with
  | [] => []
  | (x, e) :: fs => (x, substL xs e) :: substFields xs fs

end

mutual

def substStmt (xs : List (VarName × Val)) (s : Stmt) : Stmt :=
  match s with
  | .goto b => .goto b
  | .return e => .return (substL xs e)
  | .ifS ot join e s1 s2 => .ifS ot join (substL xs e) (substStmt xs s1) (substStmt xs s2)
  | .switch it e m bs def_ =>
      .switch it (substL xs e) m (substStmts xs bs) (substStmt xs def_)
  | .assign o ot e1 e2 s => .assign o ot (substL xs e1) (substL xs e2) (substStmt xs s)
  | .free ly e s => .free ly (substL xs e) (substStmt xs s)
  | .skipS s => .skipS (substStmt xs s)
  | .stuckS => .stuckS
  | .exprS e s => .exprS (substL xs e) (substStmt xs s)
  | .assert ot e s => .assert ot (substL xs e) (substStmt xs s)
  | .annotStmt n a s => .annotStmt n a (substStmt xs s)
  | .locInfoS a s => .locInfoS a (substStmt xs s)
  | .stmt s => .stmt (Caesium.substStmt xs s)

def substStmts (xs : List (VarName × Val)) (ss : List Stmt) : List Stmt :=
  match ss with
  | [] => []
  | s :: ss => substStmt xs s :: substStmts xs ss

end

end W

end RefinedC.Caesium
