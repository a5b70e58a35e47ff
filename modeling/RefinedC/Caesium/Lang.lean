import RefinedC.Caesium.Heap
import Mathlib.Data.Int.Bitwise

/-!
Syntax of Caesium, substitution, and evaluation of operators.

Source: `theories/caesium/lang.v`.

Owns: expressions and statements, runtime expressions (expressions with active
statement frames), functions and machine states, substitution of values for
variables, and the relations `eval_bin_op` and `eval_un_op`.

Finite maps of the source (`f_code`, `st_fntbl`, the map of a switch) are
partial maps.
-/

namespace RefinedC.Caesium

open RefinedC.Library

/-! ## Syntax -/

abbrev Label := String

inductive BinOp where
  | addOp | subOp | mulOp | divOp | modOp | andOp | orOp | xorOp | shlOp | shrOp
  | eqOp (rit : IntType) | neOp (rit : IntType) | ltOp (rit : IntType)
  | gtOp (rit : IntType) | leOp (rit : IntType) | geOp (rit : IntType)
  | comma
  | ptrOffsetOp (ly : Layout) | ptrNegOffsetOp (ly : Layout) | ptrDiffOp (ly : Layout)

inductive UnOp where
  | notBoolOp | notIntOp | negOp
  | castOp (ot : OpType)

/-- Order of a memory access. A non-atomic access takes two steps. -/
inductive Order where
  | scOrd | na1Ord | na2Ord
deriving DecidableEq

inductive Expr where
  | var (x : VarName)
  | val (v : Val)
  | unOp (op : UnOp) (ot : OpType) (e : Expr)
  | binOp (op : BinOp) (ot1 ot2 : OpType) (e1 e2 : Expr)
  | copyAllocId (ot1 : OpType) (e1 e2 : Expr)
  | deref (o : Order) (ot : OpType) (memcast : Bool) (e : Expr)
  | cas (ot : OpType) (e1 e2 e3 : Expr)
  | call (f : Expr) (args : List Expr)
  | concat (es : List Expr)
  | ifE (ot : OpType) (e1 e2 e3 : Expr)
  | alloc (ly : Layout) (e : Expr)
  | skipE (e : Expr)
  | stuckE

inductive Stmt where
  | goto (b : Label)
  | return (e : Expr)
  | ifS (ot : OpType) (join : Option Label) (e : Expr) (s1 s2 : Stmt)
  | switch (it : IntType) (e : Expr) (m : PartialMap Int Nat) (bs : List Stmt) (def_ : Stmt)
  | assign (o : Order) (ot : OpType) (e1 e2 : Expr) (s : Stmt)
  | free (ly : Layout) (e : Expr) (s : Stmt)
  | skipS (s : Stmt)
  | stuckS
  | exprS (e : Expr) (s : Stmt)

structure Function where
  fArgs : List (VarName × Layout)
  fLocalVars : List (VarName × Layout)
  fCode : PartialMap Label Stmt
  fInit : Label

structure State where
  stHeap : HeapState
  stFntbl : PartialMap Int Function

def heapFmap (f : Heap → Heap) (σ : State) : State :=
  ⟨⟨f σ.stHeap.hsHeap, σ.stHeap.hsAllocs⟩, σ.stFntbl⟩

/-- Addresses of functions, the first component of the state of `mem_cast`. -/
def State.fnAddrs (σ : State) : Int → Bool := fun a => (σ.stFntbl a).isSome

/-- An active function: its substituted body and the locations of arguments and
local variables that `Return` frees. -/
structure RuntimeFunction where
  rfFn : Function
  rfLocs : List (Loc × Layout)

mutual

inductive RuntimeExpr where
  | expr (e : RtExpr)
  | stmt (rf : RuntimeFunction) (s : RtStmt)
  | allocFailed

inductive RtExpr where
  | var (x : VarName)
  | val (v : Val)
  | unOp (op : UnOp) (ot : OpType) (e : RuntimeExpr)
  | binOp (op : BinOp) (ot1 ot2 : OpType) (e1 e2 : RuntimeExpr)
  | copyAllocId (ot1 : OpType) (e1 e2 : RuntimeExpr)
  | deref (o : Order) (ot : OpType) (memcast : Bool) (e : RuntimeExpr)
  | call (f : RuntimeExpr) (args : List RuntimeExpr)
  | cas (ot : OpType) (e1 e2 e3 : RuntimeExpr)
  | concat (es : List RuntimeExpr)
  | alloc (ly : Layout) (e : RuntimeExpr)
  | ifE (ot : OpType) (e1 e2 e3 : RuntimeExpr)
  | skipE (e : RuntimeExpr)
  | stuckE

inductive RtStmt where
  | goto (b : Label)
  | return (e : RuntimeExpr)
  | ifS (ot : OpType) (join : Option Label) (e : RuntimeExpr) (s1 s2 : Stmt)
  | switch (it : IntType) (e : RuntimeExpr) (m : PartialMap Int Nat) (bs : List Stmt)
      (def_ : Stmt)
  | assign (o : Order) (ot : OpType) (e1 e2 : RuntimeExpr) (s : Stmt)
  | free (ly : Layout) (e : RuntimeExpr) (s : Stmt)
  | skipS (s : Stmt)
  | stuckS
  | exprS (e : RuntimeExpr) (s : Stmt)

end

mutual

def toRtexpr (e : Expr) : RuntimeExpr :=
  match e with
  | .var x => .expr (.var x)
  | .val v => .expr (.val v)
  | .unOp op ot e => .expr (.unOp op ot (toRtexpr e))
  | .binOp op ot1 ot2 e1 e2 => .expr (.binOp op ot1 ot2 (toRtexpr e1) (toRtexpr e2))
  | .copyAllocId ot1 e1 e2 => .expr (.copyAllocId ot1 (toRtexpr e1) (toRtexpr e2))
  | .deref o ot mc e => .expr (.deref o ot mc (toRtexpr e))
  | .call f args => .expr (.call (toRtexpr f) (toRtexprs args))
  | .cas ot e1 e2 e3 => .expr (.cas ot (toRtexpr e1) (toRtexpr e2) (toRtexpr e3))
  | .concat es => .expr (.concat (toRtexprs es))
  | .ifE ot e1 e2 e3 => .expr (.ifE ot (toRtexpr e1) (toRtexpr e2) (toRtexpr e3))
  | .alloc ly e => .expr (.alloc ly (toRtexpr e))
  | .skipE e => .expr (.skipE (toRtexpr e))
  | .stuckE => .expr .stuckE

def toRtexprs (es : List Expr) : List RuntimeExpr :=
  match es with
  | [] => []
  | e :: es => toRtexpr e :: toRtexprs es

end

def toRtstmt (rf : RuntimeFunction) (s : Stmt) : RuntimeExpr :=
  match s with
  | .goto b => .stmt rf (.goto b)
  | .return e => .stmt rf (.return (toRtexpr e))
  | .ifS ot join e s1 s2 => .stmt rf (.ifS ot join (toRtexpr e) s1 s2)
  | .switch it e m bs def_ => .stmt rf (.switch it (toRtexpr e) m bs def_)
  | .assign o ot e1 e2 s => .stmt rf (.assign o ot (toRtexpr e1) (toRtexpr e2) s)
  | .free ly e s => .stmt rf (.free ly (toRtexpr e) s)
  | .skipS s => .stmt rf (.skipS s)
  | .stuckS => .stmt rf .stuckS
  | .exprS e s => .stmt rf (.exprS (toRtexpr e) s)

/-! ## Substitution -/

mutual

def subst (x : VarName) (v : Val) (e : Expr) : Expr :=
  match e with
  | .var y => if x = y then .val v else .var y
  | .val v => .val v
  | .unOp op ot e => .unOp op ot (subst x v e)
  | .binOp op ot1 ot2 e1 e2 => .binOp op ot1 ot2 (subst x v e1) (subst x v e2)
  | .copyAllocId ot1 e1 e2 => .copyAllocId ot1 (subst x v e1) (subst x v e2)
  | .deref o ot mc e => .deref o ot mc (subst x v e)
  | .call e es => .call (subst x v e) (substs x v es)
  | .cas ot e1 e2 e3 => .cas ot (subst x v e1) (subst x v e2) (subst x v e3)
  | .concat es => .concat (substs x v es)
  | .ifE ot e1 e2 e3 => .ifE ot (subst x v e1) (subst x v e2) (subst x v e3)
  | .alloc ly e => .alloc ly (subst x v e)
  | .skipE e => .skipE (subst x v e)
  | .stuckE => .stuckE

def substs (x : VarName) (v : Val) (es : List Expr) : List Expr :=
  match es with
  | [] => []
  | e :: es => subst x v e :: substs x v es

end

def substL (xs : List (VarName × Val)) (e : Expr) : Expr :=
  match xs with
  | [] => e
  | (x, v) :: xs => substL xs (subst x v e)

mutual

def substStmt (xs : List (VarName × Val)) (s : Stmt) : Stmt :=
  match s with
  | .goto b => .goto b
  | .return e => .return (substL xs e)
  | .ifS ot join e s1 s2 => .ifS ot join (substL xs e) (substStmt xs s1) (substStmt xs s2)
  | .switch it e m bs def_ =>
      .switch it (substL xs e) m (substStmts xs bs) (substStmt xs def_)
  | .assign o ot e1 e2 s => .assign o ot (substL xs e1) (substL xs e2) (substStmt xs s)
  | .free ly e s => .free ly (substL xs e) (substStmt xs s)
  | .skipS s => .skipS (substStmt xs s)
  | .stuckS => .stuckS
  | .exprS e s => .exprS (substL xs e) (substStmt xs s)

def substStmts (xs : List (VarName × Val)) (ss : List Stmt) : List Stmt :=
  match ss with
  | [] => []
  | s :: ss => substStmt xs s :: substStmts xs ss

end

def substFunction (xs : List (VarName × Val)) (f : Function) : Function :=
  { f with fCode := fun b => (f.fCode b).map (substStmt xs) }

/-! ## Evaluation of operators -/

def relResult (op : BinOp) (n1 n2 : Int) : Option (Bool × IntType) :=
  match op with
  | .eqOp rit => some (decide (n1 = n2), rit)
  | .neOp rit => some (decide (n1 ≠ n2), rit)
  | .ltOp rit => some (decide (n1 < n2), rit)
  | .gtOp rit => some (decide (n1 > n2), rit)
  | .leOp rit => some (decide (n1 ≤ n2), rit)
  | .geOp rit => some (decide (n1 ≥ n2), rit)
  | _ => none

def ptrRelResult (op : BinOp) (a1 a2 : Int) : Option (Bool × IntType) :=
  match op with
  | .ltOp rit => some (decide (a1 < a2), rit)
  | .gtOp rit => some (decide (a1 > a2), rit)
  | .leOp rit => some (decide (a1 ≤ a2), rit)
  | .geOp rit => some (decide (a1 ≥ a2), rit)
  | _ => none

def ptrEqResult (op : BinOp) (e : Bool) : Option (Bool × IntType) :=
  match op with
  | .eqOp rit => some (e, rit)
  | .neOp rit => some (!e, rit)
  | _ => none

/-- Mathematical result of an integer operator. Division rounds towards zero;
shifts are defined for non-negative operands and amounts below the width. -/
def arithResult (op : BinOp) (it : IntType) (n1 n2 : Int) : Option Int :=
  match op with
  | .addOp => some (n1 + n2)
  | .subOp => some (n1 - n2)
  | .mulOp => some (n1 * n2)
  | .divOp => if n2 ≠ 0 then some (n1.tdiv n2) else none
  | .modOp => if n2 ≠ 0 then some (n1.tmod n2) else none
  | .andOp => some (Int.land n1 n2)
  | .orOp => some (Int.lor n1 n2)
  | .xorOp => some (Int.xor n1 n2)
  | .shlOp =>
      if 0 ≤ n1 ∧ 0 ≤ n2 ∧ n2 < it.bitsPerInt then some (n1 * 2 ^ n2.toNat) else none
  | .shrOp =>
      if 0 ≤ n1 ∧ 0 ≤ n2 ∧ n2 < it.bitsPerInt then some (n1 / 2 ^ n2.toNat) else none
  | _ => none

inductive EvalBinOp : BinOp → OpType → OpType → State → Val → Val → Val → Prop where
  | ptrOffsetOpIP {v1 v2 : Val} {σ : State} {o : Int} {l : Loc} {ly : Layout} {it : IntType}
      (offset : valToZ v1 it = some o) (pointer : valToLoc v2 = some l)
      (inBounds : heapStateLocInBounds (offsetLoc l ly o) 0 σ.stHeap) :
      EvalBinOp (.ptrOffsetOp ly) (.intOp it) .ptrOp σ v1 v2 (valOfLoc (offsetLoc l ly o))
  | ptrNegOffsetOpIP {v1 v2 : Val} {σ : State} {o : Int} {l : Loc} {ly : Layout}
      {it : IntType}
      (offset : valToZ v1 it = some o) (pointer : valToLoc v2 = some l)
      (inBounds : heapStateLocInBounds (offsetLoc l ly (-o)) 0 σ.stHeap) :
      EvalBinOp (.ptrNegOffsetOp ly) (.intOp it) .ptrOp σ v1 v2
        (valOfLoc (offsetLoc l ly (-o)))
  | ptrDiffOpPP {v1 v2 v : Val} {σ : State} {l1 l2 : Loc} {ly : Layout}
      (left : valToLoc v1 = some l1) (right : valToLoc v2 = some l2)
      (sameProv : l1.1 = l2.1) (positive : 0 < ly.lySize)
      (leftValid : validPtr l1 σ.stHeap) (rightValid : validPtr l2 σ.stHeap)
      (result : valOfZ ((l1.2 - l2.2) / ly.lySize) ssizeT none = some v) :
      EvalBinOp (.ptrDiffOp ly) .ptrOp .ptrOp σ v1 v2 v
  | cmpOpPP {v1 v2 v : Val} {σ : State} {l1 l2 : Loc} {op : BinOp} {e b : Bool}
      {rit : IntType}
      (left : valToLoc v1 = some l1) (right : valToLoc v2 = some l2)
      (compared : heapLocEq l1 l2 σ.stHeap = some e)
      (outcome : ptrEqResult op e = some (b, rit))
      (result : valOfZ (boolToZ b) rit none = some v) :
      EvalBinOp op .ptrOp .ptrOp σ v1 v2 v
  | relOpPP {v1 v2 v : Val} {σ : State} {l1 l2 : Loc} {p : Option AllocId} {a1 a2 : Int}
      {op : BinOp} {b : Bool} {rit : IntType}
      (left : valToLoc v1 = some l1) (right : valToLoc v2 = some l2)
      (leftLoc : l1 = (.provAlloc p, a1)) (rightLoc : l2 = (.provAlloc p, a2))
      (leftValid : validPtr l1 σ.stHeap) (rightValid : validPtr l2 σ.stHeap)
      (outcome : ptrRelResult op a1 a2 = some (b, rit))
      (result : valOfZ (boolToZ b) rit none = some v) :
      EvalBinOp op .ptrOp .ptrOp σ v1 v2 v
  | relOpII {op : BinOp} {v1 v2 v : Val} {σ : State} {n1 n2 : Int} {it : IntType}
      {b : Bool} {rit : IntType}
      (outcome : relResult op n1 n2 = some (b, rit))
      (left : valToZ v1 it = some n1) (right : valToZ v2 it = some n2)
      (result : valOfZ (boolToZ b) rit none = some v) :
      EvalBinOp op (.intOp it) (.intOp it) σ v1 v2 v
  | arithOpII {op : BinOp} {v1 v2 v : Val} {σ : State} {n1 n2 n : Int} {it : IntType}
      (outcome : arithResult op it n1 n2 = some n)
      (left : valToZ v1 it = some n1) (right : valToZ v2 it = some n2)
      (result : valOfZ (if it.itSigned then n else n % it.intModulus) it none = some v) :
      EvalBinOp op (.intOp it) (.intOp it) σ v1 v2 v
  | commaOp {ot1 ot2 : OpType} {σ : State} {v1 v2 : Val} :
      EvalBinOp .comma ot1 ot2 σ v1 v2 v2

/-- Bitwise negation of an unsigned integer with `bits` bits. -/
def zLunot (bits : Nat) (n : Int) : Int := Int.lnot n % 2 ^ bits

/-- Location that results from casting the integer `a` with provenance `p`. -/
def castIPLoc (p : Option AllocId) (a : Int) (σ : State) : Loc :=
  if validPtr (.provAlloc p, a) σ.stHeap then (.provAlloc p, a)
  else if a = 0 then nullLoc
  else if (σ.stFntbl a).isSome then (.provFnPtr, a)
  else (.provAlloc none, a)

inductive EvalUnOp : UnOp → OpType → State → Val → Val → Prop where
  | castOpII {itt its : IntType} {σ : State} {vs vt : Val} {i : Int}
      (source : valToZ vs its = some i)
      (result : valOfZ i itt (valToByteProv vs) = some vt) :
      EvalUnOp (.castOp (.intOp itt)) (.intOp its) σ vs vt
  | castOpPP {σ : State} {vs : Val} {l : Loc} (source : valToLoc vs = some l) :
      EvalUnOp (.castOp .ptrOp) .ptrOp σ vs vs
  | castOpPI {it : IntType} {σ : State} {vs vt : Val} {l : Loc} {p : Option AllocId}
      (source : valToLoc vs = some l) (provenance : l.1 = .provAlloc p)
      (result : valOfZ l.2 it p = some vt) (alive : blockAlive l σ.stHeap) :
      EvalUnOp (.castOp (.intOp it)) .ptrOp σ vs vt
  | castOpPIFn {it : IntType} {σ : State} {vs vt : Val} {l : Loc}
      (source : valToLoc vs = some l) (provenance : l.1 = .provFnPtr)
      (result : valOfZ l.2 it none = some vt) (defined : (σ.stFntbl l.2).isSome) :
      EvalUnOp (.castOp (.intOp it)) .ptrOp σ vs vt
  | castOpPINull {it : IntType} {σ : State} {vs vt : Val} {l : Loc}
      (source : valToLoc vs = some l) (isNull : l = nullLoc)
      (result : valOfZ 0 it none = some vt) :
      EvalUnOp (.castOp (.intOp it)) .ptrOp σ vs vt
  | castOpIP {it : IntType} {σ : State} {vs : Val} {a : Int}
      (source : valToZ vs it = some a) :
      EvalUnOp (.castOp .ptrOp) (.intOp it) σ vs
        (valOfLoc (castIPLoc (valToByteProv vs) a σ))
  | castOpB {ot : OpType} {σ : State} {vs : Val} {b : Bool}
      (source : castToBool ot vs σ.stHeap = some b) :
      EvalUnOp (.castOp .boolOp) ot σ vs (valOfBool b)
  | castOpBI {it : IntType} {σ : State} {vs vt : Val} {b : Bool}
      (source : valToBool vs = some b) (result : valOfZ (boolToZ b) it none = some vt) :
      EvalUnOp (.castOp (.intOp it)) .boolOp σ vs vt
  | negOpI {it : IntType} {σ : State} {vs vt : Val} {n : Int}
      (source : valToZ vs it = some n) (result : valOfZ (-n) it none = some vt) :
      EvalUnOp .negOp (.intOp it) σ vs vt
  | notIntOpI {it : IntType} {σ : State} {vs vt : Val} {n : Int}
      (source : valToZ vs it = some n)
      (result : valOfZ (if it.itSigned then Int.lnot n else zLunot it.bitsPerInt n) it none =
        some vt) :
      EvalUnOp .notIntOp (.intOp it) σ vs vt

end RefinedC.Caesium
