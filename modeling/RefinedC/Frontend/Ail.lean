import RefinedC.Library.Fallible

/-!
Typed Ail programs.

Source: the constructors of Cerberus' typed Ail that `frontend/ail_to_coq.ml`
and `frontend/warn.ml` inspect.

Owns: symbols, C types, annotated expressions, statements, declarations and tag
definitions.

Source locations, type qualifiers and attributes are left out: no modelled
function computes with them. The members of struct initialisers and of generic
selections keep their names and types in a list of their own.
-/

namespace RefinedC.Frontend

/-! ## Symbols and C types -/

/-- A symbol of Cerberus: unique number and name. -/
structure Sym where
  num : Nat
  name : String
deriving DecidableEq, Repr

/-- Symbols are printed by their name alone. -/
def symToStr (s : Sym) : String := s.name

inductive IntegerBaseType where
  | ichar | short | int | long | longLong
  | intN (n : Nat) | intLeastN (n : Nat) | intFastN (n : Nat)
  | intmax | intptr
deriving DecidableEq, Repr

inductive IntegerType where
  | char
  | bool
  | signed (i : IntegerBaseType)
  | unsigned (i : IntegerBaseType)
  | enum (s : Sym)
  | wchar | wint | size | ptrdiff | ptraddr
deriving DecidableEq, Repr

inductive FloatingType where
  | float | double | longDouble
deriving DecidableEq, Repr

inductive CType where
  | void
  | integer (i : IntegerType)
  | floating (f : FloatingType)
  | array (ty : CType) (size : Option Nat)
  | functionNoParams (ret : CType)
  | function (ret : CType) (params : List CType)
  | pointer (ty : CType)
  | atomic (ty : CType)
  | struct (s : Sym)
  | union (s : Sym)

/-- Type category of an annotated expression. -/
inductive TypeCat where
  | lvalue (ty : CType)
  | rvalue (ty : CType)

def cTypeOfTypeCat : TypeCat → CType
  | .lvalue ty => ty
  | .rvalue ty => ty

inductive TagDef where
  | struct (members : List (String × CType))
  | union (members : List (String × CType))

def TagDef.members : TagDef → List (String × CType)
  | .struct members => members
  | .union members => members

/-! ## Expressions -/

inductive UnaryOperator where
  | plus | minus | bnot | address | indirection | postfixIncr | postfixDecr
deriving DecidableEq, Repr

inductive ArithmeticOperator where
  | mul | div | mod | add | sub | shl | shr | band | bxor | bor
deriving DecidableEq, Repr

inductive BinaryOperator where
  | arithmetic (op : ArithmeticOperator)
  | comma | and | or | lt | gt | le | ge | eq | ne
deriving DecidableEq, Repr

inductive IntegerConstant where
  | iConstant (i : Int)
  | iConstantMax (i : IntegerType)
  | iConstantMin (i : IntegerType)
deriving DecidableEq, Repr

inductive Constant where
  | indeterminate (ty : CType)
  | null
  | integer (i : IntegerConstant)
  | floating | character | array | struct | union | predefined

inductive Builtin where
  | atomicThreadFence | atomicStore | atomicLoad | atomicExchange
  | atomicCompareExchangeStrong | atomicCompareExchangeWeak | atomicFetchKey
  | linuxFence | linuxRead | linuxWrite | linuxRmw
  | copyAllocId
  | cheri
deriving DecidableEq, Repr

mutual

inductive Expr where
  | annotated (tc : TypeCat) (node : ExprNode)

inductive ExprNode where
  | unary (op : UnaryOperator) (e : Expr)
  | binary (e1 : Expr) (op : BinaryOperator) (e2 : Expr)
  | assign (e1 e2 : Expr)
  | compoundAssign (e1 : Expr) (op : ArithmeticOperator) (e2 : Expr)
  | cond (e1 : Expr) (e2 : Option Expr) (e3 : Expr)
  | cast (ty : CType) (e : Expr)
  | call (e : Expr) (es : List Expr)
  | assert (e : Expr)
  | offsetof (ty : CType) (member : String)
  | generic (e : Expr) (types : List (Option CType)) (es : List Expr)
  | array (ty : CType) (es : List (Option Expr))
  | struct (s : Sym) (members : List String) (es : List (Option Expr))
  | union (s : Sym) (member : String) (e : Option Expr)
  | compound (ty : CType) (e : Expr)
  | memberof (e : Expr) (member : String)
  | memberofptr (e : Expr) (member : String)
  | builtin (b : Builtin)
  | str (pieces : List String)
  | const (c : Constant)
  | ident (s : Sym)
  | sizeof (ty : CType)
  | sizeofExpr (e : Expr)
  | alignof (ty : CType)
  | annot (ty : CType) (e : Expr)
  | vaStart (e : Expr) (s : Sym)
  | vaArg (e : Expr) (ty : CType)
  | vaCopy (e1 e2 : Expr)
  | vaEnd (e : Expr)
  | printType (e : Expr)
  | bmcAssume (e : Expr)
  | regLoad (r : Nat)
  | rvalue (e : Expr)
  | arrayDecay (e : Expr)
  | functionDecay (e : Expr)
  | atomic (e : Expr)
  | gccStatement
  | invalid

end

def tcOf : Expr → TypeCat
  | .annotated tc _ => tc

def stripExpr : Expr → ExprNode
  | .annotated _ node => node

/-- C type of an expression. -/
def typeOf (e : Expr) : CType := cTypeOfTypeCat (tcOf e)

/-! ## Statements and programs -/

inductive Stmt where
  | skip
  | expr (e : Expr)
  | block (bindings : List (Sym × CType)) (ss : List Stmt)
  | ifS (e : Expr) (s1 s2 : Stmt)
  | whileS (e : Expr) (s : Stmt)
  | doS (s : Stmt) (e : Expr)
  | breakS
  | continueS
  | returnVoid
  | returnS (e : Expr)
  | switch (e : Expr) (s : Stmt)
  | caseS (i : Int) (s : Stmt)
  | caseRangeGNU (low high : Int) (s : Stmt)
  | default (s : Stmt)
  | label (l : Sym) (s : Stmt)
  | goto (l : Sym)
  | declaration (ds : List (Sym × Option Expr))
  | par (ss : List Stmt)
  | regStore (r : Nat) (e : Expr)
  | marker (s : Stmt)

inductive Decl where
  | object (ty : CType)
  | function (ret : CType) (params : List CType)

structure FunctionDefinition where
  params : List Sym
  body : Stmt

structure Sigma where
  declarations : List (Sym × Decl)
  functionDefinitions : List (Sym × FunctionDefinition)
  tagDefinitions : List (Sym × TagDef)

/-! ## Failures -/

/-- How the frontend gives up. -/
inductive Failure where
  | notImpl (msg : String)
  | forbidden (msg : String)
  | panic (msg : String)
  | notFound
  | assertFalse
  | stackOverflow
  | overflow
deriving DecidableEq, Repr

abbrev Result := Except Failure

end RefinedC.Frontend
