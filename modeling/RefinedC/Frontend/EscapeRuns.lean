import Mathlib.Logic.Relation
import RefinedC.Frontend.EscapeAnalysis

/-!
Runs of a function with block-scoped lifetimes.

Owns: the objects of a run, what expressions may point at, the stores of a run, and which
stores are made in the ways that the escape analysis keeps track of.

A run goes from store to store and leaves and enters blocks on the way, in any order. It
may do more than the function: values that are overwritten stay, a call stores anything
anywhere, and no condition is evaluated. An object that is not a variable is outside the
function, as is one of a caller.
-/

namespace RefinedC.Frontend.Escape

/-! ## States -/

/-- A variable of a block belongs to one execution of the block. Its depth is the number of
blocks around it. -/
inductive Object where
  | global (s : Sym)
  | var (inst depth : Nat) (s : Sym)
  | outside (n : Nat)
deriving DecidableEq

def Object.IsBlockScoped : Object → Prop
  | .var _ _ _ => True
  | _ => False

/-- A block that is being executed. -/
structure Frame where
  inst : Nat
  depth : Nat
  syms : List Sym

/-- A pointer to (an element or a member of) the target is in the holder. The number is that
of the store that put it there, if the function did. -/
structure Held where
  holder : Object
  target : Object
  storedBy : Option Nat

structure RunState where
  /-- Blocks that are being executed, the innermost one first. -/
  frames : List Frame
  next : Nat
  held : List Held

def scopesOf (frames : List Frame) : Scopes := frames.map fun fr => (fr.depth, fr.syms)

def RunState.Alive (σ : RunState) (inst depth : Nat) : Prop :=
  ∃ fr ∈ σ.frames, fr.inst = inst ∧ fr.depth = depth

/-- The lifetime of the first object ends strictly after that of the second one, which is a
variable of a block. -/
def Outlives (σ : RunState) : Object → Object → Prop
  | .var _ depth _, .var inst' depth' _ => ¬ σ.Alive inst' depth' ∨ depth < depth'
  | _, .var _ _ _ => True
  | _, _ => False

def resolveFrames (s : Sym) : List Frame → Option Object
  | [] => none
  | fr :: frames => if s ∈ fr.syms then some (.var fr.inst fr.depth s) else resolveFrames s frames

/-- The object of an identifier. -/
def denotes (sigm : Sigma) (frames : List Frame) (s : Sym) : Option Object :=
  match sigm.declarations.lookup s with
  | some (.object _) => some (.global s)
  | some (.function _ _) => none
  | none => resolveFrames s frames

section

variable [AilTypesAux]

/-! ## What expressions point at -/

/-- How a pointer may be obtained: what reading an lvalue gives, and whether every kind of
expression may be used. -/
structure Ways where
  reads : Expr → Object → Object → Prop
  anyKind : Prop

/-- Expressions that may point at anything. -/
def isOpaque : ExprNode → Bool
  | .call _ _ | .generic _ _ _ | .array _ _ | .struct _ _ _ | .union _ _ _ | .compound _ _
  | .builtin _ | .str _ | .vaArg _ _ | .regLoad _ | .functionDecay _ | .gccStatement
  | .invalid => true
  | _ => false

mutual

/-- The lvalue may designate (an element or a member of) the object. -/
inductive Designates (sigm : Sigma) (frames : List Frame) (ways : Ways) :
    Expr → Object → Prop where
  | ident {tc s o} : denotes sigm frames s = some o →
      Designates sigm frames ways (.annotated tc (.ident s)) o
  | memberof {tc e m o} : Designates sigm frames ways e o →
      Designates sigm frames ways (.annotated tc (.memberof e m)) o
  | annot {tc ty e o} : Designates sigm frames ways e o →
      Designates sigm frames ways (.annotated tc (.annot ty e)) o
  | atomic {tc e o} : Designates sigm frames ways e o →
      Designates sigm frames ways (.annotated tc (.atomic e)) o
  | memberofptr {tc e m o} : PointsAt sigm frames ways e o →
      Designates sigm frames ways (.annotated tc (.memberofptr e m)) o
  | indirection {tc e o} : PointsAt sigm frames ways e o →
      (ways.anyKind ∨ (referencedType (typeOf e)).any isPointer = false) →
      Designates sigm frames ways (.annotated tc (.unary .indirection e)) o
  | any {tc node o} : ways.anyKind → isOpaque node = true →
      Designates sigm frames ways (.annotated tc node) o

/-- The value may be (obtained from) a pointer to the object. -/
inductive PointsAt (sigm : Sigma) (frames : List Frame) (ways : Ways) :
    Expr → Object → Prop where
  | address {tc e o} : Designates sigm frames ways e o →
      PointsAt sigm frames ways (.annotated tc (.unary .address e)) o
  | arrayDecay {tc e o} : ways.anyKind → Designates sigm frames ways e o →
      PointsAt sigm frames ways (.annotated tc (.arrayDecay e)) o
  | rvalue {tc e o t} : Designates sigm frames ways e o → ways.reads e o t →
      PointsAt sigm frames ways (.annotated tc (.rvalue e)) t
  | unary {tc op e t} : op ∈ [UnaryOperator.plus, .minus, .bnot] →
      PointsAt sigm frames ways e t → PointsAt sigm frames ways (.annotated tc (.unary op e)) t
  | increment {tc op e o t} : ways.anyKind → op ∈ [UnaryOperator.postfixIncr, .postfixDecr] →
      Designates sigm frames ways e o → ways.reads e o t →
      PointsAt sigm frames ways (.annotated tc (.unary op e)) t
  | cast {tc ty e t} : PointsAt sigm frames ways e t →
      PointsAt sigm frames ways (.annotated tc (.cast ty e)) t
  | memberof {tc e m t} : ways.anyKind → PointsAt sigm frames ways e t →
      PointsAt sigm frames ways (.annotated tc (.memberof e m)) t
  | annot {tc ty e t} : PointsAt sigm frames ways e t →
      PointsAt sigm frames ways (.annotated tc (.annot ty e)) t
  | atomic {tc e t} : PointsAt sigm frames ways e t →
      PointsAt sigm frames ways (.annotated tc (.atomic e)) t
  | left {tc e1 op e2 t} : op ≠ .comma → PointsAt sigm frames ways e1 t →
      PointsAt sigm frames ways (.annotated tc (.binary e1 op e2)) t
  | right {tc e1 op e2 t} : PointsAt sigm frames ways e2 t →
      PointsAt sigm frames ways (.annotated tc (.binary e1 op e2)) t
  | assign {tc e1 e2 t} : PointsAt sigm frames ways e2 t →
      PointsAt sigm frames ways (.annotated tc (.assign e1 e2)) t
  | compoundLeft {tc e1 op e2 o t} : ways.anyKind → Designates sigm frames ways e1 o →
      ways.reads e1 o t → PointsAt sigm frames ways (.annotated tc (.compoundAssign e1 op e2)) t
  | compoundRight {tc e1 op e2 t} : PointsAt sigm frames ways e2 t →
      PointsAt sigm frames ways (.annotated tc (.compoundAssign e1 op e2)) t
  | condTest {tc e1 e3 t} : ways.anyKind → PointsAt sigm frames ways e1 t →
      PointsAt sigm frames ways (.annotated tc (.cond e1 none e3)) t
  | condThen {tc e1 e2 e3 t} : PointsAt sigm frames ways e2 t →
      PointsAt sigm frames ways (.annotated tc (.cond e1 (some e2) e3)) t
  | condElse {tc e1 e2 e3 t} : PointsAt sigm frames ways e3 t →
      PointsAt sigm frames ways (.annotated tc (.cond e1 e2 e3)) t
  | any {tc node t} : ways.anyKind → isOpaque node = true →
      PointsAt sigm frames ways (.annotated tc node) t

end

/-- Every way to obtain a pointer. What is in an object outside the function is not known. -/
def allWays (σ : RunState) : Ways where
  reads := fun _ o t => (∃ storedBy, ⟨o, t, storedBy⟩ ∈ σ.held) ∨ ∃ n, o = .outside n
  anyKind := True

/-! ## Stores -/

/-- The variable that an lvalue names, directly or with members. -/
def placeOf : Expr → Option Sym
  | .annotated _ (.ident s) => some s
  | .annotated _ (.memberof e _) | .annotated _ (.annot _ e) | .annotated _ (.atomic e) => placeOf e
  | _ => none

def Dest.place : Dest → Option Sym
  | .lvalue e => placeOf e
  | .decl s => some s

/-- The object that a store stores to. A declaration is in the block of its variable. -/
def DestOf (sigm : Sigma) (σ : RunState) (o : Object) : Dest → Prop
  | .lvalue e => Designates sigm σ.frames (allWays σ) e o
  | .decl s => ∃ fr ∈ σ.frames.head?, s ∈ fr.syms ∧ o = .var fr.inst fr.depth s

/-- An lvalue is stored to, and an rvalue is stored. -/
def Store.HasCategories (store : Store) : Prop :=
  (∀ e, store.dest = .lvalue e → isLvalue e = true) ∧ isLvalue store.rhs = false

/-- In the state, the store `k` may store a pointer to `t` into `o`. -/
structure MayStore (sigm : Sigma) (stores : List Store) (σ : RunState) (k : Nat) (store : Store)
    (o t : Object) : Prop where
  isStore : stores[k]? = some store
  here : scopesOf σ.frames = store.env.scopes
  categories : store.HasCategories
  dest : DestOf sigm σ o store.dest
  value : PointsAt sigm σ.frames (allWays σ) store.rhs t

/-- The steps of a run whose stores meet a condition. -/
inductive Step (sigm : Sigma) (stores : List Store)
    (meets : RunState → Nat → Store → Object → Object → Prop) :
    RunState → RunState → Prop where
  | goTo {σ : RunState} {k next : Nat} {store : Store} {left kept entered : List Frame} :
      stores[k]? = some store → σ.frames = left ++ kept →
      scopesOf (entered ++ kept) = store.env.scopes → σ.next ≤ next →
      (∀ fr ∈ entered, σ.next ≤ fr.inst ∧ fr.inst < next) →
      Step sigm stores meets σ ⟨entered ++ kept, next, σ.held⟩
  | store {σ : RunState} {k : Nat} {store : Store} {o t : Object} :
      MayStore sigm stores σ k store o t → meets σ k store o t →
      Step sigm stores meets σ { σ with held := ⟨o, t, some k⟩ :: σ.held }
  | call {σ : RunState} {o t : Object} :
      Step sigm stores meets σ { σ with held := ⟨o, t, none⟩ :: σ.held }

/-- The function is called: it has not stored any pointer yet. -/
structure Initial (fd : FunctionDefinition) (σ : RunState) : Prop where
  scopes : scopesOf σ.frames = (Env.ofParams fd.params).scopes
  next : ∀ fr ∈ σ.frames, fr.inst < σ.next
  held : ∀ h ∈ σ.held, h.storedBy = none

/-! ## Stores that the analysis keeps track of -/

/-- The expression is, or contains, the variable in a position where it is not read. -/
def names (s : Sym) : Expr → Bool
  | .annotated _ (.ident s') => s' = s
  | .annotated _ (.unary _ e) | .annotated _ (.cast _ e) | .annotated _ (.memberof e _)
  | .annotated _ (.memberofptr e _) | .annotated _ (.annot _ e) | .annotated _ (.printType e)
  | .annotated _ (.bmcAssume e) | .annotated _ (.atomic e) | .annotated _ (.assign _ e)
  | .annotated _ (.compoundAssign _ _ e) | .annotated _ (.cond _ none e) => names s e
  | .annotated _ (.binary e1 _ e2) | .annotated _ (.cond _ (some e1) e2) => names s e1 || names s e2
  | _ => false

def Store.names (s : Sym) (store : Store) : Bool :=
  (match store.dest with
    | .lvalue e => Escape.names s e
    | .decl s' => s' = s) || Escape.names s store.rhs

def isFunction (sigm : Sigma) (s : Sym) : Bool :=
  match sigm.declarations.lookup s with
  | some (.function _ _) => true
  | _ => false

/-- A variable that the stores do not name. -/
def isUnset (sigm : Sigma) (earlier : List Store) (s : Sym) : Bool :=
  !isFunction sigm s && earlier.all fun store => !store.names s

/-- Array elements, results of calls, and numbers. -/
def withoutSet : Expr → Bool
  | .annotated _ (.arrayDecay _) | .annotated _ (.call _ _) | .annotated _ (.const _) => true
  | .annotated _ (.cast _ e) | .annotated _ (.annot _ e) => withoutSet e
  | .annotated _ (.binary e1 _ e2) => withoutSet e1 && withoutSet e2
  | .annotated _ (.rvalue e) => !isPointer (typeOf e)
  | _ => false

/-- The value is that of a pointer variable that is not set, or is obtained from one. -/
def isUnsetValue (sigm : Sigma) (earlier : List Store) : Expr → Bool
  | .annotated _ (.rvalue e) => isPointer (typeOf e) && (placeOf e).any (isUnset sigm earlier)
  | .annotated _ (.cast _ e) | .annotated _ (.annot _ e) => isUnsetValue sigm earlier e
  | .annotated _ (.binary e1 _ e2) => isUnsetValue sigm earlier e1 || isUnsetValue sigm earlier e2
  | _ => false

/-- (A member of) an element of an array, what a call returns, or what is pointed to by a
variable that is not set. -/
def isUnknownPlace (sigm : Sigma) (earlier : List Store) : Expr → Bool
  | .annotated _ (.memberof e _) | .annotated _ (.annot _ e) | .annotated _ (.atomic e) =>
      isUnknownPlace sigm earlier e
  | .annotated _ (.unary .indirection e) => withoutSet e || isUnsetValue sigm earlier e
  | .annotated _ (.memberofptr e _) => isUnsetValue sigm earlier e
  | _ => false

/-- The pointer variable of an lvalue that is (a member of) what the variable points to. Pointers
to pointers are left out. -/
def throughOf : Expr → Option Sym
  | .annotated _ (.memberof e _) | .annotated _ (.annot _ e) | .annotated _ (.atomic e) =>
      throughOf e
  | .annotated _ (.unary .indirection (.annotated tc (.rvalue e))) =>
      if isPointer (typeOf e) ∧
        ¬ (referencedType (cTypeOfTypeCat tc)).any isPointer then placeOf e
      else none
  | _ => none

/-- The variable of which (a member of) the address is taken. -/
def addressOf : Expr → Option Sym
  | .annotated _ (.unary .address e) => placeOf e
  | .annotated _ (.cast _ e) | .annotated _ (.annot _ e) => addressOf e
  | _ => none

/-- Each of the stores that names `s` stores the address of `t` there. -/
def isSetTo (sigm : Sigma) (earlier : List Store) (s t : Sym) : Bool :=
  decide (t ≠ s) && !isFunction sigm t && earlier.all fun store =>
    !store.names s || (store.dest.place == some s && addressOf store.rhs == some t)

/-- A store that names `s` and comes in front of the store `k` in the order of the analysis has
put the pointer there. -/
def PutIn (stores : List Store) (σ : RunState) (k : Nat) (s : Sym) (o t : Object) : Prop :=
  ∃ k' store, ⟨o, t, some k'⟩ ∈ σ.held ∧ k' < k ∧ stores[k']? = some store ∧
    store.dest.place = some s

/-- The lvalue is (a member of) what `s` points to, which is the variable `t` for the analysis,
and the pointers to the object and in it are put there by stores that name `s` and `t`. -/
def ReadThrough (sigm : Sigma) (others stores : List Store) (σ : RunState) (k : Nat) (e : Expr)
    (o target : Object) : Prop :=
  ∃ s t holder, throughOf e = some s ∧ isSetTo sigm (others ++ stores.take k) s t = true ∧
    denotes sigm σ.frames s = some holder ∧ PutIn stores σ k s holder o ∧
      PutIn stores σ k t o target

/-- Only pointer variables are read, each one by its name and after a store that names it
and comes earlier in the order of the analysis has put the pointer there, or through a pointer
variable that is only set to one variable. -/
def keptWays (sigm : Sigma) (others stores : List Store) (σ : RunState) (k : Nat) : Ways where
  reads := fun e o t => isPointer (typeOf e) = true ∧
    ((∃ s, placeOf e = some s ∧ PutIn stores σ k s o t) ∨
      ReadThrough sigm others stores σ k e o t)
  anyKind := False

/-- The lvalue is (a member of) what `s` points to, and `s` points to the object since an earlier
store has put the address of a variable there that is not in the innermost block of this store. -/
def StoreThrough (sigm : Sigma) (stores : List Store) (σ : RunState) (k : Nat) (e : Expr)
    (o : Object) : Prop :=
  ∃ s t holder k' store, throughOf e = some s ∧ denotes sigm σ.frames s = some holder ∧
    ⟨holder, o, some k'⟩ ∈ σ.held ∧ k' < k ∧ stores[k']? = some store ∧
      store.visited = true ∧
      store.dest.place = some s ∧ addressOf store.rhs = some t ∧
        classify sigm store.env t ≠ .ok (.current t)

/-- The store is not in another assignment, names what it stores to, stores to an unknown place
or through a pointer variable, and has obtained the pointer in the kept ways. -/
structure Tracked (sigm : Sigma) (others stores : List Store) (σ : RunState) (k : Nat)
    (store : Store) (o t : Object) : Prop where
  visited : store.visited = true
  dest : (∃ s, store.dest.place = some s) ∨ ∃ e, store.dest = .lvalue e ∧
    (isUnknownPlace sigm (others ++ stores.take k) e = true ∨ StoreThrough sigm stores σ k e o)
  value : PointsAt sigm σ.frames (keptWays sigm others stores σ k) store.rhs t

/-- Pointers to variables of blocks are stored by stores that the analysis keeps track of. -/
def MeetsTracked (sigm : Sigma) (others stores : List Store) (σ : RunState) (k : Nat)
    (store : Store) (o t : Object) : Prop :=
  t.IsBlockScoped → Tracked sigm others stores σ k store o t

end

end RefinedC.Frontend.Escape
