import RefinedC.Frontend.TranslateBlock
import RefinedC.Library.OracleRun

/-!
Control flow of C statements and of emitted blocks.

Owns: C's structured semantics of statements with opaque expressions, the
semantics of an emitted block map, and when an action of the one is the
translation of an action of the other.

Both semantics are deterministic. The outcomes of conditions and of switch
expressions come from an oracle. Source of the target rules: `stmt_step` in
`theories/caesium/lang.v`.
-/

namespace RefinedC.Frontend

open Library

/-- Outcomes of the conditions and switch expressions, by the number of actions
that were performed before. -/
structure Oracle where
  cond : Nat → Bool
  switch : Nat → Int

/-! ## C statements -/

inductive RetVal where
  | void
  | zero
  | value (e : Expr)

/-- Elementary actions of C statements. -/
inductive Event where
  | exprStmt (e : Expr)
  | init (s : Sym) (e : Expr)
  | cond (e : Expr) (outcome : Bool)
  | switch (e : Expr) (outcome : Int)
  | ret (v : RetVal)

/-- What follows the current statements. -/
inductive Cont where
  | stop
  | seq (ss : List Stmt) (k : Cont)
  | whileK (e : Expr) (s : Stmt) (k : Cont)
  | doK (s : Stmt) (e : Expr) (k : Cont)
  | switchK (k : Cont)

inductive Config where
  | run (ss : List Stmt) (k : Cont)
  | done

/-- A place that control flow can jump to. -/
inductive Target where
  | label (l : String)
  | case (i : Int)
  | default
deriving DecidableEq, Repr

/-- Cases belong to the innermost switch. -/
def Target.inSwitch : Target → Bool
  | .label _ => true
  | _ => false

mutual

/-- The statements from a target in `s` on, when `ss` and then `k` follow `s`. -/
def seek (target : Target) : Stmt → List Stmt → Cont → Option (List Stmt × Cont)
  | .block _ inner, ss, k => seekList target inner (.seq ss k)
  | .ifS _ s1 s2, ss, k => (seek target s1 [] (.seq ss k)).or (seek target s2 [] (.seq ss k))
  | .whileS e s, ss, k => seek target s [] (.whileK e s (.seq ss k))
  | .doS s e, ss, k => seek target s [] (.doK s e (.seq ss k))
  | .switch _ s, ss, k =>
      if target.inSwitch then seek target s [] (.switchK (.seq ss k)) else none
  | .caseS i s, ss, k => if target = .case i then some (s :: ss, k) else seek target s ss k
  | .default s, ss, k => if target = .default then some (s :: ss, k) else seek target s ss k
  | .label l s, ss, k =>
      if target = .label (symToStr l) then some (s :: ss, k) else seek target s ss k
  | _, _, _ => none

def seekList (target : Target) : List Stmt → Cont → Option (List Stmt × Cont)
  | [], _ => none
  | s :: ss, k => (seek target s ss k).or (seekList target ss k)

end

/-- What follows the innermost loop or switch. -/
def Cont.breakTo : Cont → Option Cont
  | .stop => none
  | .seq _ k => k.breakTo
  | .whileK _ _ k => some k
  | .doK _ _ k => some k
  | .switchK k => some k

/-- The end of the body of the innermost loop. -/
def Cont.continueTo : Cont → Option Cont
  | .stop => none
  | .seq _ k => k.continueTo
  | .whileK e s k => some (.whileK e s k)
  | .doK s e k => some (.doK s e k)
  | .switchK k => k.continueTo

/-- Where a switch with outcome `n` continues. -/
def switchTo (n : Int) (s : Stmt) (ss : List Stmt) (k : Cont) : List Stmt × Cont :=
  match seek (.case n) s [] (.switchK (.seq ss k)) with
  | some found => found
  | none => (seek .default s [] (.switchK (.seq ss k))).getD (ss, k)

/-- Silent step to a configuration. -/
def silently {E : Type} (next : Option (List Stmt × Cont)) : Option (Config × Option E) :=
  next.map fun c => (.run c.1 c.2, none)

/-- The end of the current statements. -/
def stepEnd (fallOff : RetVal) (oracle : Oracle) (time : Nat) :
    Cont → Option (Config × Option Event)
  | .stop => some (.done, some (.ret fallOff))
  | .seq ss k => silently (some (ss, k))
  | .whileK e s k =>
      if oracle.cond time then some (.run [s] (.whileK e s k), some (.cond e true))
      else some (.run [] k, some (.cond e false))
  | .doK s e k =>
      if oracle.cond time then some (.run [s] (.doK s e k), some (.cond e true))
      else some (.run [] k, some (.cond e false))
  | .switchK k => silently (some ([], k))

/-- One step of the statements `s :: ss` followed by `k`. -/
def stepStmt (body : List Stmt) (oracle : Oracle) (time : Nat) (s : Stmt) (ss : List Stmt)
    (k : Cont) : Option (Config × Option Event) :=
  match s with
  | .skip => silently (some (ss, k))
  | .expr e => some (.run ss k, some (.exprStmt e))
  | .block _ inner => silently (some (inner, .seq ss k))
  | .ifS e s1 s2 =>
      if oracle.cond time then some (.run [s1] (.seq ss k), some (.cond e true))
      else some (.run [s2] (.seq ss k), some (.cond e false))
  | .whileS e s =>
      if oracle.cond time then some (.run [s] (.whileK e s (.seq ss k)), some (.cond e true))
      else some (.run ss k, some (.cond e false))
  | .doS s e => silently (some ([s], .doK s e (.seq ss k)))
  | .breakS => silently (k.breakTo.map fun k' => ([], k'))
  | .continueS => silently (k.continueTo.map fun k' => ([], k'))
  | .returnVoid => some (.done, some (.ret .void))
  | .returnS e => some (.done, some (.ret (.value e)))
  | .switch e s =>
      let next := switchTo (oracle.switch time) s ss k
      some (.run next.1 next.2, some (.switch e (oracle.switch time)))
  | .caseS _ s => silently (some (s :: ss, k))
  | .default s => silently (some (s :: ss, k))
  | .label _ s => silently (some (s :: ss, k))
  | .goto l => silently (seekList (.label (symToStr l)) body .stop)
  | .declaration [] => silently (some (ss, k))
  | .declaration ((_, none) :: ds) => silently (some (.declaration ds :: ss, k))
  | .declaration ((x, some e) :: ds) => some (.run (.declaration ds :: ss) k, some (.init x e))
  | .caseRangeGNU _ _ _ | .par _ | .regStore _ _ | .marker _ => none

/-- C's structured semantics of a function body. -/
def stmtSystem (body : List Stmt) (fallOff : RetVal) (oracle : Oracle) :
    EventSystem Config Event where
  step time
    | .run [] k => stepEnd fallOff oracle time k
    | .run (s :: ss) k => stepStmt body oracle time s ss k
    | .done => none

/-! ## Emitted blocks -/

/-- Elementary actions of emitted statements. -/
inductive BlockEvent where
  | head (h : Head)
  | cond (ot : Coq.OpType) (e : Coq.Expr) (outcome : Bool)
  | switch (it : Coq.IntType) (e : Coq.Expr) (outcome : Int)
  | ret (e : Coq.Expr)

inductive BlockConfig where
  | run (s : Coq.Stmt)
  | done

abbrev Blocks := String → Option Coq.Stmt

def Coq.FuncDef.blockMap (fn : Coq.FuncDef) : Blocks := fun id => fn.blocks.lookup id

/-- The branches of a switch statement. -/
structure SwitchTable where
  map : List (Int × Nat)
  branches : List Coq.Stmt
  default : Coq.Stmt

/-- Branch of an outcome. The rule needs that an index of the map is in range. -/
def SwitchTable.branch (table : SwitchTable) (n : Int) : Option Coq.Stmt :=
  match table.map.lookup n with
  | some i => table.branches[i]?
  | none => some table.default

def stepBlock (blocks : Blocks) (oracle : Oracle) (time : Nat) :
    Coq.Stmt → Option (BlockConfig × Option BlockEvent)
  | .goto l => (blocks l).map fun s => (.run s, none)
  | .ret e => some (.done, some (.ret e))
  | .switch it e map branches default =>
      ((SwitchTable.mk map branches default).branch (oracle.switch time)).map fun s =>
        (.run s, some (.switch it e (oracle.switch time)))
  | .assign atomic ot e1 e2 s => some (.run s, some (.head (.assign atomic ot e1 e2)))
  | .skipS s => some (.run s, none)
  | .ifS ot _ e s1 s2 =>
      if oracle.cond time then some (.run s1, some (.cond ot e true))
      else some (.run s2, some (.cond ot e false))
  | .assert ot e s => some (.run s, some (.head (.assert ot e)))
  | .exprS _ e s => some (.run s, some (.head (.exprS e)))

def blockSystem (blocks : Blocks) (oracle : Oracle) : EventSystem BlockConfig BlockEvent where
  step time
    | .run s => stepBlock blocks oracle time s
    | .done => none

/-! ## Translated actions -/

/-- `b` is a result of the expression translation `m`, with some local
variables. -/
def TranslatesTo {α : Type} (ctx : Ctx) (m : Ctx → ExprM α) (b : α) : Prop :=
  ∃ isLocal used used', m { ctx with isLocal := isLocal } used = .ok (b, used')

/-- An emitted action is the translation of an action of the source, where
variables have their declared types. -/
inductive EventMatches (ctx : Ctx) (retTy : Option Coq.OpType) (declared : List (String × CType)) :
    Event → BlockEvent → Prop where
  | exprStmt {e : Expr} {h : Head} :
      TranslatesTo ctx (fun ctx => translateExprStmt ctx e) h →
      EventMatches ctx retTy declared (.exprStmt e) (.head h)
  | init {x : Sym} {ty : CType} {e : Expr} {h : Head} :
      (symToStr x, ty) ∈ declared →
      TranslatesTo ctx (fun ctx => translateInit ctx (symToStr x) ty e) h →
      EventMatches ctx retTy declared (.init x e) (.head h)
  | cond {e : Expr} {ot : Coq.OpType} {e' : Coq.Expr} {outcome : Bool} :
      TranslatesTo ctx (fun ctx => translateCond ctx e) (ot, e') →
      EventMatches ctx retTy declared (.cond e outcome) (.cond ot e' outcome)
  | switch {e : Expr} {it : Coq.IntType} {e' : Coq.Expr} {outcome : Int} :
      switchType ctx e = .ok it →
      TranslatesTo ctx (fun ctx => translateExpr ctx false none e) e' →
      EventMatches ctx retTy declared (.switch e outcome) (.switch it e' outcome)
  | retVoid : EventMatches ctx retTy declared (.ret .void) (.ret (.val .void))
  | retZero : EventMatches ctx retTy declared (.ret .zero) (.ret (.val (.int "0" (.i32 true))))
  | ret {e : Expr} {e' : Coq.Expr} :
      TranslatesTo ctx (fun ctx => translateReturn ctx retTy e) e' →
      EventMatches ctx retTy declared (.ret (.value e)) (.ret e')

/-- Value of a function whose end is reached. -/
def fallOffValue (retTy : Option Coq.OpType) (isMain : Bool) : RetVal :=
  if isMain ∧ retTy = some (.int (.i32 true)) then .zero else .void

end RefinedC.Frontend
