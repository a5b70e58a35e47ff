import RefinedC.Frontend.TranslateExpr

/-!
Translation of statements and functions.

Source: `k_data`, `translate_block` and the functions of `translate` in
`frontend/ail_to_coq.ml`.

Owns: the continuation stack, the block map with its labels, the data of the
enclosing switches, the translation of statement lists, and function definitions.

Attributes are left out, and with them loop annotations, hints and the
annotations of expression statements. A case reference that the source allocates
empty and fills later is an entry of the switch data that is filled later.
-/

namespace RefinedC.Frontend

open Library

/-! ## Continuation stack -/

/-- What to do at a break, at a continue and at the end of control flow. -/
structure KData where
  kBreak : Option Coq.Stmt
  kContinue : Option Coq.Stmt
  kFinal : Option Coq.Stmt
  kOnCase : Bool

def kPushFinal (s : Coq.Stmt) (ks : List KData) : List KData :=
  ⟨none, none, some s, false⟩ :: ks

def kPushFinalCase (s : Coq.Stmt) (ks : List KData) : List KData :=
  ⟨none, none, some s, true⟩ :: ks

def kGen (f : KData → Option Coq.Stmt) : List KData → Result Coq.Stmt
  | [] => .error .assertFalse
  | k :: ks =>
      match f k with
      | none => kGen f ks
      | some s => .ok s

def kInit (retTy : Option Coq.OpType) (isMain : Bool) : List KData :=
  let retV := match retTy with
    | some (.int (.i32 true)) => if isMain then Coq.Value.int "0" (.i32 true) else .void
    | _ => .void
  kPushFinal (.ret (.val retV)) []

def kPopCases : List KData → List KData
  | [] => []
  | k :: ks => if k.kOnCase then kPopCases ks else k :: ks

/-! ## State -/

/-- Data of an enclosing switch. An entry is empty until its case is translated. -/
structure SwitchData where
  cases : List (Int × Option Coq.Stmt)
  curLabel : String
  nextLabel : String
  default : Option (Option Coq.Stmt)

structure State where
  localVars : List (String × Bool × CType)
  used : Used
  blockId : Nat
  blocks : List (String × Coq.Stmt)
  switches : List SwitchData

abbrev TransM := StateT State Result

def State.isLocal (σ : State) (id : String) : Bool := (σ.localVars.lookup id).isSome

/-- Runs the translation of an expression. -/
def inExpr {α : Type} (ctx : Ctx) (m : Ctx → ExprM α) : TransM α := fun σ => do
  let (a, used) ← m { ctx with isLocal := σ.isLocal } σ.used
  .ok (a, { σ with used := used })

def blockName (n : Nat) : String := "#" ++ toString n

def freshBlockId : TransM String := fun σ =>
  .ok (blockName σ.blockId, { σ with blockId := σ.blockId + 1 })

def addBlock (id : String) (s : Coq.Stmt) : TransM Unit := fun σ =>
  if (σ.blocks.lookup id).isSome then .error .assertFalse
  else .ok ((), { σ with blocks := (id, s) :: σ.blocks })

def insertBindings : List (Sym × CType) → TransM Unit
  | [] => pure ()
  | (s, ty) :: bindings => do
      insertBinding (symToStr s) ty
      insertBindings bindings
where
  insertBinding (id : String) (ty : CType) : TransM Unit := fun σ =>
    if σ.isLocal id then
      .error (.notImpl ("Variable name collision with [" ++ id ++ "]."))
    else .ok ((), { σ with localVars := (id, true, ty) :: σ.localVars })

def findLocal (id : String) : TransM CType := fun σ =>
  match σ.localVars.lookup id with
  | some (_, ty) => .ok (ty, σ)
  | none => .error .assertFalse

/-! ## Switches -/

def pushSwitch (data : SwitchData) : TransM Unit := fun σ =>
  .ok ((), { σ with switches := data :: σ.switches })

def popSwitch : TransM SwitchData := fun σ =>
  match σ.switches with
  | [] => .error .assertFalse
  | data :: switches => .ok (data, { σ with switches := switches })

/-- Registers a case of the current switch. Gives its index and the labels of
this case and of the next one. -/
def registerCase (i : Int) : TransM (Nat × String × String) := do
  let data ← popSwitch
  if data.default.isSome then liftResult (.error .assertFalse)
  let fresh ← freshBlockId
  pushSwitch ⟨data.cases ++ [(i, none)], data.nextLabel, fresh, none⟩
  return (data.cases.length, data.curLabel, data.nextLabel)

def setCase (ref : Nat) (s : Coq.Stmt) : TransM Unit := do
  let data ← popSwitch
  pushSwitch { data with cases := data.cases.modify ref fun c => (c.1, some s) }

def registerDefault : TransM (String × String) := do
  let data ← popSwitch
  if data.default.isSome then liftResult (.error .assertFalse)
  let fresh ← freshBlockId
  pushSwitch ⟨data.cases, data.nextLabel, fresh, some none⟩
  return (data.curLabel, data.nextLabel)

def setDefault (s : Coq.Stmt) : TransM Unit := do
  let data ← popSwitch
  pushSwitch { data with default := some (some s) }

def caseBranches (cases : List (Int × Option Coq.Stmt)) : Result (List Coq.Stmt) :=
  cases.mapM fun c =>
    match c.2 with
    | some s => .ok s
    | none => .error .assertFalse

def defaultBranch (gotoCont : Coq.Stmt) : Option (Option Coq.Stmt) → Result Coq.Stmt
  | none => .ok gotoCont
  | some (some s) => .ok s
  | some none => .error .assertFalse

/-! ## Elementary statements -/

/-- A statement that is followed by another one. -/
inductive Head where
  | assert (ot : Coq.OpType) (e : Coq.Expr)
  | assign (atomic : Bool) (ot : Coq.OpType) (e1 e2 : Coq.Expr)
  | exprS (e : Coq.Expr)

def Head.attach : Head → Coq.Stmt → Coq.Stmt
  | .assert ot e, s => .assert ot e s
  | .assign atomic ot e1 e2, s => .assign atomic ot e1 e2 s
  | .exprS e, s => .exprS none e s

/-- Goal type for the value of a statement. -/
def intOrBoolGoal : Option Coq.OpType → Option Coq.OpType
  | some (.int it) => some (.int it)
  | some .bool => some .bool
  | _ => none

/-- Assignment of `e2` to `e1` by the assignment expression `e`. -/
def translateAssign (ctx : Ctx) (e e1 e2 : Expr) : ExprM Head := do
  let atomic := ctx.isAtomic (typeOf e1)
  let left ← translateExpr ctx true none e1
  let ot ← liftResult (opTypeOfExpr ctx e)
  let goal ← liftResult (resType ctx (tcOf e))
  let right ← translateExpr ctx false (intOrBoolGoal goal) e2
  return .assign atomic ot left right

/-- Type of `e1 op e2` in a compound assignment. -/
def compoundType (ctx : Ctx) (ty1 ty2 : CType) : ArithmeticOperator → CType
  | .mul | .div | .mod | .band | .bxor | .bor => ctx.usualArithmetic ty1 ty2
  | .shl | .shr => ctx.integerPromote ty1
  | .add =>
      if isPointerType ty1 then ty1
      else if isPointerType ty2 then ty2
      else ctx.usualArithmetic ty1 ty2
  | .sub =>
      if isPointerType ty2 then
        if isPointerType ty1 then .integer .ptrdiff else ty1
      else ctx.usualArithmetic ty1 ty2
where
  isPointerType : CType → Bool
    | .pointer _ => true
    | _ => false

/-- The operand `e1` is duplicated. -/
def translateCompoundAssign (ctx : Ctx) (e e1 : Expr) (op : ArithmeticOperator) (e2 : Expr) :
    ExprM Head :=
  match tcOf e1, tcOf e2 with
  | .lvalue ty1, .rvalue ty2 =>
      translateAssign ctx e e1 (.annotated (.rvalue (compoundType ctx ty1 ty2 op))
        (.binary (.annotated (.rvalue ty1) (.rvalue e1)) (.arithmetic op) e2))
  | _, _ => fail .assertFalse

/-- The operand `e` is duplicated. -/
def translateIncrement (ctx : Ctx) (op : Coq.BinOp) (e : Expr) : ExprM Head := do
  let atomic := ctx.isAtomic (typeOf e)
  let ot ← liftResult (opTypeOfExpr ctx e)
  let resTy ← liftResult (resType ctx (tcOf e))
  let (ty, it) ← liftResult (match resTy with
    | some (.int it) => .ok (.int it, it)
    | some (.ptr l) => .ok (.ptr l, .i32 true)
    | _ => .error .assertFalse)
  let left ← translateExpr ctx true none e
  return .assign atomic ot left
    (.binOp op ty (.int it) (.use atomic ot left) (.val (.int "1" it)))

def translateExprStmt (ctx : Ctx) (e : Expr) : ExprM Head :=
  match stripExpr e with
  | .assert e => do
      let ot ← liftResult (opTypeOfExpr ctx e)
      let e ← translateExpr ctx false none e
      return .assert ot e
  | .assign e1 e2 => translateAssign ctx e e1 e2
  | .compoundAssign e1 op e2 => translateCompoundAssign ctx e e1 op e2
  | .unary .postfixIncr e => translateIncrement ctx .add e
  | .unary .postfixDecr e => translateIncrement ctx .sub e
  | .call f es => do
      match ← translateCall ctx .inStmt false (delayedArgs ctx es) f with
      | .atomicExpr e => return .exprS e
      | .simple ret e es => return .exprS (.call ret e es)
      | .atomicStore ot e1 e2 => return .assign true ot e1 e2
  | _ => do
      let e ← translateExpr ctx false none e
      return .exprS e

def translateInit (ctx : Ctx) (id : String) (ty : CType) (e : Expr) : ExprM Head := do
  let ot ← liftResult (opTypeOf ctx.impl ctx.tags ty)
  let e ← translateExpr ctx false (some ot) e
  return .assign (ctx.isAtomic ty) ot (.var (some id) false) e

def addDecl (ctx : Ctx) (decl : Sym × Option Expr) (s : Coq.Stmt) : TransM Coq.Stmt :=
  match decl.2 with
  | none => return s
  | some e => do
      let ty ← findLocal (symToStr decl.1)
      let head ← inExpr ctx fun ctx => translateInit ctx (symToStr decl.1) ty e
      return head.attach s

def translateCond (ctx : Ctx) (e : Expr) : ExprM (Coq.OpType × Coq.Expr) := do
  let ot ← liftResult (opTypeOfExpr ctx e)
  let e ← translateExpr ctx false none e
  return (ot, e)

def translateBoolExpr (ctx : Ctx) (idCont : Option String) (thenGoto elseGoto : Coq.Stmt)
    (e : Expr) : TransM Coq.Stmt := do
  let (ot, e) ← inExpr ctx fun ctx => translateCond ctx e
  return .ifS ot idCont e thenGoto elseGoto

def translateReturn (ctx : Ctx) (retTy : Option Coq.OpType) (e : Expr) : ExprM Coq.Expr :=
  translateExpr ctx false (intOrBoolGoal retTy) e

/-- Integer type of the expression of a switch. -/
def switchType (ctx : Ctx) (e : Expr) : Result Coq.IntType := do
  match ← opTypeOfExpr ctx e with
  | .int it => .ok it
  | _ => .error .assertFalse

/-! ## Statements -/

mutual

def Stmt.size : Stmt → Nat
  | .block _ ss => 1 + Stmt.sizes ss
  | .ifS _ s1 s2 => 1 + s1.size + s2.size
  | .whileS _ s | .doS s _ | .switch _ s | .caseS _ s | .caseRangeGNU _ _ s | .default s
  | .label _ s | .marker s => 1 + s.size
  | .par ss => 1 + Stmt.sizes ss
  | .declaration ds => 1 + ds.length
  | _ => 1

def Stmt.sizes : List Stmt → Nat
  | [] => 0
  | s :: ss => s.size + Stmt.sizes ss

end

private theorem Stmt.size_pos (s : Stmt) : 0 < s.size := by
  cases s <;> simp [Stmt.size]

private theorem Stmt.sizes_append (ss ss' : List Stmt) :
    Stmt.sizes (ss ++ ss') = Stmt.sizes ss + Stmt.sizes ss' := by
  induction ss with
  | nil => simp [Stmt.sizes]
  | cons s ss inductionHypothesis => simp [Stmt.sizes, inductionHypothesis, Nat.add_assoc]

/-- Translates a list of statements that is followed by the end of control flow. -/
def trans (ctx : Ctx) (retTy : Option Coq.OpType) (ks : List KData) (stmts : List Stmt) :
    TransM Coq.Stmt :=
  match stmts with
  | [] => liftResult (kGen KData.kFinal (kPopCases ks))
  | .block bindings ss :: stmts => do
      insertBindings bindings
      trans ctx retTy ks (ss ++ stmts)
  | .goto l :: stmts => do
      let _ ← trans ctx retTy ks stmts
      return .goto (symToStr l)
  | .returnVoid :: stmts => do
      let _ ← trans ctx retTy ks stmts
      return .ret (.val .void)
  | .breakS :: stmts => do
      let _ ← trans ctx retTy ks stmts
      liftResult (kGen KData.kBreak ks)
  | .continueS :: stmts => do
      let _ ← trans ctx retTy ks stmts
      liftResult (kGen KData.kContinue ks)
  | .returnS e :: stmts => do
      let _ ← trans ctx retTy ks stmts
      let e ← inExpr ctx fun ctx => translateReturn ctx retTy e
      return .ret e
  | .skip :: stmts => trans ctx retTy ks stmts
  | .expr e :: stmts => do
      let s ← trans ctx retTy ks stmts
      let head ← inExpr ctx fun ctx => translateExprStmt ctx e
      return head.attach s
  | .ifS e s1 s2 :: stmts => do
      let (idCont, ks') ← if stmts.isEmpty then pure (none, ks) else do
        let idCont ← freshBlockId
        let s ← trans ctx retTy ks stmts
        addBlock idCont s
        pure (some idCont, kPushFinal (.goto idCont) ks)
      let idThen ← freshBlockId
      let s ← trans ctx retTy ks' [s1]
      addBlock idThen s
      let idElse ← freshBlockId
      let s ← trans ctx retTy ks' [s2]
      addBlock idElse s
      translateBoolExpr ctx idCont (.goto idThen) (.goto idElse) e
  | .whileS e s :: stmts => do
      let idCond ← freshBlockId
      let idBody ← freshBlockId
      let idCont ← freshBlockId
      let cont ← trans ctx retTy ks stmts
      addBlock idCont cont
      let body ← trans ctx retTy
        (⟨some (.goto idCont), some (.goto idCond), some (.goto idCond), false⟩ :: ks) [s]
      addBlock idBody body
      let cond ← translateBoolExpr ctx none (.goto idBody) (.goto idCont) e
      addBlock idCond cond
      return .goto idCond
  | .doS s e :: stmts => do
      let idCond ← freshBlockId
      let idBody ← freshBlockId
      let idCont ← freshBlockId
      let cont ← trans ctx retTy ks stmts
      addBlock idCont cont
      let body ← trans ctx retTy
        (⟨some (.goto idCont), some (.goto idCond), some (.goto idCond), false⟩ :: ks) [s]
      addBlock idBody body
      let cond ← translateBoolExpr ctx none (.goto idBody) (.goto idCont) e
      addBlock idCond cond
      return .goto idBody
  | .switch e s :: stmts => do
      let idCont ← freshBlockId
      let cont ← trans ctx retTy ks stmts
      addBlock idCont cont
      let it ← liftResult (switchType ctx e)
      let curLabel ← freshBlockId
      let nextLabel ← freshBlockId
      pushSwitch ⟨[], curLabel, nextLabel, none⟩
      let _ ← trans ctx retTy
        (⟨some (.goto idCont), none, some (.goto idCont), false⟩ :: ks) [s]
      let data ← popSwitch
      let branches ← liftResult (caseBranches data.cases)
      let default ← liftResult (defaultBranch (.goto idCont) data.default)
      addBlock data.curLabel (.goto idCont)
      let e ← inExpr ctx fun ctx => translateExpr ctx false none e
      return .switch it e (data.cases.mapIdx fun i c => (c.1, i)) branches default
  | .caseS i s :: stmts => do
      let (ref, curLabel, nextLabel) ← registerCase i
      let body ← trans ctx retTy (kPushFinalCase (.goto nextLabel) ks) (s :: stmts)
      addBlock curLabel body
      setCase ref (.goto curLabel)
      return .goto curLabel
  | .caseRangeGNU _ _ _ :: _ => liftResult (.error (.notImpl "GNU range expression"))
  | .default s :: stmts => do
      let (curLabel, nextLabel) ← registerDefault
      let body ← trans ctx retTy (kPushFinalCase (.goto nextLabel) ks) (s :: stmts)
      addBlock curLabel body
      setDefault (.goto curLabel)
      return .goto curLabel
  | .label l s :: stmts => do
      let body ← trans ctx retTy ks (s :: stmts)
      addBlock (symToStr l) body
      return .goto (symToStr l)
  | .declaration ds :: stmts => do
      let s ← trans ctx retTy ks stmts
      ds.foldrM (addDecl ctx) s
  | .par _ :: _ => liftResult (.error (.notImpl "statement par"))
  | .regStore _ _ :: _ => liftResult (.error (.notImpl "statement store"))
  | .marker _ :: _ => liftResult (.error .assertFalse)
termination_by Stmt.sizes stmts
decreasing_by
  all_goals simp only [Stmt.sizes, Stmt.sizes_append, Stmt.size]
  all_goals have := Stmt.size_pos
  all_goals omega

def translateBlock (ctx : Ctx) (stmts : List Stmt) (retTy : Option Coq.OpType) (isMain : Bool) :
    TransM Coq.Stmt :=
  trans ctx retTy (kInit retTy isMain) stmts

/-! ## Functions -/

/-- Declares the arguments of a function. -/
def declareArgs (ctx : Ctx) : List CType → List Sym → TransM (List (String × Coq.Layout))
  | [], _ => pure []
  | _ :: _, [] => liftResult (.error (.panic "nth"))
  | ty :: tys, s :: args => do
      modify fun σ => { σ with localVars := (symToStr s, false, ty) :: σ.localVars }
      let l ← liftResult (layoutOf ctx.impl true ty)
      let rest ← declareArgs ctx tys args
      return (symToStr s, l) :: rest

/-- Local variables that are not arguments. -/
def collectBindings (ctx : Ctx) (localVars : List (String × Bool × CType)) :
    Result (List (String × Coq.Layout)) :=
  (localVars.filter fun v => v.2.1).mapM fun v => do
    let l ← layoutOf ctx.impl false v.2.2
    .ok (v.1, l)

def functionBody : Stmt → Result (List (Sym × CType) × List Stmt)
  | .block bindings stmts => .ok (bindings, stmts)
  | _ => .error (.notImpl "Body not a block.")

/-- Arguments, name of the initial block and its statement. -/
def translateBody (ctx : Ctx) (name : String) (decl : FunDecl) (fd : FunctionDefinition) :
    TransM (List (String × Coq.Layout) × String) := do
  let args ← declareArgs ctx decl.params fd.params
  let (bindings, stmts) ← liftResult (functionBody fd.body)
  insertBindings bindings
  let init ← freshBlockId
  let retTy ← liftResult (opTypeOpt ctx.impl decl.ret)
  let s ← translateBlock ctx stmts retTy (name = "main")
  addBlock init s
  return (args, init)

def initialState : State := ⟨[], ⟨[], []⟩, 0, [], []⟩

def translateFunction (ctx : Ctx) (name : String) (decl : FunDecl) (fd : FunctionDefinition) :
    Result Coq.FuncDef := do
  let ((args, init), σ) ← translateBody ctx name decl fd initialState
  let vars ← collectBindings ctx σ.localVars
  .ok ⟨args, vars, init, σ.blocks⟩

end RefinedC.Frontend
