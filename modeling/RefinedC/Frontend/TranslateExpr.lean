import RefinedC.Frontend.TypeLayout

/-!
Translation of expressions.

Source: `translate_expr` and `translate_call` of `frontend/ail_to_coq.ml`, with
the helper functions above them.

Owns: the translation in lvalue and rvalue mode with its casts to a goal type,
calls and atomic builtins, and macro and annotation conditionals.

Does not own: the conversions of C's integer types and the decoding of memory
orders, which are parameters. Recursive calls that the source makes through a list
of arguments or of macro pieces are passed down as delayed translations, so that
the recursion follows the syntax.
-/

namespace RefinedC.Frontend

open Library

/-! ## Context and state -/

inductive MemoryOrder where
  | na | seqCst | relaxed | release | acquire | consume | acqRel
deriving DecidableEq, Repr

/-- A declared function: return and parameter types, and the annotations of its
arguments by index. -/
structure FunDecl where
  ret : CType
  params : List CType
  annotArgs : List (Nat × Nat × String)

/-- What the translation of an expression reads: declarations, local variables
and functions of Cerberus. -/
structure Ctx where
  impl : Impl
  tags : List (Sym × TagDef)
  funDecls : List (String × FunDecl)
  isLocal : String → Bool
  usualArithmetic : CType → CType → CType
  integerPromote : CType → CType
  isAtomic : CType → Bool
  decodeMemoryOrder : Int → Option MemoryOrder

/-- Global variables and functions that have been used. -/
structure Used where
  globals : List String
  functions : List String

abbrev ExprM := StateT Used Result

def fail {α : Type} (failure : Failure) : ExprM α := liftResult (.error failure)

@[simp] theorem fail_ne_ok {α : Type} (failure : Failure) (used : Used) (result : α × Used) :
    (fail failure : ExprM α) used ≠ .ok result := nofun

def useGlobal (id : String) : ExprM Unit := fun used =>
  .ok ((), { used with globals := id :: used.globals })

def useFunction (id : String) : ExprM Unit := fun used =>
  .ok ((), { used with functions := id :: used.functions })

/-! ## Helper functions -/

def isConst0 (e : Expr) : Bool :=
  match stripExpr e with
  | .const (.integer (.iConstant i)) => i == 0
  | _ => false

inductive MacroAnnotArg where
  | string (s : String)
  | expr (e : Expr)

/-- A string literal, or any other expression. -/
def getMacroArg (e : Expr) : MacroAnnotArg :=
  match stripExpr e with
  | .arrayDecay inner =>
      match stripExpr inner with
      | .str pieces => .string (String.join pieces)
      | _ => .expr e
  | _ => .expr e

/-- Operands of a chain of comma operators. -/
def macroAnnotToList : Expr → List MacroAnnotArg
  | .annotated _ (.binary e1 .comma e2) => macroAnnotToList e1 ++ [getMacroArg e2]
  | e => [getMacroArg e]

def isMacroAnnot (e : Expr) : Bool :=
  match macroAnnotToList e with
  | .string s :: _ => s == "rc_macro"
  | _ => false

def isExprAnnot (e : Expr) : Bool :=
  match macroAnnotToList e with
  | .string s :: _ => s == "rc_annot"
  | _ => false

def getFunctionType : CType → Result (CType × List CType)
  | .pointer ty => getFunctionType ty
  | .function ret params => .ok (ret, params)
  | _ => .error (.panic "Not a function expression.")

def structDataOfType : CType → Result (String × Bool)
  | .struct s => .ok (symToStr s, false)
  | .union s => .ok (symToStr s, true)
  | _ => .error .assertFalse

/-- Struct or union of an lvalue, or behind a pointer. -/
def structData (e : Expr) : Result (String × Bool) :=
  match tcOf e with
  | .rvalue (.pointer ty) => structDataOfType ty
  | .lvalue ty => structDataOfType ty
  | _ => .error .assertFalse

def ptrOpTypeOf (ctx : Ctx) (e : Expr) : Result Coq.OpType :=
  match typeOf e with
  | .pointer ty => opTypeOf ctx.impl ctx.tags ty
  | _ => .error .assertFalse

def memoryOrderOfExpr (ctx : Ctx) (e : Expr) : Result MemoryOrder :=
  match stripExpr e with
  | .const (.integer (.iConstant i)) =>
      match ctx.decodeMemoryOrder i with
      | some order => .ok order
      | none => .error (.panic "Memory order is invalid (bad constant).")
  | _ => .error (.panic "Memory order is not an integer constant.")

def getIntType (ctx : Ctx) (i : IntegerType) : Result Coq.IntType := do
  match ← translateIntType ctx.impl i with
  | some it => .ok it
  | none => .error .assertFalse

/-- Text of an integer constant, and the type that it fixes. -/
def integerConstantToString (ctx : Ctx) :
    IntegerConstant → Result (String × Option Coq.IntType)
  | .iConstant i => .ok (toString i, none)
  | .iConstantMax i => do
      let it ← getIntType ctx i
      .ok ("(max_int " ++ it.pp ++ ")", some it)
  | .iConstantMin i => do
      let it ← getIntType ctx i
      .ok ("(min_int " ++ it.pp ++ ")", some it)

def translateConstant (ctx : Ctx) (resTy : Option Coq.OpType) : Constant → Result Coq.Value
  | .indeterminate _ => .error .assertFalse
  | .null => .ok .null
  | .integer i => do
      let (text, fixedTy) ← integerConstantToString ctx i
      match resTy, fixedTy with
      | some (.int it), some it' => if it = it' then .ok (.int text it) else .error .assertFalse
      | some (.int it), none => .ok (.int text it)
      | _, _ => .error .assertFalse
  | .floating => .error (.notImpl "constant float")
  | .character => .error (.notImpl "constant char")
  | .array => .error (.notImpl "constant array")
  | .struct => .error (.notImpl "constant struct")
  | .union => .error (.notImpl "constant union")
  | .predefined => .error (.notImpl "constant predefined")

def arithOp : ArithmeticOperator → Coq.BinOp
  | .mul => .mul
  | .div => .div
  | .mod => .mod
  | .add => .add
  | .sub => .sub
  | .shl => .shl
  | .shr => .shr
  | .band => .and
  | .bxor => .xor
  | .bor => .or

def binOp : BinaryOperator → Coq.BinOp
  | .arithmetic op => arithOp op
  | .comma => .comma
  | .and => .lazyAnd
  | .or => .lazyOr
  | .lt => .lt
  | .gt => .gt
  | .le => .le
  | .ge => .ge
  | .eq => .eq
  | .ne => .ne

def isArith : BinaryOperator → Bool
  | .arithmetic _ => true
  | _ => false

def isIntOrBool : Coq.OpType → Bool
  | .bool | .int _ => true
  | _ => false

/-- Operation types of the operands of a binary operator. -/
def operandTypes (ctx : Ctx) (op : BinaryOperator) (e1 e2 : Expr) (ty1 ty2 : Coq.OpType)
    (resTy : Option Coq.OpType) : Result (Coq.OpType × Coq.OpType) :=
  match resTy with
  | some (.int it) =>
      if isIntOrBool ty1 && isIntOrBool ty2 then
        if isArith op then .ok (.int it, .int it)
        else do
          let ty ← opTypeOf ctx.impl ctx.tags (ctx.usualArithmetic (typeOf e1) (typeOf e2))
          .ok (ty, ty)
      else .ok (ty1, ty2)
  | _ => .ok (ty1, ty2)

/-- The cast to the goal type at the end of a translation. -/
def castTo (goal : Option Coq.OpType) (e : Coq.Expr × Option Coq.OpType) : Coq.Expr :=
  match goal, e.2 with
  | some goalTy, some resTy =>
      if goalTy = resTy then e.1 else .unOp (.cast goalTy) resTy e.1
  | _, _ => e.1

/-- Goal type of an argument. -/
def argGoal (ctx : Ctx) (ty : CType) : Result (Option Coq.OpType) := do
  match ← opTypeOpt ctx.impl ty with
  | some (.int it) => .ok (some (.int it))
  | some .bool => .ok (some .bool)
  | _ => .ok none

/-! ## Calls -/

inductive CallPlace where
  | inExpr | inStmt
deriving DecidableEq, Repr

inductive CallRes where
  | simple (ret : CType) (e : Coq.Expr) (es : List Coq.Expr)
  | atomicExpr (e : Coq.Expr)
  | atomicStore (ot : Coq.OpType) (e1 e2 : Coq.Expr)

/-- An argument with its delayed translation. -/
structure Arg where
  source : Expr
  translate : Bool → Option Coq.OpType → ExprM Coq.Expr

def nthType (params : List CType) (i : Nat) : Result CType :=
  match params[i]? with
  | some ty => .ok ty
  | none => .error (.panic "nth")

/-- Arguments from index `i` on, cast to the types of their parameters. -/
def translateArgs (ctx : Ctx) (params : List CType) : Nat → List Arg → ExprM (List Coq.Expr)
  | _, [] => pure []
  | i, arg :: args => do
      let ty ← liftResult (nthType params i)
      let goal ← liftResult (argGoal ctx ty)
      let e ← arg.translate false goal
      let es ← translateArgs ctx params (i + 1) args
      return e :: es

/-- The annotations of argument `i`. The accumulated expression is not used. -/
def annotate (annotArgs : List (Nat × Nat × String)) (i : Nat) (e : Coq.Expr) : Coq.Expr :=
  (annotArgs.filter (fun a => a.1 == i)).foldr (fun a _ => .annotExpr a.2.1 a.2.2 e) e

def seqCstOnly (order : Bool) : Result Unit :=
  if order then .ok () else .error (.panic "Only the Seq_cst memory order is supported.")

/-- Operand of an address-of expression. -/
def addressOperand (msg : String) : Coq.Expr → Result Coq.Expr
  | .addrOf e => .ok e
  | _ => .error (.forbidden msg)

def atomicStore (ctx : Ctx) (place : CallPlace) : List Arg → ExprM CallRes
  | [a1, a2, a3] => do
      let ot ← liftResult (ptrOpTypeOf ctx a1.source)
      let e1 ← a1.translate true none
      let e2 ← a2.translate false (some ot)
      let order ← liftResult (memoryOrderOfExpr ctx a3.source)
      liftResult (seqCstOnly (order = .seqCst))
      match place with
      | .inExpr => fail (.forbidden "nested (atomic) store")
      | .inStmt => do
          let e1 ← liftResult
            (addressOperand "atomic store whose LHS is not of the form [&e]" e1)
          return .atomicStore ot e1 e2
  | _ => fail .assertFalse

def atomicLoad (ctx : Ctx) (place : CallPlace) (lval : Bool) : List Arg → ExprM CallRes
  | [a1, a2] => do
      let ot ← liftResult (ptrOpTypeOf ctx a1.source)
      let e1 ← a1.translate true none
      let order ← liftResult (memoryOrderOfExpr ctx a2.source)
      liftResult (seqCstOnly (order = .seqCst))
      match place with
      | .inExpr => do
          let e1 ← liftResult
            (addressOperand "atomic load whose RHS is not of the form [&e]" e1)
          return .atomicExpr (if lval then .deref true ot e1 else .use true ot e1)
      | .inStmt => fail (.notImpl "call to builtin atomic (load)")
  | _ => fail .assertFalse

/-- The fourth argument is read for both memory orders. -/
def compareExchangeStrong (ctx : Ctx) (lval : Bool) : List Arg → ExprM CallRes
  | [a1, a2, a3, a4, _] => do
      let ot ← liftResult (ptrOpTypeOf ctx a1.source)
      let e1 ← a1.translate lval none
      let e2 ← a2.translate lval none
      let e3 ← a3.translate lval (some ot)
      let order1 ← liftResult (memoryOrderOfExpr ctx a4.source)
      let order2 ← liftResult (memoryOrderOfExpr ctx a4.source)
      liftResult (seqCstOnly (order1 = .seqCst && order2 = .seqCst))
      return .atomicExpr (.cas ot e1 e2 e3)
  | _ => fail .assertFalse

def copyAllocId (ctx : Ctx) (lval : Bool) : List Arg → ExprM CallRes
  | [a1, a2] => do
      let ot ← liftResult (opTypeOf ctx.impl ctx.tags (typeOf a1.source))
      let e1 ← a1.translate false none
      let e2 ← a2.translate false none
      if lval then fail (.notImpl "copy_alloc_id as an lvalue")
      return .atomicExpr (.copyAID ot e1 e2)
  | _ => fail .assertFalse

def translateBuiltin (ctx : Ctx) (place : CallPlace) (lval : Bool) (args : List Arg) :
    Builtin → ExprM CallRes
  | .atomicThreadFence => fail (.notImpl "call to builtin atomic (thread_fence)")
  | .atomicStore => atomicStore ctx place args
  | .atomicLoad => atomicLoad ctx place lval args
  | .atomicExchange => fail (.notImpl "call to builtin atomic (exchange)")
  | .atomicCompareExchangeStrong => compareExchangeStrong ctx lval args
  | .atomicCompareExchangeWeak =>
      fail (.notImpl "call to builtin atomic (compare_exchange_weak)")
  | .atomicFetchKey => fail (.notImpl "call to builtin atomic (fetch_key)")
  | .linuxFence => fail (.notImpl "call to linux builtin (fence)")
  | .linuxRead => fail (.notImpl "call to linux builtin (read)")
  | .linuxWrite => fail (.notImpl "call to linux builtin (write)")
  | .linuxRmw => fail (.notImpl "call to linux builtin (rmw)")
  | .copyAllocId => copyAllocId ctx lval args
  | .cheri => fail (.notImpl "call to CHERI builtin")

/-- A call by name. -/
def translateDirectCall (ctx : Ctx) (f : Sym) (args : List Arg) : ExprM CallRes := do
  useFunction (symToStr f)
  match ctx.funDecls.lookup (symToStr f) with
  | none => fail .notFound
  | some decl => do
      let es ← translateArgs ctx decl.params 0 args
      return .simple decl.ret (.var (some (symToStr f)) true)
        (es.mapIdx (annotate decl.annotArgs))

/-! ## Macros -/

/-- Arguments of a macro, from its pieces with their delayed translations. -/
def processRest : List (MacroAnnotArg × ExprM Coq.Expr) → ExprM (List String × List Coq.Expr)
  | [_] => pure ([], [])
  | (.string kind, _) :: (.string s, _) :: rest =>
      if kind = "ARG" then do
        let (args, es) ← processRest rest
        return (s :: args, es)
      else fail (.notImpl "wrong macro args")
  | (.string kind, _) :: (.expr _, translate) :: rest =>
      if kind = "EXPR" then do
        let (args, es) ← processRest rest
        let e ← translate
        return (args, e :: es)
      else fail (.notImpl "wrong macro args")
  | _ => fail (.notImpl "wrong macro args")

/-! ## Struct initialisers -/

/-- Initialised members with their delayed translations. -/
def translateFields (fieldTypes : List (String × Coq.OpType)) :
    List String → List (Option (Option Coq.OpType → ExprM Coq.Expr)) →
    ExprM (List String × List Coq.Expr)
  | name :: names, some translate :: fields =>
      match fieldTypes.lookup name with
      | none => fail .assertFalse
      | some ot => do
          let e ← translate (some ot)
          let (ids, es) ← translateFields fieldTypes names fields
          return (name :: ids, e :: es)
  | _ :: names, none :: fields => translateFields fieldTypes names fields
  | _, _ => pure ([], [])

/-- Types of the fields of a struct. -/
def structFields (ctx : Ctx) (id : String) : Result (List (String × Coq.OpType)) :=
  match tagDefData ctx.impl ctx.tags id with
  | .error .notFound => .error .assertFalse
  | result => result

/-! ## Expressions -/

/-- Type of the value of an expression, if it can be cast. -/
def resType (ctx : Ctx) (tc : TypeCat) : Result (Option Coq.OpType) :=
  opTypeOpt ctx.impl (cTypeOfTypeCat tc)

/-- Operation type of the value of an expression. -/
def opTypeOfExpr (ctx : Ctx) (e : Expr) : Result Coq.OpType :=
  opTypeOf ctx.impl ctx.tags (typeOf e)

def isVoidPtr : CType → Bool
  | .pointer .void => true
  | _ => false

/-- Casting an integer to a pointer turns an lvalue into an rvalue. -/
def castLval (lval : Bool) : Coq.OpType → Coq.OpType → Bool
  | .int _, .ptr _ => false
  | _, _ => lval

def isCompound (e : Expr) : Bool :=
  match stripExpr e with
  | .compound _ _ => true
  | _ => false

mutual

def translateExpr (ctx : Ctx) (lval : Bool) (goal : Option Coq.OpType) : Expr → ExprM Coq.Expr
  | .annotated tc node => do
      let resTy ← liftResult (resType ctx tc)
      let e ← translateNode ctx lval resTy node
      return castTo goal e

/-- The translation before the final cast, with the type that it is cast from. -/
def translateNode (ctx : Ctx) (lval : Bool) (resTy : Option Coq.OpType) :
    ExprNode → ExprM (Coq.Expr × Option Coq.OpType)
  | .unary .address e => do
      let e ← translateExpr ctx true none e
      return (.addrOf e, resTy)
  | .unary .indirection e => do
      let e ← translateExpr ctx lval none e
      return (e, resTy)
  | .unary .plus e => do
      let e ← translateExpr ctx lval none e
      return (e, resTy)
  | .unary .minus e => do
      let ty ← liftResult (opTypeOfExpr ctx e)
      let e ← translateExpr ctx lval none e
      return (.unOp .neg ty e, resTy)
  | .unary .bnot e => do
      let ty ← liftResult (opTypeOfExpr ctx e)
      let e ← translateExpr ctx lval none e
      return (.unOp .notInt ty e, resTy)
  | .unary .postfixIncr e => do
      let _ ← liftResult (opTypeOfExpr ctx e)
      let _ ← translateExpr ctx lval none e
      fail (.forbidden "nested postfix increment")
  | .unary .postfixDecr e => do
      let _ ← liftResult (opTypeOfExpr ctx e)
      let _ ← translateExpr ctx lval none e
      fail (.forbidden "nested postfix decrement")
  | .binary e1 op e2 => do
      let ty1 ← liftResult (opTypeOfExpr ctx e1)
      let ty2 ← liftResult (opTypeOfExpr ctx e2)
      let (ty1, ty2) ← liftResult (operandTypes ctx op e1 e2 ty1 ty2 resTy)
      let e1 ← translateExpr ctx lval (some ty1) e1
      let e2 ← translateExpr ctx false (some ty2) e2
      return (.binOp (binOp op) ty1 ty2 e1 e2, resTy)
  | .assign _ _ => fail (.forbidden "nested assignment")
  | .compoundAssign _ _ _ => fail (.notImpl "expr compound assign")
  | .cond _ none _ => fail (.notImpl "GNU :? operator not implemented")
  | .cond e1 (some e2) e3 =>
      if isConst0 e1 && isMacroAnnot e2 then
        match (macroAnnotToList e2).zip (macroTranslations ctx lval e2) with
        | _ :: (.string name, _) :: rest => do
            let (args, es) ← processRest rest
            let e3 ← translateExpr ctx lval none e3
            return (.rcMacro name args es e3, resTy)
        | _ => fail (.notImpl "wrong macro")
      else if isConst0 e1 && isExprAnnot e2 then
        match macroAnnotToList e2 with
        | _ :: .string name :: _ => do
            -- the type of the conditional is that of its last operand
            let resTy ← liftResult (resType ctx (tcOf e3))
            let e3 ← translateExpr ctx lval none e3
            return (.annotExpr 1 name e3, resTy)
        | _ => fail (.notImpl "wrong annot expr")
      else do
        let ty ← liftResult (opTypeOfExpr ctx e1)
        let e1 ← translateExpr ctx lval none e1
        let e2 ← translateExpr ctx lval resTy e2
        let e3 ← translateExpr ctx lval resTy e3
        return (.ifE ty e1 e2 e3, resTy)
  | .cast ty e =>
      if isVoidPtr ty && isConst0 e then return (.val .null, resTy)
      else do
        let fromTy ← liftResult (opTypeOfExpr ctx e)
        let toTy ← liftResult (opTypeOf ctx.impl ctx.tags ty)
        let e ← translateExpr ctx (castLval lval fromTy toTy) none e
        return (.unOp (.cast toTy) fromTy e, resTy)
  | .call e es => do
      match ← translateCall ctx .inExpr lval (delayedArgs ctx es) e with
      | .atomicExpr e => return (e, resTy)
      | .simple ret e es =>
          return (if lval then .lValue (.call ret e es) else .call ret e es, resTy)
      | .atomicStore _ _ _ => fail .assertFalse
  | .assert _ => fail (.notImpl "expr assert nested")
  | .offsetof ty member => do
      let (name, fromUnion) ← liftResult (structDataOfType ty)
      return (.offsetOf name fromUnion member, resTy)
  | .generic _ _ _ => fail (.notImpl "expr generic")
  | .array _ _ => fail (.notImpl "expr array")
  | .struct s members es =>
      if lval then fail (.notImpl "Struct initializer not supported in lvalue context")
      else do
        let fieldTypes ← liftResult (structFields ctx (symToStr s))
        let (ids, es) ← translateFields fieldTypes members (delayedFields ctx lval es)
        return (.struct (symToStr s) ids es, resTy)
  | .union _ _ _ => fail (.notImpl "expr union")
  | .compound _ e => do
      let e ← translateExpr ctx lval none e
      return (e, resTy)
  | .memberof e member =>
      if lval then do
        let (name, fromUnion) ← liftResult (structData e)
        let e ← translateExpr ctx lval none e
        return (.getMember e name fromUnion member, resTy)
      else fail .assertFalse
  | .memberofptr e member => do
      let (name, fromUnion) ← liftResult (structData e)
      let e ← translateExpr ctx lval none e
      return (.getMember e name fromUnion member, resTy)
  | .builtin _ => fail (.notImpl "expr builtin")
  | .str _ => fail (.notImpl "expr str")
  | .const c => do
      let v ← liftResult (translateConstant ctx resTy c)
      return (.val v, resTy)
  | .ident s =>
      if ctx.isLocal (symToStr s) then return (.var (some (symToStr s)) false, resTy)
      else do
        useGlobal (symToStr s)
        return (.var (some (symToStr s)) true, resTy)
  | .sizeof ty => do
      let l ← liftResult (layoutOf ctx.impl false ty)
      return (.val (.sizeOf l), resTy)
  | .sizeofExpr _ => fail (.notImpl "expr sizeof_expr")
  | .alignof _ => fail (.notImpl "expr alignof")
  | .annot _ _ => fail (.notImpl "expr annot")
  | .vaStart _ _ => fail (.notImpl "expr va_start")
  | .vaArg _ _ => fail (.notImpl "expr va_arg")
  | .vaCopy _ _ => fail (.notImpl "expr va_copy")
  | .vaEnd _ => fail (.notImpl "expr va_end")
  | .printType _ => fail (.notImpl "expr print_type")
  | .bmcAssume _ => fail (.notImpl "expr bmc_assume")
  | .regLoad _ => fail (.notImpl "expr reg_load")
  | .rvalue e =>
      -- struct initialisers are lvalues for Ail, but rvalues here
      if isCompound e then do
        let e ← translateExpr ctx lval none e
        return (e, resTy)
      else do
        let ty ← liftResult (opTypeOfExpr ctx e)
        let atomic := ctx.isAtomic (typeOf e)
        let e ← translateExpr ctx true none e
        return (if lval then .deref atomic ty e else .use atomic ty e, resTy)
  | .arrayDecay e =>
      if lval then do
        let e ← translateExpr ctx lval none e
        return (e, resTy)
      else do
        let e ← translateExpr ctx true none e
        return (.addrOf e, resTy)
  | .functionDecay e =>
      match stripExpr e with
      | .ident s => do
          useFunction (symToStr s)
          return (.var (some (symToStr s)) true, resTy)
      | _ => fail (.notImpl "expr function_decay (not an ident)")
  | .atomic e => do
      let e ← translateExpr ctx lval none e
      return (e, resTy)
  | .gccStatement => fail (.panic "Not implemented GCC statement expr.")
  | .invalid => fail (.panic "Not implemented invalid expr.")

/-- Delayed translations of the pieces of a macro. -/
def macroTranslations (ctx : Ctx) (lval : Bool) : Expr → List (ExprM Coq.Expr)
  | .annotated _ (.binary e1 .comma e2) =>
      macroTranslations ctx lval e1 ++ [translateExpr ctx lval none e2]
  | .annotated tc node => [do
      let resTy ← liftResult (resType ctx tc)
      let e ← translateNode ctx lval resTy node
      return castTo none e]

def delayedArgs (ctx : Ctx) : List Expr → List Arg
  | [] => []
  | e :: es => ⟨e, fun lval goal => translateExpr ctx lval goal e⟩ :: delayedArgs ctx es

def delayedFields (ctx : Ctx) (lval : Bool) :
    List (Option Expr) → List (Option (Option Coq.OpType → ExprM Coq.Expr))
  | [] => []
  | none :: es => none :: delayedFields ctx lval es
  | some e :: es => some (fun goal => translateExpr ctx lval goal e) :: delayedFields ctx lval es

def translateCall (ctx : Ctx) (place : CallPlace) (lval : Bool) (args : List Arg) :
    Expr → ExprM CallRes
  | .annotated _ (.functionDecay e) => translateCall ctx place lval args e
  | .annotated _ (.ident f) => translateDirectCall ctx f args
  | .annotated _ (.builtin b) => translateBuiltin ctx place lval args b
  | .annotated tc node => do
      let (ret, params) ← liftResult (getFunctionType (cTypeOfTypeCat tc))
      let resTy ← liftResult (resType ctx tc)
      let e ← translateNode ctx false resTy node
      let es ← translateArgs ctx params 0 args
      return .simple ret (castTo none e) es

end

end RefinedC.Frontend
