import RefinedC.Frontend.TranslateExpr
import RefinedC.Library.Ensures

/-!
Names in emitted expressions.

Source: `translate_expr` and `translate_call` of `frontend/ail_to_coq.ml`, and the
tables `used_globals` and `used_functions` above them.

Owns: the local variables and the globals that an emitted expression mentions, and
that a translation mentions local variables of its context only and records every
global that it mentions.
-/

namespace RefinedC.Frontend

open Library

/-! ## Mentioned names -/

mutual

/-- The variables of an expression satisfy `locals`, its globals `globals`. -/
def Coq.Expr.Names (locals globals : String → Prop) : Coq.Expr → Prop
  | .var none _ => False
  | .var (some x) false => locals x
  | .var (some x) true => globals x
  | .val _ | .offsetOf _ _ _ => True
  | .unOp _ _ c | .deref _ _ c | .skipE c | .use _ _ c | .addrOf c | .lValue c
  | .getMember c _ _ _ | .annotExpr _ _ c => c.Names locals globals
  | .binOp _ _ _ c1 c2 | .copyAID _ c1 c2 => c1.Names locals globals ∧ c2.Names locals globals
  | .cas _ c1 c2 c3 | .ifE _ c1 c2 c3 =>
      c1.Names locals globals ∧ c2.Names locals globals ∧ c3.Names locals globals
  | .call _ c cs | .rcMacro _ _ cs c => c.Names locals globals ∧ Coq.exprsNames locals globals cs
  | .struct _ _ cs => Coq.exprsNames locals globals cs

def Coq.exprsNames (locals globals : String → Prop) : List Coq.Expr → Prop
  | [] => True
  | c :: cs => c.Names locals globals ∧ Coq.exprsNames locals globals cs

end

section

variable {locals locals' globals globals' : String → Prop}

mutual

theorem Coq.Expr.Names.mono (moreLocals : ∀ x, locals x → locals' x)
    (moreGlobals : ∀ x, globals x → globals' x) :
    ∀ {c : Coq.Expr}, c.Names locals globals → c.Names locals' globals'
  | .var none _, names => names.elim
  | .var (some x) false, names => moreLocals x names
  | .var (some x) true, names => moreGlobals x names
  | .val _, _ | .offsetOf _ _ _, _ => trivial
  | .unOp _ _ c, names | .deref _ _ c, names | .skipE c, names | .use _ _ c, names
  | .addrOf c, names | .lValue c, names | .getMember c _ _ _, names | .annotExpr _ _ c, names => by
      simp only [Coq.Expr.Names] at names ⊢
      exact names.mono moreLocals moreGlobals
  | .binOp _ _ _ c1 c2, names | .copyAID _ c1 c2, names => by
      simp only [Coq.Expr.Names] at names ⊢
      exact ⟨names.1.mono moreLocals moreGlobals, names.2.mono moreLocals moreGlobals⟩
  | .cas _ c1 c2 c3, names | .ifE _ c1 c2 c3, names => by
      simp only [Coq.Expr.Names] at names ⊢
      exact ⟨names.1.mono moreLocals moreGlobals, names.2.1.mono moreLocals moreGlobals,
        names.2.2.mono moreLocals moreGlobals⟩
  | .call _ c cs, names | .rcMacro _ _ cs c, names => by
      simp only [Coq.Expr.Names] at names ⊢
      exact ⟨names.1.mono moreLocals moreGlobals,
        exprsNames_mono moreLocals moreGlobals names.2⟩
  | .struct _ _ cs, names => by
      simp only [Coq.Expr.Names] at names ⊢
      exact exprsNames_mono moreLocals moreGlobals names

private theorem exprsNames_mono (moreLocals : ∀ x, locals x → locals' x)
    (moreGlobals : ∀ x, globals x → globals' x) :
    ∀ {cs : List Coq.Expr}, Coq.exprsNames locals globals cs →
      Coq.exprsNames locals' globals' cs
  | [], _ => trivial
  | _ :: _, names =>
      ⟨names.1.mono moreLocals moreGlobals, exprsNames_mono moreLocals moreGlobals names.2⟩

end

theorem exprsNames_iff {cs : List Coq.Expr} :
    Coq.exprsNames locals globals cs ↔ ∀ c ∈ cs, c.Names locals globals := by
  induction cs with
  | nil => simp [Coq.exprsNames]
  | cons c cs inductionHypothesis => simp [Coq.exprsNames, inductionHypothesis]

end

/-! ## Recorded names -/

/-- More has been used. -/
instance : Preorder Used where
  le used used' := used.globals ⊆ used'.globals ∧ used.functions ⊆ used'.functions
  le_refl _ := ⟨fun _ => id, fun _ => id⟩
  le_trans _ _ _ first second :=
    ⟨fun _ h => second.1 (first.1 h), fun _ h => second.2 (first.2 h)⟩

def Used.Has (used : Used) (x : String) : Prop := x ∈ used.globals ∨ x ∈ used.functions

theorem Used.Has.mono {used used' : Used} {x : String} (has : used.Has x) (more : used ≤ used') :
    used'.Has x := has.imp (fun h => more.1 h) (fun h => more.2 h)

/-- The names of an emitted expression are local variables of `ctx` and used
globals. -/
def Coq.Expr.InScope (ctx : Ctx) (used : Used) (c : Coq.Expr) : Prop :=
  c.Names (fun x => ctx.isLocal x = true) used.Has

def Coq.exprsInScope (ctx : Ctx) (used : Used) (cs : List Coq.Expr) : Prop :=
  ∀ c ∈ cs, c.InScope ctx used

theorem Coq.Expr.InScope.mono {ctx : Ctx} {used used' : Used} {c : Coq.Expr}
    (inScope : c.InScope ctx used) (more : used ≤ used') : c.InScope ctx used' :=
  Names.mono (fun _ => id) (fun _ has => has.mono more) inScope

/-- Translations whose result is in scope. -/
def TranslatesInScope (ctx : Ctx) (m : ExprM Coq.Expr) : Prop :=
  ∀ used, Ensures used m fun c used' => c.InScope ctx used'

section

variable {ctx : Ctx} {used : Used} {place : CallPlace} {lval : Bool}

private theorem useGlobal_ensures (x : String) :
    Ensures used (useGlobal x) fun _ used' => used'.Has x := by
  intro a used' run
  cases run
  exact ⟨⟨fun _ => List.mem_cons_of_mem _, fun _ => id⟩, .inl List.mem_cons_self⟩

private theorem useFunction_ensures (x : String) :
    Ensures used (useFunction x) fun _ used' => used'.Has x := by
  intro a used' run
  cases run
  exact ⟨⟨fun _ => id, fun _ => List.mem_cons_of_mem _⟩, .inr List.mem_cons_self⟩

private theorem castTo_inScope {goal source : Option Coq.OpType} {c : Coq.Expr}
    (inScope : c.InScope ctx used) : (castTo goal (c, source)).InScope ctx used := by
  unfold castTo
  split
  · split
    · exact inScope
    · exact inScope
  · exact inScope

/-! ## Lists of delayed translations -/

def ArgsInScope (ctx : Ctx) (args : List Arg) : Prop :=
  ∀ arg ∈ args, ∀ lval goal, TranslatesInScope ctx (arg.translate lval goal)

private theorem translateArgs_inScope {params : List CType} {args : List Arg}
    (arguments : ArgsInScope ctx args) (i : Nat) :
    Ensures used (translateArgs ctx params i args) fun cs used' =>
      Coq.exprsInScope ctx used' cs := by
  induction args generalizing i used with
  | nil => exact .pure (by simp [Coq.exprsInScope])
  | cons arg args inductionHypothesis =>
      rw [translateArgs]
      refine .liftBind fun ty _ => .liftBind fun goal _ => ?_
      refine .bind (arguments arg List.mem_cons_self false goal used) fun c used1 _ first => ?_
      refine .bind
        (inductionHypothesis (fun a member => arguments a (List.mem_cons_of_mem _ member))
        (i + 1)) fun cs used2 more rest => .pure ?_
      exact List.forall_mem_cons.mpr ⟨first.mono more, rest⟩

private theorem annotate_inScope {annotArgs : List (Nat × Nat × String)} {i : Nat} {c : Coq.Expr}
    (inScope : c.InScope ctx used) : (annotate annotArgs i c).InScope ctx used := by
  unfold annotate
  generalize annotArgs.filter (fun a => a.1 == i) = annots
  induction annots with
  | nil => exact inScope
  | cons a annots _ => exact inScope

/-- Names of the parts of a translated call. -/
def CallRes.InScope (ctx : Ctx) (used : Used) : CallRes → Prop
  | .simple _ c cs => c.InScope ctx used ∧ Coq.exprsInScope ctx used cs
  | .atomicExpr c => c.InScope ctx used
  | .atomicStore _ c1 c2 => c1.InScope ctx used ∧ c2.InScope ctx used

private theorem addressOperand_inScope {msg : String} {c c' : Coq.Expr}
    (operand : addressOperand msg c = .ok c') (inScope : c.InScope ctx used) :
    c'.InScope ctx used := by
  unfold addressOperand at operand
  split at operand
  · cases operand
    exact inScope
  · cases operand

theorem ensures_fail {α : Type} {failure : Failure} {P : α → Used → Prop} :
    Ensures used (fail failure : ExprM α) P := .error

private theorem atomicStore_inScope {args : List Arg} (arguments : ArgsInScope ctx args) :
    Ensures used (atomicStore ctx place args) fun r used' => r.InScope ctx used' := by
  unfold atomicStore
  split
  · rename_i a1 a2 a3
    refine .liftBind fun ot _ => ?_
    refine .bind (arguments a1 (by simp) true none used) fun c1 used1 _ first => ?_
    refine .bind (arguments a2 (by simp) false (some ot) used1) fun c2 used2 more second => ?_
    refine .liftBind fun order _ => .liftBind fun _ _ => ?_
    cases place with
    | inExpr => exact ensures_fail
    | inStmt =>
        refine .liftBind fun c1' operand => .pure ?_
        exact ⟨addressOperand_inScope operand (first.mono more), second⟩
  · exact ensures_fail

private theorem atomicLoad_inScope {args : List Arg} (arguments : ArgsInScope ctx args) :
    Ensures used (atomicLoad ctx place lval args) fun r used' => r.InScope ctx used' := by
  unfold atomicLoad
  split
  · rename_i a1 a2
    refine .liftBind fun ot _ => ?_
    refine .bind (arguments a1 (by simp) true none used) fun c1 used1 _ first => ?_
    refine .liftBind fun order _ => .liftBind fun _ _ => ?_
    cases place with
    | inStmt => exact ensures_fail
    | inExpr =>
        refine .liftBind fun c1' operand => .pure ?_
        have inner := addressOperand_inScope operand first
        cases lval with
        | true => exact inner
        | false => exact inner
  · exact ensures_fail

private theorem compareExchangeStrong_inScope {args : List Arg} (arguments : ArgsInScope ctx args) :
    Ensures used (compareExchangeStrong ctx lval args) fun r used' => r.InScope ctx used' := by
  unfold compareExchangeStrong
  split
  · rename_i a1 a2 a3 a4 a5
    refine .liftBind fun ot _ => ?_
    refine .bind (arguments a1 (by simp) lval none used) fun c1 used1 _ first => ?_
    refine .bind (arguments a2 (by simp) lval none used1) fun c2 used2 more2 second => ?_
    refine .bind (arguments a3 (by simp) lval (some ot) used2) fun c3 used3 more3 third => ?_
    refine .liftBind fun order1 _ => .liftBind fun order2 _ => .liftBind fun _ _ => .pure ?_
    exact ⟨first.mono (le_trans more2 more3), second.mono more3, third⟩
  · exact ensures_fail

private theorem copyAllocId_inScope {args : List Arg} (arguments : ArgsInScope ctx args) :
    Ensures used (copyAllocId ctx lval args) fun r used' => r.InScope ctx used' := by
  unfold copyAllocId
  split
  · rename_i a1 a2
    refine .liftBind fun ot _ => ?_
    refine .bind (arguments a1 (by simp) false none used) fun c1 used1 _ first => ?_
    refine .bind (arguments a2 (by simp) false none used1) fun c2 used2 more second => ?_
    cases lval with
    | true => exact .bind (ensures_fail (P := fun _ _ => False)) fun _ _ _ never => never.elim
    | false => exact .pure ⟨first.mono more, second⟩
  · exact ensures_fail

private theorem translateBuiltin_inScope {args : List Arg}
    (arguments : ArgsInScope ctx args) (b : Builtin) :
    Ensures used (translateBuiltin ctx place lval args b) fun r used' => r.InScope ctx used' := by
  cases b with
  | atomicStore => exact atomicStore_inScope arguments
  | atomicLoad => exact atomicLoad_inScope arguments
  | atomicCompareExchangeStrong => exact compareExchangeStrong_inScope arguments
  | copyAllocId => exact copyAllocId_inScope arguments
  | _ => exact ensures_fail

private theorem translateDirectCall_inScope {args : List Arg}
    (arguments : ArgsInScope ctx args) (f : Sym) :
    Ensures used (translateDirectCall ctx f args) fun r used' => r.InScope ctx used' := by
  rw [translateDirectCall]
  refine .bind (useFunction_ensures _) fun _ used1 _ has => ?_
  split
  · exact ensures_fail
  · rename_i decl found
    refine .bind (translateArgs_inScope arguments 0) fun cs used2 more rest => .pure ?_
    refine ⟨has.mono more, ?_⟩
    intro c member
    obtain ⟨i, bound, rfl⟩ := List.mem_mapIdx.mp member
    exact annotate_inScope (rest _ (List.getElem_mem bound))

/-- Pieces of a macro, each with a translation in scope. -/
theorem processRest_inScope {pieces : List (MacroAnnotArg × ExprM Coq.Expr)}
    (translations : ∀ piece ∈ pieces, TranslatesInScope ctx piece.2) :
    Ensures used (processRest pieces) fun r used' => Coq.exprsInScope ctx used' r.2 := by
  induction pieces using processRest.induct generalizing used with
  | case1 piece => exact .pure (by simp [Coq.exprsInScope])
  | case2 m1 s m2 rest inductionHypothesis =>
      simp only [processRest, if_true]
      exact .bind (inductionHypothesis fun p member => translations p (by simp [member]))
        fun r used1 _ others => .pure others
  | case3 kind m1 s m2 rest notArg =>
      simp only [processRest, notArg, if_false]
      exact ensures_fail
  | case4 m1 e m2 rest inductionHypothesis =>
      simp only [processRest, if_true]
      refine .bind (inductionHypothesis fun p member => translations p (by simp [member]))
        fun r used1 _ others => ?_
      refine .bind (translations (.expr e, m2) (by simp) used1) fun c used2 more piece => .pure ?_
      exact List.forall_mem_cons.mpr ⟨piece, fun c' member => (others c' member).mono more⟩
  | case5 kind m1 e m2 rest notExpr =>
      simp only [processRest, notExpr, if_false]
      exact ensures_fail
  | case6 pieces =>
      rw [processRest] <;> first | assumption | exact ensures_fail

/-- Initialised members, each with a translation in scope. -/
theorem translateFields_inScope {fieldTypes : List (String × Coq.OpType)} {names : List String}
    {fields : List (Option (Option Coq.OpType → ExprM Coq.Expr))}
    (translations : ∀ m, some m ∈ fields → ∀ goal, TranslatesInScope ctx (m goal)) :
    Ensures used (translateFields fieldTypes names fields) fun r used' =>
      Coq.exprsInScope ctx used' r.2 := by
  induction names, fields using translateFields.induct fieldTypes generalizing used with
  | case1 name names m fields notField =>
      simp only [translateFields, notField]
      exact ensures_fail
  | case2 name names m fields ot isField inductionHypothesis =>
      simp only [translateFields, isField]
      refine .bind (translations m (by simp) (some ot) used) fun c used1 _ first => ?_
      refine .bind (inductionHypothesis fun m' member => translations m' (by simp [member]))
        fun r used2 more rest => .pure ?_
      exact List.forall_mem_cons.mpr ⟨first.mono more, rest⟩
  | case3 name names fields inductionHypothesis =>
      rw [translateFields]
      exact inductionHypothesis fun m' member => translations m' (by simp [member])
  | case4 names fields =>
      rw [translateFields] <;> first | assumption | exact .pure (by simp [Coq.exprsInScope])

/-! ## Expressions -/

/-- An operand in scope, under a constructor without further names. -/
theorem operand_inScope {m : ExprM Coq.Expr} {resTy : Option Coq.OpType} (f : Coq.Expr → Coq.Expr)
    (operand : TranslatesInScope ctx m)
    (keeps : ∀ {c used}, c.InScope ctx used → (f c).InScope ctx used) :
    Ensures used (m >>= fun c => pure (f c, resTy)) fun r used' => r.1.InScope ctx used' :=
  .bind (operand used) fun _ _ _ inScope => .pure (keeps inScope)

private theorem unary_inScope {op : UnaryOperator} {resTy : Option Coq.OpType} {e : Expr}
    (operand : ∀ lval goal, TranslatesInScope ctx (translateExpr ctx lval goal e)) :
    Ensures used (translateNode ctx lval resTy (.unary op e)) fun r used' =>
      r.1.InScope ctx used' := by
  cases op with
  | address =>
      rw [translateNode]
      exact operand_inScope .addrOf (operand true none) id
  | indirection | plus =>
      rw [translateNode]
      exact operand_inScope id (operand lval none) id
  | minus =>
      rw [translateNode]
      exact .liftBind fun ty _ => operand_inScope (.unOp .neg ty) (operand lval none) id
  | bnot =>
      rw [translateNode]
      exact .liftBind fun ty _ => operand_inScope (.unOp .notInt ty) (operand lval none) id
  | postfixIncr | postfixDecr =>
      rw [translateNode]
      exact .liftBind fun _ _ => .bind (operand lval none used) fun _ _ _ _ => ensures_fail

/-- A macro without a comma is a single piece. -/
theorem single_inScope (tc : TypeCat) {node : ExprNode} {pieces : List (ExprM Coq.Expr)}
    (isSingle : pieces = [do
      let resTy ← liftResult (resType ctx tc)
      let c ← translateNode ctx lval resTy node
      return castTo none c])
    (single : ∀ resTy used, Ensures used (translateNode ctx lval resTy node) fun r used' =>
      r.1.InScope ctx used') : ∀ m ∈ pieces, TranslatesInScope ctx m := by
  intro m member used
  rw [isSingle] at member
  cases List.mem_singleton.mp member
  exact .liftBind fun resTy _ => .bind (single resTy used) fun r used' _ inScope => .pure inScope

mutual

theorem translateExpr_inScope : ∀ (e : Expr) (lval : Bool) (goal : Option Coq.OpType),
    TranslatesInScope ctx (translateExpr ctx lval goal e)
  | .annotated tc node, lval, goal => fun used => by
      rw [translateExpr]
      exact .liftBind fun resTy _ => .bind (translateNode_inScope node lval resTy used)
        fun r used' _ inScope => .pure (castTo_inScope inScope)

private theorem translateNode_inScope :
    ∀ (node : ExprNode) (lval : Bool) (resTy : Option Coq.OpType)
    (used : Used), Ensures used (translateNode ctx lval resTy node) fun r used' =>
      r.1.InScope ctx used'
  | .unary op e, lval, resTy, used => unary_inScope (translateExpr_inScope e)
  | .binary e1 op e2, lval, resTy, used => by
      rw [translateNode]
      refine .liftBind fun ty1 _ => .liftBind fun ty2 _ => .liftBind fun tys _ => ?_
      refine .bind (translateExpr_inScope e1 lval (some tys.1) used) fun c1 used1 _ first => ?_
      refine .bind (translateExpr_inScope e2 false (some tys.2) used1)
        fun c2 used2 more second => ?_
      exact .pure ⟨first.mono more, second⟩
  | .cond e1 none e3, lval, resTy, used => by
      rw [translateNode]
      exact ensures_fail
  | .cond e1 (some e2) e3, lval, resTy, used => by
      rw [translateNode]
      split
      · split
        · rename_i first name m rest pieces
          have translations : ∀ piece ∈ rest, TranslatesInScope ctx piece.2 :=
            fun piece member =>
              macroTranslations_inScope e2 lval piece.2 (List.of_mem_zip (a := piece.1)
                (pieces ▸ List.mem_cons_of_mem _ (List.mem_cons_of_mem _ member))).2
          refine .bind (processRest_inScope translations) fun r used1 _ others => ?_
          refine .bind (translateExpr_inScope e3 lval none used1) fun c used2 more last => .pure ?_
          exact ⟨last, exprsNames_iff.mpr fun c' member => (others c' member).mono more⟩
        · exact ensures_fail
      · split
        · split
          · rename_i first name rest pieces
            exact .liftBind fun resTy' _ =>
              operand_inScope (.annotExpr 1 name) (translateExpr_inScope e3 lval none) id
          · exact ensures_fail
        · refine .liftBind fun ty _ => ?_
          refine .bind (translateExpr_inScope e1 lval none used) fun c1 used1 _ first => ?_
          refine .bind (translateExpr_inScope e2 lval resTy used1) fun c2 used2 more2 second => ?_
          refine .bind (translateExpr_inScope e3 lval resTy used2) fun c3 used3 more3 third => ?_
          exact .pure ⟨first.mono (le_trans more2 more3), second.mono more3, third⟩
  | .cast ty e, lval, resTy, used => by
      rw [translateNode]
      split
      · exact .pure trivial
      · exact .liftBind fun fromTy _ => .liftBind fun toTy _ =>
          operand_inScope (.unOp (.cast toTy) fromTy) (translateExpr_inScope e _ none) id
  | .call e es, lval, resTy, used => by
      rw [translateNode]
      refine .bind (translateCall_inScope e (delayedArgs_inScope es) .inExpr lval used)
        fun r used1 _ inScope => ?_
      cases r with
      | atomicExpr c => exact .pure inScope
      | simple ret c cs =>
          have call : (Coq.Expr.call ret c cs).InScope ctx used1 :=
            ⟨inScope.1, exprsNames_iff.mpr inScope.2⟩
          cases lval with
          | true => exact .pure call
          | false => exact .pure call
      | atomicStore => exact ensures_fail
  | .offsetof ty member, lval, resTy, used => by
      rw [translateNode]
      exact .liftBind fun r _ => .pure trivial
  | .struct s members es, lval, resTy, used => by
      rw [translateNode]
      split
      · exact ensures_fail
      · exact .liftBind fun fieldTypes _ => .bind
          (translateFields_inScope (delayedFields_inScope es lval))
          fun r used1 _ inScope => .pure (exprsNames_iff.mpr inScope)
  | .compound _ e, lval, resTy, used | .atomic e, lval, resTy, used => by
      rw [translateNode]
      exact operand_inScope id (translateExpr_inScope e lval none) id
  | .memberof e member, lval, resTy, used => by
      rw [translateNode]
      split
      · exact .liftBind fun r _ => operand_inScope (fun c => .getMember c r.1 r.2 member)
          (translateExpr_inScope e lval none) id
      · exact ensures_fail
  | .memberofptr e member, lval, resTy, used => by
      rw [translateNode]
      exact .liftBind fun r _ => operand_inScope (fun c => .getMember c r.1 r.2 member)
        (translateExpr_inScope e lval none) id
  | .const c, lval, resTy, used => by
      rw [translateNode]
      exact .liftBind fun v _ => .pure trivial
  | .ident s, lval, resTy, used => by
      rw [translateNode]
      split
      · rename_i isLocal
        exact .pure isLocal
      · exact .bind (useGlobal_ensures _) fun _ used1 _ has => .pure has
  | .sizeof ty, lval, resTy, used => by
      rw [translateNode]
      exact .liftBind fun l _ => .pure trivial
  | .rvalue e, lval, resTy, used => by
      rw [translateNode]
      split
      · exact operand_inScope id (translateExpr_inScope e lval none) id
      · refine .liftBind fun ty _ => .bind (translateExpr_inScope e true none used)
          fun c used1 _ inScope => ?_
        cases lval with
        | true => exact .pure inScope
        | false => exact .pure inScope
  | .arrayDecay e, lval, resTy, used => by
      rw [translateNode]
      split
      · exact operand_inScope id (translateExpr_inScope e lval none) id
      · exact operand_inScope .addrOf (translateExpr_inScope e true none) id
  | .functionDecay e, lval, resTy, used => by
      rw [translateNode]
      split
      · exact .bind (useFunction_ensures _) fun _ used1 _ has => .pure has
      · exact ensures_fail
  | .assign _ _, _, _, _ | .compoundAssign _ _ _, _, _, _ | .assert _, _, _, _
  | .generic _ _ _, _, _, _ | .array _ _, _, _, _ | .union _ _ _, _, _, _ | .builtin _, _, _, _
  | .str _, _, _, _ | .sizeofExpr _, _, _, _ | .alignof _, _, _, _ | .annot _ _, _, _, _
  | .vaStart _ _, _, _, _ | .vaArg _ _, _, _, _ | .vaCopy _ _, _, _, _ | .vaEnd _, _, _, _
  | .printType _, _, _, _ | .bmcAssume _, _, _, _ | .regLoad _, _, _, _ | .gccStatement, _, _, _
  | .invalid, _, _, _ => by
      rw [translateNode]
      exact ensures_fail

private theorem macroTranslations_inScope : ∀ (e : Expr) (lval : Bool),
    ∀ m ∈ macroTranslations ctx lval e, TranslatesInScope ctx m
  | .annotated tc node, lval => by
      have single : ∀ resTy used, Ensures used (translateNode ctx lval resTy node) fun r used' =>
          r.1.InScope ctx used' := translateNode_inScope node lval
      cases node with
      | binary e1 op e2 =>
          cases op with
          | comma =>
              rw [macroTranslations]
              intro m member
              rcases List.mem_append.mp member with inFirst | isSecond
              · exact macroTranslations_inScope e1 lval m inFirst
              · cases List.mem_singleton.mp isSecond
                exact translateExpr_inScope e2 lval none
          | _ => exact single_inScope tc (by simp only [macroTranslations]) single
      | _ => exact single_inScope tc (by simp only [macroTranslations]) single

theorem delayedArgs_inScope : ∀ es : List Expr, ArgsInScope ctx (delayedArgs ctx es)
  | [] => by
      rw [delayedArgs]
      exact List.forall_mem_nil _
  | e :: es => by
      rw [delayedArgs]
      exact List.forall_mem_cons.mpr
        ⟨fun lval goal => translateExpr_inScope e lval goal, delayedArgs_inScope es⟩

private theorem delayedFields_inScope : ∀ (es : List (Option Expr)) (lval : Bool),
    ∀ m, some m ∈ delayedFields ctx lval es → ∀ goal, TranslatesInScope ctx (m goal)
  | [], lval => by simp [delayedFields]
  | none :: es, lval => by
      rw [delayedFields]
      intro m member
      exact delayedFields_inScope es lval m (by simpa using member)
  | some e :: es, lval => by
      rw [delayedFields]
      intro m member
      rcases List.mem_cons.mp member with same | member
      · cases same
        exact fun goal => translateExpr_inScope e lval goal
      · exact delayedFields_inScope es lval m member

theorem translateCall_inScope : ∀ (e : Expr) {args : List Arg}, ArgsInScope ctx args →
    ∀ (place : CallPlace) (lval : Bool) (used : Used),
      Ensures used (translateCall ctx place lval args e) fun r used' => r.InScope ctx used'
  | .annotated tc node, args, arguments, place, lval, used => by
      have single : ∀ resTy used, Ensures used (translateNode ctx false resTy node) fun r used' =>
          r.1.InScope ctx used' := translateNode_inScope node false
      cases node with
      | functionDecay e =>
          rw [translateCall]
          exact translateCall_inScope e arguments place lval used
      | ident f =>
          rw [translateCall]
          exact translateDirectCall_inScope arguments f
      | builtin b =>
          rw [translateCall]
          exact translateBuiltin_inScope arguments b
      | _ =>
          simp only [translateCall]
          refine .liftBind fun _ _ => .liftBind fun resTy _ => ?_
          refine .bind (single resTy used) fun c used1 _ callee => ?_
          refine .bind (translateArgs_inScope arguments 0) fun cs used2 more rest => .pure ?_
          exact ⟨callee.mono more, rest⟩

end

end

end RefinedC.Frontend
