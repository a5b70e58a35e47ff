import RefinedC.Frontend.EmittedFunction
import RefinedC.Frontend.NamesInScope
import Mathlib.Data.List.Sort

/-!
Names in emitted functions.

Source: `translate_block` and `func_deps` of `frontend/ail_to_coq.ml`, and the
parameters that `pp_function_def` of `frontend/coq_pp.ml` prints.

Owns: that the blocks of an emitted function mention arguments and local variables
of the function only, and that every global that they mention is recorded. The
recorded globals are parameters of the printed definition, as far as they are
declared: an object that is used like a variable has to be a global variable.
-/

namespace RefinedC.Frontend

open Library

/-! ## Statements -/

mutual

/-- The variables of a statement satisfy `locals`, its globals `globals`. -/
def Coq.Stmt.Names (locals globals : String → Prop) : Coq.Stmt → Prop
  | .goto _ => True
  | .ret e => e.Names locals globals
  | .switch _ e _ branches default =>
      e.Names locals globals ∧ Coq.stmtsNames locals globals branches ∧
        default.Names locals globals
  | .assign _ _ e1 e2 s =>
      e1.Names locals globals ∧ e2.Names locals globals ∧ s.Names locals globals
  | .skipS s => s.Names locals globals
  | .ifS _ _ e s1 s2 =>
      e.Names locals globals ∧ s1.Names locals globals ∧ s2.Names locals globals
  | .assert _ e s | .exprS _ e s => e.Names locals globals ∧ s.Names locals globals

def Coq.stmtsNames (locals globals : String → Prop) : List Coq.Stmt → Prop
  | [] => True
  | s :: ss => s.Names locals globals ∧ Coq.stmtsNames locals globals ss

end

section

variable {locals locals' globals globals' : String → Prop}

mutual

theorem Coq.Stmt.Names.mono (moreLocals : ∀ x, locals x → locals' x)
    (moreGlobals : ∀ x, globals x → globals' x) :
    ∀ {t : Coq.Stmt}, t.Names locals globals → t.Names locals' globals'
  | .goto _, _ => trivial
  | .ret _, names => Coq.Expr.Names.mono moreLocals moreGlobals names
  | .switch _ _ _ _ _, names => by
      simp only [Coq.Stmt.Names] at names ⊢
      exact ⟨names.1.mono moreLocals moreGlobals,
        stmtsNames_mono moreLocals moreGlobals names.2.1, names.2.2.mono moreLocals moreGlobals⟩
  | .assign _ _ _ _ _, names => by
      simp only [Coq.Stmt.Names] at names ⊢
      exact ⟨names.1.mono moreLocals moreGlobals, names.2.1.mono moreLocals moreGlobals,
        names.2.2.mono moreLocals moreGlobals⟩
  | .skipS _, names => by
      simp only [Coq.Stmt.Names] at names ⊢
      exact names.mono moreLocals moreGlobals
  | .ifS _ _ _ _ _, names => by
      simp only [Coq.Stmt.Names] at names ⊢
      exact ⟨names.1.mono moreLocals moreGlobals, names.2.1.mono moreLocals moreGlobals,
        names.2.2.mono moreLocals moreGlobals⟩
  | .assert _ _ _, names | .exprS _ _ _, names => by
      simp only [Coq.Stmt.Names] at names ⊢
      exact ⟨names.1.mono moreLocals moreGlobals, names.2.mono moreLocals moreGlobals⟩

private theorem stmtsNames_mono (moreLocals : ∀ x, locals x → locals' x)
    (moreGlobals : ∀ x, globals x → globals' x) :
    ∀ {ts : List Coq.Stmt}, Coq.stmtsNames locals globals ts →
      Coq.stmtsNames locals' globals' ts
  | [], _ => trivial
  | _ :: _, names =>
      ⟨names.1.mono moreLocals moreGlobals, stmtsNames_mono moreLocals moreGlobals names.2⟩

end

private theorem stmtsNames_iff {ts : List Coq.Stmt} :
    Coq.stmtsNames locals globals ts ↔ ∀ t ∈ ts, t.Names locals globals := by
  induction ts with
  | nil => simp [Coq.stmtsNames]
  | cons t ts inductionHypothesis => simp [Coq.stmtsNames, inductionHypothesis]

end

/-- A statement that mentions nothing. -/
def Coq.Stmt.Nameless (t : Coq.Stmt) : Prop := t.Names (fun _ => False) (fun _ => False)

/-! ## Elementary statements -/

/-- The names of an elementary statement. -/
def Head.InScope (ctx : Ctx) (used : Used) : Head → Prop
  | .assert _ c | .exprS c => c.InScope ctx used
  | .assign _ _ c1 c2 => c1.InScope ctx used ∧ c2.InScope ctx used

section

variable {ctx : Ctx} {used : Used}

private theorem translateAssign_inScope (e e1 e2 : Expr) :
    Ensures used (translateAssign ctx e e1 e2) fun head used' => head.InScope ctx used' := by
  rw [translateAssign]
  refine .bind (translateExpr_inScope e1 true none used) fun c1 used1 _ first => ?_
  refine .liftBind fun ot _ => .liftBind fun goal _ => ?_
  refine .bind (translateExpr_inScope e2 false _ used1) fun c2 used2 more second => .pure ?_
  exact ⟨first.mono more, second⟩

private theorem translateCompoundAssign_inScope (e e1 e2 : Expr) (op : ArithmeticOperator) :
    Ensures used (translateCompoundAssign ctx e e1 op e2) fun head used' =>
      head.InScope ctx used' := by
  unfold translateCompoundAssign
  split
  · exact translateAssign_inScope _ _ _
  · exact ensures_fail

private theorem translateIncrement_inScope (op : Coq.BinOp) (e : Expr) :
    Ensures used (translateIncrement ctx op e) fun head used' => head.InScope ctx used' := by
  rw [translateIncrement]
  refine .liftBind fun ot _ => .liftBind fun resTy _ => .liftBind fun tys _ => ?_
  exact .bind (translateExpr_inScope e true none used) fun c used1 _ operand =>
    .pure ⟨operand, operand, trivial⟩

/-- A single expression as a statement. -/
theorem exprHead_inScope {m : ExprM Coq.Expr} (head : Coq.Expr → Head)
    (operand : TranslatesInScope ctx m)
    (keeps : ∀ {c used}, c.InScope ctx used → (head c).InScope ctx used) :
    Ensures used (m >>= fun c => pure (head c)) fun head used' => head.InScope ctx used' :=
  .bind (operand used) fun _ _ _ inScope => .pure (keeps inScope)

private theorem translateExprStmt_inScope (e : Expr) :
    Ensures used (translateExprStmt ctx e) fun head used' => head.InScope ctx used' := by
  unfold translateExprStmt
  split
  · exact .liftBind fun ot _ => exprHead_inScope (.assert ot)
      (translateExpr_inScope _ false none) id
  · exact translateAssign_inScope _ _ _
  · exact translateCompoundAssign_inScope _ _ _ _
  · exact translateIncrement_inScope _ _
  · exact translateIncrement_inScope _ _
  · rename_i f es _
    refine .bind (translateCall_inScope f (delayedArgs_inScope es) .inStmt false used)
      fun r used1 _ inScope => ?_
    cases r with
    | atomicExpr c => exact .pure inScope
    | simple ret c cs => exact .pure ⟨inScope.1, exprsNames_iff.mpr inScope.2⟩
    | atomicStore ot c1 c2 => exact .pure inScope
  · exact exprHead_inScope .exprS (translateExpr_inScope _ false none) id

private theorem translateInit_inScope {x : String} (isLocal : ctx.isLocal x = true)
    (ty : CType) (e : Expr) :
    Ensures used (translateInit ctx x ty e) fun head used' => head.InScope ctx used' := by
  rw [translateInit]
  exact .liftBind fun ot _ => .bind (translateExpr_inScope e false (some ot) used)
    fun c used1 _ inScope => .pure ⟨isLocal, inScope⟩

private theorem translateCond_inScope (e : Expr) :
    Ensures used (translateCond ctx e) fun r used' => r.2.InScope ctx used' := by
  rw [translateCond]
  exact .liftBind fun ot _ => .bind (translateExpr_inScope e false none used)
    fun c used1 _ inScope => .pure inScope

end

/-! ## States -/

/-- Later states know more names. -/
instance : Preorder State where
  le σ σ' := (∀ x, σ.isLocal x = true → σ'.isLocal x = true) ∧ σ.used ≤ σ'.used
  le_refl σ := ⟨fun _ => id, le_refl σ.used⟩
  le_trans _ _ _ first second :=
    ⟨fun x isLocal => second.1 x (first.1 x isLocal), le_trans first.2 second.2⟩

/-- The context in which a state translates expressions. -/
abbrev State.ctx (ctx : Ctx) (σ : State) : Ctx := { ctx with isLocal := σ.isLocal }

/-- A statement mentions variables and used globals of a state. -/
def Coq.Stmt.InScope (σ : State) (t : Coq.Stmt) : Prop :=
  t.Names (fun x => σ.isLocal x = true) σ.used.Has

theorem Coq.Stmt.InScope.mono {σ σ' : State} {t : Coq.Stmt} (inScope : t.InScope σ)
    (more : σ ≤ σ') : t.InScope σ' :=
  Names.mono more.1 (fun _ has => has.mono more.2) inScope

theorem Coq.Stmt.Nameless.inScope {t : Coq.Stmt} (nameless : t.Nameless) (σ : State) :
    t.InScope σ := Names.mono (fun _ never => never.elim) (fun _ never => never.elim) nameless

/-- The cases of a switch jump. -/
structure SwitchData.Nameless (data : SwitchData) : Prop where
  cases : ∀ i t, (i, some t) ∈ data.cases → t.Nameless
  default : ∀ t, data.default = some (some t) → t.Nameless

structure State.InScope (σ : State) : Prop where
  blocks : ∀ id t, (id, t) ∈ σ.blocks → t.InScope σ
  switches : ∀ data ∈ σ.switches, data.Nameless

/-- A later state, again in scope. -/
def State.Extends (σ σ' : State) : Prop := σ ≤ σ' ∧ σ'.InScope

section

variable {σ σ' : State}

theorem State.Extends.trans {σ1 σ2 σ3 : State} (first : σ1.Extends σ2)
    (second : σ2.Extends σ3) :
    σ1.Extends σ3 := ⟨le_trans first.1 second.1, second.2⟩

theorem State.InScope.fresh (inScope : σ.InScope) : σ.Extends σ.fresh :=
  ⟨⟨fun _ => id, le_refl σ.used⟩, inScope.blocks, inScope.switches⟩

theorem State.InScope.addBlock {id : String} {t : Coq.Stmt} (inScope : σ.InScope)
    (run : addBlock id t σ = .ok ((), σ')) (known : t.InScope σ) : σ.Extends σ' := by
  obtain ⟨-, rfl⟩ := addBlock_eq_ok.mp run
  refine ⟨⟨fun _ isLocal => isLocal, le_refl σ.used⟩,
    fun id' t' member => ?_, inScope.switches⟩
  rcases List.mem_cons.mp member with same | old
  · cases same
    exact known
  · exact inScope.blocks id' t' old

/-- Expressions are translated with the variables of the state. -/
theorem State.InScope.inExpr {α : Type} {ctx : Ctx} {m : Ctx → ExprM α} {a : α}
    {P : α → Used → Prop} (inScope : σ.InScope) (run : inExpr ctx m σ = .ok (a, σ'))
    (ensures : Ensures σ.used (m (σ.ctx ctx)) P) :
    σ.Extends σ' ∧ σ'.isLocal = σ.isLocal ∧ P a σ'.used := by
  obtain ⟨used, found, rfl⟩ := inExpr_eq_ok.mp run
  obtain ⟨more, post⟩ := ensures a used found
  have later : σ ≤ { σ with used := used } := ⟨fun _ => id, more⟩
  exact ⟨⟨later, fun id t member => (inScope.blocks id t member).mono later,
    inScope.switches⟩, rfl, post⟩

theorem State.InScope.insertBindings {bindings : List (Sym × CType)} (inScope : σ.InScope)
    (run : insertBindings bindings σ = .ok ((), σ')) : σ.Extends σ' := by
  have keeps := insertBindings_keeps run
  obtain ⟨vars, rfl⟩ := insertBindings_others run
  have later : σ ≤ { σ with localVars := vars } := by
    refine ⟨fun x isLocal => ?_, le_refl σ.used⟩
    obtain ⟨v, found⟩ := Option.isSome_iff_exists.mp isLocal
    exact Option.isSome_iff_exists.mpr ⟨v, keeps.locals x v found⟩
  exact ⟨later, fun id t member => (inScope.blocks id t member).mono later, inScope.switches⟩

/-- A change of the data of switches only. -/
theorem State.InScope.withSwitches (inScope : σ.InScope) {switches : List SwitchData}
    (nameless : ∀ data ∈ switches, data.Nameless) :
    σ.Extends { σ with switches := switches } :=
  ⟨⟨fun _ isLocal => isLocal, le_refl σ.used⟩, inScope.blocks, nameless⟩

theorem State.InScope.pushSwitch (inScope : σ.InScope) (curLabel nextLabel : String) :
    σ.Extends { σ with switches := ⟨[], curLabel, nextLabel, none⟩ :: σ.switches } := by
  refine inScope.withSwitches (List.forall_mem_cons.mpr
    ⟨⟨fun i t member => ?_, fun t filled => ?_⟩, inScope.switches⟩)
  · cases member
  · cases filled

theorem State.InScope.popSwitch {data : SwitchData} (inScope : σ.InScope)
    (run : popSwitch σ = .ok (data, σ')) : data.Nameless ∧ σ.Extends σ' := by
  obtain ⟨rest, top, rfl⟩ := popSwitch_eq_ok.mp run
  have switches := inScope.switches
  rw [top] at switches
  obtain ⟨first, others⟩ := List.forall_mem_cons.mp switches
  exact ⟨first, inScope.withSwitches others⟩

theorem State.InScope.registerCase {i : Int} {ref : Nat} {curLabel nextLabel : String}
    (inScope : σ.InScope) (run : registerCase i σ = .ok ((ref, curLabel, nextLabel), σ')) :
    σ.Extends σ' := by
  obtain ⟨data, rest, top, -, -, -, -, rfl⟩ := registerCase_eq_ok run
  have switches := inScope.switches
  rw [top] at switches
  obtain ⟨first, others⟩ := List.forall_mem_cons.mp switches
  refine inScope.fresh.trans (inScope.fresh.2.withSwitches (List.forall_mem_cons.mpr
    ⟨⟨fun i' t member => ?_, nofun⟩, others⟩))
  rcases List.mem_append.mp member with old | new
  · exact first.cases i' t old
  · cases List.mem_singleton.mp new

theorem State.InScope.setCase {ref : Nat} {t : Coq.Stmt} (inScope : σ.InScope)
    (run : setCase ref t σ = .ok ((), σ')) (nameless : t.Nameless) : σ.Extends σ' := by
  obtain ⟨data, rest, top, rfl⟩ := setCase_eq_ok.mp run
  have switches := inScope.switches
  rw [top] at switches
  obtain ⟨first, others⟩ := List.forall_mem_cons.mp switches
  refine inScope.withSwitches (List.forall_mem_cons.mpr
    ⟨⟨fun i t' member => ?_, first.default⟩, others⟩)
  rcases mem_modify member with old | ⟨c, -, same⟩
  · exact first.cases i t' old
  · cases same
    exact nameless

theorem State.InScope.registerDefault {curLabel nextLabel : String} (inScope : σ.InScope)
    (run : registerDefault σ = .ok ((curLabel, nextLabel), σ')) : σ.Extends σ' := by
  obtain ⟨data, rest, top, -, -, -, rfl⟩ := registerDefault_eq_ok run
  have switches := inScope.switches
  rw [top] at switches
  obtain ⟨first, others⟩ := List.forall_mem_cons.mp switches
  exact inScope.fresh.trans (inScope.fresh.2.withSwitches (List.forall_mem_cons.mpr
    ⟨⟨first.cases, nofun⟩, others⟩))

theorem State.InScope.setDefault {t : Coq.Stmt} (inScope : σ.InScope)
    (run : setDefault t σ = .ok ((), σ')) (nameless : t.Nameless) : σ.Extends σ' := by
  obtain ⟨data, rest, top, rfl⟩ := setDefault_eq_ok.mp run
  have switches := inScope.switches
  rw [top] at switches
  obtain ⟨first, others⟩ := List.forall_mem_cons.mp switches
  refine inScope.withSwitches
    (List.forall_mem_cons.mpr ⟨⟨first.cases, fun t' filled => ?_⟩, others⟩)
  cases filled
  exact nameless

/-- The branches of a switch are nameless. -/
theorem SwitchData.Nameless.branches {data : SwitchData} {branches : List Coq.Stmt}
    (nameless : data.Nameless) (found : caseBranches data.cases = .ok branches) :
    ∀ t ∈ branches, t.Nameless := by
  rw [caseBranches, mapM_eq_ok] at found
  intro t member
  obtain ⟨⟨i, filled⟩, inside, isFilled⟩ := exists_of_mem_right found member
  cases filled with
  | none => cases isFilled
  | some t' =>
      cases isFilled
      exact nameless.cases i t inside

theorem SwitchData.Nameless.defaultBranch {data : SwitchData} {gotoCont t : Coq.Stmt}
    (nameless : data.Nameless) (found : defaultBranch gotoCont data.default = .ok t)
    (cont : gotoCont.Nameless) : t.Nameless := by
  unfold Frontend.defaultBranch at found
  split at found
  · cases found
    exact cont
  · rename_i t' isSome
    cases found
    exact nameless.default _ isSome
  · cases found

theorem Head.InScope.attach {ctx : Ctx} {head : Head} {t : Coq.Stmt}
    (inScope : head.InScope (σ.ctx ctx) σ.used) (rest : t.InScope σ) :
    (head.attach t).InScope σ := by
  cases head with
  | assert ot c | exprS c => exact ⟨inScope, rest⟩
  | assign atomic ot c1 c2 => exact ⟨inScope.1, inScope.2, rest⟩

/-- An elementary statement in front of a translated one. -/
theorem State.InScope.attach {ctx : Ctx} {m : Ctx → ExprM Head} {head : Head} {t : Coq.Stmt}
    (inScope : σ.InScope) (run : Frontend.inExpr ctx m σ = .ok (head, σ'))
    (ensures : Ensures σ.used (m (σ.ctx ctx)) fun head used => head.InScope (σ.ctx ctx) used)
    (rest : t.InScope σ) : σ.Extends σ' ∧ (head.attach t).InScope σ' := by
  obtain ⟨extended, sameLocals, known⟩ := inScope.inExpr run ensures
  have knownAfter : head.InScope (σ'.ctx ctx) σ'.used := by rwa [State.ctx, sameLocals]
  exact ⟨extended, knownAfter.attach (rest.mono extended.1)⟩

private theorem State.InScope.addDecls {ctx : Ctx}
    {ds : List (Sym × Option Expr)} {t t' : Coq.Stmt}
    (inScope : σ.InScope) (run : ds.foldrM (addDecl ctx) t σ = .ok (t', σ'))
    (known : t.InScope σ) :
    σ.Extends σ' ∧ t'.InScope σ' := by
  induction ds generalizing t' σ' with
  | nil =>
      obtain ⟨rfl, rfl⟩ := run_pure_eq_ok.mp run
      exact ⟨⟨le_refl _, inScope⟩, known⟩
  | cons d ds inductionHypothesis =>
      rw [List.foldrM_cons] at run
      obtain ⟨t1, σ1, rest, first⟩ := run_bind_eq_ok.mp run
      obtain ⟨extended1, known1⟩ := inductionHypothesis rest
      rcases addDecl_cases first with
        ⟨-, rfl, rfl⟩ | ⟨e, isVar, ty, head, -, found, translated, rfl⟩
      · exact ⟨extended1, known1⟩
      · have isLocal : σ1.isLocal (symToStr d.1) = true := by
          rw [State.isLocal, found, Option.isSome_some]
        obtain ⟨extended, known2⟩ := extended1.2.attach translated
          (translateInit_inScope isLocal ty e) known1
        exact ⟨extended1.trans extended, known2⟩

/-! ## Continuation stacks -/

/-- What follows at a break, at a continue and at the end mentions nothing. -/
def StackNameless (ks : List KData) : Prop :=
  ∀ k ∈ ks, ∀ t, (k.kBreak = some t ∨ k.kContinue = some t ∨ k.kFinal = some t) →
    t.Nameless

private theorem kGen_mem {f : KData → Option Coq.Stmt} {ks : List KData} {t : Coq.Stmt}
    (found : kGen f ks = .ok t) : ∃ k ∈ ks, f k = some t := by
  induction ks with
  | nil => cases found
  | cons k ks inductionHypothesis =>
      rw [kGen] at found
      split at found
      · obtain ⟨k', member, isFound⟩ := inductionHypothesis found
        exact ⟨k', List.mem_cons_of_mem k member, isFound⟩
      · rename_i t' isFound
        cases found
        exact ⟨k, List.mem_cons_self, isFound⟩

private theorem kPopCases_subset (ks : List KData) : kPopCases ks ⊆ ks := by
  induction ks with
  | nil => exact List.Subset.refl []
  | cons k ks inductionHypothesis =>
      rw [kPopCases]
      split
      · exact List.subset_cons_of_subset k inductionHypothesis
      · exact List.Subset.refl _

private theorem StackNameless.push {ks : List KData} (stack : StackNameless ks) {k : KData}
    (nameless : ∀ t, (k.kBreak = some t ∨ k.kContinue = some t ∨ k.kFinal = some t) →
      t.Nameless) :
    StackNameless (k :: ks) := List.forall_mem_cons.mpr ⟨nameless, stack⟩

theorem StackNameless.loop {ks : List KData} (stack : StackNameless ks) (atBreak atEnd : String) :
    StackNameless
      (⟨some (.goto atBreak), some (.goto atEnd), some (.goto atEnd), false⟩ :: ks) := by
  refine stack.push fun t isNext => ?_
  rcases isNext with h | h | h <;> cases h <;> trivial

theorem StackNameless.switch {ks : List KData} (stack : StackNameless ks) (atEnd : String) :
    StackNameless (⟨some (.goto atEnd), none, some (.goto atEnd), false⟩ :: ks) := by
  refine stack.push fun t isNext => ?_
  rcases isNext with h | h | h <;> cases h <;> trivial

theorem StackNameless.final {ks : List KData} (stack : StackNameless ks) (atEnd : String)
    (onCase : Bool) : StackNameless (⟨none, none, some (.goto atEnd), onCase⟩ :: ks) := by
  refine stack.push fun t isNext => ?_
  rcases isNext with h | h | h <;> cases h
  trivial

private theorem kInit_nameless (retTy : Option Coq.OpType) (isMain : Bool) :
    StackNameless (kInit retTy isMain) := by
  refine StackNameless.push (fun _ member => (List.not_mem_nil member).elim) fun t isNext => ?_
  rcases isNext with h | h | h <;> cases h
  trivial

/-! ## Translations -/

/-- A translation keeps its state in scope and emits a statement in scope. -/
theorem Translates.inScope {ctx : Ctx} {retTy : Option Coq.OpType} {ks : List KData}
    {stmts : List Stmt} {t : Coq.Stmt} (translates : Translates ctx retTy σ ks stmts t σ')
    (stack : StackNameless ks) (inScope : σ.InScope) : σ.Extends σ' ∧ t.InScope σ' := by
  induction translates with
  | nil found =>
      obtain ⟨k, member, isFound⟩ := kGen_mem found
      exact ⟨⟨le_refl _, inScope⟩,
        (stack k (kPopCases_subset _ member) _ (.inr (.inr isFound))).inScope _⟩
  | block inserted _ body =>
      have extended := inScope.insertBindings inserted
      obtain ⟨extendedBody, known⟩ := body stack extended.2
      exact ⟨extended.trans extendedBody, known⟩
  | goto _ rest | returnVoid _ rest => exact ⟨(rest stack inScope).1, trivial⟩
  | breakS _ found rest =>
      obtain ⟨k, member, isFound⟩ := kGen_mem found
      exact ⟨(rest stack inScope).1, (stack k member _ (.inl isFound)).inScope _⟩
  | continueS _ found rest =>
      obtain ⟨k, member, isFound⟩ := kGen_mem found
      exact ⟨(rest stack inScope).1, (stack k member _ (.inr (.inl isFound))).inScope _⟩
  | returnS _ translated rest =>
      obtain ⟨extended, -⟩ := rest stack inScope
      obtain ⟨extendedExpr, sameLocals, known⟩ :=
        extended.2.inExpr translated (translateExpr_inScope _ false _ _)
      refine ⟨extended.trans extendedExpr, ?_⟩
      rw [State.ctx, ← sameLocals] at known
      exact known
  | skip _ rest => exact rest stack inScope
  | expr _ translated rest =>
      obtain ⟨extended, known⟩ := rest stack inScope
      obtain ⟨extendedHead, knownHead⟩ :=
        extended.2.attach translated (translateExprStmt_inScope _) known
      exact ⟨extended.trans extendedHead, knownHead⟩
  | ifLast _ added1 _ added2 translated branch1 branch2 =>
      obtain ⟨extended1, known1⟩ := branch1 stack inScope.fresh.2
      have toElse := (inScope.fresh.trans extended1).trans (extended1.2.addBlock added1 known1)
      obtain ⟨extended2, known2⟩ := branch2 stack toElse.2.fresh.2
      have toCond := ((toElse.trans toElse.2.fresh).trans extended2).trans
        (extended2.2.addBlock added2 known2)
      obtain ⟨extendedCond, sameLocals, known⟩ :=
        toCond.2.inExpr translated (translateCond_inScope _)
      rw [State.ctx, ← sameLocals] at known
      exact ⟨toCond.trans extendedCond, known, trivial, trivial⟩
  | ifCont _ _ addedCont _ added1 _ added2 translated cont branch1 branch2 =>
      obtain ⟨extended, knownCont⟩ := cont stack inScope.fresh.2
      have toThen := (inScope.fresh.trans extended).trans (extended.2.addBlock addedCont knownCont)
      obtain ⟨extended1, known1⟩ := branch1 (stack.final _ false) toThen.2.fresh.2
      have toElse := ((toThen.trans toThen.2.fresh).trans extended1).trans
        (extended1.2.addBlock added1 known1)
      obtain ⟨extended2, known2⟩ := branch2 (stack.final _ false) toElse.2.fresh.2
      have toCond := ((toElse.trans toElse.2.fresh).trans extended2).trans
        (extended2.2.addBlock added2 known2)
      obtain ⟨extendedCond, sameLocals, known⟩ :=
        toCond.2.inExpr translated (translateCond_inScope _)
      rw [State.ctx, ← sameLocals] at known
      exact ⟨toCond.trans extendedCond, known, trivial, trivial⟩
  | whileS _ addedCont _ addedBody translated addedCond cont body
  | doS _ addedCont _ addedBody translated addedCond cont body =>
      have fresh := inScope.fresh.trans (inScope.fresh.2.fresh.trans inScope.fresh.2.fresh.2.fresh)
      obtain ⟨extended, knownCont⟩ := cont stack fresh.2
      have toBody := (fresh.trans extended).trans (extended.2.addBlock addedCont knownCont)
      obtain ⟨extendedBody, knownBody⟩ := body (stack.loop _ _) toBody.2
      have toCond := (toBody.trans extendedBody).trans
        (extendedBody.2.addBlock addedBody knownBody)
      obtain ⟨extendedCond, sameLocals, known⟩ :=
        toCond.2.inExpr translated (translateCond_inScope _)
      rw [State.ctx, ← sameLocals] at known
      have toEnd := toCond.trans extendedCond
      exact ⟨toEnd.trans (toEnd.2.addBlock addedCond ⟨known, trivial, trivial⟩), trivial⟩
  | switch _ addedCont _ _ popped found isDefault addedLast translated cont body =>
      obtain ⟨extended, knownCont⟩ := cont stack inScope.fresh.2
      have toBody := (inScope.fresh.trans extended).trans (extended.2.addBlock addedCont knownCont)
      have labels := toBody.trans (toBody.2.fresh.trans toBody.2.fresh.2.fresh)
      obtain ⟨extendedBody, -⟩ := body (stack.switch _) (labels.2.pushSwitch _ _).2
      have toPop := (labels.trans (labels.2.pushSwitch _ _)).trans extendedBody
      obtain ⟨nameless, extendedPop⟩ := extendedBody.2.popSwitch popped
      have toExpr := (toPop.trans extendedPop).trans (extendedPop.2.addBlock addedLast trivial)
      obtain ⟨extendedExpr, sameLocals, known⟩ :=
        toExpr.2.inExpr translated (translateExpr_inScope _ false none _)
      rw [State.ctx, ← sameLocals] at known
      refine ⟨toExpr.trans extendedExpr, known, stmtsNames_iff.mpr fun t member => ?_, ?_⟩
      · exact (nameless.branches found t member).inScope _
      · exact (nameless.defaultBranch isDefault trivial).inScope _
  | caseS registered _ added filled body =>
      have extended := inScope.registerCase registered
      obtain ⟨extendedBody, known⟩ := body (stack.final _ true) extended.2
      have toBlock := (extended.trans extendedBody).trans (extendedBody.2.addBlock added known)
      exact ⟨toBlock.trans (toBlock.2.setCase filled trivial), trivial⟩
  | default registered _ added filled body =>
      have extended := inScope.registerDefault registered
      obtain ⟨extendedBody, known⟩ := body (stack.final _ true) extended.2
      have toBlock := (extended.trans extendedBody).trans (extendedBody.2.addBlock added known)
      exact ⟨toBlock.trans (toBlock.2.setDefault filled trivial), trivial⟩
  | label _ added body =>
      obtain ⟨extended, known⟩ := body stack inScope
      exact ⟨extended.trans (extended.2.addBlock added known), trivial⟩
  | declaration _ declared rest =>
      obtain ⟨extended, known⟩ := rest stack inScope
      obtain ⟨extendedDecls, knownDecls⟩ := extended.2.addDecls declared known
      exact ⟨extended.trans extendedDecls, knownDecls⟩

end

/-! ## Functions -/

inductive DeclKind where
  | object | function
deriving DecidableEq

/-- Global variables, in the order of their declarations. -/
def globalVars (decls : List (Sym × DeclKind)) : List String :=
  (decls.filter fun d => d.2 = .object).map fun d => symToStr d.1

/-- Declared globals and functions that have been used, each sorted. -/
def funcDeps (decls : List (Sym × DeclKind)) (used : Used) : List String × List String :=
  (((globalVars decls).filter (· ∈ used.globals)).insertionSort (· ≤ ·),
    ((decls.map fun d => symToStr d.1).filter (· ∈ used.functions)).insertionSort (· ≤ ·))

/-- Globals whose locations are parameters of the printed definition. -/
def implParams (deps : List String × List String) : List String := deps.1 ++ deps.2

/-- What the translation of a function has used. -/
def functionUsed (ctx : Ctx) (name : String) (decl : FunDecl) (fd : FunctionDefinition) :
    Result Used := do
  let (_, σ) ← translateBody ctx name decl fd initialState
  .ok σ.used

private theorem mem_implParams {decls : List (Sym × DeclKind)} {used : Used} {x : String} :
    x ∈ implParams (funcDeps decls used) ↔ (x ∈ used.globals ∧ x ∈ globalVars decls) ∨
      (x ∈ used.functions ∧ x ∈ decls.map fun d => symToStr d.1) := by
  simp only [implParams, funcDeps, List.mem_append, List.mem_insertionSort, List.mem_filter,
    decide_eq_true_eq, and_comm]

/-- The state before the body is translated, with the arguments and the variables of
the outermost block. -/
theorem FunctionRun.inScope {ctx : Ctx} {name : String} {decl : FunDecl} {fd : FunctionDefinition}
    {fn : Coq.FuncDef} (run : FunctionRun ctx name decl fd fn) : run.final.InScope := by
  obtain ⟨vars, isInitial⟩ := run.withVars_eq
  have initial : run.withVars.fresh.InScope := by
    rw [isInitial]
    exact ⟨fun _ _ member => (List.not_mem_nil member).elim,
      fun _ member => (List.not_mem_nil member).elim⟩
  obtain ⟨extended, known⟩ := run.translates.inScope (kInit_nameless _ _) initial
  exact (extended.2.addBlock run.added known).2

theorem FunctionRun.isUsed {ctx : Ctx} {name : String} {decl : FunDecl} {fd : FunctionDefinition}
    {fn : Coq.FuncDef} (run : FunctionRun ctx name decl fd fn) :
    functionUsed ctx name decl fd = .ok run.final.used := by
  have body :
      translateBody ctx name decl fd initialState = .ok ((fn.args, fn.init), run.final) := by
    simp only [translateBody, run_bind_eq_ok, run_liftResult_eq_ok, run_pure_eq_ok,
      run_freshBlockId_bind]
    refine ⟨_, _, run.declared, (run.bindings, run.stmts), _, ⟨?_, rfl⟩, _, _, run.inserted,
      _, _, ⟨run.isRet, rfl⟩, _, _, run.translation, _, _, run.added, ?_, rfl⟩
    · rw [run.isBody]
      rfl
    · rw [run.isInit]
  rw [functionUsed, body]
  rfl

/-- The local variables of a function are its arguments and variables. -/
theorem FunctionRun.mem_names {ctx : Ctx} {name : String} {decl : FunDecl} {fd : FunctionDefinition}
    {fn : Coq.FuncDef} (run : FunctionRun ctx name decl fd fn) {x : String}
    (isLocal : run.final.isLocal x = true) : x ∈ (fn.args ++ fn.vars).map Prod.fst := by
  rw [State.isLocal, addBlock_localVars run.added] at isLocal
  rw [run.names_perm.mem_iff]
  by_contra absent
  rw [lookup_eq_none_iff.mpr absent] at isLocal
  cases isLocal

/-- The blocks of an emitted function mention its arguments and variables and the
parameters of its printed definition, when the globals that it uses are declared. -/
theorem translateFunction_closedNames {ctx : Ctx} {name : String} {decl : FunDecl}
    {fd : FunctionDefinition} {fn : Coq.FuncDef} {used : Used} {decls : List (Sym × DeclKind)}
    (translated : translateFunction ctx name decl fd = .ok fn)
    (isUsed : functionUsed ctx name decl fd = .ok used)
    (objects : ∀ x ∈ used.globals, x ∈ globalVars decls)
    (functions : ∀ x ∈ used.functions, x ∈ decls.map fun d => symToStr d.1) :
    ∀ id t, (id, t) ∈ fn.blocks → t.Names (fun x => x ∈ (fn.args ++ fn.vars).map Prod.fst)
      (fun x => x ∈ implParams (funcDeps decls used)) := by
  obtain ⟨run⟩ := translateFunction_run translated
  cases run.isUsed.symm.trans isUsed
  intro id t member
  rw [run.isBlocks] at member
  refine Coq.Stmt.Names.mono (fun x => run.mem_names) (fun x has => ?_)
    (run.inScope.blocks id t member)
  rw [mem_implParams]
  exact has.imp (fun used => ⟨used, objects x used⟩) (fun used => ⟨used, functions x used⟩)

/-- `return f(g);` -/
def callDef : FunctionDefinition :=
  let int : CType := .integer (.signed .int)
  ⟨[], .block [] [.returnS (.annotated (.rvalue int)
    (.call (.annotated (.rvalue (.pointer (.function int [int])))
        (.functionDecay (.annotated (.lvalue (.function int [int])) (.ident ⟨1, "f"⟩))))
      [.annotated (.rvalue int) (.rvalue (.annotated (.lvalue int) (.ident ⟨0, "g"⟩)))]))]⟩

def callDecls : List (String × FunDecl) :=
  [("f", ⟨.integer (.signed .int), [.integer (.signed .int)], []⟩),
    ("main", ⟨.integer (.signed .int), [], []⟩)]

def callSyms : List (Sym × DeclKind) :=
  [(⟨0, "g"⟩, .object), (⟨1, "f"⟩, .function), (⟨2, "main"⟩, .function)]

theorem translateFunction_closedNames_call :
    ∃ fn, translateFunction (lp64Ctx [] callDecls) "main"
      ⟨.integer (.signed .int), [], []⟩ callDef =
        .ok fn ∧
      ∀ id t, (id, t) ∈ fn.blocks → t.Names (fun x => x ∈ (fn.args ++ fn.vars).map Prod.fst)
        (fun x => x ∈ ["g", "f"]) := by
  obtain ⟨fn, translated⟩ : ∃ fn, translateFunction (lp64Ctx [] callDecls) "main"
      ⟨.integer (.signed .int), [], []⟩ callDef = .ok fn :=
        exists_ok_of_isOk (by decide +kernel)
  have names : (functionUsed (lp64Ctx [] callDecls) "main" ⟨.integer (.signed .int), [], []⟩
      callDef).toOption.map (fun used => (used.globals, used.functions)) = some (["g"], ["f"]) := by
    decide +kernel
  have isUsed : functionUsed (lp64Ctx [] callDecls) "main" ⟨.integer (.signed .int), [], []⟩
      callDef = .ok ⟨["g"], ["f"]⟩ := by
    generalize functionUsed _ _ _ _ = run at names
    cases run with
    | error failure => cases names
    | ok used =>
        obtain ⟨globals, functions⟩ := used
        cases names
        rfl
  have closed : ∀ id t, (id, t) ∈ fn.blocks →
      t.Names (fun x => x ∈ (fn.args ++ fn.vars).map Prod.fst)
        (fun x => x ∈ implParams (funcDeps callSyms ⟨["g"], ["f"]⟩)) :=
    translateFunction_closedNames translated isUsed (by decide) (by decide)
  exact ⟨fn, translated, closed⟩

end RefinedC.Frontend
