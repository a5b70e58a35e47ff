import RefinedC.Frontend.ControlFlow

/-!
Well-formedness of emitted functions.

Source: `pp_function_def` in `frontend/coq_pp.ml` for the printed record.

Owns: that the jumps of every emitted block go to emitted blocks, that switches
stay inside their branches, that the printed initial block is the translated body,
and that the names of arguments and variables are distinct.
-/

namespace RefinedC.Frontend

open Library

/-! ## Closed statements -/

mutual

/-- Gotos and joins at any depth are keys, and the indices of a switch are smaller
than the number of its branches. -/
def Coq.Stmt.Closed (keys : String → Prop) : Coq.Stmt → Prop
  | .goto id => keys id
  | .ret _ => True
  | .switch _ _ map branches default =>
      (∀ entry ∈ map, entry.2 < branches.length) ∧ Coq.Stmt.ClosedList keys branches ∧
        default.Closed keys
  | .ifS _ join _ s1 s2 => (∀ id ∈ join, keys id) ∧ s1.Closed keys ∧ s2.Closed keys
  | .assign _ _ _ _ s | .skipS s | .assert _ _ s | .exprS _ _ s => s.Closed keys

def Coq.Stmt.ClosedList (keys : String → Prop) : List Coq.Stmt → Prop
  | [] => True
  | s :: ss => s.Closed keys ∧ Coq.Stmt.ClosedList keys ss

end

section

variable {keys : String → Prop}

private theorem Coq.Stmt.closedList_iff {ss : List Coq.Stmt} :
    Coq.Stmt.ClosedList keys ss ↔ ∀ s ∈ ss, s.Closed keys := by
  induction ss with
  | nil => simp [Coq.Stmt.ClosedList]
  | cons s ss inductionHypothesis => simp [Coq.Stmt.ClosedList, inductionHypothesis]

private theorem Head.closed_attach {head : Head} {t : Coq.Stmt} (closed : t.Closed keys) :
    (head.attach t).Closed keys := by
  cases head <;> exact closed

/-- The exits of a list are closed. -/
structure Exits.Closed (keys : String → Prop) (x : Exits) : Prop where
  atBreak : ∀ t, x.atBreak = some t → t.Closed keys
  atContinue : ∀ t, x.atContinue = some t → t.Closed keys
  atEnd : x.atEnd.Closed keys

theorem Exits.Closed.join {x : Exits} (closed : x.Closed keys) {id : String} (key : keys id) :
    Exits.Closed keys { x with atEnd := .goto id } :=
  ⟨closed.atBreak, closed.atContinue, key⟩

theorem Exits.Closed.loop {idCond idCont : String} (keyCond : keys idCond)
    (keyCont : keys idCont) : (Exits.loop idCond idCont).Closed keys := by
  refine ⟨fun t found => ?_, fun t found => ?_, keyCond⟩
  · cases found
    exact keyCont
  · cases found
    exact keyCond

theorem Exits.Closed.switch {x : Exits} (closed : x.Closed keys) {id : String} (key : keys id) :
    (x.switch id).Closed keys := by
  refine ⟨fun t found => ?_, closed.atContinue, key⟩
  cases found
  exact key

/-! ## Closed states -/

/-- The filled cases of a switch are closed. -/
structure SwitchData.Closed (keys : String → Prop) (data : SwitchData) : Prop where
  cases : ∀ i s, (i, some s) ∈ data.cases → s.Closed keys
  default : ∀ s, data.default = some (some s) → s.Closed keys

/-- What has been emitted so far is closed. -/
structure State.Closed (keys : String → Prop) (σ : State) : Prop where
  blocks : ∀ id s, (id, s) ∈ σ.blocks → s.Closed keys
  switches : ∀ data ∈ σ.switches, data.Closed keys

/-- Every block that has been added is a key. -/
def State.Present (keys : String → Prop) (σ : State) : Prop :=
  ∀ id s, σ.blocks.lookup id = some s → keys id

theorem State.Present.of_grows {σ σ' : State} {cases : List Int} {default : Bool}
    (present : σ'.Present keys) (grows : Grows cases default σ σ') : σ.Present keys :=
  fun id s found => present id s (grows.blocks id s found)

theorem State.Present.key {σ σ' : State} {id : String} {s : Coq.Stmt}
    (present : σ'.Present keys) (run : addBlock id s σ = .ok ((), σ')) : keys id := by
  obtain ⟨-, rfl⟩ := addBlock_eq_ok.mp run
  exact present id s List.lookup_cons_self

variable {σ σ' : State}

private theorem State.Present.beforePopSwitch {data : SwitchData} (present : σ'.Present keys)
    (run : popSwitch σ = .ok (data, σ')) : σ.Present keys := by
  obtain ⟨rest, -, rfl⟩ := popSwitch_eq_ok.mp run
  exact present

private theorem State.Present.beforeSetCase {ref : Nat} {s : Coq.Stmt} (present : σ'.Present keys)
    (run : setCase ref s σ = .ok ((), σ')) : σ.Present keys := by
  obtain ⟨data, rest, -, rfl⟩ := setCase_eq_ok.mp run
  exact present

private theorem State.Present.beforeSetDefault {s : Coq.Stmt} (present : σ'.Present keys)
    (run : setDefault s σ = .ok ((), σ')) : σ.Present keys := by
  obtain ⟨data, rest, -, rfl⟩ := setDefault_eq_ok.mp run
  exact present

theorem State.Closed.addBlock {id : String} {s : Coq.Stmt} (closed : σ.Closed keys)
    (run : addBlock id s σ = .ok ((), σ')) (closedStmt : s.Closed keys) : σ'.Closed keys := by
  obtain ⟨-, rfl⟩ := addBlock_eq_ok.mp run
  refine ⟨fun id' s' member => ?_, closed.switches⟩
  rcases List.mem_cons.mp member with same | old
  · cases same
    exact closedStmt
  · exact closed.blocks id' s' old

theorem State.Closed.inExpr {α : Type} {ctx : Ctx} {m : Ctx → ExprM α} {a : α}
    (closed : σ.Closed keys) (run : inExpr ctx m σ = .ok (a, σ')) : σ'.Closed keys := by
  obtain ⟨used, -, rfl⟩ := inExpr_eq_ok.mp run
  exact ⟨closed.blocks, closed.switches⟩

theorem State.Closed.insertBindings {bindings : List (Sym × CType)} (closed : σ.Closed keys)
    (run : insertBindings bindings σ = .ok ((), σ')) : σ'.Closed keys := by
  obtain ⟨vars, rfl⟩ := insertBindings_others run
  exact ⟨closed.blocks, closed.switches⟩

theorem State.Closed.fresh (closed : σ.Closed keys) : σ.fresh.Closed keys :=
  ⟨closed.blocks, closed.switches⟩

theorem State.Closed.pushSwitch (closed : σ.Closed keys) {data : SwitchData}
    (closedData : data.Closed keys) :
    State.Closed keys { σ with switches := data :: σ.switches } :=
  ⟨closed.blocks, List.forall_mem_cons.mpr ⟨closedData, closed.switches⟩⟩

theorem State.Closed.popSwitch {data : SwitchData} (closed : σ.Closed keys)
    (run : popSwitch σ = .ok (data, σ')) : data.Closed keys ∧ σ'.Closed keys := by
  obtain ⟨rest, top, rfl⟩ := popSwitch_eq_ok.mp run
  have switches := closed.switches
  rw [top] at switches
  obtain ⟨closedData, closedRest⟩ := List.forall_mem_cons.mp switches
  exact ⟨closedData, closed.blocks, closedRest⟩

theorem mem_modify {α : Type} {l : List α} {i : Nat} {f : α → α} {a : α}
    (member : a ∈ l.modify i f) : a ∈ l ∨ ∃ b ∈ l, f b = a := by
  induction l generalizing i with
  | nil => simp at member
  | cons b l inductionHypothesis =>
      cases i with
      | zero =>
          rw [List.modify_zero_cons, List.mem_cons] at member
          rcases member with rfl | inTail
          · exact .inr ⟨b, List.mem_cons_self, rfl⟩
          · exact .inl (List.mem_cons_of_mem b inTail)
      | succ i =>
          rw [List.modify_succ_cons, List.mem_cons] at member
          rcases member with rfl | inTail
          · exact .inl List.mem_cons_self
          · rcases inductionHypothesis inTail with old | ⟨c, inside, same⟩
            · exact .inl (List.mem_cons_of_mem b old)
            · exact .inr ⟨c, List.mem_cons_of_mem b inside, same⟩

theorem State.Closed.registerCase {i : Int} {ref : Nat} {curLabel nextLabel : String}
    (closed : σ.Closed keys) (run : registerCase i σ = .ok ((ref, curLabel, nextLabel), σ')) :
    σ'.Closed keys := by
  obtain ⟨data, rest, top, -, -, -, -, rfl⟩ := registerCase_eq_ok run
  have switches := closed.switches
  rw [top] at switches
  obtain ⟨closedData, closedRest⟩ := List.forall_mem_cons.mp switches
  refine ⟨closed.blocks,
    List.forall_mem_cons.mpr ⟨⟨fun i' s member => ?_, nofun⟩, closedRest⟩⟩
  rcases List.mem_append.mp member with old | new
  · exact closedData.cases i' s old
  · cases List.mem_singleton.mp new

theorem State.Closed.setCase {ref : Nat} {s : Coq.Stmt} (closed : σ.Closed keys)
    (run : setCase ref s σ = .ok ((), σ')) (closedStmt : s.Closed keys) : σ'.Closed keys := by
  obtain ⟨data, rest, top, rfl⟩ := setCase_eq_ok.mp run
  have switches := closed.switches
  rw [top] at switches
  obtain ⟨closedData, closedRest⟩ := List.forall_mem_cons.mp switches
  refine ⟨closed.blocks, List.forall_mem_cons.mpr
    ⟨⟨fun i s' member => ?_, closedData.default⟩, closedRest⟩⟩
  rcases mem_modify member with old | ⟨c, -, same⟩
  · exact closedData.cases i s' old
  · cases same
    exact closedStmt

theorem State.Closed.registerDefault {curLabel nextLabel : String} (closed : σ.Closed keys)
    (run : registerDefault σ = .ok ((curLabel, nextLabel), σ')) : σ'.Closed keys := by
  obtain ⟨data, rest, top, -, -, -, rfl⟩ := registerDefault_eq_ok run
  have switches := closed.switches
  rw [top] at switches
  obtain ⟨closedData, closedRest⟩ := List.forall_mem_cons.mp switches
  exact ⟨closed.blocks,
    List.forall_mem_cons.mpr ⟨⟨closedData.cases, nofun⟩, closedRest⟩⟩

theorem State.Closed.setDefault {s : Coq.Stmt} (closed : σ.Closed keys)
    (run : setDefault s σ = .ok ((), σ')) (closedStmt : s.Closed keys) : σ'.Closed keys := by
  obtain ⟨data, rest, top, rfl⟩ := setDefault_eq_ok.mp run
  have switches := closed.switches
  rw [top] at switches
  obtain ⟨closedData, closedRest⟩ := List.forall_mem_cons.mp switches
  refine ⟨closed.blocks, List.forall_mem_cons.mpr
    ⟨⟨closedData.cases, fun s' filled => ?_⟩, closedRest⟩⟩
  cases filled
  exact closedStmt

/-- The statement of a switch whose data are closed. -/
theorem SwitchData.Closed.switch {data : SwitchData} {branches : List Coq.Stmt}
    {gotoCont default : Coq.Stmt} {it : Coq.IntType} {e : Coq.Expr} (closed : data.Closed keys)
    (found : caseBranches data.cases = .ok branches)
    (isDefault : defaultBranch gotoCont data.default = .ok default)
    (closedCont : gotoCont.Closed keys) :
    Coq.Stmt.Closed keys
      (.switch it e (data.cases.mapIdx fun i c => (c.1, i)) branches default) := by
  rw [caseBranches, mapM_eq_ok] at found
  refine ⟨fun entry member => ?_, Coq.Stmt.closedList_iff.mpr fun s member => ?_, ?_⟩
  · obtain ⟨i, inRange, rfl⟩ := List.mem_mapIdx.mp member
    rw [← found.length_eq]
    exact inRange
  · obtain ⟨⟨i, filled⟩, inside, isFilled⟩ := exists_of_mem_right found member
    cases filled with
    | none => cases isFilled
    | some s' =>
        cases isFilled
        exact closed.cases i s inside
  · unfold defaultBranch at isDefault
    split at isDefault
    · cases isDefault
      exact closedCont
    · rename_i s isSome
      cases isDefault
      exact closed.default _ isSome
    · cases isDefault

private theorem addDecls_closed {ctx : Ctx} {ds : List (Sym × Option Expr)} {t t' : Coq.Stmt}
    (run : ds.foldrM (addDecl ctx) t σ = .ok (t', σ')) (closed : σ.Closed keys)
    (closedStmt : t.Closed keys) : t'.Closed keys ∧ σ'.Closed keys := by
  induction ds generalizing t' σ' with
  | nil =>
      obtain ⟨rfl, rfl⟩ := run_pure_eq_ok.mp run
      exact ⟨closedStmt, closed⟩
  | cons d ds inductionHypothesis =>
      rw [List.foldrM_cons] at run
      obtain ⟨t1, σ1, rest, first⟩ := run_bind_eq_ok.mp run
      obtain ⟨closedStmt1, closed1⟩ := inductionHypothesis rest
      rcases addDecl_cases first with
        ⟨-, rfl, rfl⟩ | ⟨e, isVar, ty, head, -, -, translated, rfl⟩
      · exact ⟨closedStmt1, closed1⟩
      · exact ⟨head.closed_attach closedStmt1, closed1.inExpr translated⟩

/-! ## Translations -/

/-- A translation emits closed statements, when what it adds are keys. -/
theorem Translates.closed {ctx : Ctx} {retTy : Option Coq.OpType} {ks : List KData} {x : Exits}
    {stmts : List Stmt} {t : Coq.Stmt} {labels : List String}
    (translates : Translates ctx retTy σ ks stmts t σ') (present : σ'.Present keys)
    (wellFormed : WellFormed labels stmts) (isKey : ∀ l ∈ labels, keys l)
    (stacked : Stacked ks x) (exits : x.Closed keys) (closed : σ.Closed keys) :
    t.Closed keys ∧ σ'.Closed keys := by
  induction translates generalizing x with
  | nil found =>
      cases stacked.atEnd.symm.trans found
      exact ⟨exits.atEnd, closed⟩
  | block inserted _ body =>
      exact body present wellFormed.block stacked exits (closed.insertBindings inserted)
  | goto _ rest =>
      exact ⟨isKey _ (wellFormed.gotos _ List.mem_cons_self),
        (rest present wellFormed.tail stacked exits closed).2⟩
  | returnVoid _ rest => exact ⟨trivial, (rest present wellFormed.tail stacked exits closed).2⟩
  | breakS _ found rest =>
      exact ⟨exits.atBreak _ (stacked.atBreak found),
        (rest present wellFormed.tail stacked exits closed).2⟩
  | continueS _ found rest =>
      exact ⟨exits.atContinue _ (stacked.atContinue found),
        (rest present wellFormed.tail stacked exits closed).2⟩
  | returnS _ translated rest =>
      have closedRest := rest (present.of_grows (inExpr_keeps translated)) wellFormed.tail stacked
        exits closed
      exact ⟨trivial, closedRest.2.inExpr translated⟩
  | skip _ rest => exact rest present wellFormed.tail stacked exits closed
  | expr _ translated rest =>
      have closedRest := rest (present.of_grows (inExpr_keeps translated)) wellFormed.tail stacked
        exits closed
      exact ⟨Head.closed_attach closedRest.1, closedRest.2.inExpr translated⟩
  | ifLast branch1 added1 branch2 added2 translated closed1 closed2 =>
      obtain ⟨wellFormed1, wellFormed2⟩ := wellFormed.branches
      have present4 := present.of_grows (inExpr_keeps translated)
      have present3 := present4.of_grows (addBlock_keeps added2)
      have present2 := (present3.of_grows branch2.grows).of_grows (fresh_keeps _)
      have present1 := present2.of_grows (addBlock_keeps added1)
      have first := closed1 present1 wellFormed1 stacked exits closed.fresh
      have second := closed2 present3 wellFormed2 stacked exits
        (first.2.addBlock added1 first.1).fresh
      exact ⟨⟨nofun, present2.key added1, present4.key added2⟩,
        (second.2.addBlock added2 second.1).inExpr translated⟩
  | ifCont _ cont addedCont branch1 added1 branch2 added2 translated closedCont closed1 closed2 =>
      obtain ⟨wellFormed1, wellFormed2⟩ := wellFormed.branches
      have present6 := present.of_grows (inExpr_keeps translated)
      have present5 := present6.of_grows (addBlock_keeps added2)
      have present4 := (present5.of_grows branch2.grows).of_grows (fresh_keeps _)
      have present3 := present4.of_grows (addBlock_keeps added1)
      have present2 := (present3.of_grows branch1.grows).of_grows (fresh_keeps _)
      have present1 := present2.of_grows (addBlock_keeps addedCont)
      have keyCont := present2.key addedCont
      have rest := closedCont present1 wellFormed.tail stacked exits closed.fresh
      have first := closed1 present3 wellFormed1 (stacked.pushFinal _) (exits.join keyCont)
        (rest.2.addBlock addedCont rest.1).fresh
      have second := closed2 present5 wellFormed2 (stacked.pushFinal _) (exits.join keyCont)
        (first.2.addBlock added1 first.1).fresh
      refine ⟨⟨fun id isJoin => ?_, present4.key added1, present6.key added2⟩,
        (second.2.addBlock added2 second.1).inExpr translated⟩
      cases isJoin
      exact keyCont
  | whileS cont addedCont body addedBody translated addedCond closedCont closedBody
  | doS cont addedCont body addedBody translated addedCond closedCont closedBody =>
      have present5 := present.of_grows (addBlock_keeps addedCond)
      have present4 := present5.of_grows (inExpr_keeps translated)
      have present3 := present4.of_grows (addBlock_keeps addedBody)
      have present2 := present3.of_grows body.grows
      have present1 := present2.of_grows (addBlock_keeps addedCont)
      have keyCont := present2.key addedCont
      have keyBody := present4.key addedBody
      have keyCond := present.key addedCond
      have rest := closedCont present1 wellFormed.tail stacked exits closed.fresh.fresh.fresh
      have loop := closedBody present3 ⟨wellFormed.head.distinct, wellFormed.head.gotos⟩
        (.pushLoop _ _ _) (.loop keyCond keyCont) (rest.2.addBlock addedCont rest.1)
      refine ⟨by assumption, ?_⟩
      exact ((loop.2.addBlock addedBody loop.1).inExpr translated).addBlock addedCond
        ⟨nofun, keyBody, keyCont⟩
  | switch cont addedCont _ body popped found isDefault addedLast translated
    closedCont closedBody =>
      have present5 := present.of_grows (inExpr_keeps translated)
      have present4 := present5.of_grows (addBlock_keeps addedLast)
      obtain ⟨keeps, -⟩ := switch_keeps (σ := State.fresh (State.fresh _)) body.grows popped
      have present2 := ((present4.of_grows keeps).of_grows (fresh_keeps _)).of_grows (fresh_keeps _)
      have present1 := present2.of_grows (addBlock_keeps addedCont)
      have keyCont := present2.key addedCont
      have present3 := present4.beforePopSwitch popped
      have rest := closedCont present1 wellFormed.tail stacked exits closed.fresh
      have inner := closedBody present3 wellFormed.switchBody (stacked.pushSwitch _)
        (exits.switch keyCont) ((rest.2.addBlock addedCont rest.1).fresh.fresh.pushSwitch
          ⟨nofun, nofun⟩)
      obtain ⟨closedData, closed4⟩ := inner.2.popSwitch popped
      exact ⟨closedData.switch found isDefault keyCont,
        (closed4.addBlock addedLast keyCont).inExpr translated⟩
  | caseS registered body added filled closedBody =>
      have present3 := present.beforeSetCase filled
      have inner := closedBody (present3.of_grows (addBlock_keeps added))
        ⟨wellFormed.distinct, wellFormed.gotos⟩ (stacked.pushFinalCase _) exits
        (closed.registerCase registered)
      have key := present3.key added
      exact ⟨key, (inner.2.addBlock added inner.1).setCase filled key⟩
  | default registered body added filled closedBody =>
      have present3 := present.beforeSetDefault filled
      have inner := closedBody (present3.of_grows (addBlock_keeps added))
        ⟨wellFormed.distinct, wellFormed.gotos⟩ (stacked.pushFinalCase _) exits
        (closed.registerDefault registered)
      have key := present3.key added
      exact ⟨key, (inner.2.addBlock added inner.1).setDefault filled key⟩
  | label _ added closedBody =>
      have inner := closedBody (present.of_grows (addBlock_keeps added))
        ⟨wellFormed.distinct, wellFormed.gotos⟩ stacked exits closed
      exact ⟨present.key added, inner.2.addBlock added inner.1⟩
  | declaration _ declared closedRest =>
      have rest := closedRest (present.of_grows (addDecls_keeps declared)) wellFormed.tail stacked
        exits closed
      exact addDecls_closed declared rest.2 rest.1

/-- Every label of implemented statements has a block. -/
theorem Code.labels {P : Emitted} {table : Option SwitchTable} {x : Exits} {stmts : List Stmt}
    {t : Coq.Stmt} (code : Code P table x stmts t) {l : String}
    (member : l ∈ labelsOfList stmts) :
    (P.blocks l).isSome := by
  induction code with
  | nil => cases member
  | block _ inductionHypothesis =>
      rw [labelsOfList_append] at inductionHypothesis
      exact inductionHypothesis member
  | goto _ _ inductionHypothesis | returnVoid _ inductionHypothesis
  | breakS _ _ inductionHypothesis | continueS _ _ inductionHypothesis
  | returnS _ _ inductionHypothesis | skip _ inductionHypothesis
  | expr _ _ inductionHypothesis | declNil _ inductionHypothesis
  | declNone _ inductionHypothesis | declSome _ _ _ inductionHypothesis
  | caseS _ _ _ inductionHypothesis | default _ _ _ inductionHypothesis =>
      exact inductionHypothesis member
  | ifLast _ _ _ _ _ hypothesis1 hypothesis2 =>
      simp only [labelsOfList, labelsOf, List.append_nil, List.mem_append] at *
      exact member.elim hypothesis1 hypothesis2
  | ifCont _ _ _ _ _ _ _ hypothesis hypothesis1 hypothesis2 =>
      simp only [labelsOfList, labelsOf, List.append_nil, List.mem_append] at *
      exact member.elim (fun inside => inside.elim hypothesis1 hypothesis2) hypothesis
  | whileS _ _ _ _ _ _ hypothesis hypothesisBody | doS _ _ _ _ _ _ hypothesis hypothesisBody
  | switch _ _ _ _ _ _ _ hypothesis hypothesisBody =>
      simp only [labelsOfList, labelsOf, List.append_nil, List.mem_append] at *
      exact member.elim hypothesisBody hypothesis
  | label _ found inductionHypothesis =>
      rcases List.mem_cons.mp member with rfl | inside
      · rw [found]
        rfl
      · exact inductionHypothesis inside

end

/-! ## Functions -/

/-- The record that is printed for a function. -/
structure PrintedFunction where
  fArgs : List (String × Coq.Layout)
  fLocalVars : List (String × Coq.Layout)
  fInit : String
  fCode : Blocks

/-- The initial block is printed as a constant. -/
def ppFunctionDef (fn : Coq.FuncDef) : PrintedFunction := ⟨fn.args, fn.vars, "#0", fn.blockMap⟩

private theorem collectBindings_names {ctx : Ctx} {localVars : LocalVars}
    {vars : List (String × Coq.Layout)} (run : collectBindings ctx localVars = .ok vars) :
    vars.map Prod.fst = (localVars.filter fun v => v.2.1).map Prod.fst := by
  rw [collectBindings, mapM_eq_ok] at run
  generalize localVars.filter (fun v => v.2.1) = stored at run ⊢
  induction run with
  | nil => rfl
  | cons head _ inductionHypothesis =>
      obtain ⟨l, -, result⟩ := bind_eq_ok.mp head
      cases result
      rw [List.map_cons, List.map_cons, inductionHypothesis]

private theorem zip_fst_sublist {α β : Type} (as : List α) (bs : List β) :
    ((as.zip bs).map Prod.fst).Sublist as := by
  induction as generalizing bs with
  | nil => exact .slnil
  | cons a as inductionHypothesis =>
      cases bs with
      | nil => exact List.nil_sublist _
      | cons b bs => exact (inductionHypothesis bs).cons_cons a

namespace FunctionRun

variable {ctx : Ctx} {name : String} {decl : FunDecl} {fd : FunctionDefinition} {fn : Coq.FuncDef}
  (run : FunctionRun ctx name decl fd fn)

theorem closed (wellFormed : WellFormed (labelsOfList run.stmts) run.stmts) :
    ∀ id s, (id, s) ∈ fn.blocks → s.Closed fun id => (fn.blockMap id).isSome := by
  obtain ⟨e, code, -⟩ := run.code wellFormed
  obtain ⟨e', stacked, -⟩ := kInit_follows ctx run.retTy (name = "main")
  have present : run.translated.Present fun id => (fn.blockMap id).isSome := by
    intro id s found
    rw [run.blocks ((addBlock_keeps run.added).blocks id s found)]
    rfl
  obtain ⟨vars, isInitial⟩ := run.withVars_eq
  have initial : run.withVars.fresh.Closed fun id => (fn.blockMap id).isSome := by
    rw [isInitial]
    exact ⟨nofun, nofun⟩
  have closed := run.translates.closed present wellFormed (fun l member => code.labels member)
    stacked ⟨nofun, nofun, trivial⟩ initial
  rw [run.isBlocks]
  exact (closed.2.addBlock run.added closed.1).blocks

include run in
theorem init_eq : fn.init = "#0" := by
  obtain ⟨vars, isInitial⟩ := run.withVars_eq
  have first : run.withVars.blockId = 0 := by rw [isInitial, initialState]
  rw [run.isInit, first]
  rfl

/-- Arguments and variables are the stored variables, in another order. -/
theorem names_perm : ((fn.args ++ fn.vars).map Prod.fst).Perm
    (run.translated.localVars.map Prod.fst) := by
  obtain ⟨new, -, vars⟩ := run.inserts.perm
  obtain ⟨names, isArgs⟩ := declareArgs_eq_ok run.declared
  have isFinal : run.final.localVars = run.translated.localVars := addBlock_localVars run.added
  have collected := collectBindings_names run.collected
  rw [isFinal, vars, isArgs] at collected
  rw [vars, isArgs, List.map_append, names, collected]
  simp only [initialState, List.append_nil, List.filter_append, List.filter_reverse,
    List.filter_map, List.map_append, List.map_reverse, List.map_map]
  simp only [Function.comp_def, List.filter_true, List.filter_false, List.map_nil,
    List.reverse_nil, List.append_nil]
  exact List.perm_append_comm.trans ((List.Perm.refl _).append (List.reverse_perm _).symm)

include run in
/-- Names are distinct, when those of the parameters are. -/
theorem names_nodup (params : (fd.params.map symToStr).Nodup) :
    ((fn.args ++ fn.vars).map Prod.fst).Nodup := by
  rw [run.names_perm.nodup_iff]
  apply run.inserts.distinct
  obtain ⟨names, isArgs⟩ := declareArgs_eq_ok run.declared
  rw [isArgs]
  simp only [initialState, List.append_nil, List.map_reverse, List.nodup_reverse, List.map_map]
  exact (zip_fst_sublist _ _).nodup params

end FunctionRun

/-- A translated function is well formed for Caesium. -/
theorem translateFunction_wellFormed {ctx : Ctx} {name : String} {decl : FunDecl}
    {fd : FunctionDefinition} {fn : Coq.FuncDef} {bindings : List (Sym × CType)}
    {stmts : List Stmt} (translated : translateFunction ctx name decl fd = .ok fn)
    (isBody : fd.body = .block bindings stmts) (distinct : CasesDistinctList stmts)
    (gotos : ∀ l ∈ gotosOfList stmts, l ∈ labelsOfList stmts)
    (params : (fd.params.map symToStr).Nodup) :
    let printed := ppFunctionDef fn
    (∀ id s, (id, s) ∈ fn.blocks → s.Closed fun id => (printed.fCode id).isSome) ∧
      printed.fInit = fn.init ∧
      (∃ retTy σ σ' body, opTypeOpt ctx.impl decl.ret = .ok retTy ∧
        translateBlock ctx stmts retTy (name = "main") σ = .ok (body, σ') ∧
        printed.fCode printed.fInit = some body) ∧
      ((printed.fArgs ++ printed.fLocalVars).map Prod.fst).Nodup := by
  obtain ⟨run⟩ := translateFunction_run translated
  cases isBody.symm.trans run.isBody
  refine ⟨run.closed ⟨distinct, gotos⟩, run.init_eq.symm,
    ⟨run.retTy, _, _, run.body, run.isRet, run.translation, ?_⟩, run.names_nodup params⟩
  have initBlock := run.initBlock
  rw [run.init_eq] at initBlock
  exact initBlock

theorem translateFunction_wellFormed_loop :
    ∃ fn, translateFunction (lp64Ctx [] []) "loop" loopDecl loopDef = .ok fn ∧
      (∀ id s, (id, s) ∈ fn.blocks → s.Closed fun id => (fn.blockMap id).isSome) ∧
      fn.init = "#0" ∧ ((fn.args ++ fn.vars).map Prod.fst).Nodup := by
  obtain ⟨fn, translated⟩ := loopDef_translated
  obtain ⟨closed, init, -, names⟩ := translateFunction_wellFormed translated rfl
    loopBody_casesDistinct loopBody_gotos (List.nodup_singleton "x")
  exact ⟨fn, translated, closed, init.symm, names⟩

end RefinedC.Frontend
