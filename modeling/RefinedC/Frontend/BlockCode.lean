import RefinedC.Frontend.Translates

/-!
Statements that a block map implements.

Owns: the relation between statement lists with their exits and the emitted
statements that implement them in a final block map, and the theorem that a
successful translation establishes it.

The relation keeps what translated code means and forgets the order in which the
translation allocates labels, registers cases and adds blocks.
-/

namespace RefinedC.Frontend

open Library

/-- A function body and its final block map. -/
structure Emitted where
  ctx : Ctx
  retTy : Option Coq.OpType
  declared : List (String × CType)
  body : List Stmt
  fallOff : RetVal
  blocks : Blocks

/-- Emitted statements that leave a statement list: at a break, at a continue and
at its end. -/
structure Exits where
  atBreak : Option Coq.Stmt
  atContinue : Option Coq.Stmt
  atEnd : Coq.Stmt

/-- Exits of the body of a loop. -/
def Exits.loop (idCond idCont : String) : Exits :=
  ⟨some (.goto idCont), some (.goto idCond), .goto idCond⟩

/-- Exits of the body of a switch inside of a list with exits `x`. -/
def Exits.switch (x : Exits) (idCont : String) : Exits :=
  ⟨some (.goto idCont), x.atContinue, .goto idCont⟩

/-- `Code P table x stmts t`: `t` implements the statements, which are left by the
exits `x`. The innermost enclosing switch has the given table. -/
inductive Code (P : Emitted) :
    Option SwitchTable → Exits → List Stmt → Coq.Stmt → Prop where
  | nil {table x} : Code P table x [] x.atEnd
  | block {table x bindings ss stmts t} : Code P table x (ss ++ stmts) t →
      Code P table x (.block bindings ss :: stmts) t
  | goto {table x l stmts t} : Code P table x stmts t → symToStr l ∈ labelsOfList P.body →
      Code P table x (.goto l :: stmts) (.goto (symToStr l))
  | returnVoid {table x stmts t} : Code P table x stmts t →
      Code P table x (.returnVoid :: stmts) (.ret (.val .void))
  | breakS {table x stmts t t'} : Code P table x stmts t' → x.atBreak = some t →
      Code P table x (.breakS :: stmts) t
  | continueS {table x stmts t t'} : Code P table x stmts t' → x.atContinue = some t →
      Code P table x (.continueS :: stmts) t
  | returnS {table x e e' stmts t} : Code P table x stmts t →
      TranslatesTo P.ctx (fun ctx => translateReturn ctx P.retTy e) e' →
      Code P table x (.returnS e :: stmts) (.ret e')
  | skip {table x stmts t} : Code P table x stmts t → Code P table x (.skip :: stmts) t
  | expr {table x e head stmts t} : Code P table x stmts t →
      TranslatesTo P.ctx (fun ctx => translateExprStmt ctx e) head →
      Code P table x (.expr e :: stmts) (head.attach t)
  | ifLast {table x e s1 s2 id1 id2 t1 t2 ot e'} : Code P table x [s1] t1 →
      P.blocks id1 = some t1 → Code P table x [s2] t2 → P.blocks id2 = some t2 →
      TranslatesTo P.ctx (fun ctx => translateCond ctx e) (ot, e') →
      Code P table x [.ifS e s1 s2] (.ifS ot none e' (.goto id1) (.goto id2))
  | ifCont {table x e s1 s2 stmts idCont id1 id2 tc t1 t2 ot e'} :
      Code P table x stmts tc → P.blocks idCont = some tc →
      Code P table { x with atEnd := .goto idCont } [s1] t1 → P.blocks id1 = some t1 →
      Code P table { x with atEnd := .goto idCont } [s2] t2 → P.blocks id2 = some t2 →
      TranslatesTo P.ctx (fun ctx => translateCond ctx e) (ot, e') →
      Code P table x (.ifS e s1 s2 :: stmts)
        (.ifS ot (some idCont) e' (.goto id1) (.goto id2))
  | whileS {table x e s stmts idCond idBody idCont tc tb ot e'} :
      Code P table x stmts tc → P.blocks idCont = some tc →
      Code P table (.loop idCond idCont) [s] tb → P.blocks idBody = some tb →
      TranslatesTo P.ctx (fun ctx => translateCond ctx e) (ot, e') →
      P.blocks idCond = some (.ifS ot none e' (.goto idBody) (.goto idCont)) →
      Code P table x (.whileS e s :: stmts) (.goto idCond)
  | doS {table x e s stmts idCond idBody idCont tc tb ot e'} :
      Code P table x stmts tc → P.blocks idCont = some tc →
      Code P table (.loop idCond idCont) [s] tb → P.blocks idBody = some tb →
      TranslatesTo P.ctx (fun ctx => translateCond ctx e) (ot, e') →
      P.blocks idCond = some (.ifS ot none e' (.goto idBody) (.goto idCont)) →
      Code P table x (.doS s e :: stmts) (.goto idBody)
  | switch {table x e s stmts idCont tc tb it e' map branches default} :
      Code P table x stmts tc → P.blocks idCont = some tc →
      switchType P.ctx e = .ok it →
      Code P (some ⟨map, branches, default⟩) (x.switch idCont) [s] tb →
      (∀ n, n ∉ casesOf s → (SwitchTable.mk map branches default).branch n = some default) →
      (hasDefault s = false → default = .goto idCont) →
      TranslatesTo P.ctx (fun ctx => translateExpr ctx false none e) e' →
      Code P table x (.switch e s :: stmts) (.switch it e' map branches default)
  | caseS {table x i s stmts id t} : Code P (some table) x (s :: stmts) t →
      P.blocks id = some t → table.branch i = some (.goto id) →
      Code P (some table) x (.caseS i s :: stmts) (.goto id)
  | default {table x s stmts id t} : Code P (some table) x (s :: stmts) t →
      P.blocks id = some t → table.default = .goto id →
      Code P (some table) x (.default s :: stmts) (.goto id)
  | label {table x l s stmts t} : Code P table x (s :: stmts) t →
      P.blocks (symToStr l) = some t →
      Code P table x (.label l s :: stmts) (.goto (symToStr l))
  | declNil {table x stmts t} : Code P table x stmts t →
      Code P table x (.declaration [] :: stmts) t
  | declNone {table x y ds stmts t} : Code P table x (.declaration ds :: stmts) t →
      Code P table x (.declaration ((y, none) :: ds) :: stmts) t
  | declSome {table x y e ty ds head stmts t} : Code P table x (.declaration ds :: stmts) t →
      (symToStr y, ty) ∈ P.declared →
      TranslatesTo P.ctx (fun ctx => translateInit ctx (symToStr y) ty e) head →
      Code P table x (.declaration ((y, some e) :: ds) :: stmts) (head.attach t)

/-! ## Continuation stacks -/

/-- The searches through the stack `ks` give the exits `x`. -/
structure Stacked (ks : List KData) (x : Exits) : Prop where
  atBreak : ∀ {t}, kGen KData.kBreak ks = .ok t → x.atBreak = some t
  atContinue : ∀ {t}, kGen KData.kContinue ks = .ok t → x.atContinue = some t
  atEnd : kGen KData.kFinal (kPopCases ks) = .ok x.atEnd

section

variable {ks : List KData} {x : Exits}

theorem Stacked.pushFinal (stacked : Stacked ks x) (s : Coq.Stmt) :
    Stacked (kPushFinal s ks) { x with atEnd := s } :=
  ⟨stacked.atBreak, stacked.atContinue, rfl⟩

/-- The entry of a case is never found. -/
theorem Stacked.pushFinalCase (stacked : Stacked ks x) (s : Coq.Stmt) :
    Stacked (kPushFinalCase s ks) x :=
  ⟨stacked.atBreak, stacked.atContinue, stacked.atEnd⟩

theorem Stacked.pushLoop (ks : List KData) (idCond idCont : String) :
    Stacked (⟨some (.goto idCont), some (.goto idCond), some (.goto idCond), false⟩ :: ks)
      (.loop idCond idCont) :=
  ⟨fun found => congrArg some (Except.ok.inj found),
    fun found => congrArg some (Except.ok.inj found), rfl⟩

theorem Stacked.pushSwitch (stacked : Stacked ks x) (idCont : String) :
    Stacked (⟨some (.goto idCont), none, some (.goto idCont), false⟩ :: ks) (x.switch idCont) :=
  ⟨fun found => congrArg some (Except.ok.inj found), stacked.atContinue, rfl⟩

end

/-! ## Final states -/

/-- The final table of a switch has the cases that are filled in `data`. -/
structure SwitchTable.Has (table : SwitchTable) (data : SwitchData) : Prop where
  cases : ∀ i s, (i, some s) ∈ data.cases → table.branch i = some s
  default : ∀ s, data.default = some (some s) → table.default = s

def TableHas : Option SwitchTable → List SwitchData → Prop
  | none, switches => switches = []
  | some table, switches => ∃ data rest, switches = data :: rest ∧ table.Has data

/-- What is emitted in the end has what the state `σ` has. -/
structure Final (P : Emitted) (table : Option SwitchTable) (σ : State) : Prop where
  blocks : ∀ id s, σ.blocks.lookup id = some s → P.blocks id = some s
  locals : ∀ id v, σ.localVars.lookup id = some v → (id, v.2) ∈ P.declared
  table : TableHas table σ.switches

theorem SwitchTable.Has.of_grows {table : SwitchTable} {data data' : SwitchData}
    {cases : List Int} {default : Bool} (has : table.Has data')
    (grows : data.Grows cases default data') : table.Has data := by
  obtain ⟨new, newCases, -⟩ := grows.cases
  refine ⟨fun i s member => has.cases i s ?_, fun s filled => has.default s ?_⟩
  · rw [newCases]
    exact List.mem_append_left _ member
  · have defaults := grows.default
    cases default with
    | true => simp [filled] at defaults
    | false => exact defaults.trans filled

theorem Final.of_grows {P : Emitted} {table : Option SwitchTable} {σ σ' : State}
    {cases : List Int} {default : Bool} (final : Final P table σ')
    (grows : Grows cases default σ σ') :
    Final P table σ := by
  refine ⟨fun id s found => final.blocks id s (grows.blocks id s found),
    fun id v found => final.locals id v (grows.locals id v found), ?_⟩
  have has := final.table
  have switches := grows.switches
  cases before : σ.switches with
  | nil =>
      rw [before] at switches
      obtain ⟨after, -, -⟩ := switches
      rw [after] at has
      exact has
  | cons data rest =>
      rw [before] at switches
      obtain ⟨data', after, dataGrows⟩ := switches
      rw [after] at has
      cases table with
      | none => cases has
      | some table =>
          obtain ⟨data'', rest', same, hasData⟩ := has
          cases same
          exact ⟨data, rest, rfl, hasData.of_grows dataGrows⟩

theorem Final.block {P : Emitted} {table : Option SwitchTable} {σ σ' : State} {id : String}
    {s : Coq.Stmt} (final : Final P table σ') (run : addBlock id s σ = .ok ((), σ')) :
    P.blocks id = some s := by
  obtain ⟨-, rfl⟩ := addBlock_eq_ok.mp run
  exact final.blocks id s (by simp)

/-! ## Tables of switches -/

/-- Keys with their positions from `start` on. -/
theorem lookup_mapIdx_of_mem {new : List (Int × Coq.Stmt)} (distinct : (new.map Prod.fst).Nodup)
    {i : Int} {s : Coq.Stmt} (member : (i, s) ∈ new) (start : Nat) :
    ∃ p, (new.mapIdx fun j c => (c.1, j + start)).lookup i = some (p + start) ∧
      (new.map Prod.snd)[p]? = some s := by
  induction new generalizing start with
  | nil => cases member
  | cons c new inductionHypothesis =>
      rw [List.map_cons, List.nodup_cons] at distinct
      rcases List.mem_cons.mp member with rfl | inTail
      · exact ⟨0, by simp, by simp⟩
      · have other : (i == c.1) = false := by
          apply beq_false_of_ne
          rintro rfl
          exact distinct.1 (List.mem_map.mpr ⟨(c.1, s), inTail, rfl⟩)
        obtain ⟨p, found, branch⟩ := inductionHypothesis distinct.2 inTail (start + 1)
        refine ⟨p + 1, ?_, by simpa using branch⟩
        rw [List.mapIdx_cons, List.lookup_cons, other]
        simpa [Nat.add_assoc, Nat.add_comm 1 start] using found

private theorem lookup_mapIdx_of_not_mem {new : List (Int × Coq.Stmt)} {i : Int}
    (absent : i ∉ new.map Prod.fst) (start : Nat) :
    (new.mapIdx fun j c => (c.1, j + start)).lookup i = none := by
  induction new generalizing start with
  | nil => rfl
  | cons c new inductionHypothesis =>
      rw [List.map_cons, List.mem_cons, not_or] at absent
      have rest := inductionHypothesis absent.2 (start + 1)
      rw [List.mapIdx_cons, List.lookup_cons, beq_false_of_ne absent.1]
      simpa [Nat.add_assoc, Nat.add_comm 1 start] using rest

/-- The statement of a switch has the table that its cases were registered for. -/
theorem switch_table {cases : List Int} {default : Bool} {data : SwitchData}
    {curLabel nextLabel : String} {branches : List Coq.Stmt} {gotoCont other : Coq.Stmt}
    (distinct : cases.Nodup)
    (grows : SwitchData.Grows cases default ⟨[], curLabel, nextLabel, none⟩ data)
    (found : caseBranches data.cases = .ok branches)
    (isDefault : defaultBranch gotoCont data.default = .ok other) :
    let table : SwitchTable := ⟨data.cases.mapIdx fun i c => (c.1, i), branches, other⟩
    table.Has data ∧ (∀ n, n ∉ cases → table.branch n = some other) ∧
      (default = false → other = gotoCont) := by
  obtain ⟨new, newCases, perm⟩ := grows.cases
  rw [List.nil_append] at newCases
  have filled : caseBranches data.cases = .ok (new.map Prod.snd) := by
    rw [newCases, caseBranches, mapM_eq_ok, List.forall₂_map_left_iff,
      List.forall₂_map_right_iff]
    exact List.forall₂_same.mpr fun _ _ => rfl
  cases found.symm.trans filled
  have keys : data.cases.mapIdx (fun i c => (c.1, i)) = new.mapIdx fun j c => (c.1, j + 0) := by
    rw [newCases, List.mapIdx_eq_zipIdx_map, List.mapIdx_eq_zipIdx_map, List.zipIdx_map]
    simp
  refine ⟨⟨?_, ?_⟩, ?_, ?_⟩
  · intro i s member
    rw [newCases] at member
    obtain ⟨⟨i', s'⟩, inNew, same⟩ := List.mem_map.mp member
    cases same
    obtain ⟨p, lookup, branch⟩ := lookup_mapIdx_of_mem (perm.nodup_iff.mpr distinct) inNew 0
    rw [← keys] at lookup
    simp only [SwitchTable.branch, lookup]
    exact branch
  · intro s isFilled
    rw [isFilled] at isDefault
    exact (Except.ok.inj isDefault).symm
  · intro n absent
    have lookup := lookup_mapIdx_of_not_mem (fun member => absent (perm.mem_iff.mp member)) 0
    rw [← keys] at lookup
    simp only [SwitchTable.branch, lookup]
  · rintro rfl
    have none : data.default = none := grows.default
    rw [none] at isDefault
    exact (Except.ok.inj isDefault).symm

/-! ## Translations establish the relation -/

section

variable {P : Emitted} {table : Option SwitchTable}

private theorem Final.beforeCase {i : Int} {s : Coq.Stmt} {σ σ1 σ2 σ' : State} {ref : Nat}
    {curLabel nextLabel : String} {cases : List Int} {default : Bool} (final : Final P table σ')
    (registered : registerCase i σ = .ok ((ref, curLabel, nextLabel), σ1))
    (body : Grows cases default σ1 σ2) (filled : setCase ref s σ2 = .ok ((), σ')) :
    ∃ switchTable, table = some switchTable ∧ switchTable.branch i = some s ∧
      Final P table σ2 := by
  obtain ⟨data, rest, -, -, rfl, -, -, rfl⟩ := registerCase_eq_ok registered
  obtain ⟨data2, rest2, top2, rfl⟩ := setCase_eq_ok.mp filled
  obtain ⟨data2', top2', ⟨⟨new, newCases, -⟩, -⟩⟩ := body.switches
  rw [top2] at top2'
  cases top2'
  rw [List.append_assoc, List.singleton_append] at newCases
  have has := final.table
  simp only [newCases, modify_append_length] at has
  cases table with
  | none => cases has
  | some switchTable =>
      obtain ⟨data', rest', same, hasCases, hasDefault⟩ := has
      cases same
      refine ⟨switchTable, rfl, hasCases i s (by simp), final.blocks, final.locals, data2, rest,
        top2, fun i' s' member => hasCases i' s' ?_, hasDefault⟩
      rw [newCases] at member
      rcases List.mem_append.mp member with old | here
      · exact List.mem_append_left _ old
      · rcases List.mem_cons.mp here with same | inNew
        · cases same
        · exact List.mem_append_right _ (List.mem_cons_of_mem _ inNew)

private theorem Final.beforeDefault {s : Coq.Stmt} {σ σ1 σ2 σ' : State}
    {curLabel nextLabel : String} {cases : List Int} {default : Bool} (final : Final P table σ')
    (registered : registerDefault σ = .ok ((curLabel, nextLabel), σ1))
    (body : Grows cases default σ1 σ2) (filled : setDefault s σ2 = .ok ((), σ')) :
    ∃ switchTable, table = some switchTable ∧ switchTable.default = s ∧
      Final P table σ2 := by
  obtain ⟨data, rest, -, -, -, -, rfl⟩ := registerDefault_eq_ok registered
  obtain ⟨data2, rest2, top2, rfl⟩ := setDefault_eq_ok.mp filled
  obtain ⟨data2', top2', ⟨-, defaults⟩⟩ := body.switches
  rw [top2] at top2'
  cases top2'
  have has := final.table
  cases table with
  | none => cases has
  | some switchTable =>
      obtain ⟨data', rest', same, hasCases, hasDefault⟩ := has
      cases same
      refine ⟨switchTable, rfl, hasDefault s rfl, final.blocks, final.locals, data2, rest, top2,
        hasCases, fun s' isFilled => ?_⟩
      -- the default was registered, but not filled, when the body was translated
      cases default with
      | true => cases defaults.1
      | false =>
          rw [show data2.default = some none from defaults] at isFilled
          cases isFilled

private theorem addDecls_code {x : Exits} {stmts : List Stmt} {ds : List (Sym × Option Expr)}
    {t t' : Coq.Stmt} {σ σ' : State} (run : ds.foldrM (addDecl P.ctx) t σ = .ok (t', σ'))
    (final : Final P table σ') (code : Code P table x stmts t) :
    Code P table x (.declaration ds :: stmts) t' := by
  induction ds generalizing t' σ' with
  | nil =>
      obtain ⟨rfl, rfl⟩ := run_pure_eq_ok.mp run
      exact .declNil code
  | cons d ds inductionHypothesis =>
      rw [List.foldrM_cons] at run
      obtain ⟨t1, σ1, rest, first⟩ := run_bind_eq_ok.mp run
      have inner := inductionHypothesis rest (final.of_grows (addDecl_keeps first))
      obtain ⟨y, init⟩ := d
      rcases addDecl_cases first with
        ⟨rfl, rfl, rfl⟩ | ⟨e, isVar, ty, head, rfl, isLocal, translated, rfl⟩
      · exact .declNone inner
      · have before := final.of_grows (inExpr_keeps translated)
        exact .declSome inner (before.locals _ _ isLocal) (inExpr_translatesTo translated)

/-- What C demands of statements: distinct cases, and gotos to labels of the body. -/
structure WellFormed (labels : List String) (stmts : List Stmt) : Prop where
  distinct : CasesDistinctList stmts
  gotos : ∀ l ∈ gotosOfList stmts, l ∈ labels

theorem WellFormed.head {labels : List String} {s : Stmt} {stmts : List Stmt}
    (wellFormed : WellFormed labels (s :: stmts)) : WellFormed labels [s] := by
  refine ⟨⟨wellFormed.distinct.1, trivial⟩, fun l member => wellFormed.gotos l ?_⟩
  rw [gotosOfList, gotosOfList, List.append_nil] at member
  exact List.mem_append_left _ member

theorem WellFormed.tail {labels : List String} {s : Stmt} {stmts : List Stmt}
    (wellFormed : WellFormed labels (s :: stmts)) : WellFormed labels stmts :=
  ⟨wellFormed.distinct.2, fun l member => wellFormed.gotos l (List.mem_append_right _ member)⟩

theorem WellFormed.block {labels : List String} {bindings : List (Sym × CType)}
    {ss stmts : List Stmt} (wellFormed : WellFormed labels (.block bindings ss :: stmts)) :
    WellFormed labels (ss ++ stmts) := by
  refine ⟨(casesDistinctList_append ss stmts).mpr wellFormed.distinct, fun l member => ?_⟩
  rw [gotosOfList_append] at member
  exact wellFormed.gotos l member

theorem WellFormed.branches {labels : List String} {e : Expr} {s1 s2 : Stmt}
    {stmts : List Stmt} (wellFormed : WellFormed labels (.ifS e s1 s2 :: stmts)) :
    WellFormed labels [s1] ∧ WellFormed labels [s2] := by
  obtain ⟨⟨⟨distinct1, distinct2⟩, -⟩, gotos⟩ := wellFormed
  simp only [gotosOfList, gotosOf, List.mem_append] at gotos
  refine ⟨⟨⟨distinct1, trivial⟩, fun l member => gotos l ?_⟩,
    ⟨⟨distinct2, trivial⟩, fun l member => gotos l ?_⟩⟩
  · rw [gotosOfList, gotosOfList, List.append_nil] at member
    exact .inl (.inl member)
  · rw [gotosOfList, gotosOfList, List.append_nil] at member
    exact .inl (.inr member)

theorem WellFormed.switchBody {labels : List String} {e : Expr} {s : Stmt} {stmts : List Stmt}
    (wellFormed : WellFormed labels (.switch e s :: stmts)) : WellFormed labels [s] :=
  ⟨⟨wellFormed.distinct.1.2, trivial⟩, wellFormed.head.gotos⟩

theorem Translates.code {σ σ' : State} {ks : List KData} {x : Exits}
    {stmts : List Stmt} {t : Coq.Stmt}
    (translates : Translates P.ctx P.retTy σ ks stmts t σ') (final : Final P table σ')
    (wellFormed : WellFormed (labelsOfList P.body) stmts) (stacked : Stacked ks x) :
    Code P table x stmts t := by
  induction translates generalizing table x with
  | nil found =>
      cases stacked.atEnd.symm.trans found
      exact .nil
  | block _ _ body => exact .block (body final wellFormed.block stacked)
  | goto _ rest =>
      exact .goto (rest final wellFormed.tail stacked) (wellFormed.gotos _ List.mem_cons_self)
  | returnVoid _ rest => exact .returnVoid (rest final wellFormed.tail stacked)
  | breakS _ found rest =>
      exact .breakS (rest final wellFormed.tail stacked) (stacked.atBreak found)
  | continueS _ found rest =>
      exact .continueS (rest final wellFormed.tail stacked) (stacked.atContinue found)
  | returnS _ translated rest =>
      exact .returnS (rest (final.of_grows (inExpr_keeps translated)) wellFormed.tail stacked)
        (inExpr_translatesTo translated)
  | skip _ rest => exact .skip (rest final wellFormed.tail stacked)
  | expr _ translated rest =>
      exact .expr (rest (final.of_grows (inExpr_keeps translated)) wellFormed.tail stacked)
        (inExpr_translatesTo translated)
  | ifLast branch1 added1 branch2 added2 translated code1 code2 =>
      obtain ⟨wellFormed1, wellFormed2⟩ := wellFormed.branches
      have final4 := final.of_grows (inExpr_keeps translated)
      have final3 := final4.of_grows (addBlock_keeps added2)
      have final2 := (final3.of_grows branch2.grows).of_grows (fresh_keeps _)
      have final1 := final2.of_grows (addBlock_keeps added1)
      exact .ifLast (code1 final1 wellFormed1 stacked) (final2.block added1)
        (code2 final3 wellFormed2 stacked) (final4.block added2) (inExpr_translatesTo translated)
  | ifCont _ cont addedCont branch1 added1 branch2 added2 translated code code1 code2 =>
      obtain ⟨wellFormed1, wellFormed2⟩ := wellFormed.branches
      have final6 := final.of_grows (inExpr_keeps translated)
      have final5 := final6.of_grows (addBlock_keeps added2)
      have final4 := (final5.of_grows branch2.grows).of_grows (fresh_keeps _)
      have final3 := final4.of_grows (addBlock_keeps added1)
      have final2 := (final3.of_grows branch1.grows).of_grows (fresh_keeps _)
      have final1 := final2.of_grows (addBlock_keeps addedCont)
      exact .ifCont (code final1 wellFormed.tail stacked) (final2.block addedCont)
        (code1 final3 wellFormed1 (stacked.pushFinal _)) (final4.block added1)
        (code2 final5 wellFormed2 (stacked.pushFinal _)) (final6.block added2)
        (inExpr_translatesTo translated)
  | whileS cont addedCont body addedBody translated addedCond code codeBody =>
      have final5 := final.of_grows (addBlock_keeps addedCond)
      have final4 := final5.of_grows (inExpr_keeps translated)
      have final3 := final4.of_grows (addBlock_keeps addedBody)
      have final2 := final3.of_grows body.grows
      have final1 := final2.of_grows (addBlock_keeps addedCont)
      exact .whileS (code final1 wellFormed.tail stacked) (final2.block addedCont)
        (codeBody final3 ⟨wellFormed.head.distinct, wellFormed.head.gotos⟩ (.pushLoop _ _ _))
        (final4.block addedBody) (inExpr_translatesTo translated) (final.block addedCond)
  | doS cont addedCont body addedBody translated addedCond code codeBody =>
      have final5 := final.of_grows (addBlock_keeps addedCond)
      have final4 := final5.of_grows (inExpr_keeps translated)
      have final3 := final4.of_grows (addBlock_keeps addedBody)
      have final2 := final3.of_grows body.grows
      have final1 := final2.of_grows (addBlock_keeps addedCont)
      exact .doS (code final1 wellFormed.tail stacked) (final2.block addedCont)
        (codeBody final3 ⟨wellFormed.head.distinct, wellFormed.head.gotos⟩ (.pushLoop _ _ _))
        (final4.block addedBody) (inExpr_translatesTo translated) (final.block addedCond)
  | switch cont addedCont isInt body popped found isDefault addedLast translated code codeBody =>
      have distinctCases := wellFormed.distinct.1.1
      have final5 := final.of_grows (inExpr_keeps translated)
      have final4 := final5.of_grows (addBlock_keeps addedLast)
      obtain ⟨keeps, grows⟩ :=
        switch_keeps (σ := State.fresh (State.fresh _)) body.grows popped
      have final2 := ((final4.of_grows keeps).of_grows (fresh_keeps _)).of_grows (fresh_keeps _)
      have final1 := final2.of_grows (addBlock_keeps addedCont)
      simp only [casesOfList, List.append_nil, hasDefaultList, Bool.or_false] at grows
      obtain ⟨has, others, noDefault⟩ := switch_table distinctCases grows found isDefault
      obtain ⟨rest, top, rfl⟩ := popSwitch_eq_ok.mp popped
      have tableHas : TableHas (some _) _ := ⟨_, rest, top, has⟩
      exact .switch (code final1 wellFormed.tail stacked) (final2.block addedCont) isInt
        (codeBody ⟨final4.blocks, final4.locals, tableHas⟩ wellFormed.switchBody
          (stacked.pushSwitch _)) others
        noDefault (inExpr_translatesTo translated)
  | caseS registered body added filled code =>
      obtain ⟨switchTable, rfl, branch, final3⟩ := final.beforeCase registered
        (Keeps.after body.grows (addBlock_keeps added)) filled
      exact .caseS (code (final3.of_grows (addBlock_keeps added))
        ⟨wellFormed.distinct, wellFormed.gotos⟩ (stacked.pushFinalCase _)) (final3.block added)
        branch
  | default registered body added filled code =>
      obtain ⟨switchTable, rfl, isDefault, final3⟩ := final.beforeDefault registered
        (Keeps.after body.grows (addBlock_keeps added)) filled
      exact .default (code (final3.of_grows (addBlock_keeps added))
        ⟨wellFormed.distinct, wellFormed.gotos⟩ (stacked.pushFinalCase _)) (final3.block added)
        isDefault
  | label _ added code =>
      exact .label (code (final.of_grows (addBlock_keeps added))
        ⟨wellFormed.distinct, wellFormed.gotos⟩ stacked) (final.block added)
  | declaration _ declared code =>
      exact addDecls_code declared final (code (final.of_grows (addDecls_keeps declared))
        wellFormed.tail stacked)

end

end RefinedC.Frontend
