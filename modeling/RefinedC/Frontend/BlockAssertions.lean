import RefinedC.Frontend.FreshLabels
import RefinedC.Frontend.Lp64
import RefinedC.Frontend.SwitchLabels

/-!
Function bodies whose translation meets no assertion.

Source: `translate_block`, `k_gen` and `add_block` in `frontend/ail_to_coq.ml`.

Owns: the bodies that C allows and whose statements and expressions are supported,
and when their translation succeeds.
-/

namespace RefinedC.Frontend

open Library

/-! ## Bodies -/

/-- The translation succeeds whatever the local variables are. -/
def Translatable {α : Type} (ctx : Ctx) (m : Ctx → ExprM α) : Prop :=
  ∀ isLocal used, ∃ a used', m { ctx with isLocal := isLocal } used = .ok (a, used')

/-- Places in which a statement stands. -/
structure Place where
  /-- Variables of the enclosing blocks. -/
  scope : List (Sym × CType)
  canBreak : Bool
  canContinue : Bool
  inSwitch : Bool

def Place.block (p : Place) (bindings : List (Sym × CType)) : Place :=
  { p with scope := bindings ++ p.scope }

def Place.loop (p : Place) : Place := { p with canBreak := true, canContinue := true }

def Place.switch (p : Place) : Place := { p with canBreak := true, inSwitch := true }

/-- The initialised variables are in scope, with translatable initialisers. -/
def DeclsValid (ctx : Ctx) (scope : List (Sym × CType)) (ds : List (Sym × Option Expr)) : Prop :=
  ∀ d ∈ ds, ∀ e ∈ d.2, ∃ ty, (d.1, ty) ∈ scope ∧
    Translatable ctx fun ctx => translateInit ctx (symToStr d.1) ty e

mutual

/-- Jumps and cases stand where C allows them, the expressions are translatable, and
the statements are supported. -/
def Stmt.Valid (ctx : Ctx) (retTy : Option Coq.OpType) (p : Place) : Stmt → Prop
  | .skip | .returnVoid | .goto _ => True
  | .breakS => p.canBreak
  | .continueS => p.canContinue
  | .expr e => Translatable ctx fun ctx => translateExprStmt ctx e
  | .returnS e => Translatable ctx fun ctx => translateReturn ctx retTy e
  | .block bindings ss => Stmt.ValidList ctx retTy (p.block bindings) ss
  | .ifS e s1 s2 => (Translatable ctx fun ctx => translateCond ctx e) ∧
      s1.Valid ctx retTy p ∧ s2.Valid ctx retTy p
  | .whileS e s | .doS s e => (Translatable ctx fun ctx => translateCond ctx e) ∧
      s.Valid ctx retTy p.loop
  | .switch e s => (Translatable ctx fun ctx => translateExpr ctx false none e) ∧
      (opTypeOfExpr ctx e = .ok .bool ∨ ∃ it, opTypeOfExpr ctx e = .ok (.int it)) ∧
      s.Valid ctx retTy p.switch
  | .caseS _ s | .default s => p.inSwitch ∧ s.Valid ctx retTy p
  | .label _ s | .marker s => s.Valid ctx retTy p
  | .declaration ds => DeclsValid ctx p.scope ds
  | .caseRangeGNU _ _ _ | .par _ | .regStore _ _ => False

def Stmt.ValidList (ctx : Ctx) (retTy : Option Coq.OpType) (p : Place) : List Stmt → Prop
  | [] => True
  | s :: ss => s.Valid ctx retTy p ∧ Stmt.ValidList ctx retTy p ss

end

private theorem validList_append {ctx : Ctx} {retTy : Option Coq.OpType} {p : Place}
    {ss ss' : List Stmt} :
    Stmt.ValidList ctx retTy p (ss ++ ss') ↔
      Stmt.ValidList ctx retTy p ss ∧ Stmt.ValidList ctx retTy p ss' := by
  induction ss with
  | nil => simp [Stmt.ValidList]
  | cons s ss inductionHypothesis => simp [Stmt.ValidList, inductionHypothesis, and_assoc]

/-- More is in scope and allowed at `p'` than at `p`. -/
structure Place.Le (p p' : Place) : Prop where
  scope : p.scope ⊆ p'.scope
  canBreak : p.canBreak = true → p'.canBreak = true
  canContinue : p.canContinue = true → p'.canContinue = true
  inSwitch : p.inSwitch = true → p'.inSwitch = true

section

variable {ctx : Ctx} {retTy : Option Coq.OpType} {p p' : Place}

theorem Place.Le.block (le : p.Le p') (bindings : List (Sym × CType)) :
    (p.block bindings).Le (p'.block bindings) :=
  ⟨List.append_subset.mpr ⟨List.subset_append_left _ _,
    List.Subset.trans le.scope (List.subset_append_right _ _)⟩, le.canBreak, le.canContinue,
    le.inSwitch⟩

theorem Place.Le.loop (le : p.Le p') : p.loop.Le p'.loop := ⟨le.scope, id, id, le.inSwitch⟩

theorem Place.Le.switch (le : p.Le p') : p.switch.Le p'.switch :=
  ⟨le.scope, id, le.canContinue, id⟩

private theorem Place.le_block (p : Place) (bindings : List (Sym × CType)) :
    p.Le (p.block bindings) :=
  ⟨List.subset_append_right _ _, id, id, id⟩

mutual

theorem Stmt.Valid.mono : ∀ {s : Stmt} {p p' : Place}, p.Le p' → s.Valid ctx retTy p →
    s.Valid ctx retTy p'
  | .skip, _, _, _, _ | .returnVoid, _, _, _, _ | .goto _, _, _, _, _ => trivial
  | .breakS, _, _, le, valid => le.canBreak valid
  | .continueS, _, _, le, valid => le.canContinue valid
  | .expr _, _, _, _, valid | .returnS _, _, _, _, valid => valid
  | .block bindings _, _, _, le, valid => Stmt.ValidList.mono (le.block bindings) valid
  | .ifS _ _ _, _, _, le, ⟨cond, valid1, valid2⟩ => ⟨cond, valid1.mono le, valid2.mono le⟩
  | .whileS _ _, _, _, le, ⟨cond, valid⟩ | .doS _ _, _, _, le, ⟨cond, valid⟩ =>
      ⟨cond, valid.mono le.loop⟩
  | .switch _ _, _, _, le, ⟨cond, isInt, valid⟩ => ⟨cond, isInt, valid.mono le.switch⟩
  | .caseS _ _, _, _, le, ⟨inSwitch, valid⟩ | .default _, _, _, le, ⟨inSwitch, valid⟩ =>
      ⟨le.inSwitch inSwitch, valid.mono le⟩
  | .label _ s, _, _, le, valid => Stmt.Valid.mono (s := s) le valid
  | .marker s, _, _, le, valid => Stmt.Valid.mono (s := s) le valid
  | .declaration _, _, _, le, valid => fun d member e init =>
      have ⟨ty, inScope, translatable⟩ := valid d member e init
      ⟨ty, le.scope inScope, translatable⟩

theorem Stmt.ValidList.mono : ∀ {ss : List Stmt} {p p' : Place}, p.Le p' →
    Stmt.ValidList ctx retTy p ss → Stmt.ValidList ctx retTy p' ss
  | [], _, _, _, _ => trivial
  | _ :: _, _, _, le, ⟨head, tail⟩ => ⟨head.mono le, tail.mono le⟩

end

mutual

/-- Outside of switches there are no cases. -/
theorem Stmt.Valid.noLabels :
    ∀ {s : Stmt} {p : Place}, p.inSwitch = false → s.Valid ctx retTy p →
    earlyLabels s = [] ∧ lateLabels s = []
  | .block bindings ss, p, outside, valid => by
      have body : Stmt.ValidList ctx retTy (p.block bindings) ss := valid
      rw [earlyLabels, lateLabels]
      exact Stmt.ValidList.noLabels (p := p.block bindings) outside body
  | .ifS _ _ _, _, outside, ⟨_, valid1, valid2⟩ => by
      simp [earlyLabels, lateLabels, valid1.noLabels outside, valid2.noLabels outside]
  | .whileS _ _, p, outside, ⟨_, valid⟩ | .doS _ _, p, outside, ⟨_, valid⟩ => by
      have body := valid.noLabels (p := p.loop) outside
      simp [earlyLabels, lateLabels, body]
  | .label _ s, _, outside, valid => by
      rw [earlyLabels, lateLabels]
      exact Stmt.Valid.noLabels (s := s) outside valid
  | .caseS _ _, _, outside, ⟨inside, _⟩ | .default _, _, outside, ⟨inside, _⟩ => by
      rw [outside] at inside
      cases inside
  | .skip, _, _, _ | .expr _, _, _, _ | .breakS, _, _, _ | .continueS, _, _, _
  | .returnVoid, _, _, _ | .returnS _, _, _, _ | .switch _ _, _, _, _ | .goto _, _, _, _
  | .declaration _, _, _, _ | .marker _, _, _, _ => by simp [earlyLabels, lateLabels]

private theorem Stmt.ValidList.noLabels : ∀ {ss : List Stmt} {p : Place}, p.inSwitch = false →
    Stmt.ValidList ctx retTy p ss → earlyLabelsList ss = [] ∧ lateLabelsList ss = []
  | [], _, _, _ => ⟨rfl, rfl⟩
  | _ :: _, _, outside, ⟨head, tail⟩ => by
      simp [earlyLabelsList, lateLabelsList, head.noLabels outside, tail.noLabels outside]

end

end

/-! ## States in which a translation can start -/

/-- The searches through the continuation stack that can happen at a place succeed. -/
structure ExitsAt (p : Place) (ks : List KData) : Prop where
  final : ∃ t, kGen KData.kFinal (kPopCases ks) = .ok t
  breakS : p.canBreak = true → ∃ t, kGen KData.kBreak ks = .ok t
  continueS : p.canContinue = true → ∃ t, kGen KData.kContinue ks = .ok t

/-- The variables of a scope are stored with their types. -/
def Scoped (scope : List (Sym × CType)) (σ : State) : Prop :=
  ∀ b ∈ scope, ∃ isVar, σ.localVars.lookup (symToStr b.1) = some (isVar, b.2)

def declaredNames (bindings : List (Sym × CType)) : List String :=
  bindings.map fun b => symToStr b.1

/-- Labels without blocks, and names that are not taken. -/
structure Unused (labels names : List String) (σ : State) : Prop where
  distinctLabels : labels.Nodup
  notNames : NotNames labels
  absent : ∀ l ∈ labels, σ.blocks.lookup l = none
  distinctNames : names.Nodup
  notLocal : ∀ x ∈ names, σ.localVars.lookup x = none

/-- What statements add: cases in the order in which they are met, labels and variables. -/
structure Needs where
  cases : List SwitchLabel
  labels : List String
  names : List String

instance : Append Needs where
  append n n' := ⟨n.cases ++ n'.cases, n.labels ++ n'.labels, n.names ++ n'.names⟩

def needs (stmts : List Stmt) : Needs :=
  ⟨switchLabels stmts, labelsOfList stmts, declaredNames (bindingsOfList stmts)⟩

/-- The cases are met in the same order; the labels and variables are the same. -/
structure Needs.Perm (n n' : Needs) : Prop where
  cases : n.cases = n'.cases
  labels : n.labels.Perm n'.labels
  names : n.names.Perm n'.names

/-- A translation that adds `n` can start at a place. -/
structure Starts (p : Place) (n : Needs) (σ : State) : Prop where
  inScope : Scoped p.scope σ
  order : defaultLast σ.defaulted n.cases = true
  unused : Unused n.labels n.names σ
  ready : Ready σ

/-- What is known after the translation of the statements. -/
structure Stage (stmts : List Stmt) (σ σ' : State) : Prop where
  frames : Frames (labelsOfList stmts) σ σ'
  inserts : Inserts (bindingsOfList stmts) σ.localVars σ'.localVars
  grows : Grows (casesOfList stmts) (hasDefaultList stmts) σ σ'
  ready : Ready σ'

section

variable {s s1 s2 : Stmt} {e : Expr} {stmts : List Stmt}

private theorem needs_ifS : (needs (.ifS e s1 s2 :: stmts)).Perm
    (needs stmts ++ (needs [s1] ++ needs [s2])) := by
  have labels : labelsOfList (.ifS e s1 s2 :: stmts) =
      (labelsOfList [s1] ++ labelsOfList [s2]) ++ labelsOfList stmts := by
    simp [labelsOfList, labelsOf]
  have names : declaredNames (bindingsOfList (.ifS e s1 s2 :: stmts)) =
      (declaredNames (bindingsOfList [s1]) ++ declaredNames (bindingsOfList [s2])) ++
        declaredNames (bindingsOfList stmts) := by
    simp [declaredNames, bindingsOfList, bindingsOf]
  exact ⟨switchLabels_ifS, (List.Perm.of_eq labels).trans List.perm_append_comm,
    (List.Perm.of_eq names).trans List.perm_append_comm⟩

private theorem needs_block {bindings : List (Sym × CType)} {ss : List Stmt} :
    (needs (.block bindings ss :: stmts)).Perm
      (⟨[], [], declaredNames bindings⟩ ++ needs (ss ++ stmts)) := by
  have labels : labelsOfList (.block bindings ss :: stmts) = labelsOfList (ss ++ stmts) := by
    simp [labelsOfList, labelsOf]
  have names : declaredNames (bindingsOfList (.block bindings ss :: stmts)) =
      declaredNames bindings ++ declaredNames (bindingsOfList (ss ++ stmts)) := by
    simp [declaredNames, bindingsOfList, bindingsOf]
  exact ⟨switchLabels_block, .of_eq labels, .of_eq names⟩

/-- The cases of a switch are not met by the enclosing one. -/
theorem needs_switch : (needs (.switch e s :: stmts)).Perm
    (needs stmts ++ ⟨[], labelsOfList [s], declaredNames (bindingsOfList [s])⟩) := by
  have cases : switchLabels (.switch e s :: stmts) = switchLabels stmts ++ [] := by
    rw [switchLabels_plain rfl rfl, List.append_nil]
  have labels : labelsOfList (.switch e s :: stmts) = labelsOfList [s] ++ labelsOfList stmts := by
    simp [labelsOfList, labelsOf]
  have names : declaredNames (bindingsOfList (.switch e s :: stmts)) =
      declaredNames (bindingsOfList [s]) ++ declaredNames (bindingsOfList stmts) := by
    simp [declaredNames, bindingsOfList, bindingsOf]
  exact ⟨cases, (List.Perm.of_eq labels).trans List.perm_append_comm,
    (List.Perm.of_eq names).trans List.perm_append_comm⟩

private theorem needs_loop {loop : Stmt} (cases : switchLabels (loop :: stmts) =
      switchLabels stmts ++ switchLabels [s]) (labels : labelsOf loop = labelsOf s)
    (bindings : bindingsOf loop = bindingsOf s) :
    (needs (loop :: stmts)).Perm (needs stmts ++ needs [s]) := by
  refine ⟨cases, ?_, ?_⟩
  · have isSum : labelsOfList (loop :: stmts) = labelsOfList [s] ++ labelsOfList stmts := by
      simp [labelsOfList, labels]
    exact (List.Perm.of_eq isSum).trans List.perm_append_comm
  · have isSum : declaredNames (bindingsOfList (loop :: stmts)) =
        declaredNames (bindingsOfList [s]) ++ declaredNames (bindingsOfList stmts) := by
      simp [declaredNames, bindingsOfList, bindings]
    exact (List.Perm.of_eq isSum).trans List.perm_append_comm

end

section

variable {σ σ1 σ' : State} {labels labels' names names' : List String} {stmts : List Stmt}
  {bindings : List (Sym × CType)}

theorem Scoped.mono {scope : List (Sym × CType)} (inScope : Scoped scope σ)
    (keeps : ∀ id v, σ.localVars.lookup id = some v → σ'.localVars.lookup id = some v) :
    Scoped scope σ' := fun b member =>
  have ⟨isVar, found⟩ := inScope b member
  ⟨isVar, keeps _ _ found⟩

theorem Unused.mono (unused : Unused labels names σ) (subLabels : labels'.Sublist labels)
    (subNames : names'.Sublist names) : Unused labels' names' σ :=
  ⟨unused.distinctLabels.sublist subLabels, unused.notNames.mono subLabels.subset,
    fun l member => unused.absent l (subLabels.subset member),
      unused.distinctNames.sublist subNames,
    fun x member => unused.notLocal x (subNames.subset member)⟩

theorem Unused.perm (unused : Unused labels names σ) (permLabels : labels.Perm labels')
    (permNames : names.Perm names') : Unused labels' names' σ :=
  ⟨permLabels.nodup_iff.mp unused.distinctLabels, unused.notNames.mono permLabels.symm.subset,
    fun l member => unused.absent l (permLabels.mem_iff.mpr member),
    permNames.nodup_iff.mp unused.distinctNames,
    fun x member => unused.notLocal x (permNames.mem_iff.mpr member)⟩

/-- What is unused stays so while other labels and variables are added. -/
theorem Unused.after (unused : Unused (labels ++ labels') (declaredNames bindings ++ names') σ)
    (ready : Ready σ) (frames : Frames labels σ σ')
    (inserts : Inserts bindings σ.localVars σ'.localVars) : Unused labels' names' σ' := by
  obtain ⟨-, nodupLabels, otherLabels⟩ := List.nodup_append.mp unused.distinctLabels
  obtain ⟨-, nodupNames, otherNames⟩ := List.nodup_append.mp unused.distinctNames
  have notNames : NotNames labels' := unused.notNames.mono (List.subset_append_right _ _)
  refine ⟨nodupLabels, notNames, fun l member => ?_, nodupNames, fun x member => ?_⟩
  · have absent := unused.absent l (List.mem_append_right _ member)
    have spare := ready.spare_label (notNames l member) absent
    exact (spare.frames frames fun listed => otherLabels l listed l member rfl).absent
  · obtain ⟨⟨new, perm, same⟩, -⟩ := inserts
    have absent := unused.notLocal x (List.mem_append_right _ member)
    rw [lookup_eq_none_iff] at absent ⊢
    rw [same, List.map_append, List.mem_append, not_or]
    refine ⟨fun listed => ?_, absent⟩
    simp only [List.map_map, List.mem_map, Function.comp_apply] at listed
    obtain ⟨v, isNew, rfl⟩ := listed
    have declared : v.1 ∈ declaredNames bindings := by
      obtain ⟨b, isBinding, rfl⟩ := List.mem_map.mp (perm.mem_iff.mp isNew)
      exact List.mem_map.mpr ⟨b, isBinding, rfl⟩
    exact otherNames _ declared _ member rfl

theorem Starts.perm {p : Place} {n n' : Needs} (starts : Starts p n σ) (perm : n.Perm n') :
    Starts p n' σ :=
  ⟨starts.inScope, perm.cases ▸ starts.order, starts.unused.perm perm.labels perm.names,
    starts.ready⟩

theorem Starts.first {p : Place} {n n' : Needs} (starts : Starts p (n ++ n') σ) :
    Starts p n σ := by
  have order : defaultLast σ.defaulted (n.cases ++ n'.cases) = true := starts.order
  rw [defaultLast_append, Bool.and_eq_true] at order
  exact ⟨starts.inScope, order.1,
    starts.unused.mono (List.sublist_append_left _ _) (List.sublist_append_left _ _),
      starts.ready⟩

theorem Stage.defaulted (stage : Stage stmts σ σ') :
    σ'.defaulted = (σ.defaulted || decide (.default ∈ switchLabels stmts)) := by
  rw [stage.grows.defaulted]
  congr 1
  rw [Bool.eq_iff_iff, decide_eq_true_iff, default_mem_switchLabels]

/-- The rest can be translated after a first part. -/
theorem Starts.after {p : Place} {n : Needs} (starts : Starts p (needs stmts ++ n) σ)
    (stage : Stage stmts σ σ') : Starts p n σ' := by
  have order : defaultLast σ.defaulted (switchLabels stmts ++ n.cases) = true := starts.order
  rw [defaultLast_append, Bool.and_eq_true, ← stage.defaulted] at order
  exact ⟨starts.inScope.mono stage.grows.locals, order.2,
    starts.unused.after starts.ready stage.frames stage.inserts, stage.ready⟩

theorem Starts.allocate {p : Place} {n : Needs} {k : Nat} (starts : Starts p n σ)
    (grows : σ.blockId ≤ k) : Starts p n { σ with blockId := k } :=
  ⟨starts.inScope, starts.order, ⟨starts.unused.distinctLabels, starts.unused.notNames,
    starts.unused.absent, starts.unused.distinctNames, starts.unused.notLocal⟩,
    starts.ready.allocate grows⟩

end

/-! ## Operations that succeed -/

section

variable {ctx : Ctx} {σ : State}

private theorem inExpr_succeeds {α : Type} {m : Ctx → ExprM α}
    (translatable : Translatable ctx m)
    (σ : State) : ∃ a σ', inExpr ctx m σ = .ok (a, σ') := by
  obtain ⟨a, used, found⟩ := translatable σ.isLocal σ.used
  exact ⟨a, _, inExpr_eq_ok.mpr ⟨used, found, rfl⟩⟩

private theorem insertBindings_succeeds {bindings : List (Sym × CType)}
    (distinct : (declaredNames bindings).Nodup)
    (notLocal : ∀ x ∈ declaredNames bindings, σ.localVars.lookup x = none) :
    ∃ σ', insertBindings bindings σ = .ok ((), σ') ∧ Scoped bindings σ' := by
  induction bindings generalizing σ with
  | nil => exact ⟨σ, rfl, fun _ member => nomatch member⟩
  | cons b bindings inductionHypothesis =>
      obtain ⟨other, distinct⟩ := List.nodup_cons.mp distinct
      have absent := notLocal _ List.mem_cons_self
      obtain ⟨σ', run, inScope⟩ := inductionHypothesis
        (σ := { σ with localVars := (symToStr b.1, true, b.2) :: σ.localVars }) distinct
        fun x member => by
          have differs : (x == symToStr b.1) = false :=
            beq_false_of_ne fun same => other (by rw [same] at member; exact member)
          rw [List.lookup_cons, differs]
          exact notLocal x (List.mem_cons_of_mem _ member)
      refine ⟨σ',
        run_bind_eq_ok.mpr ⟨(), _, insertBinding_eq_ok.mpr ⟨absent, rfl⟩, run⟩, ?_⟩
      intro b' member
      rcases List.mem_cons.mp member with rfl | member
      · exact ⟨true, (insertBindings_keeps run).locals _ _ (by simp)⟩
      · exact inScope b' member

private theorem addDecls_succeeds {scope : List (Sym × CType)} {ds : List (Sym × Option Expr)}
    (valid : DeclsValid ctx scope ds) (inScope : Scoped scope σ) (t : Coq.Stmt) :
    ∃ t' σ', ds.foldrM (addDecl ctx) t σ = .ok (t', σ') := by
  induction ds with
  | nil => exact ⟨t, σ, rfl⟩
  | cons d ds inductionHypothesis =>
      obtain ⟨t1, σ1, rest⟩ := inductionHypothesis fun d' member =>
        valid d' (List.mem_cons_of_mem _ member)
      rw [List.foldrM_cons]
      obtain ⟨x, init⟩ := d
      cases init with
      | none => exact ⟨t1, σ1, run_bind_eq_ok.mpr ⟨t1, σ1, rest, rfl⟩⟩
      | some e =>
          obtain ⟨ty, isScoped, translatable⟩ := valid (x, some e) List.mem_cons_self e rfl
          obtain ⟨isVar, found⟩ := inScope _ isScoped
          obtain ⟨head, σ2, translated⟩ := inExpr_succeeds translatable σ1
          have foundType : findLocal (symToStr x) σ1 = .ok (ty, σ1) := by
            rw [findLocal, addDecls_localVars rest, found]
          exact ⟨_, σ2,
            run_bind_eq_ok.mpr
              ⟨t1, σ1, rest, run_bind_eq_ok.mpr
                ⟨ty, σ1, foundType, run_bind_eq_ok.mpr ⟨head, σ2, translated, rfl⟩⟩⟩⟩

private theorem switchType_succeeds {e : Expr} {it : Coq.IntType}
    (isInt : opTypeOfExpr ctx e = .ok (.int it)) : switchType ctx e = .ok it := by
  rw [switchType, isInt]
  rfl

private theorem caseBranches_succeeds (cases : List (Int × Coq.Stmt)) :
    caseBranches (cases.map fun c => (c.1, some c.2)) = .ok (cases.map Prod.snd) := by
  induction cases with
  | nil => rfl
  | cons c cases inductionHypothesis =>
      rw [caseBranches, List.map_cons, List.mapM_cons]
      rw [caseBranches] at inductionHypothesis
      rw [inductionHypothesis]
      rfl

/-- A switch without a default. -/
theorem exists_top (notMet : σ.defaulted = false) :
    ∃ data rest, σ.switches = data :: rest ∧ data.default.isSome = false := by
  unfold State.defaulted at notMet
  cases top : σ.switches with
  | nil => simp [top] at notMet
  | cons data rest =>
      rw [top] at notMet
      exact ⟨data, rest, rfl, notMet⟩

private theorem registerCase_succeeds (i : Int) (notMet : σ.defaulted = false) :
    ∃ ref curLabel nextLabel σ', registerCase i σ = .ok ((ref, curLabel, nextLabel), σ') := by
  obtain ⟨data, rest, top, noDefault⟩ := exists_top notMet
  have popped := popSwitch_eq_ok.mpr ⟨rest, top, rfl⟩
  refine ⟨data.cases.length, data.curLabel, data.nextLabel, { σ.fresh with switches :=
    ⟨data.cases ++ [(i, none)], data.nextLabel, blockName σ.blockId, none⟩ :: rest }, ?_⟩
  rw [registerCase]
  refine run_bind_eq_ok.mpr ⟨_, _, popped, ?_⟩
  rw [noDefault]
  rfl

private theorem registerDefault_succeeds (notMet : σ.defaulted = false) :
    ∃ curLabel nextLabel σ', registerDefault σ = .ok ((curLabel, nextLabel), σ') := by
  obtain ⟨data, rest, top, noDefault⟩ := exists_top notMet
  have popped := popSwitch_eq_ok.mpr ⟨rest, top, rfl⟩
  refine ⟨data.curLabel, data.nextLabel, { σ.fresh with switches :=
    ⟨data.cases, data.nextLabel, blockName σ.blockId, some none⟩ :: rest }, ?_⟩
  rw [registerDefault]
  refine run_bind_eq_ok.mpr ⟨_, _, popped, ?_⟩
  rw [noDefault]
  rfl

end

/-! ## Success of the translation -/

/-- The translation succeeds in every state in which it can start. -/
def TransSucceeds (ctx : Ctx) (retTy : Option Coq.OpType) (ks : List KData) (stmts : List Stmt) :
    Prop :=
  ∀ p σ, Stmt.ValidList ctx retTy p stmts → Stmt.AssertFreeList ctx stmts → ExitsAt p ks →
    Starts p (needs stmts) σ →
    ∃ t σ', Translates ctx retTy σ ks stmts t σ' ∧ Ready σ'

section

variable {ctx : Ctx} {retTy : Option Coq.OpType} {ks : List KData} {stmts : List Stmt}
  {s s1 s2 : Stmt} {e : Expr} {p : Place} {σ σ1 σ2 : State} {t : Coq.Stmt}

theorem ExitsAt.pushFinal (exits : ExitsAt p ks) (s : Coq.Stmt) : ExitsAt p (kPushFinal s ks) :=
  ⟨⟨s, rfl⟩, exits.breakS, exits.continueS⟩

theorem ExitsAt.pushFinalCase (exits : ExitsAt p ks) (s : Coq.Stmt) :
    ExitsAt p (kPushFinalCase s ks) :=
  ⟨exits.final, exits.breakS, exits.continueS⟩

theorem ExitsAt.loop (p : Place) (ks : List KData) (s s' : Coq.Stmt) :
    ExitsAt p.loop (⟨some s, some s', some s', false⟩ :: ks) :=
  ⟨⟨s', rfl⟩, fun _ => ⟨s, rfl⟩, fun _ => ⟨s', rfl⟩⟩

theorem ExitsAt.switch (exits : ExitsAt p ks) (s : Coq.Stmt) :
    ExitsAt p.switch (⟨some s, none, some s, false⟩ :: ks) :=
  ⟨⟨s, rfl⟩, fun _ => ⟨s, rfl⟩, exits.continueS⟩

private theorem Translates.stage (run : Translates ctx retTy σ ks stmts t σ1)
    (ready : Ready σ1) :
    Stage stmts σ σ1 :=
  ⟨run.frames, run.inserts, run.grows, ready⟩

/-- Adding a block for a name that was allocated before the translation. -/
theorem Stage.addName {n : Nat} {t : Coq.Stmt} (stage : Stage stmts σ σ1)
    (fresh : σ.blockId ≤ n)
    (spare : Spare (blockName n) σ1) (added : addBlock (blockName n) t σ1 = .ok ((), σ2)) :
    Stage stmts σ σ2 :=
  ⟨stage.frames.addName fresh added, stage.inserts.after (addBlock_localVars added),
    Keeps.after stage.grows (addBlock_keeps added), stage.ready.addBlock spare.avoids added⟩

theorem Stage.fresh (stage : Stage stmts σ.fresh σ1) : Stage stmts σ σ1 :=
  ⟨(fresh_frames σ).before stage.frames, stage.inserts, (fresh_keeps σ).trans stage.grows,
    stage.ready⟩

/-- Statements are translated and become a new block. -/
theorem TransSucceeds.block (succeeds : TransSucceeds ctx retTy ks stmts)
    (valid : Stmt.ValidList ctx retTy p stmts) (free : Stmt.AssertFreeList ctx stmts)
    (exits : ExitsAt p ks) (starts : Starts p (needs stmts) σ) :
    ∃ t σ1 σ2, Translates ctx retTy σ.fresh ks stmts t σ1 ∧
      addBlock (blockName σ.blockId) t σ1 = .ok ((), σ2) ∧ Stage stmts σ σ2 := by
  obtain ⟨t, σ1, run, ready1⟩ := succeeds p σ.fresh valid free exits
    (starts.allocate (Nat.le_succ _))
  have spare := starts.ready.spare_after (Nat.le_refl _) (Nat.lt_succ_self _)
    starts.unused.notNames run
  obtain ⟨σ2, added⟩ := spare.addBlock (s := t)
  exact ⟨t, σ1, σ2, run, added, (run.stage ready1).fresh.addName (Nat.le_refl _) spare added⟩

theorem TransSucceeds.ifLast (first : TransSucceeds ctx retTy ks [s1])
    (second : TransSucceeds ctx retTy ks [s2]) :
    TransSucceeds ctx retTy ks [.ifS e s1 s2] := by
  rintro p σ ⟨⟨cond, valid1, valid2⟩, -⟩ ⟨⟨free1, free2⟩, -⟩ exits starts
  have starts : Starts p (needs [s1] ++ needs [s2]) σ := starts.perm needs_ifS
  obtain ⟨t1, σ1, σ2, run1, added1, stage1⟩ :=
    first.block ⟨valid1, trivial⟩ ⟨free1, trivial⟩ exits starts.first
  obtain ⟨t2, σ3, σ4, run2, added2, stage2⟩ :=
    second.block ⟨valid2, trivial⟩ ⟨free2, trivial⟩ exits (starts.after stage1)
  obtain ⟨⟨ot, e'⟩, σ5, translated⟩ := inExpr_succeeds cond σ4
  exact ⟨_, σ5, .ifLast run1 added1 run2 added2 translated, stage2.ready.inExpr translated⟩

theorem TransSucceeds.ifCont (someStmts : stmts ≠ []) (rest : TransSucceeds ctx retTy ks stmts)
    (first : ∀ k, TransSucceeds ctx retTy (kPushFinal k ks) [s1])
    (second : ∀ k, TransSucceeds ctx retTy (kPushFinal k ks) [s2]) :
    TransSucceeds ctx retTy ks (.ifS e s1 s2 :: stmts) := by
  rintro p σ ⟨⟨cond, valid1, valid2⟩, valid⟩ ⟨⟨free1, free2⟩, free⟩ exits starts
  have starts := starts.perm needs_ifS
  obtain ⟨tc, σ1, σ2, runCont, addedCont, stageCont⟩ :=
    rest.block valid free exits starts.first
  have exitsCont := exits.pushFinal (.goto (blockName σ.blockId))
  have starts1 := starts.after stageCont
  obtain ⟨t1, σ3, σ4, run1, added1, stage1⟩ :=
    (first _).block ⟨valid1, trivial⟩ ⟨free1, trivial⟩ exitsCont starts1.first
  obtain ⟨t2, σ5, σ6, run2, added2, stage2⟩ :=
    (second _).block ⟨valid2, trivial⟩ ⟨free2, trivial⟩ exitsCont (starts1.after stage1)
  obtain ⟨⟨ot, e'⟩, σ7, translated⟩ := inExpr_succeeds cond σ6
  exact ⟨_, σ7, .ifCont someStmts runCont addedCont run1 added1 run2 added2 translated,
    stage2.ready.inExpr translated⟩

/-- The continuation, the body and the condition of a loop become blocks. -/
theorem TransSucceeds.loop (rest : TransSucceeds ctx retTy ks stmts) {k : KData}
    (body : TransSucceeds ctx retTy (k :: ks) [s]) (exitsBody : ExitsAt p.loop (k :: ks))
    (cond : Translatable ctx fun ctx => translateCond ctx e)
    (valid : Stmt.ValidList ctx retTy p stmts) (validBody : s.Valid ctx retTy p.loop)
    (free : Stmt.AssertFreeList ctx stmts) (freeBody : s.AssertFree ctx) (exits : ExitsAt p ks)
    (starts : Starts p (needs stmts ++ needs [s]) σ) :
    ∃ tc tb ot e' σ1 σ2 σ3 σ4 σ5 σ', Translates ctx retTy
      σ.fresh.fresh.fresh ks stmts tc σ1 ∧
      addBlock (blockName (σ.blockId + 2)) tc σ1 = .ok ((), σ2) ∧
      Translates ctx retTy σ2 (k :: ks) [s] tb σ3 ∧
      addBlock (blockName (σ.blockId + 1)) tb σ3 = .ok ((), σ4) ∧
      inExpr ctx (fun ctx => translateCond ctx e) σ4 = .ok ((ot, e'), σ5) ∧
      addBlock (blockName σ.blockId) (.ifS ot none e' (.goto (blockName (σ.blockId + 1)))
        (.goto (blockName (σ.blockId + 2)))) σ5 = .ok ((), σ') ∧ Ready σ' := by
  have startsCont := starts.allocate (k := σ.blockId + 3) (Nat.le_add_right _ 3)
  obtain ⟨tc, σ1, runCont, ready1⟩ :=
    rest p σ.fresh.fresh.fresh valid free exits startsCont.first
  have spare1 {n : Nat} (notBefore : σ.blockId ≤ n) (allocated : n < σ.blockId + 3) :
      Spare (blockName n) σ1 :=
    starts.ready.spare_after notBefore allocated starts.first.unused.notNames runCont
  have spareCont := spare1 (Nat.le_add_right _ 2) (Nat.lt_succ_self _)
  obtain ⟨σ2, addedCont⟩ := spareCont.addBlock (s := tc)
  have stage : Stage stmts σ σ2 :=
    (runCont.stage ready1).fresh.fresh.fresh.addName (Nat.le_add_right _ 2) spareCont addedCont
  have startsBody := starts.after stage
  obtain ⟨tb, σ3, runBody, ready3⟩ :=
    body p.loop σ2 ⟨validBody, trivial⟩ ⟨freeBody, trivial⟩
      exitsBody ⟨startsBody.inScope, startsBody.order, startsBody.unused, startsBody.ready⟩
  have spare3 {n : Nat} (notBefore : σ.blockId ≤ n) (allocated : n < σ.blockId + 2) :
      Spare (blockName n) σ3 := by
    have differ : blockName n ≠ blockName (σ.blockId + 2) :=
      fun same => absurd (blockName_inj same) (Nat.ne_of_lt allocated)
    exact ((spare1 notBefore (Nat.lt_succ_of_lt allocated)).other differ addedCont).frames
      runBody.frames (startsBody.unused.notNames.blockName_not_mem n)
  have spareBody := spare3 (Nat.le_add_right _ 1) (Nat.lt_succ_self _)
  obtain ⟨σ4, addedBody⟩ := spareBody.addBlock (s := tb)
  obtain ⟨⟨ot, e'⟩, σ5, translated⟩ := inExpr_succeeds cond σ4
  have spareCond : Spare (blockName σ.blockId) σ5 := by
    have differ : blockName σ.blockId ≠ blockName (σ.blockId + 1) :=
      fun same => absurd (blockName_inj same) (Nat.ne_of_lt (Nat.lt_succ_self _))
    exact ((spare3 (Nat.le_refl _) (Nat.lt_add_of_pos_right Nat.two_pos)).other differ
      addedBody).frames (inExpr_frames translated) List.not_mem_nil
  obtain ⟨σ6, addedCond⟩ := spareCond.addBlock
  exact ⟨tc, tb, ot, e', σ1, σ2, σ3, σ4, σ5, σ6, runCont, addedCont, runBody, addedBody,
    translated, addedCond, ((ready3.addBlock spareBody.avoids addedBody).inExpr translated).addBlock
      spareCond.avoids addedCond⟩

theorem TransSucceeds.whileS (rest : TransSucceeds ctx retTy ks stmts)
    (body : ∀ idCond idCont, TransSucceeds ctx retTy
      (⟨some (.goto idCont), some (.goto idCond), some (.goto idCond), false⟩ :: ks) [s]) :
    TransSucceeds ctx retTy ks (.whileS e s :: stmts) := by
  rintro p σ ⟨⟨cond, validBody⟩, valid⟩ ⟨freeBody, free⟩ exits starts
  obtain ⟨tc, tb, ot, e', σ1, σ2, σ3, σ4, σ5, σ6, runCont, addedCont, runBody, addedBody,
      translated, addedCond, ready⟩ :=
    rest.loop (body _ _) (.loop p ks _ _) cond valid validBody free freeBody exits
      (starts.perm (needs_loop switchLabels_whileS rfl rfl))
  exact ⟨_, σ6, .whileS runCont addedCont runBody addedBody translated addedCond, ready⟩

theorem TransSucceeds.doS (rest : TransSucceeds ctx retTy ks stmts)
    (body : ∀ idCond idCont, TransSucceeds ctx retTy
      (⟨some (.goto idCont), some (.goto idCond), some (.goto idCond), false⟩ :: ks) [s]) :
    TransSucceeds ctx retTy ks (.doS s e :: stmts) := by
  rintro p σ ⟨⟨cond, validBody⟩, valid⟩ ⟨freeBody, free⟩ exits starts
  obtain ⟨tc, tb, ot, e', σ1, σ2, σ3, σ4, σ5, σ6, runCont, addedCont, runBody, addedBody,
      translated, addedCond, ready⟩ :=
    rest.loop (body _ _) (.loop p ks _ _) cond valid validBody free freeBody exits
      (starts.perm (needs_loop switchLabels_doS rfl rfl))
  exact ⟨_, σ6, .doS runCont addedCont runBody addedBody translated addedCond, ready⟩

/-- State in which the body of a switch is translated. -/
def State.enterSwitch (σ : State) : State :=
  { σ.fresh.fresh with switches :=
      ⟨[], blockName σ.blockId, blockName (σ.blockId + 1), none⟩ :: σ.switches }

/-- After the body of a switch all its cases and its default have been filled. -/
theorem SwitchData.Grows.filled {data0 data : SwitchData} {cases : List Int} {default : Bool}
    (grows : data0.Grows cases default data) (noCases : data0.cases = [])
    (noDefault : data0.default = none) (k : Coq.Stmt) :
    (∃ branches, caseBranches data.cases = .ok branches) ∧
      ∃ t, defaultBranch k data.default = .ok t := by
  obtain ⟨⟨new, isNew, -⟩, defaults⟩ := grows
  refine ⟨⟨new.map Prod.snd, ?_⟩, ?_⟩
  · rw [isNew, noCases]
    exact caseBranches_succeeds new
  · cases default with
    | true =>
        obtain ⟨-, s, isSome⟩ := defaults
        exact ⟨s, by rw [isSome, defaultBranch]⟩
    | false =>
        have same : data.default = data0.default := defaults
        exact ⟨k, by rw [same, noDefault, defaultBranch]⟩

theorem TransSucceeds.switch (rest : TransSucceeds ctx retTy ks stmts)
    (body : ∀ idCont, TransSucceeds ctx retTy
      (⟨some (.goto idCont), none, some (.goto idCont), false⟩ :: ks) [s]) :
    TransSucceeds ctx retTy ks (.switch e s :: stmts) := by
  rintro p σ ⟨⟨translatable, intOrBool, validBody⟩, valid⟩
    ⟨⟨last, notBool, freeBody⟩, free⟩ exits
    starts
  obtain ⟨it, isInt⟩ := intOrBool.resolve_left notBool
  obtain ⟨tc, σ1, σ2, runCont, addedCont, stage⟩ :=
    rest.block valid free exits (starts.perm needs_switch).first
  have starts2 := (starts.perm needs_switch).after stage
  have order : defaultLast σ2.enterSwitch.defaulted (switchLabels [s]) = true :=
    (defaultLast_iff _).mpr last
  have readyBody : Ready σ2.enterSwitch := starts2.ready.pushSwitch ⟨rfl, rfl⟩
  obtain ⟨tb, σ3, runBody, ready3⟩ := body _ p.switch σ2.enterSwitch ⟨validBody, trivial⟩
    ⟨freeBody, trivial⟩ (exits.switch (.goto (blockName σ.blockId))) ⟨starts2.inScope, order,
      ⟨starts2.unused.distinctLabels, starts2.unused.notNames, starts2.unused.absent,
        starts2.unused.distinctNames, starts2.unused.notLocal⟩, readyBody⟩
  obtain ⟨data, top, grows⟩ : SwitchesGrow _ _ (_ :: σ2.switches) σ3.switches :=
    runBody.grows.switches
  have popped := popSwitch_eq_ok.mpr ⟨_, top, rfl⟩
  obtain ⟨ready4, spareLast⟩ := starts2.ready.popSwitch ⟨rfl, rfl⟩ starts2.unused.notNames
    runBody.frames runBody.grows ready3 popped
  obtain ⟨⟨branches, found⟩, default, isDefault⟩ :=
    grows.filled rfl rfl (.goto (blockName σ.blockId))
  obtain ⟨σ5, addedLast⟩ := spareLast.addBlock (s := .goto (blockName σ.blockId))
  obtain ⟨e', σ6, translated⟩ := inExpr_succeeds translatable σ5
  exact ⟨_, σ6, .switch runCont addedCont (switchType_succeeds isInt) runBody
    popped found isDefault
    addedLast translated, (ready4.addBlock spareLast.avoids addedLast).inExpr translated⟩

/-- The body of a registered label becomes a block. -/
theorem TransSucceeds.registered {data data' : SwitchData} {rest : List SwitchData}
    (body : TransSucceeds ctx retTy ks stmts) (valid : Stmt.ValidList ctx retTy p stmts)
    (free : Stmt.AssertFreeList ctx stmts) (exits : ExitsAt p ks) (inScope : Scoped p.scope σ)
    (unused : Unused (labelsOfList stmts) (declaredNames (bindingsOfList stmts)) σ)
    (ready : Ready σ) (top : σ.switches = data :: rest) (isCur : data'.curLabel = data.nextLabel)
    (isNext : data'.nextLabel = blockName σ.blockId)
    (order : defaultLast data'.default.isSome (switchLabels stmts) = true) :
    ∃ t σ2 σ3,
      Translates ctx retTy { σ.fresh with switches := data' :: rest } ks stmts t σ2 ∧
      addBlock data.curLabel t σ2 = .ok ((), σ3) ∧ Ready σ3 ∧
      ∃ data3 rest3, σ3.switches = data3 :: rest3 := by
  obtain ⟨ready1, spare1⟩ := ready.registered top isCur isNext
  obtain ⟨t, σ2, run, ready2⟩ :=
    body p { σ.fresh with switches := data' :: rest } valid free exits
      ⟨inScope, order, ⟨unused.distinctLabels, unused.notNames, unused.absent,
        unused.distinctNames, unused.notLocal⟩, ready1⟩
  have other : data.curLabel ∉ labelsOfList stmts := by
    obtain ⟨cur, -, isName, -⟩ := ready.top data (by rw [top]; rfl)
    rw [isName]
    exact unused.notNames.blockName_not_mem cur
  have spare2 := spare1.frames run.frames other
  obtain ⟨data2, top2, -⟩ := run.grows.switches
  exact ⟨t, σ2, _, run, addBlock_eq_ok.mpr ⟨spare2.absent, rfl⟩,
    ready2.addBlock spare2.avoids (addBlock_eq_ok.mpr ⟨spare2.absent, rfl⟩),
      data2, rest, top2⟩

theorem TransSucceeds.caseS {i : Int}
    (body : ∀ nextLabel, TransSucceeds ctx retTy (kPushFinalCase (.goto nextLabel) ks)
      (s :: stmts)) :
    TransSucceeds ctx retTy ks (.caseS i s :: stmts) := by
  rintro p σ ⟨⟨-, validBody⟩, valid⟩ free exits starts
  have order : defaultLast σ.defaulted (switchLabels (.caseS i s :: stmts)) = true := starts.order
  rw [switchLabels_caseS] at order
  cases notMet : σ.defaulted with
  | true => simp [notMet, defaultLast] at order
  | false =>
      rw [notMet] at order
      obtain ⟨ref, curLabel, nextLabel, σ1, registered⟩ := registerCase_succeeds i notMet
      obtain ⟨data, rest, top, -, rfl, rfl, rfl, rfl⟩ := registerCase_eq_ok registered
      obtain ⟨t, σ2, σ3, run, added, ready3, data3, rest3, top3⟩ :=
        (body data.nextLabel).registered ⟨validBody, valid⟩ free
          (exits.pushFinalCase (.goto data.nextLabel)) starts.inScope starts.unused starts.ready top
          (show SwitchData.curLabel ⟨data.cases ++ [(i, none)], _, _, none⟩ = _ from rfl) rfl
            order
      have filled : setCase data.cases.length (.goto data.curLabel) σ3 = .ok ((), _) :=
        setCase_eq_ok.mpr ⟨data3, rest3, top3, rfl⟩
      exact ⟨_, _, .caseS registered run added filled, ready3.setCase filled⟩

theorem TransSucceeds.default
    (body : ∀ nextLabel, TransSucceeds ctx retTy (kPushFinalCase (.goto nextLabel) ks)
      (s :: stmts)) :
    TransSucceeds ctx retTy ks (.default s :: stmts) := by
  rintro p σ ⟨⟨-, validBody⟩, valid⟩ free exits starts
  have order : defaultLast σ.defaulted (switchLabels (.default s :: stmts)) = true := starts.order
  rw [switchLabels_default] at order
  cases notMet : σ.defaulted with
  | true => simp [notMet, defaultLast] at order
  | false =>
      rw [notMet] at order
      obtain ⟨curLabel, nextLabel, σ1, registered⟩ := registerDefault_succeeds notMet
      obtain ⟨data, rest, top, -, rfl, rfl, rfl⟩ := registerDefault_eq_ok registered
      obtain ⟨t, σ2, σ3, run, added, ready3, data3, rest3, top3⟩ :=
        (body data.nextLabel).registered ⟨validBody, valid⟩ free
          (exits.pushFinalCase (.goto data.nextLabel)) starts.inScope starts.unused starts.ready top
          (show SwitchData.curLabel ⟨data.cases, _, _, some none⟩ = _ from rfl) rfl order
      have filled : setDefault (.goto data.curLabel) σ3 = .ok ((), _) :=
        setDefault_eq_ok.mpr ⟨data3, rest3, top3, rfl⟩
      exact ⟨_, _, .default registered run added filled, ready3.setDefault filled⟩

theorem TransSucceeds.label {l : Sym} (body : TransSucceeds ctx retTy ks (s :: stmts)) :
    TransSucceeds ctx retTy ks (.label l s :: stmts) := by
  intro p σ valid free exits starts
  have unused : Unused (symToStr l :: labelsOfList (s :: stmts))
    (declaredNames (bindingsOfList (s :: stmts))) σ := starts.unused
  obtain ⟨other, -⟩ := List.nodup_cons.mp unused.distinctLabels
  have spare := starts.ready.spare_label (unused.notNames _ List.mem_cons_self)
    (unused.absent _ List.mem_cons_self)
  have order : defaultLast σ.defaulted (switchLabels (.label l s :: stmts)) = true := starts.order
  rw [switchLabels_label] at order
  obtain ⟨t, σ1, run, ready1⟩ := body p σ ⟨valid.1, valid.2⟩ ⟨free.1, free.2⟩ exits
    ⟨starts.inScope, order, unused.mono (List.sublist_cons_self _ _) (List.Sublist.refl _),
      starts.ready⟩
  have spare1 := spare.frames run.frames other
  obtain ⟨σ2, added⟩ := spare1.addBlock (s := t)
  exact ⟨_, σ2, .label run added, ready1.addBlock spare1.avoids added⟩

private theorem TransSucceeds.blockS {ss : List Stmt} {bindings : List (Sym × CType)}
    (body : TransSucceeds ctx retTy ks (ss ++ stmts)) :
    TransSucceeds ctx retTy ks (.block bindings ss :: stmts) := by
  rintro p σ ⟨validBody, valid⟩ free exits starts
  have starts := starts.perm needs_block
  have unused := starts.unused
  obtain ⟨σ1, inserted, inScope⟩ := insertBindings_succeeds
    (unused.distinctNames.sublist (List.sublist_append_left _ _))
    fun x member => unused.notLocal x (List.mem_append_left _ member)
  have frames := insertBindings_frames inserted
  have ready1 := starts.ready.insertBindings inserted
  have keeps := insertBindings_keeps inserted
  have scope1 : Scoped (p.block bindings).scope σ1 := fun b member =>
    (List.mem_append.mp member).elim (inScope b) (starts.inScope.mono keeps.locals b)
  have unused1 : Unused ([] ++ _) (declaredNames bindings ++ _) σ := unused
  obtain ⟨t, σ2, run, ready2⟩ := body (p.block bindings) σ1
    (validList_append.mpr ⟨validBody, valid.mono (p.le_block bindings)⟩)
    (assertFreeList_append.mpr free) ⟨exits.final, exits.breakS, exits.continueS⟩
    ⟨scope1, keeps.defaulted ▸ starts.order,
      unused1.after starts.ready frames (insertBindings_inserts inserted), ready1⟩
  exact ⟨t, σ2, .block inserted run, ready2⟩

theorem Starts.plain (starts : Starts p (needs (s :: stmts)) σ) (early : earlyLabels s = [])
    (late : lateLabels s = []) (labels : labelsOf s = []) (bindings : bindingsOf s = []) :
    Starts p (needs stmts) σ := by
  refine starts.perm ⟨switchLabels_plain early late, .of_eq ?_, .of_eq ?_⟩
  · simp [needs, labelsOfList, labels]
  · simp [needs, bindingsOfList, bindings]

private theorem succeeds (ctx : Ctx) (retTy : Option Coq.OpType) (ks : List KData)
    (stmts : List Stmt) :
    TransSucceeds ctx retTy ks stmts := by
  induction ks, stmts using trans.induct ctx retTy with
  | case1 ks =>
      intro p σ valid free exits starts
      obtain ⟨t, found⟩ := exits.final
      exact ⟨t, σ, .nil found, starts.ready⟩
  | case2 ks bindings ss stmts body => exact body.blockS
  | case3 ks l stmts rest =>
      intro p σ valid free exits starts
      obtain ⟨t, σ1, run, ready⟩ :=
        rest p σ valid.2 free.2 exits (starts.plain rfl rfl rfl rfl)
      exact ⟨_, σ1, .goto run, ready⟩
  | case4 ks stmts rest =>
      intro p σ valid free exits starts
      obtain ⟨t, σ1, run, ready⟩ :=
        rest p σ valid.2 free.2 exits (starts.plain rfl rfl rfl rfl)
      exact ⟨_, σ1, .returnVoid run, ready⟩
  | case5 ks stmts rest =>
      intro p σ valid free exits starts
      obtain ⟨t, σ1, run, ready⟩ :=
        rest p σ valid.2 free.2 exits (starts.plain rfl rfl rfl rfl)
      obtain ⟨t', found⟩ := exits.breakS valid.1
      exact ⟨t', σ1, .breakS run found, ready⟩
  | case6 ks stmts rest =>
      intro p σ valid free exits starts
      obtain ⟨t, σ1, run, ready⟩ :=
        rest p σ valid.2 free.2 exits (starts.plain rfl rfl rfl rfl)
      obtain ⟨t', found⟩ := exits.continueS valid.1
      exact ⟨t', σ1, .continueS run found, ready⟩
  | case7 ks e stmts rest =>
      intro p σ valid free exits starts
      obtain ⟨t, σ1, run, ready⟩ :=
        rest p σ valid.2 free.2 exits (starts.plain rfl rfl rfl rfl)
      obtain ⟨e', σ2, translated⟩ := inExpr_succeeds valid.1 σ1
      exact ⟨_, σ2, .returnS run translated, ready.inExpr translated⟩
  | case8 ks stmts rest =>
      intro p σ valid free exits starts
      obtain ⟨t, σ1, run, ready⟩ :=
        rest p σ valid.2 free.2 exits (starts.plain rfl rfl rfl rfl)
      exact ⟨t, σ1, .skip run, ready⟩
  | case9 ks e stmts rest =>
      intro p σ valid free exits starts
      obtain ⟨t, σ1, run, ready⟩ :=
        rest p σ valid.2 free.2 exits (starts.plain rfl rfl rfl rfl)
      obtain ⟨head, σ2, translated⟩ := inExpr_succeeds valid.1 σ1
      exact ⟨_, σ2, .expr run translated, ready.inExpr translated⟩
  | case10 ks e s1 s2 stmts empty first second =>
      have noStmts : stmts = [] := List.isEmpty_iff.mp empty
      subst noStmts
      exact (first ks).ifLast (second ks)
  | case11 ks e s1 s2 stmts nonempty first second rest =>
      have someStmts : stmts ≠ [] := fun none => nonempty (List.isEmpty_iff.mpr none)
      exact .ifCont someStmts rest (fun k => first _) fun k => second _
  | case12 ks e s stmts rest body => exact rest.whileS body
  | case13 ks s e stmts rest body => exact rest.doS body
  | case14 ks e s stmts rest body => exact rest.switch body
  | case15 ks i s stmts body => exact .caseS body
  | case16 ks low high s stmts =>
      intro p σ valid
      exact valid.1.elim
  | case17 ks s stmts body => exact .default body
  | case18 ks l s stmts body => exact body.label
  | case19 ks ds stmts rest =>
      intro p σ valid free exits starts
      obtain ⟨t, σ1, run, ready⟩ :=
        rest p σ valid.2 free.2 exits (starts.plain rfl rfl rfl rfl)
      have scope1 := starts.inScope.mono run.grows.locals
      obtain ⟨t', σ2, declared⟩ := addDecls_succeeds valid.1 scope1 t
      obtain ⟨used, rfl⟩ := addDecls_others declared
      exact ⟨t', _, .declaration run declared, ready.of_same rfl rfl rfl⟩
  | case20 ks ss stmts =>
      intro p σ valid
      exact valid.1.elim
  | case21 ks r e stmts =>
      intro p σ valid
      exact valid.1.elim
  | case22 ks s stmts =>
      intro p σ valid free
      exact free.1.elim

end

/-! ## Function bodies -/

/-- A body as C allows it: jumps and cases stand where they can, labels are distinct
identifiers, and initialised variables are in scope. The variables in `scope` belong to the
function; the names of the other ones are not taken. -/
structure ValidBody (ctx : Ctx) (retTy : Option Coq.OpType)
    (scope : List (Sym × CType)) (σ : State) (stmts : List Stmt) : Prop where
  noBlocks : σ.blocks = []
  noSwitches : σ.switches = []
  inScope : Scoped scope σ
  valid : Stmt.ValidList ctx retTy ⟨scope, false, false, false⟩ stmts
  distinctLabels : (labelsOfList stmts).Nodup
  identifiers : ∀ l ∈ labelsOfList stmts, '#' ∉ l.toList
  distinctNames : (declaredNames (bindingsOfList stmts)).Nodup
  notTaken : ∀ x ∈ declaredNames (bindingsOfList stmts), σ.isLocal x = false

section

variable {ctx : Ctx} {retTy : Option Coq.OpType} {scope : List (Sym × CType)} {σ : State}
  {stmts : List Stmt} (body : ValidBody ctx retTy scope σ stmts)

include body

theorem ValidBody.ready : Ready σ := by
  refine ⟨fun n _ => ?_, fun data isTop => ?_⟩
  · rw [body.noBlocks]
    rfl
  · rw [body.noSwitches] at isTop
    cases isTop

theorem ValidBody.unused :
    Unused (labelsOfList stmts) (declaredNames (bindingsOfList stmts)) σ where
  distinctLabels := body.distinctLabels
  notNames l member n same := by
    refine body.identifiers l member ?_
    rw [same, blockName, String.toList_append]
    exact List.mem_append_left _ (List.mem_singleton_self _)
  absent l _ := by
    rw [body.noBlocks]
    rfl
  distinctNames := body.distinctNames
  notLocal x member := by
    have notTaken := body.notTaken x member
    rwa [State.isLocal, Option.isSome_eq_false_iff, Option.isNone_iff_eq_none] at notTaken

theorem ValidBody.starts : Starts ⟨scope, false, false, false⟩ (needs stmts) σ := by
  have none : switchLabels stmts = [] := by
    have ⟨early, late⟩ := body.valid.noLabels rfl
    rw [switchLabels, early, late]
    rfl
  have order : defaultLast σ.defaulted (switchLabels stmts) = true := by
    rw [none]
    cases σ.defaulted <;> rfl
  exact ⟨body.inScope, order, body.unused, body.ready⟩

/-- The body of a function is translated exactly if no label of a switch is met after its
default, and no switch is on a boolean. -/
theorem translateBlock_succeeds_iff (isMain : Bool) :
    (∃ t σ', translateBlock ctx stmts retTy isMain σ = .ok (t, σ')) ↔
      Stmt.AssertFreeList ctx stmts := by
  constructor
  · rintro ⟨t, σ', run⟩
    exact (trans_translates run).assertFree
  · intro free
    obtain ⟨t, σ', run, -⟩ :=
      succeeds ctx retTy (kInit retTy isMain) stmts _ σ body.valid free
        ⟨⟨_, rfl⟩, nofun, nofun⟩ body.starts
    exact ⟨t, σ', run.trans⟩

end

/-- The constant `1`. -/
def intOne : Expr :=
  .annotated (.rvalue (.integer (.signed .int))) (.const (.integer (.iConstant 1)))

private theorem translate_intOne (goal : Option Coq.OpType) :
    Translatable (lp64Ctx [] []) fun ctx => translateExpr ctx false goal intOne :=
  fun _ used => ⟨castTo goal (.val (.int "1" (.i32 true)), some (.int (.i32 true))), used, rfl⟩

private theorem translateCond_intOne :
    Translatable (lp64Ctx [] []) fun ctx => translateCond ctx intOne :=
  fun _ _ => ⟨_, _, rfl⟩

/-- `{ int y = 1; while (1) switch (1) { case 1: if (1) break; case 2: continue;
default: goto end; } } end: return 1;` -/
def nestedBody : List Stmt :=
  [.block [(⟨0, "y"⟩, .integer (.signed .int))] [.declaration [(⟨0, "y"⟩, some intOne)],
      .whileS intOne
        (.switch intOne (.block [] [.caseS 1 (.ifS intOne .breakS .skip), .caseS 2 .continueS,
        .default (.goto ⟨1, "end"⟩)]))],
    .label ⟨1, "end"⟩ (.returnS intOne)]

/-- `switch (1) { default: ; case 1: ; }` -/
def defaultFirst : List Stmt :=
  [.switch intOne (.block [] [.default .skip, .caseS 1 .skip])]

/-- The state after the initial block of a function without variables has been named. -/
def bodyState : State := ⟨[], ⟨[], []⟩, 1, [], []⟩

private theorem nestedBody_valid :
    ValidBody (lp64Ctx [] []) (some (.int (.i32 true))) [] bodyState nestedBody where
  noBlocks := rfl
  noSwitches := rfl
  inScope _ member := nomatch member
  valid := by
    have declared : DeclsValid (lp64Ctx [] []) [(⟨0, "y"⟩, .integer (.signed .int))]
        [(⟨0, "y"⟩, some intOne)] := by
      rintro d member e init
      obtain rfl := List.mem_singleton.mp member
      cases init
      exact ⟨_, List.mem_cons_self, fun _ _ => ⟨_, _, rfl⟩⟩
    have isInt : ∃ it, opTypeOfExpr (lp64Ctx [] []) intOne = .ok (.int it) := ⟨_, rfl⟩
    simp only [nestedBody, Stmt.ValidList, Stmt.Valid, and_true]
    exact ⟨⟨declared, translateCond_intOne, translate_intOne none, .inr isInt,
      ⟨rfl, translateCond_intOne, rfl⟩, ⟨rfl, rfl⟩, rfl⟩, translate_intOne _⟩
  distinctLabels := by decide
  identifiers := by decide
  distinctNames := by decide
  notTaken := by decide

theorem translateBlock_succeeds_nested : ∃ t σ',
    translateBlock (lp64Ctx [] []) nestedBody (some (.int (.i32 true))) false bodyState =
      .ok (t, σ') := by
  refine (translateBlock_succeeds_iff nestedBody_valid false).mpr ?_
  have last :
      SwitchLabel.default ∉ (switchLabels [.block [] [.caseS 1 (.ifS intOne .breakS .skip),
      .caseS 2 .continueS, .default (.goto ⟨1, "end"⟩)]]).dropLast := by decide
  simp only [nestedBody, Stmt.AssertFreeList, Stmt.AssertFree, and_true, true_and]
  refine ⟨last, fun isBool => ?_⟩
  cases isBool

private theorem defaultFirst_valid :
    ValidBody (lp64Ctx [] []) (some (.int (.i32 true))) [] bodyState defaultFirst where
  noBlocks := rfl
  noSwitches := rfl
  inScope _ member := nomatch member
  valid := by
    simp only [defaultFirst, Stmt.ValidList, Stmt.Valid, and_true]
    exact ⟨translate_intOne none, .inr ⟨_, rfl⟩, rfl, rfl⟩
  distinctLabels := by decide
  identifiers := by decide
  distinctNames := by decide
  notTaken := by decide

/-- A default before a case is not translated. -/
theorem translateBlock_defaultFirst :
    ValidBody (lp64Ctx [] []) (some (.int (.i32 true))) [] bodyState defaultFirst ∧
      (translateBlock (lp64Ctx [] []) defaultFirst (some (.int (.i32 true))) false bodyState).map
        (fun _ => ()) = .error .assertFalse :=
  ⟨defaultFirst_valid, by decide +kernel⟩

end RefinedC.Frontend
