import RefinedC.Frontend.PpStruct
import RefinedC.Library.AssocList

/-!
Printed loop invariants.

Source: `collect_invs`, `pp_state_descr` and `pp_inv` of `frontend/coq_pp.ml`, and
`List.find_index` of `frontend/extra.ml`.

Owns: the variables that a printed assertion mentions, and that the invariant of a loop
mentions each variable of the function with the type it has there.

Does not own: the text of types, layouts and constraints, and the separators between the
conjuncts. The warning on a useless annotation is left out.
-/

namespace RefinedC.Frontend

open Library

/-! ## Printed assertions -/

/-- A variable of an assertion. Without a type it is uninitialised. -/
structure PrintedVar where
  id : String
  layout : Coq.Layout
  ty : Option TypeExpr

inductive Conjunct where
  | top
  | uninit (id : String) (layout : Coq.Layout)
  | own (id : String) (ty : TypeExpr)
  | constr (c : Constr)

structure PrintedAssertion where
  exist : List (String × String)
  conjuncts : List Conjunct

def argId (id : String) : String := "arg_" ++ id

def localId (id : String) : String := "local_" ++ id

/-- The declared type of an argument, looked up by the index of its name. -/
def toplevelTy (fn : Coq.FuncDef) (annot : FunctionAnnot) (id : String) : Result TypeExpr :=
  match fn.args.findIdx? fun arg => decide (arg.1 = id) with
  | none => .error .assertFalse
  | some i =>
      match annot.args[i]? with
      | none => .error .assertFalse
      | some ty => .ok ty

def usedVar (name : String) (fn : Coq.FuncDef) (annot : FunctionAnnot)
    (var : String × TypeExpr) : Result PrintedVar :=
  match fn.args.lookup var.1 with
  | some layout =>
      if (fn.vars.lookup var.1).isSome then
        panicNoPos ("[" ++ var.1 ++
          "] denotes both an argument and a local variable of function [" ++ name ++ "].")
      else do
        -- The declared type is only compared with the given one, for a warning.
        let _ ← toplevelTy fn annot var.1
        .ok ⟨argId var.1, layout, some var.2⟩
  | none =>
      match fn.vars.lookup var.1 with
      | some layout => .ok ⟨localId var.1, layout, some var.2⟩
      | none =>
          panicNoPos ("[" ++ var.1 ++ "] is neither a local variable nor an argument.")

def unusedArgs (fn : Coq.FuncDef) (annot : FunctionAnnot) (used : List PrintedVar) :
    Result (List PrintedVar) :=
  (fn.args.filter fun arg => used.all fun v => argId arg.1 != v.id).mapM fun arg => do
    let ty ← toplevelTy fn annot arg.1
    .ok ⟨argId arg.1, arg.2, some ty⟩

def unusedVars (fn : Coq.FuncDef) (used : List PrintedVar) : List PrintedVar :=
  (fn.vars.filter fun var => used.all fun v => localId var.1 != v.id).map fun var =>
    ⟨localId var.1, var.2, none⟩

def ppVar (v : PrintedVar) : Conjunct :=
  match v.ty with
  | none => .uninit v.id v.layout
  | some ty => .own v.id ty

def ppConjuncts : List PrintedVar → List Constr → List Conjunct
  | [], [] => [.top]
  | vs, cs => vs.map ppVar ++ cs.map .constr

def ppExist (e : Binder) : Result (String × String) := do
  let ty ← ppSimpleCoqExpr false e.2
  .ok (e.1, ty)

def ppExists (printExist : Bool) (exist : List Binder) : Result (List (String × String)) :=
  if printExist then exist.mapM ppExist else .ok []

def ppStateDescr (name : String) (fn : Coq.FuncDef) (annot : FunctionAnnot)
    (printUnused printExist : Bool) (sd : StateDescr) : Result PrintedAssertion := do
  let exist ← ppExists printExist sd.exist
  let used ← sd.invVars.mapM (usedVar name fn annot)
  let args ← unusedArgs fn annot used
  let unused := args ++ unusedVars fn used
  .ok ⟨exist, ppConjuncts (if printUnused then unused ++ used else used) sd.constrs⟩

/-- The invariant of a block. -/
def ppInv (name : String) (fn : Coq.FuncDef) (annot : FunctionAnnot) (inv : String × StateDescr) :
    Result (String × PrintedAssertion) := do
  let assertion ← ppStateDescr name fn annot true true inv.2
  .ok (inv.1, assertion)

/-- The blocks with an invariant. Blocks come in the order of their labels. -/
def collectInvs (blocks : List (String × Option StateDescr)) : List (String × StateDescr) :=
  blocks.foldl (fun acc block =>
    match block.2 with
    | none => acc
    | some sd => (block.1, sd) :: acc) []

/-- The map of invariants that `split_blocks` is applied to. -/
def ppInvs (name : String) (fn : Coq.FuncDef) (annot : FunctionAnnot)
    (blocks : List (String × Option StateDescr)) : Result (List (String × PrintedAssertion)) :=
  (collectInvs blocks).mapM (ppInv name fn annot)

/-! ## Variables of a full invariant -/

/-- The identifiers of all variables of a function. -/
def varIds (fn : Coq.FuncDef) : List String :=
  fn.args.map (fun arg => argId arg.1) ++ fn.vars.map fun var => localId var.1

def Conjunct.varId : Conjunct → Option String
  | .uninit id _ => some id
  | .own id _ => some id
  | .top | .constr _ => none

/-- What a full invariant says about a variable: the type listed for it, else the declared
type of an argument, else that a local variable is uninitialised. -/
inductive Stated (fn : Coq.FuncDef) (annot : FunctionAnnot) (listed : List (String × TypeExpr)) :
    Conjunct → Prop where
  | listedArg {id : String} {layout : Coq.Layout} {ty : TypeExpr} (isArg : (id, layout) ∈ fn.args)
      (isListed : (id, ty) ∈ listed) : Stated fn annot listed (.own (argId id) ty)
  | listedLocal {id : String} {layout : Coq.Layout} {ty : TypeExpr}
      (isLocal : (id, layout) ∈ fn.vars) (isListed : (id, ty) ∈ listed) :
      Stated fn annot listed (.own (localId id) ty)
  | otherArg {i : Nat} {id : String} {layout : Coq.Layout} {ty : TypeExpr}
      (isArg : fn.args[i]? = some (id, layout)) (declared : annot.args[i]? = some ty)
      (notListed : id ∉ listed.map Prod.fst) : Stated fn annot listed (.own (argId id) ty)
  | otherLocal {id : String} {layout : Coq.Layout} (isLocal : (id, layout) ∈ fn.vars)
      (notListed : id ∉ listed.map Prod.fst) :
      Stated fn annot listed (.uninit (localId id) layout)

/-- The conjuncts mention every variable, as stated, and nothing else as a variable. -/
structure FullInvariant (fn : Coq.FuncDef) (annot : FunctionAnnot) (sd : StateDescr)
    (conjuncts : List Conjunct) : Prop where
  asStated : ∀ c, c.varId.isSome → (c ∈ conjuncts ↔ Stated fn annot sd.invVars c)
  every : ∀ id, id ∈ conjuncts.filterMap Conjunct.varId ↔ id ∈ varIds fn
  once : (sd.invVars.map Prod.fst).Nodup →
    (conjuncts.filterMap Conjunct.varId).Perm (varIds fn)

/-! ## Identifiers -/

private theorem argId_inj {id id' : String} (same : argId id = argId id') : id = id' := by
  have chars := congrArg String.toList same
  rw [argId, argId, String.toList_append, String.toList_append,
    List.append_cancel_left_eq] at chars
  exact String.toList_inj.mp chars

private theorem localId_inj {id id' : String} (same : localId id = localId id') : id = id' := by
  have chars := congrArg String.toList same
  rw [localId, localId, String.toList_append, String.toList_append,
    List.append_cancel_left_eq] at chars
  exact String.toList_inj.mp chars

private theorem argId_ne_localId {id id' : String} : argId id ≠ localId id' := by
  intro same
  have start := congrArg (fun s => s.toList.head?) same
  simp [argId, localId, String.toList_append] at start

/-- The identifier under which a listed name is printed. -/
def slot (fn : Coq.FuncDef) (id : String) : String :=
  if id ∈ fn.args.map Prod.fst then argId id else localId id

private theorem slot_inj {fn : Coq.FuncDef} : Function.Injective (slot fn) := by
  intro id id' same
  unfold slot at same
  split at same
  · split at same
    · exact argId_inj same
    · exact absurd same argId_ne_localId
  · split at same
    · exact absurd same.symm argId_ne_localId
    · exact localId_inj same

private theorem varIds_nodup {fn : Coq.FuncDef} (argsDistinct : (fn.args.map Prod.fst).Nodup)
    (varsDistinct : (fn.vars.map Prod.fst).Nodup) : (varIds fn).Nodup := by
  have args := argsDistinct.map fun _ _ same => argId_inj same
  have vars := varsDistinct.map fun _ _ same => localId_inj same
  rw [List.map_map] at args vars
  refine List.nodup_append.mpr ⟨args, vars, ?_⟩
  intro x inArgs y inVars
  obtain ⟨arg, -, rfl⟩ := List.mem_map.mp inArgs
  obtain ⟨var, -, rfl⟩ := List.mem_map.mp inVars
  exact argId_ne_localId

/-! ## Used variables -/

section

variable {name : String} {fn : Coq.FuncDef} {annot : FunctionAnnot} {sd : StateDescr}
variable {used args : List PrintedVar}

/-- The name is one of an argument or of a local variable, not of both. -/
def OneOf (fn : Coq.FuncDef) (id : String) : Prop :=
  (id ∈ fn.args.map Prod.fst ∧ id ∉ fn.vars.map Prod.fst) ∨
    (id ∉ fn.args.map Prod.fst ∧ id ∈ fn.vars.map Prod.fst)

private theorem usedVar_eq_ok {var : String × TypeExpr} {v : PrintedVar}
    (run : usedVar name fn annot var = .ok v) :
    OneOf fn var.1 ∧ v.id = slot fn var.1 ∧ v.ty = some var.2 := by
  unfold usedVar at run
  split at run
  next layout found =>
    have isArg := List.mem_map_of_mem (f := Prod.fst) (mem_of_lookup found)
    split at run
    · cases run
    · next notLocal =>
      obtain ⟨_, -, result⟩ := bind_eq_ok.mp run
      cases result
      have absent := lookup_eq_none_iff.mp (Option.not_isSome_iff_eq_none.mp notLocal)
      exact ⟨.inl ⟨isArg, absent⟩, (if_pos isArg).symm, rfl⟩
  next notArg =>
    have absent := lookup_eq_none_iff.mp notArg
    split at run
    · next layout found =>
      cases run
      have isLocal := List.mem_map_of_mem (f := Prod.fst) (mem_of_lookup found)
      exact ⟨.inr ⟨absent, isLocal⟩, (if_neg absent).symm, rfl⟩
    · cases run

private theorem listed_oneOf (run : sd.invVars.mapM (usedVar name fn annot) = .ok used) :
    ∀ id ∈ sd.invVars.map Prod.fst, OneOf fn id := by
  intro id listed
  obtain ⟨var, member, rfl⟩ := List.mem_map.mp listed
  obtain ⟨v, -, found⟩ := exists_of_mem_right (mapM_eq_ok.mp run).flip member
  exact (usedVar_eq_ok found).1

private theorem used_ids (run : sd.invVars.mapM (usedVar name fn annot) = .ok used) :
    used.map PrintedVar.id = (sd.invVars.map Prod.fst).map (slot fn) := by
  rw [List.map_map]
  exact map_eq_map_of_forall₂
    ((mapM_eq_ok.mp run).flip.imp fun v var found => (usedVar_eq_ok found).2.1)

private theorem used_conjuncts (run : sd.invVars.mapM (usedVar name fn annot) = .ok used) :
    used.map ppVar = sd.invVars.map fun var => .own (slot fn var.1) var.2 := by
  refine map_eq_map_of_forall₂ ((mapM_eq_ok.mp run).flip.imp fun v var found => ?_)
  obtain ⟨-, isSlot, hasType⟩ := usedVar_eq_ok found
  rw [ppVar, hasType, isSlot]

private theorem argId_mem_used_iff (run : sd.invVars.mapM (usedVar name fn annot) = .ok used)
    {id : String} (isArg : id ∈ fn.args.map Prod.fst) :
    argId id ∈ used.map PrintedVar.id ↔ id ∈ sd.invVars.map Prod.fst := by
  have isSlot : slot fn id = argId id := if_pos isArg
  rw [used_ids run, ← isSlot, List.mem_map_of_injective slot_inj]

private theorem localId_mem_used_iff (run : sd.invVars.mapM (usedVar name fn annot) = .ok used)
    {id : String} (isLocal : id ∈ fn.vars.map Prod.fst) :
    localId id ∈ used.map PrintedVar.id ↔ id ∈ sd.invVars.map Prod.fst := by
  rw [used_ids run]
  constructor
  · intro printed
    obtain ⟨id', listed, same⟩ := List.mem_map.mp printed
    unfold slot at same
    split at same
    · exact absurd same argId_ne_localId
    · exact localId_inj same ▸ listed
  · intro listed
    rcases listed_oneOf run id listed with ⟨-, notLocal⟩ | ⟨notArg, -⟩
    · exact absurd isLocal notLocal
    · exact List.mem_map.mpr ⟨id, listed, if_neg notArg⟩

/-! ## Other variables -/

private theorem notUsed_iff {id : String} :
    (used.all fun v => id != v.id) = true ↔ id ∉ used.map PrintedVar.id := by
  simp only [List.all_eq_true, bne_iff_ne, ne_eq, List.mem_map, not_exists, not_and]
  exact ⟨fun other v member same => other v member same.symm,
    fun other v member same => other v member same.symm⟩

private theorem toplevelTy_eq_ok_iff (argsDistinct : (fn.args.map Prod.fst).Nodup) {i : Nat}
    {arg : String × Coq.Layout} {ty : TypeExpr} (isArg : fn.args[i]? = some arg) :
    toplevelTy fn annot arg.1 = .ok ty ↔ annot.args[i]? = some ty := by
  have found : fn.args.findIdx? (fun a => decide (a.1 = arg.1)) = some i := by
    have index := findIdx?_eq_self_iff.mpr argsDistinct i arg.1 (by simp [isArg])
    rwa [List.findIdx?_map] at index
  unfold toplevelTy
  rw [found]
  dsimp only
  cases annot.args[i]? with
  | none => simp
  | some ty' => simp

private theorem unusedArgs_ids (run : unusedArgs fn annot used = .ok args) :
    args.map PrintedVar.id =
      (fn.args.map fun arg => argId arg.1).filter fun id => id ∉ used.map PrintedVar.id := by
  have ids : args.map PrintedVar.id =
      (fn.args.filter fun arg => used.all fun v => argId arg.1 != v.id).map
        fun arg => argId arg.1 := by
    refine map_eq_map_of_forall₂ ((mapM_eq_ok.mp run).flip.imp fun v arg found => ?_)
    obtain ⟨ty, -, result⟩ := bind_eq_ok.mp found
    cases result
    rfl
  rw [ids, List.filter_map]
  simp only [Function.comp_def, ← notUsed_iff, Bool.decide_eq_true]

private theorem unusedVars_ids :
    (unusedVars fn used).map PrintedVar.id =
      (fn.vars.map fun var => localId var.1).filter fun id => id ∉ used.map PrintedVar.id := by
  rw [unusedVars, List.map_map, List.filter_map]
  simp only [Function.comp_def, ← notUsed_iff, Bool.decide_eq_true]

private theorem mem_unusedArgs_iff (argsDistinct : (fn.args.map Prod.fst).Nodup)
    (run : unusedArgs fn annot used = .ok args) {c : Conjunct} :
    c ∈ args.map ppVar ↔ ∃ (i : Nat) (id : String) (layout : Coq.Layout) (ty : TypeExpr),
      fn.args[i]? = some (id, layout) ∧ annot.args[i]? = some ty ∧
        argId id ∉ used.map PrintedVar.id ∧ c = .own (argId id) ty := by
  have related := mapM_eq_ok.mp run
  constructor
  · intro member
    obtain ⟨v, isArg, rfl⟩ := List.mem_map.mp member
    obtain ⟨arg, kept, found⟩ := exists_of_mem_right related isArg
    obtain ⟨inArgs, notUsed⟩ := List.mem_filter.mp kept
    obtain ⟨i, atIndex⟩ := List.mem_iff_getElem?.mp inArgs
    obtain ⟨ty, isType, result⟩ := bind_eq_ok.mp found
    cases result
    exact ⟨i, arg.1, arg.2, ty, atIndex, (toplevelTy_eq_ok_iff argsDistinct atIndex).mp isType,
      notUsed_iff.mp notUsed, rfl⟩
  · rintro ⟨i, id, layout, ty, atIndex, declared, notUsed, rfl⟩
    have kept : (id, layout) ∈ fn.args.filter fun arg => used.all fun v => argId arg.1 != v.id :=
      List.mem_filter.mpr ⟨List.mem_of_getElem? atIndex, notUsed_iff.mpr notUsed⟩
    obtain ⟨v, isArg, found⟩ := exists_of_mem_right related.flip kept
    obtain ⟨ty', isType, result⟩ := bind_eq_ok.mp found
    cases result
    rw [(toplevelTy_eq_ok_iff argsDistinct atIndex).mp isType] at declared
    cases declared
    exact List.mem_map.mpr ⟨_, isArg, rfl⟩

private theorem mem_unusedVars_iff {c : Conjunct} :
    c ∈ (unusedVars fn used).map ppVar ↔ ∃ id layout, (id, layout) ∈ fn.vars ∧
      localId id ∉ used.map PrintedVar.id ∧ c = .uninit (localId id) layout := by
  simp only [unusedVars, List.map_map, List.mem_map, List.mem_filter, notUsed_iff]
  constructor
  · rintro ⟨var, ⟨isLocal, notUsed⟩, rfl⟩
    exact ⟨var.1, var.2, isLocal, notUsed, rfl⟩
  · rintro ⟨id, layout, isLocal, notUsed, rfl⟩
    exact ⟨(id, layout), ⟨isLocal, notUsed⟩, rfl⟩

/-! ## Full invariants -/

private theorem filterMap_varId_ppConjuncts (vs : List PrintedVar) (cs : List Constr) :
    (ppConjuncts vs cs).filterMap Conjunct.varId = vs.map PrintedVar.id := by
  have vars : (vs.map ppVar).filterMap Conjunct.varId = vs.map PrintedVar.id := by
    induction vs with
    | nil => rfl
    | cons v vs inductionHypothesis =>
        obtain ⟨id, layout, ty⟩ := v
        cases ty with
        | none => simpa [ppVar, Conjunct.varId] using inductionHypothesis
        | some ty => simpa [ppVar, Conjunct.varId] using inductionHypothesis
  have constrs : (cs.map Conjunct.constr).filterMap Conjunct.varId = [] := by
    simp [List.filterMap_map, Function.comp_def, Conjunct.varId]
  unfold ppConjuncts
  split
  · rfl
  · rw [List.filterMap_append, vars, constrs, List.append_nil]

private theorem mem_ppConjuncts_iff {vs : List PrintedVar} {cs : List Constr} {c : Conjunct}
    (isVar : c.varId.isSome) : c ∈ ppConjuncts vs cs ↔ c ∈ vs.map ppVar := by
  have notConstr : c ∉ cs.map Conjunct.constr := by
    intro member
    obtain ⟨c', -, rfl⟩ := List.mem_map.mp member
    cases isVar
  unfold ppConjuncts
  split
  · simp only [List.mem_singleton, List.map_nil, List.not_mem_nil, iff_false]
    rintro rfl
    cases isVar
  · rw [List.mem_append, or_iff_left notConstr]

private theorem ppStateDescr_eq_ok {printExist : Bool} {out : PrintedAssertion}
    (run : ppStateDescr name fn annot true printExist sd = .ok out) :
    ∃ used args, sd.invVars.mapM (usedVar name fn annot) = .ok used ∧
      unusedArgs fn annot used = .ok args ∧
      out.conjuncts = ppConjuncts (args ++ unusedVars fn used ++ used) sd.constrs := by
  unfold ppStateDescr at run
  obtain ⟨exist, -, rest⟩ := bind_eq_ok.mp run
  obtain ⟨used, usedRun, rest⟩ := bind_eq_ok.mp rest
  obtain ⟨args, argsRun, result⟩ := bind_eq_ok.mp rest
  cases result
  exact ⟨used, args, usedRun, argsRun, rfl⟩

/-- Each listed variable is printed with its listed type. -/
theorem mem_used_iff (run : sd.invVars.mapM (usedVar name fn annot) = .ok used) {c : Conjunct} :
    c ∈ used.map ppVar ↔
      ∃ id ty, (id, ty) ∈ sd.invVars ∧ c = .own (slot fn id) ty := by
  rw [used_conjuncts run, List.mem_map]
  constructor
  · rintro ⟨var, listed, rfl⟩
    exact ⟨var.1, var.2, listed, rfl⟩
  · rintro ⟨id, ty, listed, rfl⟩
    exact ⟨(id, ty), listed, rfl⟩

private theorem stated_iff (argsDistinct : (fn.args.map Prod.fst).Nodup)
    (usedRun : sd.invVars.mapM (usedVar name fn annot) = .ok used)
    (argsRun : unusedArgs fn annot used = .ok args) {c : Conjunct} :
    c ∈ (args ++ unusedVars fn used ++ used).map ppVar ↔ Stated fn annot sd.invVars c := by
  rw [List.map_append, List.map_append, List.mem_append, List.mem_append,
    mem_unusedArgs_iff argsDistinct argsRun, mem_unusedVars_iff, mem_used_iff usedRun]
  constructor
  · rintro ((⟨i, id, layout, ty, isArg, declared, notUsed, rfl⟩ |
      ⟨id, layout, isLocal, notUsed, rfl⟩) | ⟨id, ty, listed, rfl⟩)
    · have inArgs := List.mem_map_of_mem (f := Prod.fst) (List.mem_of_getElem? isArg)
      exact .otherArg isArg declared fun listed =>
        notUsed ((argId_mem_used_iff usedRun inArgs).mpr listed)
    · have inVars := List.mem_map_of_mem (f := Prod.fst) isLocal
      exact .otherLocal isLocal fun listed =>
        notUsed ((localId_mem_used_iff usedRun inVars).mpr listed)
    · rcases listed_oneOf usedRun id (List.mem_map_of_mem listed) with
        ⟨isArg, -⟩ | ⟨notArg, isLocal⟩
      · obtain ⟨⟨_, layout⟩, member, rfl⟩ := List.mem_map.mp isArg
        rw [slot, if_pos isArg]
        exact .listedArg member listed
      · obtain ⟨⟨_, layout⟩, member, rfl⟩ := List.mem_map.mp isLocal
        rw [slot, if_neg notArg]
        exact .listedLocal member listed
  · intro stated
    cases stated with
    | @listedArg id layout ty isArg isListed =>
        have inArgs := List.mem_map_of_mem (f := Prod.fst) isArg
        exact .inr ⟨id, ty, isListed, by rw [slot, if_pos inArgs]⟩
    | @listedLocal id layout ty isLocal isListed =>
        have inVars := List.mem_map_of_mem (f := Prod.fst) isLocal
        rcases listed_oneOf usedRun id (List.mem_map_of_mem isListed) with
          ⟨-, notLocal⟩ | ⟨notArg, -⟩
        · exact absurd inVars notLocal
        · exact .inr ⟨id, ty, isListed, by rw [slot, if_neg notArg]⟩
    | @otherArg i id layout ty isArg declared notListed =>
        have inArgs := List.mem_map_of_mem (f := Prod.fst) (List.mem_of_getElem? isArg)
        exact .inl (.inl ⟨i, id, layout, ty, isArg, declared, fun isUsed =>
          notListed ((argId_mem_used_iff usedRun inArgs).mp isUsed), rfl⟩)
    | @otherLocal id layout isLocal notListed =>
        have inVars := List.mem_map_of_mem (f := Prod.fst) isLocal
        exact .inl (.inr ⟨id, layout, isLocal, fun isUsed =>
          notListed ((localId_mem_used_iff usedRun inVars).mp isUsed), rfl⟩)

/-- The variables that are not listed, under their identifiers, and then the listed ones. -/
theorem allVars_ids (usedRun : sd.invVars.mapM (usedVar name fn annot) = .ok used)
    (argsRun : unusedArgs fn annot used = .ok args) :
    (args ++ unusedVars fn used ++ used).map PrintedVar.id =
      ((varIds fn).filter fun id => id ∉ (sd.invVars.map Prod.fst).map (slot fn)) ++
        (sd.invVars.map Prod.fst).map (slot fn) := by
  rw [List.map_append, List.map_append, unusedArgs_ids argsRun, unusedVars_ids, used_ids usedRun,
    varIds, List.filter_append]

private theorem slot_mem_varIds {id : String} (isVar : OneOf fn id) : slot fn id ∈ varIds fn := by
  rcases isVar with ⟨isArg, -⟩ | ⟨notArg, isLocal⟩
  · rw [slot, if_pos isArg]
    obtain ⟨arg, member, rfl⟩ := List.mem_map.mp isArg
    exact List.mem_append_left _ (List.mem_map.mpr ⟨arg, member, rfl⟩)
  · rw [slot, if_neg notArg]
    obtain ⟨var, member, rfl⟩ := List.mem_map.mp isLocal
    exact List.mem_append_right _ (List.mem_map.mpr ⟨var, member, rfl⟩)

private theorem mem_allVars_ids_iff (usedRun : sd.invVars.mapM (usedVar name fn annot) = .ok used)
    (argsRun : unusedArgs fn annot used = .ok args) {id : String} :
    id ∈ (args ++ unusedVars fn used ++ used).map PrintedVar.id ↔ id ∈ varIds fn := by
  rw [allVars_ids usedRun argsRun, List.mem_append, List.mem_filter, decide_eq_true_eq]
  constructor
  · rintro (⟨isVar, -⟩ | isUsed)
    · exact isVar
    · obtain ⟨x, listed, rfl⟩ := List.mem_map.mp isUsed
      exact slot_mem_varIds (listed_oneOf usedRun x listed)
  · intro isVar
    by_cases isUsed : id ∈ (sd.invVars.map Prod.fst).map (slot fn)
    · exact .inr isUsed
    · exact .inl ⟨isVar, isUsed⟩

private theorem allVars_ids_nodup (distinct : (varIds fn).Nodup)
    (listedOnce : (sd.invVars.map Prod.fst).Nodup)
    (usedRun : sd.invVars.mapM (usedVar name fn annot) = .ok used)
    (argsRun : unusedArgs fn annot used = .ok args) :
    ((args ++ unusedVars fn used ++ used).map PrintedVar.id).Nodup := by
  rw [allVars_ids usedRun argsRun]
  refine List.nodup_append.mpr ⟨distinct.filter _, listedOnce.map slot_inj, ?_⟩
  rintro x notUsed y isUsed rfl
  exact of_decide_eq_true (List.mem_filter.mp notUsed).2 isUsed

/-- An accepted annotation of a loop, printed with the variables that it does not list. -/
theorem fullInvariant_of_ok {printExist : Bool} {out : PrintedAssertion}
    (argsDistinct : (fn.args.map Prod.fst).Nodup) (varsDistinct : (fn.vars.map Prod.fst).Nodup)
    (run : ppStateDescr name fn annot true printExist sd = .ok out) :
    FullInvariant fn annot sd out.conjuncts := by
  obtain ⟨used, args, usedRun, argsRun, conjuncts⟩ := ppStateDescr_eq_ok run
  have every (id : String) : id ∈ out.conjuncts.filterMap Conjunct.varId ↔
      id ∈ varIds fn := by
    rw [conjuncts, filterMap_varId_ppConjuncts, mem_allVars_ids_iff usedRun argsRun]
  refine ⟨fun c isVar => ?_, every, fun listedOnce => ?_⟩
  · rw [conjuncts, mem_ppConjuncts_iff isVar, stated_iff argsDistinct usedRun argsRun]
  · have distinct := varIds_nodup argsDistinct varsDistinct
    refine (List.perm_ext_iff_of_nodup ?_ distinct).mpr every
    rw [conjuncts, filterMap_varId_ppConjuncts]
    exact allVars_ids_nodup distinct listedOnce usedRun argsRun

/-- A listed name is one of an argument or of a local variable. -/
theorem oneOf_of_ok {printUnused printExist : Bool} {out : PrintedAssertion}
    (run : ppStateDescr name fn annot printUnused printExist sd = .ok out) :
    ∀ id ∈ sd.invVars.map Prod.fst, OneOf fn id := by
  unfold ppStateDescr at run
  obtain ⟨_, -, rest⟩ := bind_eq_ok.mp run
  obtain ⟨_, usedRun, -⟩ := bind_eq_ok.mp rest
  exact listed_oneOf usedRun

private theorem ppInv_eq_ok {inv : String × StateDescr} {out : String × PrintedAssertion}
    (run : ppInv name fn annot inv = .ok out) :
    out.1 = inv.1 ∧ ppStateDescr name fn annot true true inv.2 = .ok out.2 := by
  obtain ⟨assertion, printed, result⟩ := bind_eq_ok.mp run
  cases result
  exact ⟨rfl, printed⟩

/-! ## Accepted annotations -/

private theorem exists_toplevelTy (argsDistinct : (fn.args.map Prod.fst).Nodup)
    (asManyTypes : annot.args.length = fn.args.length) {id : String}
    (isArg : id ∈ fn.args.map Prod.fst) : ∃ ty, toplevelTy fn annot id = .ok ty := by
  obtain ⟨arg, member, rfl⟩ := List.mem_map.mp isArg
  obtain ⟨i, bound, rfl⟩ := List.mem_iff_getElem.mp member
  have declared := List.getElem?_eq_getElem (asManyTypes.symm ▸ bound)
  exact ⟨_, (toplevelTy_eq_ok_iff argsDistinct (List.getElem?_eq_getElem bound)).mpr declared⟩

private theorem exists_usedVar (argsDistinct : (fn.args.map Prod.fst).Nodup)
    (asManyTypes : annot.args.length = fn.args.length) {var : String × TypeExpr}
    (isVar : OneOf fn var.1) : ∃ v, usedVar name fn annot var = .ok v := by
  unfold usedVar
  rcases isVar with ⟨isArg, notLocal⟩ | ⟨notArg, isLocal⟩
  · obtain ⟨layout, found⟩ := exists_lookup_of_mem isArg
    obtain ⟨ty, isType⟩ := exists_toplevelTy argsDistinct asManyTypes isArg
    rw [found, lookup_eq_none_iff.mpr notLocal, isType]
    exact ⟨_, rfl⟩
  · obtain ⟨layout, found⟩ := exists_lookup_of_mem isLocal
    rw [lookup_eq_none_iff.mpr notArg, found]
    exact ⟨_, rfl⟩

/-- With a type for each argument, only the listed names and the sorts of the existentials
can be refused: no assertion of the source fails. -/
theorem ppStateDescr_accepts_iff {printUnused printExist : Bool}
    (argsDistinct : (fn.args.map Prod.fst).Nodup)
    (asManyTypes : annot.args.length = fn.args.length) :
    (∃ out, ppStateDescr name fn annot printUnused printExist sd = .ok out) ↔
      (∀ id ∈ sd.invVars.map Prod.fst, OneOf fn id) ∧
        ∃ exist, ppExists printExist sd.exist = .ok exist := by
  constructor
  · rintro ⟨out, run⟩
    refine ⟨oneOf_of_ok run, ?_⟩
    unfold ppStateDescr at run
    obtain ⟨exist, printed, -⟩ := bind_eq_ok.mp run
    exact ⟨exist, printed⟩
  · rintro ⟨listed, exist, printed⟩
    obtain ⟨used, usedRun⟩ : ∃ used, sd.invVars.mapM (usedVar name fn annot) = .ok used :=
      exists_mapM_ok fun var member => exists_usedVar argsDistinct asManyTypes
        (listed var.1 (List.mem_map_of_mem member))
    obtain ⟨args, argsRun⟩ : ∃ args, unusedArgs fn annot used = .ok args := by
      refine exists_mapM_ok fun arg kept => ?_
      obtain ⟨ty, isType⟩ := exists_toplevelTy argsDistinct asManyTypes
        (List.mem_map_of_mem (List.mem_filter.mp kept).1)
      exact ⟨_, bind_eq_ok.mpr ⟨ty, isType, rfl⟩⟩
    exact ⟨_, bind_eq_ok.mpr ⟨exist, printed, bind_eq_ok.mpr ⟨used, usedRun,
      bind_eq_ok.mpr ⟨args, argsRun, rfl⟩⟩⟩⟩

private theorem ppInv_fullInvariant {inv : String × StateDescr} {out : String × PrintedAssertion}
    (argsDistinct : (fn.args.map Prod.fst).Nodup) (varsDistinct : (fn.vars.map Prod.fst).Nodup)
    (run : ppInv name fn annot inv = .ok out) :
    out.1 = inv.1 ∧ FullInvariant fn annot inv.2 out.2.conjuncts := by
  obtain ⟨isBlock, printed⟩ := ppInv_eq_ok run
  exact ⟨isBlock, fullInvariant_of_ok argsDistinct varsDistinct printed⟩

/-! ## Invariants of a function -/

private theorem mem_collectInvs {blocks : List (String × Option StateDescr)}
    {inv : String × StateDescr} :
    inv ∈ collectInvs blocks ↔ (inv.1, some inv.2) ∈ blocks := by
  have collected (acc : List (String × StateDescr)) :
      inv ∈ blocks.foldl (fun acc block =>
        match block.2 with
        | none => acc
        | some sd =>
            (block.1, sd) :: acc) acc ↔ inv ∈ acc ∨ (inv.1, some inv.2) ∈ blocks := by
    induction blocks generalizing acc with
    | nil => simp
    | cons block blocks inductionHypothesis =>
        obtain ⟨id, annot⟩ := block
        rw [List.foldl_cons, inductionHypothesis]
        cases annot with
        | none => simp
        | some sd =>
            have same : (inv.1, some inv.2) = (id, some sd) ↔ inv = (id, sd) := by
              rw [Prod.mk.injEq, Option.some.injEq, Prod.ext_iff]
            rw [List.mem_cons, List.mem_cons, same, or_assoc, or_left_comm]
  rw [collectInvs, collected]
  simp

variable {blocks : List (String × Option StateDescr)}

/-- The proof of a function lists one full invariant for each block that has one. -/
theorem ppInvs_fullInvariants {out : List (String × PrintedAssertion)}
    (argsDistinct : (fn.args.map Prod.fst).Nodup) (varsDistinct : (fn.vars.map Prod.fst).Nodup)
    (run : ppInvs name fn annot blocks = .ok out) :
    List.Forall₂ (fun inv printed => printed.1 = inv.1 ∧
      FullInvariant fn annot inv.2 printed.2.conjuncts) (collectInvs blocks) out :=
  (mapM_eq_ok.mp run).imp fun _ _ => ppInv_fullInvariant argsDistinct varsDistinct

/-- The invariants of a function are printed unless one of them lists a name that is no variable
or a sort that cannot be printed. -/
theorem ppInvs_accepts_iff (argsDistinct : (fn.args.map Prod.fst).Nodup)
    (asManyTypes : annot.args.length = fn.args.length) :
    (∃ out, ppInvs name fn annot blocks = .ok out) ↔
      ∀ id sd, (id, some sd) ∈ blocks → (∀ x ∈ sd.invVars.map Prod.fst, OneOf fn x) ∧
        ∃ exist, ppExists true sd.exist = .ok exist := by
  have each inv : (∃ out, ppInv name fn annot inv = .ok out) ↔
      (∀ x ∈ inv.2.invVars.map Prod.fst, OneOf fn x) ∧
        ∃ exist, ppExists true inv.2.exist = .ok exist := by
    rw [← ppStateDescr_accepts_iff argsDistinct asManyTypes]
    constructor
    · rintro ⟨out, run⟩
      exact ⟨out.2, (ppInv_eq_ok run).2⟩
    · rintro ⟨assertion, printed⟩
      exact ⟨(inv.1, assertion), bind_eq_ok.mpr ⟨assertion, printed, rfl⟩⟩
  constructor
  · rintro ⟨out, run⟩ id sd isBlock
    have member : (id, sd) ∈ collectInvs blocks := mem_collectInvs.mpr isBlock
    exact (each (id, sd)).mp (exists_ok_of_mapM run member)
  · intro accepted
    refine exists_mapM_ok fun inv member => ?_
    exact (each inv).mpr (accepted inv.1 inv.2 (mem_collectInvs.mp member))

/-! ## The invariant of an annotation -/

/-- The printed invariant of an accepted annotation mentions each argument and each local
variable of the function, and a name that is neither is rejected. -/
theorem full_invariant_mentions_variables (name : String) {fn : Coq.FuncDef}
    {annot : FunctionAnnot} (argsDistinct : (fn.args.map Prod.fst).Nodup)
    (varsDistinct : (fn.vars.map Prod.fst).Nodup) (printExist : Bool) (sd : StateDescr) :
    (∀ out, ppStateDescr name fn annot true printExist sd = .ok out →
      FullInvariant fn annot sd out.conjuncts) ∧
    ∀ id ∈ sd.invVars.map Prod.fst, id ∉ fn.args.map Prod.fst →
      id ∉ fn.vars.map Prod.fst →
      ∀ out, ppStateDescr name fn annot true printExist sd ≠ .ok out := by
  refine ⟨fun out run => fullInvariant_of_ok argsDistinct varsDistinct run, ?_⟩
  intro id listed notArg notLocal out run
  rcases oneOf_of_ok run id listed with ⟨isArg, -⟩ | ⟨-, isLocal⟩
  · exact notArg isArg
  · exact notLocal isLocal

/-- A function with the arguments `l` and `n` and the local variables `i` and `r`. -/
def sumList : Coq.FuncDef :=
  ⟨[("l", .ptr), ("n", .int (.size false))], [("i", .int (.size false)), ("r", .ptr)], "#0", []⟩

def sumListAnnot : FunctionAnnot :=
  ⟨[], [], [], [.params "list_t" [], .params "nat" []], .params "nat" [], [],
    [], [], [], .normal⟩

/-- Lists `i` and `l`. -/
def sumListInv : StateDescr := ⟨[], [], [("i", .params "int" []), ("l", .params "rest_t" [])]⟩

theorem full_invariant_mentions_variables_sumList :
    ∃ out, ppStateDescr "sum_list" sumList sumListAnnot true true sumListInv = .ok out ∧
      out.conjuncts = [.own "arg_n" (.params "nat" []), .uninit "local_r" .ptr,
        .own "local_i" (.params "int" []), .own "arg_l" (.params "rest_t" [])] ∧
      FullInvariant sumList sumListAnnot sumListInv out.conjuncts :=
  ⟨_, rfl, rfl, (full_invariant_mentions_variables "sum_list" (by decide) (by decide) true
    sumListInv).1 _ rfl⟩

end

end RefinedC.Frontend
