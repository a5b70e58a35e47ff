import RefinedC.Frontend.Locals

/-!
Labels that a translation leaves alone.

Source: `fresh_block_id` and `add_block` of `frontend/ail_to_coq.ml`.

Owns: which keys a translation can add to the block map, and the invariant that
allocated names and the labels of the innermost switch are not keys yet.
-/

namespace RefinedC.Frontend

open Library

theorem blockName_inj {m n : Nat} (same : blockName m = blockName n) : m = n := by
  have chars := congrArg String.toList same
  simp only [blockName, String.toList_append] at chars
  have digits := congrArg (fun ds => Nat.ofDigitChars 10 ds 0) (List.append_cancel_left chars)
  simpa [Nat.toString_eq_ofList_toDigits] using digits

/-! ## Keys that are not added -/

/-- The label is neither a name that will be allocated nor one of the next labels of the
innermost switch. -/
structure Avoids (id : String) (σ : State) : Prop where
  notFresh : ∀ n, σ.blockId ≤ n → id ≠ blockName n
  notTop : ∀ data ∈ σ.switches.head?, id ≠ data.curLabel ∧ id ≠ data.nextLabel

/-- Between two states, only the given labels and names that the first one does not
avoid become keys. -/
structure Frames (labels : List String) (σ σ' : State) : Prop where
  avoids : ∀ id, id ∉ labels → Avoids id σ → Avoids id σ'
  blocks : ∀ id, id ∉ labels → Avoids id σ → σ'.blocks.lookup id = σ.blocks.lookup id
  blockId : σ.blockId ≤ σ'.blockId

section

variable {labels labels' : List String} {σ σ1 σ' : State} {id : String}

theorem Frames.refl (σ : State) : Frames [] σ σ :=
  ⟨fun _ _ avoids => avoids, fun _ _ _ => rfl, Nat.le_refl _⟩

theorem Frames.trans (first : Frames labels σ σ1) (second : Frames labels' σ1 σ') :
    Frames (labels ++ labels') σ σ' := by
  refine ⟨fun id other avoids => ?_, fun id other avoids => ?_,
    first.blockId.trans second.blockId⟩
  · rw [List.mem_append, not_or] at other
    exact second.avoids id other.2 (first.avoids id other.1 avoids)
  · rw [List.mem_append, not_or] at other
    rw [second.blocks id other.2 (first.avoids id other.1 avoids),
      first.blocks id other.1 avoids]

theorem Frames.mono (frames : Frames labels σ σ') (sub : labels ⊆ labels') :
    Frames labels' σ σ' :=
  ⟨fun id other => frames.avoids id fun member => other (sub member),
    fun id other => frames.blocks id fun member => other (sub member), frames.blockId⟩

/-- A label that the first state does not avoid need not be listed. -/
theorem Frames.drop (frames : Frames labels σ σ')
    (known : ∀ id ∈ labels, id ∈ labels' ∨ ¬ Avoids id σ) : Frames labels' σ σ' := by
  have absent {id : String} (other : id ∉ labels') (avoids : Avoids id σ) : id ∉ labels :=
    fun member => (known id member).elim other fun notAvoids => notAvoids avoids
  exact ⟨fun id other avoids => frames.avoids id (absent other avoids) avoids,
    fun id other avoids => frames.blocks id (absent other avoids) avoids, frames.blockId⟩

private theorem not_avoids_blockName {n : Nat} (fresh : σ.blockId ≤ n) :
    ¬ Avoids (blockName n) σ :=
  fun avoids => avoids.notFresh n fresh rfl

theorem fresh_frames (σ : State) : Frames [] σ σ.fresh :=
  ⟨fun _ _ avoids =>
    ⟨fun n later => avoids.notFresh n (Nat.le_of_succ_le later), avoids.notTop⟩,
    fun _ _ _ => rfl, Nat.le_succ _⟩

private theorem addBlock_frames {s : Coq.Stmt} (run : addBlock id s σ = .ok ((), σ')) :
    Frames [id] σ σ' := by
  obtain ⟨-, rfl⟩ := addBlock_eq_ok.mp run
  refine ⟨fun _ _ avoids => ⟨avoids.notFresh, avoids.notTop⟩,
    fun id' other _ => ?_, Nat.le_refl _⟩
  rw [List.mem_singleton] at other
  rw [List.lookup_cons, beq_false_of_ne other]

/-- Steps that change neither the blocks nor the switches. -/
theorem frames_of_same (blocks : σ'.blocks = σ.blocks) (switches : σ'.switches = σ.switches)
    (blockId : σ'.blockId = σ.blockId) : Frames [] σ σ' :=
  ⟨fun _ _ avoids => ⟨fun n later => avoids.notFresh n (blockId ▸ later),
    fun data member => avoids.notTop data (switches ▸ member)⟩, fun _ _ _ => by rw [blocks],
    Nat.le_of_eq blockId.symm⟩

theorem inExpr_frames {α : Type} {ctx : Ctx} {m : Ctx → ExprM α} {a : α}
    (run : inExpr ctx m σ = .ok (a, σ')) : Frames [] σ σ' := by
  obtain ⟨used, -, rfl⟩ := inExpr_eq_ok.mp run
  exact frames_of_same rfl rfl rfl

theorem insertBindings_frames {bindings : List (Sym × CType)}
    (run : insertBindings bindings σ = .ok ((), σ')) : Frames [] σ σ' := by
  obtain ⟨vars, rfl⟩ := insertBindings_others run
  exact frames_of_same rfl rfl rfl

private theorem addDecls_frames {ctx : Ctx} {ds : List (Sym × Option Expr)} {t t' : Coq.Stmt}
    (run : ds.foldrM (addDecl ctx) t σ = .ok (t', σ')) : Frames [] σ σ' := by
  obtain ⟨used, rfl⟩ := addDecls_others run
  exact frames_of_same rfl rfl rfl

/-! ## Switches -/

/-- After a label has been registered, the next labels are the old next one and a new
name. -/
theorem registered_frames {data data' : SwitchData} {rest : List SwitchData}
    (top : σ.switches = data :: rest) (cur : data'.curLabel = data.nextLabel)
    (next : data'.nextLabel = blockName σ.blockId) :
    Frames [] σ { σ.fresh with switches := data' :: rest } := by
  refine ⟨fun id _ avoids => ⟨fun n later => avoids.notFresh n (Nat.le_of_succ_le later), ?_⟩,
    fun _ _ _ => rfl, Nat.le_succ _⟩
  intro d isTop
  cases isTop
  have notTop := avoids.notTop data (by rw [top]; rfl)
  exact ⟨cur ▸ notTop.2, next ▸ avoids.notFresh _ (Nat.le_refl _)⟩

/-- Filling an entry keeps the labels of a switch. -/
theorem filled_frames {data data' : SwitchData} {rest : List SwitchData}
    (top : σ.switches = data :: rest) (cur : data'.curLabel = data.curLabel)
    (next : data'.nextLabel = data.nextLabel) :
    Frames [] σ { σ with switches := data' :: rest } := by
  refine ⟨fun id _ avoids => ⟨avoids.notFresh, ?_⟩, fun _ _ _ => rfl, Nat.le_refl _⟩
  intro d isTop
  cases isTop
  have notTop := avoids.notTop data (by rw [top]; rfl)
  exact ⟨cur ▸ notTop.1, next ▸ notTop.2⟩

private theorem setCase_frames {ref : Nat} {s : Coq.Stmt} (run : setCase ref s σ = .ok ((), σ')) :
    Frames [] σ σ' := by
  obtain ⟨data, rest, top, rfl⟩ := setCase_eq_ok.mp run
  exact filled_frames top rfl rfl

private theorem setDefault_frames {s : Coq.Stmt} (run : setDefault s σ = .ok ((), σ')) :
    Frames [] σ σ' := by
  obtain ⟨data, rest, top, rfl⟩ := setDefault_eq_ok.mp run
  exact filled_frames top rfl rfl

private theorem not_avoids_top {data : SwitchData} {rest : List SwitchData}
    (top : σ.switches = data :: rest) : ¬ Avoids data.curLabel σ :=
  fun avoids => (avoids.notTop data (by rw [top]; rfl)).1 rfl

/-- A switch adds its labels, and leaves the enclosing switch as it is. -/
theorem switch_frames {data0 data : SwitchData} {cases : List Int} {default : Bool}
    {σ3 σ4 σ5 : State}
    (names : data0.curLabel = blockName σ.blockId ∧ data0.nextLabel = blockName (σ.blockId + 1))
    (body : Frames labels { σ.fresh.fresh with switches := data0 :: σ.switches } σ3)
    (grows : Grows cases default { σ.fresh.fresh with switches := data0 :: σ.switches } σ3)
    (popped : popSwitch σ3 = .ok (data, σ4)) {s : Coq.Stmt}
    (added : addBlock data.curLabel s σ4 = .ok ((), σ5)) : Frames labels σ σ5 := by
  obtain ⟨rest, top, rfl⟩ := popSwitch_eq_ok.mp popped
  obtain ⟨data', top', -⟩ := grows.switches
  rw [top] at top'
  cases top'
  have pushed {id : String} (avoids : Avoids id σ) :
      Avoids id { σ.fresh.fresh with switches := data0 :: σ.switches } := by
    refine ⟨fun n later => avoids.notFresh n (by have : σ.blockId + 1 + 1 ≤ n := later; omega),
      ?_⟩
    intro d isTop
    cases isTop
    exact ⟨names.1 ▸ avoids.notFresh _ (Nat.le_refl _),
      names.2 ▸ avoids.notFresh _ (Nat.le_succ _)⟩
  have outer : Frames labels σ { σ3 with switches := σ.switches } :=
    ⟨fun id other avoids => ⟨(body.avoids id other (pushed avoids)).notFresh, avoids.notTop⟩,
      fun id other avoids => body.blocks id other (pushed avoids),
      (Nat.le_add_right _ 2).trans body.blockId⟩
  refine (outer.trans (addBlock_frames added)).drop fun id member => ?_
  rcases List.mem_append.mp member with isLabel | isCur
  · exact .inl isLabel
  · rw [List.mem_singleton.mp isCur]
    by_cases isLabel : data.curLabel ∈ labels
    · exact .inl isLabel
    · refine .inr fun avoids => ?_
      exact ((body.avoids _ isLabel (pushed avoids)).notTop data (by rw [top]; rfl)).1 rfl

/-- A name that was allocated after the first state need not be listed. -/
theorem Frames.addName {n : Nat} {s : Coq.Stmt} (frames : Frames labels σ σ1)
    (fresh : σ.blockId ≤ n) (added : addBlock (blockName n) s σ1 = .ok ((), σ')) :
    Frames labels σ σ' := by
  refine (frames.trans (addBlock_frames added)).drop fun id member => ?_
  rcases List.mem_append.mp member with isLabel | isName
  · exact .inl isLabel
  · rw [List.mem_singleton.mp isName]
    exact .inr (not_avoids_blockName fresh)

/-- Steps that add no key. -/
theorem Frames.after (frames : Frames labels σ σ1) (plain : Frames [] σ1 σ') :
    Frames labels σ σ' :=
  (frames.trans plain).mono (by simp)

theorem Frames.before (plain : Frames [] σ σ1) (frames : Frames labels σ1 σ') :
    Frames labels σ σ' :=
  (plain.trans frames).mono (List.Subset.refl _)

/-- A translation adds the labels of its statements, and names that it allocates or that
belong to the innermost switch. -/
theorem Translates.frames {ctx : Ctx} {retTy : Option Coq.OpType} {ks : List KData}
    {stmts : List Stmt} {t : Coq.Stmt} (run : Translates ctx retTy σ ks stmts t σ') :
    Frames (labelsOfList stmts) σ σ' := by
  induction run with
  | nil => exact .refl _
  | block inserted _ body =>
      rw [labelsOfList_append] at body
      exact (insertBindings_frames inserted).before body
  | goto _ rest | returnVoid _ rest | breakS _ _ rest | continueS _ _ rest | skip _ rest =>
      exact rest
  | returnS _ translated rest | expr _ translated rest =>
      exact rest.after (inExpr_frames translated)
  | @ifLast σ _ σ2 σ3 _ _ _ _ _ _ _ _ _ _ _ added1 _ added2 translated branch1 branch2 =>
      have first := ((fresh_frames σ).before branch1).addName (Nat.le_refl _) added1
      have second := ((fresh_frames σ2).before branch2).addName (Nat.le_refl _) added2
      refine ((first.trans second).after (inExpr_frames translated)).mono ?_
      simp [labelsOfList, labelsOf]
  | @ifCont σ _ σ2 _ σ4 _ _ _ _ _ _ _ _ _ _ _ _ _ _ _ addedCont _ added1 _ added2 translated cont
      branch1 branch2 =>
      have rest := ((fresh_frames σ).before cont).addName (Nat.le_refl _) addedCont
      have first := ((fresh_frames σ2).before branch1).addName (Nat.le_refl _) added1
      have second := ((fresh_frames σ4).before branch2).addName (Nat.le_refl _) added2
      refine ((rest.trans (first.trans second)).after (inExpr_frames translated)).mono ?_
      intro id
      simp only [labelsOfList, labelsOf, List.mem_append]
      grind
  | @whileS σ _ _ _ _ _ _ _ _ _ _ _ _ _ _ _ addedCont _ addedBody translated addedCond cont body
  | @doS σ _ _ _ _ _ _ _ _ _ _ _ _ _ _ _ addedCont _ addedBody translated addedCond cont body =>
      have allocated : Frames [] σ σ.fresh.fresh.fresh :=
        (fresh_frames σ).before ((fresh_frames _).before (fresh_frames _))
      have rest := (allocated.before cont).addName (Nat.le_add_right _ 2) addedCont
      have loop := (((rest.trans body).addName (Nat.le_add_right _ 1) addedBody).after
        (inExpr_frames translated)).addName (Nat.le_refl _) addedCond
      refine loop.mono fun id => ?_
      simp only [labelsOfList, labelsOf, List.mem_append]
      grind
  | @switch σ _ σ2 _ _ _ _ _ _ _ _ _ _ _ _ _ _ _ _ addedCont _ runBody popped _ _ addedLast
      translated cont body =>
      have rest := ((fresh_frames σ).before cont).addName (Nat.le_refl _) addedCont
      have inner := switch_frames ⟨rfl, rfl⟩ body runBody.grows popped addedLast
      refine ((rest.trans inner).after (inExpr_frames translated)).mono fun id => ?_
      simp only [labelsOfList, labelsOf, List.mem_append]
      grind
  | caseS registered _ added filled body =>
      obtain ⟨data, rest, top, -, -, rfl, -, rfl⟩ := registerCase_eq_ok registered
      have all :=
        (((registered_frames top rfl rfl).before body).trans (addBlock_frames added)).after
          (setCase_frames filled)
      refine all.drop fun id member => ?_
      rcases List.mem_append.mp member with isLabel | isCur
      · exact .inl isLabel
      · rw [List.mem_singleton.mp isCur]
        exact .inr (not_avoids_top top)
  | default registered _ added filled body =>
      obtain ⟨data, rest, top, -, rfl, -, rfl⟩ := registerDefault_eq_ok registered
      have all :=
        (((registered_frames top rfl rfl).before body).trans (addBlock_frames added)).after
          (setDefault_frames filled)
      refine all.drop fun id member => ?_
      rcases List.mem_append.mp member with isLabel | isCur
      · exact .inl isLabel
      · rw [List.mem_singleton.mp isCur]
        exact .inr (not_avoids_top top)
  | label _ added body =>
      refine (body.trans (addBlock_frames added)).mono fun id => ?_
      simp only [labelsOfList, labelsOf, List.mem_append, List.mem_cons]
      grind
  | declaration _ declared rest => exact rest.after (addDecls_frames declared)

/-! ## Names and labels that are no keys yet -/

/-- A label that can be added, and that nothing else will add. -/
structure Spare (id : String) (σ : State) : Prop where
  avoids : Avoids id σ
  absent : σ.blocks.lookup id = none

/-- An allocated name without a block. -/
structure Unkeyed (σ : State) (n : Nat) : Prop where
  allocated : n < σ.blockId
  absent : σ.blocks.lookup (blockName n) = none

/-- Names that are not allocated are no keys, and neither are the next labels of the
innermost switch, which are two names. -/
structure Ready (σ : State) : Prop where
  fresh : ∀ n, σ.blockId ≤ n → σ.blocks.lookup (blockName n) = none
  top : ∀ data ∈ σ.switches.head?, ∃ cur next, data.curLabel = blockName cur ∧
    data.nextLabel = blockName next ∧ cur ≠ next ∧ Unkeyed σ cur ∧ Unkeyed σ next

theorem Spare.frames (spare : Spare id σ) (frames : Frames labels σ σ') (other : id ∉ labels) :
    Spare id σ' :=
  ⟨frames.avoids id other spare.avoids,
    (frames.blocks id other spare.avoids).trans spare.absent⟩

theorem Spare.other {id' : String} {s : Coq.Stmt} (spare : Spare id σ) (other : id ≠ id')
    (added : Frontend.addBlock id' s σ = .ok ((), σ')) : Spare id σ' :=
  spare.frames (addBlock_frames added) (by simpa using other)

theorem Spare.addBlock {s : Coq.Stmt} (spare : Spare id σ) :
    ∃ σ', addBlock id s σ = .ok ((), σ') :=
  ⟨_, addBlock_eq_ok.mpr ⟨spare.absent, rfl⟩⟩

section

variable (ready : Ready σ)

include ready

private theorem Ready.avoids_name {n k : Nat} (notBefore : σ.blockId ≤ n) (allocated : n < k) :
    Avoids (blockName n) { σ with blockId := k } := by
  refine ⟨fun m later same => ?_, fun data isTop => ?_⟩
  · rw [blockName_inj same] at allocated
    exact absurd later (Nat.not_le.mpr allocated)
  · obtain ⟨cur, next, isCur, isNext, -, unkeyedCur, unkeyedNext⟩ := ready.top data isTop
    rw [isCur, isNext]
    have beforeCur := unkeyedCur.allocated
    have beforeNext := unkeyedNext.allocated
    exact ⟨fun same => by rw [blockName_inj same] at notBefore; omega,
      fun same => by rw [blockName_inj same] at notBefore; omega⟩

/-- A name that is allocated now is spare. -/
theorem Ready.spare_name {n k : Nat} (notBefore : σ.blockId ≤ n) (allocated : n < k) :
    Spare (blockName n) { σ with blockId := k } :=
  ⟨ready.avoids_name notBefore allocated, ready.fresh n notBefore⟩

/-- A label of the source is spare until it is added. -/
theorem Ready.spare_label (notName : ∀ n, id ≠ blockName n)
    (absent : σ.blocks.lookup id = none) :
    Spare id σ := by
  refine ⟨⟨fun n _ => notName n, fun data isTop => ?_⟩, absent⟩
  obtain ⟨cur, next, isCur, isNext, -⟩ := ready.top data isTop
  rw [isCur, isNext]
  exact ⟨notName cur, notName next⟩

theorem Ready.allocate {k : Nat} (grows : σ.blockId ≤ k) : Ready { σ with blockId := k } := by
  refine ⟨fun n later => ready.fresh n (grows.trans later), fun data isTop => ?_⟩
  obtain ⟨cur, next, isCur, isNext, differ, unkeyedCur, unkeyedNext⟩ := ready.top data isTop
  exact ⟨cur, next, isCur, isNext, differ,
    ⟨Nat.lt_of_lt_of_le unkeyedCur.allocated grows, unkeyedCur.absent⟩,
    ⟨Nat.lt_of_lt_of_le unkeyedNext.allocated grows, unkeyedNext.absent⟩⟩

theorem Ready.of_same (blocks : σ'.blocks = σ.blocks) (switches : σ'.switches = σ.switches)
    (blockId : σ'.blockId = σ.blockId) : Ready σ' := by
  refine ⟨fun n later => ?_, fun data isTop => ?_⟩
  · rw [blocks]
    exact ready.fresh n (blockId ▸ later)
  · obtain ⟨cur, next, isCur, isNext, differ, unkeyedCur, unkeyedNext⟩ :=
      ready.top data (switches ▸ isTop)
    exact ⟨cur, next, isCur, isNext, differ,
      ⟨blockId ▸ unkeyedCur.allocated, by rw [blocks]; exact unkeyedCur.absent⟩,
      ⟨blockId ▸ unkeyedNext.allocated, by rw [blocks]; exact unkeyedNext.absent⟩⟩

theorem Ready.addBlock {s : Coq.Stmt} (avoids : Avoids id σ)
    (run : addBlock id s σ = .ok ((), σ')) : Ready σ' := by
  obtain ⟨-, rfl⟩ := addBlock_eq_ok.mp run
  have keeps {n : Nat} (other : id ≠ blockName n)
      (absent : σ.blocks.lookup (blockName n) = none) :
      ((id, s) :: σ.blocks).lookup (blockName n) = none := by
    rw [List.lookup_cons, beq_false_of_ne (Ne.symm other)]
    exact absent
  refine ⟨fun n later => keeps (avoids.notFresh n later) (ready.fresh n later),
    fun data isTop => ?_⟩
  obtain ⟨cur, next, isCur, isNext, differ, unkeyedCur, unkeyedNext⟩ := ready.top data isTop
  have notTop := avoids.notTop data isTop
  rw [isCur, isNext] at notTop
  exact ⟨cur, next, isCur, isNext, differ,
    ⟨unkeyedCur.allocated, keeps notTop.1 unkeyedCur.absent⟩,
    ⟨unkeyedNext.allocated, keeps notTop.2 unkeyedNext.absent⟩⟩

theorem Ready.inExpr {α : Type} {ctx : Ctx} {m : Ctx → ExprM α} {a : α}
    (run : inExpr ctx m σ = .ok (a, σ')) : Ready σ' := by
  obtain ⟨used, -, rfl⟩ := inExpr_eq_ok.mp run
  exact ready.of_same rfl rfl rfl

theorem Ready.insertBindings {bindings : List (Sym × CType)}
    (run : insertBindings bindings σ = .ok ((), σ')) : Ready σ' := by
  obtain ⟨vars, rfl⟩ := insertBindings_others run
  exact ready.of_same rfl rfl rfl

/-- The label of a registered case is spare, and the next labels are two names. -/
theorem Ready.registered {data data' : SwitchData} {rest : List SwitchData}
    (top : σ.switches = data :: rest) (isCur : data'.curLabel = data.nextLabel)
    (isNext : data'.nextLabel = blockName σ.blockId) :
    Ready { σ.fresh with switches := data' :: rest } ∧
      Spare data.curLabel { σ.fresh with switches := data' :: rest } := by
  obtain ⟨cur, next, wasCur, wasNext, differ, unkeyedCur, unkeyedNext⟩ :=
    ready.top data (by rw [top]; rfl)
  have beforeCur := unkeyedCur.allocated
  have beforeNext := unkeyedNext.allocated
  refine ⟨⟨fun n later => ready.fresh n (Nat.le_of_succ_le later), fun d isTop => ?_⟩,
    ⟨fun n later => ?_, fun d isTop => ?_⟩, ?_⟩
  · cases isTop
    exact ⟨next, σ.blockId, isCur.trans wasNext, isNext, Nat.ne_of_lt beforeNext,
      ⟨Nat.lt_succ_of_lt beforeNext, unkeyedNext.absent⟩,
      ⟨Nat.lt_succ_self _, ready.fresh _ (Nat.le_refl _)⟩⟩
  · rw [wasCur]
    intro same
    have later : σ.blockId + 1 ≤ n := later
    rw [blockName_inj same] at beforeCur
    omega
  · cases isTop
    rw [wasCur, isCur, wasNext, isNext]
    exact ⟨fun same => differ (blockName_inj same), fun same => by
      rw [blockName_inj same] at beforeCur
      omega⟩
  · rw [wasCur]
    exact unkeyedCur.absent

theorem Ready.filled {data data' : SwitchData} {rest : List SwitchData}
    (top : σ.switches = data :: rest) (cur : data'.curLabel = data.curLabel)
    (next : data'.nextLabel = data.nextLabel) :
    Ready { σ with switches := data' :: rest } := by
  refine ⟨ready.fresh, fun d isTop => ?_⟩
  cases isTop
  obtain ⟨c, n, isCur, isNext, differ, unkeyedCur, unkeyedNext⟩ :=
    ready.top data (by rw [top]; rfl)
  exact ⟨c, n, cur.trans isCur, next.trans isNext, differ,
    ⟨unkeyedCur.allocated, unkeyedCur.absent⟩,
      ⟨unkeyedNext.allocated, unkeyedNext.absent⟩⟩

theorem Ready.setCase {ref : Nat} {s : Coq.Stmt} (run : setCase ref s σ = .ok ((), σ')) :
    Ready σ' := by
  obtain ⟨data, rest, top, rfl⟩ := setCase_eq_ok.mp run
  exact ready.filled top rfl rfl

theorem Ready.setDefault {s : Coq.Stmt} (run : setDefault s σ = .ok ((), σ')) : Ready σ' := by
  obtain ⟨data, rest, top, rfl⟩ := setDefault_eq_ok.mp run
  exact ready.filled top rfl rfl

theorem Ready.pushSwitch {data0 : SwitchData}
    (names : data0.curLabel = blockName σ.blockId ∧
      data0.nextLabel = blockName (σ.blockId + 1)) :
    Ready { σ.fresh.fresh with switches := data0 :: σ.switches } := by
  refine ⟨fun n later => ready.fresh n ((Nat.le_add_right _ 2).trans later), fun d isTop => ?_⟩
  cases isTop
  exact ⟨σ.blockId, σ.blockId + 1, names.1, names.2, Nat.ne_of_lt (Nat.lt_succ_self _),
    ⟨Nat.lt_add_of_pos_right Nat.two_pos, ready.fresh _ (Nat.le_refl _)⟩,
    ⟨Nat.lt_succ_self _, ready.fresh _ (Nat.le_succ _)⟩⟩

/-- After the body of a switch, the enclosing switch is as before, and the last label of
the inner one is spare. -/
theorem Ready.popSwitch {data0 data : SwitchData} {cases : List Int} {default : Bool}
    {σ3 σ4 : State}
    (names : data0.curLabel = blockName σ.blockId ∧ data0.nextLabel = blockName (σ.blockId + 1))
    (notNames : ∀ l ∈ labels, ∀ n, l ≠ blockName n)
    (body : Frames labels { σ.fresh.fresh with switches := data0 :: σ.switches } σ3)
    (grows : Grows cases default { σ.fresh.fresh with switches := data0 :: σ.switches } σ3)
    (ready3 : Ready σ3) (popped : popSwitch σ3 = .ok (data, σ4)) :
    Ready σ4 ∧ Spare data.curLabel σ4 := by
  obtain ⟨rest, top, rfl⟩ := popSwitch_eq_ok.mp popped
  obtain ⟨data', top', -⟩ := grows.switches
  rw [top] at top'
  cases top'
  -- the labels of the enclosing switch are not used by the body
  have old {n : Nat} (unkeyed : Unkeyed σ n) :
      Spare (blockName n) { σ.fresh.fresh with switches := data0 :: σ.switches } := by
    have before := unkeyed.allocated
    refine ⟨⟨fun m later same => ?_, fun d isTop => ?_⟩, unkeyed.absent⟩
    · have later : σ.blockId + 1 + 1 ≤ m := later
      rw [blockName_inj same] at before
      omega
    · cases isTop
      rw [names.1, names.2]
      exact ⟨fun same => by rw [blockName_inj same] at before; omega,
        fun same => by rw [blockName_inj same] at before; omega⟩
  have kept {n : Nat} (unkeyed : Unkeyed σ n) : Spare (blockName n) σ3 :=
    (old unkeyed).frames body fun member => notNames _ member n rfl
  have grown : σ.blockId ≤ σ3.blockId := (Nat.le_add_right _ 2).trans body.blockId
  obtain ⟨cur, next, isCur, -, -, unkeyedCur, -⟩ := ready3.top data (by rw [top]; rfl)
  refine ⟨⟨ready3.fresh, fun d isTop => ?_⟩, ⟨fun n later => ?_, fun d isTop => ?_⟩, ?_⟩
  · obtain ⟨cur, next, isCur, isNext, differ, unkeyedCur, unkeyedNext⟩ := ready.top d isTop
    exact ⟨cur, next, isCur, isNext, differ,
      ⟨Nat.lt_of_lt_of_le unkeyedCur.allocated grown, (kept unkeyedCur).absent⟩,
      ⟨Nat.lt_of_lt_of_le unkeyedNext.allocated grown, (kept unkeyedNext).absent⟩⟩
  · rw [isCur]
    intro same
    have before := unkeyedCur.allocated
    rw [blockName_inj same] at before
    exact absurd later (Nat.not_le.mpr before)
  · obtain ⟨cur', next', isCur', isNext', -, unkeyedCur', unkeyedNext'⟩ := ready.top d isTop
    have notCur := ((kept unkeyedCur').avoids.notTop data (by rw [top]; rfl)).1
    have notNext := ((kept unkeyedNext').avoids.notTop data (by rw [top]; rfl)).1
    rw [isCur', isNext']
    exact ⟨Ne.symm notCur, Ne.symm notNext⟩
  · rw [isCur]
    exact unkeyedCur.absent

end

/-- The labels of the source are not names of blocks. -/
def NotNames (labels : List String) : Prop := ∀ l ∈ labels, ∀ n, l ≠ blockName n

theorem NotNames.mono (notNames : NotNames labels) (sub : labels' ⊆ labels) : NotNames labels' :=
  fun l member => notNames l (sub member)

theorem NotNames.blockName_not_mem (notNames : NotNames labels) (n : Nat) :
    blockName n ∉ labels := fun member => notNames _ member n rfl

/-- A name that was allocated before a translation is spare after it. -/
theorem Ready.spare_after {ctx : Ctx} {retTy : Option Coq.OpType} {ks : List KData}
    {stmts : List Stmt} {t : Coq.Stmt} {n k : Nat} (ready : Ready σ) (notBefore : σ.blockId ≤ n)
    (allocated : n < k) (notNames : NotNames (labelsOfList stmts))
    (run : Translates ctx retTy { σ with blockId := k } ks stmts t σ') :
    Spare (blockName n) σ' :=
  (ready.spare_name notBefore allocated).frames run.frames (notNames.blockName_not_mem n)

end

end RefinedC.Frontend
