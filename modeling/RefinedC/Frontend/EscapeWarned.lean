import RefinedC.Frontend.EscapeCoverage

/-!
Escaping pointers are reported.

Owns: what holds in every run of a function for which nothing is reported, that a pointer to
a variable of a block which such a run stores does not outlive the variable, and the array
whose escaping address is not reported.

Source: `warn_file` of `frontend/warn.ml`.
-/

namespace RefinedC.Frontend.Escape

open Library

/-! ## Depths of the blocks that are being executed -/

private theorem numbers_scopesOf (frames : List Frame) :
    (scopesOf frames).map Prod.fst = frames.map Frame.depth := by
  simp [scopesOf]

/-- The innermost block is the deepest one. -/
theorem depth_le_head {frames : List Frame} {fr fr0 : Frame}
    (nested : (frames.map Frame.depth).Pairwise (· > ·)) (inside : fr ∈ frames)
    (isHead : frames.head? = some fr0) : fr.depth ≤ fr0.depth := by
  cases frames with
  | nil => nomatch inside
  | cons fr' frames =>
      cases isHead
      rcases List.mem_cons.mp inside with rfl | inside
      · exact Nat.le_refl _
      · exact Nat.le_of_lt ((List.pairwise_cons.mp nested).1 _ (List.mem_map_of_mem inside))

section

variable [AilTypesAux]

/-! ## States of the analysis -/

/-- The state of the analysis in front of the store `k`. -/
def At (sigm : Sigma) (stores : List Store) (st : EscapeState) (k : Nat) (stk : EscapeState) :
    Prop :=
  (stores.take k).foldlM (visit sigm) st = .ok stk

section

variable {sigm : Sigma} {stores : List Store} {st st' : EscapeState}

/-- A store is visited in front of the stores that come later. -/
theorem at_store {k : Nat} {store : Store} (run : stores.foldlM (visit sigm) st = .ok st')
    (isStore : stores[k]? = some store) :
    ∃ stk stk1, At sigm stores st k stk ∧ visit sigm stk store = .ok stk1 ∧
      At sigm stores st (k + 1) stk1 ∧
      (escapeWarning ∈ stk1.warnings → escapeWarning ∈ st'.warnings) := by
  obtain ⟨bound, isStore⟩ := List.getElem?_eq_some_iff.mp isStore
  have split : stores = stores.take k ++ (store :: stores.drop (k + 1)) := by
    rw [← isStore, List.getElem_cons_drop, List.take_append_drop]
  have next : stores.take (k + 1) = stores.take k ++ [store] := by
    rw [List.take_add_one, List.getElem?_eq_getElem bound, isStore]
    rfl
  rw [split, List.foldlM_append] at run
  obtain ⟨stk, before, run⟩ := bind_eq_ok.mp run
  rw [List.foldlM_cons] at run
  obtain ⟨stk1, here, after⟩ := bind_eq_ok.mp run
  refine ⟨stk, stk1, before, here, ?_, (foldlM_visit_grows after).2⟩
  rw [At, next]
  exact foldlM_visit_append before (foldlM_visit_cons here rfl)

private theorem at_grows {j k : Nat} {stj stk : EscapeState} (before : At sigm stores st j stj)
    (after : At sigm stores st k stk) (le : j ≤ k) : Grows stj.table stk.table := by
  have first : stores.take j = (stores.take k).take j := by
    rw [List.take_take, Nat.min_eq_left le]
  have split : stores.take k = stores.take j ++ (stores.take k).drop j := by
    rw [first, List.take_append_drop]
  rw [At, split, List.foldlM_append, before] at after
  exact (foldlM_visit_grows after).1

end

/-! ## What holds in a run -/

/-- What every visit of these stores preserves. -/
def Preserved (sigm : Sigma) (stores : List Store) (P : PtrTaints → Prop) : Prop :=
  ∀ store ∈ stores, ∀ st st', visit sigm st store = .ok st' → P st.table → P st'.table

/-- The analysis of a function that reports nothing. It starts where that of other functions
ended. -/
structure Quiet (sigm : Sigma) (others stores : List Store) (st st' : EscapeState) : Prop where
  run : stores.foldlM (visit sigm) st = .ok st'
  quiet : escapeWarning ∉ st'.warnings
  nested : ∀ store ∈ stores, Env.Nested store.env
  start : ∀ P : PtrTaints → Prop, P [] → Preserved sigm others P → P st.table

/-- The holder does not exist any longer than the variable. -/
def Shelters (σ : RunState) (holder : Object) (inst depth : Nat) : Prop :=
  ∃ inst' depth' s, holder = .var inst' depth' s ∧ inst' < σ.next ∧
    (σ.Alive inst' depth' → σ.Alive inst depth ∧ depth ≤ depth')

/-- After the store `k`, the table has a pointer to the variable for what the store names. -/
def Recorded (sigm : Sigma) (stores : List Store) (st : EscapeState) (k : Nat) (s : Sym)
    (depth : Nat) (x : Sym) : Prop :=
  ∀ j stj, k < j → At sigm stores st j stj →
    ∃ pts, stj.table.lookup s = some pts ∧ HasPointer pts depth x

/-- A store of the address of a variable has put a pointer to its object there. -/
def Addressed (sigm : Sigma) (stores : List Store) (o : Object) (k : Nat) : Prop :=
  ∀ store t, stores[k]? = some store → addressOf store.rhs = some t →
    ∃ frames, scopesOf frames = store.env.scopes ∧ denotes sigm frames t = some o

structure Settled (sigm : Sigma) (stores : List Store) (st : EscapeState) (σ : RunState) :
    Prop where
  nested : (σ.frames.map Frame.depth).Pairwise (· > ·)
  fresh : ∀ fr ∈ σ.frames, fr.inst < σ.next
  held : ∀ {o : Object} {inst depth k : Nat} {x s : Sym} {store : Store},
    ⟨o, .var inst depth x, some k⟩ ∈ σ.held → stores[k]? = some store →
      store.dest.place = some s →
      Shelters σ o inst depth ∧ Recorded sigm stores st k s depth x
  addressed : ∀ {holder o : Object} {k : Nat}, ⟨holder, o, some k⟩ ∈ σ.held →
    Addressed sigm stores o k

section

variable {sigm : Sigma} {others stores : List Store} {st st' : EscapeState} {σ σ' : RunState}

omit [AilTypesAux] in
private theorem isSetTo_of_mem {earlier : List Store} {s t : Sym}
    (isSet : isSetTo sigm earlier s t = true) {store : Store} (inside : store ∈ earlier) :
    isSetTo sigm [store] s t = true := by
  rw [isSetTo, Bool.and_eq_true] at isSet ⊢
  refine ⟨isSet.1, ?_⟩
  simpa using List.all_eq_true.mp isSet.2 store inside

/-- What all visits preserve holds in front of each store. -/
theorem Quiet.invariant {k : Nat} {stk : EscapeState} {P : PtrTaints → Prop}
    (quiet : Quiet sigm others stores st st') (here : At sigm stores st k stk) (start : P [])
    (preserved : Preserved sigm (others ++ stores.take k) P) : P stk.table := by
  have first := quiet.start P start fun store inside =>
    preserved store (List.mem_append_left _ inside)
  exact foldlM_visit_invariant (fun store inside =>
    preserved store (List.mem_append_right _ inside)) first here

theorem Quiet.unknown {k : Nat} {stk : EscapeState} {s : Sym}
    (quiet : Quiet sigm others stores st st') (here : At sigm stores st k stk)
    (isUnset : isUnset sigm (others ++ stores.take k) s = true) : Unknown s stk.table := by
  have unnamed := List.all_eq_true.mp (Bool.and_eq_true_iff.mp isUnset).2
  refine quiet.invariant here (unknown_nil s) fun store inside _ _ run unknown => ?_
  exact visit_unknown unknown (by simpa using unnamed store inside) run

theorem Quiet.setTo {k : Nat} {stk : EscapeState} {s t : Sym}
    (quiet : Quiet sigm others stores st st') (here : At sigm stores st k stk)
    (isSet : isSetTo sigm (others ++ stores.take k) s t = true) : SetTo s t stk.table :=
  quiet.invariant here (setTo_nil s t) fun _ inside _ _ run setTo =>
    visit_setTo setTo (isSetTo_of_mem isSet inside) run

/-- Pointers that are read through a pointer variable are in the table. -/
theorem readThrough_inTable {k : Nat} {stk : EscapeState} {env : Env} {e : Expr} {o : Object}
    {inst depth : Nat} {x : Sym} (quiet : Quiet sigm others stores st st')
    (settled : Settled sigm stores st σ) (here : At sigm stores st k stk)
    (scopes : scopesOf σ.frames = env.scopes)
    (isRead : ReadThrough sigm others stores σ k e o (.var inst depth x)) :
    (∃ fr ∈ σ.frames, fr.inst = inst ∧ fr.depth = depth) ∧
      ∀ pts, pointsToAux stk.table (classify sigm env) false e = .ok pts →
        HasPointer (getPtrTaints stk.table pts) depth x := by
  obtain ⟨s, t, holder, isThrough, isSet, denoted,
    ⟨k1, store1, held1, earlier1, isStore1, names1⟩,
      ⟨k2, store2, held2, earlier2, isStore2, names2⟩⟩ := isRead
  obtain ⟨⟨inst', depth', s', rfl, -, shelters⟩, recorded⟩ :=
    settled.held held2 isStore2 names2
  obtain ⟨⟨inst'', depth'', s'', rfl, -, shelters'⟩, recorded'⟩ :=
    settled.held held1 isStore1 names1
  constructor
  · rcases denotes_cases denoted with isGlobal | ⟨fr, inside, isVar⟩
    · cases isGlobal
    · cases isVar
      exact (shelters (shelters' ⟨fr, inside, rfl, rfl⟩).1).1
  · intro pts run
    obtain ⟨pts1, found1, pt1, isElement, -⟩ := recorded' k stk earlier1 here
    obtain ⟨pts2, found2, has⟩ := recorded k stk earlier2 here
    obtain ⟨pt, isPt, isSet' | ⟨isLvalue, -⟩⟩ := pointsToAux_through isThrough run
    · rw [classify_denotes scopes denoted] at isPt
      cases isPt
      rw [getPtrTaints_named (symOf_placeIn denoted), found1, Option.getD_some] at isSet'
      subst isSet'
      rw [getPtrTaints_of_symOf (List.ne_nil_of_mem (mem_ptsDeref.mpr isElement)) ?_ found2]
      · exact has
      · intro pt' inside
        obtain ⟨_, same, named⟩ :=
          (quiet.setTo here isSet).onlyTarget pts1 found1 _ (mem_ptsDeref.mp inside)
        cases same
        exact named
    · cases isLvalue

/-- The kept ways read pointers that are in the table. -/
theorem keptWays_readsInTable {k : Nat} {stk : EscapeState} {env : Env}
    (quiet : Quiet sigm others stores st st') (settled : Settled sigm stores st σ)
    (here : At sigm stores st k stk) (scopes : scopesOf σ.frames = env.scopes)
    (inst depth : Nat) (x : Sym) :
    ReadsInTable sigm σ.frames env (keptWays sigm others stores σ k) stk.table inst depth x where
  kinds := id
  reads := by
    rintro e o designates ⟨isPtr, ⟨s, isPlace, k', store, isHeld, earlier, isStore, names⟩ |
      isThrough⟩
    · obtain ⟨⟨inst', depth', s', isVar, -, shelters⟩, recorded⟩ :=
        settled.held isHeld isStore names
      obtain ⟨pts, found, has⟩ := recorded k stk earlier here
      have denoted := designates_place isPlace designates
      refine ⟨isPtr, ?_, fun places isSet => ?_⟩
      · rcases denotes_cases denoted with isGlobal | ⟨fr, inside, isVar'⟩
        · rw [isGlobal] at isVar
          cases isVar
        · rw [isVar'] at isVar
          cases isVar
          exact (shelters ⟨fr, inside, rfl, rfl⟩).1
      · obtain ⟨pt, isPt, rfl⟩ := pointsToAux_place isPlace isSet
        rw [classify_denotes scopes denoted] at isPt
        cases isPt
        rw [getPtrTaints_named (symOf_placeIn denoted), found]
        exact has
    · exact ⟨isPtr, readThrough_inTable quiet settled here scopes isThrough⟩

/-! ## Objects in the order of the analysis -/

/-- How an object is classified outside the innermost block. -/
def outerPlace : Object → Pointsto
  | .global s => .global s
  | .var _ depth s => .localIn depth s
  | .outside _ => .wild

omit [AilTypesAux] in
private theorem outlives_outerPlace {x : Sym} {o : Object} {inst depth : Nat} {pt : Pointsto}
    (alive : σ.Alive inst depth) (covers : Covers pt depth x)
    (outlives : Outlives σ o (.var inst depth x)) :
    gtPointsto (outerPlace o) (.ptrval pt) = true := by
  cases o with
  | global s | outside n =>
      rcases covers with covers | covers <;> simp [outerPlace, gtPointsto, stripPtrval, covers]
  | var inst' depth' s =>
      have shallower : depth' < depth := outlives.resolve_left (not_not.mpr alive)
      rcases covers with covers | covers <;>
        simp [outerPlace, gtPointsto, stripPtrval, covers, shallower]

omit [AilTypesAux] in
/-- An object that outlives a variable is above it in the order of the analysis. -/
theorem outlives_gtPointsto {s x : Sym} {o : Object} {inst depth : Nat} {pt : Pointsto}
    (nested : (σ.frames.map Frame.depth).Pairwise (· > ·))
    (found : denotes sigm σ.frames s = some o) (alive : σ.Alive inst depth)
    (covers : Covers pt depth x) (outlives : Outlives σ o (.var inst depth x)) :
    gtPointsto (placeIn σ.frames o) (.ptrval pt) = true := by
  have isOuter : placeIn σ.frames o = outerPlace o := by
    rcases denotes_cases found with rfl | ⟨fr, inside, rfl⟩
    · rfl
    · have shallower : fr.depth < depth := outlives.resolve_left (not_not.mpr alive)
      obtain ⟨fr', inside', -, rfl⟩ := alive
      -- the variable is in a deeper block, so the holder is not in the innermost one
      refine if_neg fun isHead => ?_
      obtain ⟨fr0, isHead, sameDepth⟩ := Option.map_eq_some_iff.mp isHead.symm
      have := depth_le_head nested inside' isHead
      omega
  rw [isOuter]
  exact outlives_outerPlace alive covers outlives

omit [AilTypesAux] in
private theorem denotes_variable {frames : List Frame} {s : Sym} {o : Object}
    (found : denotes sigm frames s = some o) : (!isFunction sigm s) = true := by
  rw [denotes] at found
  rw [isFunction]
  generalize sigm.declarations.lookup s = declared at found
  cases declared with
  | none => rfl
  | some decl =>
      cases decl with
      | object ty => rfl
      | function ret params => cases found

/-- A visited store that names a variable puts what it stores in its entry. -/
theorem visit_named {store : Store} {s : Sym} {stk stk1 : EscapeState}
    (run : visit sigm stk store = .ok stk1) (visited : store.visited = true)
    (isPlace : store.dest.place = some s) (isVariable : (!isFunction sigm s) = true) :
    ∃ xs2 pts, pointsTo stk.table (classify sigm store.env) store.rhs = .ok xs2 ∧
      stk1.table.lookup s = some pts ∧ xs2 ⊆ pts := by
  rw [visit, if_pos visited] at run
  split at run
  next e1 isDest =>
    rw [isDest] at isPlace
    obtain ⟨xs1, xs2, isSet1, isSet2, isTable, -⟩ := auxAssign_ok run
    obtain ⟨pt, isPt, rfl⟩ := pointsToAux_place isPlace isSet1
    obtain ⟨pts, found, inside⟩ :=
      assignTaints_named stk.table (classify_variable isPt isVariable) xs2
    exact ⟨xs2, pts, isSet2, isTable ▸ found, inside⟩
  next s' isDest =>
    rw [isDest] at isPlace
    cases isPlace
    obtain ⟨xs2, isSet2, run⟩ := bind_eq_ok.mp run
    cases run
    exact ⟨xs2, _, isSet2, lookup_addTaints_self _ _ _, List.subset_append_left _ _⟩

/-- What a store through a pointer variable stores to is in its points-to set. -/
theorem storeThrough_covered {k : Nat} {stk : EscapeState} {env : Env} {e : Expr} {o : Object}
    {pts : List Pointsto} (quiet : Quiet sigm others stores st st')
    (settled : Settled sigm stores st σ) (here : At sigm stores st k stk)
    (scopes : scopesOf σ.frames = env.scopes) (isThrough : StoreThrough sigm stores σ k e o)
    (run : pointsToAux stk.table (classify sigm env) true e = .ok pts) :
    .wild ∈ pts ∨ outerPlace o ∈ pts := by
  obtain ⟨s, t, holder, k', store, isThrough, denoted, isHeld, earlier, isStore, visited, isPlace,
    isAddress, notCurrent⟩ := isThrough
  obtain ⟨frames, scopes', denoted'⟩ := settled.addressed isHeld store t isStore isAddress
  have isClass := classify_denotes scopes' denoted'
  have isOuter : placeIn frames o = outerPlace o := by
    rcases denotes_cases denoted' with rfl | ⟨fr, -, rfl⟩
    · rfl
    · refine if_neg fun isHead => notCurrent ?_
      rw [isClass, placeIn, if_pos isHead]
  obtain ⟨stk0, stk1, -, visit, next, -⟩ := at_store quiet.run isStore
  obtain ⟨xs2, pts1, isSet2, found, inside⟩ :=
    visit_named visit visited isPlace (denotes_variable denoted)
  obtain ⟨pt, isPt, rfl⟩ := pointsToAux_addressOf isAddress isSet2
  rw [isClass, isOuter] at isPt
  cases isPt
  obtain ⟨pts2, found2, inside2⟩ := at_grows next here earlier s pts1 found
  obtain ⟨pt, isPt, isSet | ⟨-, isWild⟩⟩ := pointsToAux_through isThrough run
  · rw [classify_denotes scopes denoted] at isPt
    cases isPt
    rw [isSet, getPtrTaints_named (symOf_placeIn denoted), found2]
    exact .inr (mem_ptsDeref.mpr (inside2 (inside (List.mem_singleton_self _))))
  · exact .inl isWild

omit [AilTypesAux] in
private theorem wild_gtPointsto {depth : Nat} {x : Sym} {pt : Pointsto}
    (covers : Covers pt depth x) : gtPointsto .wild (.ptrval pt) = true := by
  rcases covers with covers | covers <;> simp [gtPointsto, stripPtrval, covers]

/-- What a tracked store stores to is above the variables that it outlives. -/
theorem tracked_gtPointsto {k : Nat} {stk : EscapeState} {store : Store} {o : Object}
    {inst depth : Nat} {x : Sym} {e : Expr} {xs : List Pointsto} {pt : Pointsto}
    (quiet : Quiet sigm others stores st st') (settled : Settled sigm stores st σ)
    (here : At sigm stores st k stk)
    (mayStore : MayStore sigm stores σ k store o (.var inst depth x))
    (tracked : Tracked sigm others stores σ k store o (.var inst depth x))
    (isDest : store.dest = .lvalue e)
    (isSet : pointsToAux stk.table (classify sigm store.env) true e = .ok xs)
    (alive : σ.Alive inst depth) (covers : Covers pt depth x)
    (outlives : Outlives σ o (.var inst depth x)) :
    ∃ pt' ∈ xs, gtPointsto pt' (.ptrval pt) = true := by
  rcases tracked.dest with ⟨s, isPlace⟩ | ⟨e', isDest', isUnknown | isThrough⟩
  · have dest := mayStore.dest
    rw [isDest] at isPlace dest
    have denoted := designates_place isPlace dest
    obtain ⟨pt', isPt, rfl⟩ := pointsToAux_place isPlace isSet
    rw [classify_denotes mayStore.here denoted] at isPt
    cases isPt
    exact ⟨_, List.mem_singleton_self _,
      outlives_gtPointsto settled.nested denoted alive covers outlives⟩
  · rw [isDest] at isDest'
    cases isDest'
    have wild := isUnknownPlace_wild
      (fun s isUnset => (quiet.unknown here isUnset).notSet) isUnknown isSet
    exact ⟨_, wild, wild_gtPointsto covers⟩
  · rw [isDest] at isDest'
    cases isDest'
    rcases storeThrough_covered quiet settled here mayStore.here isThrough isSet with
      wild | isOuter
    · exact ⟨_, wild, wild_gtPointsto covers⟩
    · exact ⟨_, isOuter, outlives_outerPlace alive covers outlives⟩

/-- A tracked store of a quiet function stores a pointer into an object that does not outlive
the variable, and the pointer is in the table from then on. -/
theorem tracked_settled {k : Nat} {store : Store} {o : Object} {inst depth : Nat} {x : Sym}
    (quiet : Quiet sigm others stores st st') (settled : Settled sigm stores st σ)
    (mayStore : MayStore sigm stores σ k store o (.var inst depth x))
    (tracked : Tracked sigm others stores σ k store o (.var inst depth x)) :
    ¬ Outlives σ o (.var inst depth x) ∧
      ∀ s, store.dest.place = some s → Recorded sigm stores st k s depth x := by
  obtain ⟨stk, stk1, here, visited, next, stays⟩ := at_store quiet.run mayStore.isStore
  have silent : escapeWarning ∉ stk1.warnings := quiet.quiet ∘ stays
  have inTable := keptWays_readsInTable quiet settled here mayStore.here inst depth x
  have later : ∀ s pts, stk1.table.lookup s = some pts → HasPointer pts depth x →
      Recorded sigm stores st k s depth x := by
    intro s pts found has j stj after isAt
    obtain ⟨pts', found', inside⟩ := at_grows next isAt after s pts found
    exact ⟨pts', found', has.mono inside⟩
  have dest := mayStore.dest
  rw [visit, if_pos tracked.visited] at visited
  cases isDest : store.dest with
  | decl s =>
      simp only [isDest] at visited dest
      obtain ⟨pts, isSet, visited⟩ := bind_eq_ok.mp visited
      cases visited
      rw [pointsTo, mayStore.categories.2] at isSet
      obtain ⟨alive, has⟩ := pointsAt_covered mayStore.here inTable tracked.value isSet
      obtain ⟨fr, isHead, -, rfl⟩ := dest
      refine ⟨?_, ?_⟩
      · rintro (gone | shallower)
        · exact gone alive
        · obtain ⟨fr', inside', -, rfl⟩ := alive
          have := depth_le_head settled.nested inside' isHead
          omega
      · intro s' isPlace
        cases isPlace
        exact later s _ (lookup_addTaints_self _ _ _) (has.mono (List.subset_append_left _ _))
  | lvalue e1 =>
      simp only [isDest] at visited dest
      obtain ⟨xs1, xs2, isSet1, isSet2, isTable, -, reports⟩ := auxAssign_ok visited
      rw [pointsTo, mayStore.categories.1 e1 isDest] at isSet1
      rw [pointsTo, mayStore.categories.2] at isSet2
      obtain ⟨alive, pt, isElement, covers⟩ :=
        pointsAt_covered mayStore.here inTable tracked.value isSet2
      refine ⟨fun outlives => ?_, fun s isPlace => ?_⟩
      · obtain ⟨pt', inside, above⟩ := tracked_gtPointsto quiet settled here mayStore tracked
          isDest isSet1 alive covers outlives
        exact silent (reports pt' inside _ isElement above)
      · have denoted := designates_place isPlace dest
        obtain ⟨pt', isPt, rfl⟩ := pointsToAux_place isPlace isSet1
        rw [classify_denotes mayStore.here denoted] at isPt
        cases isPt
        obtain ⟨pts, found, inside⟩ :=
          assignTaints_named stk.table (symOf_placeIn denoted) xs2
        rw [← isTable] at found
        exact later s pts found ⟨pt, inside isElement, covers⟩

/-- The value of an address is a pointer to the object of the variable. -/
theorem pointsAt_addressOf {frames : List Frame} {ways : Ways} {e : Expr} {t : Sym} {o : Object}
    (isAddress : addressOf e = some t) (pointsAt : PointsAt sigm frames ways e o) :
    denotes sigm frames t = some o := by
  fun_induction addressOf e with
  | case1 tc e =>
      cases pointsAt with
      | address inside => exact designates_place isAddress inside
      | unary arithmetic => simp at arithmetic
      | increment _ arithmetic => simp at arithmetic
      | any _ isOpaque => cases isOpaque
  | case2 tc ty e inductionHypothesis =>
      cases pointsAt with
      | cast inside => exact inductionHypothesis isAddress inside
      | any _ isOpaque => cases isOpaque
  | case3 tc ty e inductionHypothesis =>
      cases pointsAt with
      | annot inside => exact inductionHypothesis isAddress inside
      | any _ isOpaque => cases isOpaque
  | case4 => cases isAddress

private theorem settled_initial {fd : FunctionDefinition} (initial : Initial fd σ) :
    Settled sigm stores st σ where
  nested := by
    rw [← numbers_scopesOf, initial.scopes]
    exact (nested_ofParams fd.params).decreasing
  fresh := initial.next
  held := fun isHeld => nomatch initial.held _ isHeld
  addressed := fun isHeld => nomatch initial.held _ isHeld

/-- Blocks are left with all blocks inside them. -/
theorem Settled.goTo {next : Nat} {left kept entered : List Frame}
    (settled : Settled sigm stores st σ) (frames : σ.frames = left ++ kept)
    (nested : ((entered ++ kept).map Frame.depth).Pairwise (· > ·)) (le : σ.next ≤ next)
    (fresh : ∀ fr ∈ entered, σ.next ≤ fr.inst ∧ fr.inst < next) :
    Settled sigm stores st ⟨entered ++ kept, next, σ.held⟩ where
  nested := nested
  fresh := by
    intro fr inside
    rcases List.mem_append.mp inside with inside | inside
    · exact (fresh fr inside).2
    · have := settled.fresh fr (frames ▸ List.mem_append_right _ inside)
      exact Nat.lt_of_lt_of_le this le
  held := by
    intro o inst depth k x s store isHeld isStore names
    obtain ⟨⟨inst', depth', s', isVar, old, shelters⟩, recorded⟩ :=
      settled.held isHeld isStore names
    refine ⟨⟨inst', depth', s', isVar, Nat.lt_of_lt_of_le old le, ?_⟩, recorded⟩
    rintro ⟨fr, inside, rfl, rfl⟩
    rcases List.mem_append.mp inside with isNew | isKept
    · exact absurd (fresh fr isNew).1 (Nat.not_le_of_lt old)
    · have isOld : fr ∈ σ.frames := frames ▸ List.mem_append_right _ isKept
      obtain ⟨⟨fr', inside', sameInst, sameDepth⟩, le⟩ := shelters ⟨fr, isOld, rfl, rfl⟩
      refine ⟨⟨fr', List.mem_append_right _ ?_, sameInst, sameDepth⟩, le⟩
      -- the blocks that are left are deeper than the holder's
      rw [frames] at inside'
      refine (List.mem_append.mp inside').resolve_left fun isLeft => ?_
      have nested := settled.nested
      rw [frames, List.map_append] at nested
      have := (List.pairwise_append.mp nested).2.2 _ (List.mem_map_of_mem isLeft) _
        (List.mem_map_of_mem isKept)
      omega
  addressed := settled.addressed

/-- Whatever a call stores, the function's own stores are as they were. -/
theorem Settled.call (settled : Settled sigm stores st σ) (o t : Object) :
    Settled sigm stores st { σ with held := ⟨o, t, none⟩ :: σ.held } where
  nested := settled.nested
  fresh := settled.fresh
  held := by
    intro o' inst depth k x s store isHeld isStore names
    rcases List.mem_cons.mp isHeld with isNew | isHeld
    · nomatch isNew
    · exact settled.held isHeld isStore names
  addressed := by
    intro holder o' k isHeld
    rcases List.mem_cons.mp isHeld with isNew | isHeld
    · cases isNew
    · exact settled.addressed isHeld

/-- A named store is to a global object or to a variable of a block that is being executed. -/
theorem destOf_named {dest : Dest} {o : Object} {s : Sym} (isDest : DestOf sigm σ o dest)
    (named : dest.place = some s) :
    o = .global s ∨ ∃ fr ∈ σ.frames, o = .var fr.inst fr.depth s := by
  cases dest with
  | lvalue e => exact denotes_cases (designates_place named isDest)
  | decl s' =>
      cases named
      obtain ⟨fr, isHead, -, isVar⟩ := isDest
      exact .inr ⟨fr, List.mem_of_mem_head? isHead, isVar⟩

theorem Settled.store {k : Nat} {store : Store} {o t : Object}
    (quiet : Quiet sigm others stores st st') (settled : Settled sigm stores st σ)
    (mayStore : MayStore sigm stores σ k store o t)
    (meets : MeetsTracked sigm others stores σ k store o t) :
    Settled sigm stores st { σ with held := ⟨o, t, some k⟩ :: σ.held } where
  nested := settled.nested
  fresh := settled.fresh
  held := by
    intro o' inst depth k' x s store' isHeld isStore names
    rcases List.mem_cons.mp isHeld with isNew | isHeld
    · cases isNew
      cases mayStore.isStore.symm.trans isStore
      obtain ⟨stays, recorded⟩ := tracked_settled quiet settled mayStore (meets trivial)
      refine ⟨?_, recorded s names⟩
      rcases destOf_named mayStore.dest names with rfl | ⟨fr, inside, rfl⟩
      · exact absurd trivial stays
      · obtain ⟨alive, le⟩ := not_or.mp stays
        exact ⟨fr.inst, fr.depth, s, rfl, settled.fresh fr inside,
          fun _ => ⟨not_not.mp alive, Nat.le_of_not_lt le⟩⟩
    · exact settled.held isHeld isStore names
  addressed := by
    intro holder o' k' isHeld
    rcases List.mem_cons.mp isHeld with isNew | isHeld
    · cases isNew
      intro store' t' isStore isAddress
      cases mayStore.isStore.symm.trans isStore
      exact ⟨σ.frames, mayStore.here, pointsAt_addressOf isAddress mayStore.value⟩
    · exact settled.addressed isHeld

theorem Settled.step (quiet : Quiet sigm others stores st st') (settled : Settled sigm stores st σ)
    (step : Step sigm stores (MeetsTracked sigm others stores) σ σ') :
    Settled sigm stores st σ' := by
  cases step with
  | @goTo k next store left kept entered isStore frames here le fresh =>
      refine settled.goTo frames ?_ le fresh
      rw [← numbers_scopesOf, here]
      exact (quiet.nested store (List.mem_of_getElem? isStore)).decreasing
  | store mayStore meets => exact settled.store quiet mayStore meets
  | call => exact settled.call _ _

theorem Settled.run (quiet : Quiet sigm others stores st st') (settled : Settled sigm stores st σ)
    (reached : Relation.ReflTransGen (Step sigm stores (MeetsTracked sigm others stores)) σ σ') :
    Settled sigm stores st σ' := by
  induction reached with
  | refl => exact settled
  | tail _ step inductionHypothesis => exact inductionHypothesis.step quiet step

end

/-! ## Functions and files -/

/-- The stores of functions in the order of the analysis. -/
def storesOfFunctions (defs : List (Sym × FunctionDefinition)) : List Store :=
  defs.flatMap fun d => storesOf (.ofParams d.2.params) d.2.body

/-- Where the analysis of a function starts, what the stores of earlier functions preserve holds. -/
theorem warnFunctions_ok {sigm : Sigma} {before after : List (Sym × FunctionDefinition)} {f : Sym}
    {fd : FunctionDefinition} {table : PtrTaints} {escapes : List (Sym × List String)}
    (run : warnFunctions sigm table (before ++ (f, fd) :: after) = .ok escapes) :
    ∃ table' st', auxStmt sigm (.ofParams fd.params) ⟨table', []⟩ fd.body = .ok st' ∧
      (f, st'.warnings) ∈ escapes ∧
      ∀ P : PtrTaints → Prop, P table → Preserved sigm (storesOfFunctions before) P →
        P table' := by
  induction before generalizing table escapes with
  | nil =>
      obtain ⟨st', body, run⟩ := bind_eq_ok.mp run
      obtain ⟨escapes', -, run⟩ := bind_eq_ok.mp run
      cases run
      exact ⟨table, st', body, List.mem_cons_self, fun _ start _ => start⟩
  | cons d before inductionHypothesis =>
      obtain ⟨st1, first, run⟩ := bind_eq_ok.mp run
      obtain ⟨escapes', others, run⟩ := bind_eq_ok.mp run
      cases run
      obtain ⟨table', st', body, reported, carries⟩ := inductionHypothesis others
      refine ⟨table', st', body, List.mem_cons_of_mem _ reported, fun P start preserved => ?_⟩
      refine carries P ?_ fun store inside => preserved store (List.mem_append_right _ inside)
      have start : P (EscapeState.mk table []).table := start
      exact foldlM_visit_invariant (fun store inside =>
        preserved store (List.mem_append_left _ inside)) start (auxStmt_stores first)

/-- A function whose stores the analysis keeps track of is reported if it stores a pointer to a
variable of a block in an object that outlives the variable. -/
theorem escape_warned {sigm : Sigma} {before after : List (Sym × FunctionDefinition)} {f : Sym}
    {fd : FunctionDefinition} {escapes : List (Sym × List String)} {races : List String}
    {σ0 σ : RunState} {k : Nat} {store : Store} {o t : Object}
    (defined : sigm.functionDefinitions = before ++ (f, fd) :: after)
    (warned : warnFile sigm = .ok (escapes, races)) (initial : Initial fd σ0)
    (reached : Relation.ReflTransGen (Step sigm (storesOf (.ofParams fd.params) fd.body)
      (MeetsTracked sigm (storesOfFunctions before) (storesOf (.ofParams fd.params) fd.body))) σ0
        σ)
    (mayStore : MayStore sigm (storesOf (.ofParams fd.params) fd.body) σ k store o t)
    (meets : MeetsTracked sigm (storesOfFunctions before) (storesOf (.ofParams fd.params) fd.body)
      σ k store o t)
    (outlives : Outlives σ o t) :
    ∃ warnings, (f, warnings) ∈ escapes ∧ escapeWarning ∈ warnings := by
  obtain ⟨_, -, warned⟩ := bind_eq_ok.mp warned
  obtain ⟨_, -, warned⟩ := bind_eq_ok.mp warned
  obtain ⟨escapes', run, warned⟩ := bind_eq_ok.mp warned
  obtain ⟨_, -, warned⟩ := bind_eq_ok.mp warned
  cases warned
  rw [defined] at run
  obtain ⟨table, st', body, reported, carries⟩ := warnFunctions_ok run
  refine ⟨st'.warnings, reported, by_contra fun quiet => ?_⟩
  have quiet : Quiet sigm (storesOfFunctions before) (storesOf (.ofParams fd.params) fd.body)
      ⟨table, []⟩ st' :=
    ⟨auxStmt_stores body, quiet, fun store inside => storesOf_nested (nested_ofParams _) inside,
      carries⟩
  have settled := (settled_initial initial).run quiet reached
  cases t with
  | var inst depth x =>
      exact (tracked_settled quiet settled mayStore (meets trivial)).1 outlives
  | global s | outside n => cases o <;> exact outlives

/-- Nothing is reported for a store of an expression without points-to set, such as the address
of an array. -/
theorem withoutSet_unreported {sigm : Sigma} {st st' : EscapeState} {store : Store}
    (without : withoutSet store.rhs = true) (run : visit sigm st store = .ok st') :
    st'.warnings = st.warnings := by
  unfold visit at run
  split at run
  · split at run
    · obtain ⟨xs1, isSet1, run⟩ := bind_eq_ok.mp run
      obtain ⟨xs2, isSet2, run⟩ := bind_eq_ok.mp run
      have empty : xs2 = [] := withoutSet_empty without isSet2
      rw [if_neg fun reports => reports.1 empty] at run
      cases run
      rfl
    · obtain ⟨pts, -, run⟩ := bind_eq_ok.mp run
      cases run
      rfl
  · cases run
    rfl

end

/-! ## A pointer in a global object and an array -/

attribute [local instance] plainTypes

def pointerTy : CType := .pointer (.integer (.signed .int))

def structTy : CType := .struct ⟨4, "S"⟩

def globalP : Sym := ⟨0, "p"⟩

def symF : Sym := ⟨1, "f"⟩

def localX : Sym := ⟨2, "x"⟩

def localQ : Sym := ⟨3, "q"⟩

def localS : Sym := ⟨5, "s"⟩

def varOf (ty : CType) (s : Sym) : Expr := .annotated (.lvalue ty) (.ident s)

def readOf (ty : CType) (s : Sym) : Expr := .annotated (.rvalue ty) (.rvalue (varOf ty s))

def addressTo (ty : CType) (s : Sym) : Expr :=
  .annotated (.rvalue (.pointer ty)) (.unary .address (varOf ty s))

def assignTo (dest e : Expr) : Stmt :=
  .expr (.annotated (.rvalue (typeOf dest)) (.assign dest e))

/-- A file with the variable `p` and a function whose body is a block. -/
def fileOf (ty : CType) (bs : List (Sym × CType)) (ss : List Stmt) : Sigma where
  declarations := [(globalP, .object ty), (symF, .function .void [])]
  functionDefinitions := [(symF, ⟨[], .block bs ss⟩)]
  tagDefinitions := []

/-- `(*s).f` -/
def memberOfS : Expr :=
  .annotated (.lvalue pointerTy) (.memberof
    (.annotated (.lvalue structTy) (.unary .indirection (readOf (.pointer structTy) localS))) "f")

/-- `int x; int *q; struct S *s; s = &p; q = &x; (*s).f = q;` -/
def storedThrough : Sigma :=
  fileOf structTy
    [(localX, .integer (.signed .int)), (localQ, pointerTy), (localS, .pointer structTy)]
    [assignTo (varOf (.pointer structTy) localS) (addressTo structTy globalP),
      assignTo (varOf pointerTy localQ) (addressTo (.integer (.signed .int)) localX),
      assignTo memberOfS (readOf pointerTy localQ)]

/-- `int x[2]; p = x;` -/
def decayedArray : Sigma :=
  fileOf pointerTy [(localX, .array (.integer (.signed .int)) (some 2))]
    [assignTo (varOf pointerTy globalP) (.annotated (.rvalue pointerTy)
      (.arrayDecay (varOf (.array (.integer (.signed .int)) (some 2)) localX)))]

/-- In front of the body, in the block of the parameters. -/
def beforeBody : RunState := ⟨[⟨0, 0, []⟩], 1, []⟩

def inBody (syms : List Sym) (held : List Held) : RunState :=
  ⟨[⟨1, 1, syms⟩] ++ [⟨0, 0, []⟩], 2, held⟩

private theorem initial_beforeBody (body : Stmt) : Initial ⟨[], body⟩ beforeBody :=
  ⟨rfl, by simp [beforeBody], by simp [beforeBody]⟩

private theorem step_enterBody {sigm : Sigma} {stores : List Store}
    {store : Store} {syms : List Sym}
    {meets : RunState → Nat → Store → Object → Object → Prop}
    (isStore : stores[0]? = some store) (here : store.env.scopes = [(1, syms), (0, [])]) :
    Step sigm stores meets beforeBody (inBody syms []) := by
  have frames : beforeBody.frames = [] ++ [⟨0, 0, []⟩] := rfl
  exact .goTo isStore frames here.symm (by decide) (by simp [beforeBody])

/-- The body stores a pointer to `p` in `s` and one to `x` in `q`, and from there in `p`. -/
theorem escape_warned_storedThrough :
    ∃ warnings, (symF, warnings) ∈ [(symF, [escapeWarning])] ∧
      escapeWarning ∈ warnings := by
  let stores := storesOfFunctions storedThrough.functionDefinitions
  let syms := [localS, localQ, localX]
  let held1 : List Held := [⟨.var 1 1 localS, .global globalP, some 0⟩]
  let held2 : List Held := ⟨.var 1 1 localQ, .var 1 1 localX, some 1⟩ :: held1
  have categories : ∀ {e1 e2 : Expr} {env : Env} {visited : Bool}, isLvalue e1 = true →
      isLvalue e2 = false → Store.HasCategories ⟨env, .lvalue e1, e2, visited⟩ :=
    fun isLeft isRight => ⟨fun e isDest => by cases isDest; exact isLeft, isRight⟩
  have storeS : MayStore storedThrough stores (inBody syms []) 0 _
      (.var 1 1 localS) (.global globalP) :=
    ⟨rfl, rfl, categories rfl rfl, .ident rfl, .address (.ident rfl)⟩
  have storeQ : MayStore storedThrough stores (inBody syms held1) 1 _
      (.var 1 1 localQ) (.var 1 1 localX) :=
    ⟨rfl, rfl, categories rfl rfl, .ident rfl, .address (.ident rfl)⟩
  have storeP : MayStore storedThrough stores (inBody syms held2) 2 _
      (.global globalP) (.var 1 1 localX) :=
    ⟨rfl, rfl, categories rfl rfl,
      .memberof (.indirection
        (.rvalue (.ident rfl)
          (.inl ⟨some 0, List.mem_cons_of_mem _ (List.mem_singleton_self _)⟩))
        (.inl trivial)),
      .rvalue (.ident rfl) (.inl ⟨some 1, List.mem_cons_self⟩)⟩
  have enter : Step storedThrough stores (MeetsTracked storedThrough [] stores) beforeBody
      (inBody syms []) := step_enterBody rfl rfl
  have setS : Step storedThrough stores (MeetsTracked storedThrough [] stores) (inBody syms [])
      (inBody syms held1) := .store storeS fun isVariable => isVariable.elim
  have setQ : Step storedThrough stores (MeetsTracked storedThrough [] stores)
      (inBody syms held1) (inBody syms held2) :=
    .store storeQ fun _ => ⟨rfl, .inl ⟨localQ, rfl⟩, .address (.ident rfl)⟩
  have through : StoreThrough storedThrough stores (inBody syms held2) 2 memberOfS
      (.global globalP) :=
    ⟨localS, globalP, .var 1 1 localS, 0, _, rfl, rfl,
      List.mem_cons_of_mem _ (List.mem_singleton_self _), by decide, rfl, rfl,
        rfl, rfl, by decide⟩
  have defined : storedThrough.functionDefinitions = [] ++ [_] := rfl
  exact escape_warned defined rfl (initial_beforeBody _)
    (((Relation.ReflTransGen.single enter).tail setS).tail setQ) storeP
    (fun _ => ⟨rfl, .inr ⟨_, rfl, .inr through⟩, .rvalue (.ident rfl)
      ⟨rfl, .inl ⟨localQ, rfl, 1, _, List.mem_cons_self, by decide, rfl, rfl⟩⟩⟩) trivial

/-- The address of the array escapes, and nothing is reported. -/
theorem escape_missed_decayedArray :
    warnFile decayedArray = .ok ([(symF, [])], []) ∧
      ∃ fd σ0 σ k store o t, decayedArray.functionDefinitions = [(symF, fd)] ∧
        Initial fd σ0 ∧
        Relation.ReflTransGen (Step decayedArray (storesOf (.ofParams fd.params) fd.body)
          fun _ _ _ _ _ => True) σ0 σ ∧
        MayStore decayedArray (storesOf (.ofParams fd.params) fd.body) σ k store o t ∧
        Outlives σ o t := by
  refine ⟨rfl, _, beforeBody, inBody [localX] [], 0, _, .global globalP, .var 1 1 localX, rfl,
    initial_beforeBody _, .single (step_enterBody rfl rfl), ⟨rfl, rfl, ?_, ?_, ?_⟩, trivial⟩
  · exact ⟨fun e isDest => by cases isDest; rfl, rfl⟩
  · exact .ident rfl
  · exact .arrayDecay trivial (.ident rfl)

end RefinedC.Frontend.Escape
