import RefinedC.Caesium.HeapInvariant

/-!
History of allocations along runs of a thread pool.

Owns: how an entry of the allocation table evolves, the evolution of the whole
table under memory events and steps, the ownership of a cell along a run, and the
stability of `heap_state_loc_in_bounds`.

Nothing here needs the heap state invariant.
-/

namespace RefinedC.Caesium

open RefinedC.Library

/-! ## Evolution of the allocation table -/

/-- A later version of an entry of the allocation table: only its liveness may
change, once, and never for a global variable. -/
structure Allocation.Evolves (al al' : Allocation) : Prop where
  start : al'.alStart = al.alStart
  len : al'.alLen = al.alLen
  kind : al'.alKind = al.alKind
  dead : al.alAlive = false → al'.alAlive = false
  global : al.alKind = .globalAlloc → al.alAlive = true → al'.alAlive = true

theorem Allocation.Evolves.refl (al : Allocation) : al.Evolves al :=
  ⟨rfl, rfl, rfl, id, fun _ => id⟩

theorem Allocation.Evolves.trans {al al' al'' : Allocation} (first : al.Evolves al')
    (second : al'.Evolves al'') : al.Evolves al'' where
  start := second.start.trans first.start
  len := second.len.trans first.len
  kind := second.kind.trans first.kind
  dead := fun isDead => second.dead (first.dead isDead)
  global := fun isGlobal alive =>
    second.global (first.kind.trans isGlobal) (first.global isGlobal alive)

/-- Every entry of the first table has a later version in the second one. -/
def AllocsEvolve (st st' : HeapState) : Prop :=
  ∀ aid al, st.hsAllocs aid = some al → ∃ al', st'.hsAllocs aid = some al' ∧ al.Evolves al'

theorem AllocsEvolve.refl (st : HeapState) : AllocsEvolve st st :=
  fun _ al found => ⟨al, found, .refl al⟩

theorem AllocsEvolve.trans {st st' st'' : HeapState} (first : AllocsEvolve st st')
    (second : AllocsEvolve st' st'') : AllocsEvolve st st'' := by
  intro aid al found
  obtain ⟨al', found', evolves⟩ := first aid al found
  obtain ⟨al'', found'', evolves'⟩ := second aid al' found'
  exact ⟨al'', found'', evolves.trans evolves'⟩

private theorem allocsEvolve_insert {st st' : HeapState} {aid : AllocId} {al' : Allocation}
    (allocs : st'.hsAllocs = st.hsAllocs.insert aid al')
    (evolves : ∀ al, st.hsAllocs aid = some al → al.Evolves al') : AllocsEvolve st st' := by
  intro id al found
  by_cases same : id = aid
  · subst same
    exact ⟨al', by rw [allocs, PartialMap.insert_same], evolves al found⟩
  · exact ⟨al, by rw [allocs, PartialMap.insert_other same, found], .refl al⟩

theorem MemoryEvent.allocsEvolve {dir : Direction} {st st' : HeapState}
    (event : MemoryEvent dir st st') : AllocsEvolve st st' := by
  cases event with
  | access _ => exact .refl st
  | alloc block =>
      obtain ⟨aid, _, fresh, _, allocs, _⟩ := block.cases
      refine allocsEvolve_insert allocs ?_
      intro al found
      rw [fresh] at found
      cases found
  | free notGlobal block =>
      obtain ⟨aid, _, alive, allocs, _⟩ := block.cases
      refine allocsEvolve_insert allocs ?_
      intro al found
      rw [alive] at found
      cases found
      exact ⟨rfl, rfl, rfl, fun _ => rfl, fun isGlobal => absurd isGlobal notGlobal⟩

theorem MemoryEvents.allocsEvolve {dir : Direction} {st st' : HeapState}
    (events : MemoryEvents dir st st') : AllocsEvolve st st' := by
  induction events with
  | refl => exact .refl st
  | tail _ event inductionHypothesis => exact inductionHypothesis.trans event.allocsEvolve

theorem poolStep_allocsEvolve {c c' : EctxiLanguage.Config RuntimeExpr State}
    (step : cLang.PoolStep c c') : AllocsEvolve c.2.stHeap c'.2.stHeap := by
  obtain ⟨_, events⟩ := poolStep_memory step
  exact events.allocsEvolve

/-- The identifier of an entry is not available to an allocation. -/
theorem AllocNewBlock.fresh_id {st st' : HeapState} {kind : AllocKind} {l : Loc} {v : Val}
    (block : AllocNewBlock st kind l v st') {aid : AllocId} {al : Allocation}
    (present : st.hsAllocs aid = some al) : l.1 ≠ .provAlloc (some aid) := by
  obtain ⟨aid', provenance, fresh, _⟩ := block.cases
  intro same
  rw [provenance] at same
  cases same
  rw [fresh] at present
  cases present

private theorem heapStateLocInBounds_evolve {st st' : HeapState}
    (evolve : AllocsEvolve st st') {l : Loc}
    {n : Nat} (inBounds : heapStateLocInBounds l n st) : heapStateLocInBounds l n st' := by
  obtain ⟨aid, al, provenance, found, ⟨lowest, highest⟩, low, high⟩ := inBounds
  obtain ⟨al', found', evolves⟩ := evolve aid al found
  have sameEnd : al'.alEnd = al.alEnd := by
    unfold Allocation.alEnd
    rw [evolves.start, evolves.len]
  refine ⟨aid, al', provenance, found', ⟨?_, ?_⟩, ?_, ?_⟩
  · rw [evolves.start]
    exact lowest
  · rw [sameEnd]
    exact highest
  · rw [evolves.start]
    exact low
  · rw [sameEnd]
    exact high

/-! ## Owners of cells -/

theorem MemoryEvent.owner {dir : Direction} {st st' : HeapState}
    (event : MemoryEvent dir st st') (a : Int) (aid : AllocId) :
    match dir with
    | .grows => st.owner a = some aid → st'.owner a = some aid
    | .shrinks => st'.owner a = some aid → st.owner a = some aid := by
  cases event with
  | access sameOwner =>
      rw [sameOwner]
      cases dir <;> exact id
  | @alloc _ _ kind l v block =>
      obtain ⟨new, _, _, _, _, owners⟩ := block.cases
      intro owned
      by_cases inside : a ∈ (⟨l.2, v.length, true, kind⟩ : Allocation)
      · rw [((owners a).1 inside).1] at owned
        cases owned
      · rw [(owners a).2 inside]
        exact owned
  | @free _ _ kind l ly _ block =>
      obtain ⟨freed, _, _, _, owners⟩ := block.cases
      intro owned
      by_cases inside : a ∈ (⟨l.2, ly.lySize, true, kind⟩ : Allocation)
      · rw [(owners a).1 inside] at owned
        cases owned
      · rw [(owners a).2 inside] at owned
        exact owned

theorem MemoryEvents.owner {dir : Direction} {st st' : HeapState}
    (events : MemoryEvents dir st st') (a : Int) (aid : AllocId) :
    match dir with
    | .grows => st.owner a = some aid → st'.owner a = some aid
    | .shrinks => st'.owner a = some aid → st.owner a = some aid := by
  induction events with
  | refl => cases dir <;> exact id
  | tail _ event inductionHypothesis =>
      have last := event.owner a aid
      cases dir
      · exact fun owned => last (inductionHypothesis owned)
      · exact fun owned => inductionHypothesis (last owned)

/-- A cell that is mapped before and after a step has one owner. -/
theorem poolStep_owner {c c' : EctxiLanguage.Config RuntimeExpr State}
    (step : cLang.PoolStep c c') {a : Int} {p q : AllocId}
    (before : c.2.stHeap.owner a = some p) (after : c'.2.stHeap.owner a = some q) : p = q := by
  obtain ⟨dir, events⟩ := poolStep_memory step
  cases dir with
  | grows =>
      have kept := events.owner a p before
      rw [kept] at after
      exact Option.some.inj after
  | shrinks =>
      have same := events.owner a q after
      rw [same] at before
      exact (Option.some.inj before).symm

/-- The owner of a cell changes only by passing through unmapped. -/
theorem isRun_owner {cs : Nat → EctxiLanguage.Config RuntimeExpr State} {n : Nat}
    (run : cLang.IsRun cs n) {i j : Nat} (order : i ≤ j) (bound : j ≤ n) {a : Int}
    {p q : AllocId} (before : (cs i).2.stHeap.owner a = some p)
    (after : (cs j).2.stHeap.owner a = some q) (different : p ≠ q) :
    ∃ k, i < k ∧ k < j ∧ (cs k).2.stHeap.hsHeap a = none := by
  induction order generalizing q with
  | refl =>
      rw [before] at after
      exact absurd (Option.some.inj after) different
  | @step j earlier inductionHypothesis =>
      have order : i ≤ j := earlier
      cases owned : (cs j).2.stHeap.owner a with
      | none =>
          have later : i ≠ j := by
            rintro rfl
            rw [before] at owned
            cases owned
          exact ⟨j, by omega, by omega, owner_eq_none.mp owned⟩
      | some r =>
          have same : r = q := poolStep_owner (run j (by omega)) owned after
          obtain ⟨k, above, below, unmapped⟩ :=
            inductionHypothesis (by omega) owned (by rw [same]; exact different)
          exact ⟨k, above, by omega, unmapped⟩

/-! ## Whole runs -/

private theorem poolStep_fntbl {c c' : EctxiLanguage.Config RuntimeExpr State}
    (step : cLang.PoolStep c c') : c'.2.stFntbl = c.2.stFntbl := by
  obtain ⟨_, _, _, _, ⟨_, step⟩, _⟩ := step
  exact runtimeStep_fntbl step

theorem poolSteps_allocsEvolve {c c' : EctxiLanguage.Config RuntimeExpr State}
    (run : cLang.PoolSteps c c') : AllocsEvolve c.2.stHeap c'.2.stHeap := by
  induction run with
  | refl => exact .refl _
  | tail _ step inductionHypothesis => exact inductionHypothesis.trans (poolStep_allocsEvolve step)

private theorem poolSteps_fntbl {c c' : EctxiLanguage.Config RuntimeExpr State}
    (run : cLang.PoolSteps c c') : c'.2.stFntbl = c.2.stFntbl := by
  induction run with
  | refl => rfl
  | tail _ step inductionHypothesis => exact (poolStep_fntbl step).trans inductionHypothesis

/-- Between any two configurations of a run: entries persist and only die, the
blocks allocated by later steps have other identifiers, owners change through
unmapped only, functions stay, and bounds of locations are stable. -/
theorem allocations_monotone {cs : Nat → EctxiLanguage.Config RuntimeExpr State} {n : Nat}
    (run : cLang.IsRun cs n) {i j : Nat} (order : i ≤ j) (bound : j ≤ n) :
    (∀ aid al, (cs i).2.stHeap.hsAllocs aid = some al →
      (∃ al', (cs j).2.stHeap.hsAllocs aid = some al' ∧ al.Evolves al') ∧
        (∀ dir st kind l v st', MemoryEvents dir (cs j).2.stHeap st →
          AllocNewBlock st kind l v st' → l.1 ≠ .provAlloc (some aid))) ∧
      (∀ a cell cell', (cs i).2.stHeap.hsHeap a = some cell →
        (cs j).2.stHeap.hsHeap a = some cell' → cell.hcAllocId ≠ cell'.hcAllocId →
          ∃ k, i < k ∧ k < j ∧ (cs k).2.stHeap.hsHeap a = none) ∧
      (cs j).2.stFntbl = (cs i).2.stFntbl ∧
      (∀ l m, heapStateLocInBounds l m (cs i).2.stHeap →
        heapStateLocInBounds l m (cs j).2.stHeap) := by
  have steps := run.poolSteps order bound
  have evolve := poolSteps_allocsEvolve steps
  refine ⟨?_, ?_, poolSteps_fntbl steps, fun l m => heapStateLocInBounds_evolve evolve⟩
  · intro aid al found
    refine ⟨evolve aid al found, ?_⟩
    intro dir st kind l v st' events block
    obtain ⟨al', present, _⟩ := (evolve.trans events.allocsEvolve) aid al found
    exact block.fresh_id present
  · intro a cell cell' before after different
    exact isRun_owner run order bound (owner_of_cell before) (owner_of_cell after) different

def callRun : Nat → EctxiLanguage.Config RuntimeExpr State
  | 0 => beforeCall
  | _ + 1 => afterCall

private theorem callRun_isRun : cLang.IsRun callRun 1 := by
  intro k below
  have first : k = 0 := by omega
  subst first
  exact afterCall_step

theorem allocations_monotone_callRun :
    (∀ aid al, globalByte.hsAllocs aid = some al →
      (∃ al', argAllocated.hsAllocs aid = some al' ∧ al.Evolves al') ∧
        (∀ dir st kind l v st', MemoryEvents dir argAllocated st →
          AllocNewBlock st kind l v st' → l.1 ≠ .provAlloc (some aid))) ∧
      (∀ a cell cell', globalByte.hsHeap a = some cell → argAllocated.hsHeap a = some cell' →
        cell.hcAllocId ≠ cell'.hcAllocId →
          ∃ k, 0 < k ∧ k < 1 ∧ (callRun k).2.stHeap.hsHeap a = none) ∧
      calledFns = calledFns ∧
      (∀ l m, heapStateLocInBounds l m globalByte → heapStateLocInBounds l m argAllocated) :=
  allocations_monotone (i := 0) (j := 1) callRun_isRun (by decide) (by decide)

end RefinedC.Caesium
