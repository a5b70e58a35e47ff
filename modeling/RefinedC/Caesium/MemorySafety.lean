import RefinedC.Caesium.AllocHistory
import RefinedC.Caesium.DataRace

/-!
Memory safety of steps: pointers reach their own allocation only.

Source: the rules of `theories/caesium/lang.v` that access the heap, and
`heap_at`, `heap_upd` and `free_block` of `theories/caesium/heap.v`.

Owns: the pointers that a step accesses memory through, the bounds of these
accesses, the exclusion of accesses to dead allocations in all later
configurations, and the frame of a step: cells that change were accessed through
a pointer to their own allocation.

Does not own: the agreement of cells and allocations (`Owned`) and the evolution
of the allocation table (`AllocsEvolve`).
-/

namespace RefinedC.Caesium

open RefinedC.Library

/-! ## Pointers that a step goes through -/

/-- A step of redex `e` accesses `n` bytes through the pointer `l`. -/
inductive AccessesThrough : RuntimeExpr → Loc → Nat → Prop where
  | deref {o : Order} {ot : OpType} {mc : Bool} {v : Val} {l : Loc}
      (pointer : valToLoc v = some l) :
      AccessesThrough (toRtexpr (.deref o ot mc (.val v))) l ot.otLayout.lySize
  | assign {o : Order} {rf : RuntimeFunction} {ot : OpType} {v1 v2 : Val} {s : Stmt} {l : Loc}
      (pointer : valToLoc v1 = some l) :
      AccessesThrough (toRtstmt rf (.assign o ot (.val v1) (.val v2) s)) l ot.otLayout.lySize
  | casObject {ot : OpType} {v1 v2 v3 : Val} {l : Loc} (pointer : valToLoc v1 = some l) :
      AccessesThrough (toRtexpr (.cas ot (.val v1) (.val v2) (.val v3))) l ot.otLayout.lySize
  | casExpected {ot : OpType} {v1 v2 v3 : Val} {l : Loc} (pointer : valToLoc v2 = some l) :
      AccessesThrough (toRtexpr (.cas ot (.val v1) (.val v2) (.val v3))) l ot.otLayout.lySize
  | free {rf : RuntimeFunction} {ly : Layout} {v : Val} {s : Stmt} {l : Loc}
      (pointer : valToLoc v = some l) :
      AccessesThrough (toRtstmt rf (.free ly (.val v) s)) l ly.lySize
  | return {rf : RuntimeFunction} {v : Val} {l : Loc} {ly : Layout}
      (block : (l, ly) ∈ rf.rfLocs) :
      AccessesThrough (toRtstmt rf (.return (.val v))) l ly.lySize

/-- The `n` cells from `l` on are mapped and belong to the allocation of `l`. -/
def CellsOf (h : Heap) (l : Loc) (n : Nat) (aid : AllocId) : Prop :=
  l.1 = .provAlloc (some aid) ∧
    ∀ a, l.2 ≤ a → a < l.2 + n → ∃ cell, h a = some cell ∧ cell.hcAllocId = aid

private theorem heapAt_cellsOf {l : Loc} {ly : Layout} {v : Val}
    {Plk : LockState → Prop} {h : Heap}
    (cells : heapAt l ly v Plk h) : ∃ aid, CellsOf h l ly.lySize aid := by
  obtain ⟨⟨aid, provenance⟩, -, length, lookup⟩ := cells
  unfold hasLayoutVal at length
  refine ⟨aid, provenance, ?_⟩
  intro a low high
  obtain ⟨aid', lk, b, found, -, owner, -⟩ :=
    heapLookup_cell lookup low (by rw [length]; exact high)
  rw [provenance] at owner
  cases owner
  exact ⟨_, found, rfl⟩

private theorem FreeBlock.cellsOf {σ σ' : HeapState} {kind : AllocKind} {l : Loc} {ly : Layout}
    (block : FreeBlock σ kind l ly σ') : ∃ aid, CellsOf σ.hsHeap l ly.lySize aid := by
  obtain ⟨provenance, alive, length, unlocked⟩ := block
  rename_i aid _
  refine ⟨aid, provenance, ?_⟩
  intro a low high
  obtain ⟨aid', lk, b, found, -, owner, -⟩ :=
    heapLookup_cell unlocked low (by rw [length]; exact high)
  rw [provenance] at owner
  cases owner
  exact ⟨_, found, rfl⟩

private theorem FreeBlocks.cellsOf {σ σ' : HeapState} {kind : AllocKind}
    {ls : List (Loc × Layout)}
    {l : Loc} {ly : Layout} (blocks : FreeBlocks σ kind ls σ') (member : (l, ly) ∈ ls) :
    ∃ aid, CellsOf σ.hsHeap l ly.lySize aid := by
  induction blocks with
  | nil => simp at member
  | cons first _ inductionHypothesis =>
      rcases List.mem_cons.mp member with here | later
      · cases here
        exact first.cellsOf
      · obtain ⟨aid, provenance, cells⟩ := inductionHypothesis later
        refine ⟨aid, provenance, ?_⟩
        intro a low high
        obtain ⟨cell, found, owner⟩ := cells a low high
        exact ⟨cell, first.cell_before found, owner⟩

/-- A step finds all cells that it accesses in the allocation of its pointer. -/
theorem AccessesThrough.cellsOf {e e' : RuntimeExpr} {σ σ' : State} {l : Loc} {n : Nat}
    (access : AccessesThrough e l n) (step : RuntimeStep e σ e' σ') :
    ∃ aid, CellsOf σ.stHeap.hsHeap l n aid := by
  cases access with
  | deref pointer =>
      cases runtimeStep_toRtexpr step with
      | derefS pointer' cells =>
          cases pointer.symm.trans pointer'
          exact heapAt_cellsOf cells
  | assign pointer =>
      cases runtimeStep_toRtstmt step with
      | assignS pointer' layout cells =>
          cases pointer.symm.trans pointer'
          exact heapAt_cellsOf cells
  | casObject pointer =>
      cases runtimeStep_toRtexpr step with
      | casFailS object objectCells =>
          cases pointer.symm.trans object
          exact heapAt_cellsOf objectCells
      | casSucS object objectCells =>
          cases pointer.symm.trans object
          exact heapAt_cellsOf objectCells
  | casExpected pointer =>
      cases runtimeStep_toRtexpr step with
      | casFailS _ _ expected expectedCells =>
          cases pointer.symm.trans expected
          exact heapAt_cellsOf expectedCells
      | casSucS _ _ expected expectedCells =>
          cases pointer.symm.trans expected
          exact heapAt_cellsOf expectedCells
  | free pointer =>
      cases runtimeStep_toRtstmt step with
      | freeS pointer' aligned block =>
          cases pointer.symm.trans pointer'
          exact block.cellsOf
  | «return» member =>
      cases runtimeStep_toRtstmt step with
      | returnS deallocate => exact deallocate.cellsOf member

/-! ## Frames of steps -/

/-- Every cell of `h` that changes lies in a range of `ranges` whose pointer has
the allocation of the cell. -/
def ChangesWithin (ranges : Loc → Nat → Prop) (h h' : Heap) : Prop :=
  ∀ a cell, h a = some cell → h' a ≠ some cell →
    ∃ l n, ranges l n ∧ l.1 = .provAlloc (some cell.hcAllocId) ∧ l.2 ≤ a ∧ a < l.2 + n

theorem ChangesWithin.refl (ranges : Loc → Nat → Prop) (h : Heap) : ChangesWithin ranges h h :=
  fun _ _ found changed => absurd found changed

theorem ChangesWithin.trans {ranges : Loc → Nat → Prop} {h h' h'' : Heap}
    (first : ChangesWithin ranges h h') (second : ChangesWithin ranges h' h'') :
    ChangesWithin ranges h h'' := by
  intro a cell found changed
  by_cases kept : h' a = some cell
  · exact second a cell kept changed
  · exact first a cell found kept

theorem ChangesWithin.mono {ranges ranges' : Loc → Nat → Prop} {h h' : Heap}
    (within : ChangesWithin ranges h h') (weaken : ∀ l n, ranges l n → ranges' l n) :
    ChangesWithin ranges' h h' := by
  intro a cell found changed
  obtain ⟨l, n, inRanges, rest⟩ := within a cell found changed
  exact ⟨l, n, weaken l n inRanges, rest⟩

/-- A write changes cells of its range only, which belong to its pointer. -/
theorem heapUpd_changesWithin {l : Loc} {ly : Layout} {old new : Val} {Plk : LockState → Prop}
    {flk : Option LockState → LockState} {h : Heap} {ranges : Loc → Nat → Prop}
    (cells : heapAt l ly old Plk h) (length : hasLayoutVal new ly) (inRanges : ranges l ly.lySize) :
    ChangesWithin ranges h (heapUpd l new flk h) := by
  intro a cell found changed
  unfold hasLayoutVal at length
  obtain ⟨aid, provenance, owned⟩ := heapAt_cellsOf cells
  by_cases inside : l.2 ≤ a ∧ a < l.2 + ly.lySize
  · obtain ⟨cell', found', owner⟩ := owned a inside.1 inside.2
    rw [found] at found'
    cases found'
    exact ⟨l, ly.lySize, inRanges, by rw [owner]; exact provenance, inside⟩
  · refine absurd ?_ changed
    rw [heapUpd, heapUpdate_outside (by omega)]
    exact found

private theorem AllocNewBlock.changesWithin {σ σ' : HeapState} {kind : AllocKind}
    {l : Loc} {v : Val} {ranges : Loc → Nat → Prop} (block : AllocNewBlock σ kind l v σ') :
    ChangesWithin ranges σ.hsHeap σ'.hsHeap := by
  obtain ⟨provenance, fresh, inRange, rangeFree⟩ := block
  intro a cell found changed
  refine absurd ?_ changed
  -- a mapped cell lies outside of the new block
  by_cases inside : l.2 ≤ a ∧ a < l.2 + v.length
  · rw [rangeFree a inside] at found
    cases found
  · change heapUpdate _ _ _ _ _ a = some cell
    rw [heapUpdate_outside (by omega)]
    exact found

private theorem AllocNewBlocks.changesWithin {σ σ' : HeapState} {kind : AllocKind} {ls : List Loc}
    {vs : List Val} {ranges : Loc → Nat → Prop} (blocks : AllocNewBlocks σ kind ls vs σ') :
    ChangesWithin ranges σ.hsHeap σ'.hsHeap := by
  induction blocks with
  | nil => exact .refl _ _
  | cons first _ inductionHypothesis => exact first.changesWithin.trans inductionHypothesis

private theorem FreeBlock.changesWithin {σ σ' : HeapState} {kind : AllocKind}
    {l : Loc} {ly : Layout} {ranges : Loc → Nat → Prop} (block : FreeBlock σ kind l ly σ')
    (inRanges : ranges l ly.lySize) : ChangesWithin ranges σ.hsHeap σ'.hsHeap := by
  obtain ⟨aid, provenance, owned⟩ := block.cellsOf
  obtain ⟨-, alive, length, unlocked⟩ := block
  intro a cell found changed
  by_cases inside : l.2 ≤ a ∧ a < l.2 + ly.lySize
  · obtain ⟨cell', found', owner⟩ := owned a inside.1 inside.2
    rw [found] at found'
    cases found'
    exact ⟨l, ly.lySize, inRanges, by rw [owner]; exact provenance, inside⟩
  · refine absurd ?_ changed
    change heapFree _ _ _ a = some cell
    rw [heapFree_outside (by omega)]
    exact found

private theorem FreeBlocks.changesWithin {σ σ' : HeapState} {kind : AllocKind}
    {ls : List (Loc × Layout)} {ranges : Loc → Nat → Prop} (blocks : FreeBlocks σ kind ls σ')
    (inRanges : ∀ block ∈ ls, ranges block.1 block.2.lySize) :
    ChangesWithin ranges σ.hsHeap σ'.hsHeap := by
  induction blocks with
  | nil => exact .refl _ _
  | cons first _ inductionHypothesis =>
      exact (first.changesWithin (inRanges _ List.mem_cons_self)).trans
        (inductionHypothesis fun block later => inRanges block (List.mem_cons_of_mem _ later))

private theorem runtimeStep_changesWithin {e e' : RuntimeExpr} {σ σ' : State}
    (step : RuntimeStep e σ e' σ') :
    ChangesWithin (AccessesThrough e) σ.stHeap.hsHeap σ'.stHeap.hsHeap := by
  cases step with
  | allocFailedStep => exact .refl _ _
  | exprStep step =>
      cases step with
      | skipES | unOpS | binOpS | callFailS | concatS | copyAllocIdS | ifES | allocFailS =>
          exact .refl _ _
      | derefS pointer cells => exact heapUpd_changesWithin cells cells.2.2.1 (.deref pointer)
      | casFailS _ objectCells expected expectedCells =>
          exact heapUpd_changesWithin expectedCells objectCells.2.2.1 (.casExpected expected)
      | casSucS object objectCells _ _ _ _ desired =>
          exact heapUpd_changesWithin objectCells desired (.casObject object)
      | callS _ _ _ _ _ _ _ allocVars allocArgs =>
          exact allocVars.changesWithin.trans allocArgs.changesWithin
      | allocS _ _ block => exact block.changesWithin
  | stmtStep step =>
      cases step with
      | ifSS | switchS | gotoS | skipSS | exprSS => exact .refl _ _
      | @assignS o _ _ _ v1 v2 _ v' _ pointer layout cells =>
          refine heapUpd_changesWithin cells ?_ (.assign pointer)
          -- the first half of a non-atomic store writes the old bytes back
          cases o
          · exact layout
          · exact cells.2.2.1
          · exact layout
      | returnS deallocate => exact deallocate.changesWithin fun _ member => .return member
      | freeS pointer _ block => exact block.changesWithin (.free pointer)

/-! ## Bounds and lifetimes -/

/-- The entry of allocation `aid` says that it has been freed. -/
def AllocDead (st : HeapState) (aid : AllocId) : Prop :=
  ∃ al, st.hsAllocs aid = some al ∧ al.alAlive = false

theorem AllocDead.evolve {st st' : HeapState} {aid : AllocId} (dead : AllocDead st aid)
    (evolve : AllocsEvolve st st') : AllocDead st' aid := by
  obtain ⟨al, found, isDead⟩ := dead
  obtain ⟨al', found', evolves⟩ := evolve aid al found
  exact ⟨al', found', evolves.dead isDead⟩

/-- Cells of one allocation lie within its bounds while it is alive. -/
theorem CellsOf.inBounds {st : HeapState} {l : Loc} {n : Nat} {aid : AllocId}
    (cells : CellsOf st.hsHeap l n aid) (owned : Owned st) (positive : 0 < n) :
    ∃ al, st.hsAllocs aid = some al ∧ al.alAlive = true ∧ al.alStart ≤ l.2 ∧
      l.2 + n ≤ al.alEnd := by
  have within : ∀ a, l.2 ≤ a → a < l.2 + n → OwnedBy st a aid := by
    intro a low high
    obtain ⟨cell, found, owner⟩ := cells.2 a low high
    rw [← owner]
    exact (owned.mapped found).1
  obtain ⟨al, found, alive, first, -⟩ := within l.2 (by omega) (by omega)
  obtain ⟨al', found', -, -, last⟩ := within (l.2 + n - 1) (by omega) (by omega)
  rw [found] at found'
  cases found'
  exact ⟨al, found, alive, first, by omega⟩

private theorem MemoryEvent.appears {dir : Direction} {st st' : HeapState}
    (event : MemoryEvent dir st st') {a : Int} {aid : AllocId}
    (after : st'.owner a = some aid) : st.owner a = some aid ∨ st.hsAllocs aid = none := by
  cases event with
  | access sameOwner => exact .inl (by rw [← sameOwner, after])
  | @alloc _ _ kind l v block =>
      obtain ⟨new, _, fresh, _, _, owners⟩ := block.cases
      by_cases inside : a ∈ (⟨l.2, v.length, true, kind⟩ : Allocation)
      · rw [((owners a).1 inside).2] at after
        cases after
        exact .inr fresh
      · exact .inl (by rw [← (owners a).2 inside, after])
  | @free _ _ kind l ly _ block =>
      obtain ⟨freed, _, _, _, owners⟩ := block.cases
      by_cases inside : a ∈ (⟨l.2, ly.lySize, true, kind⟩ : Allocation)
      · rw [(owners a).1 inside] at after
        cases after
      · exact .inl (by rw [← (owners a).2 inside, after])

/-- A cell that appears belongs to an allocation that did not exist before. -/
theorem MemoryEvents.appears {dir : Direction} {st st' : HeapState}
    (events : MemoryEvents dir st st') {a : Int} {aid : AllocId} (after : st'.owner a = some aid) :
    st.owner a = some aid ∨ st.hsAllocs aid = none := by
  induction events with
  | refl => exact .inl after
  | tail before event inductionHypothesis =>
      rcases event.appears after with earlier | fresh
      · exact inductionHypothesis earlier
      · refine .inr (Option.eq_none_iff_forall_ne_some.mpr ?_)
        intro al present
        obtain ⟨al', present', -⟩ := MemoryEvents.allocsEvolve before aid al present
        rw [fresh] at present'
        cases present'

/-- What a step of redex `e` may do to memory. -/
structure Authorised (e : RuntimeExpr) (st st' : HeapState) : Prop where
  /-- Accessed bytes lie within the alive allocation of the pointer. -/
  inBounds : ∀ l n, AccessesThrough e l n → 0 < n →
      ∃ aid al, l.1 = .provAlloc (some aid) ∧
    st.hsAllocs aid = some al ∧ al.alAlive = true ∧ al.alStart ≤ l.2 ∧ l.2 + n ≤ al.alEnd
  /-- Cells change only through pointers to their allocation. -/
  frame : ∀ a cell, st.hsHeap a = some cell → st'.hsHeap a ≠ some cell →
    ∃ l n, AccessesThrough e l n ∧ l.1 = .provAlloc (some cell.hcAllocId) ∧
      l.2 ≤ a ∧ a < l.2 + n
  /-- New cells belong to new allocations. -/
  appears : ∀ a cell, st.hsHeap a = none → st'.hsHeap a = some cell →
    st.hsAllocs cell.hcAllocId = none

private theorem runtimeStep_authorised {e e' : RuntimeExpr} {σ σ' : State}
    (owned : Owned σ.stHeap)
    (step : RuntimeStep e σ e' σ') : Authorised e σ.stHeap σ'.stHeap where
  inBounds := by
    intro l n access positive
    obtain ⟨aid, cells⟩ := access.cellsOf step
    obtain ⟨al, bounds⟩ := cells.inBounds owned positive
    exact ⟨aid, al, cells.1, bounds⟩
  frame := runtimeStep_changesWithin step
  appears := by
    intro a cell before after
    obtain ⟨dir, events⟩ := runtimeStep_memory step
    refine (events.appears (owner_of_cell after)).resolve_left ?_
    rw [owner_eq_none.mpr before]
    simp

/-- In every run each step of each thread accesses memory within the alive
allocations of its pointers only and changes nothing else; pointers to an
allocation that was freed earlier in the run give no access. -/
theorem memory_safe {c₀ c c' : EctxiLanguage.Config RuntimeExpr State} {i : Nat}
    (invariant : HeapStateInvariant c₀.2.stHeap) (run : cLang.PoolSteps c₀ c)
    (step : cLang.PoolStepBy i c c') :
    ∃ K e e', c.1[i]? = some (cLang.fill K e) ∧ RuntimeStep e c.2 e' c'.2 ∧
      c'.1 = c.1.set i (cLang.fill K e') ∧ Authorised e c.2.stHeap c'.2.stHeap ∧
      ∀ c1 aid, cLang.PoolSteps c₀ c1 → cLang.PoolSteps c1 c → AllocDead c1.2.stHeap aid →
        ∀ l n, AccessesThrough e l n → 0 < n → l.1 ≠ .provAlloc (some aid) := by
  have owned := poolSteps_owned run (heapStateInvariant_iff_owned.mp invariant)
  obtain ⟨t, t', thread, ⟨K, headStep⟩, threads⟩ := step
  rename_i e e'
  have authorised := runtimeStep_authorised owned headStep
  refine ⟨K, e, e', thread, headStep, threads, authorised, ?_⟩
  intro c1 aid before between dead l n access positive provenance
  obtain ⟨aid', al, provenance', found, alive, -⟩ := authorised.inBounds l n access positive
  rw [provenance] at provenance'
  cases provenance'
  obtain ⟨al', found', isDead⟩ := dead.evolve (poolSteps_allocsEvolve between)
  rw [found] at found'
  cases found'
  rw [alive] at isDead
  cases isDead

private theorem sharedByte_invariant : HeapStateInvariant sharedByte.stHeap := by
  have block : AllocNewBlock initialHeapState .heapAlloc sharedLoc [.mByte byte0 none]
      sharedByte.stHeap :=
    .allocNewBlock rfl rfl (by decide) (heapRangeFree_one rfl)
  exact heapStateInvariant_iff_owned.mpr (block.owned initialHeapState_owned)

private theorem loadStarted_stepBy : cLang.PoolStepBy 0 sharedLoads loadStarted := by
  have cells : heapAt sharedLoc (OpType.intOp u8).otLayout [.mByte byte0 none]
      (derefStartSt .na1Ord) sharedByte.stHeap.hsHeap :=
    ⟨⟨3, rfl⟩, by decide, rfl, ⟨3, .rSt 0, rfl, rfl, 0, rfl⟩, trivial⟩
  have step : ExprStep (.deref .na1Ord (.intOp u8) false (.val (valOfLoc sharedLoc))) sharedByte
      (pendingDeref (.intOp u8) false (valOfLoc sharedLoc)) loadStarted.2 :=
    .derefS (valToLoc_valOfLoc sharedLoc) cells
  exact ⟨_, _, rfl, .ectx [] (.exprStep step), rfl⟩

/-- The start of a load of the shared byte. -/
theorem memory_safe_sharedByte :
    ∃ K e e', sharedLoads.1[0]? = some (cLang.fill K e) ∧
      RuntimeStep e sharedLoads.2 e' loadStarted.2 ∧
      loadStarted.1 = sharedLoads.1.set 0 (cLang.fill K e') ∧
      Authorised e sharedLoads.2.stHeap loadStarted.2.stHeap ∧
      ∀ c1 aid, cLang.PoolSteps sharedLoads c1 → cLang.PoolSteps c1 sharedLoads →
        AllocDead c1.2.stHeap aid →
          ∀ l n, AccessesThrough e l n → 0 < n → l.1 ≠ .provAlloc (some aid) :=
  memory_safe sharedByte_invariant .refl loadStarted_stepBy

end RefinedC.Caesium
