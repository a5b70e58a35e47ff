import RefinedC.Caesium.Step

/-!
Well-formedness of the heap over whole runs of a thread pool.

Source: `theories/caesium/heap.v`, section on the heap state invariant, the
lemmas `*_preserves_invariant` of `theories/caesium/lang.v`, and
`initial_heap_state` of `theories/typing/adequacy.v`.

Owns: the heap state invariant, its restatement as an ownership relation between
addresses and alive allocations, the memory events that the steps of Caesium are
made of, and the invariant in every configuration that an interleaved run
reaches.

Every later result about allocations goes through `runtimeStep_memory`: it says
once which memory events a step can consist of.
-/

namespace RefinedC.Caesium

open RefinedC.Library

/-! ## The invariant -/

instance : Membership Int Allocation where
  mem al a := al.alStart ≤ a ∧ a < al.alEnd

theorem Allocation.mem_iff {al : Allocation} {a : Int} :
    a ∈ al ↔ al.alStart ≤ a ∧ a < al.alStart + al.alLen := Iff.rfl

instance (al : Allocation) (a : Int) : Decidable (a ∈ al) :=
  decidable_of_iff _ Allocation.mem_iff.symm

def addrInRangeAlloc (a : Int) (aid : AllocId) (st : HeapState) : Prop :=
  ∃ alloc, st.hsAllocs aid = some alloc ∧ a ∈ alloc

/-- Every mapped address has an allocation that contains it. -/
def heapStateHeapCellInRangeAlloc (st : HeapState) : Prop :=
  ∀ a hc, st.hsHeap a = some hc → addrInRangeAlloc a hc.hcAllocId st

/-- Every mapped address has an alive allocation. -/
def heapStateHeapCellAllocAlive (st : HeapState) : Prop :=
  ∀ a hc, st.hsHeap a = some hc → allocIdAlive hc.hcAllocId st

def heapStateAllocInRange (st : HeapState) : Prop :=
  ∀ id al, st.hsAllocs id = some al → allocationInRange al

/-- Alive allocations are disjoint. -/
def heapStateAllocDisjoint (st : HeapState) : Prop :=
  ∀ id1 id2 a1 a2, id1 ≠ id2 → st.hsAllocs id1 = some a1 → st.hsAllocs id2 = some a2 →
    allocIdAlive id1 st → allocIdAlive id2 st → ∀ p, p ∈ a1 → p ∈ a2 → False

/-- All addresses of an alive allocation are mapped. -/
def heapStateAllocAliveInHeap (st : HeapState) : Prop :=
  ∀ id alloc, st.hsAllocs id = some alloc → allocIdAlive id st →
    ∀ a, a ∈ alloc → (st.hsHeap a).isSome

/-- Invariant on the heap state maintained during evaluation. -/
structure HeapStateInvariant (st : HeapState) : Prop where
  cellInRange : heapStateHeapCellInRangeAlloc st
  cellAlive : heapStateHeapCellAllocAlive st
  allocInRange : heapStateAllocInRange st
  allocDisjoint : heapStateAllocDisjoint st
  aliveInHeap : heapStateAllocAliveInHeap st

/-! ## Ownership of addresses -/

/-- The allocation that the cell at `a` belongs to. -/
def HeapState.owner (st : HeapState) (a : Int) : Option AllocId :=
  (st.hsHeap a).map HeapCell.hcAllocId

/-- Allocation `aid` is alive and contains `a`. -/
def OwnedBy (st : HeapState) (a : Int) (aid : AllocId) : Prop :=
  ∃ al, st.hsAllocs aid = some al ∧ al.alAlive = true ∧ a ∈ al

/-- The cells of the heap and the alive allocations agree. -/
structure Owned (st : HeapState) : Prop where
  owner : ∀ a aid, st.owner a = some aid ↔ OwnedBy st a aid
  inRange : heapStateAllocInRange st

theorem owner_eq_none {st : HeapState} {a : Int} : st.owner a = none ↔ st.hsHeap a = none := by
  simp [HeapState.owner]

theorem owner_of_cell {st : HeapState} {a : Int} {hc : HeapCell} (mapped : st.hsHeap a = some hc) :
    st.owner a = some hc.hcAllocId := by
  simp [HeapState.owner, mapped]

private theorem cell_of_owner {st : HeapState} {a : Int} {aid : AllocId}
    (owned : st.owner a = some aid) :
    ∃ hc, st.hsHeap a = some hc ∧ hc.hcAllocId = aid := by
  simpa [HeapState.owner] using owned

/-- The five parts of the invariant say together that ownership is a function of
the alive allocations. -/
theorem heapStateInvariant_iff_owned {st : HeapState} : HeapStateInvariant st ↔ Owned st := by
  constructor
  · intro inv
    refine ⟨?_, inv.allocInRange⟩
    intro a aid
    constructor
    · intro owned
      obtain ⟨hc, mapped, rfl⟩ := cell_of_owner owned
      obtain ⟨al, found, contains⟩ := inv.cellInRange a hc mapped
      obtain ⟨al', found', alive⟩ := inv.cellAlive a hc mapped
      rw [found] at found'
      cases found'
      exact ⟨al, found, alive, contains⟩
    · rintro ⟨al, found, alive, contains⟩
      have isAlive : allocIdAlive aid st := ⟨al, found, alive⟩
      obtain ⟨hc, mapped⟩ :=
        Option.isSome_iff_exists.mp (inv.aliveInHeap aid al found isAlive a contains)
      rw [owner_of_cell mapped]
      by_contra different
      -- otherwise two different alive allocations would contain `a`
      obtain ⟨al', found', contains'⟩ := inv.cellInRange a hc mapped
      refine inv.allocDisjoint hc.hcAllocId aid al' al ?_ found' found
        (inv.cellAlive a hc mapped) isAlive a contains' contains
      intro same
      exact different (by rw [same])
  · intro owned
    refine ⟨?_, ?_, owned.inRange, ?_, ?_⟩
    · intro a hc mapped
      obtain ⟨al, found, _, contains⟩ := (owned.owner a _).mp (owner_of_cell mapped)
      exact ⟨al, found, contains⟩
    · intro a hc mapped
      obtain ⟨al, found, alive, _⟩ := (owned.owner a _).mp (owner_of_cell mapped)
      exact ⟨al, found, alive⟩
    · rintro id1 id2 a1 a2 different found1 found2 ⟨b1, again1, alive1⟩
        ⟨b2, again2, alive2⟩ p in1 in2
      rw [found1] at again1
      rw [found2] at again2
      cases again1
      cases again2
      have owner1 := (owned.owner p id1).mpr ⟨a1, found1, alive1, in1⟩
      have owner2 := (owned.owner p id2).mpr ⟨a2, found2, alive2, in2⟩
      rw [owner1] at owner2
      exact different (Option.some.inj owner2)
    · rintro id alloc found ⟨al, again, alive⟩ a contains
      rw [found] at again
      cases again
      obtain ⟨hc, mapped, _⟩ :=
        cell_of_owner ((owned.owner a id).mpr ⟨alloc, found, alive, contains⟩)
      rw [mapped]
      rfl

/-! ## Memory events -/

/-- No step of Caesium both allocates and frees blocks. -/
inductive Direction where
  | grows
  | shrinks
deriving DecidableEq

/-- What a step can do to memory at once: access cells without changing their
owner, allocate a block, or free one that is not a global variable. -/
inductive MemoryEvent : Direction → HeapState → HeapState → Prop where
  | access {dir : Direction} {st : HeapState} {h : Heap}
      (sameOwner : ∀ a, (⟨h, st.hsAllocs⟩ : HeapState).owner a = st.owner a) :
      MemoryEvent dir st ⟨h, st.hsAllocs⟩
  | alloc {st st' : HeapState} {kind : AllocKind} {l : Loc} {v : Val}
      (block : AllocNewBlock st kind l v st') : MemoryEvent .grows st st'
  | free {st st' : HeapState} {kind : AllocKind} {l : Loc} {ly : Layout}
      (notGlobal : kind ≠ .globalAlloc) (block : FreeBlock st kind l ly st') :
      MemoryEvent .shrinks st st'

/-- A finite sequence of memory events. -/
def MemoryEvents (dir : Direction) : HeapState → HeapState → Prop :=
  Relation.ReflTransGen (MemoryEvent dir)

theorem AllocNewBlocks.events {st st' : HeapState} {kind : AllocKind} {ls : List Loc}
    {vs : List Val} (blocks : AllocNewBlocks st kind ls vs st') :
    MemoryEvents .grows st st' := by
  induction blocks with
  | nil => exact .refl
  | cons first _ inductionHypothesis => exact .head (.alloc first) inductionHypothesis

theorem FreeBlocks.events {st st' : HeapState} {kind : AllocKind} {ls : List (Loc × Layout)}
    (notGlobal : kind ≠ .globalAlloc) (blocks : FreeBlocks st kind ls st') :
    MemoryEvents .shrinks st st' := by
  induction blocks with
  | nil => exact .refl
  | cons first _ inductionHypothesis =>
      exact .head (.free notGlobal first) (inductionHypothesis notGlobal)

/-- Writing over cells that are mapped keeps their owners. -/
theorem heapUpd_event {l : Loc} {ly : Layout} {old new : Val} {Plk : LockState → Prop}
    {flk : Option LockState → LockState} {st : HeapState} {dir : Direction}
    (cells : heapAt l ly old Plk st.hsHeap) (length : new.length = ly.lySize) :
    MemoryEvents dir st ⟨heapUpd l new flk st.hsHeap, st.hsAllocs⟩ := by
  obtain ⟨_, _, oldLength, lookup⟩ := cells
  refine .single (.access ?_)
  intro a
  simp only [HeapState.owner, heapUpd]
  by_cases inside : l.2 ≤ a ∧ a < l.2 + new.length
  · obtain ⟨aid, lk, b, mapped, _⟩ :=
      heapLookup_cell lookup inside.1 (by rw [oldLength, ← length]; exact inside.2)
    obtain ⟨b', _, updated⟩ := heapUpdate_inside
      (fun m => m.getD ((provAllocId l.1).getD dummyAllocId)) flk st.hsHeap inside.1 inside.2
    rw [updated, mapped]
    rfl
  · rw [heapUpdate_outside (by omega)]

private theorem exprStep_memory {e : Expr} {σ σ' : State} {e' : RuntimeExpr}
    (step : ExprStep e σ e' σ') :
    MemoryEvents .grows σ.stHeap σ'.stHeap := by
  cases step with
  | skipES | unOpS | binOpS | callFailS | concatS | copyAllocIdS | ifES | allocFailS => exact .refl
  | derefS _ cells => exact heapUpd_event cells cells.2.2.1
  | casFailS _ objectCells _ expectedCells => exact heapUpd_event expectedCells objectCells.2.2.1
  | casSucS _ objectCells _ _ _ _ desired => exact heapUpd_event objectCells desired
  | callS _ _ _ _ _ _ _ allocVars allocArgs =>
      exact .trans allocVars.events allocArgs.events
  | allocS _ _ block => exact .single (.alloc block)

private theorem stmtStep_memory {s : Stmt} {rf : RuntimeFunction} {σ σ' : State}
    {e' : RuntimeExpr}
    (step : StmtStep s rf σ e' σ') : MemoryEvents .shrinks σ.stHeap σ'.stHeap := by
  cases step with
  | ifSS | switchS | gotoS | skipSS | exprSS => exact .refl
  | @assignS o _ _ _ v1 v2 _ v' _ _ layout cells =>
      refine heapUpd_event cells ?_
      -- the first half of a non-atomic store writes the old bytes back
      cases o
      · exact layout
      · exact cells.2.2.1
      · exact layout
  | returnS deallocate => exact deallocate.events (by decide)
  | freeS _ _ block => exact .single (.free (by decide) block)

/-- The memory events of a step. -/
theorem runtimeStep_memory {e e' : RuntimeExpr} {σ σ' : State} (step : RuntimeStep e σ e' σ') :
    ∃ dir, MemoryEvents dir σ.stHeap σ'.stHeap := by
  cases step with
  | exprStep step => exact ⟨_, exprStep_memory step⟩
  | stmtStep step => exact ⟨_, stmtStep_memory step⟩
  | allocFailedStep => exact ⟨.grows, .refl⟩

theorem poolStep_memory {c c' : EctxiLanguage.Config RuntimeExpr State}
    (step : cLang.PoolStep c c') : ∃ dir, MemoryEvents dir c.2.stHeap c'.2.stHeap := by
  obtain ⟨_, _, _, _, ⟨_, step⟩, _⟩ := step
  exact runtimeStep_memory step

/-! ## Events as changes of ownership -/

theorem AllocNewBlock.cases {st st' : HeapState} {kind : AllocKind} {l : Loc} {v : Val}
    (block : AllocNewBlock st kind l v st') :
    ∃ aid, l.1 = .provAlloc (some aid) ∧ st.hsAllocs aid = none ∧
      allocationInRange ⟨l.2, v.length, true, kind⟩ ∧
      st'.hsAllocs = st.hsAllocs.insert aid ⟨l.2, v.length, true, kind⟩ ∧
      ∀ a, (a ∈ (⟨l.2, v.length, true, kind⟩ : Allocation) →
          st.owner a = none ∧ st'.owner a = some aid) ∧
        (¬ a ∈ (⟨l.2, v.length, true, kind⟩ : Allocation) → st'.owner a = st.owner a) := by
  obtain ⟨provenance, fresh, inRange, rangeFree⟩ := block
  rename_i aid
  refine ⟨aid, provenance, fresh, inRange, rfl, ?_⟩
  intro a
  constructor
  · intro inside
    obtain ⟨b, _, updated⟩ := heapUpdate_inside (fun _ => aid) (fun _ => .rSt 0) st.hsHeap
      inside.1 inside.2
    refine ⟨owner_eq_none.mpr (rangeFree a inside), ?_⟩
    simp only [HeapState.owner, heapAlloc]
    rw [updated]
    rfl
  · intro outside
    rw [Allocation.mem_iff] at outside
    simp only [HeapState.owner, heapAlloc]
    rw [heapUpdate_outside (by simp only [] at outside; omega)]

theorem FreeBlock.cases {st st' : HeapState} {kind : AllocKind} {l : Loc} {ly : Layout}
    (block : FreeBlock st kind l ly st') :
    ∃ aid, l.1 = .provAlloc (some aid) ∧
      st.hsAllocs aid = some ⟨l.2, ly.lySize, true, kind⟩ ∧
      st'.hsAllocs = st.hsAllocs.insert aid ⟨l.2, ly.lySize, false, kind⟩ ∧
      ∀ a, (a ∈ (⟨l.2, ly.lySize, true, kind⟩ : Allocation) → st'.owner a = none) ∧
        (¬ a ∈ (⟨l.2, ly.lySize, true, kind⟩ : Allocation) →
          st'.owner a = st.owner a) := by
  obtain ⟨provenance, alive, length, unlocked⟩ := block
  refine ⟨_, provenance, alive, rfl, ?_⟩
  intro a
  constructor
  · intro inside
    rw [owner_eq_none]
    exact heapFree_inside inside.1 inside.2
  · intro outside
    rw [Allocation.mem_iff] at outside
    simp only [HeapState.owner]
    rw [heapFree_outside (by simp only [] at outside; omega)]

private theorem heapStateAllocInRange_insert {st st' : HeapState} {aid : AllocId} {al : Allocation}
    (before : heapStateAllocInRange st) (inRange : allocationInRange al)
    (allocs : st'.hsAllocs = st.hsAllocs.insert aid al) : heapStateAllocInRange st' := by
  intro id al' found
  rw [allocs] at found
  by_cases same : id = aid
  · subst same
    rw [PartialMap.insert_same] at found
    cases found
    exact inRange
  · rw [PartialMap.insert_other same] at found
    exact before id al' found

private theorem ownedBy_insert_same {st st' : HeapState} {aid : AllocId} {al : Allocation}
    (allocs : st'.hsAllocs = st.hsAllocs.insert aid al) (a : Int) :
    OwnedBy st' a aid ↔ al.alAlive = true ∧ a ∈ al := by
  simp [OwnedBy, allocs]

private theorem ownedBy_insert_other {st st' : HeapState} {aid id : AllocId} {al : Allocation}
    (allocs : st'.hsAllocs = st.hsAllocs.insert aid al) (different : id ≠ aid) (a : Int) :
    OwnedBy st' a id ↔ OwnedBy st a id := by
  simp [OwnedBy, allocs, PartialMap.insert_other different]

theorem AllocNewBlock.owned {st st' : HeapState} {kind : AllocKind} {l : Loc} {v : Val}
    (block : AllocNewBlock st kind l v st') (before : Owned st) : Owned st' := by
  obtain ⟨aid, _, fresh, inRange, allocs, owners⟩ := block.cases
  refine ⟨?_, heapStateAllocInRange_insert before.inRange inRange allocs⟩
  intro a id
  obtain ⟨inside, outside⟩ := owners a
  by_cases same : id = aid
  · subst same
    rw [ownedBy_insert_same allocs]
    by_cases contains : a ∈ (⟨l.2, v.length, true, kind⟩ : Allocation)
    · simp [(inside contains).2, contains]
    · -- a fresh identifier owns nothing yet
      have notOwned : ¬ OwnedBy st a id := by
        rintro ⟨al, found, _⟩
        rw [fresh] at found
        cases found
      simp [outside contains, before.owner, contains, notOwned]
  · rw [ownedBy_insert_other allocs same, ← before.owner]
    by_cases contains : a ∈ (⟨l.2, v.length, true, kind⟩ : Allocation)
    · simp [(inside contains).1, (inside contains).2, Ne.symm same]
    · rw [outside contains]

theorem FreeBlock.owned {st st' : HeapState} {kind : AllocKind} {l : Loc} {ly : Layout}
    (block : FreeBlock st kind l ly st') (before : Owned st) : Owned st' := by
  obtain ⟨aid, _, alive, allocs, owners⟩ := block.cases
  have inRange : allocationInRange ⟨l.2, ly.lySize, false, kind⟩ := before.inRange aid
    ⟨l.2, ly.lySize, true, kind⟩ alive
  refine ⟨?_, heapStateAllocInRange_insert before.inRange inRange allocs⟩
  intro a id
  obtain ⟨inside, outside⟩ := owners a
  have freedOwner : a ∈ (⟨l.2, ly.lySize, true, kind⟩ : Allocation) →
      st.owner a = some aid :=
    fun contains => (before.owner a aid).mpr ⟨_, alive, rfl, contains⟩
  by_cases same : id = aid
  · subst same
    rw [ownedBy_insert_same allocs]
    by_cases contains : a ∈ (⟨l.2, ly.lySize, true, kind⟩ : Allocation)
    · simp [inside contains]
    · have notOwned : ¬ OwnedBy st a id := by
        rintro ⟨al, found, _, inAl⟩
        rw [alive] at found
        cases found
        exact contains inAl
      simp [outside contains, before.owner, notOwned]
  · rw [ownedBy_insert_other allocs same, ← before.owner]
    by_cases contains : a ∈ (⟨l.2, ly.lySize, true, kind⟩ : Allocation)
    · simp [inside contains, freedOwner contains, Ne.symm same]
    · rw [outside contains]

theorem MemoryEvent.owned {dir : Direction} {st st' : HeapState}
    (event : MemoryEvent dir st st') (before : Owned st) : Owned st' := by
  cases event with
  | access sameOwner =>
      refine ⟨?_, before.inRange⟩
      intro a aid
      rw [sameOwner]
      exact before.owner a aid
  | alloc block => exact block.owned before
  | free _ block => exact block.owned before

theorem MemoryEvents.owned {dir : Direction} {st st' : HeapState}
    (events : MemoryEvents dir st st') (before : Owned st) : Owned st' := by
  induction events with
  | refl => exact before
  | tail _ event inductionHypothesis => exact event.owned inductionHypothesis

/-! ## Whole runs -/

def initialHeapState : HeapState := ⟨PartialMap.empty, PartialMap.empty⟩

theorem initialHeapState_owned : Owned initialHeapState := by
  constructor
  · intro a aid
    simp [HeapState.owner, OwnedBy, initialHeapState, PartialMap.empty]
  · intro id al found
    simp [initialHeapState, PartialMap.empty] at found

theorem poolSteps_owned {c c' : EctxiLanguage.Config RuntimeExpr State}
    (run : cLang.PoolSteps c c') (before : Owned c.2.stHeap) : Owned c'.2.stHeap := by
  let Inv : EctxiLanguage.Config RuntimeExpr State → Prop := fun c => Owned c.2.stHeap
  have preserved : ∀ {c c'}, Inv c → cLang.PoolStep c c' → Inv c' := by
    intro c c' owned step
    obtain ⟨dir, events⟩ := poolStep_memory step
    exact events.owned owned
  exact cLang.invariant_of_poolSteps preserved before run

/-- What the invariant gives for a mapped address. -/
theorem Owned.mapped {st : HeapState} (owned : Owned st) {a : Int} {cell : HeapCell}
    (mapped : st.hsHeap a = some cell) :
    OwnedBy st a cell.hcAllocId ∧ (∀ aid, OwnedBy st a aid → aid = cell.hcAllocId) ∧
      0 < a ∧ a < maxAllocEnd := by
  have isOwner := owner_of_cell mapped
  have holder := (owned.owner a _).mp isOwner
  refine ⟨holder, ?_, ?_⟩
  · intro aid other
    have otherOwner := (owned.owner a aid).mpr other
    rw [isOwner] at otherOwner
    exact (Option.some.inj otherOwner).symm
  · obtain ⟨al, found, _, low, high⟩ := holder
    obtain ⟨lowest, highest⟩ := owned.inRange _ al found
    unfold minAllocStart at lowest
    omega

/-- From the globals onwards every run keeps the invariant; a mapped address has
exactly one alive allocation, whose identifier its cell carries, and the
addresses of alive allocations are mapped. -/
theorem heapState_wellFormed {gls : List Loc} {gvs : List Val} {hs : HeapState}
    {fns : PartialMap Int Function} {ts : List RuntimeExpr}
    {c : EctxiLanguage.Config RuntimeExpr State}
    (globals : AllocNewBlocks initialHeapState .globalAlloc gls gvs hs)
    (run : cLang.PoolSteps (ts, ⟨hs, fns⟩) c) :
    HeapStateInvariant c.2.stHeap ∧
      (∀ a cell, c.2.stHeap.hsHeap a = some cell →
        OwnedBy c.2.stHeap a cell.hcAllocId ∧
          (∀ aid, OwnedBy c.2.stHeap a aid → aid = cell.hcAllocId) ∧
          a ≠ 0 ∧ a < maxAllocEnd) ∧
      (∀ a aid, OwnedBy c.2.stHeap a aid → (c.2.stHeap.hsHeap a).isSome) := by
  have initial : Owned hs := globals.events.owned initialHeapState_owned
  have owned : Owned c.2.stHeap := poolSteps_owned run initial
  refine ⟨heapStateInvariant_iff_owned.mpr owned, ?_, ?_⟩
  · intro a cell mapped
    obtain ⟨holder, unique, positive, bounded⟩ := owned.mapped mapped
    exact ⟨holder, unique, by omega, bounded⟩
  · intro a aid holder
    obtain ⟨cell, mapped, _⟩ := cell_of_owner ((owned.owner a aid).mpr holder)
    rw [mapped]
    rfl

/-! ## A call with one argument and one local variable -/

def calledFn : Function where
  fArgs := [("x", u8.itLayout)]
  fLocalVars := [("y", u8.itLayout)]
  fCode := PartialMap.empty.insert "#0" (.return (.val []))
  fInit := "#0"

def calledFns : PartialMap Int Function := PartialMap.empty.insert 64 calledFn

def globalLoc : Loc := (.provAlloc (some 1), 8)

def argLoc : Loc := (.provAlloc (some 3), 16)

def varLoc : Loc := (.provAlloc (some 2), 24)

/-- One byte of global memory. -/
def globalByte : HeapState :=
  ⟨heapAlloc 8 [.mByte byte0 none] 1 initialHeapState.hsHeap,
    initialHeapState.hsAllocs.insert 1 ⟨8, 1, true, .globalAlloc⟩⟩

def varAllocated : HeapState :=
  ⟨heapAlloc 24 [.mPoison] 2 globalByte.hsHeap,
    globalByte.hsAllocs.insert 2 ⟨24, 1, true, .stackAlloc⟩⟩

def argAllocated : HeapState :=
  ⟨heapAlloc 16 [.mByte byte0 none] 3 varAllocated.hsHeap,
    varAllocated.hsAllocs.insert 3 ⟨16, 1, true, .stackAlloc⟩⟩

def beforeCall : EctxiLanguage.Config RuntimeExpr State :=
  ([toRtexpr (.call (.val (valOfLoc (fnLoc 64))) ([[.mByte byte0 none]].map .val))],
    ⟨globalByte, calledFns⟩)

def afterCall : EctxiLanguage.Config RuntimeExpr State :=
  ([toRtstmt (callFrame calledFn [argLoc] [varLoc]) (.goto "#0")], ⟨argAllocated, calledFns⟩)

theorem heapRangeFree_one {h : Heap} {a : Int} (unmapped : h a = none) : heapRangeFree h a 1 := by
  intro a' inside
  have here : a' = a := by omega
  rw [here, unmapped]

theorem globalByte_allocated :
    AllocNewBlocks initialHeapState .globalAlloc [globalLoc] [[.mByte byte0 none]] globalByte :=
  .cons (.allocNewBlock rfl rfl (by decide) (heapRangeFree_one rfl)) .nil

theorem afterCall_step : cLang.PoolStep beforeCall afterCall := by
  have allocVars : AllocNewBlocks globalByte .stackAlloc [varLoc]
      (calledFn.fLocalVars.map (fun p => List.replicate p.2.lySize .mPoison)) varAllocated :=
    .cons (.allocNewBlock rfl rfl (by decide) (heapRangeFree_one rfl)) .nil
  have allocArgs : AllocNewBlocks varAllocated .stackAlloc [argLoc] [[.mByte byte0 none]]
      argAllocated :=
    .cons (.allocNewBlock rfl rfl (by decide) (heapRangeFree_one rfl)) .nil
  have step : ExprStep (.call (.val (valOfLoc (fnLoc 64))) ([[.mByte byte0 none]].map .val))
      ⟨globalByte, calledFns⟩ (toRtstmt (callFrame calledFn [argLoc] [varLoc]) (.goto "#0"))
      ⟨argAllocated, calledFns⟩ :=
    .callS (valToLoc_valOfLoc _) rfl rfl rfl (.cons rfl .nil) (.cons (by decide) .nil)
      (.cons (by decide) .nil) allocVars allocArgs
  exact ⟨0, _, _, rfl, .ectx [] (.exprStep step), rfl⟩

theorem heapState_wellFormed_afterCall :
    HeapStateInvariant argAllocated ∧
      (∀ a cell, argAllocated.hsHeap a = some cell →
        OwnedBy argAllocated a cell.hcAllocId ∧
          (∀ aid, OwnedBy argAllocated a aid → aid = cell.hcAllocId) ∧
          a ≠ 0 ∧ a < maxAllocEnd) ∧
      (∀ a aid, OwnedBy argAllocated a aid → (argAllocated.hsHeap a).isSome) :=
  heapState_wellFormed (c := afterCall) globalByte_allocated (.single afterCall_step)

end RefinedC.Caesium
