import RefinedC.Caesium.LockState

/-!
Non-atomic accesses are not torn.

Owns: the addresses that a step touches and those that it writes, the progress
of the second half of a non-atomic load or store, the stability of the bytes
between the two halves of a load, and the exclusion of interfering steps of
other threads.

Does not own: the accounting of lock states, which is `LockInv`.
-/

namespace RefinedC.Caesium

open RefinedC.Library

/-! ## Addresses that a step touches or writes -/

/-- A step of redex `e` accesses address `a`. -/
inductive Touches : RuntimeExpr → Int → Prop where
  | deref {o : Order} {ot : OpType} {mc : Bool} {v : Val} {l : Loc} {a : Int}
      (pointer : valToLoc v = some l) (covers : Covers l ot a) :
      Touches (toRtexpr (.deref o ot mc (.val v))) a
  | assign {o : Order} {rf : RuntimeFunction} {ot : OpType} {v1 v2 : Val} {s : Stmt} {l : Loc}
      {a : Int} (pointer : valToLoc v1 = some l) (covers : Covers l ot a) :
      Touches (toRtstmt rf (.assign o ot (.val v1) (.val v2) s)) a
  | casObject {ot : OpType} {v1 v2 v3 : Val} {l : Loc} {a : Int}
      (pointer : valToLoc v1 = some l) (covers : Covers l ot a) :
      Touches (toRtexpr (.cas ot (.val v1) (.val v2) (.val v3))) a
  | casExpected {ot : OpType} {v1 v2 v3 : Val} {l : Loc} {a : Int}
      (pointer : valToLoc v2 = some l) (covers : Covers l ot a) :
      Touches (toRtexpr (.cas ot (.val v1) (.val v2) (.val v3))) a
  | free {rf : RuntimeFunction} {ly : Layout} {v : Val} {s : Stmt} {l : Loc} {a : Int}
      (pointer : valToLoc v = some l) (inside : l.2 ≤ a ∧ a < l.2 + ly.lySize) :
      Touches (toRtstmt rf (.free ly (.val v) s)) a
  | return {rf : RuntimeFunction} {v : Val} {l : Loc} {ly : Layout} {a : Int}
      (block : (l, ly) ∈ rf.rfLocs) (inside : l.2 ≤ a ∧ a < l.2 + ly.lySize) :
      Touches (toRtstmt rf (.return (.val v))) a

/-- A step from redex `e` to `e'` writes or frees address `a`. A successful
compare-and-swap writes the object, a failed one the expected value. -/
inductive Writes : RuntimeExpr → RuntimeExpr → Int → Prop where
  | assign {o : Order} {rf : RuntimeFunction} {ot : OpType} {v1 v2 : Val} {s : Stmt} {l : Loc}
      {a : Int} {e' : RuntimeExpr} (pointer : valToLoc v1 = some l) (covers : Covers l ot a) :
      Writes (toRtstmt rf (.assign o ot (.val v1) (.val v2) s)) e' a
  | casObject {ot : OpType} {v1 v2 v3 : Val} {l : Loc} {a : Int}
      (pointer : valToLoc v1 = some l) (covers : Covers l ot a) :
      Writes (toRtexpr (.cas ot (.val v1) (.val v2) (.val v3)))
        (toRtexpr (.val (valOfBool true))) a
  | casExpected {ot : OpType} {v1 v2 v3 : Val} {l : Loc} {a : Int}
      (pointer : valToLoc v2 = some l) (covers : Covers l ot a) :
      Writes (toRtexpr (.cas ot (.val v1) (.val v2) (.val v3)))
        (toRtexpr (.val (valOfBool false))) a
  | free {rf : RuntimeFunction} {ly : Layout} {v : Val} {s : Stmt} {l : Loc} {a : Int}
      {e' : RuntimeExpr} (pointer : valToLoc v = some l)
      (inside : l.2 ≤ a ∧ a < l.2 + ly.lySize) :
      Writes (toRtstmt rf (.free ly (.val v) s)) e' a
  | return {rf : RuntimeFunction} {v : Val} {l : Loc} {ly : Layout} {a : Int} {e' : RuntimeExpr}
      (block : (l, ly) ∈ rf.rfLocs) (inside : l.2 ≤ a ∧ a < l.2 + ly.lySize) :
      Writes (toRtstmt rf (.return (.val v))) e' a

/-- The bytes in the cells from `l` on, `none` where nothing is mapped. -/
def bytesAt (h : Heap) (l : Loc) (n : Nat) : List (Option Mbyte) :=
  (List.range n).map (fun k : Nat => (h (l.2 + k)).map HeapCell.hcValue)

/-- The branch of `derefEndSt` that the source calls unreachable is taken. -/
def derefEndFallsThrough (o : Order) (st : Option LockState) : Prop :=
  match o, st with
  | .na1Ord, some (.rSt _) => False
  | .na2Ord, some (.rSt (_ + 1)) => False
  | .scOrd, some _ => False
  | _, _ => True

/-! ## Lock states that a step needs -/

private theorem heapAt_cell {l : Loc} {ot : OpType} {v : Val} {Plk : LockState → Prop} {h : Heap}
    {a : Int} (cells : heapAt l ot.otLayout v Plk h) (covers : Covers l ot a) :
    ∃ cell, h a = some cell ∧ Plk cell.hcLockState := by
  obtain ⟨-, -, length, lookup⟩ := cells
  unfold hasLayoutVal at length
  obtain ⟨aid, lk, b, found, -, -, lockOk⟩ :=
    heapLookup_cell lookup covers.1 (by rw [length]; exact covers.2)
  exact ⟨⟨aid, lk, b⟩, found, lockOk⟩

theorem FreeBlock.cell {σ σ' : HeapState} {kind : AllocKind} {l : Loc} {ly : Layout} {a : Int}
    (block : FreeBlock σ kind l ly σ') (inside : l.2 ≤ a ∧ a < l.2 + ly.lySize) :
    ∃ cell, σ.hsHeap a = some cell ∧ cell.hcLockState = .rSt 0 := by
  obtain ⟨provenance, alive, length, unlocked⟩ := block
  obtain ⟨aid, lk, b, found, -, -, lockOk⟩ :=
    heapLookup_cell unlocked inside.1 (by rw [length]; exact inside.2)
  exact ⟨⟨aid, lk, b⟩, found, lockOk⟩

theorem FreeBlock.cell_before {σ σ' : HeapState} {kind : AllocKind} {l : Loc} {ly : Layout}
    {a : Int} {cell : HeapCell} (block : FreeBlock σ kind l ly σ')
    (found : σ'.hsHeap a = some cell) : σ.hsHeap a = some cell := by
  obtain ⟨provenance, alive, length, unlocked⟩ := block
  change heapFree _ _ _ a = some cell at found
  by_cases inside : l.2 ≤ a ∧ a < l.2 + ly.lySize
  · rw [heapFree_inside inside.1 inside.2] at found
    cases found
  · rwa [heapFree_outside (by omega)] at found

/-- All cells of all freed blocks were unlocked before the first block went. -/
theorem FreeBlocks.cell {σ σ' : HeapState} {kind : AllocKind} {ls : List (Loc × Layout)}
    {l : Loc} {ly : Layout} {a : Int} (blocks : FreeBlocks σ kind ls σ')
    (member : (l, ly) ∈ ls) (inside : l.2 ≤ a ∧ a < l.2 + ly.lySize) :
    ∃ cell, σ.hsHeap a = some cell ∧ cell.hcLockState = .rSt 0 := by
  induction blocks with
  | nil => simp at member
  | cons first _ inductionHypothesis =>
      rcases List.mem_cons.mp member with here | later
      · cases here
        exact first.cell inside
      · obtain ⟨cell, found, unlocked⟩ := inductionHypothesis later
        exact ⟨cell, first.cell_before found, unlocked⟩

section

variable {o : Order} {ot : OpType} {mc : Bool} {rf : RuntimeFunction} {ly : Layout}
  {v w : Val} {s : Stmt} {l : Loc} {a : Int} {e' : RuntimeExpr} {σ σ' : State}

private theorem deref_cell (step : RuntimeStep (toRtexpr (.deref o ot mc (.val v))) σ e' σ')
    (pointer : valToLoc v = some l) (covers : Covers l ot a) :
    ∃ cell, σ.stHeap.hsHeap a = some cell ∧ derefStartSt o cell.hcLockState := by
  have step := runtimeStep_toRtexpr step
  cases step with
  | derefS pointer' cells =>
      rw [pointer] at pointer'
      cases pointer'
      exact heapAt_cell cells covers

private theorem assign_cell
    (step : RuntimeStep (toRtstmt rf (.assign o ot (.val v) (.val w) s)) σ e' σ')
    (pointer : valToLoc v = some l) (covers : Covers l ot a) :
    ∃ cell, σ.stHeap.hsHeap a = some cell ∧ assignStartSt o cell.hcLockState := by
  have step := runtimeStep_toRtstmt step
  cases step with
  | assignS pointer' layout cells =>
      rw [pointer] at pointer'
      cases pointer'
      exact heapAt_cell cells covers

private theorem free_cell (step : RuntimeStep (toRtstmt rf (.free ly (.val v) s)) σ e' σ')
    (pointer : valToLoc v = some l) (inside : l.2 ≤ a ∧ a < l.2 + ly.lySize) :
    ∃ cell, σ.stHeap.hsHeap a = some cell ∧ cell.hcLockState = .rSt 0 := by
  have step := runtimeStep_toRtstmt step
  cases step with
  | freeS pointer' aligned block =>
      rw [pointer] at pointer'
      cases pointer'
      exact block.cell inside

private theorem return_cell (step : RuntimeStep (toRtstmt rf (.return (.val v))) σ e' σ')
    (block : (l, ly) ∈ rf.rfLocs) (inside : l.2 ≤ a ∧ a < l.2 + ly.lySize) :
    ∃ cell, σ.stHeap.hsHeap a = some cell ∧ cell.hcLockState = .rSt 0 := by
  have step := runtimeStep_toRtstmt step
  cases step with
  | returnS deallocate => exact deallocate.cell block inside

end

/-- A step finds the cells that it touches readable, or finishes a store to
them. -/
theorem Touches.lock {e e' : RuntimeExpr} {σ σ' : State} {a : Int} (touches : Touches e a)
    (step : RuntimeStep e σ e' σ') :
    ∃ cell, σ.stHeap.hsHeap a = some cell ∧
      ((∃ n, cell.hcLockState = .rSt n) ∨ AssignCovers a e) := by
  cases touches with
  | @deref o ot mc v l _ pointer covers =>
      obtain ⟨cell, found, n, start⟩ := deref_cell step pointer covers
      refine ⟨cell, found, .inl ?_⟩
      cases o with
      | scOrd => exact ⟨n, start⟩
      | na1Ord => exact ⟨n, start⟩
      | na2Ord => exact ⟨n + 1, start⟩
  | @assign o rf ot v1 v2 s l _ pointer covers =>
      obtain ⟨cell, found, start⟩ := assign_cell step pointer covers
      refine ⟨cell, found, ?_⟩
      cases o with
      | scOrd => exact .inl ⟨0, start⟩
      | na1Ord => exact .inl ⟨0, start⟩
      | na2Ord => exact .inr ⟨[], rf, ot, v1, v2, s, l, rfl, pointer, covers⟩
  | casObject pointer covers =>
      have step := runtimeStep_toRtexpr step
      cases step with
      | casFailS object objectCells =>
          rw [pointer] at object
          cases object
          obtain ⟨cell, found, readable⟩ := heapAt_cell objectCells covers
          exact ⟨cell, found, .inl readable⟩
      | casSucS object objectCells =>
          rw [pointer] at object
          cases object
          obtain ⟨cell, found, unlocked⟩ := heapAt_cell objectCells covers
          exact ⟨cell, found, .inl ⟨0, unlocked⟩⟩
  | casExpected pointer covers =>
      have step := runtimeStep_toRtexpr step
      cases step with
      | casFailS _ _ expected expectedCells =>
          rw [pointer] at expected
          cases expected
          obtain ⟨cell, found, unlocked⟩ := heapAt_cell expectedCells covers
          exact ⟨cell, found, .inl ⟨0, unlocked⟩⟩
      | casSucS _ _ expected expectedCells =>
          rw [pointer] at expected
          cases expected
          obtain ⟨cell, found, readable⟩ := heapAt_cell expectedCells covers
          exact ⟨cell, found, .inl readable⟩
  | free pointer inside =>
      obtain ⟨cell, found, unlocked⟩ := free_cell step pointer inside
      exact ⟨cell, found, .inl ⟨0, unlocked⟩⟩
  | «return» block inside =>
      obtain ⟨cell, found, unlocked⟩ := return_cell step block inside
      exact ⟨cell, found, .inl ⟨0, unlocked⟩⟩

/-- A step that writes or frees a cell finds it without readers. -/
theorem Writes.lock {e e' : RuntimeExpr} {σ σ' : State} {a : Int} (writes : Writes e e' a)
    (step : RuntimeStep e σ e' σ') :
    ∃ cell, σ.stHeap.hsHeap a = some cell ∧
      (cell.hcLockState = .rSt 0 ∨ cell.hcLockState = .wSt) := by
  cases writes with
  | @assign o rf ot v1 v2 s l _ _ pointer covers =>
      obtain ⟨cell, found, start⟩ := assign_cell step pointer covers
      refine ⟨cell, found, ?_⟩
      cases o with
      | scOrd => exact .inl start
      | na1Ord => exact .inl start
      | na2Ord => exact .inr start
  | casObject pointer covers =>
      have step := runtimeStep_toRtexpr step
      generalize result : toRtexpr (.val (valOfBool true)) = e' at step
      cases step with
      | casFailS => exact absurd (Expr.val.inj (toRtexpr_inj result)) (by decide)
      | casSucS object objectCells =>
          rw [pointer] at object
          cases object
          obtain ⟨cell, found, unlocked⟩ := heapAt_cell objectCells covers
          exact ⟨cell, found, .inl unlocked⟩
  | casExpected pointer covers =>
      have step := runtimeStep_toRtexpr step
      generalize result : toRtexpr (.val (valOfBool false)) = e' at step
      cases step with
      | casFailS _ _ expected expectedCells =>
          rw [pointer] at expected
          cases expected
          obtain ⟨cell, found, unlocked⟩ := heapAt_cell expectedCells covers
          exact ⟨cell, found, .inl unlocked⟩
      | casSucS => exact absurd (Expr.val.inj (toRtexpr_inj result)) (by decide)
  | free pointer inside =>
      obtain ⟨cell, found, unlocked⟩ := free_cell step pointer inside
      exact ⟨cell, found, .inl unlocked⟩
  | «return» block inside =>
      obtain ⟨cell, found, unlocked⟩ := return_cell step block inside
      exact ⟨cell, found, .inl unlocked⟩

/-- A load of any order finds lock states that `derefEndSt` expects. -/
theorem derefEnd_expected {o : Order} {ot : OpType} {mc : Bool} {v : Val} {l : Loc}
    {e' : RuntimeExpr} {σ σ' : State} {a : Int}
    (step : RuntimeStep (toRtexpr (.deref o ot mc (.val v))) σ e' σ')
    (pointer : valToLoc v = some l) (covers : Covers l ot a) :
    ¬ derefEndFallsThrough o ((σ.stHeap.hsHeap a).map HeapCell.hcLockState) := by
  obtain ⟨cell, found, n, start⟩ := deref_cell step pointer covers
  rw [found, Option.map_some, start]
  cases o <;> simp [derefEndFallsThrough]

/-! ## Bytes between the two halves of a load -/

theorem bytesAt_congr {h h' : Heap} {l : Loc} {n : Nat}
    (same : ∀ a, l.2 ≤ a → a < l.2 + n →
      (h' a).map HeapCell.hcValue = (h a).map HeapCell.hcValue) :
    bytesAt h' l n = bytesAt h l n := by
  unfold bytesAt
  apply List.map_congr_left
  intro k member
  have bound := List.mem_range.mp member
  exact same _ (by omega) (by omega)

/-- The bytes that a load finds are those in its cells. -/
theorem heapAt_bytesAt {l : Loc} {ly : Layout} {v : Val} {Plk : LockState → Prop} {h : Heap}
    (cells : heapAt l ly v Plk h) : bytesAt h l ly.lySize = v.map some := by
  obtain ⟨-, -, length, lookup⟩ := cells
  unfold hasLayoutVal at length
  apply List.ext_getElem?
  intro k
  by_cases bound : k < ly.lySize
  · obtain ⟨aid, lk, b, found, value, -, -⟩ :=
      heapLookup_cell (p := l.2 + k) lookup (by omega) (by omega)
    have offset : (l.2 + (k : Int) - l.2).toNat = k := by omega
    rw [offset] at value
    simp [bytesAt, bound, found, value]
  · have short : v.length ≤ k := by omega
    simp [bytesAt, bound, short]

/-- A load whose cells are mapped, owned and suitably locked finds its bytes. -/
theorem heapAt_of_cells {l : Loc} {ly : Layout} {aid : AllocId} {h : Heap}
    (Plk : LockState → Prop) (provenance : l.1 = .provAlloc (some aid))
    (aligned : hasLayoutLoc l ly) (cells : ∀ a, l.2 ≤ a → a < l.2 + ly.lySize →
      ∃ cell, h a = some cell ∧ cell.hcAllocId = aid ∧ Plk cell.hcLockState) :
    ∃ v, heapAt l ly v Plk h := by
  let v : Val := (bytesAt h l ly.lySize).map (fun b => b.getD .mPoison)
  have length : v.length = ly.lySize := by simp [v, bytesAt]
  refine ⟨v, ⟨aid, provenance⟩, aligned, length, heapLookup_of_cells ?_⟩
  intro p low high
  rw [length] at high
  obtain ⟨cell, found, owner, lockOk⟩ := cells p low high
  refine ⟨aid, cell.hcLockState, cell.hcValue, by rw [found, ← owner], ?_, provenance, lockOk⟩
  obtain ⟨k, rfl⟩ : ∃ k : Nat, p = l.2 + k := ⟨(p - l.2).toNat, by omega⟩
  have bound : k < ly.lySize := by omega
  have offset : (l.2 + (k : Int) - l.2).toNat = k := by omega
  rw [offset]
  simp [v, bytesAt, bound, found]

/-- A step leaves the owner and the value of a cell alone that is being read. -/
theorem HeadEffect.read_cell {e e' : RuntimeExpr} {h h' : Heap} (effect : HeadEffect e h e' h')
    {a : Int} {cell : HeapCell} {n : Nat} (found : h a = some cell)
    (reading : cell.hcLockState = .rSt (n + 1)) :
    ∃ cell', h' a = some cell' ∧ cell'.hcAllocId = cell.hcAllocId ∧
      cell'.hcValue = cell.hcValue := by
  have access : ∀ {l ot R}, AccessEffect l ot R h h' →
      (∀ old new, R old new → old.hcLockState = .rSt (n + 1) → new.hcValue = old.hcValue) →
      ∃ cell', h' a = some cell' ∧ cell'.hcAllocId = cell.hcAllocId ∧
        cell'.hcValue = cell.hcValue := by
    rintro l ot R ⟨aid, -, -, inside, outside⟩ keeps
    by_cases covers : Covers l ot a
    · obtain ⟨old, new, before, after, owner, owner', related⟩ := inside a covers
      rw [found] at before
      cases before
      exact ⟨new, after, owner'.trans owner.symm, keeps _ _ related reading⟩
    · exact ⟨cell, by rw [outside a covers, found], rfl, rfl⟩
  cases effect with
  | neutral _ _ heap =>
      rcases heap a with same | ⟨unlocked, -⟩
      · exact ⟨cell, by rw [same, found], rfl, rfl⟩
      · have lock := unlocked cell found
        rw [reading] at lock
        cases lock
  | readStart _ effect =>
      apply access effect
      rintro old new ⟨_, -, -, value⟩ -
      exact value
  | readEnd _ effect _ =>
      apply access effect
      rintro old new ⟨_, -, -, value⟩ -
      exact value
  | writeStart _ _ _ _ effect =>
      apply access effect
      rintro old new ⟨-, -, value⟩ -
      exact value
  | writeEnd _ effect _ =>
      apply access effect
      rintro old new ⟨start, -⟩ lock
      rw [start] at lock
      cases lock

/-! ## Pending accesses in good configurations -/

section Pending

variable {c c' : EctxiLanguage.Config RuntimeExpr State} {i j : Nat} {K : List LangEctx}

/-- Cells of a pending load. -/
theorem LockInv.pendingDeref_cells {ot : OpType} {mc : Bool} {v : Val} (inv : LockInv c)
    (thread : c.1[i]? = some (cLang.fill K (pendingDeref ot mc v))) :
    ∃ l aid, valToLoc v = some l ∧ l.1 = .provAlloc (some aid) ∧
      hasLayoutLoc l ot.otLayout ∧ ∀ a, Covers l ot a → ∃ cell n,
        c.2.stHeap.hsHeap a = some cell ∧ cell.hcAllocId = aid ∧
          cell.hcLockState = .rSt (n + 1) := by
  have member := List.mem_of_getElem? thread
  have ok := inv.threads _ member
  generalize shape : cLang.fill K (pendingDeref ot mc v) = t at ok member
  cases ok with
  | idle free =>
      rw [← shape] at free
      exact absurd (noNa2_fill.mp free).2 pendingDeref_not_noNa2
  | @reading K' ot' mc' v' l aid context pointer provenance aligned cells =>
      obtain ⟨rfl, redex⟩ := cLang.fill_redex_unique (pendingDeref_isRedex ot mc v)
        (pendingDeref_isRedex ot' mc' v') shape
      simp only [pendingDeref, toRtexpr, RuntimeExpr.expr.injEq, RtExpr.deref.injEq,
        RtExpr.val.injEq, true_and] at redex
      obtain ⟨rfl, rfl, rfl⟩ := redex
      refine ⟨l, aid, pointer, provenance, aligned, ?_⟩
      intro a covers
      obtain ⟨cell, n, found, lock, -⟩ := (inv.cells a).of_reader
        (readers_pos member ((derefCovers_pendingDeref pointer).mpr covers))
      obtain ⟨cell', found', owner⟩ := cells a covers
      rw [found] at found'
      cases found'
      exact ⟨cell, n, found, owner, lock⟩
  | @writing K' rf ot' v1 v2 s l aid =>
      obtain ⟨-, redex⟩ := cLang.fill_redex_unique (pendingDeref_isRedex ot mc v)
        (pendingAssign_isRedex rf ot' v1 v2 s) shape
      exact absurd redex toRtexpr_ne_toRtstmt

/-- Cells of a pending store. -/
theorem LockInv.pendingAssign_cells {rf : RuntimeFunction} {ot : OpType} {v1 v2 : Val}
    {s : Stmt} (inv : LockInv c)
    (thread : c.1[i]? = some (cLang.fill K (pendingAssign rf ot v1 v2 s))) :
    ∃ l aid, valToLoc v1 = some l ∧ hasLayoutVal v2 ot.otLayout ∧
      l.1 = .provAlloc (some aid) ∧ hasLayoutLoc l ot.otLayout ∧
      ∀ a, Covers l ot a → ∃ cell, c.2.stHeap.hsHeap a = some cell ∧
        cell.hcAllocId = aid ∧
        cell.hcLockState = .wSt ∧ writers c.1 a = 1 := by
  have member := List.mem_of_getElem? thread
  have ok := inv.threads _ member
  generalize shape : cLang.fill K (pendingAssign rf ot v1 v2 s) = t at ok member
  cases ok with
  | idle free =>
      rw [← shape] at free
      exact absurd (noNa2_fill.mp free).2 pendingAssign_not_noNa2
  | @reading K' ot' mc' v' =>
      obtain ⟨-, redex⟩ := cLang.fill_redex_unique (pendingAssign_isRedex rf ot v1 v2 s)
        (pendingDeref_isRedex ot' mc' v') shape
      exact absurd redex.symm toRtexpr_ne_toRtstmt
  | @writing K' rf' ot' v1' v2' s' l aid context body rest pointer layout provenance aligned
      cells =>
      obtain ⟨rfl, redex⟩ := cLang.fill_redex_unique (pendingAssign_isRedex rf ot v1 v2 s)
        (pendingAssign_isRedex rf' ot' v1' v2' s') shape
      obtain ⟨rfl, sameStmt⟩ := toRtstmt_inj redex
      cases sameStmt
      refine ⟨l, aid, pointer, layout, provenance, aligned, ?_⟩
      intro a covers
      obtain ⟨cell, found, lock, -, one⟩ := (inv.cells a).of_writer
        (writers_pos member ((assignCovers_pendingAssign pointer).mpr covers))
      obtain ⟨cell', found', owner⟩ := cells a covers
      rw [found] at found'
      cases found'
      exact ⟨cell, found, owner, lock, one⟩

/-- Two different threads with a pending store to one cell are counted twice. -/
theorem two_le_writers {ts : List RuntimeExpr} {t t' : RuntimeExpr} {a : Int}
    (other : j ≠ i) (found : ts[i]? = some t) (found' : ts[j]? = some t')
    (covers : AssignCovers a t) (covers' : AssignCovers a t') : 2 ≤ writers ts a := by
  classical
  have counted := writers_set unitVal a found'
  have free : ¬ AssignCovers a unitVal := not_assignCovers_of_noNa2 trivial
  rw [if_pos covers', if_neg free] at counted
  have still : t ∈ ts.set j unitVal := by
    apply List.mem_of_getElem? (i := i)
    rw [List.getElem?_set_ne other, found]
  have one := writers_pos still covers
  omega

/-- A pending load can finish, and its result is determined by the bytes in
its cells. -/
theorem LockInv.pendingDeref_step {ot : OpType} {mc : Bool} {v : Val} {l : Loc}
    (inv : LockInv c) (thread : c.1[i]? = some (cLang.fill K (pendingDeref ot mc v)))
    (pointer : valToLoc v = some l) :
    ∃ bytes, bytesAt c.2.stHeap.hsHeap l ot.otLayout.lySize = bytes.map some ∧
      (∃ c', cLang.PoolStepBy i c c') ∧
      ∀ c', cLang.PoolStepBy i c c' → c'.1[i]? = some (cLang.fill K (toRtexpr
        (.val (if mc then memCast bytes ot c.2.fnAddrs c.2.stHeap else bytes)))) := by
  obtain ⟨l', aid, pointer', provenance, aligned, cells⟩ := inv.pendingDeref_cells thread
  rw [pointer] at pointer'
  cases pointer'
  obtain ⟨bytes, readable⟩ := heapAt_of_cells (derefStartSt .na2Ord) provenance aligned
    (by
      intro a low high
      obtain ⟨cell, n, found, owner, lock⟩ := cells a ⟨low, high⟩
      exact ⟨cell, found, owner, n, lock⟩)
  refine ⟨bytes, heapAt_bytesAt readable, ?_, ?_⟩
  · have headStep : cLang.headStep (pendingDeref ot mc v) c.2 _ _ :=
      .exprStep (.derefS pointer readable)
    have step := EctxiLanguage.PrimStep.ectx K headStep
    exact ⟨(c.1.set i _, _), _, _, thread, step, rfl⟩
  · intro c' step
    obtain ⟨e', headStep, after⟩ := step.headStep (pendingDeref_isRedex ot mc v) thread
    rw [after]
    generalize c'.2 = σ' at headStep
    cases runtimeStep_toRtexpr headStep with
    | derefS pointer' readable' =>
        rw [pointer] at pointer'
        cases pointer'
        have same := (heapAt_bytesAt readable).symm.trans (heapAt_bytesAt readable')
        rw [List.map_inj_right (fun _ _ => Option.some.inj)] at same
        rw [same]
        rfl

/-- A pending store can finish. -/
theorem LockInv.pendingAssign_step {rf : RuntimeFunction} {ot : OpType} {v1 v2 : Val}
    {s : Stmt} (inv : LockInv c)
    (thread : c.1[i]? = some (cLang.fill K (pendingAssign rf ot v1 v2 s))) :
    ∃ c', cLang.PoolStepBy i c c' := by
  obtain ⟨l, aid, pointer, layout, provenance, aligned, cells⟩ := inv.pendingAssign_cells thread
  obtain ⟨bytes, writable⟩ := heapAt_of_cells (assignStartSt .na2Ord) provenance aligned
    (by
      intro a low high
      obtain ⟨cell, found, owner, lock, -⟩ := cells a ⟨low, high⟩
      exact ⟨cell, found, owner, lock⟩)
  have headStep : cLang.headStep (pendingAssign rf ot v1 v2 s) c.2 _ _ :=
    .stmtStep (.assignS pointer layout writable)
  have step := EctxiLanguage.PrimStep.ectx K headStep
  exact ⟨(c.1.set i _, _), _, _, thread, step, rfl⟩

/-- Other threads cannot touch the cells of a pending store. -/
theorem LockInv.pendingAssign_untouched {rf : RuntimeFunction} {ot : OpType} {v1 v2 : Val}
    {s : Stmt} {l : Loc} {a : Int} (inv : LockInv c)
    (thread : c.1[i]? = some (cLang.fill K (pendingAssign rf ot v1 v2 s)))
    (pointer : valToLoc v1 = some l) (covers : Covers l ot a) (other : j ≠ i)
    {K' : List LangEctx} {e e' : RuntimeExpr} {σ' : State}
    (thread' : c.1[j]? = some (cLang.fill K' e)) (step : RuntimeStep e c.2 e' σ') :
    ¬ Touches e a := by
  intro touches
  obtain ⟨l', aid, pointer', -, -, -, cells⟩ := inv.pendingAssign_cells thread
  rw [pointer] at pointer'
  cases pointer'
  obtain ⟨cell, found, -, writing, one⟩ := cells a covers
  obtain ⟨cell', found', readable | storing⟩ := touches.lock step
  · rw [found] at found'
    cases found'
    obtain ⟨n, readable⟩ := readable
    rw [writing] at readable
    cases readable
  · obtain ⟨K'', rf', ot', w1, w2, s', m, rfl, pointsTo, within⟩ := storing
    have redex := cLang.isRedex_of_headStep step
    cases K'' with
    | nil =>
        have two := two_le_writers other thread thread'
          ((assignCovers_pendingAssign pointer).mpr covers)
          ((assignCovers_pendingAssign pointsTo).mpr within)
        omega
    | cons item K'' =>
        have notVal := (pendingAssign_isRedex rf' ot' w1 w2 s').1
        exact absurd rfl (cLang.fill_redex_ne redex notVal)

/-- Other threads cannot write or free the cells of a pending load. -/
theorem LockInv.pendingDeref_unwritten {ot : OpType} {mc : Bool} {v : Val} {l : Loc} {a : Int}
    (inv : LockInv c) (thread : c.1[i]? = some (cLang.fill K (pendingDeref ot mc v)))
    (pointer : valToLoc v = some l) (covers : Covers l ot a)
    {e e' : RuntimeExpr} {σ' : State} (step : RuntimeStep e c.2 e' σ') : ¬ Writes e e' a := by
  intro writes
  obtain ⟨l', aid, pointer', -, -, cells⟩ := inv.pendingDeref_cells thread
  rw [pointer] at pointer'
  cases pointer'
  obtain ⟨cell, n, found, -, reading⟩ := cells a covers
  obtain ⟨cell', found', lock⟩ := writes.lock step
  rw [found] at found'
  cases found'
  simp [reading] at lock

/-- No step changes the bytes of a pending load. -/
theorem LockInv.pendingDeref_stable {ot : OpType} {mc : Bool} {v : Val} {l : Loc} {a : Int}
    (inv : LockInv c) (thread : c.1[i]? = some (cLang.fill K (pendingDeref ot mc v)))
    (pointer : valToLoc v = some l) (covers : Covers l ot a) (step : cLang.PoolStepBy j c c') :
    ∃ cell cell', c.2.stHeap.hsHeap a = some cell ∧ c'.2.stHeap.hsHeap a = some cell' ∧
      cell'.hcAllocId = cell.hcAllocId ∧ cell'.hcValue = cell.hcValue := by
  obtain ⟨l', aid, pointer', -, -, cells⟩ := inv.pendingDeref_cells thread
  rw [pointer] at pointer'
  cases pointer'
  obtain ⟨cell, n, found, -, reading⟩ := cells a covers
  obtain ⟨_, _, _, -, -, -, -, effect⟩ := inv.step_effect step
  obtain ⟨cell', found', owner, value⟩ := effect.read_cell found reading
  exact ⟨cell, cell', found, found', owner, value⟩

/-- The bytes of a pending load are the same after any run of other threads. -/
theorem LockInv.pendingDeref_run {ot : OpType} {mc : Bool} {v : Val} {l : Loc} (inv : LockInv c)
    (thread : c.1[i]? = some (cLang.fill K (pendingDeref ot mc v)))
    (pointer : valToLoc v = some l) (run : cLang.StepsByOthers i c c') :
    LockInv c' ∧ bytesAt c'.2.stHeap.hsHeap l ot.otLayout.lySize =
      bytesAt c.2.stHeap.hsHeap l ot.otLayout.lySize := by
  induction run with
  | refl => exact ⟨inv, rfl⟩
  | @tail c1 c2 before step inductionHypothesis =>
      obtain ⟨j, other, step⟩ := step
      obtain ⟨inv', same⟩ := inductionHypothesis
      refine ⟨inv'.step ⟨j, step⟩, Eq.trans (bytesAt_congr ?_) same⟩
      intro a low high
      obtain ⟨cell, cell', found, found', -, value⟩ := inv'.pendingDeref_stable
        ((EctxiLanguage.StepsByOthers.thread before).trans thread) pointer ⟨low, high⟩ step
      rw [found, found', Option.map_some, Option.map_some, value]

/-- The first half of a load leaves the bytes alone. -/
theorem derefStart_step {ot : OpType} {mc : Bool} {v : Val} {l : Loc}
    (thread : c.1[i]? = some (cLang.fill K (toRtexpr (.deref .na1Ord ot mc (.val v)))))
    (pointer : valToLoc v = some l) (step : cLang.PoolStepBy i c c') :
    c'.1[i]? = some (cLang.fill K (pendingDeref ot mc v)) ∧
      bytesAt c'.2.stHeap.hsHeap l ot.otLayout.lySize =
        bytesAt c.2.stHeap.hsHeap l ot.otLayout.lySize := by
  obtain ⟨e', headStep, after⟩ := step.headStep (deref_isRedex .na1Ord ot mc v) thread
  rw [after]
  generalize c'.2 = σ' at headStep ⊢
  cases runtimeStep_toRtexpr headStep with
  | derefS pointer' readable =>
      rw [pointer] at pointer'
      cases pointer'
      refine ⟨rfl, bytesAt_congr ?_⟩
      intro a low high
      obtain ⟨aid, -, -, inside, -⟩ :=
        heapUpd_effect (derefEndSt .na1Ord) readable readable.2.2.1
      obtain ⟨cell, cell', found, found', -, -, -, -, value⟩ := inside a ⟨low, high⟩
      change Option.map _ (heapUpd _ _ _ _ a) = _
      rw [found, found', Option.map_some, Option.map_some, value rfl]

/-- A thread that arrives at a pending load has just taken the first half of
that load. -/
theorem LockInv.derefStart_of_step {ot : OpType} {mc : Bool} {v : Val} (inv : LockInv c)
    (step : cLang.PoolStepBy i c c')
    (thread : c'.1[i]? = some (cLang.fill K (pendingDeref ot mc v))) :
    c.1[i]? = some (cLang.fill K (toRtexpr (.deref .na1Ord ot mc (.val v)))) := by
  obtain ⟨K', e, e', before, threads, -, context, effect⟩ := inv.step_effect step
  have bound : i < c.1.length := (List.getElem?_eq_some_iff.mp before).1
  rw [threads, List.getElem?_set_self bound, Option.some.injEq] at thread
  have notIdle : ¬ e'.NoNa2 := by
    intro free
    have whole := noNa2_fill.mpr ⟨context, free⟩
    rw [thread] at whole
    exact pendingDeref_not_noNa2 (noNa2_fill.mp whole).2
  cases effect with
  | neutral _ after _ => exact absurd after notIdle
  | readEnd _ _ after => exact absurd after notIdle
  | writeEnd _ _ after => exact absurd after notIdle
  | @readStart ot' mc' v' =>
      obtain ⟨rfl, redex⟩ := cLang.fill_redex_unique (pendingDeref_isRedex ot' mc' v')
        (pendingDeref_isRedex ot mc v) thread
      cases toRtexpr_inj redex
      exact before
  | @writeStart rf ot' v1 v2 s =>
      obtain ⟨-, redex⟩ := cLang.fill_redex_unique (pendingAssign_isRedex rf ot' v1 v2 s)
        (pendingDeref_isRedex ot mc v) thread
      exact absurd redex.symm toRtexpr_ne_toRtstmt

end Pending

/-! ## Whole runs -/

/-- In a run from `c₀`, thread `i` takes its last step in `c1`, where its
program is `t`; only other threads step from there to `c`. -/
def StartedAt (i : Nat) (t : RuntimeExpr) (c₀ c1 c : EctxiLanguage.Config RuntimeExpr State) :
    Prop :=
  cLang.PoolSteps c₀ c1 ∧ c1.1[i]? = some t ∧
    ∃ c2, cLang.PoolStepBy i c1 c2 ∧ cLang.StepsByOthers i c2 c

/-- A pending load of thread `i` at `l`, in configuration `c` of a run from
`c₀`. -/
structure DerefIntact (c₀ c : EctxiLanguage.Config RuntimeExpr State) (i : Nat)
    (K : List LangEctx) (ot : OpType) (mc : Bool) (v : Val) (l : Loc) : Prop where
  finishes : ∃ c', cLang.PoolStepBy i c c'
  started : ∃ c1, StartedAt i (cLang.fill K (toRtexpr (.deref .na1Ord ot mc (.val v)))) c₀ c1 c
  /-- The result is made of the bytes that were in the cells at the first half. -/
  bytes : ∀ c1, StartedAt i
      (cLang.fill K (toRtexpr (.deref .na1Ord ot mc (.val v)))) c₀ c1 c →
    ∃ bytes, bytesAt c1.2.stHeap.hsHeap l ot.otLayout.lySize = bytes.map some ∧
      ∀ c', cLang.PoolStepBy i c c' → c'.1[i]? = some (cLang.fill K (toRtexpr
        (.val (if mc then memCast bytes ot c.2.fnAddrs c.2.stHeap else bytes))))
  unwritten : ∀ j, j ≠ i → ∀ K' e e' σ', c.1[j]? = some (cLang.fill K' e) →
    RuntimeStep e c.2 e' σ' → ∀ a, Covers l ot a → ¬ Writes e e' a
  stable : ∀ j, j ≠ i → ∀ c', cLang.PoolStepBy j c c' → ∀ a, Covers l ot a →
    ∃ cell cell', c.2.stHeap.hsHeap a = some cell ∧ c'.2.stHeap.hsHeap a = some cell' ∧
      cell'.hcAllocId = cell.hcAllocId ∧ cell'.hcValue = cell.hcValue

/-- A pending store of thread `i` at `l`, in configuration `c`. -/
structure AssignIntact (c : EctxiLanguage.Config RuntimeExpr State) (i : Nat) (ot : OpType)
    (l : Loc) : Prop where
  finishes : ∃ c', cLang.PoolStepBy i c c'
  untouched : ∀ j, j ≠ i → ∀ K' e e' σ', c.1[j]? = some (cLang.fill K' e) →
    RuntimeStep e c.2 e' σ' → ∀ a, Covers l ot a → ¬ Touches e a

/-- The pending load, in terms of the run that led to it. -/
theorem Initial.pendingDeref_started {c₀ c : EctxiLanguage.Config RuntimeExpr State} {i : Nat}
    {K : List LangEctx} {ot : OpType} {mc : Bool} {v : Val} (initial : Initial c₀)
    (run : cLang.PoolSteps c₀ c)
    (thread : c.1[i]? = some (cLang.fill K (pendingDeref ot mc v))) :
    ∃ c1, StartedAt i (cLang.fill K (toRtexpr (.deref .na1Ord ot mc (.val v)))) c₀ c1 c := by
  rcases EctxiLanguage.PoolSteps.last_step run i with others | ⟨c1, c2, start, last, others⟩
  · have still := others.thread
    rw [thread] at still
    have free := initial.threads _ (List.mem_of_getElem? still.symm)
    exact absurd (noNa2_fill.mp free).2 pendingDeref_not_noNa2
  · have arrived : c2.1[i]? = some (cLang.fill K (pendingDeref ot mc v)) :=
      others.thread.symm.trans thread
    have before := (initial.lockInv_of_run start).derefStart_of_step last arrived
    exact ⟨c1, start, before, c2, last, others⟩

/-- In every reachable configuration a started non-atomic access can finish and
is not torn, and no load takes the unreachable branch of `derefEndSt`. -/
theorem nonAtomic_not_torn {c₀ c : EctxiLanguage.Config RuntimeExpr State}
    (initial : Initial c₀) (run : cLang.PoolSteps c₀ c) (i : Nat) (K : List LangEctx) :
    (∀ ot mc v, c.1[i]? = some (cLang.fill K (pendingDeref ot mc v)) →
      ∃ l, valToLoc v = some l ∧ DerefIntact c₀ c i K ot mc v l) ∧
    (∀ rf ot v1 v2 s, c.1[i]? = some (cLang.fill K (pendingAssign rf ot v1 v2 s)) →
      ∃ l, valToLoc v1 = some l ∧ AssignIntact c i ot l) ∧
    (∀ o ot mc v l e' σ', c.1[i]? = some (cLang.fill K (toRtexpr (.deref o ot mc (.val v)))) →
      valToLoc v = some l → RuntimeStep (toRtexpr (.deref o ot mc (.val v))) c.2 e' σ' →
      ∀ a, Covers l ot a →
        ¬ derefEndFallsThrough o ((c.2.stHeap.hsHeap a).map HeapCell.hcLockState)) := by
  have inv := initial.lockInv_of_run run
  refine ⟨?_, ?_, ?_⟩
  · intro ot mc v thread
    obtain ⟨l, aid, pointer, -⟩ := inv.pendingDeref_cells thread
    obtain ⟨bytes, inCells, finishes, result⟩ := inv.pendingDeref_step thread pointer
    refine ⟨l, pointer, finishes, initial.pendingDeref_started run thread, ?_, ?_, ?_⟩
    · rintro c1 ⟨start, before, c2, first, others⟩
      have inv1 := initial.lockInv_of_run start
      obtain ⟨arrived, kept⟩ := derefStart_step before pointer first
      obtain ⟨-, stable⟩ := (inv1.step ⟨i, first⟩).pendingDeref_run arrived pointer others
      refine ⟨bytes, ?_, result⟩
      rw [← kept, ← stable, inCells]
    · intro j other K' e e' σ' thread' step a covers
      exact inv.pendingDeref_unwritten thread pointer covers step
    · intro j other c' step a covers
      exact inv.pendingDeref_stable thread pointer covers step
  · intro rf ot v1 v2 s thread
    obtain ⟨l, aid, pointer, -⟩ := inv.pendingAssign_cells thread
    refine ⟨l, pointer, inv.pendingAssign_step thread, ?_⟩
    intro j other K' e e' σ' thread' step a covers
    exact inv.pendingAssign_untouched thread pointer covers other thread' step
  · intro o ot mc v l e' σ' thread pointer step a covers
    exact derefEnd_expected step pointer covers

/-- The first of two threads that load the shared byte has started its load. -/
theorem nonAtomic_not_torn_sharedByte :
    ∃ l, valToLoc (valOfLoc sharedLoc) = some l ∧
      DerefIntact sharedLoads loadStarted 0 [] (.intOp u8) false (valOfLoc sharedLoc) l :=
  (nonAtomic_not_torn sharedLoads_initial loadStarted_reachable 0 []).1 _ _ _ rfl

end RefinedC.Caesium
