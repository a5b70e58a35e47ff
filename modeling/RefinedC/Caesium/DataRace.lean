import RefinedC.Caesium.NotTorn

/-!
Data races are undefined behaviour.

Source: the lock states of `theories/caesium/heap.v` and the rules `DerefS`,
`AssignS`, `CasFailS`, `CasSucS`, `FreeS` and `ReturnS` of
`theories/caesium/lang.v`.

Owns: accesses that are not atomic, races between the next steps of two
threads, and the fate of a thread that races.

Does not own: the lock states of pending accesses, which are accounted for by
`LockInv`.
-/

namespace RefinedC.Caesium

open RefinedC.Library

/-! ## Races -/

/-- Redexes whose accesses are not atomic: both halves of non-atomic loads and
stores, and steps that end the lifetime of blocks. -/
inductive NonAtomic : RuntimeExpr → Prop where
  | deref {o : Order} {ot : OpType} {mc : Bool} {v : Val} (order : o ≠ .scOrd) :
      NonAtomic (toRtexpr (.deref o ot mc (.val v)))
  | assign {o : Order} {rf : RuntimeFunction} {ot : OpType} {v1 v2 : Val} {s : Stmt}
      (order : o ≠ .scOrd) : NonAtomic (toRtstmt rf (.assign o ot (.val v1) (.val v2) s))
  | free {rf : RuntimeFunction} {ly : Layout} {v : Val} {s : Stmt} :
      NonAtomic (toRtstmt rf (.free ly (.val v) s))
  | return {rf : RuntimeFunction} {v : Val} : NonAtomic (toRtstmt rf (.return (.val v)))

private theorem NonAtomic.assign_order {o : Order} {rf : RuntimeFunction}
    {ot : OpType} {v1 v2 : Val}
    {s : Stmt} (nonAtomic : NonAtomic (toRtstmt rf (.assign o ot (.val v1) (.val v2) s))) :
    o ≠ .scOrd := by
  generalize shape : toRtstmt rf (.assign o ot (.val v1) (.val v2) s) = e at nonAtomic
  cases nonAtomic with
  | deref => exact absurd shape.symm toRtexpr_ne_toRtstmt
  | assign order =>
      cases (toRtstmt_inj shape).2
      exact order
  | free | «return» => cases (toRtstmt_inj shape).2

private theorem not_nonAtomic_cas {ot : OpType} {v1 v2 v3 : Val} :
    ¬ NonAtomic (toRtexpr (.cas ot (.val v1) (.val v2) (.val v3))) := by
  intro nonAtomic
  generalize shape : toRtexpr (.cas ot (.val v1) (.val v2) (.val v3)) = e at nonAtomic
  cases nonAtomic with
  | deref => cases toRtexpr_inj shape
  | assign | free | «return» => exact absurd shape toRtexpr_ne_toRtstmt

/-- Thread `i` can step from redex `e` to `e'`. -/
def CanStep (c : EctxiLanguage.Config RuntimeExpr State) (i : Nat) (e e' : RuntimeExpr) : Prop :=
  ∃ K σ', c.1[i]? = some (cLang.fill K e) ∧ RuntimeStep e c.2 e' σ'

/-- The next steps of threads `i` and `j` access address `a`, one of them writes
it, and the step of thread `i` is not atomic. -/
def DataRace (c : EctxiLanguage.Config RuntimeExpr State) (i j : Nat) (a : Int) : Prop :=
  i ≠ j ∧ ∃ e1 e1' e2 e2', CanStep c i e1 e1' ∧ CanStep c j e2 e2' ∧ NonAtomic e1 ∧
    Touches e1 a ∧ Touches e2 a ∧ (Writes e1 e1' a ∨ Writes e2 e2' a)

/-- A thread that is no value and cannot step. -/
def Stuck (t : RuntimeExpr) (σ : State) : Prop :=
  toVal t = none ∧ ∀ t' σ', ¬ cLang.PrimStep t σ t' σ'

/-! ## Cells after a step that is not atomic -/

/-- Both heaps hold the same bytes. -/
def SameBytes (h h' : Heap) : Prop :=
  ∀ a, (h' a).map HeapCell.hcValue = (h a).map HeapCell.hcValue

theorem SameBytes.heapAt {h h' : Heap} (same : SameBytes h h') {l : Loc} {ly : Layout}
    {v v' : Val} {Plk Plk' : LockState → Prop} (cells : heapAt l ly v Plk h)
    (cells' : heapAt l ly v' Plk' h') : v' = v := by
  have bytes : bytesAt h' l ly.lySize = bytesAt h l ly.lySize :=
    bytesAt_congr fun a _ _ => same a
  rw [heapAt_bytesAt cells, heapAt_bytesAt cells'] at bytes
  exact (List.map_inj_right (fun _ _ => Option.some.inj)).mp bytes

theorem FreeBlock.unmapped {σ σ' : HeapState} {kind : AllocKind} {l : Loc} {ly : Layout} {a : Int}
    (block : FreeBlock σ kind l ly σ') (inside : l.2 ≤ a ∧ a < l.2 + ly.lySize) :
    σ'.hsHeap a = none := by
  obtain ⟨provenance, alive, length, unlocked⟩ := block
  exact heapFree_inside inside.1 inside.2

/-- Freeing blocks maps nothing. -/
theorem FreeBlocks.cell_before {σ σ' : HeapState} {kind : AllocKind} {ls : List (Loc × Layout)}
    {a : Int} {cell : HeapCell} (blocks : FreeBlocks σ kind ls σ')
    (found : σ'.hsHeap a = some cell) : σ.hsHeap a = some cell := by
  induction blocks with
  | nil => exact found
  | cons first _ inductionHypothesis => exact first.cell_before (inductionHypothesis found)

theorem FreeBlocks.unmapped {σ σ' : HeapState} {kind : AllocKind} {ls : List (Loc × Layout)}
    {l : Loc} {ly : Layout} {a : Int} (blocks : FreeBlocks σ kind ls σ')
    (member : (l, ly) ∈ ls) (inside : l.2 ≤ a ∧ a < l.2 + ly.lySize) :
    σ'.hsHeap a = none := by
  induction blocks with
  | nil => simp at member
  | cons first rest inductionHypothesis =>
      rcases List.mem_cons.mp member with here | later
      · cases here
        have gone := first.unmapped inside
        rw [Option.eq_none_iff_forall_ne_some] at gone ⊢
        intro cell found
        exact gone cell (rest.cell_before found)
      · exact inductionHypothesis later

section Redex

variable {ot : OpType} {mc : Bool} {rf : RuntimeFunction} {ly : Layout} {v w : Val} {s : Stmt}
  {l : Loc} {a : Int} {e' : RuntimeExpr} {σ σ' : State}

/-- The first half of a load locks its cells. -/
theorem derefStart_cell (step : RuntimeStep (toRtexpr (.deref .na1Ord ot mc (.val v))) σ e' σ')
    (pointer : valToLoc v = some l) (covers : Covers l ot a) :
    ∃ cell n, σ'.stHeap.hsHeap a = some cell ∧ cell.hcLockState = .rSt (n + 1) := by
  cases runtimeStep_toRtexpr step with
  | derefS pointer' cells =>
      rw [pointer] at pointer'
      cases pointer'
      obtain ⟨aid, -, -, inside, -⟩ := heapUpd_effect (derefEndSt .na1Ord) cells cells.2.2.1
      obtain ⟨cell, cell', -, after, -, -, ⟨n, start⟩, lock, -⟩ := inside a covers
      rw [start] at lock
      exact ⟨cell', n, after, lock⟩

/-- The first half of a load changes lock states only. -/
theorem derefStart_sameBytes
    (step : RuntimeStep (toRtexpr (.deref .na1Ord ot mc (.val v))) σ e' σ') :
    SameBytes σ.stHeap.hsHeap σ'.stHeap.hsHeap := by
  cases runtimeStep_toRtexpr step with
  | @derefS _ _ l _ bytes _ _ pointer cells =>
      obtain ⟨aid, -, -, inside, outside⟩ :=
        heapUpd_effect (derefEndSt .na1Ord) cells cells.2.2.1
      intro a
      change (heapUpd l bytes (derefEndSt .na1Ord) σ.stHeap.hsHeap a).map _ = _
      by_cases covers : Covers l ot a
      · obtain ⟨cell, cell', before, after, -, -, -, -, value⟩ := inside a covers
        rw [before, after, Option.map_some, Option.map_some, value rfl]
      · rw [outside a covers]

/-- The first half of a store locks its cells. -/
theorem assignStart_cell
    (step : RuntimeStep (toRtstmt rf (.assign .na1Ord ot (.val v) (.val w) s)) σ e' σ')
    (pointer : valToLoc v = some l) (covers : Covers l ot a) :
    ∃ cell, σ'.stHeap.hsHeap a = some cell ∧ cell.hcLockState = .wSt := by
  cases runtimeStep_toRtstmt step with
  | assignS pointer' layout cells =>
      rw [pointer] at pointer'
      cases pointer'
      obtain ⟨aid, -, -, inside, -⟩ := heapUpd_effect (assignEndSt .na1Ord) cells cells.2.2.1
      obtain ⟨_, cell', -, after, -, -, -, lock, -⟩ := inside a covers
      exact ⟨cell', after, lock⟩

private theorem free_unmapped (step : RuntimeStep (toRtstmt rf (.free ly (.val v) s)) σ e' σ')
    (pointer : valToLoc v = some l) (inside : l.2 ≤ a ∧ a < l.2 + ly.lySize) :
    σ'.stHeap.hsHeap a = none := by
  cases runtimeStep_toRtstmt step with
  | freeS pointer' aligned block =>
      rw [pointer] at pointer'
      cases pointer'
      exact block.unmapped inside

private theorem return_unmapped (step : RuntimeStep (toRtstmt rf (.return (.val v))) σ e' σ')
    (block : (l, ly) ∈ rf.rfLocs) (inside : l.2 ≤ a ∧ a < l.2 + ly.lySize) :
    σ'.stHeap.hsHeap a = none := by
  cases runtimeStep_toRtstmt step with
  | returnS deallocate => exact deallocate.unmapped block inside

end Redex

section Steps

variable {e e' e'' : RuntimeExpr} {σ σ' σ1 σ2 : State} {a : Int}

/-- After a write that is not atomic no other thread may touch the cell, unless
it is the second half of a store. -/
theorem NonAtomic.written (nonAtomic : NonAtomic e) (writes : Writes e e' a)
    (notPending : ¬ AssignCovers a e) (step : RuntimeStep e σ e'' σ') :
    ∀ cell, σ'.stHeap.hsHeap a = some cell → cell.hcLockState = .wSt := by
  intro cell found
  cases writes with
  | @assign o rf ot v1 v2 s l _ _ pointer covers =>
      cases o with
      | scOrd => exact absurd rfl nonAtomic.assign_order
      | na1Ord =>
          obtain ⟨cell', after, lock⟩ := assignStart_cell step pointer covers
          rw [after] at found
          cases found
          exact lock
      | na2Ord => exact absurd ⟨[], rf, ot, v1, v2, s, l, rfl, pointer, covers⟩ notPending
  | casObject | casExpected => exact absurd nonAtomic not_nonAtomic_cas
  | free pointer inside =>
      rw [free_unmapped step pointer inside] at found
      cases found
  | «return» block inside =>
      rw [return_unmapped step block inside] at found
      cases found

/-- A redex that writes an address writes it in every state with the same
bytes: these decide whether a compare-and-swap succeeds. -/
theorem Writes.stable (writes : Writes e e' a) (step : RuntimeStep e σ e' σ')
    (same : SameBytes σ.stHeap.hsHeap σ1.stHeap.hsHeap) (step' : RuntimeStep e σ1 e'' σ2) :
    Writes e e'' a := by
  cases writes with
  | assign pointer covers => exact .assign pointer covers
  | free pointer inside => exact .free pointer inside
  | «return» block inside => exact .return block inside
  | casObject pointer covers =>
      have step := runtimeStep_toRtexpr step
      generalize result : toRtexpr (.val (valOfBool true)) = e' at step
      cases step with
      | casFailS => exact absurd (Expr.val.inj (toRtexpr_inj result)) (by decide)
      | casSucS object objectCells expected expectedCells objectValue expectedValue _ _ equal =>
          cases runtimeStep_toRtexpr step' with
          | casSucS => exact .casObject pointer covers
          | casFailS object' objectCells' expected' expectedCells' objectValue' expectedValue' _ _
              different =>
              rw [object] at object'
              rw [expected] at expected'
              cases object'
              cases expected'
              rw [same.heapAt objectCells objectCells', objectValue] at objectValue'
              rw [same.heapAt expectedCells expectedCells', expectedValue] at expectedValue'
              cases objectValue'
              cases expectedValue'
              exact absurd equal different
  | casExpected pointer covers =>
      have step := runtimeStep_toRtexpr step
      generalize result : toRtexpr (.val (valOfBool false)) = e' at step
      cases step with
      | casSucS => exact absurd (Expr.val.inj (toRtexpr_inj result)) (by decide)
      | casFailS object objectCells expected expectedCells objectValue
        expectedValue _ _ different =>
          cases runtimeStep_toRtexpr step' with
          | casFailS => exact .casExpected pointer covers
          | casSucS object' objectCells' expected' expectedCells' objectValue' expectedValue' _ _
              equal =>
              rw [object] at object'
              rw [expected] at expected'
              cases object'
              cases expected'
              rw [same.heapAt objectCells objectCells', objectValue] at objectValue'
              rw [same.heapAt expectedCells expectedCells', expectedValue] at expectedValue'
              cases objectValue'
              cases expectedValue'
              exact absurd equal different

/-- A redex that finishes a store is a pending store. -/
theorem AssignCovers.pending (redex : cLang.IsRedex e) (covers : AssignCovers a e) :
    ∃ rf ot v1 v2 s l, e = pendingAssign rf ot v1 v2 s ∧ valToLoc v1 = some l ∧
      Covers l ot a := by
  obtain ⟨K, rf, ot, v1, v2, s, l, rfl, pointer, within⟩ := covers
  cases K with
  | nil => exact ⟨rf, ot, v1, v2, s, l, rfl, pointer, within⟩
  | cons item K =>
      exact absurd rfl (cLang.fill_redex_ne redex (pendingAssign_isRedex rf ot v1 v2 s).1)

/-- A redex that is not atomic writes what it touches, or is a load. -/
theorem NonAtomic.writes_or_deref (nonAtomic : NonAtomic e) (touches : Touches e a) :
    (∀ e', Writes e e' a) ∨ ∃ o ot mc v l, o ≠ .scOrd ∧
      e = toRtexpr (.deref o ot mc (.val v)) ∧
      valToLoc v = some l ∧ Covers l ot a := by
  cases touches with
  | @deref o ot mc v l _ pointer covers =>
      refine .inr ⟨o, ot, mc, v, l, ?_, rfl, pointer, covers⟩
      generalize shape : toRtexpr (.deref o ot mc (.val v)) = e at nonAtomic
      cases nonAtomic with
      | deref order =>
          cases toRtexpr_inj shape
          exact order
      | assign | free | «return» => exact absurd shape toRtexpr_ne_toRtstmt
  | assign pointer covers => exact .inl fun _ => .assign pointer covers
  | casObject | casExpected => exact absurd nonAtomic not_nonAtomic_cas
  | free pointer inside => exact .inl fun _ => .free pointer inside
  | «return» block inside => exact .inl fun _ => .return block inside

end Steps

/-! ## The thread that loses a race -/

section Races

variable {c₀ c c' : EctxiLanguage.Config RuntimeExpr State} {i j : Nat} {a : Int}

/-- No other thread touches the cells of a pending store. -/
theorem LockInv.untouched_of_assignCovers {e1 e1' e2 e2' : RuntimeExpr} (inv : LockInv c)
    (other : j ≠ i) (first : CanStep c i e1 e1') (second : CanStep c j e2 e2')
    (covers : AssignCovers a e1) : ¬ Touches e2 a := by
  obtain ⟨K1, σ1, thread1, step1⟩ := first
  obtain ⟨K2, σ2, thread2, step2⟩ := second
  obtain ⟨rf, ot, v1, v2, s, l, rfl, pointer, within⟩ :=
    covers.pending (cLang.isRedex_of_headStep step1)
  exact inv.pendingAssign_untouched thread1 pointer within other thread2 step2

theorem DataRace.stuck (inv : LockInv c) (race : DataRace c i j a)
    (step : cLang.PoolStepBy i c c') : ∃ t, c'.1[j]? = some t ∧ Stuck t c'.2 := by
  obtain ⟨different, e1, e1', e2, e2', first, second, nonAtomic, touches1,
      touches2, conflict⟩ :=
    race
  have notPending1 : ¬ AssignCovers a e1 := fun covers =>
    inv.untouched_of_assignCovers (Ne.symm different) first second covers touches2
  have notPending2 : ¬ AssignCovers a e2 := fun covers =>
    inv.untouched_of_assignCovers different second first covers touches1
  obtain ⟨K1, σ1, thread1, step1⟩ := first
  obtain ⟨K2, σ2, thread2, step2⟩ := second
  have redex2 := cLang.isRedex_of_headStep step2
  obtain ⟨e1'', headStep, -⟩ := step.headStep (cLang.isRedex_of_headStep step1) thread1
  refine ⟨cLang.fill K2 e2, (step.thread_other different).trans thread2,
    cLang.toVal_fill redex2.1 K2, ?_⟩
  intro t' σ' primStep
  obtain ⟨e2'', step2', -⟩ := primStep.headStep redex2
  rcases nonAtomic.writes_or_deref touches1 with
    writes | ⟨o, ot, mc, v, l, order, rfl, pointer, covers⟩
  · obtain ⟨cell, found, readable | storing⟩ := touches2.lock step2'
    · obtain ⟨n, readable⟩ := readable
      rw [nonAtomic.written (writes e1') notPending1 headStep cell found] at readable
      cases readable
    · exact notPending2 storing
  · have writes2 : Writes e2 e2' a := by
      refine conflict.resolve_left ?_
      intro writes1
      generalize shape : toRtexpr (.deref o ot mc (.val v)) = e at writes1
      cases writes1 with
      | assign | free | «return» => exact toRtexpr_ne_toRtstmt shape
      | casObject | casExpected => cases toRtexpr_inj shape
    cases o with
    | scOrd => exact order rfl
    | na2Ord => exact inv.pendingDeref_unwritten thread1 pointer covers step2 writes2
    | na1Ord =>
        have writes2' := writes2.stable step2 (derefStart_sameBytes headStep) step2'
        obtain ⟨cell, found, lock⟩ := writes2'.lock step2'
        obtain ⟨cell', n, found', reading⟩ := derefStart_cell headStep pointer covers
        rw [found] at found'
        cases found'
        simp [reading] at lock

/-- No thread of any configuration that a run from `c₀` reaches is stuck. -/
def Safe (c₀ : EctxiLanguage.Config RuntimeExpr State) : Prop :=
  ∀ c, cLang.PoolSteps c₀ c → ∀ t ∈ c.1, ¬ Stuck t c.2

/-- After the step of a race that is not atomic the other thread is stuck, in
every reachable configuration; threads that are never stuck never race. -/
theorem dataRace_undefined (initial : Initial c₀) :
    (∀ c, cLang.PoolSteps c₀ c → ∀ i j a, DataRace c i j a →
      (∃ c', cLang.PoolStepBy i c c') ∧
        ∀ c', cLang.PoolStepBy i c c' → ∃ t, c'.1[j]? = some t ∧ Stuck t c'.2) ∧
    (Safe c₀ → ∀ c, cLang.PoolSteps c₀ c → ∀ i j a, ¬ DataRace c i j a) := by
  have steps : ∀ c i j a, DataRace c i j a → ∃ c', cLang.PoolStepBy i c c' := by
    rintro c i j a ⟨-, e1, e1', -, -, ⟨K, σ', thread, step⟩, -⟩
    exact ⟨(c.1.set i (cLang.fill K e1'), σ'), _, _, thread, .ectx K step, rfl⟩
  refine ⟨?_, ?_⟩
  · intro c run i j a race
    refine ⟨steps c i j a race, ?_⟩
    intro c' step
    exact race.stuck (initial.lockInv_of_run run) step
  · intro safe c run i j a race
    obtain ⟨c', step⟩ := steps c i j a race
    obtain ⟨t, thread, stuck⟩ := race.stuck (initial.lockInv_of_run run) step
    exact safe c' (run.tail ⟨i, step⟩) t (List.mem_of_getElem? thread) stuck

end Races

/-- A store of the shared byte, in a frame without code. -/
def sharedStore : RuntimeExpr :=
  toRtstmt ⟨⟨[], [], PartialMap.empty, ""⟩, []⟩
    (.assign .scOrd (.intOp u8) (.val (valOfLoc sharedLoc)) (.val [.mByte byte0 none])
      (.return (.val [])))

/-- One thread loads the shared byte and another one stores to it. -/
def sharedRace : EctxiLanguage.Config RuntimeExpr State :=
  (sharedLoads.1.set 1 sharedStore, sharedByte)

private theorem sharedRace_initial : Initial sharedRace where
  unlocked := sharedLoads_initial.unlocked
  threads := by
    intro t member
    rcases List.mem_or_eq_of_mem_set member with load | rfl
    · exact sharedLoads_initial.threads t load
    · refine noNa2_toRtstmt.mpr ⟨?_, by simp, trivial, trivial, trivial⟩
      intro b s found
      cases found
  fns := sharedLoads_initial.fns

private theorem sharedRace_dataRace : DataRace sharedRace 0 1 1 := by
  have readable : heapAt sharedLoc (OpType.intOp u8).otLayout [.mByte byte0 none]
      (derefStartSt .na1Ord) sharedByte.stHeap.hsHeap :=
    ⟨⟨3, rfl⟩, by decide, rfl, ⟨3, .rSt 0, rfl, rfl, 0, rfl⟩, trivial⟩
  have writable : heapAt sharedLoc (OpType.intOp u8).otLayout [.mByte byte0 none]
      (assignStartSt .scOrd) sharedByte.stHeap.hsHeap :=
    ⟨⟨3, rfl⟩, by decide, rfl, ⟨3, .rSt 0, rfl, rfl, rfl⟩, trivial⟩
  have covers : Covers sharedLoc (.intOp u8) 1 := ⟨by decide, by decide⟩
  have pointer := valToLoc_valOfLoc sharedLoc
  exact ⟨by decide, _, _, _, _, ⟨[], _, rfl, .exprStep (.derefS pointer readable)⟩,
    ⟨[], _, rfl, .stmtStep (.assignS pointer rfl writable)⟩, .deref (by decide),
    .deref pointer covers, .assign pointer covers, .inr (.assign pointer covers)⟩

/-- Once the load has started, the store is stuck. -/
theorem dataRace_undefined_sharedByte :
    (∃ c', cLang.PoolStepBy 0 sharedRace c') ∧
      ∀ c', cLang.PoolStepBy 0 sharedRace c' → ∃ t, c'.1[1]? = some t ∧ Stuck t c'.2 :=
  (dataRace_undefined sharedRace_initial).1 _ .refl _ _ _ sharedRace_dataRace

end RefinedC.Caesium
