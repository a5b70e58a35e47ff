import RefinedC.Caesium.NonAtomic

/-!
Lock-state accounting over whole runs of a thread pool.

Owns: the invariant that ties the lock state of every heap cell to the number of
threads whose current redex is a pending load or store of that cell, its
preservation by every step of every thread, and its consequence for every
configuration that an interleaved run reaches.

The invariant is derived from `runtimeStep_effect` alone.
-/

namespace RefinedC.Caesium

open RefinedC.Library

/-! ## Counting pending accesses -/

section Counting

open Classical

/-- Number of threads with a pending load of the cell at `a`. -/
noncomputable def readers (ts : List RuntimeExpr) (a : Int) : Nat :=
  ts.countP (fun t => decide (DerefCovers a t))

/-- Number of threads with a pending store to the cell at `a`. -/
noncomputable def writers (ts : List RuntimeExpr) (a : Int) : Nat :=
  ts.countP (fun t => decide (AssignCovers a t))

private theorem countP_set_add {α : Type} {p : α → Bool} {ts : List α} {i : Nat} {t : α}
    (t' : α) (found : ts[i]? = some t) :
    (ts.set i t').countP p + (if p t then 1 else 0) =
      ts.countP p + (if p t' then 1 else 0) := by
  induction ts generalizing i with
  | nil => simp at found
  | cons head tail inductionHypothesis =>
      cases i with
      | zero =>
          simp only [List.getElem?_cons_zero, Option.some.injEq] at found
          subst found
          simp only [List.set_cons_zero, List.countP_cons]
          omega
      | succ i =>
          have rest := inductionHypothesis (by simpa using found)
          simp only [List.set_cons_succ, List.countP_cons]
          omega

private theorem readers_set {ts : List RuntimeExpr} {i : Nat} {t : RuntimeExpr}
    (t' : RuntimeExpr) (a : Int) (found : ts[i]? = some t) :
    readers (ts.set i t') a + (if DerefCovers a t then 1 else 0) =
      readers ts a + (if DerefCovers a t' then 1 else 0) := by
  have counted := countP_set_add (p := fun t => decide (DerefCovers a t)) t' found
  simpa [readers] using counted

theorem writers_set {ts : List RuntimeExpr} {i : Nat} {t : RuntimeExpr} (t' : RuntimeExpr) (a : Int)
    (found : ts[i]? = some t) :
    writers (ts.set i t') a + (if AssignCovers a t then 1 else 0) =
      writers ts a + (if AssignCovers a t' then 1 else 0) := by
  have counted := countP_set_add (p := fun t => decide (AssignCovers a t)) t' found
  simpa [writers] using counted

theorem readers_pos {ts : List RuntimeExpr} {t : RuntimeExpr} {a : Int}
    (member : t ∈ ts) (covers : DerefCovers a t) : 0 < readers ts a := by
  unfold readers
  rw [List.countP_pos_iff]
  exact ⟨t, member, by simpa using covers⟩

theorem writers_pos {ts : List RuntimeExpr} {t : RuntimeExpr} {a : Int}
    (member : t ∈ ts) (covers : AssignCovers a t) : 0 < writers ts a := by
  unfold writers
  rw [List.countP_pos_iff]
  exact ⟨t, member, by simpa using covers⟩

private theorem readers_eq_zero {ts : List RuntimeExpr} {a : Int}
    (free : ∀ t ∈ ts, t.NoNa2) : readers ts a = 0 := by
  unfold readers
  rw [List.countP_eq_zero]
  intro t member
  simpa using not_derefCovers_of_noNa2 (free t member)

private theorem writers_eq_zero {ts : List RuntimeExpr} {a : Int}
    (free : ∀ t ∈ ts, t.NoNa2) : writers ts a = 0 := by
  unfold writers
  rw [List.countP_eq_zero]
  intro t member
  simpa using not_assignCovers_of_noNa2 (free t member)

end Counting

/-! ## The invariant -/

/-- A thread is between accesses, or in the middle of one whose cells are
mapped and owned by the allocation of the pointer. -/
inductive ThreadOk (h : Heap) : RuntimeExpr → Prop where
  | idle {t : RuntimeExpr} (free : t.NoNa2) : ThreadOk h t
  | reading {K : List LangEctx} {ot : OpType} {mc : Bool} {v : Val} {l : Loc} {aid : AllocId}
      (context : (cLang.fill K unitVal).NoNa2) (pointer : valToLoc v = some l)
      (provenance : l.1 = .provAlloc (some aid)) (aligned : hasLayoutLoc l ot.otLayout)
      (cells : ∀ a, Covers l ot a → ∃ cell, h a = some cell ∧ cell.hcAllocId = aid) :
      ThreadOk h (cLang.fill K (pendingDeref ot mc v))
  | writing {K : List LangEctx} {rf : RuntimeFunction} {ot : OpType} {v1 v2 : Val} {s : Stmt}
      {l : Loc} {aid : AllocId}
      (context : (cLang.fill K unitVal).NoNa2) (body : rf.rfFn.NoNa2) (rest : s.NoNa2)
      (pointer : valToLoc v1 = some l) (layout : hasLayoutVal v2 ot.otLayout)
      (provenance : l.1 = .provAlloc (some aid)) (aligned : hasLayoutLoc l ot.otLayout)
      (cells : ∀ a, Covers l ot a → ∃ cell, h a = some cell ∧ cell.hcAllocId = aid) :
      ThreadOk h (cLang.fill K (pendingAssign rf ot v1 v2 s))

/-- The lock state of the cell at `a` counts the pending accesses. Nobody
accesses an unmapped address. -/
def CellOk (ts : List RuntimeExpr) (h : Heap) (a : Int) : Prop :=
  match h a with
  | none => readers ts a = 0 ∧ writers ts a = 0
  | some cell =>
      match cell.hcLockState with
      | .rSt n => readers ts a = n ∧ writers ts a = 0
      | .wSt => readers ts a = 0 ∧ writers ts a = 1

structure LockInv (c : EctxiLanguage.Config RuntimeExpr State) : Prop where
  fns : c.2.NoNa2
  threads : ∀ t ∈ c.1, ThreadOk c.2.stHeap.hsHeap t
  cells : ∀ a, CellOk c.1 c.2.stHeap.hsHeap a

/-- Heap and program text of an initial configuration. -/
structure Initial (c : EctxiLanguage.Config RuntimeExpr State) : Prop where
  unlocked : ∀ a cell, c.2.stHeap.hsHeap a = some cell → cell.hcLockState = .rSt 0
  threads : ∀ t ∈ c.1, t.NoNa2
  fns : c.2.NoNa2

private theorem Initial.lockInv {c : EctxiLanguage.Config RuntimeExpr State} (initial : Initial c) :
    LockInv c where
  fns := initial.fns
  threads := fun t member => .idle (initial.threads t member)
  cells := by
    intro a
    have noReaders : readers c.1 a = 0 := readers_eq_zero initial.threads
    have noWriters : writers c.1 a = 0 := writers_eq_zero initial.threads
    unfold CellOk
    cases found : c.2.stHeap.hsHeap a with
    | none => exact ⟨noReaders, noWriters⟩
    | some cell =>
        simp only [initial.unlocked a cell found]
        exact ⟨noReaders, noWriters⟩

section Cells

variable {ts : List RuntimeExpr} {h : Heap} {a : Int}

theorem CellOk.rSt {cell : HeapCell} {n : Nat} (found : h a = some cell)
    (lock : cell.hcLockState = .rSt n) :
    CellOk ts h a ↔ readers ts a = n ∧ writers ts a = 0 := by
  simp [CellOk, found, lock]

theorem CellOk.wSt {cell : HeapCell} (found : h a = some cell)
    (lock : cell.hcLockState = .wSt) :
    CellOk ts h a ↔ readers ts a = 0 ∧ writers ts a = 1 := by
  simp [CellOk, found, lock]

theorem CellOk.cell (ok : CellOk ts h a) (held : 0 < readers ts a + writers ts a) :
    ∃ cell, h a = some cell := by
  unfold CellOk at ok
  cases found : h a with
  | none =>
      rw [found] at ok
      omega
  | some cell => exact ⟨cell, rfl⟩

theorem CellOk.of_reader (ok : CellOk ts h a) (reading : 0 < readers ts a) :
    ∃ cell n, h a = some cell ∧ cell.hcLockState = .rSt (n + 1) ∧ readers ts a = n + 1 ∧
      writers ts a = 0 := by
  obtain ⟨cell, found⟩ := ok.cell (by omega)
  cases lock : cell.hcLockState with
  | wSt =>
      have counts := (CellOk.wSt found lock).mp ok
      omega
  | rSt n =>
      obtain ⟨count, noWriter⟩ := (CellOk.rSt found lock).mp ok
      obtain ⟨m, rfl⟩ : ∃ m, n = m + 1 := ⟨n - 1, by omega⟩
      exact ⟨cell, m, found, lock, count, noWriter⟩

theorem CellOk.of_writer (ok : CellOk ts h a) (writing : 0 < writers ts a) :
    ∃ cell, h a = some cell ∧ cell.hcLockState = .wSt ∧ readers ts a = 0 ∧
      writers ts a = 1 := by
  obtain ⟨cell, found⟩ := ok.cell (by omega)
  cases lock : cell.hcLockState with
  | wSt => exact ⟨cell, found, lock, (CellOk.wSt found lock).mp ok⟩
  | rSt n =>
      have counts := (CellOk.rSt found lock).mp ok
      omega

private theorem CellOk.of_unlocked (ok : CellOk ts h a) (unlocked : Unlocked h a) :
    readers ts a = 0 ∧ writers ts a = 0 := by
  unfold CellOk at ok
  cases found : h a with
  | none =>
      rw [found] at ok
      exact ok
  | some cell =>
      simp only [found, unlocked cell found] at ok
      exact ok

theorem CellOk.congr {ts' : List RuntimeExpr} {h' : Heap} (sameCell : h' a = h a)
    (sameReaders : readers ts' a = readers ts a) (sameWriters : writers ts' a = writers ts a)
    (ok : CellOk ts h a) : CellOk ts' h' a := by
  unfold CellOk at ok ⊢
  rw [sameCell, sameReaders, sameWriters]
  exact ok

private theorem CellOk.of_idle (noReaders : readers ts a = 0) (noWriters : writers ts a = 0)
    (unlocked : Unlocked h a) : CellOk ts h a := by
  cases found : h a with
  | none => simp [CellOk, found, noReaders, noWriters]
  | some cell => exact (CellOk.rSt found (unlocked cell found)).mpr ⟨noReaders, noWriters⟩

end Cells

/-! ## Preservation -/

/-- A locked cell stays mapped and keeps its owner, whatever step is taken. -/
theorem HeadEffect.locked_cell {e e' : RuntimeExpr} {h h' : Heap} (effect : HeadEffect e h e' h')
    {a : Int} {cell : HeapCell} (found : h a = some cell) (locked : cell.hcLockState ≠ .rSt 0) :
    ∃ cell', h' a = some cell' ∧ cell'.hcAllocId = cell.hcAllocId := by
  have access : ∀ {l ot R}, AccessEffect l ot R h h' →
      ∃ cell', h' a = some cell' ∧ cell'.hcAllocId = cell.hcAllocId := by
    rintro l ot R ⟨aid, -, -, inside, outside⟩
    by_cases covers : Covers l ot a
    · obtain ⟨old, new, before, after, owner, owner', -⟩ := inside a covers
      rw [found] at before
      cases before
      exact ⟨new, after, owner'.trans owner.symm⟩
    · exact ⟨cell, by rw [outside a covers, found], rfl⟩
  cases effect with
  | neutral _ _ heap =>
      rcases heap a with same | ⟨unlocked, -⟩
      · exact ⟨cell, by rw [same, found], rfl⟩
      · exact absurd (unlocked cell found) locked
  | readStart _ effect => exact access effect
  | readEnd _ effect _ => exact access effect
  | writeStart _ _ _ _ effect => exact access effect
  | writeEnd _ effect _ => exact access effect

theorem ThreadOk.mono {h h' : Heap} {t : RuntimeExpr} (ok : ThreadOk h t)
    (keeps : ∀ a cell, DerefCovers a t ∨ AssignCovers a t → h a = some cell →
      ∃ cell', h' a = some cell' ∧ cell'.hcAllocId = cell.hcAllocId) : ThreadOk h' t := by
  cases ok with
  | idle free => exact .idle free
  | reading context pointer provenance aligned cells =>
      refine .reading context pointer provenance aligned ?_
      intro a covers
      obtain ⟨cell, found, owner⟩ := cells a covers
      obtain ⟨cell', found', owner'⟩ :=
        keeps a cell (.inl ((derefCovers_pendingDeref pointer).mpr covers)) found
      exact ⟨cell', found', owner'.trans owner⟩
  | writing context body rest pointer layout provenance aligned cells =>
      refine .writing context body rest pointer layout provenance aligned ?_
      intro a covers
      obtain ⟨cell, found, owner⟩ := cells a covers
      obtain ⟨cell', found', owner'⟩ :=
        keeps a cell (.inr ((assignCovers_pendingAssign pointer).mpr covers)) found
      exact ⟨cell', found', owner'.trans owner⟩

/-- A thread of a good configuration decomposes into a context and a redex that
hold no second-phase access besides the redex itself. -/
theorem ThreadOk.redexOk {h : Heap} {K : List LangEctx} {e : RuntimeExpr}
    (ok : ThreadOk h (cLang.fill K e)) (redex : cLang.IsRedex e) :
    (cLang.fill K unitVal).NoNa2 ∧ RedexOk e := by
  generalize shape : cLang.fill K e = t at ok
  cases ok with
  | idle free =>
      rw [← shape] at free
      have parts := noNa2_fill.mp free
      exact ⟨parts.1, .inl parts.2⟩
  | @reading K' ot mc v l aid context =>
      obtain ⟨rfl, rfl⟩ := cLang.fill_redex_unique redex (pendingDeref_isRedex ot mc v) shape
      exact ⟨context, .inr (.inl ⟨ot, mc, v, rfl⟩)⟩
  | @writing K' rf ot v1 v2 s l aid context body rest =>
      obtain ⟨rfl, rfl⟩ :=
        cLang.fill_redex_unique redex (pendingAssign_isRedex rf ot v1 v2 s) shape
      exact ⟨context, .inr (.inr ⟨rf, ot, v1, v2, s, rfl, body, rest⟩)⟩

/-- Cells after one thread has moved from `t` to `t'`. -/
theorem HeadEffect.cellOk {K : List LangEctx} {e e' : RuntimeExpr} {h h' : Heap}
    {ts : List RuntimeExpr} {i : Nat} {a : Int} (effect : HeadEffect e h e' h')
    (context : (cLang.fill K unitVal).NoNa2) (found : ts[i]? = some (cLang.fill K e))
    (ok : CellOk ts h a) : CellOk (ts.set i (cLang.fill K e')) h' a := by
  have readersAfter := readers_set (cLang.fill K e') a found
  have writersAfter := writers_set (cLang.fill K e') a found
  have idle : ∀ {r : RuntimeExpr}, r.NoNa2 →
      ¬ DerefCovers a (cLang.fill K r) ∧ ¬ AssignCovers a (cLang.fill K r) := by
    intro r free
    have whole := noNa2_fill.mpr ⟨context, free⟩
    exact ⟨not_derefCovers_of_noNa2 whole, not_assignCovers_of_noNa2 whole⟩
  cases effect with
  | neutral before after heap =>
      rw [if_neg (idle before).1, if_neg (idle after).1] at readersAfter
      rw [if_neg (idle before).2, if_neg (idle after).2] at writersAfter
      rcases heap a with same | ⟨unlocked, unlocked'⟩
      · exact ok.congr same readersAfter writersAfter
      · obtain ⟨noReaders, noWriters⟩ := ok.of_unlocked unlocked
        exact .of_idle (by omega) (by omega) unlocked'
  | @readStart ot mc v l _ _ pointer access =>
      have before : (toRtexpr (.deref .na1Ord ot mc (.val v))).NoNa2 := ⟨by simp, trivial⟩
      rw [if_neg (idle before).1] at readersAfter
      rw [if_neg (idle before).2, if_neg not_assignCovers_pendingDeref] at writersAfter
      obtain ⟨aid, -, -, inside, outside⟩ := access
      by_cases covers : Covers l ot a
      · rw [if_pos ((derefCovers_pendingDeref pointer).mpr covers)] at readersAfter
        obtain ⟨cell, cell', start, ending, -, -, n, lock, lock', -⟩ := inside a covers
        have counts := (CellOk.rSt start lock).mp ok
        exact (CellOk.rSt ending lock').mpr (by omega)
      · rw [if_neg (fun c => covers ((derefCovers_pendingDeref pointer).mp c))] at readersAfter
        exact ok.congr (outside a covers) readersAfter writersAfter
  | @readEnd ot mc v l _ _ _ pointer access after =>
      rw [if_neg (idle after).1] at readersAfter
      rw [if_neg (idle after).2, if_neg not_assignCovers_pendingDeref] at writersAfter
      obtain ⟨aid, -, -, inside, outside⟩ := access
      by_cases covers : Covers l ot a
      · rw [if_pos ((derefCovers_pendingDeref pointer).mpr covers)] at readersAfter
        obtain ⟨cell, cell', start, ending, -, -, n, lock, lock', -⟩ := inside a covers
        have counts := (CellOk.rSt start lock).mp ok
        exact (CellOk.rSt ending lock').mpr (by omega)
      · rw [if_neg (fun c => covers ((derefCovers_pendingDeref pointer).mp c))] at readersAfter
        exact ok.congr (outside a covers) readersAfter writersAfter
  | @writeStart rf ot v1 v2 s l _ _ pointer layout body rest access =>
      have before : (toRtstmt rf (.assign .na1Ord ot (.val v1) (.val v2) s)).NoNa2 :=
        noNa2_toRtstmt.mpr ⟨body, by simp, trivial, trivial, rest⟩
      rw [if_neg (idle before).1, if_neg not_derefCovers_pendingAssign] at readersAfter
      rw [if_neg (idle before).2] at writersAfter
      obtain ⟨aid, -, -, inside, outside⟩ := access
      by_cases covers : Covers l ot a
      · rw [if_pos ((assignCovers_pendingAssign pointer).mpr covers)] at writersAfter
        obtain ⟨cell, cell', start, ending, -, -, lock, lock', -⟩ := inside a covers
        have counts := (CellOk.rSt start lock).mp ok
        exact (CellOk.wSt ending lock').mpr (by omega)
      · rw [if_neg (fun c => covers ((assignCovers_pendingAssign pointer).mp c))] at writersAfter
        exact ok.congr (outside a covers) readersAfter writersAfter
  | @writeEnd rf ot v1 v2 s l _ _ _ pointer access after =>
      rw [if_neg (idle after).1, if_neg not_derefCovers_pendingAssign] at readersAfter
      rw [if_neg (idle after).2] at writersAfter
      obtain ⟨aid, -, -, inside, outside⟩ := access
      by_cases covers : Covers l ot a
      · rw [if_pos ((assignCovers_pendingAssign pointer).mpr covers)] at writersAfter
        obtain ⟨cell, cell', start, ending, -, -, lock, lock'⟩ := inside a covers
        have counts := (CellOk.wSt start lock).mp ok
        exact (CellOk.rSt ending lock').mpr (by omega)
      · rw [if_neg (fun c => covers ((assignCovers_pendingAssign pointer).mp c))] at writersAfter
        exact ok.congr (outside a covers) readersAfter writersAfter

/-- The thread that took the step is good again. -/
theorem HeadEffect.threadOk {K : List LangEctx} {e e' : RuntimeExpr} {h h' : Heap}
    (effect : HeadEffect e h e' h') (context : (cLang.fill K unitVal).NoNa2) :
    ThreadOk h' (cLang.fill K e') := by
  cases effect with
  | neutral _ after _ => exact .idle (noNa2_fill.mpr ⟨context, after⟩)
  | readStart pointer access =>
      obtain ⟨aid, provenance, aligned, inside, -⟩ := access
      refine .reading context pointer provenance aligned ?_
      intro a covers
      obtain ⟨_, cell', -, after, -, owner', -⟩ := inside a covers
      exact ⟨cell', after, owner'⟩
  | readEnd _ _ after => exact .idle (noNa2_fill.mpr ⟨context, after⟩)
  | writeStart pointer layout body rest access =>
      obtain ⟨aid, provenance, aligned, inside, -⟩ := access
      refine .writing context body rest pointer layout provenance aligned ?_
      intro a covers
      obtain ⟨_, cell', -, after, -, owner', -⟩ := inside a covers
      exact ⟨cell', after, owner'⟩
  | writeEnd _ _ after => exact .idle (noNa2_fill.mpr ⟨context, after⟩)

/-- A pending access keeps the lock of its cells. -/
theorem LockInv.locked {c : EctxiLanguage.Config RuntimeExpr State} (inv : LockInv c)
    {t : RuntimeExpr} {a : Int} {cell : HeapCell} (member : t ∈ c.1)
    (covers : DerefCovers a t ∨ AssignCovers a t) (found : c.2.stHeap.hsHeap a = some cell) :
    cell.hcLockState ≠ .rSt 0 := by
  rcases covers with covers | covers
  · obtain ⟨cell', n, found', lock, -⟩ := (inv.cells a).of_reader (readers_pos member covers)
    rw [found] at found'
    cases found'
    simp [lock]
  · obtain ⟨cell', found', lock, -⟩ := (inv.cells a).of_writer (writers_pos member covers)
    rw [found] at found'
    cases found'
    simp [lock]

/-- One step of any thread, in the vocabulary of the invariant. -/
theorem LockInv.step_effect {c c' : EctxiLanguage.Config RuntimeExpr State} {i : Nat}
    (inv : LockInv c) (step : cLang.PoolStepBy i c c') :
    ∃ K e e', c.1[i]? = some (cLang.fill K e) ∧ c'.1 = c.1.set i (cLang.fill K e') ∧
      RuntimeStep e c.2 e' c'.2 ∧ (cLang.fill K unitVal).NoNa2 ∧
      HeadEffect e c.2.stHeap.hsHeap e' c'.2.stHeap.hsHeap := by
  obtain ⟨t, t', found, ⟨K, headStep⟩, threads⟩ := step
  rename_i e e'
  have member : cLang.fill K e ∈ c.1 := List.mem_of_getElem? found
  obtain ⟨context, redexOk⟩ :=
    (inv.threads _ member).redexOk (cLang.isRedex_of_headStep headStep)
  exact ⟨K, e, e', found, threads, headStep, context,
    runtimeStep_effect inv.fns redexOk headStep⟩

theorem LockInv.step {c c' : EctxiLanguage.Config RuntimeExpr State} (inv : LockInv c)
    (step : cLang.PoolStep c c') : LockInv c' := by
  obtain ⟨i, step⟩ := step
  obtain ⟨K, e, e', found, threads, headStep, context, effect⟩ := inv.step_effect step
  refine ⟨?_, ?_, ?_⟩
  · intro a fn isFn
    rw [runtimeStep_fntbl headStep] at isFn
    exact inv.fns a fn isFn
  · intro t member
    rw [threads] at member
    rcases List.mem_or_eq_of_mem_set member with old | rfl
    · refine (inv.threads t old).mono ?_
      intro a cell covers isCell
      exact effect.locked_cell isCell (inv.locked old covers isCell)
    · exact effect.threadOk context
  · intro a
    rw [threads]
    exact effect.cellOk context found (inv.cells a)

theorem Initial.lockInv_of_run {c c' : EctxiLanguage.Config RuntimeExpr State}
    (initial : Initial c) (run : cLang.PoolSteps c c') : LockInv c' :=
  cLang.invariant_of_poolSteps LockInv.step initial.lockInv run

/-! ## Accounting -/

/-- In every reachable configuration the lock state of a mapped cell either
counts the pending loads of the cell while nobody stores to it, or marks the
one pending store to the cell while nobody loads it. -/
theorem lockState_accounting {c c' : EctxiLanguage.Config RuntimeExpr State}
    (initial : Initial c) (run : cLang.PoolSteps c c') {a : Int} {cell : HeapCell}
    (mapped : c'.2.stHeap.hsHeap a = some cell) :
    Xor
      (∃ n, cell.hcLockState = .rSt n ∧ readers c'.1 a = n ∧ writers c'.1 a = 0)
      (cell.hcLockState = .wSt ∧ writers c'.1 a = 1 ∧ readers c'.1 a = 0) := by
  have ok := (initial.lockInv_of_run run).cells a
  cases lock : cell.hcLockState with
  | rSt n =>
      have counts := (CellOk.rSt mapped lock).mp ok
      exact .inl ⟨⟨n, rfl, counts⟩, by simp⟩
  | wSt =>
      have counts := (CellOk.wSt mapped lock).mp ok
      exact .inr ⟨⟨rfl, counts.2, counts.1⟩, by simp⟩

def sharedLoc : Loc := (.provAlloc (some 3), 1)

/-- One mapped byte. -/
def sharedByte : State :=
  ⟨⟨PartialMap.empty.insert 1 ⟨3, .rSt 0, .mByte byte0 none⟩,
    PartialMap.empty.insert 3 ⟨1, 1, true, .heapAlloc⟩⟩, PartialMap.empty⟩

/-- Two threads that are about to load the shared byte. -/
def sharedLoads : EctxiLanguage.Config RuntimeExpr State :=
  (List.replicate 2 (toRtexpr (.deref .na1Ord (.intOp u8) false (.val (valOfLoc sharedLoc)))),
    sharedByte)

/-- The first thread has taken the first half of its load. -/
def loadStarted : EctxiLanguage.Config RuntimeExpr State :=
  (sharedLoads.1.set 0 (pendingDeref (.intOp u8) false (valOfLoc sharedLoc)),
    heapFmap (heapUpd sharedLoc [.mByte byte0 none] (derefEndSt .na1Ord)) sharedByte)

theorem sharedLoads_initial : Initial sharedLoads where
  unlocked := by
    intro a cell found
    by_cases here : a = 1
    · subst here
      cases found
      rfl
    · change PartialMap.insert _ _ _ a = some cell at found
      rw [PartialMap.insert_other here] at found
      cases found
  threads := by
    intro t member
    obtain ⟨-, rfl⟩ := List.mem_replicate.mp member
    exact ⟨by simp, trivial⟩
  fns := by
    intro a fn isFn
    cases isFn

theorem loadStarted_reachable : cLang.PoolSteps sharedLoads loadStarted := by
  have cells : heapAt sharedLoc (OpType.intOp u8).otLayout [.mByte byte0 none]
      (derefStartSt .na1Ord) sharedByte.stHeap.hsHeap :=
    ⟨⟨3, rfl⟩, by decide, rfl, ⟨3, .rSt 0, rfl, rfl, 0, rfl⟩, trivial⟩
  have step : ExprStep (.deref .na1Ord (.intOp u8) false (.val (valOfLoc sharedLoc))) sharedByte
      (pendingDeref (.intOp u8) false (valOfLoc sharedLoc)) loadStarted.2 :=
    .derefS (valToLoc_valOfLoc sharedLoc) cells
  exact .single ⟨0, _, _, rfl, .ectx [] (.exprStep step), rfl⟩

theorem lockState_accounting_sharedByte :
    loadStarted.2.stHeap.hsHeap 1 = some ⟨3, .rSt 1, .mByte byte0 none⟩ ∧
      Xor
        (∃ n, LockState.rSt 1 = .rSt n ∧ readers loadStarted.1 1 = n ∧
          writers loadStarted.1 1 = 0)
        (LockState.rSt 1 = .wSt ∧ writers loadStarted.1 1 = 1 ∧
          readers loadStarted.1 1 = 0) := by
  have mapped : loadStarted.2.stHeap.hsHeap 1 = some ⟨3, .rSt 1, .mByte byte0 none⟩ := rfl
  exact ⟨mapped, lockState_accounting sharedLoads_initial loadStarted_reachable mapped⟩

end RefinedC.Caesium
