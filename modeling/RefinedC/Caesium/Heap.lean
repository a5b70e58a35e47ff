import RefinedC.Caesium.Val
import RefinedC.Library.PartialMap

/-!
Heap and allocations of Caesium.

Source: `theories/caesium/heap.v`.

Owns: heap cells with their lock state, lookup and update of byte ranges,
allocations and their liveness, pointer validity and comparison, `mem_cast`,
and allocation and deallocation of blocks.

Heaps and allocation tables are partial maps. Lookup facts of range operations
(`heapUpdate`, `heapFree`) are stated once here; every later proof about the
heap goes through them.
-/

namespace RefinedC.Caesium

open RefinedC.Library

/-! ## Representation of the heap -/

/-- Lock state of a cell, for data-race detection. -/
inductive LockState where
  | wSt
  | rSt (n : Nat)
deriving DecidableEq, Repr

structure HeapCell where
  hcAllocId : AllocId
  hcLockState : LockState
  hcValue : Mbyte
deriving DecidableEq

abbrev Heap := PartialMap Int HeapCell

/-- The heap contains value `v` at address `a`, and every cell involved has an
allocation identifier and a lock state that satisfy `Paid` and `Plk`. -/
def heapLookup (a : Int) (v : Val) (Paid : AllocId → Prop) (Plk : LockState → Prop)
    (h : Heap) : Prop :=
  match v with
  | [] => True
  | b :: v =>
      (∃ aid lk, h a = some ⟨aid, lk, b⟩ ∧ Paid aid ∧ Plk lk) ∧
        heapLookup (a + 1) v Paid Plk h

/-- Write value `v` at address `a`. The functions `faid` and `flk` compute the
new allocation identifier and lock state from the previous ones. -/
def heapUpdate (a : Int) (v : Val) (faid : Option AllocId → AllocId)
    (flk : Option LockState → LockState) (h : Heap) : Heap :=
  match v with
  | [] => h
  | b :: v =>
      (heapUpdate (a + 1) v faid flk h).partialAlter
        (fun m => some ⟨faid (m.map HeapCell.hcAllocId), flk (m.map HeapCell.hcLockState), b⟩) a

def heapLookupLoc (l : Loc) (v : Val) (Plk : LockState → Prop) (h : Heap) : Prop :=
  heapLookup l.2 v (fun aid => l.1 = .provAlloc (some aid)) Plk h

def heapAlloc (a : Int) (v : Val) (aid : AllocId) (h : Heap) : Heap :=
  heapUpdate a v (fun _ => aid) (fun _ => .rSt 0) h

def heapAt (l : Loc) (ly : Layout) (v : Val) (Plk : LockState → Prop) (h : Heap) : Prop :=
  (∃ aid, l.1 = .provAlloc (some aid)) ∧ hasLayoutLoc l ly ∧ hasLayoutVal v ly ∧
    heapLookupLoc l v Plk h

def heapUpd (l : Loc) (v : Val) (flk : Option LockState → LockState) (h : Heap) : Heap :=
  heapUpdate l.2 v (fun m => m.getD ((provAllocId l.1).getD dummyAllocId)) flk h

/-- The `n` first bytes from address `a` have not been allocated. -/
def heapRangeFree (h : Heap) (a : Int) (n : Nat) : Prop :=
  ∀ a', a ≤ a' ∧ a' < a + n → h a' = none

/-- Free `n` cells starting at `a`. -/
def heapFree (a : Int) (n : Nat) (h : Heap) : Heap :=
  match n with
  | 0 => h
  | n + 1 => (heapFree (a + 1) n h).delete a

/-! ## Lookup laws -/

theorem heapLookup_cell {a p : Int} {v : Val} {Paid : AllocId → Prop}
    {Plk : LockState → Prop} {h : Heap} (lookup : heapLookup a v Paid Plk h)
    (low : a ≤ p) (high : p < a + v.length) :
    ∃ aid lk b, h p = some ⟨aid, lk, b⟩ ∧ v[(p - a).toNat]? = some b ∧
      Paid aid ∧ Plk lk := by
  induction v generalizing a with
  | nil => simp at high; omega
  | cons b v inductionHypothesis =>
      obtain ⟨⟨aid, lk, cell, aidOk, lockOk⟩, rest⟩ := lookup
      by_cases here : p = a
      · subst here
        exact ⟨aid, lk, b, cell, by simp, aidOk, lockOk⟩
      · obtain ⟨aid', lk', b', cell', value, aidOk', lockOk'⟩ :=
          inductionHypothesis rest (by omega) (by simp at high; omega)
        refine ⟨aid', lk', b', cell', ?_, aidOk', lockOk'⟩
        have shifted : (p - a).toNat = (p - (a + 1)).toNat + 1 := by omega
        rw [shifted, List.getElem?_cons_succ]
        exact value

theorem heapLookup_of_cells {a : Int} {v : Val} {Paid : AllocId → Prop}
    {Plk : LockState → Prop} {h : Heap}
    (cells : ∀ p, a ≤ p → p < a + v.length → ∃ aid lk b,
      h p = some ⟨aid, lk, b⟩ ∧ v[(p - a).toNat]? = some b ∧ Paid aid ∧ Plk lk) :
    heapLookup a v Paid Plk h := by
  induction v generalizing a with
  | nil => trivial
  | cons b v inductionHypothesis =>
      constructor
      · obtain ⟨aid, lk, b', cell, value, aidOk, lockOk⟩ :=
          cells a (by omega) (by simp)
        simp only [Int.sub_self, Int.toNat_zero, List.getElem?_cons_zero,
          Option.some.injEq] at value
        subst value
        exact ⟨aid, lk, cell, aidOk, lockOk⟩
      · apply inductionHypothesis
        intro p low high
        obtain ⟨aid, lk, b', cell, value, aidOk, lockOk⟩ :=
          cells p (by omega) (by simp; omega)
        have shifted : (p - a).toNat = (p - (a + 1)).toNat + 1 := by omega
        rw [shifted, List.getElem?_cons_succ] at value
        exact ⟨aid, lk, b', cell, value, aidOk, lockOk⟩

theorem heapUpdate_outside {a p : Int} {v : Val} {faid : Option AllocId → AllocId}
    {flk : Option LockState → LockState} {h : Heap} (outside : p < a ∨ a + v.length ≤ p) :
    heapUpdate a v faid flk h p = h p := by
  induction v generalizing a with
  | nil => rfl
  | cons b v inductionHypothesis =>
      simp only [List.length_cons, Nat.cast_add, Nat.cast_one] at outside
      rw [heapUpdate, PartialMap.partialAlter_other (by omega)]
      exact inductionHypothesis (by omega)

theorem heapUpdate_inside {a p : Int} {v : Val} (faid : Option AllocId → AllocId)
    (flk : Option LockState → LockState) (h : Heap) (low : a ≤ p) (high : p < a + v.length) :
    ∃ b, v[(p - a).toNat]? = some b ∧ heapUpdate a v faid flk h p =
      some ⟨faid ((h p).map HeapCell.hcAllocId), flk ((h p).map HeapCell.hcLockState), b⟩ := by
  induction v generalizing a with
  | nil => simp at high; omega
  | cons b v inductionHypothesis =>
      by_cases here : p = a
      · subst here
        refine ⟨b, by simp, ?_⟩
        rw [heapUpdate, PartialMap.partialAlter_same, heapUpdate_outside (by omega)]
      · obtain ⟨b', value, updated⟩ :=
          inductionHypothesis (a := a + 1) (by omega) (by simp at high; omega)
        refine ⟨b', ?_, ?_⟩
        · have shifted : (p - a).toNat = (p - (a + 1)).toNat + 1 := by omega
          rw [shifted, List.getElem?_cons_succ]
          exact value
        · rw [heapUpdate, PartialMap.partialAlter_other here]
          exact updated

theorem heapFree_outside {a p : Int} {n : Nat} {h : Heap}
    (outside : p < a ∨ a + n ≤ p) : heapFree a n h p = h p := by
  induction n generalizing a with
  | zero => rfl
  | succ n inductionHypothesis =>
      rw [heapFree, PartialMap.delete_other (by omega)]
      exact inductionHypothesis (by omega)

theorem heapFree_inside {a p : Int} {n : Nat} {h : Heap}
    (low : a ≤ p) (high : p < a + n) : heapFree a n h p = none := by
  induction n generalizing a with
  | zero => omega
  | succ n inductionHypothesis =>
      by_cases here : p = a
      · subst here
        exact PartialMap.delete_same
      · rw [heapFree, PartialMap.delete_other here]
        exact inductionHypothesis (by omega) (by omega)

/-! ## Allocations -/

inductive AllocKind where
  | heapAlloc
  | stackAlloc
  | globalAlloc
deriving DecidableEq, Repr

structure Allocation where
  alStart : Int
  alLen : Nat
  alAlive : Bool
  alKind : AllocKind
deriving DecidableEq, Repr

def Allocation.alEnd (al : Allocation) : Int := al.alStart + al.alLen

abbrev Allocs := PartialMap AllocId Allocation

/-- Smallest allocatable address (0 is reserved for NULL). -/
def minAllocStart : Int := 1

/-- Largest allocatable address (the last byte is never allocated, to always
have valid one-past pointers). -/
def maxAllocEnd : Int := 2 ^ (bytesPerAddr * bitsPerByte) - 2

/-- The allocation is in range of the allocatable memory. -/
def allocationInRange (al : Allocation) : Prop :=
  minAllocStart ≤ al.alStart ∧ al.alEnd ≤ maxAllocEnd

instance (al : Allocation) : Decidable (allocationInRange al) :=
  inferInstanceAs (Decidable (_ ∧ _))

structure HeapState where
  hsHeap : Heap
  hsAllocs : Allocs

def allocIdAlive (aid : AllocId) (st : HeapState) : Prop :=
  ∃ alloc, st.hsAllocs aid = some alloc ∧ alloc.alAlive = true

def blockAlive (l : Loc) (st : HeapState) : Prop :=
  ∃ aid, l.1 = .provAlloc (some aid) ∧ allocIdAlive aid st

/-- The address range between `l` and `l + n` (included) is in range of the
allocation of `l`. The one-past-the-end pointer is in range. -/
def heapStateLocInBounds (l : Loc) (n : Nat) (st : HeapState) : Prop :=
  ∃ allocId al, l.1 = .provAlloc (some allocId) ∧ st.hsAllocs allocId = some al ∧
    allocationInRange al ∧ al.alStart ≤ l.2 ∧ l.2 + n ≤ al.alEnd

/-- The location is in bounds of its allocation and this allocation is alive. -/
def validPtr (l : Loc) (st : HeapState) : Prop :=
  blockAlive l st ∧ heapStateLocInBounds l 0 st

instance (aid : AllocId) (st : HeapState) : Decidable (allocIdAlive aid st) :=
  match found : st.hsAllocs aid with
  | none => isFalse (by rintro ⟨alloc, isSome, _⟩; simp [found] at isSome)
  | some alloc =>
      decidable_of_iff (alloc.alAlive = true) (by simp [allocIdAlive, found])

instance (l : Loc) (st : HeapState) : Decidable (blockAlive l st) :=
  match found : l.1 with
  | .provAlloc (some aid) =>
      decidable_of_iff (allocIdAlive aid st) (by simp [blockAlive, found])
  | .provAlloc none => isFalse (by simp [blockAlive, found])
  | .provNull => isFalse (by simp [blockAlive, found])
  | .provFnPtr => isFalse (by simp [blockAlive, found])

instance (l : Loc) (n : Nat) (st : HeapState) : Decidable (heapStateLocInBounds l n st) :=
  match found : l.1 with
  | .provAlloc (some aid) =>
      match lookup : st.hsAllocs aid with
      | none => isFalse (by simp [heapStateLocInBounds, found, lookup])
      | some al =>
          decidable_of_iff
            (allocationInRange al ∧ al.alStart ≤ l.2 ∧ l.2 + n ≤ al.alEnd)
            (by simp [heapStateLocInBounds, found, lookup])
  | .provAlloc none => isFalse (by simp [heapStateLocInBounds, found])
  | .provNull => isFalse (by simp [heapStateLocInBounds, found])
  | .provFnPtr => isFalse (by simp [heapStateLocInBounds, found])

instance (l : Loc) (st : HeapState) : Decidable (validPtr l st) :=
  inferInstanceAs (Decidable (_ ∧ _))

theorem validPtr_address_pos {l : Loc} {st : HeapState} (valid : validPtr l st) :
    0 < l.2 := by
  obtain ⟨_, _, al, _, _, ⟨lowest, _⟩, low, _⟩ := valid
  simp only [minAllocStart] at lowest
  omega

/-! ## Comparing pointers and testing values -/

/-- Whether two pointers compare equal. `none` means that the comparison is
undefined. -/
def heapLocEq (l1 l2 : Loc) (st : HeapState) : Option Bool :=
  if l1 = nullLoc ∧ l2 = nullLoc then
    some true
  else if (l1 = nullLoc ∧ l2.1 = .provFnPtr) ∨ (l1.1 = .provFnPtr ∧ l2 = nullLoc) then
    some false
  else if l1 = nullLoc then
    if heapStateLocInBounds l2 0 st then some false else none
  else if l2 = nullLoc then
    if heapStateLocInBounds l1 0 st then some false else none
  else if l1.1 = .provFnPtr ∧ l2.1 = .provFnPtr then
    some (decide (l1.2 = l2.2))
  else if validPtr l1 st then
    if validPtr l2 st then some (decide (l1.2 = l2.2)) else none
  else none

/-- Converting a value to a boolean (for conditionals). -/
def castToBool (ot : OpType) (v : Val) (st : HeapState) : Option Bool :=
  match ot with
  | .boolOp => valToBool v
  | .intOp it => (valToZ v it).map (fun n => decide (n ≠ 0))
  | .ptrOp => (valToLoc v).bind (fun l => (heapLocEq l nullLoc st).map (fun b => !b))
  | _ => none

/-! ## MemCast: transforming bytes read from memory -/

/-- Loading bytes at a pointer type. Integer bytes are converted like an
integer-to-pointer cast; `fns` holds the addresses of functions. -/
def memCastPtr (v : Val) (fns : Int → Bool) (st : HeapState) : Option Val :=
  match valToLoc v with
  | some _ => some v
  | none => do
      let v' ← valToBytes v
      let a ← valToZ v' sizeT
      if a = 0 then
        some (valOfLoc (.provNull, a))
      else if fns a then
        some (valOfLoc (.provFnPtr, a))
      else
        let l' : Loc := (.provAlloc (provsInBytes v).head?, a)
        if validPtr l' st then
          some (valOfLoc l')
        else
          some (valOfLoc (.provAlloc none, a))

/-- Split a value into consecutive pieces of the given sizes. -/
def reshape (sizes : List Nat) (v : Val) : List Val :=
  match sizes with
  | [] => []
  | n :: sizes => v.take n :: reshape sizes (v.drop n)

/-- Cut a value off, or fill it up with poison, to the given length. -/
def resize (n : Nat) (v : Val) : Val :=
  v.take n ++ List.replicate (n - v.length) .mPoison

mutual

def memCast (v : Val) (ot : OpType) (fns : Int → Bool) (st : HeapState) : Val :=
  match ot with
  | .ptrOp => (memCastPtr v fns st).getD (List.replicate v.length .mPoison)
  | .intOp _ => (valToBytes v).getD (List.replicate v.length .mPoison)
  | .boolOp =>
      ((valToBool v).bind (fun _ => valToBytes v)).getD (List.replicate v.length .mPoison)
  | .structOp sl ots =>
      resize v.length
        (List.zipWith (fun f x => f x)
          (padStruct sl.slMembers (memCasts ots fns st)
            (fun ly _ => List.replicate ly.lySize .mPoison))
          (reshape (fieldSizes sl.slMembers) v)).flatten
  | .untypedOp _ => v

/-- The casts of the members of a struct. -/
def memCasts (ots : List OpType) (fns : Int → Bool) (st : HeapState) : List (Val → Val) :=
  match ots with
  | [] => []
  | ot :: ots => (fun v => memCast v ot fns st) :: memCasts ots fns st

end

/-! ## Allocation and deallocation -/

inductive AllocNewBlock : HeapState → AllocKind → Loc → Val → HeapState → Prop where
  | allocNewBlock {σ : HeapState} {l : Loc} {aid : AllocId} {kind : AllocKind} {v : Val}
      (provenance : l.1 = .provAlloc (some aid))
      (fresh : σ.hsAllocs aid = none)
      (inRange : allocationInRange ⟨l.2, v.length, true, kind⟩)
      (rangeFree : heapRangeFree σ.hsHeap l.2 v.length) :
      AllocNewBlock σ kind l v
        ⟨heapAlloc l.2 v aid σ.hsHeap,
          σ.hsAllocs.insert aid ⟨l.2, v.length, true, kind⟩⟩

inductive AllocNewBlocks :
    HeapState → AllocKind → List Loc → List Val → HeapState → Prop where
  | nil {σ : HeapState} {kind : AllocKind} : AllocNewBlocks σ kind [] [] σ
  | cons {σ σ' σ'' : HeapState} {l : Loc} {v : Val} {ls : List Loc} {kind : AllocKind}
      {vs : List Val} (first : AllocNewBlock σ kind l v σ')
      (rest : AllocNewBlocks σ' kind ls vs σ'') :
      AllocNewBlocks σ kind (l :: ls) (v :: vs) σ''

inductive FreeBlock : HeapState → AllocKind → Loc → Layout → HeapState → Prop where
  | freeBlock {σ : HeapState} {l : Loc} {aid : AllocId} {ly : Layout} {kind : AllocKind}
      {v : Val}
      (provenance : l.1 = .provAlloc (some aid))
      (alive : σ.hsAllocs aid = some ⟨l.2, ly.lySize, true, kind⟩)
      (length : v.length = ly.lySize)
      (unlocked : heapLookupLoc l v (fun st => st = .rSt 0) σ.hsHeap) :
      FreeBlock σ kind l ly
        ⟨heapFree l.2 ly.lySize σ.hsHeap,
          σ.hsAllocs.insert aid ⟨l.2, ly.lySize, false, kind⟩⟩

inductive FreeBlocks :
    HeapState → AllocKind → List (Loc × Layout) → HeapState → Prop where
  | nil {σ : HeapState} {kind : AllocKind} : FreeBlocks σ kind [] σ
  | cons {σ σ' σ'' : HeapState} {l : Loc} {ly : Layout} {kind : AllocKind}
      {ls : List (Loc × Layout)} (first : FreeBlock σ kind l ly σ')
      (rest : FreeBlocks σ' kind ls σ'') :
      FreeBlocks σ kind ((l, ly) :: ls) σ''

end RefinedC.Caesium
