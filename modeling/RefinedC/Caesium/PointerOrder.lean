import RefinedC.Caesium.CastRoundTrip

/-!
Arithmetic and comparison of pointers.

Source: `theories/caesium/lang.v` (`PtrOffsetOpIP`, `PtrNegOffsetOpIP`, `PtrDiffOpPP`,
`CmpOpPP`, `RelOpPP`), `heap_loc_eq` of `theories/caesium/heap.v`, and `offset_loc` of
`theories/caesium/loc.v`.

Owns: which pointers can be compared and the outcome, and that offsets, differences and
comparisons describe one order on addresses.
-/

namespace RefinedC.Caesium

/-! ## Offsets -/

private theorem offsetLoc_offsetLoc (l : Loc) (ly : Layout) (i j : Int) :
    offsetLoc (offsetLoc l ly i) ly j = offsetLoc l ly (i + j) := by
  rw [offsetLoc, offsetLoc, offsetLoc, shiftLoc, shiftLoc, shiftLoc, mul_add, add_assoc]

private theorem offsetLoc_sub (l : Loc) (ly : Layout) (i j : Int) :
    (offsetLoc l ly i).2 - (offsetLoc l ly j).2 = ly.lySize * (i - j) := by
  simp only [offsetLoc, shiftLoc]
  ring

/-- Offsets are ordered like the addresses they lead to. -/
theorem offsetLoc_lt_iff {ly : Layout} (positive : 0 < ly.lySize) (l : Loc) {i j : Int} :
    (offsetLoc l ly i).2 < (offsetLoc l ly j).2 ↔ i < j := by
  simp only [offsetLoc, shiftLoc, Int.add_lt_add_iff_left]
  exact Int.mul_lt_mul_left (Int.natCast_pos.mpr positive)

private theorem offsetLoc_le_iff {ly : Layout} (positive : 0 < ly.lySize) (l : Loc) {i j : Int} :
    (offsetLoc l ly i).2 ≤ (offsetLoc l ly j).2 ↔ i ≤ j := by
  rw [← Int.not_lt, offsetLoc_lt_iff positive, Int.not_lt]

private theorem offsetLoc_eq_iff {ly : Layout} (positive : 0 < ly.lySize) (l : Loc) {i j : Int} :
    (offsetLoc l ly i).2 = (offsetLoc l ly j).2 ↔ i = j := by
  rw [Int.le_antisymm_iff, offsetLoc_le_iff positive, offsetLoc_le_iff positive,
    ← Int.le_antisymm_iff]

/-! ## Which pointers are compared -/

/-- Pointers that compare different from the null pointer. -/
def NonNull (st : HeapState) (l : Loc) : Prop :=
  l.1 = .provFnPtr ∨ heapStateLocInBounds l 0 st

/-- The comparison of two pointers is defined, with its outcome. -/
inductive LocCompares (st : HeapState) : Loc → Loc → Bool → Prop where
  | nulls : LocCompares st nullLoc nullLoc true
  | nullLeft {l2 : Loc} : NonNull st l2 → LocCompares st nullLoc l2 false
  | nullRight {l1 : Loc} : NonNull st l1 → LocCompares st l1 nullLoc false
  | fnPtrs (a1 a2 : Int) :
      LocCompares st (.provFnPtr, a1) (.provFnPtr, a2) (decide (a1 = a2))
  | valid {l1 l2 : Loc} : validPtr l1 st → validPtr l2 st →
      LocCompares st l1 l2 (decide (l1.2 = l2.2))

section

variable {st : HeapState} {l l1 l2 l3 : Loc} {e e' : Bool}

private theorem not_nonNull_nullLoc : ¬ NonNull st nullLoc := by
  rintro (isFn | ⟨aid, al, isAlloc, -⟩)
  · nomatch isFn
  · nomatch isAlloc

private theorem not_validPtr_nullLoc : ¬ validPtr nullLoc st :=
  fun valid => not_nonNull_nullLoc (.inr valid.2)

private theorem heapLocEq_null_left (nonNull : NonNull st l) :
    heapLocEq nullLoc l st = some false := by
  have differs : l ≠ nullLoc := by
    rintro rfl
    exact not_nonNull_nullLoc nonNull
  rcases nonNull with isFn | inBounds
  · simp [heapLocEq, differs, isFn]
  · by_cases isFn : l.1 = .provFnPtr <;> simp [heapLocEq, differs, isFn, inBounds]

private theorem heapLocEq_symm (l1 l2 : Loc) (st : HeapState) :
    heapLocEq l1 l2 st = heapLocEq l2 l1 st := by
  unfold heapLocEq
  by_cases null1 : l1 = nullLoc <;> by_cases null2 : l2 = nullLoc <;>
    by_cases fn1 : l1.1 = .provFnPtr <;> by_cases fn2 : l2.1 = .provFnPtr <;>
    by_cases valid1 : validPtr l1 st <;> by_cases valid2 : validPtr l2 st <;>
    simp [null1, null2, fn1, fn2, valid1, valid2, eq_comm]

private theorem heapLocEq_eq_some : heapLocEq l1 l2 st = some e ↔ LocCompares st l1 l2 e := by
  constructor
  · intro compared
    unfold heapLocEq at compared
    split_ifs at compared with nulls nullFn null1 inBounds null2 inBounds fns valid1 valid2 <;>
      cases compared
    · obtain ⟨rfl, rfl⟩ := nulls
      exact .nulls
    · rcases nullFn with ⟨rfl, isFn⟩ | ⟨isFn, rfl⟩
      · exact .nullLeft (.inl isFn)
      · exact .nullRight (.inl isFn)
    · cases null1
      exact .nullLeft (.inr inBounds)
    · cases null2
      exact .nullRight (.inr inBounds)
    · obtain ⟨p1, a1⟩ := l1
      obtain ⟨p2, a2⟩ := l2
      obtain ⟨rfl, rfl⟩ := fns
      exact .fnPtrs a1 a2
    · exact .valid valid1 valid2
  · intro compares
    cases compares with
    | nulls => simp [heapLocEq]
    | nullLeft nonNull => exact heapLocEq_null_left nonNull
    | nullRight nonNull =>
        rw [heapLocEq_symm]
        exact heapLocEq_null_left nonNull
    | fnPtrs a1 a2 => simp [heapLocEq, nullLoc]
    | valid valid1 valid2 =>
        have notNull1 : l1 ≠ nullLoc := fun isNull => not_validPtr_nullLoc (isNull ▸ valid1)
        have notNull2 : l2 ≠ nullLoc := fun isNull => not_validPtr_nullLoc (isNull ▸ valid2)
        have notFn : l1.1 ≠ .provFnPtr := by
          obtain ⟨⟨aid, isAlloc, -⟩, -⟩ := valid1
          rw [isAlloc]
          exact Prov.noConfusion
        simp [heapLocEq, notNull1, notNull2, notFn, valid1, valid2]

/-- Pointers are equal when they are the same, or valid with the same address. -/
theorem heapLocEq_eq_true :
    heapLocEq l1 l2 st = some true ↔ l1 = l2 ∧ (l1 = nullLoc ∨ l1.1 = .provFnPtr) ∨
      validPtr l1 st ∧ validPtr l2 st ∧ l1.2 = l2.2 := by
  rw [heapLocEq_eq_some]
  constructor
  · intro compares
    generalize isTrue : true = e at compares
    cases compares with
    | nullLeft _ | nullRight _ => nomatch isTrue
    | nulls => exact .inl ⟨rfl, .inl rfl⟩
    | fnPtrs a1 a2 =>
        cases of_decide_eq_true isTrue.symm
        exact .inl ⟨rfl, .inr rfl⟩
    | valid valid1 valid2 => exact .inr ⟨valid1, valid2, of_decide_eq_true isTrue.symm⟩
  · rintro (⟨rfl, rfl | isFn⟩ | ⟨valid1, valid2, same⟩)
    · exact .nulls
    · obtain ⟨p, a⟩ := l1
      cases isFn
      have compares : LocCompares st (.provFnPtr, a) (.provFnPtr, a) (decide (a = a)) := .fnPtrs a a
      simpa using compares
    · simpa [same] using LocCompares.valid valid1 valid2

private theorem heapLocEq_trans (left : heapLocEq l1 l2 st = some true)
    (right : heapLocEq l2 l3 st = some true) : heapLocEq l1 l3 st = some true := by
  rw [heapLocEq_eq_true] at left right ⊢
  rcases left with ⟨rfl, kind⟩ | ⟨valid1, valid2, same⟩
  · exact right
  · rcases right with ⟨rfl, kind⟩ | ⟨-, valid3, same'⟩
    · exact .inr ⟨valid1, valid2, same⟩
    · exact .inr ⟨valid1, valid3, same.trans same'⟩

/-- What is not null has a nonzero address, if it can be cast. -/
theorem address_ne_zero {σ : State} {v : Val} (noFn : σ.stFntbl 0 = none)
    (nonNull : NonNull σ.stHeap l)
    (cast : EvalUnOp (.castOp (.intOp sizeT)) .ptrOp σ (valOfLoc l) v) : l.2 ≠ 0 := by
  intro isZero
  rcases nonNull with isFn | ⟨aid, al, -, -, ⟨lowest, -⟩, low, -⟩
  · cases cast with
    | castOpPI source isAlloc _ _ =>
        cases (valToLoc_valOfLoc l).symm.trans source
        nomatch isFn.symm.trans isAlloc
    | castOpPIFn source _ _ defined =>
        cases (valToLoc_valOfLoc l).symm.trans source
        rw [isZero, noFn] at defined
        nomatch defined
    | castOpPINull source isNull _ =>
        cases (valToLoc_valOfLoc l).symm.trans source
        rw [isNull] at isFn
        nomatch isFn
  · rw [isZero] at low
    simp only [minAllocStart] at lowest
    omega

/-- Where two pointers can be compared and cast, they are equal if and only if the integers
are. -/
theorem heapLocEq_casts {σ : State} {v1 v2 : Val} (noFn : σ.stFntbl 0 = none)
    (compared : heapLocEq l1 l2 σ.stHeap = some e)
    (cast1 : EvalUnOp (.castOp (.intOp sizeT)) .ptrOp σ (valOfLoc l1) v1)
    (cast2 : EvalUnOp (.castOp (.intOp sizeT)) .ptrOp σ (valOfLoc l2) v2) :
    e = true ↔ valToZ v1 sizeT = valToZ v2 sizeT := by
  rw [(cast_ptr_int cast1).1, (cast_ptr_int cast2).1, Option.some.injEq]
  cases heapLocEq_eq_some.mp compared with
  | nulls => simp
  | nullLeft nonNull => simpa [nullLoc] using (address_ne_zero noFn nonNull cast2).symm
  | nullRight nonNull => simpa [nullLoc] using address_ne_zero noFn nonNull cast1
  | fnPtrs a1 a2 => simp
  | valid _ _ => simp

end

/-! ## Operators on two pointers into one allocation -/

/-- What `ptrDiffOp`, `ptrOffsetOp` and the comparisons do on the pointers `i` and `j` elements
after `l`. -/
structure PtrArithmetic (σ : State) (ly : Layout) (l : Loc) (i j : Int) (v1 v2 : Val) : Prop where
  diffDefined :
    (∃ v, EvalBinOp (.ptrDiffOp ly) .ptrOp .ptrOp σ v1 v2 v) ↔ IntType.InRange (i - j) ssizeT
  diff : ∀ v, EvalBinOp (.ptrDiffOp ly) .ptrOp .ptrOp σ v1 v2 v →
      valToZ v ssizeT = some (i - j)
  /-- The second pointer and the difference give the first. -/
  offset : ∀ it v w, valToZ v it = some (i - j) →
    (EvalBinOp (.ptrOffsetOp ly) (.intOp it) .ptrOp σ v v2 w ↔ w = valOfLoc (offsetLoc l ly i))
  /-- The comparisons are those of `i` and `j`, and always defined. -/
  compare : ∀ op b rit, relResult op i j = some (b, rit) →
    ∃ v, valOfZ (boolToZ b) rit none = some v ∧
      ∀ w, EvalBinOp op .ptrOp .ptrOp σ v1 v2 w ↔ w = v

section

variable {σ : State} {ly : Layout} {l : Loc} {i j : Int} {v1 v2 : Val}

private theorem ptrDiff_iff (positive : 0 < ly.lySize)
    (left : valToLoc v1 = some (offsetLoc l ly i)) (right : valToLoc v2 = some (offsetLoc l ly j))
    (leftValid : validPtr (offsetLoc l ly i) σ.stHeap)
    (rightValid : validPtr (offsetLoc l ly j) σ.stHeap) (v : Val) :
    EvalBinOp (.ptrDiffOp ly) .ptrOp .ptrOp σ v1 v2 v ↔ valOfZ (i - j) ssizeT none = some v := by
  have quotient : ((offsetLoc l ly i).2 - (offsetLoc l ly j).2) / ly.lySize = i - j := by
    rw [offsetLoc_sub, Int.mul_ediv_cancel_left _ (by omega)]
  constructor
  · intro eval
    cases eval with
    | ptrDiffOpPP left' right' _ _ _ _ result =>
        cases left.symm.trans left'
        cases right.symm.trans right'
        rwa [quotient] at result
    | cmpOpPP _ _ _ outcome _ => nomatch outcome
    | relOpPP _ _ _ _ _ _ outcome _ => nomatch outcome
  · intro result
    exact .ptrDiffOpPP left right rfl positive leftValid rightValid (quotient ▸ result)

theorem ptrOffset_iff {it : IntType} {v w : Val} {o : Int} (offset : valToZ v it = some o)
    (pointer : valToLoc v2 = some l) :
    EvalBinOp (.ptrOffsetOp ly) (.intOp it) .ptrOp σ v v2 w ↔
      heapStateLocInBounds (offsetLoc l ly o) 0 σ.stHeap ∧ w = valOfLoc (offsetLoc l ly o) := by
  constructor
  · intro eval
    cases eval with
    | ptrOffsetOpIP offset' pointer' inBounds =>
        cases offset.symm.trans offset'
        cases pointer.symm.trans pointer'
        exact ⟨inBounds, rfl⟩
  · rintro ⟨inBounds, rfl⟩
    exact .ptrOffsetOpIP offset pointer inBounds

/-- Going back by `k` elements is going on by `-k` elements. -/
theorem ptrNegOffset_iff {it : IntType} {v v' w : Val} {k : Int} (offset : valToZ v it = some k)
    (negated : valToZ v' it = some (-k)) :
    EvalBinOp (.ptrNegOffsetOp ly) (.intOp it) .ptrOp σ v v2 w ↔
      EvalBinOp (.ptrOffsetOp ly) (.intOp it) .ptrOp σ v' v2 w := by
  constructor
  · intro eval
    cases eval with
    | ptrNegOffsetOpIP offset' pointer inBounds =>
        cases offset.symm.trans offset'
        exact .ptrOffsetOpIP negated pointer inBounds
  · intro eval
    cases eval with
    | ptrOffsetOpIP negated' pointer inBounds =>
        cases negated.symm.trans negated'
        exact .ptrNegOffsetOpIP offset pointer inBounds

private theorem boolToZ_inRange (b : Bool) (it : IntType) : IntType.InRange (boolToZ b) it := by
  have small : 0 ≤ boolToZ b ∧ boolToZ b ≤ 1 := by cases b <;> decide
  have positive := it.intHalfModulus_pos
  cases signed : it.itSigned with
  | true =>
      -- a signed type has a bit besides the sign
      have wide : 1 < it.intHalfModulus := by
        have bits : 2 ≤ it.bitsPerInt := Nat.mul_le_mul it.bytesPerInt_pos (by decide : 2 ≤ 8)
        exact one_lt_pow₀ (by decide) (by omega)
      exact (IntType.inRange_signed signed).mpr (by omega)
  | false =>
      have double := it.intModulus_eq_two_mul
      exact (IntType.inRange_unsigned signed).mpr (by omega)

/-- The rule for a comparison decides whether the addresses or the outcome of `heapLocEq` is
read, and either is the comparison of the offsets. -/
theorem ptrCompare_iff (positive : 0 < ly.lySize) (left : valToLoc v1 = some (offsetLoc l ly i))
    (right : valToLoc v2 = some (offsetLoc l ly j))
    (leftValid : validPtr (offsetLoc l ly i) σ.stHeap)
    (rightValid : validPtr (offsetLoc l ly j) σ.stHeap) {op : BinOp} {b : Bool} {rit : IntType}
    (isResult : relResult op i j = some (b, rit)) (w : Val) :
    EvalBinOp op .ptrOp .ptrOp σ v1 v2 w ↔ valOfZ (boolToZ b) rit none = some w := by
  have compared : heapLocEq (offsetLoc l ly i) (offsetLoc l ly j) σ.stHeap =
      some (decide (i = j)) := by
    rw [← decide_eq_decide.mpr (offsetLoc_eq_iff positive l), heapLocEq_eq_some]
    exact .valid leftValid rightValid
  have outcomes : ∀ b' rit', (ptrEqResult op (decide (i = j)) = some (b', rit') ∨
      ptrRelResult op (offsetLoc l ly i).2 (offsetLoc l ly j).2 = some (b', rit')) ↔
        relResult op i j = some (b', rit') := by
    intro b' rit'
    cases op <;> simp [ptrEqResult, ptrRelResult, relResult, offsetLoc_lt_iff positive,
      offsetLoc_le_iff positive]
  constructor
  · intro eval
    cases eval with
    | ptrDiffOpPP _ _ _ _ _ _ _ => cases isResult
    | commaOp => cases isResult
    | cmpOpPP left' right' compared' outcome result =>
        cases left.symm.trans left'
        cases right.symm.trans right'
        cases compared.symm.trans compared'
        cases isResult.symm.trans ((outcomes _ _).mp (.inl outcome))
        exact result
    | relOpPP left' right' leftLoc rightLoc _ _ outcome result =>
        cases left.symm.trans left'
        cases right.symm.trans right'
        rw [leftLoc, rightLoc] at outcomes
        cases isResult.symm.trans ((outcomes _ _).mp (.inr outcome))
        exact result
  · intro result
    obtain ⟨⟨aid, isAlloc, -⟩, -⟩ := id leftValid
    rcases (outcomes b rit).mpr isResult with outcome | outcome
    · exact .cmpOpPP left right compared outcome result
    · have leftLoc : offsetLoc l ly i = (.provAlloc (some aid), (offsetLoc l ly i).2) :=
        Prod.ext isAlloc rfl
      have rightLoc : offsetLoc l ly j = (.provAlloc (some aid), (offsetLoc l ly j).2) :=
        Prod.ext isAlloc rfl
      exact .relOpPP left right leftLoc rightLoc leftValid rightValid outcome result

private theorem ptrArithmetic (positive : 0 < ly.lySize)
    (left : valToLoc v1 = some (offsetLoc l ly i)) (right : valToLoc v2 = some (offsetLoc l ly j))
    (leftValid : validPtr (offsetLoc l ly i) σ.stHeap)
    (rightValid : validPtr (offsetLoc l ly j) σ.stHeap) : PtrArithmetic σ ly l i j v1 v2 where
  diffDefined := by
    simp only [ptrDiff_iff positive left right leftValid rightValid]
    rw [← Option.isSome_iff_exists]
    exact valOfZ_isSome_iff
  diff v eval :=
    (valOfZ_decodes ((ptrDiff_iff positive left right leftValid rightValid v).mp eval)).2.1
  offset it v w difference := by
    rw [ptrOffset_iff difference right, offsetLoc_offsetLoc, add_sub_cancel]
    exact and_iff_right leftValid.2
  compare op b rit isResult := by
    have encoded := valOfZ_eq (boolToZ_inRange b rit) none
    refine ⟨_, encoded, fun w => ?_⟩
    rw [ptrCompare_iff positive left right leftValid rightValid isResult, encoded,
      Option.some.injEq, eq_comm]

end

/-! ## The laws together -/

structure PointersCoherent (σ : State) : Prop where
  arithmetic : ∀ ly l i j v1 v2, 0 < ly.lySize → valToLoc v1 = some (offsetLoc l ly i) →
    valToLoc v2 = some (offsetLoc l ly j) → validPtr (offsetLoc l ly i) σ.stHeap →
    validPtr (offsetLoc l ly j) σ.stHeap → PtrArithmetic σ ly l i j v1 v2
  negOffset : ∀ ly it k v v' pointer w, valToZ v it = some k → valToZ v' it = some (-k) →
    (EvalBinOp (.ptrNegOffsetOp ly) (.intOp it) .ptrOp σ v pointer w ↔
      EvalBinOp (.ptrOffsetOp ly) (.intOp it) .ptrOp σ v' pointer w)
  symmetric : ∀ l1 l2, heapLocEq l1 l2 σ.stHeap = heapLocEq l2 l1 σ.stHeap
  transitive : ∀ l1 l2 l3, heapLocEq l1 l2 σ.stHeap = some true →
    heapLocEq l2 l3 σ.stHeap = some true → heapLocEq l1 l3 σ.stHeap = some true
  casts : σ.stFntbl 0 = none → ∀ l1 l2 e v1 v2, heapLocEq l1 l2 σ.stHeap = some e →
    EvalUnOp (.castOp (.intOp sizeT)) .ptrOp σ (valOfLoc l1) v1 →
    EvalUnOp (.castOp (.intOp sizeT)) .ptrOp σ (valOfLoc l2) v2 →
    (e = true ↔ valToZ v1 sizeT = valToZ v2 sizeT)

/-- Pointer arithmetic and comparison are coherent, in every state. -/
theorem pointers_coherent (σ : State) : PointersCoherent σ where
  arithmetic _ _ _ _ _ _ := ptrArithmetic
  negOffset _ _ _ _ _ _ _ := ptrNegOffset_iff
  symmetric l1 l2 := heapLocEq_symm l1 l2 σ.stHeap
  transitive _ _ _ := heapLocEq_trans
  casts noFn _ _ _ _ _ := heapLocEq_casts noFn

/-- The bytes of a block and the address after it are one element apart. -/
theorem pointers_coherent_block :
    ∃ v, EvalBinOp (.ptrDiffOp u8.itLayout) .ptrOp .ptrOp (oneBlock 4096)
        (valOfLoc (.provAlloc (some 0), 4097)) (valOfLoc (.provAlloc (some 0), 4096)) v ∧
      valToZ v ssizeT = some 1 := by
  have arithmetic := (pointers_coherent (oneBlock 4096)).arithmetic u8.itLayout
    (.provAlloc (some 0), 4096) 1 0 _ _ (by decide) (valToLoc_valOfLoc _) (valToLoc_valOfLoc _)
    (by decide) (by decide)
  obtain ⟨v, eval⟩ := arithmetic.diffDefined.mpr (by decide)
  exact ⟨v, eval, arithmetic.diff v eval⟩

end RefinedC.Caesium
