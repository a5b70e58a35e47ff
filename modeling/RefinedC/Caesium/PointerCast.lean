import RefinedC.Caesium.Determinism

/-!
Loading integer bytes at a pointer type against the cast of the integer.

Source: `theories/caesium/heap.v` (`mem_cast` at `PtrOp`), `theories/caesium/lang.v`
(`CastOpIP`) and `theories/caesium/val.v` (provenance of bytes).

Owns: when the two agree. `mem_cast` takes the provenance of the first integer
byte that has one, the cast takes the provenance that all bytes share, where a
pointer fragment counts with the provenance of its pointer.
-/

namespace RefinedC.Caesium

open RefinedC.Library

/-! ## Provenance of bytes -/

/-- The provenance that a byte contributes to an integer. -/
def mbyteProv (b : Mbyte) : Option AllocId := (mbyteToByte b).bind Prod.snd

/-- The first integer byte of `v` that has a provenance has provenance `aid`. -/
def FirstProv (v : Val) (aid : AllocId) : Prop := (provsInBytes v).head? = some aid

/-- All bytes of `v` have provenance `aid`, pointer fragments included. -/
def AllProv (v : Val) (aid : AllocId) : Prop := ∀ b ∈ v, mbyteProv b = some aid

instance (v : Val) (aid : AllocId) : Decidable (FirstProv v aid) :=
  inferInstanceAs (Decidable (_ = _))

instance (v : Val) (aid : AllocId) : Decidable (AllProv v aid) :=
  inferInstanceAs (Decidable (∀ b ∈ v, _ = _))

theorem valToBytes_cons {b : Mbyte} {v v' : Val} (bytes : valToBytes (b :: v) = some v') :
    ∃ byte rest, mbyteToByte b = some byte ∧ valToBytes v = some rest ∧
      v' = .mByte byte.1 byte.2 :: rest := by
  cases first : mbyteToByte b with
  | none => simp [valToBytes, first] at bytes
  | some byte =>
      cases rest : valToBytes v with
      | none =>
          unfold valToBytes at bytes rest
          simp [first, rest] at bytes
      | some rest' =>
          unfold valToBytes at bytes rest
          simp only [List.mapM_cons, first, rest, Option.map_some, Option.bind_eq_bind,
            Option.bind_some, Option.pure_def, Option.some.injEq] at bytes
          exact ⟨byte, rest', rfl, rfl, bytes.symm⟩

/-- Converting to integer bytes keeps the provenance of every byte. -/
theorem allProv_valToBytes {v v' : Val} {aid : AllocId} (bytes : valToBytes v = some v') :
    AllProv v' aid ↔ AllProv v aid := by
  induction v generalizing v' with
  | nil =>
      cases bytes
      rfl
  | cons b v inductionHypothesis =>
      obtain ⟨byte, rest, first, restBytes, rfl⟩ := valToBytes_cons bytes
      have tail := inductionHypothesis restBytes
      have head : mbyteProv (.mByte byte.1 byte.2) = mbyteProv b := by
        simp only [mbyteProv, first]
        rfl
      unfold AllProv at tail ⊢
      rw [List.forall_mem_cons, List.forall_mem_cons, tail, head]

private theorem valToBytes_ints {v v' : Val} (bytes : valToBytes v = some v') :
    ∀ b ∈ v', ∃ byte p, b = .mByte byte p := by
  induction v generalizing v' with
  | nil =>
      cases bytes
      simp
  | cons b v inductionHypothesis =>
      obtain ⟨byte, rest, _, restBytes, rfl⟩ := valToBytes_cons bytes
      rw [List.forall_mem_cons]
      exact ⟨⟨_, _, rfl⟩, inductionHypothesis restBytes⟩

private theorem valToByteProv_eq_some {v : Val} {aid : AllocId} (nonempty : v ≠ [])
    (ints : ∀ b ∈ v, ∃ byte p, b = .mByte byte p) :
    valToByteProv v = some aid ↔ AllProv v aid := by
  cases v with
  | nil => exact absurd rfl nonempty
  | cons b rest =>
      obtain ⟨byte, p, rfl⟩ := ints b List.mem_cons_self
      cases p with
      | none => simp [valToByteProv, AllProv, mbyteProv, mbyteToByte]
      | some q =>
          have test {f : Mbyte → Bool}
              (isTest : ∀ byte p, f (.mByte byte p) = decide (some q = p)) :
              (∀ e ∈ Mbyte.mByte byte (some q) :: rest, f e = true) ↔
                AllProv (.mByte byte (some q) :: rest) q := by
            refine forall₂_congr fun e member => ?_
            obtain ⟨byte', p', rfl⟩ := ints e member
            rw [isTest, decide_eq_true_iff, eq_comm]
            rfl
          simp only [valToByteProv, Option.ite_none_right_eq_some, Option.some.injEq,
            List.all_eq_true]
          rw [test]
          · constructor
            · rintro ⟨all, rfl⟩
              exact all
            · intro all
              have same : q = aid := by
                have here := all _ List.mem_cons_self
                simpa [mbyteProv, mbyteToByte] using here
              subst same
              exact ⟨all, rfl⟩
          · -- the test of the source on an integer byte is a test of its provenance
            rintro byte' (_ | p') <;> simp

/-! ## The two conversions -/

/-- The location that `mem_cast` makes of an address that is neither null nor a
function. -/
theorem memCastPtr_of_address {v v' : Val} {a : Int} {fns : Int → Bool} {st : HeapState}
    (notLoc : valToLoc v = none) (bytes : valToBytes v = some v') (int : valToZ v' sizeT = some a) :
    memCast v .ptrOp fns st = valOfLoc
      (if a = 0 then nullLoc
       else if fns a then (.provFnPtr, a)
       else if validPtr (.provAlloc (provsInBytes v).head?, a) st then
         (.provAlloc (provsInBytes v).head?, a)
       else (.provAlloc none, a)) := by
  rw [memCast, memCastPtr, notLoc]
  simp only [bytes, int, Option.bind_eq_bind, Option.bind_some]
  split_ifs with zero
  · rw [zero]
    rfl
  all_goals rfl

private theorem valOfLoc_inj {l l' : Loc} (equal : valOfLoc l = valOfLoc l') : l = l' := by
  have same := congrArg valToLoc equal
  rw [valToLoc_valOfLoc, valToLoc_valOfLoc] at same
  exact Option.some.inj same

/-- Two candidate provenances give the same pointer if and only if they agree on
every allocation of which the address is a valid pointer. -/
theorem provenance_agrees {p q : Option AllocId} {a : Int} {st : HeapState} :
    (if validPtr (.provAlloc p, a) st then ((.provAlloc p, a) : Loc) else (.provAlloc none, a)) =
        (if validPtr (.provAlloc q, a) st then (.provAlloc q, a) else (.provAlloc none, a)) ↔
      ∀ aid, validPtr (.provAlloc (some aid), a) st → (p = some aid ↔ q = some aid) := by
  have isSome {r : Option AllocId} (valid : validPtr (.provAlloc r, a) st) :
      ∃ aid, r = some aid := by
    obtain ⟨⟨aid, provenance, _⟩, _⟩ := valid
    exact ⟨aid, by cases provenance; rfl⟩
  constructor
  · intro equal aid valid
    constructor
    · rintro rfl
      rw [if_pos valid] at equal
      split_ifs at equal <;> simp_all
    · rintro rfl
      rw [if_pos valid] at equal
      split_ifs at equal <;> simp_all
  · intro agree
    by_cases validP : validPtr (.provAlloc p, a) st
    · obtain ⟨aid, rfl⟩ := isSome validP
      rw [(agree aid validP).mp rfl]
    · by_cases validQ : validPtr (.provAlloc q, a) st
      · obtain ⟨aid, rfl⟩ := isSome validQ
        rw [(agree aid validQ).mpr rfl]
      · rw [if_neg validP, if_neg validQ]

/-- The value of an integer-to-pointer cast. -/
theorem evalUnOp_castIP {σ : State} {v w : Val} {it : IntType} {a : Int}
    (int : valToZ v it = some a) :
    EvalUnOp (.castOp .ptrOp) (.intOp it) σ v w ↔
      w = valOfLoc (castIPLoc (valToByteProv v) a σ) := by
  constructor
  · intro eval
    exact evalUnOp_functional eval (.castOpIP int)
  · rintro rfl
    exact .castOpIP int

/-- Loading integer bytes at a pointer type gives the value of the cast of the
integer if and only if, for every allocation of which the address is a valid
pointer, it is the first provenance among the integer bytes exactly when all
bytes have it. -/
theorem memCast_ptr_castOp {v v' : Val} {a : Int} {σ : State} (notLoc : valToLoc v = none)
    (bytes : valToBytes v = some v') (int : valToZ v' sizeT = some a)
    (separate : ∀ f aid, (σ.stFntbl f).isSome →
      ¬ validPtr (.provAlloc (some aid), f) σ.stHeap) :
    EvalUnOp (.castOp .ptrOp) (.intOp sizeT) σ v' (memCast v .ptrOp σ.fnAddrs σ.stHeap) ↔
      ∀ aid, validPtr (.provAlloc (some aid), a) σ.stHeap →
      (FirstProv v aid ↔ AllProv v aid) := by
  rw [evalUnOp_castIP int, memCastPtr_of_address notLoc bytes int]
  have shared : ∀ aid, valToByteProv v' = some aid ↔ AllProv v aid := by
    intro aid
    have nonempty : v' ≠ [] := by
      rintro rfl
      cases int
    rw [valToByteProv_eq_some nonempty (valToBytes_ints bytes), allProv_valToBytes bytes]
  by_cases isNull : a = 0
  · -- address 0 is never valid, so both sides give the null pointer
    subst isNull
    have invalid : ∀ p, ¬ validPtr (.provAlloc p, 0) σ.stHeap := by
      intro p valid
      exact absurd (validPtr_address_pos valid) (Int.lt_irrefl 0)
    simp [castIPLoc, invalid]
  · by_cases isFn : (σ.stFntbl a).isSome
    · have invalid : ∀ p, ¬ validPtr (.provAlloc p, a) σ.stHeap := by
        intro p valid
        obtain ⟨⟨aid, provenance, _⟩, _⟩ := id valid
        cases provenance
        exact separate a aid isFn valid
      simp [castIPLoc, invalid, isNull, isFn, State.fnAddrs]
    · have cast : castIPLoc (valToByteProv v') a σ =
          if validPtr (.provAlloc (valToByteProv v'), a) σ.stHeap then
            (.provAlloc (valToByteProv v'), a) else (.provAlloc none, a) := by
        simp [castIPLoc, isNull, isFn]
      rw [cast, if_neg isNull, if_neg (by simpa [State.fnAddrs] using isFn)]
      constructor
      · intro equal aid valid
        have agree := provenance_agrees.mp (valOfLoc_inj equal) aid valid
        rw [shared aid] at agree
        exact agree
      · intro agree
        refine congrArg valOfLoc (provenance_agrees.mpr ?_)
        intro aid valid
        rw [shared aid]
        exact agree aid valid

/-! ## An integer with one byte of provenance -/

/-- Eight bytes of the address 16; only the first carries the provenance of
allocation 1. -/
def mixedBytes : Val :=
  .mByte (Byte.ofInt 16) (some 1) :: List.replicate 7 (.mByte byte0 none)

/-- The same address with the provenance on every byte. -/
def sharedBytes : Val :=
  .mByte (Byte.ofInt 16) (some 1) :: List.replicate 7 (.mByte byte0 (some 1))

/-- One alive allocation at address 16 and no functions. -/
def sixteen : State :=
  ⟨⟨PartialMap.empty, PartialMap.empty.insert 1 ⟨16, 4, true, .heapAlloc⟩⟩,
    PartialMap.empty⟩

private theorem sixteen_separate : ∀ f aid, (sixteen.stFntbl f).isSome →
    ¬ validPtr (.provAlloc (some aid), f) sixteen.stHeap := by
  intro f aid isFn
  cases isFn

/-- The load keeps a pointer into the allocation, the cast loses it. -/
theorem memCast_ptr_mixedBytes :
    ¬ ∀ (v v' : Val) (a : Int) (σ : State), valToLoc v = none → valToBytes v = some v' →
      valToZ v' sizeT = some a →
      (∀ f aid, (σ.stFntbl f).isSome → ¬ validPtr (.provAlloc (some aid), f) σ.stHeap) →
      EvalUnOp (.castOp .ptrOp) (.intOp sizeT) σ v' (memCast v .ptrOp σ.fnAddrs σ.stHeap) := by
  intro agrees
  have int : valToZ mixedBytes sizeT = some 16 := by decide
  have eval := agrees mixedBytes mixedBytes 16 sixteen (by decide) (by decide) int sixteen_separate
  rw [evalUnOp_castIP int] at eval
  revert eval
  decide

theorem memCast_ptr_castOp_sharedBytes :
    (∀ aid, validPtr (.provAlloc (some aid), 16) sixteen.stHeap →
        (FirstProv sharedBytes aid ↔ AllProv sharedBytes aid)) ∧
      EvalUnOp (.castOp .ptrOp) (.intOp sizeT) sixteen sharedBytes
        (memCast sharedBytes .ptrOp sixteen.fnAddrs sixteen.stHeap) := by
  have agree : ∀ aid, validPtr (.provAlloc (some aid), 16) sixteen.stHeap →
      (FirstProv sharedBytes aid ↔ AllProv sharedBytes aid) := by
    intro aid _
    simp [FirstProv, AllProv, sharedBytes, provsInBytes, mbyteProv, mbyteToByte]
  exact ⟨agree,
    (memCast_ptr_castOp (by decide) (by decide) (by decide) sixteen_separate).mpr agree⟩

end RefinedC.Caesium
