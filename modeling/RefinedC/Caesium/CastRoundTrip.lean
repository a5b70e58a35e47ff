import RefinedC.Caesium.IntCodec
import RefinedC.Caesium.PointerCast

/-!
Casting a pointer to an integer and back.

Source: `theories/caesium/lang.v` (`CastOpII`, `CastOpPI`, `CastOpPIFn`, `CastOpPINull`,
`CastOpIP`).

Owns: chains of casts between integer types, what they carry along, and that the cast at the
end of a chain gives back the pointer from its beginning.
-/

namespace RefinedC.Caesium

open RefinedC.Library

/-- Casts between integer types, one after the other in the same state. -/
inductive IntCasts (σ : State) (it : IntType) (v : Val) : IntType → Val → Prop where
  | refl : IntCasts σ it v it v
  | step {it' it'' : IntType} {v' v'' : Val} : IntCasts σ it v it' v' →
      EvalUnOp (.castOp (.intOp it'')) (.intOp it') σ v' v'' → IntCasts σ it v it'' v''

/-- Pointers that survive a cast to an integer. -/
def CastableLoc (σ : State) (l : Loc) : Prop :=
  validPtr l σ.stHeap ∨ l = nullLoc ∨
    ∃ a, l = (.provFnPtr, a) ∧ (σ.stFntbl a).isSome ∧ a ≠ 0

section

variable {σ : State} {l : Loc} {it it' : IntType} {v v' : Val}

/-- The integer is the address, and its bytes have the provenance of the allocation. -/
theorem cast_ptr_int (cast : EvalUnOp (.castOp (.intOp it)) .ptrOp σ (valOfLoc l) v) :
    valToZ v it = some l.2 ∧ valToByteProv v = provAllocId l.1 := by
  cases cast with
  | castOpPI source provenance result _ =>
      rw [valToLoc_valOfLoc] at source
      cases source
      rw [provenance]
      exact (valOfZ_decodes result).2
  | castOpPIFn source provenance result _ =>
      rw [valToLoc_valOfLoc] at source
      cases source
      rw [provenance]
      exact (valOfZ_decodes result).2
  | castOpPINull source isNull result =>
      rw [valToLoc_valOfLoc] at source
      cases source
      rw [isNull]
      exact (valOfZ_decodes result).2

/-- A cast between integer types keeps the number and the provenance. -/
theorem cast_int_int {a : Int} {p : Option AllocId}
    (carried : valToZ v it = some a ∧ valToByteProv v = p)
    (cast : EvalUnOp (.castOp (.intOp it')) (.intOp it) σ v v') :
    valToZ v' it' = some a ∧ valToByteProv v' = p := by
  obtain ⟨number, rfl⟩ := carried
  cases cast with
  | castOpII source result =>
      cases number.symm.trans source
      exact (valOfZ_decodes result).2

theorem IntCasts.carries {a : Int} {p : Option AllocId} (casts : IntCasts σ it v it' v')
    (carried : valToZ v it = some a ∧ valToByteProv v = p) :
    valToZ v' it' = some a ∧ valToByteProv v' = p := by
  induction casts with
  | refl => exact carried
  | step _ cast inductionHypothesis => exact cast_int_int inductionHypothesis cast

/-- The rule for integers that are cast to pointers inverts the three rules for pointers. -/
theorem castIPLoc_castable (castable : CastableLoc σ l) :
    castIPLoc (provAllocId l.1) l.2 σ = l := by
  have noProvenance (a : Int) : ¬ validPtr (.provAlloc none, a) σ.stHeap := by
    rintro ⟨⟨aid, isSome, -⟩, -⟩
    nomatch isSome
  rcases castable with valid | rfl | ⟨a, rfl, isFn, nonzero⟩
  · obtain ⟨⟨aid, provenance, -⟩, -⟩ := id valid
    have isLoc : (Prov.provAlloc (provAllocId l.1), l.2) = l := by
      rw [provenance]
      exact Prod.ext provenance.symm rfl
    rw [castIPLoc, isLoc, if_pos valid]
  · exact (if_neg (noProvenance 0)).trans (if_pos rfl)
  · exact (if_neg (noProvenance a)).trans ((if_neg nonzero).trans (if_pos isFn))

/-- Casting a pointer to an integer, through any chain of integer types, and back gives the
pointer, and nothing else. -/
theorem cast_round_trip {w : Val} (castable : CastableLoc σ l)
    (cast : EvalUnOp (.castOp (.intOp it)) .ptrOp σ (valOfLoc l) v)
    (casts : IntCasts σ it v it' v') :
    EvalUnOp (.castOp .ptrOp) (.intOp it') σ v' w ↔ w = valOfLoc l := by
  obtain ⟨number, provenance⟩ := casts.carries (cast_ptr_int cast)
  rw [evalUnOp_castIP number, provenance, castIPLoc_castable castable]

end

/-- A pointer to address 4096 that goes through `size_t` and a signed 32-bit integer. -/
theorem cast_round_trip_4096 :
    ∃ v v', EvalUnOp (.castOp (.intOp sizeT)) .ptrOp (oneBlock 4096)
        (valOfLoc (.provAlloc (some 0), 4096)) v ∧ IntCasts (oneBlock 4096) sizeT v i32 v' ∧
      ∀ w, EvalUnOp (.castOp .ptrOp) (.intOp i32) (oneBlock 4096) v' w ↔
        w = valOfLoc (.provAlloc (some 0), 4096) := by
  have cast : EvalUnOp (.castOp (.intOp sizeT)) .ptrOp (oneBlock 4096)
      (valOfLoc (.provAlloc (some 0), 4096)) _ :=
    .castOpPI (valToLoc_valOfLoc _) rfl (valOfZ_eq (by decide) _) (by decide)
  obtain ⟨number, -⟩ := cast_ptr_int cast
  have narrow : EvalUnOp (.castOp (.intOp i32)) (.intOp sizeT) (oneBlock 4096) _ _ :=
    .castOpII number (valOfZ_eq (by decide) _)
  have casts := IntCasts.refl.step narrow
  exact ⟨_, _, cast, casts, fun w => cast_round_trip (.inl (by decide)) cast casts⟩

end RefinedC.Caesium
