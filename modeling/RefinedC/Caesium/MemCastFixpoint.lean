import RefinedC.Caesium.PointerCast
import RefinedC.Library.Pieces

/-!
Loading a value that has been loaded.

Source: `mem_cast` of `theories/caesium/heap.v`, `pad_struct` of `theories/caesium/struct.v`.

Owns: `memCast` of a struct as a change of its pieces, the length of a loaded value, and that
a loaded value does not change when it is loaded again, in whatever state.
-/

namespace RefinedC.Caesium

open RefinedC.Library

/-! ## Integer bytes and poison -/

private theorem valToBytes_settled {v w : Val} (bytes : valToBytes v = some w) :
    w.length = v.length ∧ valToBytes w = some w := by
  induction v generalizing w with
  | nil =>
      cases bytes
      exact ⟨rfl, rfl⟩
  | cons b v inductionHypothesis =>
      obtain ⟨byte, rest, -, restBytes, rfl⟩ := valToBytes_cons bytes
      obtain ⟨length, settled⟩ := inductionHypothesis restBytes
      refine ⟨congrArg (· + 1) length, ?_⟩
      have first : mbyteToByte (.mByte byte.1 byte.2) = some byte := rfl
      unfold valToBytes at settled ⊢
      simp [first, settled]

private theorem valToBytes_poison (n : Nat) :
    (valToBytes (List.replicate n .mPoison)).getD (List.replicate n .mPoison) =
      List.replicate n .mPoison := by
  cases n with
  | zero => rfl
  | succ n => simp [valToBytes, List.replicate_succ, mbyteToByte]

private theorem valToLoc_poison (n : Nat) : valToLoc (List.replicate n .mPoison) = none := by
  cases n with
  | zero => rfl
  | succ n => rfl

theorem valToBool_bytes {v : Val} {b : Bool} (isBool : valToBool v = some b) :
    valToBytes v = some v := by
  unfold valToBool at isBool
  split at isBool
  · rfl
  · cases isBool

/-! ## Loading at one type -/

/-- `g` does not change what `f` returns, and neither changes the length. -/
structure CastSettles (f g : Val → Val) : Prop where
  lengthF : ∀ v, (f v).length = v.length
  lengthG : ∀ v, (g v).length = v.length
  settled : ∀ v, g (f v) = f v

section

variable {fns fns' : Int → Bool} {st st' : HeapState}

/-- Either all is poison, or the bytes are those of a location, or nothing has changed. -/
theorem memCastPtr_eq_some {v w : Val} (run : memCastPtr v fns st = some w) :
    w.length = v.length ∧ ∃ l, valToLoc w = some l := by
  unfold memCastPtr at run
  cases isLoc : valToLoc v with
  | some l =>
      rw [isLoc] at run
      cases run
      exact ⟨rfl, l, isLoc⟩
  | none =>
      simp only [isLoc, Option.bind_eq_bind, Option.bind_eq_some_iff] at run
      obtain ⟨bytes, isBytes, a, isInt, run⟩ := run
      have length : v.length = bytesPerAddr := by
        rw [← (valToBytes_settled isBytes).1]
        unfold valToZ at isInt
        split at isInt
        · assumption
        · cases isInt
      have isLoc' : ∃ l, w = valOfLoc l := by
        split_ifs at run <;> exact ⟨_, (Option.some.inj run).symm⟩
      obtain ⟨l, rfl⟩ := isLoc'
      exact ⟨(valOfLoc_length l).trans length.symm, l, valToLoc_valOfLoc l⟩

private theorem memCast_ptr_settles :
    CastSettles (memCast · .ptrOp fns st) (memCast · .ptrOp fns' st') := by
  have length (fns : Int → Bool) (st : HeapState) (v : Val) :
      (memCast v .ptrOp fns st).length = v.length := by
    rw [memCast]
    cases run : memCastPtr v fns st with
    | none => exact List.length_replicate
    | some w => exact (memCastPtr_eq_some run).1
  refine ⟨length fns st, length fns' st', fun v => ?_⟩
  simp only [memCast]
  cases run : memCastPtr v fns st with
  | none =>
      rw [Option.getD_none, List.length_replicate, memCastPtr, valToLoc_poison]
      cases length : v.length with
      | zero => rfl
      | succ n => rfl
  | some w =>
      obtain ⟨-, l, isLoc⟩ := memCastPtr_eq_some run
      rw [Option.getD_some, memCastPtr, isLoc, Option.getD_some]

/-- Integers and booleans: bytes that pass a test are integer bytes, and the others poison. -/
theorem memCast_bytes_settles {f : Val → Option Val}
    (bytes : ∀ v w, f v = some w → w.length = v.length ∧ f w = some w)
    (poison : ∀ n, (f (List.replicate n .mPoison)).getD (List.replicate n .mPoison) =
      List.replicate n .mPoison) :
    CastSettles (fun v => (f v).getD (List.replicate v.length .mPoison))
      (fun v => (f v).getD (List.replicate v.length .mPoison)) := by
  have length (v : Val) : ((f v).getD (List.replicate v.length .mPoison)).length = v.length := by
    cases isBytes : f v with
    | none => exact List.length_replicate
    | some w => exact (bytes v w isBytes).1
  refine ⟨length, length, fun v => ?_⟩
  cases isBytes : f v with
  | none =>
      rw [Option.getD_none, List.length_replicate]
      exact poison v.length
  | some w => rw [Option.getD_some, (bytes v w isBytes).2, Option.getD_some]

private theorem memCast_int_settles (it : IntType) :
    CastSettles (memCast · (.intOp it) fns st) (memCast · (.intOp it) fns' st') := by
  simp only [memCast]
  exact memCast_bytes_settles (fun _ _ => valToBytes_settled) valToBytes_poison

private theorem memCast_bool_settles :
    CastSettles (memCast · .boolOp fns st) (memCast · .boolOp fns' st') := by
  simp only [memCast]
  refine memCast_bytes_settles (fun v w bytes => ?_) fun n => ?_
  · obtain ⟨b, isBool, isBytes⟩ := Option.bind_eq_some_iff.mp bytes
    cases (valToBool_bytes isBool).symm.trans isBytes
    exact ⟨rfl, bytes⟩
  · cases isBool : valToBool (List.replicate n .mPoison) with
    | none => rfl
    | some b => exact valToBytes_poison n

end

/-! ## Structs -/

private theorem resize_eq_fit (n : Nat) (v : Val) : resize n v = fit .mPoison n v := rfl

private theorem zipWith_reshape (sizes : List Nat) (fs : List (Val → Val)) (v : Val) :
    (List.zipWith (fun f x => f x) fs (reshape sizes v)).flatten = mapPieces sizes fs v := by
  induction sizes generalizing fs v with
  | nil => cases fs <;> rfl
  | cons n sizes inductionHypothesis =>
      cases fs with
      | nil => rfl
      | cons f fs =>
          rw [reshape, List.zipWith_cons_cons, List.flatten_cons, inductionHypothesis, mapPieces]

/-- The change of each member and each padding of a struct. -/
def memberCasts (s : FieldList) (casts : List (Val → Val)) : List (Val → Val) :=
  padStruct s casts (fun ly _ => List.replicate ly.lySize .mPoison)

theorem memCast_struct (v : Val) (sl : StructLayout) (ots : List OpType) (fns : Int → Bool)
    (st : HeapState) :
    memCast v (.structOp sl ots) fns st =
      fit .mPoison v.length
        (mapPieces (fieldSizes sl.slMembers)
          (memberCasts sl.slMembers (memCasts ots fns st)) v) := by
  rw [memCast, zipWith_reshape, resize_eq_fit, memberCasts]

private theorem memberCasts_settle {casts casts' : List (Val → Val)}
    (settle : List.Forall₂ CastSettles casts casts') (s : FieldList) :
    PiecesSettle (fieldSizes s) (memberCasts s casts) (memberCasts s casts') := by
  have padding (ly : Layout) : PieceSettles ly.lySize
      (fun _ => List.replicate ly.lySize Mbyte.mPoison)
      (fun _ => List.replicate ly.lySize Mbyte.mPoison) :=
    .const List.length_replicate
  induction s generalizing casts casts' with
  | nil => exact .nil
  | cons field s inductionHypothesis =>
      obtain ⟨name, ly⟩ := field
      cases name with
      | none => exact .cons (padding ly) (inductionHypothesis settle)
      | some name =>
          cases settle with
          | nil => exact .cons (padding ly) (inductionHypothesis .nil)
          | cons first rest =>
              exact .cons (.of_length _ first.lengthF first.lengthG first.settled)
                (inductionHypothesis rest)

/-! ## Loading again -/

mutual

theorem memCast_settles (fns fns' : Int → Bool) (st st' : HeapState) :
    (ot : OpType) → CastSettles (memCast · ot fns st) (memCast · ot fns' st')
  | .ptrOp => memCast_ptr_settles
  | .intOp it => memCast_int_settles it
  | .boolOp => memCast_bool_settles
  | .untypedOp _ => by
      simp only [memCast]
      exact ⟨fun _ => rfl, fun _ => rfl, fun _ => rfl⟩
  | .structOp sl ots => by
      have members := memberCasts_settle (memCasts_settle fns fns' st st' ots) sl.slMembers
      simp only [memCast_struct]
      refine ⟨fun v => length_fit _ _ _, fun v => length_fit _ _ _, fun v => ?_⟩
      rw [length_fit]
      exact mapPieces_settled members v

private theorem memCasts_settle (fns fns' : Int → Bool) (st st' : HeapState) :
    (ots : List OpType) → List.Forall₂ CastSettles (memCasts ots fns st) (memCasts ots fns' st')
  | [] => by
      simp only [memCasts]
      exact .nil
  | ot :: ots => by
      simp only [memCasts]
      exact .cons (memCast_settles fns fns' st st' ot) (memCasts_settle fns fns' st st' ots)

end

/-- Loading gives a value of the same length, and loading that again, in whatever state, does
not change it. -/
theorem mem_cast_fixpoint (v : Val) (ot : OpType) (fns fns' : Int → Bool) (st st' : HeapState) :
    memCast (memCast v ot fns st) ot fns' st' = memCast v ot fns st ∧
      (memCast v ot fns st).length = v.length :=
  have settles := memCast_settles fns fns' st st' ot
  ⟨settles.settled v, settles.lengthF v⟩

end RefinedC.Caesium
