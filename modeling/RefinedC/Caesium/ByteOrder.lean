import RefinedC.Caesium.Lang

/-!
Byte order of pointers and integers.

Source: `theories/caesium/val.v` and `mem_cast` of `theories/caesium/heap.v`.

Owns: the integer bytes of a pointer that is loaded at an integer type, and the
exact set of addresses on which loading the pointer, casting it to `size_t` and
copying it through integer bytes agree.

`valOfLocN` stores fragment `n - 1` first and `mbyteToByte` gives fragment `k`
the byte of significance `k`, while `valToZGo` takes the first byte as the least
significant one. The two orders are opposite.
-/

namespace RefinedC.Caesium

open RefinedC.Library

/-! ## Integers as byte lists -/

/-- The byte of significance `i` of an address. -/
def byteAt (a : Int) (i : Nat) : Byte := Byte.ofInt (a / 2 ^ (8 * i))

/-- Value of a list of bytes, least significant byte first. -/
def zOfBytes : List Byte → Int
  | [] => 0
  | b :: bs => byteModulus * zOfBytes bs + b.byteVal

theorem two_pow_byte_succ (n : Nat) : (2 : Int) ^ (8 * (n + 1)) = byteModulus * 2 ^ (8 * n) := by
  rw [Nat.mul_add, pow_add, mul_comm]
  rfl

private theorem byteAt_succ (a : Int) (i : Nat) :
    byteAt a (i + 1) = byteAt (a / byteModulus) i := by
  unfold byteAt
  rw [two_pow_byte_succ, Int.ediv_mul_of_nonneg (by decide)]

private theorem map_byteAt_range_succ (a : Int) (n : Nat) :
    (List.range (n + 1)).map (byteAt a) =
      Byte.ofInt a :: (List.range n).map (byteAt (a / byteModulus)) := by
  rw [List.range_succ_eq_map, List.map_cons, List.map_map]
  congr 1
  · simp [byteAt]
  · apply List.map_congr_left
    intro i _
    exact byteAt_succ a i

theorem zOfBytes_byteAt (a : Int) (n : Nat) :
    zOfBytes ((List.range n).map (byteAt a)) = a % 2 ^ (8 * n) := by
  induction n generalizing a with
  | zero => exact (Int.emod_one a).symm
  | succ n inductionHypothesis =>
      rw [map_byteAt_range_succ, zOfBytes, inductionHypothesis, Byte.ofInt_byteVal,
        two_pow_byte_succ, Int.emod_def, Int.emod_def, Int.emod_def,
        Int.ediv_mul_of_nonneg (by decide)]
      ring

theorem zOfBytes_inj {xs ys : List Byte} (length : xs.length = ys.length)
    (equal : zOfBytes xs = zOfBytes ys) : xs = ys := by
  induction xs generalizing ys with
  | nil => exact (List.length_eq_zero_iff.mp length.symm).symm
  | cons x xs inductionHypothesis =>
      cases ys with
      | nil => simp at length
      | cons y ys =>
          simp only [zOfBytes, byteModulus] at equal
          have boundX := x.byteConstr
          have boundY := y.byteConstr
          simp only [byteModulus] at boundX boundY
          have sameByte : x = y := Byte.ext (by omega)
          have sameRest : xs = ys :=
            inductionHypothesis (by simpa using length) (by omega)
          rw [sameByte, sameRest]

private theorem valToZGo_bytes (bs : List Byte) (p : Option AllocId) :
    valToZGo (bs.map (Mbyte.mByte · p)) = some (zOfBytes bs) := by
  induction bs with
  | nil => rfl
  | cons b bs inductionHypothesis => simp [valToZGo, zOfBytes, inductionHypothesis]

private theorem valToZ_sizeT_bytes {bs : List Byte} (p : Option AllocId)
    (length : bs.length = bytesPerAddr) :
    valToZ (bs.map (Mbyte.mByte · p)) sizeT = some (zOfBytes bs) := by
  have size : (bs.map (Mbyte.mByte · p)).length = sizeT.bytesPerInt := by
    rw [List.length_map, length]
    rfl
  unfold valToZ
  rw [if_pos size, valToZGo_bytes]
  rfl

theorem valOfZGo_eq (a : Int) (n : Nat) (p : Option AllocId) :
    valOfZGo a n p = ((List.range n).map (byteAt a)).map (Mbyte.mByte · p) := by
  induction n generalizing a with
  | zero => rfl
  | succ n inductionHypothesis =>
      rw [valOfZGo, inductionHypothesis, map_byteAt_range_succ]
      rfl

/-! ## Pointers read as integers -/

private theorem valToBytes_map {α : Type} (xs : List α) (f : α → Mbyte)
    (g : α → Byte × Option AllocId) (byte : ∀ x, mbyteToByte (f x) = some (g x)) :
    valToBytes (xs.map f) = some (xs.map (fun x => .mByte (g x).1 (g x).2)) := by
  induction xs with
  | nil => rfl
  | cons x xs inductionHypothesis =>
      unfold valToBytes at inductionHypothesis ⊢
      simp [byte, inductionHypothesis]

/-- A pointer that is loaded at an integer type: its most significant byte
comes first. -/
theorem memCast_valOfLoc (p : Option AllocId) (a : Int) (it : IntType) (fns : Int → Bool)
    (st : HeapState) :
    memCast (valOfLoc (.provAlloc p, a)) (.intOp it) fns st =
      ((List.range bytesPerAddr).reverse.map (byteAt a)).map (Mbyte.mByte · p) := by
  have bytes := valToBytes_map (List.range bytesPerAddr).reverse
    (Mbyte.mPtrFrag (.provAlloc p, a)) (fun k => (byteAt a k, p)) (fun _ => rfl)
  rw [memCast, valOfLoc, valOfLocN, bytes, List.map_map]
  rfl

/-- The bytes of the address read the same in both directions. -/
def Palindromic (a : Int) : Prop :=
  ∀ i < bytesPerAddr, byteAt a i = byteAt a (bytesPerAddr - 1 - i)

instance (a : Int) : Decidable (Palindromic a) :=
  inferInstanceAs (Decidable (∀ i < bytesPerAddr, _))

private theorem reverse_bytes_iff {a : Int} {n : Nat} :
    (List.range n).reverse.map (byteAt a) = (List.range n).map (byteAt a) ↔
      ∀ i < n, byteAt a i = byteAt a (n - 1 - i) := by
  constructor
  · intro same i bound
    have here := congrArg (fun bs => bs[i]?) same
    simp only [List.getElem?_map, List.getElem?_reverse (show i < (List.range n).length by simpa),
      List.length_range, List.getElem?_range bound,
      List.getElem?_range (show n - 1 - i < n by omega), Option.map_some,
      Option.some.injEq] at here
    exact here.symm
  · intro same
    apply List.ext_getElem?
    intro i
    by_cases bound : i < n
    · simp only [List.getElem?_map,
        List.getElem?_reverse (show i < (List.range n).length by simpa), List.length_range,
          List.getElem?_range bound,
        List.getElem?_range (show n - 1 - i < n by omega), Option.map_some, same i bound]
    · have outside : n ≤ i := by omega
      simp [outside]

/-- The integer that is read from the bytes of a pointer. -/
theorem valToZ_memCast_iff {a : Int} (p : Option AllocId) (fns : Int → Bool) (st : HeapState)
    (low : 0 ≤ a) (high : a < 2 ^ 64) :
    valToZ (memCast (valOfLoc (.provAlloc p, a)) (.intOp sizeT) fns st) sizeT = some a ↔
      Palindromic a := by
  have forward : zOfBytes ((List.range bytesPerAddr).map (byteAt a)) = a := by
    rw [zOfBytes_byteAt]
    exact Int.emod_eq_of_lt low high
  rw [memCast_valOfLoc, valToZ_sizeT_bytes p (by simp), Option.some.injEq, Palindromic,
    ← reverse_bytes_iff]
  constructor
  · intro read
    exact zOfBytes_inj (by simp) (read.trans forward.symm)
  · intro same
    rw [same, forward]

/-- A pointer loaded as an integer, cast to an integer, and copied through
integer bytes: all three give its address. -/
structure ByteOrderAgrees (p : Option AllocId) (a : Int) (σ : State) : Prop where
  read : valToZ (memCast (valOfLoc (.provAlloc p, a)) (.intOp sizeT) σ.fnAddrs σ.stHeap) sizeT =
    some a
  cast : ∀ vt, EvalUnOp (.castOp (.intOp sizeT)) .ptrOp σ (valOfLoc (.provAlloc p, a)) vt →
    valToZ vt sizeT =
      valToZ (memCast (valOfLoc (.provAlloc p, a)) (.intOp sizeT) σ.fnAddrs σ.stHeap) sizeT
  copy : validPtr (.provAlloc p, a) σ.stHeap → σ.fnAddrs a = false →
    ∃ l, valToLoc (memCast
      (memCast (valOfLoc (.provAlloc p, a)) (.intOp sizeT) σ.fnAddrs σ.stHeap)
      .ptrOp σ.fnAddrs σ.stHeap) = some l ∧ l.2 = a

/-- Casting a pointer to `size_t` gives its address. -/
theorem valToZ_cast {p : Option AllocId} {a : Int} {σ : State} {vt : Val} (low : 0 ≤ a)
    (high : a < 2 ^ 64)
    (eval : EvalUnOp (.castOp (.intOp sizeT)) .ptrOp σ (valOfLoc (.provAlloc p, a)) vt) :
    valToZ vt sizeT = some a := by
  cases eval with
  | castOpPI source provenance result _ =>
      rw [valToLoc_valOfLoc] at source
      cases source
      cases provenance
      unfold valOfZ at result
      split at result
      · cases result
        rw [if_neg (by omega), valOfZGo_eq]
        rw [valToZ_sizeT_bytes p (by simp; rfl), zOfBytes_byteAt]
        exact congrArg some (Int.emod_eq_of_lt low high)
      · cases result
  | castOpPIFn source provenance _ _ =>
      rw [valToLoc_valOfLoc] at source
      cases source
      cases provenance
  | castOpPINull source isNull _ =>
      rw [valToLoc_valOfLoc] at source
      cases source
      cases isNull

private theorem valToBytes_bytes (bs : List Byte) (p : Option AllocId) :
    valToBytes (bs.map (Mbyte.mByte · p)) = some (bs.map (Mbyte.mByte · p)) :=
  valToBytes_map bs (Mbyte.mByte · p) (fun b => (b, p)) (fun _ => rfl)

/-- Integer bytes that hold a nonzero number are no representation of NULL. -/
theorem valToLoc_bytes {bs : List Byte} {p : Option AllocId} (nonzero : zOfBytes bs ≠ 0) :
    valToLoc (bs.map (Mbyte.mByte · p)) = none := by
  have notNull : bs.map (Mbyte.mByte · p) ≠ nullBytesN bytesPerAddr := by
    intro isNull
    have decoded := congrArg valToZGo isNull
    rw [valToZGo_bytes] at decoded
    have zero : valToZGo (nullBytesN bytesPerAddr) = some 0 := by decide
    rw [zero, Option.some.injEq] at decoded
    exact nonzero decoded
  cases bs with
  | nil => rfl
  | cons b bs =>
      simp only [valToLoc, valToLocN, List.map_cons] at notNull ⊢
      rw [if_neg notNull]

/-- Loading integer bytes at a pointer type keeps the number as the address. -/
theorem memCast_ptr_bytes (bs : List Byte) (p : Option AllocId) (fns : Int → Bool)
    (st : HeapState) (length : bs.length = bytesPerAddr) (nonzero : zOfBytes bs ≠ 0) :
    ∃ l, valToLoc (memCast (bs.map (Mbyte.mByte · p)) .ptrOp fns st) = some l ∧
      l.2 = zOfBytes bs := by
  rw [memCast, memCastPtr, valToLoc_bytes nonzero]
  simp only [valToBytes_bytes, valToZ_sizeT_bytes p length, Option.bind_eq_bind,
    Option.bind_some, if_neg nonzero]
  split
  · exact ⟨_, valToLoc_valOfLoc _, rfl⟩
  · split
    · exact ⟨_, valToLoc_valOfLoc _, rfl⟩
    · exact ⟨_, valToLoc_valOfLoc _, rfl⟩

/-- The byte orders agree exactly on the addresses whose bytes are the same in
both directions. -/
theorem byteOrder_agrees_iff (p : Option AllocId) (a : Int) (σ : State) (low : 0 ≤ a)
    (high : a < 2 ^ 64) : ByteOrderAgrees p a σ ↔ Palindromic a := by
  have read := valToZ_memCast_iff p σ.fnAddrs σ.stHeap low high
  constructor
  · intro agrees
    exact read.mp agrees.read
  · intro palindromic
    have number := read.mpr palindromic
    refine ⟨number, ?_, ?_⟩
    · intro vt eval
      rw [valToZ_cast low high eval, number]
    · intro valid _
      have positive := validPtr_address_pos valid
      rw [memCast_valOfLoc] at number ⊢
      rw [valToZ_sizeT_bytes p (by simp), Option.some.injEq] at number
      have copied := memCast_ptr_bytes ((List.range bytesPerAddr).reverse.map (byteAt a)) p
        σ.fnAddrs σ.stHeap (by simp) (by omega)
      rwa [number] at copied

/-- One live allocation from address `a` on. -/
def oneBlock (a : Int) : State :=
  ⟨⟨PartialMap.empty, PartialMap.empty.insert 0 ⟨a, 8, true, .heapAlloc⟩⟩,
    PartialMap.empty⟩

theorem byteOrder_agrees_ones :
    validPtr (.provAlloc (some 0), 0x0101010101010101) (oneBlock 0x0101010101010101).stHeap ∧
      ByteOrderAgrees (some 0) 0x0101010101010101 (oneBlock 0x0101010101010101) :=
  ⟨by decide, (byteOrder_agrees_iff _ _ _ (by decide) (by decide)).mpr (by decide)⟩

/-- The bytes of a valid pointer to address 4096 read as `2 ^ 52`. -/
theorem byteOrder_disagrees_4096 :
    validPtr (.provAlloc (some 0), 4096) (oneBlock 4096).stHeap ∧
      valToZ (memCast (valOfLoc (.provAlloc (some 0), 4096)) (.intOp sizeT)
        (oneBlock 4096).fnAddrs (oneBlock 4096).stHeap) sizeT = some (2 ^ 52) ∧
      ¬ ByteOrderAgrees (some 0) 4096 (oneBlock 4096) := by
  have read : valToZ (memCast (valOfLoc (.provAlloc (some 0), 4096)) (.intOp sizeT)
      (oneBlock 4096).fnAddrs (oneBlock 4096).stHeap) sizeT = some (2 ^ 52) := by
    rw [memCast_valOfLoc, valToZ_sizeT_bytes _ (by simp)]
    decide
  refine ⟨by decide, read, ?_⟩
  intro agrees
  have same := agrees.read
  rw [read] at same
  exact absurd same (by decide)

end RefinedC.Caesium
