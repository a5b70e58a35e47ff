import RefinedC.Caesium.ByteOrder

/-!
Encoding and decoding of integers.

Source: `theories/caesium/val.v` (`val_to_Z`, `val_of_Z`, `val_to_byte_prov`) and
`theories/caesium/int_type.v`.

Owns: the bytes of an encoded integer, the number that a list of bytes stands for in two's
complement, and that encoding and decoding are inverse to each other.

The encoding of `z` is described by the residues of `z / 256 ^ i`, whatever the sign of `z`:
adding the modulus does not change them.
-/

namespace RefinedC.Caesium

open RefinedC.Library

/-! ## Ranges -/

namespace IntType

theorem bytesPerInt_pos (it : IntType) : 0 < it.bytesPerInt := Nat.two_pow_pos _

private theorem bitsPerInt_pos (it : IntType) : 0 < it.bitsPerInt :=
  Nat.mul_pos it.bytesPerInt_pos (by decide)

theorem intModulus_eq (it : IntType) : it.intModulus = 2 ^ (8 * it.bytesPerInt) := by
  rw [intModulus, bitsPerInt, Nat.mul_comm]
  rfl

theorem intHalfModulus_pos (it : IntType) : 0 < it.intHalfModulus := Int.pow_pos (by decide)

theorem intModulus_eq_two_mul (it : IntType) : it.intModulus = 2 * it.intHalfModulus := by
  obtain ⟨n, isSucc⟩ := Nat.exists_eq_add_one.mpr it.bitsPerInt_pos
  rw [intModulus, intHalfModulus, isSucc, Nat.add_sub_cancel, pow_succ, mul_comm]

theorem intModulus_pos (it : IntType) : 0 < it.intModulus := Int.pow_pos (by decide)

theorem inRange_signed {it : IntType} (signed : it.itSigned = true) {z : Int} :
    InRange z it ↔ -it.intHalfModulus ≤ z ∧ z < it.intHalfModulus := by
  simp only [InRange, minInt, maxInt, signed, if_true]
  omega

theorem inRange_unsigned {it : IntType} (unsigned : it.itSigned = false) {z : Int} :
    InRange z it ↔ 0 ≤ z ∧ z < it.intModulus := by
  simp only [InRange, minInt, maxInt, unsigned, Bool.false_eq_true, if_false]
  omega

end IntType

/-! ## Bytes -/

/-- The byte of an integer byte. -/
def intByte : Mbyte → Option Byte
  | .mByte b _ => some b
  | _ => none

/-- The bytes of an integer, least significant byte first. -/
def bytesOfZ (z : Int) (n : Nat) : List Byte := (List.range n).map (byteAt z)

@[simp] theorem bytesOfZ_length (z : Int) (n : Nat) : (bytesOfZ z n).length = n := by
  simp [bytesOfZ]

private theorem zOfBytes_range (bs : List Byte) :
    0 ≤ zOfBytes bs ∧ zOfBytes bs < 2 ^ (8 * bs.length) := by
  induction bs with
  | nil => decide
  | cons b bs inductionHypothesis =>
      have bound := b.byteConstr
      rw [List.length_cons, two_pow_byte_succ, zOfBytes]
      simp only [byteModulus] at bound ⊢
      omega

theorem zOfBytes_bytesOfZ (z : Int) (n : Nat) : zOfBytes (bytesOfZ z n) = z % 2 ^ (8 * n) :=
  zOfBytes_byteAt z n

/-- Bytes are those of an integer if and only if they have its residue. -/
theorem eq_bytesOfZ_iff {bs : List Byte} {n : Nat} (length : bs.length = n) (z : Int) :
    bs = bytesOfZ z n ↔ zOfBytes bs = z % 2 ^ (8 * n) := by
  rw [← zOfBytes_bytesOfZ]
  constructor
  · exact fun same => congrArg zOfBytes same
  · exact fun same => zOfBytes_inj (length.trans (bytesOfZ_length z n).symm) same

private theorem map_intByte_mByte (bs : List Byte) (p : Option AllocId) :
    (bs.map (Mbyte.mByte · p)).map intByte = bs.map some := by
  rw [List.map_map]
  rfl

private theorem valToZGo_eq_some {v : Val} {z : Int} :
    valToZGo v = some z ↔
    ∃ bs : List Byte, v.map intByte = bs.map some ∧ zOfBytes bs = z := by
  induction v generalizing z with
  | nil =>
      constructor
      · rintro ⟨⟩
        exact ⟨[], rfl, rfl⟩
      · rintro ⟨bs, isMap, rfl⟩
        cases bs with
        | nil => rfl
        | cons b bs => nomatch isMap
  | cons m v inductionHypothesis =>
      cases m with
      | mByte b p =>
          constructor
          · intro run
            obtain ⟨rest, isRest, rfl⟩ := Option.map_eq_some_iff.mp run
            obtain ⟨bs, isMap, rfl⟩ := inductionHypothesis.mp isRest
            exact ⟨b :: bs, by rw [List.map_cons, isMap]; rfl, rfl⟩
          · rintro ⟨bs, isMap, rfl⟩
            cases bs with
            | nil => nomatch isMap
            | cons b' bs =>
                rw [List.map_cons, List.map_cons, List.cons.injEq] at isMap
                cases isMap.1
                exact Option.map_eq_some_iff.mpr
                  ⟨_, inductionHypothesis.mpr ⟨bs, isMap.2, rfl⟩, rfl⟩
      | mPtrFrag l n | mPoison =>
          constructor
          · intro run
            nomatch run
          · rintro ⟨bs, isMap, -⟩
            cases bs with
            | nil => nomatch isMap
            | cons b bs =>
                rw [List.map_cons, List.map_cons, List.cons.injEq] at isMap
                nomatch isMap.1

/-! ## Two's complement -/

/-- The number that bytes stand for. The most significant byte holds the sign. -/
def twosComplement (signed : Bool) (bs : List Byte) : Int :=
  if signed && bs.getLast?.any (fun b => decide (128 ≤ b.byteVal)) then
    zOfBytes bs - 2 ^ (8 * bs.length)
  else zOfBytes bs

/-- The sign is set from half of the modulus on. -/
theorem getLast_sign {bs : List Byte} (nonempty : bs ≠ []) :
    (bs.getLast?.any fun b => decide (128 ≤ b.byteVal)) = true ↔
      2 ^ (8 * bs.length - 1) ≤ zOfBytes bs := by
  induction bs with
  | nil => exact absurd rfl nonempty
  | cons b bs inductionHypothesis =>
      have bound := b.byteConstr
      simp only [byteModulus] at bound
      cases bs with
      | nil => simp [zOfBytes]
      | cons b' bs =>
          have length : 8 * (b :: b' :: bs).length - 1 = 8 * (b' :: bs).length - 1 + 8 := by
            simp only [List.length_cons]
            omega
          rw [List.getLast?_cons_cons, inductionHypothesis (List.cons_ne_nil _ _), length, pow_add]
          simp only [zOfBytes, byteModulus]
          omega

private theorem twosComplement_eq {it : IntType} {bs : List Byte}
    (length : bs.length = it.bytesPerInt) :
    twosComplement it.itSigned bs =
      if it.itSigned && decide (it.intHalfModulus ≤ zOfBytes bs) then zOfBytes bs - it.intModulus
      else zOfBytes bs := by
  have nonempty : bs ≠ [] := by
    rintro rfl
    exact absurd length.symm it.bytesPerInt_pos.ne'
  have modulus : (2 : Int) ^ (8 * bs.length) = it.intModulus := by rw [length, it.intModulus_eq]
  have half : (2 : Int) ^ (8 * bs.length - 1) = it.intHalfModulus := by
    rw [IntType.intHalfModulus, IntType.bitsPerInt, Nat.mul_comm, length]
    rfl
  have sign := getLast_sign nonempty
  rw [half] at sign
  rw [twosComplement, modulus]
  by_cases negative : it.intHalfModulus ≤ zOfBytes bs
  · rw [decide_eq_true negative, sign.mpr negative]
  · rw [decide_eq_false negative, Bool.eq_false_iff.mpr (sign.not.mpr negative)]

private theorem valToZ_eq_twosComplement {v : Val} {it : IntType} {bs : List Byte}
    (length : v.length = it.bytesPerInt) (bytes : v.map intByte = bs.map some) :
    valToZ v it = some (twosComplement it.itSigned bs) := by
  have lengths : bs.length = it.bytesPerInt := by
    have same := congrArg List.length bytes
    rw [List.length_map, List.length_map, length] at same
    exact same.symm
  rw [valToZ, if_pos length, valToZGo_eq_some.mpr ⟨bs, bytes, rfl⟩, Option.map_some,
    twosComplement_eq lengths]

/-- What a value decodes to. -/
theorem valToZ_eq_some_iff {v : Val} {it : IntType} {z : Int} :
    valToZ v it = some z ↔ v.length = it.bytesPerInt ∧
      ∃ bs : List Byte, v.map intByte = bs.map some ∧ twosComplement it.itSigned bs = z := by
  constructor
  · intro run
    by_cases length : v.length = it.bytesPerInt
    · refine ⟨length, ?_⟩
      have decoded := run
      rw [valToZ, if_pos length] at decoded
      obtain ⟨n, isN, -⟩ := Option.map_eq_some_iff.mp decoded
      obtain ⟨bs, bytes, -⟩ := valToZGo_eq_some.mp isN
      rw [valToZ_eq_twosComplement length bytes] at run
      exact ⟨bs, bytes, Option.some.inj run⟩
    · rw [valToZ, if_neg length] at run
      nomatch run
  · rintro ⟨length, bs, bytes, rfl⟩
    exact valToZ_eq_twosComplement length bytes

/-- The integers of a type are determined by their residue. -/
theorem twosComplement_eq_iff {it : IntType} {bs : List Byte}
    (length : bs.length = it.bytesPerInt) (z : Int) :
    twosComplement it.itSigned bs = z ↔
      IntType.InRange z it ∧ bs = bytesOfZ z it.bytesPerInt := by
  have range := zOfBytes_range bs
  rw [eq_bytesOfZ_iff length, ← it.intModulus_eq, twosComplement_eq length]
  rw [length, ← it.intModulus_eq] at range
  have double := it.intModulus_eq_two_mul
  have positive := it.intHalfModulus_pos
  cases sign : it.itSigned with
  | false =>
      rw [IntType.inRange_unsigned sign, Bool.false_and, if_neg Bool.false_ne_true]
      constructor
      · rintro rfl
        exact ⟨range, (Int.emod_eq_of_lt range.1 range.2).symm⟩
      · rintro ⟨inRange, residue⟩
        rw [residue, Int.emod_eq_of_lt inRange.1 inRange.2]
  | true =>
      rw [IntType.inRange_signed sign, Bool.true_and]
      by_cases negative : it.intHalfModulus ≤ zOfBytes bs
      · rw [if_pos (decide_eq_true negative)]
        constructor
        · rintro rfl
          refine ⟨by omega, ?_⟩
          rw [Int.sub_emod_right, Int.emod_eq_of_lt range.1 range.2]
        · rintro ⟨inRange, residue⟩
          -- a number that is not negative is its own residue
          by_cases below : z < 0
          · rw [← Int.add_emod_right, Int.emod_eq_of_lt (by omega) (by omega)] at residue
            omega
          · rw [Int.emod_eq_of_lt (by omega) (by omega)] at residue
            omega
      · rw [if_neg (by simpa using negative)]
        constructor
        · rintro rfl
          exact ⟨by omega, (Int.emod_eq_of_lt range.1 range.2).symm⟩
        · rintro ⟨inRange, residue⟩
          by_cases below : z < 0
          · rw [← Int.add_emod_right, Int.emod_eq_of_lt (by omega) (by omega)] at residue
            omega
          · rw [Int.emod_eq_of_lt (by omega) (by omega)] at residue
            omega

/-- A value decodes to the integer whose bytes it has. -/
theorem valToZ_eq_some_iff_bytes {v : Val} {it : IntType} {z : Int} :
    valToZ v it = some z ↔
      IntType.InRange z it ∧ v.map intByte = (bytesOfZ z it.bytesPerInt).map some := by
  rw [valToZ_eq_some_iff]
  constructor
  · rintro ⟨length, bs, bytes, number⟩
    have lengths : bs.length = it.bytesPerInt := by
      have same := congrArg List.length bytes
      rw [List.length_map, List.length_map, length] at same
      exact same.symm
    obtain ⟨inRange, rfl⟩ := (twosComplement_eq_iff lengths z).mp number
    exact ⟨inRange, bytes⟩
  · rintro ⟨inRange, bytes⟩
    have same := congrArg List.length bytes
    rw [List.length_map, List.length_map, bytesOfZ_length] at same
    exact ⟨same, _, bytes,
      (twosComplement_eq_iff (bytesOfZ_length _ _) z).mpr ⟨inRange, rfl⟩⟩

theorem valToZ_inRange {v : Val} {it : IntType} {z : Int} (run : valToZ v it = some z) :
    IntType.InRange z it :=
  (valToZ_eq_some_iff_bytes.mp run).1

/-! ## Encoding -/

/-- An integer is encoded by its bytes. -/
theorem valOfZ_eq {z : Int} {it : IntType} (inRange : IntType.InRange z it) (p : Option AllocId) :
    valOfZ z it p = some ((bytesOfZ z it.bytesPerInt).map (Mbyte.mByte · p)) := by
  have residue : (if z < 0 then z + it.intModulus else z) % 2 ^ (8 * it.bytesPerInt) =
      z % 2 ^ (8 * it.bytesPerInt) := by
    rw [← it.intModulus_eq]
    split
    · exact Int.add_emod_right z it.intModulus
    · rfl
  have bytes : bytesOfZ (if z < 0 then z + it.intModulus else z) it.bytesPerInt =
      bytesOfZ z it.bytesPerInt :=
    (eq_bytesOfZ_iff (bytesOfZ_length _ _) z).mpr ((zOfBytes_bytesOfZ _ _).trans residue)
  rw [valOfZ, if_pos inRange]
  simp only [valOfZGo_eq]
  rw [← bytes]
  rfl

theorem valOfZ_eq_some_iff {z : Int} {it : IntType} {p : Option AllocId} {v : Val} :
    valOfZ z it p = some v ↔
      IntType.InRange z it ∧ v = (bytesOfZ z it.bytesPerInt).map (Mbyte.mByte · p) := by
  by_cases inRange : IntType.InRange z it
  · rw [valOfZ_eq inRange, Option.some.injEq]
    exact ⟨fun same => ⟨inRange, same.symm⟩, fun same => same.2.symm⟩
  · rw [valOfZ, if_neg inRange]
    constructor
    · intro run
      nomatch run
    · exact fun encoded => absurd encoded.1 inRange

theorem valOfZ_isSome_iff {z : Int} {it : IntType} {p : Option AllocId} :
    (valOfZ z it p).isSome ↔ IntType.InRange z it := by
  rw [Option.isSome_iff_exists]
  constructor
  · rintro ⟨v, run⟩
    exact (valOfZ_eq_some_iff.mp run).1
  · exact fun inRange => ⟨_, valOfZ_eq inRange p⟩

private theorem valToByteProv_bytes {bs : List Byte} (nonempty : bs ≠ []) (p : Option AllocId) :
    valToByteProv (bs.map (Mbyte.mByte · p)) = p := by
  cases bs with
  | nil => exact absurd rfl nonempty
  | cons b bs =>
      cases p with
      | none => rfl
      | some aid => simp [valToByteProv, List.all_eq_true]

/-- Decoding gives back the encoded integer and its provenance. -/
theorem valOfZ_decodes {z : Int} {it : IntType} {p : Option AllocId} {v : Val}
    (run : valOfZ z it p = some v) :
    v.length = it.bytesPerInt ∧ valToZ v it = some z ∧ valToByteProv v = p := by
  obtain ⟨inRange, rfl⟩ := valOfZ_eq_some_iff.mp run
  refine ⟨by simp, valToZ_eq_some_iff_bytes.mpr ⟨inRange, map_intByte_mByte _ _⟩, ?_⟩
  refine valToByteProv_bytes (fun isEmpty => ?_) p
  have length := bytesOfZ_length z it.bytesPerInt
  rw [isEmpty] at length
  exact absurd length it.bytesPerInt_pos.ne

/-- Encoding and decoding are inverse. -/
theorem int_codec_inverse (it : IntType) :
    (∀ z p, (valOfZ z it p).isSome ↔ IntType.InRange z it) ∧
      (∀ z p v, valOfZ z it p = some v →
        v.length = it.bytesPerInt ∧ valToZ v it = some z ∧ valToByteProv v = p) ∧
      (∀ v z, valToZ v it = some z ↔ v.length = it.bytesPerInt ∧
        ∃ bs : List Byte, v.map intByte = bs.map some ∧ twosComplement it.itSigned bs = z) ∧
      ∀ v z, valToZ v it = some z → IntType.InRange z it ∧
        ∀ q, ∃ w, valOfZ z it q = some w ∧ w.map intByte = v.map intByte := by
  refine ⟨fun z p => valOfZ_isSome_iff, fun z p v => valOfZ_decodes,
    fun v z => valToZ_eq_some_iff, ?_⟩
  intro v z run
  obtain ⟨inRange, bytes⟩ := valToZ_eq_some_iff_bytes.mp run
  exact ⟨inRange,
    fun q => ⟨_, valOfZ_eq inRange q, (map_intByte_mByte _ _).trans bytes.symm⟩⟩

end RefinedC.Caesium
