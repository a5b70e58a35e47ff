import Mathlib.Data.List.Basic
import RefinedC.Library.IntBits
import RefinedC.Caesium.IntCodec

/-!
Integer operators.

Source: `theories/caesium/lang.v` (`ArithOpII`, `NotIntOpI`).

Owns: the mathematical results of the integer operators, when an operator evaluates, what
its result decodes to, and the bitwise operators as operations on bytes.

Does not own: comparisons of integers, which have rules of their own.
-/

namespace RefinedC.Caesium

open RefinedC.Library

/-! ## Results -/

/-- Result of an operator on unbounded integers. Quotient and remainder are truncated. -/
def mathResult (op : BinOp) (n1 n2 : Int) : Option Int :=
  match op with
  | .addOp => some (n1 + n2)
  | .subOp => some (n1 - n2)
  | .mulOp => some (n1 * n2)
  | .divOp => some (n1.tdiv n2)
  | .modOp => some (n1.tmod n2)
  | .andOp => some (Int.land n1 n2)
  | .orOp => some (Int.lor n1 n2)
  | .xorOp => some (Int.xor n1 n2)
  | .shlOp => some (n1 * 2 ^ n2.toNat)
  | .shrOp => some (n1 / 2 ^ n2.toNat)
  | _ => none

/-- What C asks of the operands. -/
def SideCondition (it : IntType) (op : BinOp) (n1 n2 : Int) : Prop :=
  match op with
  | .divOp | .modOp => n2 ≠ 0
  | .shlOp | .shrOp => (it.itSigned = true → 0 ≤ n1 ∧ 0 ≤ n2) ∧ n2 < it.bitsPerInt
  | _ => True

/-- Nothing is asked of the sign of unsigned operands, which have none. -/
theorem arithResult_eq_some {it : IntType} {op : BinOp} {n1 n2 n : Int}
    (range1 : IntType.InRange n1 it) (range2 : IntType.InRange n2 it)
    (isResult : mathResult op n1 n2 = some n) (m : Int) :
    arithResult op it n1 n2 = some m ↔ SideCondition it op n1 n2 ∧ m = n := by
  have shift : 0 ≤ n1 ∧ 0 ≤ n2 ∧ n2 < it.bitsPerInt ↔
      (it.itSigned = true → 0 ≤ n1 ∧ 0 ≤ n2) ∧ n2 < it.bitsPerInt := by
    cases signed : it.itSigned with
    | true => simp [and_assoc]
    | false =>
        have low1 := ((IntType.inRange_unsigned signed).mp range1).1
        have low2 := ((IntType.inRange_unsigned signed).mp range2).1
        simp [low1, low2]
  cases op with
  | divOp | modOp =>
      cases isResult
      rw [arithResult, Option.ite_none_right_eq_some, Option.some.injEq]
      exact and_congr_right fun _ => eq_comm
  | shlOp | shrOp =>
      cases isResult
      rw [arithResult, Option.ite_none_right_eq_some, shift, Option.some.injEq]
      exact and_congr_right fun _ => eq_comm
  | addOp | subOp | mulOp | andOp | orOp | xorOp =>
      cases isResult
      simp [arithResult, SideCondition, eq_comm]
  | eqOp _ | neOp _ | ltOp _ | gtOp _ | leOp _ | geOp _ | comma | ptrOffsetOp _
  | ptrNegOffsetOp _ | ptrDiffOp _ => nomatch isResult

section

variable {it : IntType} {op : BinOp} {σ : State} {v1 v2 v : Val} {n1 n2 n : Int}

/-- An operator evaluates to the encoding of its result. -/
theorem evalBinOp_arith_iff (left : valToZ v1 it = some n1) (right : valToZ v2 it = some n2)
    (isResult : mathResult op n1 n2 = some n) :
    EvalBinOp op (.intOp it) (.intOp it) σ v1 v2 v ↔ SideCondition it op n1 n2 ∧
      valOfZ (if it.itSigned then n else n % it.intModulus) it none = some v := by
  have results := arithResult_eq_some (valToZ_inRange left) (valToZ_inRange right) isResult
  constructor
  · intro eval
    cases eval with
    | arithOpII outcome left' right' encoded =>
        cases left.symm.trans left'
        cases right.symm.trans right'
        obtain ⟨side, rfl⟩ := (results _).mp outcome
        exact ⟨side, encoded⟩
    | relOpII outcome _ _ _ => cases op <;> simp [mathResult, relResult] at isResult outcome
    | commaOp => nomatch isResult
  · rintro ⟨side, encoded⟩
    exact .arithOpII ((results n).mpr ⟨side, rfl⟩) left right encoded

private theorem residue_inRange (unsigned : it.itSigned = false) (n : Int) :
    IntType.InRange (n % it.intModulus) it :=
  (IntType.inRange_unsigned unsigned).mpr ⟨Int.emod_nonneg n it.intModulus_pos.ne',
    Int.emod_lt_of_pos n it.intModulus_pos⟩

private theorem evalBinOp_unsigned (unsigned : it.itSigned = false) (left : valToZ v1 it = some n1)
    (right : valToZ v2 it = some n2) (isResult : mathResult op n1 n2 = some n) :
    (∃ v, EvalBinOp op (.intOp it) (.intOp it) σ v1 v2 v) ↔ SideCondition it op n1 n2 := by
  simp only [evalBinOp_arith_iff left right isResult, unsigned, Bool.false_eq_true, if_false]
  constructor
  · rintro ⟨v, side, -⟩
    exact side
  · exact fun side => ⟨_, side, valOfZ_eq (residue_inRange unsigned n) none⟩

private theorem evalBinOp_signed (signed : it.itSigned = true) (left : valToZ v1 it = some n1)
    (right : valToZ v2 it = some n2) (isResult : mathResult op n1 n2 = some n) :
    (∃ v, EvalBinOp op (.intOp it) (.intOp it) σ v1 v2 v) ↔
      SideCondition it op n1 n2 ∧ IntType.InRange n it := by
  simp only [evalBinOp_arith_iff left right isResult, signed, if_true]
  constructor
  · rintro ⟨v, side, encoded⟩
    exact ⟨side, (valOfZ_eq_some_iff.mp encoded).1⟩
  · exact fun both => ⟨_, both.1, valOfZ_eq both.2 none⟩

private theorem evalBinOp_decodes (left : valToZ v1 it = some n1) (right : valToZ v2 it = some n2)
    (isResult : mathResult op n1 n2 = some n)
    (eval : EvalBinOp op (.intOp it) (.intOp it) σ v1 v2 v) :
    valToZ v it = some (if it.itSigned then n else n % it.intModulus) :=
  (valOfZ_decodes ((evalBinOp_arith_iff left right isResult).mp eval).2).2.1

/-! ## Bitwise operators -/

/-- An operation on the numbers of two bytes. -/
def byteOp (op : Int → Int → Int) (b1 b2 : Byte) : Byte := .ofInt (op b1.byteVal b2.byteVal)

/-- The byte with all bits flipped. -/
def byteNot (b : Byte) : Byte := .ofInt (255 - b.byteVal)

private theorem byteAt_byteVal (z : Int) (i : Nat) :
    (byteAt z i).byteVal = z / 2 ^ (8 * i) % 2 ^ 8 := rfl

/-- Operations on every bit are operations on every byte. -/
theorem byteAt_bitwise {f : Bool → Bool → Bool} {g : Int → Int → Int}
    (bitwise : IsBitwise f g)
    (m n : Int) (i : Nat) : byteAt (g m n) i = byteOp g (byteAt m i) (byteAt n i) := by
  refine Byte.ext ?_
  have here := bitwise.emod_two_pow (m / 2 ^ (8 * i)) (n / 2 ^ (8 * i)) 8
  rw [byteAt_byteVal, bitwise.div_two_pow, here]
  rfl

private theorem bytesOfZ_bitwise {f : Bool → Bool → Bool} {g : Int → Int → Int}
    (bitwise : IsBitwise f g) (m n : Int) (k : Nat) :
    bytesOfZ (g m n) k = List.zipWith (byteOp g) (bytesOfZ m k) (bytesOfZ n k) := by
  rw [bytesOfZ, bytesOfZ, bytesOfZ, List.zipWith_map, List.zipWith_self]
  exact List.map_congr_left fun i _ => byteAt_bitwise bitwise m n i

private theorem lnot_eq (n : Int) : Int.lnot n = -n - 1 := by
  cases n with
  | ofNat n =>
      show Int.negSucc n = -(n : Int) - 1
      omega
  | negSucc n =>
      show (n : Int) = -Int.negSucc n - 1
      omega

private theorem byteOp_lnot (b : Byte) : byteOp (fun m _ => Int.lnot m) b b = byteNot b := by
  refine Byte.ext ?_
  simp only [byteOp, byteNot, Byte.ofInt_byteVal, lnot_eq, byteModulus]
  omega

/-- The bytes of an integer are those of its residue. -/
theorem bytesOfZ_residue (n : Int) : bytesOfZ (n % it.intModulus) it.bytesPerInt =
    bytesOfZ n it.bytesPerInt := by
  rw [eq_bytesOfZ_iff (bytesOfZ_length _ _), zOfBytes_bytesOfZ, ← it.intModulus_eq]
  exact Int.emod_emod_of_dvd n (dvd_refl _)

/-- The bytes of the result. -/
theorem encoded_bytes {z : Int} (encoded : valOfZ (if it.itSigned then z else z % it.intModulus)
    it none = some v) : v = (bytesOfZ z it.bytesPerInt).map (Mbyte.mByte · none) := by
  rw [(valOfZ_eq_some_iff.mp encoded).2]
  split
  · rfl
  · rw [bytesOfZ_residue]

private theorem bytes_of_valToZ {bs : List Byte} (run : valToZ v it = some n)
    (bytes : v.map intByte = bs.map some) : bs = bytesOfZ n it.bytesPerInt := by
  have same := bytes.symm.trans (valToZ_eq_some_iff_bytes.mp run).2
  exact List.map_injective_iff.mpr (Option.some_injective Byte) same

/-- The result of a bitwise operation on integers of a type is one as well. -/
theorem bitwise_inRange {f : Bool → Bool → Bool} {g : Int → Int → Int}
    (bitwise : IsBitwise f g) (range1 : IntType.InRange n1 it) (range2 : IntType.InRange n2 it) :
    IntType.InRange (if it.itSigned then g n1 n2 else g n1 n2 % it.intModulus) it := by
  cases signed : it.itSigned with
  | true =>
      rw [IntType.inRange_signed signed] at range1 range2 ⊢
      exact bitwise.signed_range range1 range2
  | false => exact residue_inRange signed _

/-- The operators that work on every bit. -/
def bitwiseOp : BinOp → Option (Int → Int → Int)
  | .andOp => some Int.land
  | .orOp => some Int.lor
  | .xorOp => some Int.xor
  | _ => none

private theorem bitwiseOp_cases {g : Int → Int → Int} (isBitwise : bitwiseOp op = some g) :
    (∃ f, IsBitwise f g) ∧ mathResult op n1 n2 = some (g n1 n2) ∧
      SideCondition it op n1 n2 := by
  cases op with
  | andOp =>
      cases isBitwise
      exact ⟨⟨_, isBitwise_land⟩, rfl, trivial⟩
  | orOp =>
      cases isBitwise
      exact ⟨⟨_, isBitwise_lor⟩, rfl, trivial⟩
  | xorOp =>
      cases isBitwise
      exact ⟨⟨_, isBitwise_xor⟩, rfl, trivial⟩
  | addOp | subOp | mulOp | divOp | modOp | shlOp | shrOp | eqOp _ | neOp _ | ltOp _ | gtOp _
  | leOp _ | geOp _ | comma | ptrOffsetOp _ | ptrNegOffsetOp _ | ptrDiffOp _ => nomatch isBitwise

/-- And, Or and Xor always evaluate, to the value that is computed byte by byte. -/
theorem evalBinOp_bitwise {g : Int → Int → Int} {bs1 bs2 : List Byte}
    (isBitwise : bitwiseOp op = some g) (left : valToZ v1 it = some n1)
    (right : valToZ v2 it = some n2) (bytes1 : v1.map intByte = bs1.map some)
    (bytes2 : v2.map intByte = bs2.map some) :
    EvalBinOp op (.intOp it) (.intOp it) σ v1 v2 v ↔
      v = (List.zipWith (byteOp g) bs1 bs2).map (Mbyte.mByte · none) := by
  obtain ⟨⟨f, bitwise⟩, isResult, side⟩ : (∃ f, IsBitwise f g) ∧
      mathResult op n1 n2 = some (g n1 n2) ∧ SideCondition it op n1 n2 :=
        bitwiseOp_cases isBitwise
  have inRange := bitwise_inRange bitwise (valToZ_inRange left) (valToZ_inRange right)
  rw [bytes_of_valToZ left bytes1, bytes_of_valToZ right bytes2, ← bytesOfZ_bitwise bitwise,
    evalBinOp_arith_iff left right isResult]
  constructor
  · exact fun both => encoded_bytes both.2
  · rintro rfl
    refine ⟨side, (valOfZ_eq inRange none).trans (congrArg some ?_)⟩
    exact encoded_bytes (valOfZ_eq inRange none)

private theorem notInt_bytes (operand : valToZ v1 it = some n1)
    (eval : EvalUnOp .notIntOp (.intOp it) σ v1 v) :
    v = (bytesOfZ (Int.lnot n1) it.bytesPerInt).map (Mbyte.mByte · none) := by
  cases eval with
  | notIntOpI source result =>
      cases operand.symm.trans source
      exact encoded_bytes result

/-- NotIntOp always evaluates, to the value with every byte flipped. -/
theorem evalUnOp_notInt {bs : List Byte} (operand : valToZ v1 it = some n1)
    (bytes : v1.map intByte = bs.map some) :
    EvalUnOp .notIntOp (.intOp it) σ v1 v ↔ v = (bs.map byteNot).map (Mbyte.mByte · none) := by
  have inRange := bitwise_inRange isBitwise_lnot (valToZ_inRange operand) (valToZ_inRange operand)
  have flipped : bytesOfZ (Int.lnot n1) it.bytesPerInt = bs.map byteNot := by
    rw [bytes_of_valToZ operand bytes, bytesOfZ_bitwise isBitwise_lnot n1 n1, List.zipWith_self]
    exact List.map_congr_left fun b _ => byteOp_lnot b
  rw [← flipped]
  constructor
  · exact notInt_bytes operand
  · rintro rfl
    refine .notIntOpI operand ((valOfZ_eq inRange none).trans (congrArg some ?_))
    exact encoded_bytes (valOfZ_eq inRange none)

/-! ## All operators -/

/-- A value of the length of the type whose bytes have no provenance. -/
def IsPlainInt (it : IntType) (v : Val) : Prop :=
  v.length = it.bytesPerInt ∧ ∀ b ∈ v, ∃ byte, b = Mbyte.mByte byte none

private theorem isPlainInt_bytes (z : Int) :
    IsPlainInt it ((bytesOfZ z it.bytesPerInt).map (Mbyte.mByte · none)) := by
  refine ⟨by simp, fun b inside => ?_⟩
  obtain ⟨byte, -, rfl⟩ := List.mem_map.mp inside
  exact ⟨byte, rfl⟩

/-- What the operators do on operands that decode to `n1` and `n2`. -/
structure IntOperatorsExact (it : IntType) (σ : State) (v1 v2 : Val) (n1 n2 : Int) : Prop where
  unsigned : it.itSigned = false → ∀ op n, mathResult op n1 n2 = some n →
    ((∃ v, EvalBinOp op (.intOp it) (.intOp it) σ v1 v2 v) ↔ SideCondition it op n1 n2) ∧
      ∀ v, EvalBinOp op (.intOp it) (.intOp it) σ v1 v2 v →
        valToZ v it = some (n % 2 ^ it.bitsPerInt)
  signed : it.itSigned = true → ∀ op n, mathResult op n1 n2 = some n →
    ((∃ v, EvalBinOp op (.intOp it) (.intOp it) σ v1 v2 v) ↔
        SideCondition it op n1 n2 ∧ IntType.InRange n it) ∧
      ∀ v, EvalBinOp op (.intOp it) (.intOp it) σ v1 v2 v → valToZ v it = some n
  truncated : n2 ≠ 0 → n1 = n1.tdiv n2 * n2 + n1.tmod n2 ∧
    (n1.tdiv n2 * n2).natAbs ≤ n1.natAbs ∧ (n1.tmod n2).natAbs < n2.natAbs
  complement : (∃ v, EvalUnOp .notIntOp (.intOp it) σ v1 v) ∧
    ∀ v, EvalUnOp .notIntOp (.intOp it) σ v1 v →
      valToZ v it = some (if it.itSigned then -n1 - 1 else 2 ^ it.bitsPerInt - 1 - n1)
  bytewise : ∀ bs1 bs2 : List Byte, v1.map intByte = bs1.map some →
      v2.map intByte = bs2.map some →
    (∀ op g, bitwiseOp op = some g → ∀ v, EvalBinOp op (.intOp it) (.intOp it) σ v1 v2 v ↔
      v = (List.zipWith (byteOp g) bs1 bs2).map (Mbyte.mByte · none)) ∧
    ∀ v, EvalUnOp .notIntOp (.intOp it) σ v1 v ↔
      v = (bs1.map byteNot).map (Mbyte.mByte · none)
  plain : ∀ v, (∃ op n, mathResult op n1 n2 = some n ∧
      EvalBinOp op (.intOp it) (.intOp it) σ v1 v2 v) ∨
        EvalUnOp .notIntOp (.intOp it) σ v1 v →
    IsPlainInt it v

private theorem truncated_division {n1 n2 : Int} (nonzero : n2 ≠ 0) :
    n1 = n1.tdiv n2 * n2 + n1.tmod n2 ∧ (n1.tdiv n2 * n2).natAbs ≤ n1.natAbs ∧
      (n1.tmod n2).natAbs < n2.natAbs := by
  refine ⟨(Int.tdiv_mul_add_tmod n1 n2).symm, ?_, ?_⟩
  · rw [Int.natAbs_mul, Int.natAbs_tdiv]
    exact Nat.div_mul_le_self _ _
  · rw [Int.natAbs_tmod]
    exact Nat.mod_lt _ (Int.natAbs_pos.mpr nonzero)

private theorem notInt_decodes (operand : valToZ v1 it = some n1)
    (eval : EvalUnOp .notIntOp (.intOp it) σ v1 v) :
    valToZ v it = some (if it.itSigned then -n1 - 1 else 2 ^ it.bitsPerInt - 1 - n1) := by
  cases eval with
  | notIntOpI source result =>
      cases operand.symm.trans source
      rw [(valOfZ_decodes result).2.1]
      cases signed : it.itSigned with
      | true => rw [if_pos rfl, if_pos rfl, lnot_eq]
      | false =>
          have range := (IntType.inRange_unsigned signed).mp (valToZ_inRange operand)
          rw [IntType.intModulus] at range
          rw [if_neg Bool.false_ne_true, if_neg Bool.false_ne_true, zLunot, lnot_eq,
            ← Int.add_emod_right, Int.emod_eq_of_lt (by omega) (by omega)]
          congr 1
          ring

/-- Integer operators are exact C arithmetic. -/
theorem int_operators_exact (σ : State) (left : valToZ v1 it = some n1)
    (right : valToZ v2 it = some n2) : IntOperatorsExact it σ v1 v2 n1 n2 where
  unsigned := by
    intro unsigned op n isResult
    refine ⟨evalBinOp_unsigned unsigned left right isResult, fun v eval => ?_⟩
    rw [evalBinOp_decodes left right isResult eval, unsigned]
    rfl
  signed := by
    intro signed op n isResult
    refine ⟨evalBinOp_signed signed left right isResult, fun v eval => ?_⟩
    rw [evalBinOp_decodes left right isResult eval, signed]
    rfl
  truncated := truncated_division
  complement := by
    refine ⟨?_, fun v => notInt_decodes left⟩
    obtain ⟨-, bs, bytes, -⟩ := valToZ_eq_some_iff.mp left
    exact ⟨_, (evalUnOp_notInt left bytes).mpr rfl⟩
  bytewise := fun bs1 bs2 bytes1 bytes2 =>
    ⟨fun op g isBitwise v => evalBinOp_bitwise isBitwise left right bytes1 bytes2,
      fun v => evalUnOp_notInt left bytes1⟩
  plain := by
    rintro v (⟨op, n, isResult, eval⟩ | eval)
    · rw [encoded_bytes ((evalBinOp_arith_iff left right isResult).mp eval).2]
      exact isPlainInt_bytes n
    · rw [notInt_bytes left eval]
      exact isPlainInt_bytes _

end

/-- `-7` and `2` at a signed byte. -/
theorem int_operators_exact_minusSeven : valToZ [.mByte (Byte.ofInt 249) none] i8 = some (-7) ∧
    valToZ [.mByte (Byte.ofInt 2) none] i8 = some 2 ∧
    ∀ σ, IntOperatorsExact i8 σ [.mByte (Byte.ofInt 249) none]
      [.mByte (Byte.ofInt 2) none] (-7) 2 :=
  ⟨by decide, by decide, fun σ => int_operators_exact σ (by decide) (by decide)⟩

end RefinedC.Caesium
