import RefinedC.Caesium.Determinism
import RefinedC.Caesium.IntCodec
import RefinedC.Caesium.MemCastFixpoint
import RefinedC.Frontend.ExprSemantics

/-!
Encoding of C's integers by Caesium values.

Source: `EvalUnOp` and `EvalBinOp` rules of `theories/caesium/lang.v`, and
`pp_bin_op` of `frontend/coq_pp.ml`.

Owns: the bytes that encode an integer at an operation type, and that casts,
operators, constants and loads of Caesium compute the encoding of what C
computes, other than the remainders that C leaves undefined.
-/

namespace RefinedC.Frontend

open Library

/-- The bytes encode the integer at an operation type. -/
def Encodes : Coq.OpType → Int → Caesium.Val → Prop
  | .bool, n, v => ∃ b, Caesium.valToBool v = some b ∧ n = Caesium.boolToZ b
  | .int it, n, v => Caesium.valToZ v it.denote = some n
  | _, _, _ => False

/-- C gives a value with the property, or none because of a remainder. -/
def Yields {α : Type} (value : Except Undefined α) (holds : α → Prop) : Prop :=
  value = .error .remainder ∨ ∃ a, value = .ok a ∧ holds a

theorem Yields.ok {α : Type} {holds : α → Prop} {a : α} (result : holds a) :
    Yields (.ok a) holds := .inr ⟨a, rfl, result⟩

theorem Yields.bind {α β : Type} {value : Except Undefined α} {holds : α → Prop}
    {next : α → Except Undefined β} {holds' : β → Prop} (before : Yields value holds)
    (after : ∀ a, holds a → Yields (next a) holds') : Yields (value >>= next) holds' := by
  rcases before with rfl | ⟨a, rfl, result⟩
  · exact .inl rfl
  · exact after a result

theorem Yields.imp {α : Type} {value : Except Undefined α} {holds holds' : α → Prop}
    (before : Yields value holds) (weaker : ∀ a, holds a → holds' a) : Yields value holds' :=
  Or.imp id (fun ⟨a, isValue, result⟩ => ⟨a, isValue, weaker a result⟩) before

/-- What a cast makes of an integer. -/
def castValue : Coq.OpType → Int → Int
  | .bool, n => if n = 0 then 0 else 1
  | _, n => n

section

variable {env : CodeEnv} {source target ot : Coq.OpType} {n : Int} {v w : Caesium.Val}
  {σ : Caesium.State}

/-- A value of type `_Bool` is 0 or 1. -/
theorem Encodes.castValue_eq (encodes : Encodes ot n v) : castValue ot n = n := by
  cases ot with
  | bool =>
      obtain ⟨b, -, rfl⟩ := encodes
      cases b
      all_goals rfl
  | int it => rfl
  | ptr l => rfl
  | struct name ots => rfl
  | untyped l => rfl

private theorem valueAt_int {it : Coq.IntType} (inRange : Caesium.IntType.InRange n it.denote) :
    valueAt (some (.int it)) n = .ok n := by
  cases signed : it.denote.itSigned with
  | true => rw [valueAt, if_pos signed, if_pos inRange]
  | false =>
      have range := (Caesium.IntType.inRange_unsigned signed).mp inRange
      rw [valueAt, if_neg (by rw [signed]; decide), Int.emod_eq_of_lt range.1 range.2]

/-- An integer that is encoded at two types is converted from one to the other. -/
theorem Encodes.convert (before : Encodes source n w)
    (after : Encodes target (castValue target n) v) :
    convert (some source) (some target) n = .ok (castValue target n) := by
  rw [Frontend.convert]
  by_cases same : source = target
  · subst same
    rw [if_pos rfl, before.castValue_eq]
  · rw [if_neg (by simpa using same)]
    cases target with
    | bool => rfl
    | int it => exact valueAt_int (Caesium.valToZ_inRange after)
    | ptr l => cases after
    | struct name ots => cases after
    | untyped l => cases after

/-! ## Casts and conditions -/

private theorem encodes_valOfBool (b : Bool) :
    Encodes .bool (Caesium.boolToZ b) (Caesium.valOfBool b) := by
  refine ⟨b, ?_, rfl⟩
  cases b
  all_goals decide

theorem castToBool_encodes {c : Caesium.OpType} {st : Caesium.HeapState} {b : Bool}
    (encodes : Encodes ot n w) (isOp : denoteOpType env ot = .ok c)
    (outcome : Caesium.castToBool c w st = some b) : b = decide (n ≠ 0) := by
  cases ot with
  | bool =>
      cases isOp
      obtain ⟨b', isBool, rfl⟩ := encodes
      cases isBool.symm.trans outcome
      cases b
      all_goals rfl
  | int it =>
      cases isOp
      have isInt : Caesium.valToZ w it.denote = some n := encodes
      rw [Caesium.castToBool, isInt] at outcome
      exact (Option.some.inj outcome).symm
  | ptr l => cases encodes
  | struct name ots => cases encodes
  | untyped l => cases encodes

/-- A cast that evaluates encodes the converted integer. -/
theorem encodes_cast {c c' : Caesium.OpType} (before : Encodes source n w)
    (isSource : denoteOpType env source = .ok c) (isTarget : denoteOpType env target = .ok c')
    (scalar : isIntOrBool target = true) (eval : Caesium.EvalUnOp (.castOp c') c σ w v) :
    Encodes target (castValue target n) v := by
  cases target with
  | bool =>
      cases isTarget
      obtain ⟨b, outcome, rfl⟩ : ∃ b, Caesium.castToBool c w σ.stHeap = some b ∧
          v = Caesium.valOfBool b := by
        cases eval with
        | castOpB outcome => exact ⟨_, outcome, rfl⟩
      obtain rfl := castToBool_encodes before isSource outcome
      have isValue : castValue .bool n = Caesium.boolToZ (decide (n ≠ 0)) := by
        by_cases zero : n = 0
        · rw [castValue, if_pos zero, decide_eq_false (not_not.mpr zero)]
          rfl
        · rw [castValue, if_neg zero, decide_eq_true zero]
          rfl
      rw [isValue]
      exact encodes_valOfBool _
  | int it =>
      cases isTarget
      show Caesium.valToZ v it.denote = some n
      cases source with
      | bool =>
          cases isSource
          obtain ⟨b, isBool, rfl⟩ := before
          cases eval with
          | castOpBI isBool' result =>
              cases isBool.symm.trans isBool'
              exact (Caesium.valOfZ_decodes result).2.1
      | int it' =>
          cases isSource
          cases eval with
          | castOpII isInt result =>
              cases (show Caesium.valToZ w it'.denote = some n from before).symm.trans isInt
              exact (Caesium.valOfZ_decodes result).2.1
      | ptr l => cases before
      | struct name ots => cases before
      | untyped l => cases before
  | ptr l => cases scalar
  | struct name ots => cases scalar
  | untyped l => cases scalar

/-! ## Operators -/

/-- Operator of Caesium for arithmetic of integers. -/
def arithBinOp : ArithmeticOperator → Caesium.BinOp
  | .mul => .mulOp
  | .div => .divOp
  | .mod => .modOp
  | .add => .addOp
  | .sub => .subOp
  | .shl => .shlOp
  | .shr => .shrOp
  | .band => .andOp
  | .bxor => .xorOp
  | .bor => .orOp

theorem plainBinOp_arith (op : ArithmeticOperator) (ot1 ot2 : Caesium.OpType)
    (e1 e2 : Caesium.Expr) :
    plainBinOp ot1 ot2 e1 e2 (arithOp op) = .binOp (arithBinOp op) ot1 ot2 e1 e2 := by
  cases op
  all_goals rfl

/-- A quotient leaves a type only when the smallest number of a signed type is divided by -1. -/
theorem inRange_tdiv_iff {it : Caesium.IntType} {n1 n2 : Int}
    (inRange1 : Caesium.IntType.InRange n1 it) (inRange2 : Caesium.IntType.InRange n2 it)
    (nonzero : n2 ≠ 0) :
    Caesium.IntType.InRange (n1.tdiv n2) it ↔
      ¬ (it.itSigned = true ∧ n1 = it.minInt ∧ n2 = -1) := by
  have absolute : (n1.tdiv n2).natAbs = n1.natAbs / n2.natAbs := Int.natAbs_tdiv n1 n2
  have positive := it.intHalfModulus_pos
  cases signed : it.itSigned with
  | false =>
      rw [Caesium.IntType.inRange_unsigned signed] at inRange1 inRange2 ⊢
      have nonneg : 0 ≤ n1.tdiv n2 := Int.tdiv_nonneg inRange1.1 inRange2.1
      have smaller : n1.natAbs / n2.natAbs ≤ n1.natAbs := Nat.div_le_self _ _
      simp only [Bool.false_eq_true, false_and, not_false_eq_true, iff_true]
      omega
  | true =>
      have isMin : it.minInt = -it.intHalfModulus := by rw [Caesium.IntType.minInt, if_pos signed]
      rw [Caesium.IntType.inRange_signed signed] at inRange1 inRange2 ⊢
      rw [isMin]
      simp only [true_and]
      by_cases minusOne : n2 = -1
      · rw [minusOne, Int.tdiv_neg, Int.tdiv_one]
        omega
      · by_cases one : n2 = 1
        · rw [one, Int.tdiv_one]
          omega
        · have halved : n1.natAbs / n2.natAbs ≤ n1.natAbs / 2 :=
            Nat.div_le_div_left (by omega) (by decide)
          omega

/-- The remainders of two numbers of a type that C leaves undefined, other than those by zero. -/
theorem cArithmetic_mod_eq_error_iff {it : Caesium.IntType} {n1 n2 : Int}
    (inRange1 : Caesium.IntType.InRange n1 it) (inRange2 : Caesium.IntType.InRange n2 it) :
    cArithmetic it .mod n1 n2 = .error .remainder ↔
      it.itSigned = true ∧ n1 = it.minInt ∧ n2 = -1 := by
  rw [cArithmetic]
  by_cases zero : n2 = 0
  · rw [if_pos zero, zero]
    simp
  · rw [if_neg zero]
    have quotient := inRange_tdiv_iff inRange1 inRange2 zero
    split
    · rename_i inRange
      simpa using quotient.mp inRange
    · rename_i outside
      simpa using not_imp_not.mpr quotient.mpr outside

/-- The smallest `int` has a remainder by -1 in Caesium, and none in C. -/
example : Caesium.arithResult .modOp Caesium.i32 (-2147483648) (-1) = some 0 ∧
    cArithmetic Caesium.i32 .mod (-2147483648) (-1) = .error .remainder := by decide

/-- What Caesium computes is C's result, before it is brought into the type, unless C leaves
a remainder undefined. -/
theorem arithResult_arithBinOp {op : ArithmeticOperator} {it : Caesium.IntType} {n1 n2 n : Int}
    (result : Caesium.arithResult (arithBinOp op) it n1 n2 = some n) :
    Yields (cArithmetic it op n1 n2) (· = n) := by
  cases op with
  | mod =>
      simp only [arithBinOp, Caesium.arithResult, Option.ite_none_right_eq_some,
        Option.some.injEq] at result
      obtain ⟨nonzero, rfl⟩ := result
      rw [cArithmetic, if_neg nonzero]
      split
      · exact .ok rfl
      · exact .inl rfl
  | div =>
      simp only [arithBinOp, Caesium.arithResult, Option.ite_none_right_eq_some,
        Option.some.injEq] at result
      obtain ⟨nonzero, rfl⟩ := result
      rw [cArithmetic, if_neg nonzero]
      exact .ok rfl
  | shl | shr =>
      simp only [arithBinOp, Caesium.arithResult, Option.ite_none_right_eq_some,
        Option.some.injEq] at result
      obtain ⟨inWidth, rfl⟩ := result
      rw [cArithmetic, if_pos inWidth]
      exact .ok rfl
  | mul | add | sub | band | bxor | bor =>
      cases result
      exact .ok rfl

/-- The result of an operator in its type is the value at the type. -/
theorem valueAt_of_valOfZ {it : Coq.IntType}
    (result : Caesium.valOfZ (if it.denote.itSigned then n else n % it.denote.intModulus)
      it.denote none = some v) :
    ∃ m, valueAt (some (.int it)) n = .ok m ∧ Encodes (.int it) m v := by
  have decoded := (Caesium.valOfZ_decodes result).2.1
  have inRange := Caesium.valToZ_inRange decoded
  refine ⟨_, ?_, decoded⟩
  cases signed : it.denote.itSigned with
  | true =>
      rw [signed, if_pos rfl] at inRange
      rw [valueAt, if_pos signed, if_pos inRange, if_pos rfl]
  | false => rw [valueAt, if_neg (by rw [signed]; decide), if_neg (by decide)]

theorem evalBinOp_arith {op : ArithmeticOperator} {it : Coq.IntType} {n1 n2 : Int}
    {w1 w2 : Caesium.Val} (left : Encodes (.int it) n1 w1) (right : Encodes (.int it) n2 w2)
    (eval : Caesium.EvalBinOp (arithBinOp op) (.intOp it.denote) (.intOp it.denote) σ w1 w2 v) :
    Yields (cArithmetic it.denote op n1 n2 >>= valueAt (some (.int it)))
      fun m => Encodes (.int it) m v := by
  generalize isOp : arithBinOp op = cop at eval
  cases eval with
  | arithOpII outcome left' right' result =>
      cases (show Caesium.valToZ w1 it.denote = some n1 from left).symm.trans left'
      cases (show Caesium.valToZ w2 it.denote = some n2 from right).symm.trans right'
      subst isOp
      refine (arithResult_arithBinOp outcome).bind ?_
      rintro n rfl
      exact .inr (valueAt_of_valOfZ result)
  | relOpII outcome =>
      subst isOp
      cases op
      all_goals cases outcome
  | commaOp =>
      cases op
      all_goals cases isOp

/-- Operator of Caesium for the comparison of integers. -/
def comparisonBinOp : BinaryOperator → Option Caesium.BinOp
  | .lt => some (.ltOp Caesium.i32)
  | .gt => some (.gtOp Caesium.i32)
  | .le => some (.leOp Caesium.i32)
  | .ge => some (.geOp Caesium.i32)
  | .eq => some (.eqOp Caesium.i32)
  | .ne => some (.neOp Caesium.i32)
  | _ => none

theorem plainBinOp_comparison {op : BinaryOperator} {cop : Caesium.BinOp}
    (isOp : comparisonBinOp op = some cop) (ot1 ot2 : Caesium.OpType) (e1 e2 : Caesium.Expr) :
    plainBinOp ot1 ot2 e1 e2 (binOp op) = .binOp cop ot1 ot2 e1 e2 := by
  cases op
  all_goals cases isOp
  all_goals rfl

theorem evalBinOp_comparison {op : BinaryOperator} {cop : Caesium.BinOp} {it : Coq.IntType}
    {n1 n2 : Int} {w1 w2 : Caesium.Val} (isOp : comparisonBinOp op = some cop)
    (left : Encodes (.int it) n1 w1) (right : Encodes (.int it) n2 w2)
    (eval : Caesium.EvalBinOp cop (.intOp it.denote) (.intOp it.denote) σ w1 w2 v) :
    ∃ b, cComparison op n1 n2 = .ok b ∧
      Encodes (.int (.i32 true)) (Caesium.boolToZ b) v := by
  cases eval with
  | relOpII outcome left' right' result =>
      cases (show Caesium.valToZ w1 it.denote = some n1 from left).symm.trans left'
      cases (show Caesium.valToZ w2 it.denote = some n2 from right).symm.trans right'
      have decoded := (Caesium.valOfZ_decodes result).2.1
      cases op
      all_goals cases isOp
      all_goals
        cases outcome
        exact ⟨_, rfl, decoded⟩
  | arithOpII outcome =>
      cases op
      all_goals cases isOp
      all_goals cases outcome
  | commaOp =>
      cases op
      all_goals cases isOp

theorem evalUnOp_neg {it : Coq.IntType} (operand : Encodes (.int it) n w)
    (eval : Caesium.EvalUnOp .negOp (.intOp it.denote) σ w v) :
    valueAt (some (.int it)) (-n) = .ok (-n) ∧ Encodes (.int it) (-n) v := by
  cases eval with
  | negOpI isInt result =>
      cases (show Caesium.valToZ w it.denote = some n from operand).symm.trans isInt
      have decoded := (Caesium.valOfZ_decodes result).2.1
      exact ⟨valueAt_int (Caesium.valToZ_inRange decoded), decoded⟩

theorem evalUnOp_bnot {it : Coq.IntType} (operand : Encodes (.int it) n w)
    (eval : Caesium.EvalUnOp .notIntOp (.intOp it.denote) σ w v) :
    ∃ m, valueAt (some (.int it)) (Int.lnot n) = .ok m ∧ Encodes (.int it) m v := by
  cases eval with
  | notIntOpI isInt result =>
      cases (show Caesium.valToZ w it.denote = some n from operand).symm.trans isInt
      exact valueAt_of_valOfZ result

/-! ## Constants -/

private theorem readDigits_toString (n : Nat) : readDigits (toString n) = some n := by
  have chars : (toString n).toList = Nat.toDigits 10 n := by
    show (Nat.repr n).toList = _
    exact String.toList_ofList
  have digits : ∀ c ∈ Nat.toDigits 10 n, c.isDigit = true := fun c inside =>
    Nat.isDigit_of_mem_toDigits (by decide) (by decide) inside
  rw [readDigits, chars, if_pos ⟨Nat.toDigits_ne_nil, List.all_eq_true.mpr digits⟩]
  exact congrArg some Nat.ofDigitChars_ten_toDigits

/-- A printed constant is read back. -/
theorem readInteger_toString (nonneg : 0 ≤ n) : readInteger (toString n) = some n := by
  obtain ⟨m, rfl⟩ := Int.eq_ofNat_of_zero_le nonneg
  have same : toString (m : Int) = toString m := rfl
  rw [readInteger, same, readDigits_toString]

theorem readInteger_max (it : Coq.IntType) :
    readInteger ("(max_int " ++ it.pp ++ ")") = some it.denote.maxInt := by
  cases it with
  | ptrdiff => decide +kernel
  | size signed | intptr signed | i8 signed | i16 signed | i32 signed | i64 signed =>
      cases signed
      all_goals decide +kernel

theorem readInteger_min (it : Coq.IntType) :
    readInteger ("(min_int " ++ it.pp ++ ")") = some it.denote.minInt := by
  cases it with
  | ptrdiff => decide +kernel
  | size signed | intptr signed | i8 signed | i16 signed | i32 signed | i64 signed =>
      cases signed
      all_goals decide +kernel

theorem minInt_le_maxInt (it : Caesium.IntType) : it.minInt ≤ it.maxInt := by
  have half := it.intHalfModulus_pos
  have modulus := it.intModulus_pos
  unfold Caesium.IntType.minInt Caesium.IntType.maxInt
  split
  all_goals omega

theorem encodes_i2v {it : Coq.IntType} (inRange : Caesium.IntType.InRange n it.denote) :
    Encodes (.int it) n (Caesium.i2v n it.denote) := by
  have encoded := Caesium.valOfZ_eq inRange none
  rw [Caesium.i2v, encoded, Option.getD_some]
  exact (Caesium.valOfZ_decodes encoded).2.1

/-! ## Loads -/

private theorem valToBytes_of_valToZ {it : Caesium.IntType} (isInt : Caesium.valToZ v it = some n) :
    Caesium.valToBytes v = some v := by
  obtain ⟨-, bs, bytes, -⟩ := Caesium.valToZ_eq_some_iff.mp isInt
  clear isInt
  induction v generalizing bs with
  | nil => rfl
  | cons b v inductionHypothesis =>
      cases bs with
      | nil => cases bytes
      | cons b' bs =>
          rw [List.map_cons, List.map_cons, List.cons.injEq] at bytes
          have rest := inductionHypothesis bs bytes.2
          cases b with
          | mByte byte p =>
              unfold Caesium.valToBytes at rest ⊢
              rw [List.mapM_cons, rest]
              rfl
          | mPtrFrag l k => cases bytes.1
          | mPoison => cases bytes.1

/-- Memory casts keep encoded integers. -/
theorem encodes_memCast {c : Caesium.OpType} {fns : Int → Bool} {st : Caesium.HeapState}
    (encodes : Encodes ot n v) (isOp : denoteOpType env ot = .ok c) :
    Caesium.memCast v c fns st = v := by
  cases ot with
  | bool =>
      cases isOp
      obtain ⟨b, isBool, -⟩ := encodes
      rw [Caesium.memCast, isBool, Option.bind_some, Caesium.valToBool_bytes isBool,
        Option.getD_some]
  | int it =>
      cases isOp
      rw [Caesium.memCast, valToBytes_of_valToZ encodes, Option.getD_some]
  | ptr l => cases encodes
  | struct name ots => cases encodes
  | untyped l => cases encodes

end

end RefinedC.Frontend
