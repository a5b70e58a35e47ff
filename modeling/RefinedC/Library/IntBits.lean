import Mathlib.Data.Int.Bitwise
import Mathlib.Algebra.Order.Ring.Int
import Mathlib.Tactic.Common
import Mathlib.Tactic.Ring

/-!
Bits of integers.

Owns: the bits of quotients, multiples and remainders by powers of two, that integers with
the same bits are equal, the ranges of integers in terms of bits, and operations that work
on every bit by itself.

An integer has infinitely many bits: those of a negative integer end in ones.
-/

namespace RefinedC.Library

/-! ## Bits of a single integer -/

private theorem testBit_zero (n : Int) : n.testBit 0 = decide (n % 2 = 1) := by
  have decomposed := Int.bodd_add_div2 n
  conv_lhs => rw [← Int.bit_decomp n]
  rw [Int.testBit_bit_zero]
  cases odd : n.bodd with
  | false =>
      rw [odd] at decomposed
      simp only [cond_false] at decomposed
      exact (decide_eq_false (by omega)).symm
  | true =>
      rw [odd] at decomposed
      simp only [cond_true] at decomposed
      exact (decide_eq_true (by omega)).symm

private theorem testBit_succ (n : Int) (i : Nat) : n.testBit (i + 1) = (n / 2).testBit i := by
  conv_lhs => rw [← Int.bit_decomp n]
  rw [Int.testBit_bit_succ, Int.div2_val]

private theorem div_two_pow_succ (n : Int) (k : Nat) : n / 2 ^ (k + 1) = n / 2 / 2 ^ k := by
  rw [Int.ediv_ediv_of_nonneg (by decide), pow_succ, mul_comm]

theorem testBit_div_two_pow (n : Int) (k i : Nat) : (n / 2 ^ k).testBit i = n.testBit (k + i) := by
  induction k generalizing n with
  | zero => simp
  | succ k inductionHypothesis =>
      rw [div_two_pow_succ, inductionHypothesis, Nat.add_right_comm, testBit_succ]

theorem testBit_mul_two_pow (n : Int) (k i : Nat) :
    (n * 2 ^ k).testBit i = (decide (k ≤ i) && n.testBit (i - k)) := by
  induction k generalizing i with
  | zero => simp
  | succ k inductionHypothesis =>
      have double : n * 2 ^ (k + 1) = 2 * (n * 2 ^ k) := by ring
      cases i with
      | zero =>
          rw [testBit_zero, double]
          simp
      | succ i =>
          rw [testBit_succ, double, Int.mul_ediv_cancel_left _ (by decide), inductionHypothesis]
          simp

theorem testBit_emod_two_pow (n : Int) (k i : Nat) :
    (n % 2 ^ k).testBit i = (decide (i < k) && n.testBit i) := by
  induction k generalizing n i with
  | zero =>
      have noBits : (0 : Int).testBit i = false := Nat.zero_testBit i
      rw [pow_zero, Int.emod_one, noBits]
      rfl
  | succ k inductionHypothesis =>
      have split : n % 2 ^ (k + 1) = 2 * (n / 2 % 2 ^ k) + n % 2 := by
        rw [pow_succ, mul_comm, Int.emod_def, Int.emod_def (n / 2), Int.emod_def n 2,
          ← Int.ediv_ediv_of_nonneg (by decide)]
        ring
      cases i with
      | zero =>
          rw [testBit_zero, testBit_zero, split]
          simp [Int.add_emod]
      | succ i =>
          have half : n % 2 ^ (k + 1) / 2 = n / 2 % 2 ^ k := by
            rw [split]
            omega
          rw [testBit_succ, half, inductionHypothesis, testBit_succ]
          simp

@[simp] theorem testBit_ofNat_zero (i : Nat) : (0 : Int).testBit i = false := Nat.zero_testBit i

@[simp] theorem testBit_neg_one (i : Nat) : (-1 : Int).testBit i = true :=
  congrArg not (Nat.zero_testBit i)

/-- Integers with the same bits are equal. -/
theorem eq_of_testBit {m n : Int} (same : ∀ i, m.testBit i = n.testBit i) : m = n := by
  -- far enough from the start, the bits tell the sign
  have differ (m n : Nat) : ∃ i, (Int.ofNat m).testBit i ≠ (Int.negSucc n).testBit i := by
    refine ⟨m + n, ?_⟩
    have left : m.testBit (m + n) = false :=
      Nat.testBit_lt_two_pow (Nat.lt_of_le_of_lt (Nat.le_add_right m n) Nat.lt_two_pow_self)
    have right : n.testBit (m + n) = false :=
      Nat.testBit_lt_two_pow (Nat.lt_of_le_of_lt (Nat.le_add_left n m) Nat.lt_two_pow_self)
    simp [Int.testBit, left, right]
  cases m with
  | ofNat m =>
      cases n with
      | ofNat n => exact congrArg Int.ofNat (Nat.eq_of_testBit_eq same)
      | negSucc n =>
          obtain ⟨i, differs⟩ := differ m n
          exact absurd (same i) differs
  | negSucc m =>
      cases n with
      | ofNat n =>
          obtain ⟨i, differs⟩ := differ n m
          exact absurd (same i).symm differs
      | negSucc n =>
          refine congrArg Int.negSucc (Nat.eq_of_testBit_eq fun i => ?_)
          exact Bool.not_inj (same i)

/-! ## Ranges -/

/-- The nonnegative integers with `k` bits. -/
theorem unsigned_range_iff {n : Int} {k : Nat} :
    0 ≤ n ∧ n < 2 ^ k ↔ ∀ i, k ≤ i → n.testBit i = false := by
  have positive : (0 : Int) < 2 ^ k := Int.pow_pos (by decide)
  have quotient : 0 ≤ n ∧ n < 2 ^ k ↔ n / 2 ^ k = 0 := by
    constructor
    · exact fun range => Int.ediv_eq_zero_of_lt range.1 range.2
    · intro zero
      have split := Int.mul_ediv_add_emod n (2 ^ k)
      rw [zero, mul_zero, zero_add] at split
      rw [← split]
      exact ⟨Int.emod_nonneg _ positive.ne', Int.emod_lt_of_pos _ positive⟩
  rw [quotient]
  constructor
  · intro zero i above
    obtain ⟨j, rfl⟩ := Nat.exists_eq_add_of_le above
    rw [← testBit_div_two_pow, zero, testBit_ofNat_zero]
  · intro clear
    refine eq_of_testBit fun i => ?_
    rw [testBit_div_two_pow, clear _ (Nat.le_add_right k i), testBit_ofNat_zero]

/-- The integers with `k` bits and a sign. -/
theorem signed_range_iff {n : Int} {k : Nat} :
    -2 ^ k ≤ n ∧ n < 2 ^ k ↔ ∀ i, k ≤ i → n.testBit i = n.testBit k := by
  have positive : (0 : Int) < 2 ^ k := Int.pow_pos (by decide)
  have quotient : -2 ^ k ≤ n ∧ n < 2 ^ k ↔ n / 2 ^ k = 0 ∨ n / 2 ^ k = -1 := by
    have split := Int.mul_ediv_add_emod n (2 ^ k)
    have low := Int.emod_nonneg n positive.ne'
    have high := Int.emod_lt_of_pos n positive
    constructor
    · rintro ⟨below, above⟩
      have lower : -1 ≤ n / 2 ^ k := by
        rw [Int.le_ediv_iff_mul_le positive]
        omega
      have upper : n / 2 ^ k < 1 := by
        rw [Int.ediv_lt_iff_lt_mul positive]
        omega
      omega
    · rintro (zero | minusOne)
      · rw [zero] at split
        omega
      · rw [minusOne] at split
        omega
  rw [quotient]
  have shifted (i : Nat) : (n / 2 ^ k).testBit i = n.testBit (k + i) := testBit_div_two_pow n k i
  constructor
  · intro constant i above
    obtain ⟨j, rfl⟩ := Nat.exists_eq_add_of_le above
    have first := shifted 0
    rw [Nat.add_zero] at first
    rw [← first, ← shifted]
    rcases constant with zero | minusOne
    · rw [zero, testBit_ofNat_zero, testBit_ofNat_zero]
    · rw [minusOne, testBit_neg_one, testBit_neg_one]
  · intro same
    cases sign : n.testBit k with
    | false =>
        refine .inl (eq_of_testBit fun i => ?_)
        rw [shifted, same _ (Nat.le_add_right k i), sign, testBit_ofNat_zero]
    | true =>
        refine .inr (eq_of_testBit fun i => ?_)
        rw [shifted, same _ (Nat.le_add_right k i), sign, testBit_neg_one]

theorem testBit_two_pow_sub_one (k i : Nat) : ((2 : Int) ^ k - 1).testBit i = decide (i < k) := by
  have ones : (2 : Int) ^ k - 1 = -1 % 2 ^ k := by
    have positive : (0 : Int) < 2 ^ k := Int.pow_pos (by decide)
    have shift : (-1 : Int) % 2 ^ k = (2 ^ k - 1) % 2 ^ k := by
      rw [← Int.add_emod_right (-1) (2 ^ k)]
      congr 1
    rw [shift, Int.emod_eq_of_lt (by omega) (by omega)]
  rw [ones, testBit_emod_two_pow, testBit_neg_one, Bool.and_true]

/-! ## Operations on every bit -/

/-- The operation works on every bit by itself. -/
def IsBitwise (f : Bool → Bool → Bool) (op : Int → Int → Int) : Prop :=
  ∀ m n i, (op m n).testBit i = f (m.testBit i) (n.testBit i)

theorem isBitwise_land : IsBitwise (· && ·) Int.land := Int.testBit_land

theorem isBitwise_lor : IsBitwise (· || ·) Int.lor := Int.testBit_lor

theorem isBitwise_xor : IsBitwise Bool.xor Int.xor := Int.testBit_lxor

theorem isBitwise_lnot : IsBitwise (fun b _ => !b) (fun m _ => Int.lnot m) :=
  fun m _ i => Int.testBit_lnot m i

namespace IsBitwise

variable {f : Bool → Bool → Bool} {op : Int → Int → Int}

theorem div_two_pow (bitwise : IsBitwise f op) (m n : Int) (k : Nat) :
    op m n / 2 ^ k = op (m / 2 ^ k) (n / 2 ^ k) := by
  refine eq_of_testBit fun i => ?_
  rw [bitwise, testBit_div_two_pow, testBit_div_two_pow, testBit_div_two_pow, bitwise]

theorem emod_two_pow (bitwise : IsBitwise f op) (m n : Int) (k : Nat) :
    op m n % 2 ^ k = op (m % 2 ^ k) (n % 2 ^ k) % 2 ^ k := by
  refine eq_of_testBit fun i => ?_
  rw [testBit_emod_two_pow, testBit_emod_two_pow, bitwise, bitwise, testBit_emod_two_pow,
    testBit_emod_two_pow]
  cases decide (i < k) <;> rfl

/-- A result has no more bits in front of the sign than the operands. -/
theorem signed_range (bitwise : IsBitwise f op) {m n : Int} {k : Nat}
    (left : -2 ^ k ≤ m ∧ m < 2 ^ k) (right : -2 ^ k ≤ n ∧ n < 2 ^ k) :
    -2 ^ k ≤ op m n ∧ op m n < 2 ^ k := by
  rw [signed_range_iff] at left right ⊢
  intro i above
  rw [bitwise, bitwise, left i above, right i above]

end IsBitwise

end RefinedC.Library
