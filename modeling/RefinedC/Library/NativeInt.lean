import Mathlib.Algebra.Ring.Divisibility.Basic
import Mathlib.Tactic.Ring
import RefinedC.Library.Alignment

/-!
Machine integers that wrap around.

Owns: signed integers of a given number of value bits as the integers that wrap
around at both ends, when an operation on them is exact, which divisors survive
the wrap-around, and the padding that is computed with a truncated remainder.
-/

namespace RefinedC.Library

/-! ## Wrap-around -/

/-- `n` as a signed integer of `bits` value bits. -/
def wrapInt (bits : Nat) (n : Int) : Int := n.bmod (2 ^ (bits + 1))

section

variable {bits : Nat} {m n : Int}

private theorem wrapInt_of_range (lower : -2 ^ bits ≤ n) (upper : n < 2 ^ bits) :
    wrapInt bits n = n := by
  apply Int.bmod_eq_of_le
  · rw [Nat.pow_succ]
    push_cast
    omega
  · rw [Nat.pow_succ]
    push_cast
    omega

theorem wrapInt_natCast {k : Nat} (small : k < 2 ^ bits) : wrapInt bits k = k := by
  have nonneg : (0 : Int) ≤ 2 ^ bits := Int.pow_nonneg (by decide)
  apply wrapInt_of_range
  · omega
  · exact_mod_cast small

theorem wrapInt_zero (bits : Nat) : wrapInt bits 0 = 0 := Int.zero_bmod

theorem wrapInt_lt (bits : Nat) (n : Int) : wrapInt bits n < 2 ^ bits := by
  have below : wrapInt bits n < ((2 ^ (bits + 1) : Nat) + 1) / 2 :=
    Int.bmod_lt (Nat.two_pow_pos (bits + 1))
  rw [Nat.pow_succ] at below
  push_cast at below
  omega

@[simp] theorem wrapInt_wrap (bits : Nat) (n : Int) :
    wrapInt bits (wrapInt bits n) = wrapInt bits n :=
  Int.bmod_bmod

@[simp] theorem wrapInt_wrap_add (bits : Nat) (m n : Int) :
    wrapInt bits (wrapInt bits m + n) = wrapInt bits (m + n) := Int.bmod_add_bmod

@[simp] theorem wrapInt_add_wrap (bits : Nat) (m n : Int) :
    wrapInt bits (m + wrapInt bits n) = wrapInt bits (m + n) := Int.add_bmod_bmod

@[simp] theorem wrapInt_wrap_mul (bits : Nat) (m n : Int) :
    wrapInt bits (wrapInt bits m * n) = wrapInt bits (m * n) := Int.bmod_mul_bmod

/-- Powers of two up to the modulus divide a number and what it wraps around to alike. -/
theorem dvd_wrapInt_iff {a : Nat} (divides : a ∣ 2 ^ (bits + 1)) :
    (a : Int) ∣ wrapInt bits n ↔ (a : Int) ∣ n := by
  have difference : (a : Int) ∣ wrapInt bits n - n :=
    dvd_trans (Int.natCast_dvd_natCast.mpr divides) Int.dvd_bmod_sub_self
  exact dvd_iff_dvd_of_dvd_sub difference

end

/-! ## Padding -/

/-- Padding in front of the next multiple of an alignment, by the remainder that
has the sign of `n`. -/
def truncPadding (align : Nat) (n : Int) : Int :=
  if n.tmod align = 0 then 0 else align - n.tmod align

section

variable {align : Nat}

theorem truncPadding_natCast (positive : 0 < align) (n : Nat) :
    truncPadding align n = padding align n := by
  have remainder : (n : Int).tmod align = (n % align : Nat) := rfl
  have below := Nat.mod_lt n positive
  rw [truncPadding, remainder, padding]
  by_cases aligned : n % align = 0
  · simp [aligned]
  · rw [if_neg aligned, if_neg (by exact_mod_cast aligned)]
    omega

/-- A negative number gets more padding than the distance to the next multiple. -/
theorem truncPadding_nonneg (positive : 0 < align) (n : Int) : 0 ≤ truncPadding align n := by
  have below : n.tmod align < align := Int.tmod_lt_of_pos n (by exact_mod_cast positive)
  unfold truncPadding
  split
  · exact le_refl 0
  · omega

theorem dvd_add_truncPadding (align : Nat) (n : Int) :
    (align : Int) ∣ n + truncPadding align n := by
  unfold truncPadding
  split
  next aligned =>
    rw [Int.add_zero]
    exact Int.dvd_of_tmod_eq_zero aligned
  next =>
    have split := Int.tmod_add_mul_tdiv n align
    refine ⟨n.tdiv align + 1, ?_⟩
    rw [Int.mul_add]
    omega

end

end RefinedC.Library
