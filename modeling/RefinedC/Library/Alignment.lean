import Mathlib.Order.Bounds.Basic
import Mathlib.Tactic.Common

/-!
Rounding up to an alignment.

Owns: the padding in front of the next multiple of an alignment, that multiple,
and its characterisation as the least aligned position that is not smaller.
-/

namespace RefinedC.Library

/-- Bytes missing from `n` to the next multiple of `align`. -/
def padding (align n : Nat) : Nat :=
  if n % align = 0 then 0 else align - n % align

def alignUp (align n : Nat) : Nat := n + padding align n

private theorem padding_of_dvd {align n : Nat} (aligned : align ∣ n) : padding align n = 0 :=
  if_pos (Nat.mod_eq_zero_of_dvd aligned)

theorem alignUp_of_dvd {align n : Nat} (aligned : align ∣ n) : alignUp align n = n := by
  rw [alignUp, padding_of_dvd aligned, Nat.add_zero]

theorem le_alignUp (align n : Nat) : n ≤ alignUp align n := Nat.le_add_right n _

theorem dvd_alignUp {align : Nat} (positive : 0 < align) (n : Nat) : align ∣ alignUp align n := by
  by_cases aligned : n % align = 0
  · rw [alignUp_of_dvd (Nat.dvd_of_mod_eq_zero aligned)]
    exact Nat.dvd_of_mod_eq_zero aligned
  · have below := Nat.mod_lt n positive
    have split := Nat.div_add_mod n align
    refine ⟨n / align + 1, ?_⟩
    rw [Nat.mul_add, Nat.mul_one, alignUp, padding, if_neg aligned]
    omega

/-- The least multiple of `align` from `n` on. -/
theorem alignUp_isLeast {align : Nat} (positive : 0 < align) (n : Nat) :
    IsLeast {m | n ≤ m ∧ align ∣ m} (alignUp align n) := by
  refine ⟨⟨le_alignUp align n, dvd_alignUp positive n⟩, ?_⟩
  rintro m ⟨atLeast, aligned⟩
  by_cases already : align ∣ n
  · rw [alignUp_of_dvd already]
    exact atLeast
  · -- `m` and `alignUp align n` are multiples less than one alignment apart
    have padded : padding align n = align - n % align :=
      if_neg fun exact0 => already (Nat.dvd_of_mod_eq_zero exact0)
    obtain ⟨k, rfl⟩ := aligned
    have split := Nat.div_add_mod n align
    have below := Nat.mod_lt n positive
    have quotient : n / align < k := by
      rw [Nat.div_lt_iff_lt_mul positive, Nat.mul_comm]
      exact lt_of_le_of_ne atLeast fun same => already (same ▸ Nat.dvd_mul_right align k)
    have next : align * (n / align + 1) ≤ align * k := Nat.mul_le_mul_left align quotient
    rw [Nat.mul_add, Nat.mul_one] at next
    rw [alignUp, padded]
    omega

end RefinedC.Library
