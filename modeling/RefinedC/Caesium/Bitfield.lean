import RefinedC.Caesium.Lang
import RefinedC.Library.IntBits
import Mathlib.Data.List.Pairwise

/-!
Bit-field words.

Source: `theories/caesium/bitfield.v` (`bf_nil`, `bf_cons`, `bf_mask_cons`, `bf_slice`,
`bf_update` and the rewriting rules on them).

Owns: the constructors of bit-field words, what each of their bits is, and that a word behaves
like a record of independent fields.

The ranges of two fields are disjoint when no bit belongs to both, so a field without bits may
stand inside another one.
-/

namespace RefinedC.Caesium

open RefinedC.Library

/-! ## The constructors of bit-field words -/

/-- `Z.ones`. -/
def zOnes (n : Int) : Int := (1 : Int) <<< n - 1

def bfNil : Int := 0

def bfCons (a _k x l : Int) : Int := Int.lor (x <<< a) l

def bfMaskCons (a k l : Int) : Int := Int.lor (zOnes k <<< a) l

def bfSlice (a k bv : Int) : Int := Int.land (bv >>> a) (zOnes k)

def bfUpdate (a k x bv : Int) : Int :=
  Int.lor (Int.land bv (Int.lnot (zOnes k <<< a))) (x <<< a)

/-! ## Fields -/

/-- Bits `a` to `a + k - 1` of a word. -/
structure BitRange where
  a : Nat
  k : Nat

namespace BitRange

def Covers (r : BitRange) (i : Nat) : Prop := r.a ≤ i ∧ i < r.a + r.k

instance (r : BitRange) (i : Nat) : Decidable (r.Covers i) := inferInstanceAs (Decidable (_ ∧ _))

def Fits (r : BitRange) (x : Int) : Prop := 0 ≤ x ∧ x < 2 ^ r.k

instance (r : BitRange) (x : Int) : Decidable (r.Fits x) := inferInstanceAs (Decidable (_ ∧ _))

def Disjoint (r s : BitRange) : Prop := ∀ i, r.Covers i → ¬ s.Covers i

instance : Std.Symm Disjoint where
  symm _ _ disjoint i covered other := disjoint i other covered

/-- The side condition of the rewriting rules. -/
theorem disjoint_of_le {r s : BitRange} (apart : r.a + r.k ≤ s.a ∨ s.a + s.k ≤ r.a) :
    r.Disjoint s := by
  intro i covered other
  unfold Covers at covered other
  omega

end BitRange

/-- A range with a value that fits it. -/
structure BitField extends BitRange where
  x : Int
  fits : toBitRange.Fits x

namespace BitField

/-- No bit belongs to two of the fields. -/
def Separate (fields : List BitField) : Prop :=
  (fields.map toBitRange).Pairwise BitRange.Disjoint

def setX (f : BitField) (x : Int) (fits : f.Fits x) : BitField := { f with x, fits }

/-- What the field contributes to bit `i` of a word. -/
def bit (f : BitField) (i : Nat) : Bool := decide (f.Covers i) && f.x.testBit (i - f.a)

end BitField

/-- `bf_cons` folded over the fields. -/
def bfWord (fields : List BitField) : Int :=
  fields.foldr (fun f l => bfCons f.a f.k f.x l) bfNil

/-! ## The bits of each constructor -/

section

variable (r : BitRange) (x bv : Int) (i : Nat)

private theorem testBit_shiftl (n : Int) (a : Nat) :
    (n <<< (a : Int)).testBit i = (decide (a ≤ i) && n.testBit (i - a)) := by
  rw [Int.shiftLeft_eq_mul_pow, Nat.cast_pow, Nat.cast_ofNat, testBit_mul_two_pow]

private theorem testBit_shiftr (n : Int) (a : Nat) :
    (n >>> (a : Int)).testBit i = n.testBit (a + i) := by
  rw [Int.shiftRight_natCast_right, Int.shiftRight_eq_div_pow, Nat.cast_pow, Nat.cast_ofNat,
    testBit_div_two_pow]

private theorem testBit_zOnes (k : Nat) : (zOnes k).testBit i = decide (i < k) := by
  rw [zOnes, Int.shiftLeft_eq_mul_pow, one_mul, Nat.cast_pow, Nat.cast_ofNat,
    testBit_two_pow_sub_one]

/-- The mask of a range has the bits of the range. -/
theorem testBit_mask : (zOnes r.k <<< (r.a : Int)).testBit i = decide (r.Covers i) := by
  rw [testBit_shiftl, testBit_zOnes]
  by_cases below : r.a ≤ i
  · have same : i - r.a < r.k ↔ i < r.a + r.k := by omega
    simp [BitRange.Covers, below, same]
  · simp [BitRange.Covers, below]

private theorem testBit_bfSlice :
    (bfSlice r.a r.k bv).testBit i = (bv.testBit (r.a + i) && decide (i < r.k)) := by
  rw [bfSlice, isBitwise_land, testBit_shiftr, testBit_zOnes]

variable {r x}

/-- A value that fits a range and is put there has no bits elsewhere. -/
theorem testBit_shiftl_fits (fits : r.Fits x) :
    (x <<< (r.a : Int)).testBit i = (decide (r.Covers i) && x.testBit (i - r.a)) := by
  rw [testBit_shiftl]
  by_cases below : r.a ≤ i
  · by_cases above : i < r.a + r.k
    · simp [BitRange.Covers, below, above]
    · have noBit : x.testBit (i - r.a) = false :=
        unsigned_range_iff.mp fits (i - r.a) (by omega)
      simp [noBit]
  · simp [BitRange.Covers, below]

private theorem testBit_bfUpdate (fits : r.Fits x) :
    (bfUpdate r.a r.k x bv).testBit i =
      if r.Covers i then x.testBit (i - r.a) else bv.testBit i := by
  rw [bfUpdate, isBitwise_lor, isBitwise_land, Int.testBit_lnot, testBit_mask,
    testBit_shiftl_fits i fits]
  by_cases covered : r.Covers i
  · simp [covered]
  · simp [covered]

end

private theorem testBit_bfWord (fields : List BitField) (i : Nat) :
    (bfWord fields).testBit i = fields.any (·.bit i) := by
  induction fields with
  | nil => exact testBit_ofNat_zero i
  | cons f fields inductionHypothesis =>
      rw [List.any_cons, ← inductionHypothesis]
      exact (isBitwise_lor _ _ i).trans
        (congrArg (· || _) (testBit_shiftl_fits i f.fits))

/-! ## Words as records -/

section

variable {fields before after : List BitField} {f : BitField} {i : Nat}

/-- A bit of a field is not touched by the others. -/
theorem testBit_bfWord_of_covers (separate : BitField.Separate fields) (member : f ∈ fields)
    (covered : f.Covers i) : (bfWord fields).testBit i = f.x.testBit (i - f.a) := by
  have own : f.bit i = f.x.testBit (i - f.a) := by simp [BitField.bit, covered]
  rw [testBit_bfWord, ← own]
  cases bit : f.bit i with
  | true => exact List.any_eq_true.mpr ⟨f, member, bit⟩
  | false =>
      refine List.any_eq_false.mpr fun g other set => ?_
      have overlap : g.Covers i := of_decide_eq_true (Bool.and_eq_true_iff.mp set).1
      have differ : f ≠ g := by
        rintro rfl
        exact absurd set (by rw [bit]; decide)
      have pairs : fields.Pairwise fun f g => f.Disjoint g.toBitRange :=
        List.pairwise_map.mp separate
      have symmetric : Std.Symm fun f g : BitField => f.Disjoint g.toBitRange :=
        ⟨fun _ _ disjoint => symm disjoint⟩
      exact pairs.forall member other differ i covered overlap

private theorem testBit_bfWord_of_not_covers (other : ¬ f.Covers i)
    (before after : List BitField) :
    (bfWord (before ++ f :: after)).testBit i = (before ++ after).any (·.bit i) := by
  have noBit : f.bit i = false := by simp [BitField.bit, other]
  rw [testBit_bfWord, List.any_append, List.any_cons, noBit, Bool.false_or, List.any_append]

private theorem bfWord_perm {order : List BitField} (perm : order.Perm fields) :
    bfWord order = bfWord fields := by
  refine eq_of_testBit fun i => ?_
  rw [testBit_bfWord, testBit_bfWord, perm.any_eq]

/-- The slice of a field is its value. -/
theorem bfSlice_bfWord (separate : BitField.Separate fields) (member : f ∈ fields) :
    bfSlice f.a f.k (bfWord fields) = f.x := by
  refine eq_of_testBit fun i => ?_
  rw [testBit_bfSlice]
  by_cases inside : i < f.k
  · have covered : f.Covers (f.a + i) := ⟨Nat.le_add_right _ _, by omega⟩
    rw [testBit_bfWord_of_covers separate member covered, Nat.add_sub_cancel_left]
    simp [inside]
  · rw [unsigned_range_iff.mp f.fits i (by omega)]
    simp [inside]

private theorem BitField.Separate.setX
    (separate : BitField.Separate (before ++ f :: after)) {x : Int}
    (fits : f.Fits x) : BitField.Separate (before ++ f.setX x fits :: after) := by
  have sameRanges : (before ++ f.setX x fits :: after).map BitField.toBitRange =
      (before ++ f :: after).map BitField.toBitRange := by
    rw [List.map_append, List.map_append]
    rfl
  exact (congrArg (List.Pairwise BitRange.Disjoint) sameRanges).mpr separate

/-- Updating a field of a word gives the word of the updated field. -/
theorem bfUpdate_bfWord (separate : BitField.Separate (before ++ f :: after)) {x : Int}
    (fits : f.Fits x) :
    bfUpdate f.a f.k x (bfWord (before ++ f :: after)) =
      bfWord (before ++ f.setX x fits :: after) := by
  refine eq_of_testBit fun i => ?_
  rw [testBit_bfUpdate _ _ fits]
  by_cases covered : f.Covers i
  · have member : f.setX x fits ∈ before ++ f.setX x fits :: after := by simp
    rw [if_pos covered]
    exact (testBit_bfWord_of_covers (separate.setX fits) member covered).symm
  · have otherwise : ¬ (f.setX x fits).Covers i := covered
    rw [if_neg covered, testBit_bfWord_of_not_covers covered,
      testBit_bfWord_of_not_covers otherwise]

private theorem bfWord_range {bits : Nat} (inside : ∀ f ∈ fields, f.a + f.k ≤ bits) :
    0 ≤ bfWord fields ∧ bfWord fields < 2 ^ bits := by
  refine unsigned_range_iff.mpr fun i above => ?_
  rw [testBit_bfWord]
  refine List.any_eq_false.mpr fun f member set => ?_
  have covered : f.Covers i := of_decide_eq_true (Bool.and_eq_true_iff.mp set).1
  have last := inside f member
  unfold BitRange.Covers at covered
  omega

end

/-! ## Updates of any word -/

section

variable {r s : BitRange} {x y w : Int}

private theorem bfUpdate_comm (disjoint : r.Disjoint s) (fitsR : r.Fits x)
    (fitsS : s.Fits y) (w : Int) :
    bfUpdate r.a r.k x (bfUpdate s.a s.k y w) = bfUpdate s.a s.k y (bfUpdate r.a r.k x w) := by
  refine eq_of_testBit fun i => ?_
  rw [testBit_bfUpdate _ _ fitsR, testBit_bfUpdate _ _ fitsS, testBit_bfUpdate _ _ fitsS,
    testBit_bfUpdate _ _ fitsR]
  by_cases covered : r.Covers i
  · rw [if_pos covered, if_neg (disjoint i covered), if_pos covered]
  · rw [if_neg covered, if_neg covered]

/-- Clearing a range with a mask and filling it is an update. -/
theorem lor_land_mask_eq_bfUpdate {bits : Nat} (fits : r.Fits x)
    (range : 0 ≤ w ∧ w < 2 ^ bits) :
    Int.lor (Int.land w (zLunot bits (bfMaskCons r.a r.k bfNil))) (x <<< (r.a : Int)) =
      bfUpdate r.a r.k x w := by
  refine eq_of_testBit fun i => ?_
  rw [testBit_bfUpdate _ _ fits, isBitwise_lor, isBitwise_land, zLunot, testBit_emod_two_pow,
    Int.testBit_lnot, bfMaskCons, isBitwise_lor, testBit_mask, bfNil, testBit_ofNat_zero,
    testBit_shiftl_fits _ fits]
  by_cases covered : r.Covers i
  · simp [covered]
  · by_cases low : i < bits
    · simp [covered, low]
    · have noBit : w.testBit i = false := unsigned_range_iff.mp range i (by omega)
      simp [covered, noBit]

end

/-! ## The laws together -/

/-- The word of the fields is a record of them. -/
structure BitRecord (fields : List BitField) : Prop where
  /-- The order of the fields does not matter. -/
  order : ∀ order : List BitField, order.Perm fields → bfWord order = bfWord fields
  slice : ∀ f ∈ fields, bfSlice f.a f.k (bfWord fields) = f.x
  /-- An update changes its own slice and no bit outside it. -/
  update : ∀ before f after, fields = before ++ f :: after → ∀ x, f.Fits x →
    let updated := bfUpdate f.a f.k x (bfWord fields)
    bfSlice f.a f.k updated = x ∧
      (∀ g ∈ before ++ after, bfSlice g.a g.k updated = g.x) ∧
      ∀ i, ¬ f.Covers i → updated.testBit i = (bfWord fields).testBit i
  /-- Updates of two fields commute, on every word. -/
  commute : ∀ before f between g after, fields = before ++ f :: (between ++ g :: after) →
    ∀ x y, f.Fits x → g.Fits y → ∀ w,
      bfUpdate f.a f.k x (bfUpdate g.a g.k y w) = bfUpdate g.a g.k y (bfUpdate f.a f.k x w)
  bound : ∀ bits : Nat, (∀ f ∈ fields, f.a + f.k ≤ bits) →
    0 ≤ bfWord fields ∧ bfWord fields < 2 ^ bits
  /-- A field is updated in two steps, by a mask that clears it and a disjunction. -/
  clearThenOr : ∀ f ∈ fields, ∀ x, f.Fits x → ∀ (bits : Nat) (w : Int), 0 ≤ w →
      w < 2 ^ bits →
      Int.lor (Int.land w (zLunot bits (bfMaskCons f.a f.k bfNil))) (x <<< (f.a : Int)) =
        bfUpdate f.a f.k x w

/-- Bit-field words behave like records of independent fields. -/
theorem bit_field_record {fields : List BitField} (separate : BitField.Separate fields) :
    BitRecord fields where
  order _ perm := bfWord_perm perm
  slice _ member := bfSlice_bfWord separate member
  update before f after isFields x fits := by
    subst isFields
    rw [bfUpdate_bfWord separate fits]
    have own : f.setX x fits ∈ before ++ f.setX x fits :: after := by simp
    refine ⟨bfSlice_bfWord (separate.setX fits) own, fun g other => ?_, fun i outside => ?_⟩
    · have member : g ∈ before ++ f.setX x fits :: after := by
        rw [List.mem_append] at other ⊢
        exact other.imp id (List.mem_cons_of_mem _)
      exact bfSlice_bfWord (separate.setX fits) member
    · rw [← bfUpdate_bfWord separate fits, testBit_bfUpdate _ _ fits, if_neg outside]
  commute before f between g after isFields x y fitsF fitsG w := by
    subst isFields
    have pairs := List.pairwise_map.mp separate
    have disjoint : f.Disjoint g.toBitRange :=
      (List.pairwise_cons.mp (List.pairwise_append.mp pairs).2.1).1 g (by simp)
    exact bfUpdate_comm disjoint fitsF fitsG w
  bound _ inside := bfWord_range inside
  clearThenOr _ _ _ fits _ _ nonneg below := lor_land_mask_eq_bfUpdate fits ⟨nonneg, below⟩

/-- Adjacent fields of 3 and 5 bits, and a field without bits between them. -/
theorem bit_field_record_adjacent :
    BitRecord [⟨⟨0, 3⟩, 5, by decide⟩, ⟨⟨3, 0⟩, 0, by decide⟩,
      ⟨⟨3, 5⟩, 17, by decide⟩] := by
  refine bit_field_record ?_
  simp only [BitField.Separate, List.map_cons, List.map_nil, List.pairwise_cons]
  simp [BitRange.disjoint_of_le]

end RefinedC.Caesium
