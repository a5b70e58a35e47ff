import RefinedC.Caesium.Struct
import RefinedC.Library.Alignment

/-!
Natural placement of struct members.

Owns: the placement of members one after the other with the least padding, what
`checkFieldsAligned`, the size and the alignment of the result are, and the
offsets of its members.

Does not own: where the members come from. A member is a name and a layout.
-/

namespace RefinedC.Caesium

open Library

/-! ## Placement -/

/-- Anonymous bytes, or nothing. -/
def padField (n : Nat) : FieldList := if n = 0 then [] else [(none, ⟨n, 0⟩)]

/-- Members from position `pos` on, each after the padding that it needs. -/
def placeFrom : Nat → List (VarName × Layout) → FieldList
  | _, [] => []
  | pos, (name, ly) :: fields =>
      padField (padding ly.lyAlign pos) ++
        (some name, ly) :: placeFrom (alignUp ly.lyAlign pos + ly.lySize) fields

/-- End of the last member. -/
def placeEnd : Nat → List (VarName × Layout) → Nat
  | pos, [] => pos
  | pos, (_, ly) :: fields => placeEnd (alignUp ly.lyAlign pos + ly.lySize) fields

def maxAlignLog (fields : List (VarName × Layout)) : Nat :=
  maxList (fields.map fun field => field.2.lyAlignLog)

/-- The members and the padding at the end. -/
def place (fields : List (VarName × Layout)) : FieldList :=
  placeFrom 0 fields ++ padField (padding (2 ^ maxAlignLog fields) (placeEnd 0 fields))

/-! ## Padding fields -/

@[simp] theorem fieldSizes_padField (n : Nat) : (fieldSizes (padField n)).sum = n := by
  by_cases zero : n = 0
  · simp [padField, zero, fieldSizes]
  · simp [padField, zero, fieldSizes]

@[simp] theorem fieldSizes_append (s t : FieldList) :
    fieldSizes (s ++ t) = fieldSizes s ++ fieldSizes t := by
  simp [fieldSizes]

@[simp] theorem fieldMembers_padField (n : Nat) : fieldMembers (padField n) = [] := by
  by_cases zero : n = 0
  · simp [padField, zero, fieldMembers]
  · simp [padField, zero, fieldMembers]

@[simp] theorem fieldMembers_append (s t : FieldList) :
    fieldMembers (s ++ t) = fieldMembers s ++ fieldMembers t := by
  simp [fieldMembers]

private theorem checkFieldsAligned_padField (n pos : Nat) (s : FieldList) :
    checkFieldsAligned (padField n ++ s) pos = checkFieldsAligned s (pos + n) := by
  by_cases zero : n = 0
  · simp [padField, zero]
  · simp [padField, zero, checkFieldsAligned, Layout.lyAlign, Nat.mod_one]

/-! ## Members of a placement -/

private theorem fieldMembers_placeFrom (pos : Nat) (fields : List (VarName × Layout)) :
    fieldMembers (placeFrom pos fields) = fields := by
  induction fields generalizing pos with
  | nil => rfl
  | cons field fields inductionHypothesis =>
      rw [placeFrom, fieldMembers_append, fieldMembers_padField, List.nil_append]
      rw [fieldMembers, List.filterMap_cons]
      exact congrArg (field :: ·) (inductionHypothesis _)

@[simp] theorem fieldMembers_place (fields : List (VarName × Layout)) :
    fieldMembers (place fields) = fields := by
  rw [place, fieldMembers_append, fieldMembers_padField, List.append_nil, fieldMembers_placeFrom]

/-! ## Size -/

private theorem fieldSizes_placeFrom (pos : Nat) (fields : List (VarName × Layout)) :
    pos + (fieldSizes (placeFrom pos fields)).sum = placeEnd pos fields := by
  induction fields generalizing pos with
  | nil => rfl
  | cons field fields inductionHypothesis =>
      have rest := inductionHypothesis (alignUp field.2.lyAlign pos + field.2.lySize)
      rw [placeEnd, ← rest, placeFrom, fieldSizes_append, List.sum_append, fieldSizes_padField]
      simp only [fieldSizes, List.map_cons, List.sum_cons, alignUp]
      omega

theorem le_placeEnd (pos : Nat) (fields : List (VarName × Layout)) :
    pos ≤ placeEnd pos fields := by
  rw [← fieldSizes_placeFrom]
  exact Nat.le_add_right pos _

theorem fieldSizes_place (fields : List (VarName × Layout)) :
    (fieldSizes (place fields)).sum = alignUp (2 ^ maxAlignLog fields) (placeEnd 0 fields) := by
  have members := fieldSizes_placeFrom 0 fields
  rw [place, fieldSizes_append, List.sum_append, fieldSizes_padField, alignUp]
  omega

/-! ## Alignment -/

theorem maxList_append (ns ms : List Nat) : maxList (ns ++ ms) = max (maxList ns) (maxList ms) := by
  induction ns with
  | nil => simp [maxList]
  | cons n ns inductionHypothesis => simp [maxList, inductionHypothesis, Nat.max_assoc]

theorem alignLogs_padField (n : Nat) :
    maxList ((padField n).map fun field => field.2.lyAlignLog) = 0 := by
  by_cases zero : n = 0
  · simp [padField, zero, maxList]
  · simp [padField, zero, maxList]

private theorem alignLogs_placeFrom (pos : Nat) (fields : List (VarName × Layout)) :
    maxList ((placeFrom pos fields).map fun field => field.2.lyAlignLog) = maxAlignLog fields := by
  induction fields generalizing pos with
  | nil => rfl
  | cons field fields inductionHypothesis =>
      rw [placeFrom, List.map_append, maxList_append, alignLogs_padField, List.map_cons, maxList,
        inductionHypothesis]
      simp [maxAlignLog, maxList]

private theorem alignLogs_place (fields : List (VarName × Layout)) :
    maxList ((place fields).map fun field => field.2.lyAlignLog) = maxAlignLog fields := by
  rw [place, List.map_append, maxList_append, alignLogs_placeFrom, alignLogs_padField]
  exact Nat.max_zero _

theorem layoutOfMembers_place (fields : List (VarName × Layout)) :
    layoutOfMembers (place fields) =
      ⟨alignUp (2 ^ maxAlignLog fields) (placeEnd 0 fields), maxAlignLog fields⟩ := by
  rw [layoutOfMembers, fieldSizes_place, alignLogs_place]

private theorem checkFieldsAligned_placeFrom (pos : Nat) (fields : List (VarName × Layout))
    (s : FieldList) : checkFieldsAligned (placeFrom pos fields ++ s) pos =
      checkFieldsAligned s (placeEnd pos fields) := by
  induction fields generalizing pos with
  | nil => rfl
  | cons field fields inductionHypothesis =>
      have aligned : alignUp field.2.lyAlign pos % field.2.lyAlign = 0 :=
        Nat.mod_eq_zero_of_dvd (dvd_alignUp field.2.lyAlign_pos pos)
      rw [placeFrom, List.append_assoc, checkFieldsAligned_padField, List.cons_append,
        checkFieldsAligned, ← alignUp, inductionHypothesis, placeEnd]
      simp [aligned]

theorem checkFieldsAligned_place (fields : List (VarName × Layout)) :
    checkFieldsAligned (place fields) 0 = true := by
  have pad := checkFieldsAligned_padField
    (padding (2 ^ maxAlignLog fields) (placeEnd 0 fields)) (placeEnd 0 fields) []
  rw [List.append_nil] at pad
  rw [place, checkFieldsAligned_placeFrom, pad]
  rfl

theorem layoutWf_place (fields : List (VarName × Layout)) :
    (layoutOfMembers (place fields)).layoutWf := by
  rw [layoutOfMembers_place]
  exact dvd_alignUp (Nat.two_pow_pos _) _

/-! ## Offsets -/

/-- Names and offsets of the members of a struct that starts at `pos`. -/
def memberOffsets : Nat → FieldList → List (VarName × Nat)
  | _, [] => []
  | pos, (none, ly) :: s => memberOffsets (pos + ly.lySize) s
  | pos, (some name, ly) :: s => (name, pos) :: memberOffsets (pos + ly.lySize) s

/-- Every member is at the least multiple of its alignment that is not before the
end of the previous member. -/
inductive LeastOffsets : Nat → List (VarName × Layout) → List (VarName × Nat) → Prop where
  | nil (pos : Nat) : LeastOffsets pos [] []
  | cons {pos offset : Nat} {name : VarName} {ly : Layout} {fields : List (VarName × Layout)}
      {offsets : List (VarName × Nat)} :
      IsLeast {o | pos ≤ o ∧ ly.lyAlign ∣ o} offset →
      LeastOffsets (offset + ly.lySize) fields offsets →
      LeastOffsets pos ((name, ly) :: fields) ((name, offset) :: offsets)

private theorem memberOffsets_padField (n pos : Nat) (s : FieldList) :
    memberOffsets pos (padField n ++ s) = memberOffsets (pos + n) s := by
  by_cases zero : n = 0
  · simp [padField, zero]
  · simp [padField, zero, memberOffsets]

private theorem leastOffsets_placeFrom (pos n : Nat) (fields : List (VarName × Layout)) :
    LeastOffsets pos fields (memberOffsets pos (placeFrom pos fields ++ padField n)) := by
  induction fields generalizing pos with
  | nil =>
      have pad := memberOffsets_padField n pos []
      rw [List.append_nil] at pad
      rw [placeFrom, List.nil_append, pad]
      exact .nil pos
  | cons field fields inductionHypothesis =>
      rw [placeFrom, List.append_assoc, memberOffsets_padField]
      exact .cons (alignUp_isLeast field.2.lyAlign_pos pos) (inductionHypothesis _)

theorem leastOffsets_place (fields : List (VarName × Layout)) :
    LeastOffsets 0 fields (memberOffsets 0 (place fields)) :=
  leastOffsets_placeFrom 0 _ fields

example : memberOffsets 0 (place [("c", ⟨1, 0⟩), ("i", ⟨4, 2⟩), ("s", ⟨2, 1⟩)]) =
    [("c", 0), ("i", 4), ("s", 8)] := by decide

end RefinedC.Caesium
