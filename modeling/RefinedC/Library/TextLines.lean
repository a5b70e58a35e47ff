import Mathlib.Data.List.Basic
import Mathlib.Tactic.Common

/-!
Texts and their lines.

Owns: reading the lines of a text, writing lines as a text, and what appending a line
to a text does to its lines. The last line of a text need not be terminated, and then
an appended line continues it.

Generic in the alphabet and the newline.
-/

namespace RefinedC.Library

variable {α : Type} {newline : α}

/-- Every line is terminated. -/
def textOf (newline : α) (lines : List (List α)) : List α :=
  lines.flatMap fun line => line ++ [newline]

/-- The last line is terminated. -/
def Terminated (newline : α) (text : List α) : Prop := text = [] ∨ text.getLast? = some newline

/-- A text is some terminated lines and the rest of a line. -/
theorem exists_eq_textOf_append (newline : α) (text : List α) :
    ∃ lines rest, text = textOf newline lines ++ rest ∧ (∀ l ∈ lines, newline ∉ l) ∧
      newline ∉ rest := by
  induction text with
  | nil => exact ⟨[], [], rfl, by simp, by simp⟩
  | cons c text inductionHypothesis =>
      obtain ⟨lines, rest, rfl, noNewline, noNewlineRest⟩ := inductionHypothesis
      by_cases isNewline : c = newline
      · refine ⟨[] :: lines, rest, ?_, ?_, noNewlineRest⟩
        · rw [isNewline, textOf, textOf, List.flatMap_cons]
          rfl
        · simpa using noNewline
      · cases lines with
        | nil =>
            refine ⟨[], c :: rest, rfl, by simp, ?_⟩
            simp [noNewlineRest, Ne.symm isNewline]
        | cons line lines =>
            refine ⟨(c :: line) :: lines, rest, ?_, ?_, noNewlineRest⟩
            · simp [textOf]
            · rw [List.forall_mem_cons] at noNewline ⊢
              exact ⟨by simp [Ne.symm isNewline, noNewline.1], noNewline.2⟩

private theorem terminated_append_iff {lines : List (List α)} {rest : List α}
    (noNewline : newline ∉ rest) :
    Terminated newline (textOf newline lines ++ rest) ↔ rest = [] := by
  constructor
  · intro terminated
    by_contra notNil
    obtain ⟨c, isLast⟩ := Option.isSome_iff_exists.mp (List.getLast?_isSome.mpr notNil)
    rcases terminated with isNil | ends
    · exact notNil (List.append_eq_nil_iff.mp isNil).2
    · rw [List.getLast?_append, isLast] at ends
      cases ends
      exact noNewline (List.mem_of_getLast? isLast)
  · rintro rfl
    rw [List.append_nil]
    rcases List.eq_nil_or_concat lines with rfl | ⟨before, line, rfl⟩
    · exact .inl rfl
    · exact .inr (by simp [textOf])

variable [DecidableEq α]

instance (text : List α) : Decidable (Terminated newline text) :=
  inferInstanceAs (Decidable (_ ∨ _))

/-- The lines of a text when `line` has been read of the current one. -/
def linesFrom (newline : α) (line : List α) : List α → List (List α)
  | [] => if line = [] then [] else [line]
  | c :: text =>
      if c = newline then line :: linesFrom newline [] text
      else linesFrom newline (line ++ [c]) text

def linesOf (newline : α) (text : List α) : List (List α) := linesFrom newline [] text

private theorem linesFrom_append {line rest : List α}
    (noNewline : newline ∉ rest) (text : List α) :
    linesFrom newline line (rest ++ text) = linesFrom newline (line ++ rest) text := by
  induction rest generalizing line with
  | nil => simp
  | cons c rest inductionHypothesis =>
      rw [List.mem_cons, not_or] at noNewline
      rw [List.cons_append, linesFrom, if_neg (Ne.symm noNewline.1),
        inductionHypothesis noNewline.2]
      simp

private theorem linesOf_line_append {line : List α}
    (noNewline : newline ∉ line) (text : List α) :
    linesOf newline (line ++ newline :: text) = line :: linesOf newline text := by
  rw [linesOf, linesFrom_append noNewline, List.nil_append, linesFrom, if_pos rfl]
  rfl

private theorem linesOf_textOf_append {lines : List (List α)}
    (noNewline : ∀ l ∈ lines, newline ∉ l) (text : List α) :
    linesOf newline (textOf newline lines ++ text) = lines ++ linesOf newline text := by
  induction lines with
  | nil => rfl
  | cons line lines inductionHypothesis =>
      rw [textOf, List.flatMap_cons, List.append_assoc, List.append_assoc, List.singleton_append,
        linesOf_line_append (noNewline line List.mem_cons_self), ← textOf,
        inductionHypothesis fun l member => noNewline l (List.mem_cons_of_mem _ member)]
      rfl

private theorem linesOf_unterminated {line : List α} (noNewline : newline ∉ line) :
    linesOf newline line = if line = [] then [] else [line] := by
  have read := @linesFrom_append _ _ _ [] _ noNewline []
  rwa [List.append_nil, List.nil_append, linesFrom] at read

theorem newline_not_mem_of_mem_linesOf {text line : List α}
    (member : line ∈ linesOf newline text) : newline ∉ line := by
  obtain ⟨lines, rest, rfl, noNewline, noNewlineRest⟩ := exists_eq_textOf_append newline text
  rw [linesOf_textOf_append noNewline, linesOf_unterminated noNewlineRest] at member
  rcases List.mem_append.mp member with inLines | inRest
  · exact noNewline line inLines
  · split at inRest
    · cases inRest
    · rw [List.mem_singleton.mp inRest]
      exact noNewlineRest

/-- Written lines are read again. -/
theorem linesOf_textOf {lines : List (List α)} (noNewline : ∀ l ∈ lines, newline ∉ l) :
    linesOf newline (textOf newline lines) = lines := by
  simpa [linesOf, linesFrom] using linesOf_textOf_append noNewline []

/-- A line appended to a terminated text is its last line. -/
theorem linesOf_append_terminated {text line : List α} (terminated : Terminated newline text)
    (noNewline : newline ∉ line) :
    linesOf newline (text ++ textOf newline [line]) = linesOf newline text ++ [line] := by
  obtain ⟨lines, rest, rfl, noNewlines, noNewlineRest⟩ := exists_eq_textOf_append newline text
  rw [(terminated_append_iff noNewlineRest).mp terminated, List.append_nil,
    linesOf_textOf_append noNewlines, linesOf_textOf noNewlines, linesOf_textOf (by simpa)]

/-- A line appended to another text continues its last line. -/
theorem linesOf_append_unterminated {text line : List α}
    (unterminated : ¬ Terminated newline text) (noNewline : newline ∉ line) :
    ∃ before last, last ≠ [] ∧ linesOf newline text = before ++ [last] ∧
      linesOf newline (text ++ textOf newline [line]) = before ++ [last ++ line] := by
  obtain ⟨lines, rest, rfl, noNewlines, noNewlineRest⟩ := exists_eq_textOf_append newline text
  rw [terminated_append_iff noNewlineRest] at unterminated
  have joined : newline ∉ rest ++ line := by simp [noNewlineRest, noNewline]
  refine ⟨lines, rest, unterminated, ?_, ?_⟩
  · rw [linesOf_textOf_append noNewlines, linesOf_unterminated noNewlineRest,
      if_neg unterminated]
  · have same : rest ++ textOf newline [line] = textOf newline [rest ++ line] := by simp [textOf]
    rw [List.append_assoc, same, linesOf_textOf_append noNewlines, linesOf_textOf]
    simpa only [List.mem_singleton, forall_eq] using joined

end RefinedC.Library
