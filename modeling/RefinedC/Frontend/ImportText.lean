import Mathlib.Data.List.DropRight
import Mathlib.Data.List.TakeDrop
import Mathlib.Data.List.TakeWhile
import Mathlib.Tactic.Common

/-!
Payloads of import annotations.

Source: `read_import` of `frontend/comment_annot.ml`.

Owns: scanning as `Scanf` does it, the reading of imports, the texts that are imports
in the sense of the documentation, and that exactly these are read, with their parts.

A scan with `Scanf` is written out: a blank in a format skips blanks, and `%s` reads up
to one.
-/

namespace RefinedC.Frontend.CommentAnnot

/-! ## Scanning -/

/-- Blanks of `Scanf`. -/
def isScanBlank (c : Char) : Bool := c ∈ [' ', '\t', '\n', '\r']

/-- Reads a literal. -/
def scanLiteral (word s : List Char) : Option (List Char) :=
  if word.isPrefixOf s then some (s.drop word.length) else none

/-- Reads `%s`. -/
def scanString (s : List Char) : List Char × List Char := s.span fun c => !isScanBlank c

def skipBlanks (s : List Char) : List Char := s.dropWhile isScanBlank

inductive Where where
  | default
  | codeOnly
  | proofsOnly
deriving DecidableEq

/-- Scans `"%s from %s"`, the given words and the end of the input. -/
def scanImport (words : List (List Char)) (s : List Char) : Option (String × String) := do
  let (modName, s) := scanString s
  let s ← scanLiteral "from".toList (skipBlanks s)
  let (frm, s) := scanString (skipBlanks s)
  let s ← words.foldlM (fun s word => scanLiteral word (skipBlanks s)) s
  if skipBlanks s = [] then some (String.ofList frm, String.ofList modName) else none

def Where.words : Where → List (List Char)
  | .default => []
  | .codeOnly => ["(for".toList, "code".toList, "only)".toList]
  | .proofsOnly => ["(for".toList, "proofs".toList, "only)".toList]

def readImport (s : String) : Option (String × String × Where) :=
  match scanImport Where.proofsOnly.words s.toList with
  | some (frm, modName) => some (frm, modName, .proofsOnly)
  | none =>
      match scanImport Where.codeOnly.words s.toList with
      | some (frm, modName) => some (frm, modName, .codeOnly)
      | none =>
          match scanImport Where.default.words s.toList with
          | some (frm, modName) => some (frm, modName, .default)
          | none => none

/-! ## Texts of imports -/

def Blank (s : List Char) : Prop := ∀ c ∈ s, isScanBlank c = true

def NoBlank (s : List Char) : Prop := ∀ c ∈ s, isScanBlank c = false

/-- The text is empty or starts with a blank: a word ends in front of it. -/
def WordEnds (s : List Char) : Prop := ∀ c ∈ s.head?, isScanBlank c = true

/-- What follows the two names of an import. -/
inductive ImportTail : Where → List Char → Prop where
  | default {s : List Char} (blank : Blank s) : ImportTail .default s
  | codeOnly {s1 s2 s3 s4 : List Char} (blank1 : Blank s1) (blank2 : Blank s2) (blank3 : Blank s3)
      (blank4 : Blank s4) :
      ImportTail .codeOnly
        (s1 ++ "(for".toList ++ s2 ++ "code".toList ++ s3 ++ "only)".toList ++ s4)
  | proofsOnly {s1 s2 s3 s4 : List Char} (blank1 : Blank s1) (blank2 : Blank s2)
      (blank3 : Blank s3) (blank4 : Blank s4) :
      ImportTail .proofsOnly
        (s1 ++ "(for".toList ++ s2 ++ "proofs".toList ++ s3 ++ "only)".toList ++ s4)

/-- `modName from frm`, and where the import goes. -/
structure ImportParts (s modName frm s1 s2 tail : List Char) : Prop where
  text : s = modName ++ s1 ++ "from".toList ++ s2 ++ frm ++ tail
  noBlank1 : NoBlank modName
  noBlank2 : NoBlank frm
  blank1 : Blank s1
  separated : s1 ≠ []
  blank2 : Blank s2
  ends : WordEnds tail
  /-- The second name is missing only at the end of the text. -/
  missing : frm = [] → tail = []

/-- The text imports a module from a library. -/
def IsImport (s frm modName : String) (w : Where) : Prop :=
  ∃ s1 s2 tail, ImportParts s.toList modName.toList frm.toList s1 s2 tail ∧ ImportTail w tail

/-! ## Steps of a scan -/

section

variable {s word rest : List Char}

theorem scanString_append (noBlank : NoBlank word) (ends : WordEnds rest) :
    scanString (word ++ rest) = (word, rest) := by
  have inside : ∀ c ∈ word, (!isScanBlank c) = true := fun c member => by
    rw [noBlank c member]
    rfl
  rw [scanString, List.span_eq_takeWhile_dropWhile, List.takeWhile_append_of_pos inside,
    List.dropWhile_append_of_pos inside]
  cases rest with
  | nil => simp
  | cons c rest =>
      have isBlank : isScanBlank c = true := ends c rfl
      simp [isBlank]

theorem exists_scanString (s : List Char) :
    ∃ word rest, s = word ++ rest ∧ NoBlank word ∧ WordEnds rest ∧
      scanString s = (word, rest) := by
  refine ⟨_, _, List.takeWhile_append_dropWhile.symm, fun c member => ?_, fun c isHead => ?_,
    List.span_eq_takeWhile_dropWhile _ s⟩
  · simpa using List.mem_takeWhile_imp member
  · have stops := List.head?_dropWhile_not (fun c => !isScanBlank c) s
    rw [Option.mem_def.mp isHead] at stops
    simpa using stops

private theorem skipBlanks_append (blank : Blank word)
    (starts : ∀ c ∈ rest.head?, isScanBlank c = false) :
    skipBlanks (word ++ rest) = rest := by
  rw [skipBlanks, List.dropWhile_append_of_pos blank]
  cases rest with
  | nil => rfl
  | cons c rest => simp [starts c rfl]

private theorem exists_skipBlanks (s : List Char) :
    ∃ blanks, Blank blanks ∧ s = blanks ++ skipBlanks s ∧
      ∀ c ∈ (skipBlanks s).head?, isScanBlank c = false := by
  refine ⟨s.takeWhile isScanBlank, fun c member => List.mem_takeWhile_imp member,
    List.takeWhile_append_dropWhile.symm, fun c isHead => ?_⟩
  have stops := List.head?_dropWhile_not isScanBlank s
  rw [skipBlanks] at isHead
  rw [Option.mem_def.mp isHead] at stops
  simpa using stops

theorem scanLiteral_eq_some_iff : scanLiteral word s = some rest ↔ s = word ++ rest := by
  unfold scanLiteral
  constructor
  · intro scanned
    obtain ⟨isPrefix, isRest⟩ := Option.ite_none_right_eq_some.mp scanned
    obtain ⟨tail, rfl⟩ := List.isPrefixOf_iff_prefix.mp isPrefix
    rw [List.drop_left, Option.some.injEq] at isRest
    rw [isRest]
  · rintro rfl
    simp

/-- Blanks and a word that starts with no blank. -/
theorem scanWord_eq_some_iff (starts : word.head?.map isScanBlank = some false) :
    scanLiteral word (skipBlanks s) = some rest ↔
      ∃ blanks, Blank blanks ∧ s = blanks ++ word ++ rest := by
  rw [scanLiteral_eq_some_iff]
  constructor
  · intro scanned
    obtain ⟨blanks, blank, isText, -⟩ := exists_skipBlanks s
    exact ⟨blanks, blank, by rw [List.append_assoc, ← scanned]; exact isText⟩
  · rintro ⟨blanks, blank, rfl⟩
    rw [List.append_assoc]
    apply skipBlanks_append blank
    intro c isHead
    cases word with
    | nil => cases starts
    | cons c' word =>
        cases isHead
        exact Option.some.inj starts

private theorem skipBlanks_eq_nil_iff : skipBlanks s = [] ↔ Blank s := List.dropWhile_eq_nil_iff

end

/-! ## What is read -/

/-- The two names and what follows them. -/
def scanNames (s : List Char) : Option (List Char × List Char × List Char) := do
  let (modName, s) := scanString s
  let s ← scanLiteral "from".toList (skipBlanks s)
  let (frm, s) := scanString (skipBlanks s)
  some (modName, frm, s)

private theorem scanImport_eq_some_iff {words : List (List Char)} {s : List Char}
    {frm modName : String} :
    scanImport words s = some (frm, modName) ↔ ∃ tail rest,
      scanNames s = some (modName.toList, frm.toList, tail) ∧
      words.foldlM (fun s word => scanLiteral word (skipBlanks s)) tail = some rest ∧
      Blank rest := by
  simp only [scanImport, scanNames, Option.bind_eq_bind, Option.bind_eq_some_iff,
    Option.ite_none_right_eq_some, Option.some.injEq, Prod.mk.injEq, skipBlanks_eq_nil_iff]
  constructor
  · rintro ⟨s1, isFrom, rest, isTail, blank, rfl, rfl⟩
    exact ⟨_, rest, ⟨s1, isFrom, by simp, by simp, rfl⟩, isTail, blank⟩
  · rintro ⟨tail, rest, ⟨s1, isFrom, isModName, isFrm, rfl⟩, isTail, blank⟩
    exact ⟨s1, isFrom, rest, isTail, blank, by rw [isFrm]; simp, by rw [isModName]; simp⟩

private theorem scanNames_parts {s modName frm tail : List Char}
    (scanned : scanNames s = some (modName, frm, tail)) :
    ∃ s1 s2, ImportParts s modName frm s1 s2 tail := by
  obtain ⟨word1, rest1, rfl, noBlank1, ends1, scanned1⟩ := exists_scanString s
  simp only [scanNames, scanned1, Option.bind_eq_bind, Option.bind_eq_some_iff,
    Option.some.injEq, Prod.mk.injEq] at scanned
  obtain ⟨rest2, isFrom, rfl, isFrm, isTail⟩ := scanned
  obtain ⟨s1, blank1, isText1⟩ := (scanWord_eq_some_iff (by decide)).mp isFrom
  obtain ⟨s2, blank2, isText2, starts⟩ := exists_skipBlanks rest2
  obtain ⟨word2, rest3, isText3, noBlank2, ends2, scanned2⟩ :=
    exists_scanString (skipBlanks rest2)
  rw [scanned2] at isFrm isTail
  subst isFrm isTail
  refine ⟨s1, s2, ?_, noBlank1, noBlank2, blank1, ?_, blank2, ends2, ?_⟩
  · rw [isText1, isText2, isText3]
    simp only [List.append_assoc]
  · rintro rfl
    rw [isText1] at ends1
    exact absurd (ends1 'f' rfl) (by decide)
  · intro isEmpty
    obtain rfl : word2 = [] := isEmpty
    rw [isText3, List.nil_append] at starts
    cases rest3 with
    | nil => rfl
    | cons c rest3 => exact absurd ((starts c rfl).symm.trans (ends2 c rfl)) (by decide)

private theorem ImportParts.scanNames {s modName frm s1 s2 tail : List Char}
    (parts : ImportParts s modName frm s1 s2 tail) :
    scanNames s = some (modName, frm, tail) := by
  have ends : WordEnds (s1 ++ ("from".toList ++ (s2 ++ (frm ++ tail)))) := by
    intro c isHead
    cases isText : s1 with
    | nil => exact absurd isText parts.separated
    | cons c' s1' =>
        rw [isText] at isHead
        cases isHead
        exact parts.blank1 c (by rw [isText]; exact .head _)
  have isFrom :
      scanLiteral "from".toList (skipBlanks (s1 ++ ("from".toList ++ (s2 ++ (frm ++ tail)))))
      = some (s2 ++ (frm ++ tail)) :=
    (scanWord_eq_some_iff (by decide)).mpr ⟨s1, parts.blank1, by rw [List.append_assoc]⟩
  have starts : ∀ c ∈ (frm ++ tail).head?, isScanBlank c = false := by
    intro c isHead
    cases isFrm : frm with
    | nil =>
        rw [isFrm, parts.missing isFrm] at isHead
        cases isHead
    | cons c' frm =>
        rw [isFrm] at isHead
        cases isHead
        exact parts.noBlank2 c (by rw [isFrm]; exact .head _)
  rw [CommentAnnot.scanNames, parts.text]
  simp only [List.append_assoc, scanString_append parts.noBlank1 ends, isFrom,
    skipBlanks_append parts.blank2 starts, scanString_append parts.noBlank2 parts.ends,
    Option.bind_eq_bind, Option.bind_some]

/-- Three words after each other. -/
theorem scanWords_iff {word1 word2 word3 s : List Char}
    (starts1 : word1.head?.map isScanBlank = some false)
    (starts2 : word2.head?.map isScanBlank = some false)
    (starts3 : word3.head?.map isScanBlank = some false) :
    (∃ rest, [word1, word2, word3].foldlM
        (fun s word => scanLiteral word (skipBlanks s)) s = some rest ∧ Blank rest) ↔
      ∃ s1 s2 s3 s4, Blank s1 ∧ Blank s2 ∧ Blank s3 ∧ Blank s4 ∧
        s = s1 ++ word1 ++ s2 ++ word2 ++ s3 ++ word3 ++ s4 := by
  simp only [List.foldlM_cons, List.foldlM_nil, Option.bind_eq_bind, Option.bind_eq_some_iff,
    scanWord_eq_some_iff starts1, scanWord_eq_some_iff starts2, scanWord_eq_some_iff starts3,
    Option.pure_def, Option.some.injEq]
  constructor
  · rintro ⟨rest, ⟨t1, ⟨s1, blank1, rfl⟩, t2, ⟨s2, blank2, rfl⟩, t3,
      ⟨s3, blank3, rfl⟩, rfl⟩, blank4⟩
    exact ⟨s1, s2, s3, t3, blank1, blank2, blank3, blank4, by simp only [List.append_assoc]⟩
  · rintro ⟨s1, s2, s3, s4, blank1, blank2, blank3, blank4, rfl⟩
    exact ⟨s4,
      ⟨s2 ++ word2 ++ s3 ++ word3 ++ s4, ⟨s1, blank1, by simp only [List.append_assoc]⟩,
        s3 ++ word3 ++ s4, ⟨s2, blank2, by simp only [List.append_assoc]⟩, s4,
          ⟨s3, blank3, rfl⟩, rfl⟩,
      blank4⟩

private theorem scanTail_iff {w : Where} {tail : List Char} :
    (∃ rest, w.words.foldlM (fun s word => scanLiteral word (skipBlanks s)) tail = some rest ∧
      Blank rest) ↔ ImportTail w tail := by
  cases w with
  | default =>
      constructor
      · rintro ⟨rest, same, blank⟩
        cases same
        exact .default blank
      · intro isTail
        cases isTail with
        | default blank => exact ⟨tail, rfl, blank⟩
  | codeOnly =>
      refine (scanWords_iff (by decide) (by decide) (by decide)).trans ⟨?_, ?_⟩
      · rintro ⟨s1, s2, s3, s4, blank1, blank2, blank3, blank4, rfl⟩
        exact .codeOnly blank1 blank2 blank3 blank4
      · intro isTail
        cases isTail with
        | codeOnly blank1 blank2 blank3 blank4 =>
            exact ⟨_, _, _, _, blank1, blank2, blank3, blank4, rfl⟩
  | proofsOnly =>
      refine (scanWords_iff (by decide) (by decide) (by decide)).trans ⟨?_, ?_⟩
      · rintro ⟨s1, s2, s3, s4, blank1, blank2, blank3, blank4, rfl⟩
        exact .proofsOnly blank1 blank2 blank3 blank4
      · intro isTail
        cases isTail with
        | proofsOnly blank1 blank2 blank3 blank4 =>
            exact ⟨_, _, _, _, blank1, blank2, blank3, blank4, rfl⟩

/-- A scan reads one form of imports. -/
theorem scanImport_iff {w : Where} {s : String} {frm modName : String} :
    scanImport w.words s.toList = some (frm, modName) ↔ IsImport s frm modName w := by
  rw [scanImport_eq_some_iff]
  constructor
  · rintro ⟨tail, rest, names, isTail⟩
    obtain ⟨s1, s2, parts⟩ := scanNames_parts names
    exact ⟨s1, s2, tail, parts, scanTail_iff.mp ⟨rest, isTail⟩⟩
  · rintro ⟨s1, s2, tail, parts, isTail⟩
    obtain ⟨rest, isTail⟩ := scanTail_iff.mpr isTail
    exact ⟨tail, rest, parts.scanNames, isTail⟩

/-- First character of the second word. -/
def secondWord (s : List Char) : Option Char := (skipBlanks ((skipBlanks s).drop 4)).head?

def Where.secondWord : Where → Option Char
  | .default => none
  | .codeOnly => some 'c'
  | .proofsOnly => some 'p'

private theorem ImportTail.secondWord_eq {w : Where} {tail : List Char}
    (isTail : ImportTail w tail) :
    secondWord tail = w.secondWord := by
  have skipped {word s1 s2 : List Char} (starts : word.head?.map isScanBlank = some false)
      (blank : Blank s1) : skipBlanks (s1 ++ (word ++ s2)) = word ++ s2 :=
    scanLiteral_eq_some_iff.mp ((scanWord_eq_some_iff starts).mpr
      ⟨s1, blank, (List.append_assoc _ _ _).symm⟩)
  have dropped (s : List Char) : ("(for".toList ++ s).drop 4 = s := rfl
  cases isTail with
  | default blank =>
      rw [secondWord, skipBlanks_eq_nil_iff.mpr blank]
      rfl
  | codeOnly blank1 blank2 =>
      simp only [secondWord, List.append_assoc]
      rw [skipped (by decide) blank1, dropped, skipped (by decide) blank2]
      rfl
  | proofsOnly blank1 blank2 =>
      simp only [secondWord, List.append_assoc]
      rw [skipped (by decide) blank1, dropped, skipped (by decide) blank2]
      rfl

/-- What follows the names decides where the import goes. -/
theorem IsImport.unique {s frm modName frm' modName' : String} {w w' : Where}
    (isImport : IsImport s frm modName w) (isImport' : IsImport s frm' modName' w') : w = w' := by
  obtain ⟨s1, s2, tail, parts, isTail⟩ := isImport
  obtain ⟨s1', s2', tail', parts', isTail'⟩ := isImport'
  obtain ⟨-, -, rfl⟩ : _ ∧ _ ∧ tail = tail' := by
    simpa using parts.scanNames.symm.trans parts'.scanNames
  have same := isTail.secondWord_eq.symm.trans isTail'.secondWord_eq
  cases w <;> cases w' <;> first | rfl | cases same

/-- Exactly the imports are read, with their parts. -/
theorem readImport_eq_some_iff {s frm modName : String} {w : Where} :
    readImport s = some (frm, modName, w) ↔ IsImport s frm modName w := by
  have sound : ∀ {frm modName w}, readImport s = some (frm, modName, w) →
      IsImport s frm modName w := by
    intro frm modName w isRead
    unfold readImport at isRead
    split at isRead
    · cases isRead
      exact scanImport_iff.mp ‹_›
    · split at isRead
      · cases isRead
        exact scanImport_iff.mp ‹_›
      · split at isRead
        · cases isRead
          exact scanImport_iff.mp ‹_›
        · cases isRead
  refine ⟨sound, fun isImport => ?_⟩
  have scanned := scanImport_iff.mpr isImport
  cases isRead : readImport s with
  | none =>
      unfold readImport at isRead
      cases w with
      | proofsOnly =>
          rw [scanned] at isRead
          cases isRead
      | codeOnly =>
          rw [scanned] at isRead
          split at isRead
          · cases isRead
          · cases isRead
      | default =>
          rw [scanned] at isRead
          split at isRead
          · cases isRead
          · split at isRead
            · cases isRead
            · cases isRead
  | some i =>
      obtain ⟨frm', modName', w'⟩ := i
      obtain rfl := (sound isRead).unique isImport
      have scanned' := scanImport_iff.mpr (sound isRead)
      cases scanned.symm.trans scanned'
      rfl

end RefinedC.Frontend.CommentAnnot
