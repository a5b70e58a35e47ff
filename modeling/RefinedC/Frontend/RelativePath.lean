import RefinedC.Frontend.Filename

/-!
Relative paths at the boundaries of components.

Source: `Filename.relative_path` of `frontend/extra.ml`.

Owns: the contract of relative paths between canonical absolute paths, and the pairs
of paths for which it is kept.

The function compares texts: it does not look for a separator after the text of the
root, and always drops one character there.
-/

namespace RefinedC.Frontend

namespace Filename

/-! ## Canonical paths -/

structure CanonicalPath where
  components : List String
  valid : ∀ c ∈ components, IsComponent c
deriving DecidableEq

def CanonicalPath.text (path : CanonicalPath) : String := absPath path.components

private theorem CanonicalPath.ext_text {path path' : CanonicalPath}
    (same : path.text = path'.text) :
    path = path' := by
  have components := absPath_inj path.valid path'.valid same
  cases path
  cases path'
  cases components
  rfl

def CanonicalPath.StrictlyAbove (root file : CanonicalPath) : Prop :=
  ∃ below, below ≠ [] ∧ file.components = root.components ++ below

/-- At the place of the last component of `root`, the file has a longer name that
starts with it. -/
def CanonicalPath.ExtendedBy (root file : CanonicalPath) : Prop :=
  ∃ above a b more, root.components = above ++ [a] ∧ file.components = above ++ b :: more ∧
    a.toList <+: b.toList ∧ a ≠ b

/-- A path that can be joined to a directory. -/
structure IsRelative (path : String) : Prop where
  nonempty : path ≠ ""
  noSep : path.toList.head? ≠ some '/'

/-! ## Prefixes of texts -/

/-- Characters after the last component of a directory either start a component or
make its name longer. -/
theorem prefix_or_extended {root file : CanonicalPath} {rest : List Char}
    (same : sepChars root.components ++ rest = sepChars file.components) :
    root.components <+: file.components ∨ root.ExtendedBy file := by
  rcases rest with _ | ⟨x, more⟩
  · obtain ⟨below, isBelow, -⟩ := prefix_of_sepChars root.valid file.valid (.inl rfl) same
    exact .inl ⟨below, isBelow.symm⟩
  · by_cases isSep : x = '/'
    · subst isSep
      obtain ⟨below, isBelow, -⟩ :=
        prefix_of_sepChars root.valid file.valid (.inr ⟨more, rfl⟩) same
      exact .inl ⟨below, isBelow.symm⟩
    · rcases List.eq_nil_or_concat' root.components with isRoot | ⟨above, a, isRoot⟩
      · rw [isRoot] at same ⊢
        exact .inl (List.nil_prefix)
      · have components := root.valid
        rw [isRoot, List.forall_mem_append] at components
        have named :
            sepChars above ++ '/' :: (a.toList ++ x :: more) = sepChars file.components := by
          rw [← same, isRoot, sepChars_append]
          simp [sepChars]
        obtain ⟨below, isFile, isBelow⟩ :=
          prefix_of_sepChars components.1 file.valid (.inr ⟨_, rfl⟩) named
        cases below with
        | nil => cases isBelow
        | cons b below =>
            have isComponent : IsComponent b := file.valid b (by simp [isFile])
            have tails : a.toList ++ x :: more = b.toList ++ sepChars below := by
              simpa [sepChars] using isBelow
            have longer := congrArg (List.takeWhile fun c => !isDirSep c) tails
            rw [takeWhile_sepChars isComponent, List.takeWhile_append_of_pos
              (components.2 a List.mem_cons_self).isDirSep_eq_false,
              List.takeWhile_cons_of_pos (by simpa [isDirSep] using isSep)] at longer
            refine .inr ⟨above, a, b, below, isRoot, isFile, ⟨_, longer⟩, ?_⟩
            rintro rfl
            have lengths := congrArg List.length longer
            simp at lengths

/-- The text of a directory other than `/` starts the texts of the paths below it, and
of those that make its last name longer. -/
theorem text_prefix_iff {root file : CanonicalPath} (notRoot : root.components ≠ []) :
    root.text.toList <+: file.text.toList ↔
      file = root ∨ root.StrictlyAbove file ∨ root.ExtendedBy file := by
  rw [CanonicalPath.text, toList_absPath notRoot]
  constructor
  · rintro ⟨rest, same⟩
    by_cases isRoot : file.components = []
    · have long := two_le_length_sepChars root.valid notRoot
      have lengths := congrArg List.length same
      rw [CanonicalPath.text, isRoot, toList_absPath_nil, List.length_append,
        List.length_singleton] at lengths
      omega
    · rw [CanonicalPath.text, toList_absPath isRoot] at same
      rcases prefix_or_extended same with ⟨below, isBelow⟩ | isExtended
      · by_cases isNil : below = []
        · rw [isNil, List.append_nil] at isBelow
          exact .inl (CanonicalPath.ext_text (congrArg absPath isBelow.symm))
        · exact .inr (.inl ⟨below, isNil, isBelow.symm⟩)
      · exact .inr (.inr isExtended)
  · rintro (rfl | ⟨below, isBelow, isFile⟩ | ⟨above, a, b, more, isRoot, isFile,
      ⟨rest, isName⟩, -⟩)
    · simp only [CanonicalPath.text, toList_absPath notRoot]
      exact List.prefix_rfl
    · rw [CanonicalPath.text, isFile,
        toList_absPath (List.append_ne_nil_of_right_ne_nil _ isBelow), sepChars_append]
      exact List.prefix_append _ _
    · rw [CanonicalPath.text, isFile,
        toList_absPath (List.append_ne_nil_of_right_ne_nil _ (List.cons_ne_nil b more)), isRoot]
      refine ⟨rest ++ sepChars more, ?_⟩
      simp [sepChars, ← isName]

/-! ## The contract -/

/-- The relative path of `file` is `.` for the root itself, a path that leads from the
root to the file for a file below the root, and an exception otherwise. -/
structure RelativeCorrect (realpath : String → Option String) (root file : CanonicalPath) :
    Prop where
  same : relativePath realpath root.text file.text = .ok "." ↔ root = file
  below : (∃ path, relativePath realpath root.text file.text = .ok path ∧ IsRelative path ∧
    concat root.text path = file.text) ↔ root.StrictlyAbove file
  otherwise : root ≠ file → ¬ root.StrictlyAbove file →
    ∃ msg, relativePath realpath root.text file.text = .error (.invalidArgument msg)

section

variable {realpath : String → Option String}
  (fixed : ∀ path : CanonicalPath, realpath path.text = some path.text)

include fixed

/-- The characters that the function compares and drops. -/
theorem relativePath_text (root file : CanonicalPath) :
    relativePath realpath root.text file.text =
      if root = file then .ok "."
      else if root.text.toList <+: file.text.toList then
        .ok (String.ofList (file.text.toList.drop (root.text.length + 1)))
      else .error (.invalidArgument "Extra.Filename.relative_path") := by
  rw [relativePath, fixed root, fixed file]
  simp only
  by_cases same : root = file
  · rw [if_pos (congrArg CanonicalPath.text same), if_pos same]
  · rw [if_neg (same ∘ CanonicalPath.ext_text), if_neg same]
    by_cases isPrefix : root.text.toList <+: file.text.toList
    · have shorter := isPrefix.length_le
      rw [String.length_toList, String.length_toList] at shorter
      have taken := List.prefix_iff_eq_take.mp isPrefix
      rw [String.length_toList] at taken
      rw [if_pos isPrefix, if_neg (by omega), if_neg (fun differs => differs taken.symm)]
    · rw [if_neg isPrefix, ite_eq_left_iff]
      intro _
      rw [if_pos]
      intro taken
      exact isPrefix (taken ▸ List.take_prefix _ _)

private theorem relativePath_self (root : CanonicalPath) :
    relativePath realpath root.text root.text = .ok "." := by
  rw [relativePath_text fixed, if_pos rfl]

/-- Below a directory other than `/`, the relative path leads to the file. -/
theorem relativePath_below {root file : CanonicalPath} (notRoot : root.components ≠ [])
    (isBelow : root.StrictlyAbove file) :
    ∃ path, relativePath realpath root.text file.text = .ok path ∧ path ≠ "." ∧
      IsRelative path ∧ concat root.text path = file.text := by
  obtain ⟨below, nonempty, isFile⟩ := isBelow
  have components := file.valid
  rw [isFile, List.forall_mem_append] at components
  have chars : file.text.toList = root.text.toList ++ sepChars below := by
    rw [CanonicalPath.text, CanonicalPath.text, isFile, toList_absPath notRoot,
      toList_absPath (List.append_ne_nil_of_right_ne_nil _ nonempty), sepChars_append]
  have differs : root ≠ file := by
    rintro rfl
    exact nonempty (List.self_eq_append_right.mp isFile)
  obtain ⟨c, below, rfl⟩ := List.exists_cons_of_ne_nil nonempty
  have isComponent : IsComponent c := components.2 c List.mem_cons_self
  have dropped : file.text.toList.drop (root.text.length + 1) = c.toList ++ sepChars below := by
    rw [chars, ← String.length_toList, List.drop_append]
    simp [sepChars]
  have takeName := takeWhile_sepChars isComponent below
  refine ⟨String.ofList (c.toList ++ sepChars below), ?_, ?_, ⟨?_, ?_⟩, ?_⟩
  · rw [relativePath_text fixed, if_neg differs,
      if_pos (chars ▸ List.prefix_append _ _), dropped]
  · intro isCurrent
    rw [← String.toList_ofList (l := c.toList ++ sepChars below), isCurrent] at takeName
    exact isComponent.notCurrent (String.toList_inj.mp takeName.symm)
  · intro isEmpty
    rw [← String.toList_ofList (l := c.toList ++ sepChars below), isEmpty] at takeName
    exact isComponent.nonempty (String.toList_inj.mp takeName.symm)
  · intro startsWithSep
    rw [String.toList_ofList] at startsWithSep
    obtain ⟨more, isCons⟩ := List.head?_eq_some_iff.mp startsWithSep
    rw [isCons, List.takeWhile_cons_of_neg (by simp [isDirSep])] at takeName
    exact isComponent.nonempty (String.toList_eq_nil_iff.mp takeName.symm)
  · rw [CanonicalPath.text, concat_absPath root.valid, ← String.toList_inj,
      toList_absPath_append, String.toList_ofList, chars, CanonicalPath.text,
        toList_absPath notRoot]
    simp [sepChars]

/-- Below `/`, the path lacks a character. -/
theorem relativePath_below_root {root file : CanonicalPath} (isRoot : root.components = [])
    {path : String} (isRelative : relativePath realpath root.text file.text = .ok path)
    (differs : root ≠ file) : concat root.text path ≠ file.text := by
  intro joined
  have rootText : root.text = "/" := by rw [CanonicalPath.text, isRoot, absPath, if_pos rfl]
  rw [relativePath_text fixed, if_neg differs, rootText] at isRelative
  have long : 2 ≤ file.text.toList.length := by
    have notRoot : file.components ≠ [] := fun isNil =>
      differs (CanonicalPath.ext_text (by
        rw [rootText, CanonicalPath.text, isNil, absPath, if_pos rfl]))
    rw [CanonicalPath.text, toList_absPath notRoot]
    exact two_le_length_sepChars file.valid notRoot
  split at isRelative
  · cases isRelative
    have one : "/".length = 1 := rfl
    rw [CanonicalPath.text, concat_absPath root.valid, isRoot] at joined
    have lengths := congrArg (fun s => s.toList.length) joined
    simp only [toList_absPath_append, String.toList_ofList, List.length_append, List.length_cons,
      List.length_drop, one, sepChars, List.flatMap_nil, List.length_nil] at lengths
    omega
  · cases isRelative

/-- A file whose name makes the last name of the root longer is not rejected. -/
theorem relativePath_extended {root file : CanonicalPath} (isExtended : root.ExtendedBy file) :
    root ≠ file ∧ ¬ root.StrictlyAbove file ∧
      ∃ path, relativePath realpath root.text file.text = .ok path := by
  have notRoot : root.components ≠ [] := by
    obtain ⟨above, a, b, more, isRoot, -⟩ := isExtended
    simp [isRoot]
  have isPrefix := (text_prefix_iff notRoot).mpr (.inr (.inr isExtended))
  obtain ⟨above, a, b, more, isRoot, isFile, -, differs⟩ := isExtended
  have notSame : root ≠ file := by
    rintro rfl
    rw [isRoot, List.append_cancel_left_eq] at isFile
    exact differs (List.cons.inj isFile).1
  refine ⟨notSame, ?_, _, by rw [relativePath_text fixed, if_neg notSame, if_pos isPrefix]⟩
  rintro ⟨below, -, isBelow⟩
  rw [isFile, isRoot, List.append_assoc, List.append_cancel_left_eq] at isBelow
  exact differs (List.cons.inj isBelow).1.symm

private theorem relativeCorrect_self (root : CanonicalPath) :
    RelativeCorrect realpath root root := by
  have self := relativePath_self fixed root
  refine ⟨iff_of_true self rfl, iff_of_false ?_ ?_, fun differs => absurd rfl differs⟩
  · rintro ⟨path, isPath, -, joined⟩
    rw [self] at isPath
    cases isPath
    have lengths := congrArg (fun s => s.toList.length) joined
    simp only [CanonicalPath.text, concat_absPath root.valid, toList_absPath_append,
      List.length_append] at lengths
    by_cases isRoot : root.components = []
    · rw [isRoot, toList_absPath_nil] at lengths
      cases lengths
    · rw [toList_absPath isRoot] at lengths
      simp at lengths
  · rintro ⟨below, nonempty, isFile⟩
    exact nonempty (List.self_eq_append_right.mp isFile)

/-- Relative paths are correct for exactly these pairs. -/
theorem relativePath_correct_iff (root file : CanonicalPath) :
    RelativeCorrect realpath root file ↔
      root = file ∨ root.components ≠ [] ∧ ¬ root.ExtendedBy file := by
  constructor
  · intro correct
    refine or_iff_not_imp_left.mpr fun differs => ⟨fun isRoot => ?_, fun isExtended => ?_⟩
    · have isBelow : root.StrictlyAbove file := by
        refine ⟨file.components, fun isNil => differs ?_, by rw [isRoot, List.nil_append]⟩
        exact CanonicalPath.ext_text (congrArg absPath (isRoot.trans isNil.symm))
      obtain ⟨path, isRelative, -, joined⟩ := correct.below.mpr isBelow
      exact relativePath_below_root fixed isRoot isRelative differs joined
    · obtain ⟨differs, notBelow, path, isPath⟩ := relativePath_extended fixed isExtended
      obtain ⟨msg, isError⟩ := correct.otherwise differs notBelow
      rw [isPath] at isError
      cases isError
  · rintro (rfl | ⟨notRoot, notExtended⟩)
    · exact relativeCorrect_self fixed root
    · by_cases same : root = file
      · exact same ▸ relativeCorrect_self fixed root
      · by_cases isBelow : root.StrictlyAbove file
        · obtain ⟨path, isPath, notCurrent, isRelative, joined⟩ :=
            relativePath_below fixed notRoot isBelow
          refine ⟨iff_of_false ?_ same,
            iff_of_true ⟨path, isPath, isRelative, joined⟩ isBelow,
              fun _ notBelow => absurd isBelow notBelow⟩
          rw [isPath]
          exact fun isOk => notCurrent (Except.ok.inj isOk)
        · have notPrefix : ¬ root.text.toList <+: file.text.toList := by
            rw [text_prefix_iff notRoot]
            rintro (isFile | isAbove | isExtended)
            · exact same isFile.symm
            · exact isBelow isAbove
            · exact notExtended isExtended
          have isError : relativePath realpath root.text file.text =
              .error (.invalidArgument "Extra.Filename.relative_path") := by
            rw [relativePath_text fixed, if_neg same, if_neg notPrefix]
          refine ⟨iff_of_false ?_ same, iff_of_false ?_ isBelow, fun _ _ => ⟨_, isError⟩⟩
          · rw [isError]
            exact fun isOk => nomatch isOk
          · rintro ⟨path, isPath, -⟩
            rw [isError] at isPath
            cases isPath

end

/-! ## Two pairs that are not handled -/

private theorem isComponent_of_letter {c : String} (nonempty : c ≠ "") (noSep : '/' ∉ c.toList)
    (noDot : '.' ∉ c.toList) : IsComponent c := by
  refine ⟨nonempty, noSep, ?_, ?_⟩
  · rintro rfl
    exact noDot (by decide)
  · rintro rfl
    exact noDot (by decide)

def rootPath : CanonicalPath := ⟨[], fun _ member => nomatch member⟩

def namedPath (c : String) (more : List String) (name : IsComponent c)
    (names : ∀ d ∈ more, IsComponent d) : CanonicalPath :=
  ⟨c :: more, List.forall_mem_cons.mpr ⟨name, names⟩⟩

private theorem isComponent_x : ∀ d ∈ ["x"], IsComponent d := by
  rw [List.forall_mem_singleton]
  exact isComponent_of_letter (by decide) (by decide) (by decide)

def pPath : CanonicalPath :=
  namedPath "p" [] (isComponent_of_letter (by decide) (by decide) (by decide))
    fun _ member => nomatch member

def pxPath : CanonicalPath :=
  namedPath "p" ["x"] (isComponent_of_letter (by decide) (by decide) (by decide)) isComponent_x

def pqPath : CanonicalPath :=
  namedPath "pq" ["x"] (isComponent_of_letter (by decide) (by decide) (by decide)) isComponent_x

theorem relativePath_correct_pxPath : RelativeCorrect some pPath pxPath := by
  refine (relativePath_correct_iff (fun _ => rfl) pPath pxPath).mpr (.inr ⟨by decide, ?_⟩)
  rintro ⟨above, a, b, more, isRoot, isFile, -, differs⟩
  obtain ⟨rfl, rfl⟩ : above = [] ∧ a = "p" := by
    cases above with
    | nil => exact ⟨rfl, (List.cons.inj isRoot).1.symm⟩
    | cons c above => exact absurd (List.cons.inj isRoot).2 (by simp)
  exact differs (List.cons.inj isFile).1

/-- A sibling of the root is taken to be below it, and a path below `/` is cut. -/
theorem relativePath_incorrect :
    relativePath some "/p" "/pq/x" = .ok "/x" ∧ ¬ RelativeCorrect some pPath pqPath ∧
      relativePath some "/" "/pq/x" = .ok "q/x" ∧ ¬ RelativeCorrect some rootPath pqPath := by
  refine ⟨by decide, fun correct => ?_, by decide, fun correct => ?_⟩
  · obtain ⟨msg, isError⟩ := correct.otherwise (by decide) (by
      rintro ⟨below, -, isBelow⟩
      exact absurd (List.cons.inj isBelow).1 (by decide))
    have isOk : relativePath some pPath.text pqPath.text = .ok "/x" := by decide
    rw [isOk] at isError
    cases isError
  · obtain ⟨path, isPath, -, joined⟩ := correct.below.mpr ⟨_, by decide, rfl⟩
    have isOk : relativePath some rootPath.text pqPath.text = .ok "q/x" := by decide
    rw [isOk] at isPath
    cases isPath
    exact absurd joined (by decide)

end Filename

end RefinedC.Frontend
