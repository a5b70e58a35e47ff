import Mathlib.Data.List.Basic
import Mathlib.Tactic.Common

/-!
File names.

Source: `Filename` of `frontend/extra.ml`, and what it uses of the `Filename` of the
standard library.

Owns: the operations on file names as strings, canonical absolute paths as lists of
components, and what the operations do on canonical paths.

The function that canonicalises a path is a parameter.
-/

namespace RefinedC.Frontend

/-- Exceptions of the command line tool. -/
inductive Exn where
  | sysError
  | unixError
  | invalidArgument (msg : String)
  | panic (msg : String)
deriving DecidableEq, Repr

namespace Filename

/-! ## Operations -/

def isDirSep (c : Char) : Bool := c == '/'

def currentDirName : String := "."

def concat (dirname filename : String) : String :=
  if dirname = "" ∨ dirname.toList.getLast? = some '/' then dirname ++ filename
  else dirname ++ "/" ++ filename

/-- What is left of a reversed name without the separators at its end. -/
def trimSeps (reversed : List Char) : List Char := reversed.dropWhile isDirSep

def basename (name : String) : String :=
  if name = "" then currentDirName
  else
    match trimSeps name.toList.reverse with
    | [] => String.ofList (name.toList.take 1)
    | rest => String.ofList (rest.takeWhile fun c => !isDirSep c).reverse

def dirname (name : String) : String :=
  if name = "" then currentDirName
  else
    match trimSeps name.toList.reverse with
    | [] => String.ofList (name.toList.take 1)
    | rest =>
        match rest.dropWhile fun c => !isDirSep c with
        | [] => currentDirName
        | rest =>
            match trimSeps rest with
            | [] => String.ofList (name.toList.take 1)
            | rest => String.ofList rest.reverse

/-- Leading dots of the last component do not start an extension. -/
def removeExtension (name : String) : String :=
  let reversed := name.toList.reverse
  match reversed.dropWhile fun c => !isDirSep c && c != '.' with
  | '.' :: before =>
      match before.dropWhile fun c => c == '.' with
      | [] => name
      | c :: _ => if isDirSep c then name else String.ofList before.reverse
  | _ => name

/-- The path of `file` from `root`. -/
def relativePath (realpath : String → Option String) (root file : String) : Except Exn String :=
  match realpath root, realpath file with
  | some root, some file =>
      if root = file then .ok "."
      else if file.length < root.length then
        .error (.invalidArgument "Extra.Filename.relative_path")
      else if file.toList.take root.length ≠ root.toList then
        .error (.invalidArgument "Extra.Filename.relative_path")
      else .ok (String.ofList (file.toList.drop (root.length + 1)))
  | _, _ => .error (.invalidArgument "Extra.Filename.realpath")

/-! ## Canonical paths -/

structure IsComponent (c : String) : Prop where
  nonempty : c ≠ ""
  noSep : '/' ∉ c.toList
  notCurrent : c ≠ "."
  notParent : c ≠ ".."

/-- The characters of the components, each after a separator. -/
def sepChars (cs : List String) : List Char := cs.flatMap fun c => '/' :: c.toList

/-- The absolute path with the given components. -/
def absPath (cs : List String) : String :=
  if cs = [] then "/" else String.ofList (sepChars cs)

/-- Canonical absolute paths of existing files, and with each the directories above. -/
structure Canonicalises (realpath : String → Option String) : Prop where
  canonical : ∀ p q, realpath p = some q → ∃ cs, (∀ c ∈ cs, IsComponent c) ∧
      q = absPath cs
  above : ∀ p cs ds, (∀ c ∈ cs ++ ds, IsComponent c) →
      realpath p = some (absPath (cs ++ ds)) →
    realpath (absPath cs) = some (absPath cs)

theorem sepChars_append (cs ds : List String) : sepChars (cs ++ ds) = sepChars cs ++ sepChars ds :=
  List.flatMap_append

theorem toList_absPath {cs : List String} (nonempty : cs ≠ []) :
    (absPath cs).toList = sepChars cs := by
  rw [absPath, if_neg nonempty, String.toList_ofList]

theorem toList_absPath_nil : (absPath []).toList = ['/'] := by
  simp [absPath]

theorem toList_absPath_append (cs : List String) (c : String) :
    (absPath (cs ++ [c])).toList = sepChars cs ++ '/' :: c.toList := by
  rw [toList_absPath (by simp), sepChars_append]
  simp [sepChars]

theorem IsComponent.isDirSep_eq_false {c : String} (isComponent : IsComponent c) :
    ∀ x ∈ c.toList, (!isDirSep x) = true := by
  intro x member
  have notSep : x ≠ '/' := fun isSep => isComponent.noSep (isSep ▸ member)
  simp [isDirSep, notSep]

/-- A component ends in a character that is no separator. -/
theorem IsComponent.exists_last {c : String} (isComponent : IsComponent c) :
    ∃ init last, c.toList = init ++ [last] ∧ last ≠ '/' := by
  rcases List.eq_nil_or_concat' c.toList with isNil | ⟨init, last, same⟩
  · exact absurd (String.toList_eq_nil_iff.mp isNil) isComponent.nonempty
  · exact ⟨init, last, same, fun isSep => isComponent.noSep (by simp [same, isSep])⟩

/-- Reading a path from its end, a component comes first and then a separator. -/
theorem reverse_absPath_append (cs : List String) {c : String} (isComponent : IsComponent c) :
    ∃ last init, (absPath (cs ++ [c])).toList.reverse = last :: init ++
      '/' :: (sepChars cs).reverse ∧
      c.toList.reverse = last :: init ∧ ∀ x ∈ last :: init, (!isDirSep x) = true := by
  obtain ⟨init, last, same, _⟩ := isComponent.exists_last
  have reversed : c.toList.reverse = last :: init.reverse := by simp [same]
  refine ⟨last, init.reverse, ?_, reversed, fun x member => ?_⟩
  · rw [toList_absPath_append, List.reverse_append, List.reverse_cons, reversed]
    simp
  · rw [← reversed, List.mem_reverse] at member
    exact isComponent.isDirSep_eq_false x member

private theorem trimSeps_of_noSep {last : Char} {init rest : List Char}
    (noSep : (!isDirSep last) = true) :
    trimSeps (last :: init ++ rest) = last :: init ++ rest := by
  rw [trimSeps, List.cons_append, List.dropWhile_cons_of_neg (by simpa using noSep)]

private theorem absPath_ne_empty (cs : List String) : absPath cs ≠ "" := by
  intro isEmpty
  have chars := congrArg String.toList isEmpty
  rcases List.eq_nil_or_concat' cs with rfl | ⟨ds, c, rfl⟩
  · simp [absPath] at chars
  · rw [toList_absPath_append] at chars
    simp at chars

theorem basename_absPath {cs : List String} {c : String} (isComponent : IsComponent c) :
    basename (absPath (cs ++ [c])) = c := by
  obtain ⟨last, init, reversed, isReversed, noSep⟩ := reverse_absPath_append cs isComponent
  rw [basename, if_neg (absPath_ne_empty _), reversed,
    trimSeps_of_noSep (noSep last List.mem_cons_self)]
  simp only [List.cons_append]
  rw [← List.cons_append, List.takeWhile_append_of_pos noSep,
    List.takeWhile_cons_of_neg (by simp [isDirSep]), List.append_nil, ← isReversed,
    List.reverse_reverse, String.ofList_toList]

theorem dirname_absPath {cs : List String} {c : String} (components : ∀ d ∈ cs, IsComponent d)
    (isComponent : IsComponent c) : dirname (absPath (cs ++ [c])) = absPath cs := by
  obtain ⟨last, init, reversed, -, noSep⟩ := reverse_absPath_append cs isComponent
  rw [dirname, if_neg (absPath_ne_empty _), reversed,
    trimSeps_of_noSep (noSep last List.mem_cons_self)]
  simp only [List.cons_append]
  rw [← List.cons_append, List.dropWhile_append_of_pos noSep,
    List.dropWhile_cons_of_neg (by simp [isDirSep])]
  have dropSep : trimSeps ('/' :: (sepChars cs).reverse) = trimSeps (sepChars cs).reverse :=
    List.dropWhile_cons_of_pos rfl
  simp only [dropSep]
  rcases List.eq_nil_or_concat' cs with rfl | ⟨ds, d, rfl⟩
  · simp [sepChars, trimSeps, absPath]
  · obtain ⟨last', init', reversed', -, noSep'⟩ :=
      reverse_absPath_append ds (components d (by simp))
    rw [toList_absPath (by simp)] at reversed'
    rw [reversed', trimSeps_of_noSep (noSep' last' List.mem_cons_self)]
    simp only [List.cons_append]
    rw [← List.cons_append, ← reversed', List.reverse_reverse, absPath, if_neg (by simp)]

theorem dirname_root : dirname (absPath []) = absPath [] := by decide

theorem concat_absPath {cs : List String} (components : ∀ d ∈ cs, IsComponent d)
    (name : String) :
    concat (absPath cs) name = absPath (cs ++ [name]) := by
  rw [concat]
  rcases List.eq_nil_or_concat' cs with rfl | ⟨ds, d, rfl⟩
  · apply String.toList_inj.mp
    rw [toList_absPath_append]
    simp [absPath, sepChars]
  · have notSep : (absPath (ds ++ [d])).toList.getLast? ≠ some '/' := by
      obtain ⟨init, last, same, notSep⟩ := (components d (by simp)).exists_last
      rw [toList_absPath_append, same, ← List.cons_append, ← List.append_assoc,
        List.getLast?_concat]
      simpa using notSep
    rw [if_neg (by simp [absPath_ne_empty, notSep])]
    apply String.toList_inj.mp
    rw [toList_absPath_append, String.toList_append, String.toList_append,
      toList_absPath (by simp)]
    simp

/-! ## Paths and their components -/

theorem two_le_length_sepChars {cs : List String} (components : ∀ c ∈ cs, IsComponent c)
    (nonempty : cs ≠ []) : 2 ≤ (sepChars cs).length := by
  obtain ⟨c, cs', rfl⟩ := List.exists_cons_of_ne_nil nonempty
  have isComponent := components c List.mem_cons_self
  have notNil : c.toList ≠ [] :=
    fun isNil => isComponent.nonempty (String.toList_eq_nil_iff.mp isNil)
  have positive := List.length_pos_iff.mpr notNil
  simp only [sepChars, List.flatMap_cons, List.length_append, List.length_cons]
  omega

theorem absPath_eq_append_iff {above below : List String}
    (components : ∀ c ∈ above ++ below, IsComponent c) :
    absPath above = absPath (above ++ below) ↔ below = [] := by
  constructor
  · intro same
    by_contra nonempty
    have long := two_le_length_sepChars
      (fun c member => components c (List.mem_append_right _ member)) nonempty
    have chars := congrArg (fun s => s.toList.length) same
    simp only [toList_absPath (List.append_ne_nil_of_right_ne_nil above nonempty),
      sepChars_append, List.length_append] at chars
    by_cases isRoot : above = []
    · subst isRoot
      rw [toList_absPath_nil, List.length_singleton] at chars
      simp only [sepChars, List.flatMap_nil, List.length_nil] at chars long
      omega
    · rw [toList_absPath isRoot] at chars
      omega
  · rintro rfl
    rw [List.append_nil]

theorem takeWhile_sepChars {c : String} (isComponent : IsComponent c) (cs : List String) :
    (c.toList ++ sepChars cs).takeWhile (fun x => !isDirSep x) = c.toList := by
  rw [List.takeWhile_append_of_pos isComponent.isDirSep_eq_false]
  cases cs with
  | nil => simp [sepChars]
  | cons d cs => simp [sepChars, isDirSep]

/-- Characters that continue a path after a component start with a separator. -/
theorem prefix_of_sepChars {above path : List String} {rest : List Char}
    (isAbove : ∀ c ∈ above, IsComponent c) (isPath : ∀ c ∈ path, IsComponent c)
    (continues : rest = [] ∨ ∃ more, rest = '/' :: more)
    (same : sepChars above ++ rest = sepChars path) :
    ∃ below, path = above ++ below ∧ rest = sepChars below := by
  induction above generalizing path with
  | nil => exact ⟨path, rfl, same⟩
  | cons c above inductionHypothesis =>
      rw [List.forall_mem_cons] at isAbove
      cases path with
      | nil => simp [sepChars] at same
      | cons d path =>
          rw [List.forall_mem_cons] at isPath
          have tails : c.toList ++ (sepChars above ++ rest) = d.toList ++ sepChars path := by
            simpa [sepChars] using same
          have first : c.toList = d.toList := by
            have taken := congrArg (List.takeWhile fun x => !isDirSep x) tails
            rw [takeWhile_sepChars isPath.1,
              List.takeWhile_append_of_pos isAbove.1.isDirSep_eq_false] at taken
            have stops : (sepChars above ++ rest).takeWhile (fun x => !isDirSep x) = [] := by
              cases above with
              | nil =>
                  rcases continues with rfl | ⟨more, rfl⟩
                  · rfl
                  · simp [sepChars, isDirSep]
              | cons e above => simp [sepChars, isDirSep]
            rwa [stops, List.append_nil] at taken
          obtain ⟨below, rfl, isRest⟩ :=
            inductionHypothesis isAbove.2 isPath.2
              (by rwa [first, List.append_cancel_left_eq] at tails)
          rw [String.toList_inj.mp first]
          exact ⟨below, rfl, isRest⟩

theorem absPath_inj {path path' : List String} (isPath : ∀ c ∈ path, IsComponent c)
    (isPath' : ∀ c ∈ path', IsComponent c) (same : absPath path = absPath path') :
    path = path' := by
  by_cases isRoot : path = []
  · subst isRoot
    exact ((@absPath_eq_append_iff [] path' isPath').mp same).symm
  · by_cases isRoot' : path' = []
    · subst isRoot'
      exact (@absPath_eq_append_iff [] path isPath).mp same.symm
    · have chars := congrArg String.toList same
      rw [toList_absPath isRoot, toList_absPath isRoot'] at chars
      obtain ⟨below, rfl, isNil⟩ := prefix_of_sepChars isPath isPath' (.inl rfl)
        ((List.append_nil _).trans chars)
      cases below with
      | nil => rw [List.append_nil]
      | cons c below => simp [sepChars] at isNil

theorem prefix_of_absPath {above path : List String} {rest : List Char} (nonempty : above ≠ [])
    (isAbove : ∀ c ∈ above, IsComponent c) (isPath : ∀ c ∈ path, IsComponent c)
    (same : (absPath above).toList ++ '/' :: rest = (absPath path).toList) :
    above <+: path := by
  rw [toList_absPath nonempty] at same
  by_cases isRoot : path = []
  · subst isRoot
    obtain ⟨c, above, rfl⟩ := List.exists_cons_of_ne_nil nonempty
    simp [sepChars, toList_absPath_nil] at same
  · rw [toList_absPath isRoot] at same
    obtain ⟨below, rfl, -⟩ := prefix_of_sepChars isAbove isPath (.inr ⟨rest, rfl⟩) same
    exact List.prefix_append above below

/-! ## Relative paths -/

/-- The path below a directory. Below the root directory, its first character is lost. -/
def belowPath (above below : List String) : String :=
  if below = [] then "."
  else String.ofList ((sepChars below).drop (if above = [] then 2 else 1))

theorem relativePath_absPath {realpath : String → Option String} {above below : List String}
    (components : ∀ c ∈ above ++ below, IsComponent c)
    (root : realpath (absPath above) = some (absPath above))
    (file : realpath (absPath (above ++ below)) = some (absPath (above ++ below))) :
    relativePath realpath (absPath above) (absPath (above ++ below)) =
      .ok (belowPath above below) := by
  rw [relativePath, root, file]
  simp only
  by_cases isSame : below = []
  · rw [if_pos ((absPath_eq_append_iff components).mpr isSame), belowPath, if_pos isSame]
  · rw [if_neg (isSame ∘ (absPath_eq_append_iff components).mp), belowPath, if_neg isSame]
    have chars : (absPath (above ++ below)).toList = sepChars above ++ sepChars below := by
      rw [toList_absPath (List.append_ne_nil_of_right_ne_nil above isSame), sepChars_append]
    have long := two_le_length_sepChars
      (fun c member => components c (List.mem_append_right _ member)) isSame
    rw [← String.length_toList, ← String.length_toList, chars, List.length_append]
    by_cases isRoot : above = []
    · subst isRoot
      obtain ⟨c, below', rfl⟩ := List.exists_cons_of_ne_nil isSame
      rw [toList_absPath_nil, List.length_singleton, if_neg (by omega), if_neg, if_pos rfl]
      · rfl
      · simp [sepChars]
    · rw [toList_absPath isRoot, if_neg (by omega), if_neg (by simp), if_neg isRoot]
      simp [List.drop_append]

theorem Canonicalises.exists_dirname {realpath : String → Option String} {path real : String}
    (canonical : Canonicalises realpath) (isReal : realpath path = some real) :
    ∃ cs, (∀ c ∈ cs, IsComponent c) ∧ dirname real = absPath cs ∧
      ∀ above, above <+: cs → realpath (absPath above) = some (absPath above) := by
  obtain ⟨cs, components, rfl⟩ := canonical.canonical path real isReal
  rcases List.eq_nil_or_concat' cs with rfl | ⟨ds, c, rfl⟩
  · refine ⟨[], components, dirname_root, fun above isPrefix => ?_⟩
    rw [List.prefix_nil.mp isPrefix]
    exact canonical.above path [] [] components isReal
  · have isComponent := components c (by simp)
    refine ⟨ds, fun d member => components d (List.mem_append_left _ member),
      dirname_absPath (fun d member => components d (List.mem_append_left _ member)) isComponent,
      fun above isPrefix => ?_⟩
    obtain ⟨between, rfl⟩ := isPrefix
    rw [List.append_assoc] at components isReal
    exact canonical.above path above (between ++ [c]) components isReal

end Filename

end RefinedC.Frontend
