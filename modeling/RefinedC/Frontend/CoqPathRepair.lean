import RefinedC.Frontend.CoqPath
import RefinedC.Library.Fallible
import Mathlib.Data.Set.List

/-!
Parsing and repair of Coq module paths.

Source: `frontend/coq_path.ml`, `String.trim_leading` of `frontend/extra.ml`, and the Coq root
path of `init` in `frontend/main.ml`.

Owns: the two directions between strings and paths, the repair of a string that is no path, and
that `init` always has a path to suggest.

What removes the characters that are not ASCII is a parameter.
-/

namespace RefinedC.Frontend

open Library

/-! ## Strings -/

/-- `String.split_on_char`. -/
def splitOnChar (sep : Char) (s : String) : List String :=
  (s.toList.splitOn sep).map String.ofList

/-- The loop compares with an underscore, whichever character it is given. -/
def trimLeading (_c : Char) (s : String) : String :=
  String.ofList (s.toList.dropWhile (· == '_'))

namespace CoqPath

/-! ## Parsing -/

def pathOfMembers : List CoqMember → Except Exn CoqPath
  | [] => .error (.invalidArgument "Coq_path.path_of_members requires a non-empty list.")
  | m :: ms => .ok ⟨m, ms⟩

def splitMembers (s : String) : Except Exn CoqPath := do
  match ← (splitOnChar '.' s).mapM memberOfString with
  | m :: ms => .ok ⟨m, ms⟩
  | [] => .error (.invalidArgument "The empty module path is forbidden.")

def pathOfString (s : String) : Except Exn CoqPath :=
  match splitMembers s with
  | .error (.invalidArgument msg) =>
      .error (.invalidArgument ("String \"" ++ s ++ "\" is not a valid Coq module path.\n" ++ msg))
  | outcome => outcome

/-! ## Repair -/

/-- Underscores stand for invalid characters. -/
def fixupChar (c : Char) : Char :=
  if isLetter c || ('0' ≤ c && c ≤ '9') then c else '_'

section

variable (fromUtf8 : String → String)

def fixupStringMember (s : String) : Option String :=
  let s := fromUtf8 s
  let s := String.ofList (s.toList.map fixupChar)
  let s := trimLeading '_' s
  match s.toList with
  | [] => none
  | c :: _ => if isLetter c then some s else none

/-- The members that are left, and the repaired ones in reverse. -/
def buildPath : List String → List String → Option String
  | [], [] => none
  | [], acc => some (".".intercalate acc.reverse)
  | m :: ms, acc =>
      match fixupStringMember fromUtf8 m with
      | none => none
      | some m => buildPath ms (m :: acc)

def fixupStringPath (s : String) : Option String := buildPath fromUtf8 (splitOnChar '.' s) []

end

end CoqPath

/-! ## The Coq root path of `init` -/

/-- An exception, or an assertion that does not hold. -/
inductive InitFailure where
  | exn (e : Exn)
  | assertFalse
deriving DecidableEq, Repr

def defaultCoqRootPrefix : List String := ["refinedc", "project"]

def defaultCoqRoot (base : CoqMember) : Except InitFailure CoqPath :=
  match defaultCoqRootPrefix.mapM CoqPath.memberOfString with
  | .error (.invalidArgument _) => .error .assertFalse
  | .error e => .error (.exn e)
  | .ok members => (CoqPath.pathOfMembers (members ++ [base])).mapError .exn

section

variable (fromUtf8 : String → String)

/-- The path that is suggested in place of `d`. -/
def examplePath (d : String) : Except InitFailure CoqPath :=
  let d := (CoqPath.fixupStringPath fromUtf8 d).getD
    (".".intercalate (defaultCoqRootPrefix ++ ["my_project"]))
  match CoqPath.pathOfString d with
  | .error (.invalidArgument _) => .error .assertFalse
  | outcome => outcome.mapError .exn

def parseCoqPath (d : String) : Except InitFailure CoqPath :=
  match CoqPath.pathOfString d with
  | .error (.invalidArgument msg) => do
      let suggested ← examplePath fromUtf8 d
      .error (.exn (.panic (msg ++ "\nRetry using option \"--coq-path=" ++ suggested.toString ++
        "\" or similar.")))
  | outcome => outcome.mapError .exn

/-- The path that is suggested when the directory is called `base`. -/
def exampleRoot (base : String) : Except InitFailure CoqPath :=
  let base := (CoqPath.fixupStringMember fromUtf8 base).getD "my_project"
  match (CoqPath.memberOfString base).mapError .exn >>= defaultCoqRoot with
  | .error (.exn (.invalidArgument _)) => .error .assertFalse
  | outcome => outcome

/-- The path given on the command line, or one with the name of the working directory. -/
def initCoqPath (wd : String) : Option String → Except InitFailure CoqPath
  | some d => parseCoqPath fromUtf8 d
  | none =>
      let base := Filename.basename wd
      match CoqPath.memberOfString base with
      | .error (.invalidArgument msg) => do
          let suggested ← exampleRoot fromUtf8 base
          .error (.exn (.panic ("Current directory name \"" ++ base ++
            "\" cannot be used to build a Coq module path.\n" ++ msg ++
            "\nRetry using option \"--coq-path=" ++ suggested.toString ++ "\" or similar.")))
      | .error e => .error (.exn e)
      | .ok member => defaultCoqRoot member

end

/-! ## Splitting and joining -/

private theorem intercalate_splitOnChar (s : String) : ".".intercalate (splitOnChar '.' s) = s := by
  rw [← String.toList_inj, String.toList_intercalate, splitOnChar, List.map_map]
  have names : String.toList ∘ String.ofList = id := funext fun cs => String.toList_ofList
  rw [names, List.map_id]
  exact List.intercalate_splitOn '.'

private theorem splitOnChar_intercalate {names : List String} (notNil : names ≠ [])
    (noDot : ∀ name ∈ names, '.' ∉ name.toList) :
    splitOnChar '.' (".".intercalate names) = names := by
  have parts : (names.map String.toList).map String.ofList = names := by simp
  have noDots : ∀ cs ∈ names.map String.toList, '.' ∉ cs := by simpa using noDot
  have split := List.splitOn_intercalate '.' noDots (mt List.map_eq_nil_iff.mp notNil)
  rw [splitOnChar, String.toList_intercalate]
  exact (congrArg (List.map String.ofList) split).trans parts

namespace CoqPath

/-! ## Parsing and printing -/

private theorem memberOfString_eq_ok {s : String} {m : CoqMember} :
    memberOfString s = .ok m ↔ s = m.name := by
  unfold memberOfString
  split
  · rename_i valid
    constructor
    · intro same
      cases same
      rfl
    · rintro rfl
      rfl
  · rename_i invalid
    constructor
    · intro same
      cases same
    · rintro rfl
      exact absurd m.valid invalid

def names (p : CoqPath) : List String := (p.member :: p.members).map CoqMember.name

private theorem names_ne_nil (p : CoqPath) : p.names ≠ [] := List.cons_ne_nil _ _

private theorem names_noDot (p : CoqPath) : ∀ name ∈ p.names, '.' ∉ name.toList := by
  intro name member isDot
  obtain ⟨m, -, rfl⟩ := List.mem_map.mp member
  exact absurd (m.chars '.' isDot) (by decide)

private theorem mapM_memberOfString_eq_ok {ss : List String} {ms : List CoqMember} :
    ss.mapM memberOfString = .ok ms ↔ ss = ms.map CoqMember.name := by
  simp only [mapM_eq_ok, memberOfString_eq_ok]
  rw [← List.forall₂_map_right_iff, List.forall₂_eq_eq_eq]

private theorem pathOfString_eq_ok {s : String} {p : CoqPath} :
    pathOfString s = .ok p ↔ splitOnChar '.' s = p.names := by
  have split : splitMembers s = .ok p ↔ splitOnChar '.' s = p.names := by
    rw [splitMembers, bind_eq_ok]
    constructor
    · rintro ⟨ms, parsed, isPath⟩
      cases ms with
      | nil => cases isPath
      | cons m ms =>
          cases isPath
          exact mapM_memberOfString_eq_ok.mp parsed
    · exact fun isNames => ⟨_, mapM_memberOfString_eq_ok.mpr isNames, rfl⟩
  rw [← split, pathOfString]
  cases splitMembers s with
  | ok p => rfl
  | error e => cases e <;> simp

private theorem toString_eq (p : CoqPath) : p.toString = ".".intercalate p.names := by
  have fold : ∀ (ms : List CoqMember) (text : String),
      ms.foldl (fun text m => text ++ "." ++ m.name) text =
        ".".intercalate (text :: ms.map CoqMember.name) := by
    intro ms
    induction ms with
    | nil => intro text; simp
    | cons m ms inductionHypothesis =>
        intro text
        rw [List.foldl_cons, inductionHypothesis, String.intercalate_cons_append,
          List.map_cons, String.intercalate_cons_cons, String.append_assoc]
  exact fold p.members p.member.name

private theorem toString_pathOfString {s : String} {p : CoqPath} (parsed : pathOfString s = .ok p) :
    p.toString = s := by
  rw [toString_eq, ← pathOfString_eq_ok.mp parsed, intercalate_splitOnChar]

private theorem pathOfString_toString (p : CoqPath) : pathOfString p.toString = .ok p := by
  rw [pathOfString_eq_ok, toString_eq, splitOnChar_intercalate p.names_ne_nil p.names_noDot]

/-! ## Accepted strings -/

/-- A letter, and then letters, digits and underscores. -/
def IsName (name : String) : Prop :=
  ∃ c cs, name.toList = c :: cs ∧ isLetter c = true ∧ ∀ x ∈ cs, isMemberChar x = true

private theorem isMemberName_iff {name : String} : isMemberName name = true ↔ IsName name := by
  unfold isMemberName IsName
  cases name.toList with
  | nil => simp
  | cons c cs =>
      have first : isLetter c = true → isMemberChar c = true := by
        intro isLetter
        simp [isMemberChar, isLetter]
      simp only [Bool.and_eq_true, List.all_cons, List.all_eq_true, List.cons.injEq]
      constructor
      · rintro ⟨letter, -, chars⟩
        exact ⟨c, cs, ⟨rfl, rfl⟩, letter, chars⟩
      · rintro ⟨_, _, ⟨rfl, rfl⟩, letter, chars⟩
        exact ⟨letter, first letter, chars⟩

private theorem exists_member_iff {name : String} :
    (∃ m : CoqMember, m.name = name) ↔ IsName name := by
  rw [← isMemberName_iff]
  constructor
  · rintro ⟨m, rfl⟩
    exact m.valid
  · exact fun valid => ⟨⟨name, valid⟩, rfl⟩

private theorem exists_memberOfString_iff {name : String} :
    (∃ m, memberOfString name = .ok m) ↔ IsName name := by
  rw [← exists_member_iff]
  exact exists_congr fun m => memberOfString_eq_ok.trans eq_comm

/-- The names of a path are any names, at least one. -/
theorem exists_names_iff {ss : List String} :
    (∃ p : CoqPath, ss = p.names) ↔ ss ≠ [] ∧ ∀ s ∈ ss, IsName s := by
  constructor
  · rintro ⟨p, rfl⟩
    refine ⟨p.names_ne_nil, fun s member => ?_⟩
    obtain ⟨m, -, rfl⟩ := List.mem_map.mp member
    exact exists_member_iff.mp ⟨m, rfl⟩
  · rintro ⟨notNil, valid⟩
    have members : ∃ ms : List CoqMember, ms.map CoqMember.name = ss := by
      have covered : ∀ s ∈ ss, s ∈ Set.range CoqMember.name :=
        fun s member => exists_member_iff.mpr (valid s member)
      exact Set.mem_range.mp ((Set.range_list_map CoqMember.name).symm ▸ covered)
    obtain ⟨ms, rfl⟩ := members
    cases ms with
    | nil => exact absurd rfl notNil
    | cons m ms => exact ⟨⟨m, ms⟩, rfl⟩

/-- The accepted strings are names with dots between them. -/
theorem exists_pathOfString_iff {s : String} :
    (∃ p, pathOfString s = .ok p) ↔
      ∃ names, names ≠ [] ∧ (∀ name ∈ names, IsName name) ∧
        s = ".".intercalate names := by
  constructor
  · rintro ⟨p, parsed⟩
    obtain ⟨notNil, valid⟩ := exists_names_iff.mp ⟨p, rfl⟩
    exact ⟨p.names, notNil, valid, by rw [← toString_eq, toString_pathOfString parsed]⟩
  · rintro ⟨names, notNil, valid, rfl⟩
    obtain ⟨p, rfl⟩ := exists_names_iff.mpr ⟨notNil, valid⟩
    exact ⟨p, toString_eq p ▸ pathOfString_toString p⟩

/-! ## Repaired strings -/

section

variable {fromUtf8 : String → String} {s t : String}

private theorem isMemberChar_fixupChar (c : Char) : isMemberChar (fixupChar c) = true := by
  unfold fixupChar
  split
  · rename_i kept
    exact Bool.or_eq_true_iff.mpr (.inl kept)
  · decide

private theorem fixupChar_of_isMemberChar {c : Char} (isChar : isMemberChar c = true) :
    fixupChar c = c := by
  unfold fixupChar
  split
  · rfl
  · rename_i changed
    exact (eq_of_beq ((Bool.or_eq_true_iff.mp isChar).resolve_left changed)).symm

private theorem fixupStringMember_eq_some :
    fixupStringMember fromUtf8 s = some t ↔
      t = trimLeading '_' (String.ofList ((fromUtf8 s).toList.map fixupChar)) ∧
        ∃ c cs, t.toList = c :: cs ∧ isLetter c = true := by
  unfold fixupStringMember
  dsimp only
  generalize trimLeading '_' (String.ofList ((fromUtf8 s).toList.map fixupChar)) = trimmed
  constructor
  · intro repaired
    split at repaired
    · cases repaired
    · rename_i c cs isChars
      split at repaired
      · cases repaired
        rename_i letter
        exact ⟨rfl, c, cs, isChars, letter⟩
      · cases repaired
  · rintro ⟨rfl, c, cs, isChars, letter⟩
    rw [isChars]
    exact if_pos letter

/-- What is repaired is a name. -/
theorem isName_fixupStringMember (repaired : fixupStringMember fromUtf8 s = some t) :
    IsName t := by
  obtain ⟨isTrimmed, c, cs, isChars, letter⟩ := fixupStringMember_eq_some.mp repaired
  refine ⟨c, cs, isChars, letter, fun x member => ?_⟩
  have inTrimmed : x ∈ t.toList := isChars ▸ List.mem_cons_of_mem c member
  rw [isTrimmed, trimLeading, String.toList_ofList, String.toList_ofList] at inTrimmed
  obtain ⟨y, -, rfl⟩ := List.mem_map.mp ((List.dropWhile_sublist _).subset inTrimmed)
  exact isMemberChar_fixupChar y

private theorem buildPath_eq_some {ms acc : List String} :
    buildPath fromUtf8 ms acc = some t ↔
      ∃ repaired, List.Forall₂ (fixupStringMember fromUtf8 · = some ·) ms repaired ∧
        acc.reverse ++ repaired ≠ [] ∧ t = ".".intercalate (acc.reverse ++ repaired) := by
  induction ms generalizing acc with
  | nil =>
      cases acc with
      | nil => simp [buildPath]
      | cons m acc =>
          constructor
          · intro built
            cases built
            exact ⟨[], .nil, by simp, by simp⟩
          · rintro ⟨_, ⟨⟩, -, rfl⟩
            simp [buildPath]
  | cons m ms inductionHypothesis =>
      cases fixed : fixupStringMember fromUtf8 m with
      | none => simp [buildPath, fixed, List.forall₂_cons_left_iff]
      | some name =>
          have step : buildPath fromUtf8 (m :: ms) acc = buildPath fromUtf8 ms (name :: acc) := by
            simp [buildPath, fixed]
          rw [step, inductionHypothesis]
          simp [List.forall₂_cons_left_iff, fixed]

/-- What is repaired is a path. -/
theorem exists_path_of_fixupStringPath (repaired : fixupStringPath fromUtf8 s = some t) :
    ∃ p, pathOfString t = .ok p := by
  obtain ⟨names, parts, notNil, rfl⟩ := buildPath_eq_some.mp repaired
  refine exists_pathOfString_iff.mpr ⟨names, notNil, fun name member => ?_, rfl⟩
  obtain ⟨part, -, isName⟩ := exists_of_mem_right parts member
  exact isName_fixupStringMember isName

/-! ## What is accepted is not changed -/

private theorem isAscii_of_isMemberChar {c : Char} (isChar : isMemberChar c = true) :
    c.toNat < 128 := by
  simp only [isMemberChar, isLetter, Bool.or_eq_true, Bool.and_eq_true, decide_eq_true_eq,
    beq_iff_eq, Char.le_def, UInt32.le_iff_toNat_le] at isChar
  rcases isChar with ((⟨-, last⟩ | ⟨-, last⟩) | ⟨-, last⟩) | rfl
  · exact Nat.lt_of_le_of_lt last (by decide)
  · exact Nat.lt_of_le_of_lt last (by decide)
  · exact Nat.lt_of_le_of_lt last (by decide)
  · decide

private theorem fixupStringMember_of_isName
    (keepsAscii : ∀ s : String, (∀ c ∈ s.toList, c.toNat < 128) → fromUtf8 s = s)
    (isName : IsName s) : fixupStringMember fromUtf8 s = some s := by
  obtain ⟨m, rfl⟩ := exists_member_iff.mpr isName
  obtain ⟨c, cs, isChars, letter, -⟩ := isName
  have ascii : fromUtf8 m.name = m.name :=
    keepsAscii m.name fun x member => isAscii_of_isMemberChar (m.chars x member)
  have sameChars : m.name.toList.map fixupChar = m.name.toList :=
    (List.map_congr_left fun x member => fixupChar_of_isMemberChar (m.chars x member)).trans
      (List.map_id _)
  have notTrimmed : (c == '_') = false := by
    cases isUnderscore : c == '_' with
    | false => rfl
    | true =>
        rw [eq_of_beq isUnderscore] at letter
        cases letter
  refine fixupStringMember_eq_some.mpr ⟨?_, c, cs, isChars, letter⟩
  rw [ascii, sameChars, trimLeading, String.toList_ofList, isChars, List.dropWhile_cons,
    notTrimmed, if_neg Bool.false_ne_true, ← isChars, String.ofList_toList]

private theorem fixupStringPath_of_pathOfString
    (keepsAscii : ∀ s : String, (∀ c ∈ s.toList, c.toNat < 128) → fromUtf8 s = s)
    {p : CoqPath} (parsed : pathOfString s = .ok p) : fixupStringPath fromUtf8 s = some s := by
  obtain ⟨notNil, valid⟩ := exists_names_iff.mp ⟨p, rfl⟩
  rw [fixupStringPath, pathOfString_eq_ok.mp parsed, buildPath_eq_some]
  refine ⟨p.names, ?_, notNil, ?_⟩
  · rw [List.forall₂_same]
    exact fun name member => fixupStringMember_of_isName keepsAscii (valid name member)
  · rw [List.reverse_nil, List.nil_append, ← toString_eq, toString_pathOfString parsed]

end

end CoqPath

/-! ## `init` -/

section

open CoqPath

variable {fromUtf8 : String → String}

private theorem exists_defaultCoqRoot (base : CoqMember) : ∃ p, defaultCoqRoot base = .ok p := by
  have parsed : defaultCoqRootPrefix.mapM memberOfString =
      .ok [⟨"refinedc", by decide⟩, ⟨"project", by decide⟩] :=
    mapM_memberOfString_eq_ok.mpr rfl
  rw [defaultCoqRoot, parsed]
  exact ⟨_, rfl⟩

/-- There is always a path to suggest. -/
theorem exists_examplePath (d : String) : ∃ p, examplePath fromUtf8 d = .ok p := by
  have valid : ∃ p, pathOfString ((fixupStringPath fromUtf8 d).getD
      (".".intercalate (defaultCoqRootPrefix ++ ["my_project"]))) = .ok p := by
    cases repaired : fixupStringPath fromUtf8 d with
    | some t => exact exists_path_of_fixupStringPath repaired
    | none =>
        exact ⟨_, pathOfString_toString
          ⟨⟨"refinedc", by decide⟩,
            [⟨"project", by decide⟩, ⟨"my_project", by decide⟩]⟩⟩
  obtain ⟨p, parsed⟩ := valid
  refine ⟨p, ?_⟩
  unfold examplePath
  dsimp only
  rw [parsed]
  rfl

private theorem exists_exampleRoot (base : String) : ∃ p, exampleRoot fromUtf8 base = .ok p := by
  have valid : ∃ m, memberOfString ((fixupStringMember fromUtf8 base).getD "my_project") =
      .ok m := by
    cases repaired : fixupStringMember fromUtf8 base with
    | some t => exact exists_memberOfString_iff.mpr (isName_fixupStringMember repaired)
    | none => exact ⟨⟨"my_project", by decide⟩, memberOfString_eq_ok.mpr rfl⟩
  obtain ⟨m, parsed⟩ := valid
  obtain ⟨p, root⟩ := exists_defaultCoqRoot m
  refine ⟨p, ?_⟩
  unfold exampleRoot
  dsimp only
  rw [parsed, Except.mapError, ok_bind, root]

/-- No assertion of `init` fails. -/
theorem initCoqPath_ne_assertFalse (wd : String) (coqPath : Option String) :
    initCoqPath fromUtf8 wd coqPath ≠ .error .assertFalse := by
  cases coqPath with
  | some d =>
      obtain ⟨suggested, isExample⟩ : ∃ p, examplePath fromUtf8 d = .ok p :=
        exists_examplePath d
      rw [initCoqPath, parseCoqPath, isExample]
      cases pathOfString d with
      | ok p => nofun
      | error e => cases e <;> nofun
  | none =>
      obtain ⟨suggested, isExample⟩ :
          ∃ p, exampleRoot fromUtf8 (Filename.basename wd) = .ok p :=
        exists_exampleRoot _
      rw [initCoqPath, isExample]
      cases memberOfString (Filename.basename wd) with
      | ok m =>
          obtain ⟨p, root⟩ := exists_defaultCoqRoot m
          exact root.trans_ne nofun
      | error e => cases e <;> nofun

/-- Parsing, printing and repair of Coq paths agree. -/
theorem coq_path_agreement (fromUtf8 : String → String) :
    (∀ s t, fixupStringPath fromUtf8 s = some t → ∃ p, pathOfString t = .ok p) ∧
      (∀ s t, fixupStringMember fromUtf8 s = some t → ∃ m, memberOfString t = .ok m) ∧
      (∀ wd coqPath, initCoqPath fromUtf8 wd coqPath ≠ .error .assertFalse) ∧
      (∀ s, (∃ p, pathOfString s = .ok p) ↔
        ∃ names, names ≠ [] ∧ (∀ name ∈ names, IsName name) ∧
          s = ".".intercalate names) ∧
      (∀ s p, pathOfString s = .ok p → p.toString = s) ∧
      (∀ p suffix, pathOfString (append p suffix).toString = .ok (append p suffix)) ∧
      (∀ p : CoqPath, pathOfString p.toString = .ok p) ∧
      ((∀ s : String, (∀ c ∈ s.toList, c.toNat < 128) → fromUtf8 s = s) →
        (∀ s p, pathOfString s = .ok p → fixupStringPath fromUtf8 s = some s) ∧
          ∀ s m, memberOfString s = .ok m → fixupStringMember fromUtf8 s = some s) :=
  ⟨fun _ _ => exists_path_of_fixupStringPath,
    fun _ _ repaired => exists_memberOfString_iff.mpr (isName_fixupStringMember repaired),
    initCoqPath_ne_assertFalse, fun _ => exists_pathOfString_iff,
    fun _ _ => toString_pathOfString, fun _ _ => pathOfString_toString _,
    pathOfString_toString, fun keepsAscii =>
      ⟨fun _ _ => fixupStringPath_of_pathOfString keepsAscii, fun _ _ parsed =>
        fixupStringMember_of_isName keepsAscii (exists_memberOfString_iff.mp ⟨_, parsed⟩)⟩⟩

end

/-- With a function that drops what is not ASCII, a path is its own repair. -/
theorem coq_path_agreement_linkedList :
    CoqPath.fixupStringPath
        (fun s => String.ofList (s.toList.filter fun c => decide (c.toNat < 128)))
        "refinedc.linked_list" = some "refinedc.linked_list" := by
  have agreement := coq_path_agreement
    fun s => String.ofList (s.toList.filter fun c => decide (c.toNat < 128))
  have keepsAscii (s : String) (ascii : ∀ c ∈ s.toList, c.toNat < 128) :
      String.ofList (s.toList.filter fun c => decide (c.toNat < 128)) = s := by
    rw [List.filter_eq_self.mpr (by simpa using ascii), String.ofList_toList]
  obtain ⟨-, -, -, -, -, -, parsed, identity⟩ := agreement
  exact (identity keepsAscii).1 _ _
    (parsed ⟨⟨"refinedc", by decide⟩, [⟨"linked_list", by decide⟩]⟩)

end RefinedC.Frontend
