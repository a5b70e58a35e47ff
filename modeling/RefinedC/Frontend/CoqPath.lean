import RefinedC.Frontend.Filename

/-!
Coq module paths.

Source: `frontend/coq_path.ml`.

Owns: the members of a path, the check of a string, and paths as text.
-/

namespace RefinedC.Frontend

namespace CoqPath

def isLetter (c : Char) : Bool := ('a' ≤ c && c ≤ 'z') || ('A' ≤ c && c ≤ 'Z')

def isMemberChar (c : Char) : Bool := isLetter c || ('0' ≤ c && c ≤ '9') || c == '_'

def isPrintableAscii (c : Char) : Bool := ' ' ≤ c && c ≤ '~'

/-- Letters, digits and underscores, with a letter first. -/
def isMemberName (s : String) : Bool :=
  match s.toList with
  | [] => false
  | c :: cs => isLetter c && (c :: cs).all isMemberChar

end CoqPath

/-- A member of a Coq path. -/
structure CoqMember where
  name : String
  valid : CoqPath.isMemberName name = true

structure CoqPath where
  member : CoqMember
  members : List CoqMember

namespace CoqPath

/-- Why a string is not a member. The characters are checked before the first one. -/
def memberError (s : String) : String :=
  match s.toList with
  | [] => "is empty"
  | c :: cs =>
      match (c :: cs).find? fun x => !isMemberChar x with
      | some x =>
          if isPrintableAscii x then "contains '" ++ x.toString ++ "'"
          else "uses non-printable ASCII characters"
      | none => "starts with '" ++ c.toString ++ "'"

def memberOfString (s : String) : Except Exn CoqMember :=
  if valid : isMemberName s = true then .ok ⟨s, valid⟩
  else .error (.invalidArgument
    ("Name \"" ++ s ++ "\" is invalid as a Coq path member: it " ++ memberError s ++ "."))

def append (path : CoqPath) (suffix : List CoqMember) : CoqPath :=
  ⟨path.member, path.members ++ suffix⟩

/-- Members are separated by dots. -/
def toString (path : CoqPath) : String :=
  path.members.foldl (fun text m => text ++ "." ++ m.name) path.member.name

end CoqPath

/-! ## Characters of a path -/

theorem CoqMember.chars (m : CoqMember) :
    ∀ c ∈ m.name.toList, CoqPath.isMemberChar c = true := by
  have valid := m.valid
  unfold CoqPath.isMemberName at valid
  split at valid
  · cases valid
  · rename_i c cs isCons
    rw [Bool.and_eq_true, List.all_eq_true] at valid
    rw [isCons]
    exact valid.2

theorem CoqMember.isComponent (m : CoqMember) : Filename.IsComponent m.name := by
  have chars := m.chars
  constructor
  · intro isEmpty
    have valid := m.valid
    rw [isEmpty] at valid
    cases valid
  · intro isSep
    have isChar := chars '/' isSep
    cases isChar
  · intro isDot
    have isChar := chars '.' (by rw [isDot]; decide)
    cases isChar
  · intro isDots
    have isChar := chars '.' (by rw [isDots]; decide)
    cases isChar

theorem CoqPath.toString_chars (path : CoqPath) :
    ∀ c ∈ path.toString.toList, CoqPath.isMemberChar c = true ∨ c = '.' := by
  have fold : ∀ (ms : List CoqMember) (text : String),
      (∀ c ∈ text.toList, CoqPath.isMemberChar c = true ∨ c = '.') →
      ∀ c ∈ (ms.foldl (fun text m => text ++ "." ++ m.name) text).toList,
        CoqPath.isMemberChar c = true ∨ c = '.' := by
    intro ms
    induction ms with
    | nil => exact fun text chars => chars
    | cons m ms inductionHypothesis =>
        intro text chars
        rw [List.foldl_cons]
        refine inductionHypothesis _ fun c member => ?_
        simp only [String.toList_append, List.mem_append] at member
        rcases member with (inText | isDot) | inName
        · exact chars c inText
        · exact .inr (List.mem_singleton.mp isDot)
        · exact .inl (m.chars c inName)
  exact fold path.members path.member.name fun c member => .inl (path.member.chars c member)

end RefinedC.Frontend
