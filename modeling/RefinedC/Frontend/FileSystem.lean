import RefinedC.Frontend.Filename
import RefinedC.Library.AssocList
import RefinedC.Library.Persistent
import RefinedC.Library.TextLines

/-!
File system.

Source: the file operations of `frontend/extra.ml`, of the standard library and of the
shell that `frontend/main.ml` uses.

Owns: directories and the texts of files, the operations on them with the exceptions
that they raise, and which paths an operation leaves alone.

Does not own: the shell. What it does with a command is a parameter, of which only the
effect on texts without expansions is known.

Paths are compared as strings. Permissions and links are left out.
-/

namespace RefinedC.Frontend

open Library

inductive Node where
  | dir
  | file (text : List Char)
deriving DecidableEq

structure FileSystem where
  entries : List (String × Node)

abbrev FsM : Type → Type := Persistent Exn FileSystem

namespace FileSystem

variable (fs : FileSystem)

def node (path : String) : Option Node := fs.entries.lookup path

def text (path : String) : Option (List Char) :=
  match fs.node path with
  | some (.file text) => some text
  | _ => none

def isDirectory (path : String) : Bool := decide (fs.node path = some .dir)

def fileExists (path : String) : Bool := (fs.node path).isSome

def set (path : String) (node : Node) : FileSystem := ⟨(path, node) :: fs.entries⟩

/-- Keeps what is at paths with a property. -/
def restrict (keep : String → Bool) : FileSystem :=
  ⟨fs.entries.filter fun entry => keep entry.1⟩

/-- The lines of a file, none if it is missing. -/
def lines (path : String) : List String :=
  match fs.text path with
  | some text => (linesOf '\n' text).map String.ofList
  | none => []

/-- Whether a path is a directory or in it. -/
def isBelow (dir path : String) : Bool :=
  path == dir || (dir.toList ++ ['/']).isPrefixOf path.toList

/-- What `Sys.readdir` returns is empty. -/
def isEmptyDir (dir : String) : Bool :=
  fs.entries.all fun entry => entry.1 == dir || Filename.dirname entry.1 != dir

end FileSystem

/-! ## Operations -/

/-- Reads the file system without changing it. -/
def reads {α : Type} (f : FileSystem → α) : FsM α := fun fs => (.ok (f fs), fs)

def mkdir (path : String) : FsM Unit := fun fs =>
  if fs.fileExists path || !fs.isDirectory (Filename.dirname path) then (.error .unixError, fs)
  else (.ok (), fs.set path .dir)

def writeText (path : String) (text : List Char) : FsM Unit := fun fs =>
  if fs.isDirectory path || (!fs.fileExists path && !fs.isDirectory (Filename.dirname path)) then
    (.error .sysError, fs)
  else (.ok (), fs.set path (.file text))

def writeFile (path : String) (lines : List String) : FsM Unit :=
  writeText path (textOf '\n' (lines.map String.toList))

/-- The file must exist. -/
def appendFile (path : String) (lines : List String) : FsM Unit := fun fs =>
  match fs.text path with
  | some text => (.ok (), fs.set path (.file (text ++ textOf '\n' (lines.map String.toList))))
  | none => (.error .sysError, fs)

def readFile (path : String) : FsM (List String) := fun fs =>
  match fs.text path with
  | some text => (.ok ((linesOf '\n' text).map String.ofList), fs)
  | none => (.error .sysError, fs)

def remove (path : String) : FsM Unit := fun fs =>
  match fs.text path with
  | some _ => (.ok (), fs.restrict fun p => p != path)
  | none => (.error .sysError, fs)

/-- What the shell does with the command `rm -rf` and the text after it. -/
abbrev RmCommand : Type := String → FileSystem → FileSystem

/-- The path is part of the command as it is, without quotes. -/
def rmRf (rm : RmCommand) (path : String) : FsM Unit := fun fs => (.ok (), rm path fs)

/-- Goes on with a default after `Sys_error`. -/
def orDefault {α : Type} (m : FsM α) (default : α) : FsM α :=
  m.tryWith fun e => if e = .sysError then some (pure default) else none

/-! ## The shell -/

/-- The characters that do not stand for themselves inside of a word. -/
def shellSpecial : List Char := "|&;<>()$`\\\"' \t\n*?[\x7b".toList

/-- A text that the shell takes as it is. -/
def IsPlain (text : String) : Prop := ∀ c ∈ text.toList, c ∉ shellSpecial

/-- A text that is split into words and otherwise taken as it is. -/
def IsWords (text : String) : Prop :=
  ∀ c ∈ text.toList, c ∈ shellSpecial → c = ' ' ∨ c = '\t'

/-- One path is removed with what is below it. Several words only remove something. -/
structure RemovesWords (rm : RmCommand) : Prop where
  plain : ∀ cs fs other, cs ≠ [] → (∀ c ∈ cs, Filename.IsComponent c) →
    IsPlain (Filename.absPath cs) → (rm (Filename.absPath cs) fs).node other =
      if FileSystem.isBelow (Filename.absPath cs) other then none else fs.node other
  words : ∀ text fs other, IsWords text →
    (rm text fs).node other = fs.node other ∨ (rm text fs).node other = none

theorem isPlain_iff {text : String} :
    IsPlain text ↔ (text.toList.all fun c => !shellSpecial.contains c) = true := by
  simp [IsPlain]

theorem IsPlain.isWords {text : String} (plain : IsPlain text) : IsWords text :=
  fun c member special => absurd special (plain c member)

/-! ## What an operation leaves alone -/

namespace FileSystem

variable {fs fs' : FileSystem} {path other : String} {node' : Node} {keep : String → Bool}

@[simp] theorem set_node_same : (fs.set path node').node path = some node' := by
  simp [set, node]

theorem set_node_other (different : other ≠ path) :
    (fs.set path node').node other = fs.node other := by
  have notSame : (other == path) = false := by simpa using different
  simp [set, node, List.lookup_cons, notSame]

@[simp] theorem restrict_node :
    (fs.restrict keep).node path = if keep path then fs.node path else none :=
  lookup_filter_key fs.entries

theorem text_congr (same : fs.node path = fs'.node path) : fs.text path = fs'.text path := by
  rw [text, same, text]

theorem lines_congr (same : fs.node path = fs'.node path) : fs.lines path = fs'.lines path := by
  rw [lines, text_congr same, lines]

@[simp] theorem set_text_same {text : List Char} :
    (fs.set path (.file text)).text path = some text := by
  simp [FileSystem.text]

private theorem lines_of_text {text : List Char} (isText : fs.text path = some text) :
    fs.lines path = (linesOf '\n' text).map String.ofList := by
  rw [lines, isText]

theorem newline_not_mem_of_mem_lines {line : String} (member : line ∈ fs.lines path) :
    '\n' ∉ line.toList := by
  rw [lines] at member
  split at member
  · obtain ⟨chars, inText, rfl⟩ := List.mem_map.mp member
    rw [String.toList_ofList]
    exact newline_not_mem_of_mem_linesOf inText
  · cases member

private theorem map_ofList_map_toList (lines : List String) :
    (lines.map String.toList).map String.ofList = lines := by
  rw [List.map_map]
  exact (List.map_congr_left fun line _ => String.ofList_toList).trans (List.map_id lines)

/-- Written lines are read again. -/
theorem lines_set_textOf {lines : List String} (noNewline : ∀ l ∈ lines, '\n' ∉ l.toList) :
    (fs.set path (.file (textOf '\n' (lines.map String.toList)))).lines path = lines := by
  rw [lines_of_text set_text_same, linesOf_textOf, map_ofList_map_toList]
  simpa using noNewline

/-- A line appended to a terminated file is its last line. -/
theorem lines_append_terminated {text : List Char} {line : String}
    (isText : fs.text path = some text) (terminated : Terminated '\n' text)
    (noNewline : '\n' ∉ line.toList) :
    (fs.set path (.file (text ++ textOf '\n' ([line].map String.toList)))).lines path =
      fs.lines path ++ [line] := by
  rw [lines_of_text set_text_same, lines_of_text isText, List.map_singleton,
    linesOf_append_terminated terminated noNewline]
  simp

/-- A line appended to another file continues its last line. -/
theorem lines_append_unterminated {text : List Char} {line : String}
    (isText : fs.text path = some text) (unterminated : ¬ Terminated '\n' text)
    (noNewline : '\n' ∉ line.toList) :
    ∃ before last, last ≠ "" ∧ fs.lines path = before ++ [last] ∧
      (fs.set path (.file (text ++ textOf '\n' ([line].map String.toList)))).lines path =
        before ++ [last ++ line] := by
  obtain ⟨before, last, nonempty, old, new⟩ :=
    linesOf_append_unterminated unterminated noNewline
  refine ⟨before.map String.ofList, String.ofList last, ?_, ?_, ?_⟩
  · intro isEmpty
    rw [← String.toList_eq_nil_iff, String.toList_ofList] at isEmpty
    exact nonempty isEmpty
  · rw [lines_of_text isText, old, List.map_append, List.map_singleton]
  · rw [lines_of_text set_text_same, List.map_singleton, new, List.map_append, List.map_singleton,
      String.ofList_append, String.ofList_toList]

end FileSystem

/-- Reading a file with the empty list as default. -/
theorem orDefault_readFile (path : String) :
    orDefault (readFile path) [] = reads fun fs => fs.lines path := by
  funext fs
  rw [orDefault, Persistent.tryWith, readFile, reads, FileSystem.lines]
  cases fs.text path with
  | some text => rfl
  | none => rfl

/-- The computation leaves a path alone, whether it succeeds or not. -/
def LeavesAlone {α : Type} (path : String) (m : FsM α) : Prop :=
  ∀ node, Persistent.Preserves (fun fs => fs.node path = node) m

namespace LeavesAlone

variable {α β : Type} {path other : String} {m : FsM α} {f : α → FsM β}

theorem node_eq (alone : LeavesAlone path m) (fs : FileSystem) :
    (m fs).2.node path = fs.node path :=
  (alone (fs.node path)).holds rfl

private theorem of_node_eq (same : ∀ fs, (m fs).2.node path = fs.node path) :
    LeavesAlone path m := by
  intro node fs isNode
  have after := same fs
  match outcome : m fs with
  | (.ok a, fs') =>
      rw [outcome] at after
      exact after.trans isNode
  | (.error e, fs') =>
      rw [outcome] at after
      exact after.trans isNode

theorem pure (a : α) : LeavesAlone path (Pure.pure a : FsM α) :=
  fun _ => Persistent.Preserves.pure a

theorem lift (x : Except Exn α) : LeavesAlone path (Persistent.lift x : FsM α) :=
  fun _ => Persistent.Preserves.lift x

theorem reads (g : FileSystem → α) : LeavesAlone path (Frontend.reads g) :=
  of_node_eq fun _ => rfl

theorem bind (first : LeavesAlone path m) (second : ∀ a, LeavesAlone path (f a)) :
    LeavesAlone path (m >>= f) :=
  fun node => Persistent.Preserves.bind (first node) fun a => second a node

theorem node_bind (rest : ∀ a, LeavesAlone path (f a)) (fs : FileSystem) :
    ((m >>= f) fs).2.node path = (m fs).2.node path := by
  match outcome : m fs with
  | (.ok a, fs') =>
      rw [Persistent.bind_ok outcome]
      exact (rest a).node_eq fs'
  | (.error e, fs') => rw [Persistent.bind_error outcome]

theorem forM {γ : Type} {body : γ → FsM PUnit} (elements : List γ)
    (step : ∀ x ∈ elements, LeavesAlone path (body x)) :
    LeavesAlone path (elements.forM body) :=
  fun node => Persistent.Preserves.forM elements fun x member => step x member node

theorem orDefault {default : α} (tried : LeavesAlone path m) :
    LeavesAlone path (Frontend.orDefault m default) := by
  intro node
  refine Persistent.Preserves.tryWith (tried node) fun e m' handled => ?_
  split at handled
  · cases handled
    exact Persistent.Preserves.pure default
  · cases handled

theorem readFile : LeavesAlone path (readFile other) := by
  refine of_node_eq fun fs => ?_
  rw [Frontend.readFile]
  split <;> rfl

theorem mkdir (different : path ≠ other) : LeavesAlone path (mkdir other) := by
  refine of_node_eq fun fs => ?_
  rw [Frontend.mkdir]
  split
  · rfl
  · exact FileSystem.set_node_other different

theorem writeText {text : List Char} (different : path ≠ other) :
    LeavesAlone path (writeText other text) := by
  refine of_node_eq fun fs => ?_
  rw [Frontend.writeText]
  split
  · rfl
  · exact FileSystem.set_node_other different

theorem appendFile {lines : List String} (different : path ≠ other) :
    LeavesAlone path (appendFile other lines) := by
  refine of_node_eq fun fs => ?_
  rw [Frontend.appendFile]
  split
  · exact FileSystem.set_node_other different
  · rfl

theorem remove (different : path ≠ other) : LeavesAlone path (remove other) := by
  refine of_node_eq fun fs => ?_
  rw [Frontend.remove]
  split
  · simp [different]
  · rfl

theorem rmRf {rm : RmCommand} {cs : List String} (removes : RemovesWords rm) (nonempty : cs ≠ [])
    (components : ∀ c ∈ cs, Filename.IsComponent c) (isPath : other = Filename.absPath cs)
    (plain : IsPlain other) (notBelow : FileSystem.isBelow other path = false) :
    LeavesAlone path (rmRf rm other) := by
  subst isPath
  refine of_node_eq fun fs => ?_
  rw [Frontend.rmRf, removes.plain cs fs path nonempty components plain, notBelow,
    if_neg Bool.false_ne_true]

end LeavesAlone

/-- The computation leaves a path alone or removes it, whether it succeeds or not. -/
def KeepsOrRemoves {α : Type} (path : String) (m : FsM α) : Prop :=
  ∀ node, Persistent.Preserves (fun fs => fs.node path = node ∨ fs.node path = none) m

section

variable {α : Type} {path other : String} {m : FsM α}

theorem KeepsOrRemoves.node_cases (keeps : KeepsOrRemoves path m) (fs : FileSystem) :
    (m fs).2.node path = fs.node path ∨ (m fs).2.node path = none :=
  (keeps (fs.node path)).holds (.inl rfl)

theorem KeepsOrRemoves.rmRf {rm : RmCommand} (removes : RemovesWords rm) (words : IsWords other) :
    KeepsOrRemoves path (rmRf rm other) := by
  intro node fs isNode
  rcases removes.words other fs path words with same | removed
  · rw [← same] at isNode
    exact isNode
  · exact .inr removed

/-- What only depends on the path is preserved where the path is left alone. -/
theorem LeavesAlone.preserves {inv : FileSystem → Prop} (alone : LeavesAlone path m)
    (ofNode : ∀ fs fs', fs'.node path = fs.node path → inv fs → inv fs') :
    Persistent.Preserves inv m := by
  intro fs isInv
  have after := ofNode fs _ (alone.node_eq fs) isInv
  match outcome : m fs with
  | (.ok a, fs') =>
      rw [outcome] at after
      exact after
  | (.error e, fs') =>
      rw [outcome] at after
      exact after

end

/-- The computation never stops with an exception. -/
def Succeeds {α : Type} (m : FsM α) : Prop := ∀ fs, ∃ a fs', m fs = (.ok a, fs')

namespace Succeeds

variable {α β : Type} {m : FsM α} {f : α → FsM β}

theorem pure (a : α) : Succeeds (Pure.pure a : FsM α) := fun fs => ⟨a, fs, rfl⟩

theorem reads (g : FileSystem → α) : Succeeds (Frontend.reads g) := fun fs => ⟨g fs, fs, rfl⟩

theorem bind (first : Succeeds m) (second : ∀ a, Succeeds (f a)) : Succeeds (m >>= f) := by
  intro fs
  obtain ⟨a, fs', isFirst⟩ := first fs
  obtain ⟨b, fs'', isSecond⟩ := second a fs'
  refine ⟨b, fs'', ?_⟩
  rw [Persistent.bind_ok isFirst, isSecond]

theorem forM {γ : Type} {body : γ → FsM PUnit} (elements : List γ)
    (step : ∀ x, Succeeds (body x)) : Succeeds (elements.forM body) := by
  induction elements with
  | nil => exact pure ()
  | cons x rest inductionHypothesis => exact bind (step x) fun _ => inductionHypothesis

theorem rmRf (rm : RmCommand) (path : String) : Succeeds (rmRf rm path) := fun _ => ⟨(), _, rfl⟩

theorem orDefault_remove (path : String) : Succeeds (orDefault (remove path) ()) := by
  intro fs
  rw [orDefault, Persistent.tryWith, remove]
  cases fs.text path with
  | some text => exact ⟨(), _, rfl⟩
  | none => exact ⟨(), fs, rfl⟩

end Succeeds

end RefinedC.Frontend
