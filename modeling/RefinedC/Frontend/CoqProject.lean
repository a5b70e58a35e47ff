import RefinedC.Frontend.ProjectPaths

/-!
Mappings in the Coq project file.

Source: `run` and `run_clean` of `frontend/main.ml`.

Owns: the form of a mapping, what one command does to the lines of the Coq project file,
that no mapping is ever duplicated, and when a clean undoes the first check.

The two commands compute the same mapping unless the C file is in the root directory of
its project. The check continues a last line that is not terminated.
-/

namespace RefinedC.Frontend

open Filename
open Library
open Persistent (lift)

/-! ## Form of a mapping -/

/-- Neither a space nor a newline. -/
def IsWord (chars : List Char) : Prop := ' ' ∉ chars ∧ '\n' ∉ chars

def IsMapping (line : String) : Prop :=
  ∃ dunePath path : List Char,
    line.toList = ['-', 'Q', ' '] ++ dunePath ++ ' ' :: path ∧ IsWord dunePath ∧ IsWord path

theorem IsMapping.noNewline {line : String} (isMapping : IsMapping line) :
    '\n' ∉ line.toList := by
  obtain ⟨dunePath, path, same, isDune, isPath⟩ := isMapping
  simp [same, isDune.2, isPath.2]

/-- A mapping that continues another line is no mapping. -/
theorem not_isMapping_append {last line : String} (nonempty : last ≠ "")
    (isMapping : IsMapping line) : ¬ IsMapping (last ++ line) := by
  rintro ⟨dunePath', path', same', isDune', isPath'⟩
  obtain ⟨dunePath, path, same, isDune, isPath⟩ := isMapping
  rw [String.toList_append, same] at same'
  have notNil : last.toList ≠ [] := fun isNil => nonempty (String.toList_eq_nil_iff.mp isNil)
  have spaces := congrArg (List.count ' ') same'
  have noSpace : ' ' ∉ last.toList := by
    rw [← List.count_eq_zero]
    simp only [List.count_append, List.count_cons, List.count_eq_zero.mpr isDune.1,
      List.count_eq_zero.mpr isPath.1, List.count_eq_zero.mpr isDune'.1,
      List.count_eq_zero.mpr isPath'.1] at spaces
    simpa using spaces
  -- the first words have different lengths
  have words := congrArg (fun chars => (chars.takeWhile fun c => c != ' ').length) same'
  have taken : (last.toList ++ (['-', 'Q', ' '] ++ dunePath ++ ' ' :: path)).takeWhile
      (fun c => c != ' ') = last.toList ++ ['-', 'Q'] := by
    rw [List.takeWhile_append_of_pos]
    · rfl
    · intro c member
      have notSpace : c ≠ ' ' := fun isSpace => noSpace (isSpace ▸ member)
      simpa using notSpace
  have taken' : (['-', 'Q', ' '] ++ dunePath' ++ ' ' :: path').takeWhile (fun c => c != ' ') =
      ['-', 'Q'] := rfl
  rw [taken, taken', List.length_append] at words
  have positive := List.length_pos_iff.mpr notNil
  omega

/-! ## Characters of a mapping -/

/-- Characters of module paths and of paths to modules. -/
def IsPathChar (c : Char) : Prop := CoqPath.isMemberChar c = true ∨ c = '/' ∨ c = '.'

private theorem isPathChar_buildDir : ∀ c ∈ "_build/default".toList, IsPathChar c := by
  unfold IsPathChar
  exact List.forall_iff_forall_mem.mp (by decide)

private theorem isPathChar_rcDirName : ∀ c ∈ rcDirName.toList, IsPathChar c := by
  unfold IsPathChar
  exact List.forall_iff_forall_mem.mp (by decide)

private theorem isWord_of_isPathChar {chars : List Char} (isPath : ∀ c ∈ chars, IsPathChar c) :
    IsWord chars := by
  constructor
  · intro isSpace
    rcases isPath ' ' isSpace with isMember | isSep | isDot <;> contradiction
  · intro isNewline
    rcases isPath '\n' isNewline with isMember | isSep | isDot <;> contradiction

private theorem isPathChar_concat {dir name : String} (isDir : ∀ c ∈ dir.toList, IsPathChar c)
    (isName : ∀ c ∈ name.toList, IsPathChar c) :
    ∀ c ∈ (concat dir name).toList, IsPathChar c := by
  intro c member
  rw [concat] at member
  split at member
  · rw [String.toList_append, List.mem_append] at member
    exact member.elim (isDir c) (isName c)
  · rw [String.toList_append, String.toList_append, List.mem_append, List.mem_append] at member
    rcases member with (inDir | isSep) | inName
    · exact isDir c inDir
    · exact .inr (.inl (List.mem_singleton.mp isSep))
    · exact isName c inName

private theorem CoqMember.isPathChar (m : CoqMember) : ∀ c ∈ m.name.toList, IsPathChar c :=
  fun c member => .inl (m.chars c member)

/-! ## The two computations of a mapping -/

section

variable {env : ToolEnv} {data : CFileData} {path : CoqPath} {above below : List String}

private theorem isPathChar_belowPath (above : List String)
    (members : ∀ c ∈ below, ∃ m : CoqMember, m.name = c) :
    ∀ c ∈ (belowPath above below).toList, IsPathChar c := by
  intro c member
  rw [belowPath] at member
  split at member
  · exact .inr (.inr (List.mem_singleton.mp member))
  · rw [String.toList_ofList] at member
    obtain ⟨name, inBelow, inName⟩ := List.mem_flatMap.mp (List.mem_of_mem_drop member)
    obtain ⟨m, rfl⟩ := members name inBelow
    rcases List.mem_cons.mp inName with isSep | inName
    · exact .inr (.inl isSep)
    · exact m.isPathChar c inName

/-- Only the directory itself has the current directory as its path. -/
theorem belowPath_eq_current_iff (members : ∀ c ∈ below, ∃ m : CoqMember, m.name = c) :
    belowPath above below = currentDirName ↔ below = [] := by
  constructor
  · intro isCurrent
    by_contra nonempty
    have isDot : '.' ∈ (belowPath above below).toList := by
      rw [isCurrent]
      exact List.mem_singleton.mpr rfl
    rw [belowPath, if_neg nonempty, String.toList_ofList] at isDot
    obtain ⟨name, inBelow, inName⟩ := List.mem_flatMap.mp (List.mem_of_mem_drop isDot)
    obtain ⟨m, rfl⟩ := members name inBelow
    rcases List.mem_cons.mp inName with isSep | inName
    · contradiction
    · have isMember := m.chars '.' inName
      contradiction
  · rintro rfl
    rfl

/-- The path of the generated files of a C file with the given relative path. -/
def buildPath (relative : String) (baseName : String) : String :=
  concat (concat relative rcDirName) baseName

private theorem duneDirPath_located (located : Located env data above below) :
    duneDirPath env data = .ok (buildPath
      (if belowPath above below = currentDirName then "_build/default"
        else concat "_build/default" (belowPath above below)) data.baseName) := by
  rw [duneDirPath, located.rootDir, located.fileDir,
    relativePath_absPath located.components located.realRoot located.realDir]
  rfl

theorem cleanDuneDirPath_located (located : Located env data above below) :
    cleanDuneDirPath env data =
      .ok (buildPath (concat "_build/default" (belowPath above below)) data.baseName) := by
  rw [cleanDuneDirPath, located.rootDir, located.fileDir,
    relativePath_absPath located.components located.realRoot located.realDir]
  rfl

private theorem isMapping_mappingLine {relative : String} {m : CoqMember}
    (isPath : ∀ c ∈ relative.toList, IsPathChar c) :
    IsMapping (mappingLine (buildPath relative m.name) path) := by
  refine ⟨(buildPath relative m.name).toList, path.toString.toList, ?_, ?_, ?_⟩
  · rw [mappingLine, String.toList_append, String.toList_append, String.toList_append]
    simp
  · refine isWord_of_isPathChar (isPathChar_concat (isPathChar_concat isPath ?_) m.isPathChar)
    exact isPathChar_rcDirName
  · refine isWord_of_isPathChar fun c member => ?_
    exact (path.toString_chars c member).elim .inl fun isDot => .inr (.inr isDot)

variable (located : Located env data above below) (isPath : data.modulePath = .ok path)

include located isPath

private theorem relPath_members : ∀ c ∈ below, ∃ m : CoqMember, m.name = c := by
  intro c member
  refine modulePath_ok isPath c (List.mem_append_left _ ?_)
  rw [located.relPath]
  exact member

theorem isMapping_duneDirPath {dunePath : String} (isDune : duneDirPath env data = .ok dunePath) :
    IsMapping (mappingLine dunePath path) := by
  obtain ⟨m, isBase⟩ := modulePath_ok isPath data.baseName (by simp)
  have isBelow := isPathChar_belowPath above (relPath_members located isPath)
  rw [duneDirPath_located located, ← isBase] at isDune
  cases isDune
  apply isMapping_mappingLine
  split
  · exact isPathChar_buildDir
  · exact isPathChar_concat isPathChar_buildDir isBelow

theorem isMapping_cleanDuneDirPath {dunePath : String}
    (isDune : cleanDuneDirPath env data = .ok dunePath) :
    IsMapping (mappingLine dunePath path) := by
  obtain ⟨m, isBase⟩ := modulePath_ok isPath data.baseName (by simp)
  rw [cleanDuneDirPath_located located, ← isBase] at isDune
  cases isDune
  exact isMapping_mappingLine
    (isPathChar_concat isPathChar_buildDir
      (isPathChar_belowPath above (relPath_members located isPath)))

/-- The two computations agree unless the C file is in the root directory. -/
theorem cleanDuneDirPath_eq_iff :
    cleanDuneDirPath env data = duneDirPath env data ↔ data.fileDir ≠ data.rootDir := by
  have atRoot : data.fileDir = data.rootDir ↔ below = [] := by
    rw [located.rootDir, located.fileDir, eq_comm]
    exact absPath_eq_append_iff located.components
  rw [cleanDuneDirPath_located located, duneDirPath_located located, Ne, atRoot]
  by_cases isRoot : below = []
  · subst isRoot
    refine iff_of_false (fun same => ?_) (fun notRoot => notRoot rfl)
    have special : buildPath "_build/default" data.baseName =
        "_build/default/proofs" ++ "/" ++ data.baseName := rfl
    have general : buildPath (concat "_build/default" (belowPath above [])) data.baseName =
        "_build/default/./proofs" ++ "/" ++ data.baseName := by
      rw [belowPath, if_pos rfl]
      rfl
    rw [if_pos ((belowPath_eq_current_iff (by simp)).mpr rfl), Except.ok.injEq, special,
      general] at same
    have longer : "_build/default/./proofs".length = "_build/default/proofs".length + 2 := rfl
    have lengths := congrArg String.length same
    rw [String.length_append, String.length_append, String.length_append, String.length_append,
      longer] at lengths
    omega
  · refine iff_of_true ?_ isRoot
    rw [if_neg (isRoot ∘ (belowPath_eq_current_iff (relPath_members located isPath)).mp)]

end

/-! ## What a command does to the lines -/

/-- What one command does to the lines of the Coq project file. -/
inductive LineChange : List String → List String → Prop where
  | same (lines : List String) : LineChange lines lines
  | added (lines : List String) (line : String) (absent : line ∉ lines) :
      LineChange lines (lines ++ [line])
  | continued (before : List String) (last line : String) (nonempty : last ≠ "")
      (isMapping : IsMapping line) : LineChange (before ++ [last]) (before ++ [last ++ line])
  | removed {lines kept : List String} (sublist : kept.Sublist lines) : LineChange lines kept

/-- No command duplicates a mapping. -/
theorem LineChange.count_le_one {old new : List String} (change : LineChange old new)
    {line : String} (isMapping : IsMapping line) (atMostOnce : old.count line ≤ 1) :
    new.count line ≤ 1 := by
  cases change with
  | same => exact atMostOnce
  | added _ newLine absent =>
      rw [List.count_append]
      by_cases isNew : newLine = line
      · subst isNew
        rw [List.count_eq_zero.mpr absent, List.count_singleton_self]
      · rw [List.count_singleton, if_neg (by simpa using isNew)]
        exact atMostOnce
  | continued before last newLine nonempty isNew =>
      have different : last ++ newLine ≠ line := by
        rintro rfl
        exact not_isMapping_append nonempty isNew isMapping
      rw [List.count_append, List.count_singleton, if_neg (by simpa using different)]
      rw [List.count_append] at atMostOnce
      omega
  | removed sublist => exact (sublist.count_le line).trans atMostOnce

section

variable {env : ToolEnv} {cfg : CheckConfig} {tools : Tools} {data : CFileData} {path : CoqPath}
  {fs : FileSystem}

/-- The mapping is appended to the text of the Coq project file unless it is a line of it. -/
theorem addMapping_node {dunePath : String} (path : CoqPath) (fs : FileSystem)
    (isDune : duneDirPath env data = .ok dunePath) :
    (addMapping env data path fs).2.node data.coqProjPath =
      match fs.text data.coqProjPath with
      | some text =>
          if mappingLine dunePath path ∈ fs.lines data.coqProjPath then
            fs.node data.coqProjPath
          else some (.file (text ++ textOf '\n' ([mappingLine dunePath path].map String.toList)))
      | none => fs.node data.coqProjPath := by
  have read : reads (fun fs => fs.lines data.coqProjPath) fs =
      (.ok (fs.lines data.coqProjPath), fs) := rfl
  rw [addMapping, isDune, Persistent.lift_ok_bind, orDefault_readFile, Persistent.bind_ok read]
  by_cases isThere : mappingLine dunePath path ∈ fs.lines data.coqProjPath
  · rw [if_pos isThere]
    cases fs.text data.coqProjPath with
    | none => rfl
    | some text =>
        simp only [if_pos isThere]
        rfl
  · rw [if_neg isThere, appendFile]
    cases isText : fs.text data.coqProjPath with
    | none => rfl
    | some text => simp only [if_neg isThere, FileSystem.set_node_same]

private theorem addMapping_lineChange {dunePath : String}
    (isDune : duneDirPath env data = .ok dunePath)
    (isMapping : IsMapping (mappingLine dunePath path)) :
    LineChange (fs.lines data.coqProjPath)
      ((addMapping env data path fs).2.lines data.coqProjPath) := by
  have after := addMapping_node path fs isDune
  cases isText : fs.text data.coqProjPath with
  | none =>
      rw [isText] at after
      rw [FileSystem.lines_congr after]
      exact .same _
  | some text =>
      rw [isText] at after
      simp only at after
      split at after
      · rw [FileSystem.lines_congr after]
        exact .same _
      · rename_i absent
        rw [← @FileSystem.set_node_same fs] at after
        rw [FileSystem.lines_congr after]
        by_cases terminated : Terminated '\n' text
        · rw [FileSystem.lines_append_terminated isText terminated isMapping.noNewline]
          exact .added _ _ absent
        · obtain ⟨before, last, nonempty, old, new⟩ :=
            FileSystem.lines_append_unterminated isText terminated isMapping.noNewline
          rw [old, new]
          exact .continued before last _ nonempty isMapping

private theorem removeMapping_lines {dunePath : String} (isPath : data.modulePath = .ok path)
    (isDune : cleanDuneDirPath env data = .ok dunePath) :
    (removeMapping env data fs).2.lines data.coqProjPath =
      (fs.lines data.coqProjPath).filter (· ≠ mappingLine dunePath path) := by
  have read : reads (fun fs => fs.lines data.coqProjPath) fs =
      (.ok (fs.lines data.coqProjPath), fs) := rfl
  rw [removeMapping, isPath, Persistent.lift_ok_bind, isDune, Persistent.lift_ok_bind,
    orDefault_readFile, Persistent.bind_ok read]
  by_cases isThere : mappingLine dunePath path ∈ fs.lines data.coqProjPath
  · have exists_text : ∃ text, fs.node data.coqProjPath = some (.file text) := by
      rw [FileSystem.lines, FileSystem.text] at isThere
      cases isNode : fs.node data.coqProjPath with
      | none =>
          rw [isNode] at isThere
          cases isThere
      | some node =>
          rw [isNode] at isThere
          cases node with
          | dir => cases isThere
          | file text => exact ⟨text, rfl⟩
    obtain ⟨text, isNode⟩ := exists_text
    rw [if_pos isThere, writeFile, writeText, if_neg]
    · refine FileSystem.lines_set_textOf fun line member => ?_
      exact FileSystem.newline_not_mem_of_mem_lines (List.mem_of_mem_filter member)
    · simp [FileSystem.isDirectory, FileSystem.fileExists, isNode]
  · rw [if_neg isThere]
    refine (List.filter_eq_self.mpr fun line member => ?_).symm
    have different : line ≠ mappingLine dunePath path := fun same => isThere (same ▸ member)
    simpa using different

end

/-- A computation changes the lines of a file as one command does. -/
def ChangesLines (file : String) {α : Type} (m : FsM α) : Prop :=
  ∀ fs, LineChange (fs.lines file) ((m fs).2.lines file)

namespace ChangesLines

variable {α β : Type} {file : String} {m : FsM α} {f : α → FsM β}

private theorem of_leavesAlone (alone : LeavesAlone file m) : ChangesLines file m := by
  intro fs
  rw [FileSystem.lines_congr (alone.node_eq fs)]
  exact .same _

/-- A command changes only the lines of its own project file. -/
theorem of_project {project : String} (changes : ChangesLines project m)
    (other : file ≠ project → LeavesAlone file m) : ChangesLines file m := by
  by_cases isProject : file = project
  · rw [isProject]
    exact changes
  · exact .of_leavesAlone (other isProject)

private theorem bind_left (alone : LeavesAlone file m) (changes : ∀ a, ChangesLines file (f a)) :
    ChangesLines file (m >>= f) := by
  intro fs
  rw [← FileSystem.lines_congr (alone.node_eq fs)]
  match outcome : m fs with
  | (.ok a, fs') =>
      rw [Persistent.bind_ok outcome]
      exact changes a fs'
  | (.error e, fs') =>
      rw [Persistent.bind_error outcome]
      exact .same _

private theorem bind_right (changes : ChangesLines file m) (alone : ∀ a, LeavesAlone file (f a)) :
    ChangesLines file (m >>= f) := by
  intro fs
  rw [FileSystem.lines_congr (LeavesAlone.node_bind alone fs)]
  exact changes fs

end ChangesLines

/-! ## Commands -/

section

variable {env : ToolEnv} {cfg : CheckConfig} {tools : Tools} {data : CFileData} {path : CoqPath}
  {above below : List String} {fs : FileSystem}

theorem isComponent_coqProjectFile : IsComponent coqProjectFile := by
  constructor <;> decide

theorem coqProjPath_not_isBelow (located : Located env data above below) :
    FileSystem.isBelow data.fileRcDir data.coqProjPath = false := by
  rw [CFileData.fileRcDir, CFileData.coqProjPath, located.fileDir, located.rootDir]
  exact not_isBelow_rcDir located.components (List.prefix_append above below)
    isComponent_coqProjectFile (by decide)

private theorem checkFile_changesLines (located : Located env data above below)
    (isPath : data.modulePath = .ok path) :
    ChangesLines data.coqProjPath (checkFile env cfg tools data path) := by
  have notBelow := coqProjPath_not_isBelow located
  have notRcDir := ne_of_not_isBelow notBelow (isBelow_iff.mpr (.inl rfl))
  have notOutput := ne_of_not_isBelow notBelow data.isBelow_outputDir
  have prepares : ChangesLines data.coqProjPath (prepareOutput env data path) := by
    refine .bind_left (ensureDir_leavesAlone (.mkdir notRcDir)) fun _ =>
      .bind_left (.reads _) fun isThere => ?_
    split
    · exact .of_leavesAlone (.pure ())
    · refine .bind_left (.mkdir notOutput) fun _ fs' => ?_
      have isDune := duneDirPath_located located
      exact addMapping_lineChange isDune (isMapping_duneDirPath located isPath isDune)
  refine .bind_right (.bind_right prepares fun _ => generateFiles_leavesAlone notBelow) fun _ => ?_
  split
  · exact .pure ()
  · exact .lift _

theorem cleanFile_lines {dunePath : String} (located : Located env data above below)
    (removes : RemovesWords env.rm) (plain : IsPlain data.outputDir)
    (isPath : data.modulePath = .ok path) (isDune : cleanDuneDirPath env data = .ok dunePath) :
    (cleanFile env false data fs).2.lines data.coqProjPath =
      (fs.lines data.coqProjPath).filter (· ≠ mappingLine dunePath path) := by
  obtain ⟨⟨⟩, fs', removed⟩ := removeGenerated_succeeds env data fs
  have notBelow := coqProjPath_not_isBelow located
  have alone := (removeGenerated_leavesAlone notBelow located isPath removes plain).node_eq fs
  rw [removed] at alone
  rw [cleanFile, Persistent.bind_ok removed, ← FileSystem.lines_congr alone]
  exact removeMapping_lines isPath isDune

private theorem removeMapping_lines_sublist (located : Located env data above below)
    (file : String) :
    ((removeMapping env data fs).2.lines file).Sublist (fs.lines file) := by
  by_cases isProject : file = data.coqProjPath
  · subst isProject
    cases isPath : data.modulePath with
    | error e =>
        have stops : removeMapping env data fs = (.error e, fs) := by
          rw [removeMapping, isPath]
          rfl
        rw [stops]
    | ok path =>
        rw [removeMapping_lines isPath (cleanDuneDirPath_located located)]
        exact List.filter_sublist
  · rw [FileSystem.lines_congr ((removeMapping_leavesAlone isProject).node_eq fs)]

/-- A clean only removes lines of a file that is not among the generated ones. -/
theorem cleanFile_lines_sublist {soft : Bool} {file : String}
    (located : Located env data above below) (removes : RemovesWords env.rm)
    (words : IsWords data.outputDir) (notBelow : FileSystem.isBelow data.fileRcDir file = false) :
    ((cleanFile env soft data fs).2.lines file).Sublist (fs.lines file) := by
  obtain ⟨⟨⟩, fs', removed⟩ := removeGenerated_succeeds env data fs
  have kept : (fs'.lines file).Sublist (fs.lines file) := by
    have node := (removeGenerated_keepsOrRemoves notBelow removes words).node_cases fs
    rw [removed] at node
    rcases node with same | isNone
    · rw [FileSystem.lines_congr same]
    · rw [FileSystem.lines, FileSystem.text, isNone]
      exact List.nil_sublist _
  rw [cleanFile, Persistent.bind_ok removed]
  cases soft with
  | true => exact kept
  | false => exact (removeMapping_lines_sublist located file).trans kept

end

/-- The commands of the tool that change the Coq project file. -/
inductive Command where
  | check (cfg : CheckConfig) (tools : Tools) (cFile : String)
  | clean (soft : Bool) (cFile : String)

def Command.cFile : Command → String
  | .check _ _ cFile => cFile
  | .clean _ cFile => cFile

def Command.perform (env : ToolEnv) : Command → FsM Unit
  | .check cfg tools cFile => run env cfg tools cFile
  | .clean soft cFile => runClean env soft cFile

/-- The file system after the commands, whether they succeed or not. -/
def performAll (env : ToolEnv) (commands : List Command) (fs : FileSystem) : FileSystem :=
  commands.foldl (fun fs command => (command.perform env fs).2) fs

/-- The C file is in a directory of the project with the given root directory. -/
def InProject (env : ToolEnv) (root : List String) (cFile : String) : Prop :=
  ∃ dir name, (∀ c ∈ root ++ dir ++ [name], IsComponent c) ∧
    env.realpath cFile = some (absPath (root ++ dir ++ [name]))

/-- The directory that a clean removes is a text of words for the shell. -/
def Command.GivesWords (env : ToolEnv) : Command → Prop
  | .check _ _ _ => True
  | .clean _ cFile =>
      ∀ filePath, env.realpath cFile = some filePath → IsWords (outputDirOf filePath)

private theorem Command.changesLines {env : ToolEnv} {root : List String}
    (canonical : Canonicalises env.realpath) (removes : RemovesWords env.rm) (command : Command)
    (inProject : InProject env root command.cFile) (words : command.GivesWords env) :
    ChangesLines (concat (absPath root) coqProjectFile) (command.perform env) := by
  obtain ⟨dir, name, components, isReal⟩ := inProject
  have outside : ∀ fs data, getCFileData env command.cFile fs = .ok data →
      FileSystem.isBelow data.fileRcDir (concat (absPath root) coqProjectFile) = false := by
    intro fs data isData
    obtain ⟨isReal', isDir, -, -⟩ := getCFileData_ok isData
    rw [isReal, Option.some.injEq] at isReal'
    rw [List.forall_mem_append] at components
    rw [CFileData.fileRcDir, isDir, ← isReal',
      dirname_absPath components.1 (components.2 name List.mem_cons_self)]
    exact not_isBelow_rcDir components.1 (List.prefix_append root dir)
      isComponent_coqProjectFile (by decide)
  intro fs
  cases command with
  | check cfg tools cFile =>
      rcases run_cases env cfg tools cFile fs with
        ⟨e, stops⟩ | ⟨data, path, isData, isPath, same⟩
      · rw [Command.perform, stops]
        exact .same _
      · obtain ⟨above, below, located⟩ := exists_located canonical isData
        rw [Command.perform, same]
        exact ChangesLines.of_project (checkFile_changesLines located isPath)
          (checkFile_leavesAlone (outside fs data isData)) fs
  | clean soft cFile =>
      rcases runClean_cases env soft cFile fs with ⟨e, stops⟩ | ⟨data, isData, same⟩
      · rw [Command.perform, stops]
        exact .same _
      · obtain ⟨above, below, located⟩ := exists_located canonical isData
        rw [Command.perform, same]
        have isReal' := (getCFileData_ok isData).1
        have isWords := outputDir_eq_outputDirOf isReal' isData ▸ words data.filePath isReal'
        exact .removed (cleanFile_lines_sublist located removes isWords (outside fs data isData))

/-- No mapping is ever duplicated. -/
theorem performAll_count_le_one {env : ToolEnv} {root : List String} {line : String}
    (canonical : Canonicalises env.realpath) (removes : RemovesWords env.rm)
    (isMapping : IsMapping line) (commands : List Command)
    (inProject : ∀ c ∈ commands, InProject env root c.cFile ∧ c.GivesWords env)
    (fs : FileSystem)
    (atMostOnce : (fs.lines (concat (absPath root) coqProjectFile)).count line ≤ 1) :
    ((performAll env commands fs).lines (concat (absPath root) coqProjectFile)).count
      line ≤ 1 := by
  induction commands generalizing fs with
  | nil => exact atMostOnce
  | cons command commands inductionHypothesis =>
      rw [List.forall_mem_cons] at inProject
      have change := command.changesLines canonical removes inProject.1.1 inProject.1.2 fs
      exact inductionHypothesis inProject.2 _ (change.count_le_one isMapping atMostOnce)

end RefinedC.Frontend
