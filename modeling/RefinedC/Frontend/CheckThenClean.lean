import RefinedC.Frontend.CoqProject
import Mathlib.Data.List.Infix

/-!
Cleaning after the first check.

Source: `run` and `run_clean` of `frontend/main.ml`.

Owns: what the first check of a C file finds, the lines of the Coq project file after
the check and a clean, and the condition under which they are the initial ones.
-/

namespace RefinedC.Frontend

open Filename
open Library
open Persistent (lift)

/-- The directory of the C file is there, and no output directory in it. -/
structure FirstRun (data : CFileData) (fs : FileSystem) : Prop where
  fileDir : fs.node data.fileDir = some .dir
  fileRcDir : fs.node data.fileRcDir = none ∨ fs.node data.fileRcDir = some .dir
  outputDir : fs.node data.outputDir = none

def checkThenClean (env : ToolEnv) (cfg : CheckConfig) (tools : Tools) (cFile : String)
    (fs : FileSystem) : FileSystem :=
  (runClean env false cFile (run env cfg tools cFile fs).2).2

section

variable {env : ToolEnv} {cfg : CheckConfig} {tools : Tools} {cFile : String} {data : CFileData}
  {path : CoqPath} {above below : List String} {fs : FileSystem}

/-! ## First check -/

private theorem mkdir_ok {dir : String} (notThere : fs.node dir = none)
    (isParent : fs.node (dirname dir) = some .dir) : mkdir dir fs = (.ok (), fs.set dir .dir) := by
  rw [mkdir, if_neg]
  simp [FileSystem.fileExists, FileSystem.isDirectory, notThere, isParent]

private theorem ensureDir_there {dir : String} {node : Node} {create : FsM Unit}
    (isThere : fs.node dir = some node) : ensureDir dir create fs = (.ok (), fs) := by
  have read : reads (fun fs => fs.fileExists dir) fs = (.ok true, fs) := by
    rw [reads, FileSystem.fileExists, isThere]
    rfl
  rw [ensureDir, Persistent.bind_ok read]
  rfl

private theorem ensureDir_missing {dir : String} {create : FsM Unit}
    (notThere : fs.node dir = none) :
    ensureDir dir create fs = create fs := by
  have read : reads (fun fs => fs.fileExists dir) fs = (.ok false, fs) := by
    rw [reads, FileSystem.fileExists, notThere]
    rfl
  rw [ensureDir, Persistent.bind_ok read]
  rfl

private theorem prepareOutput_firstRun (located : Located env data above below)
    (isPath : data.modulePath = .ok path) (first : FirstRun data fs) :
    ∃ fs', fs'.node data.coqProjPath = fs.node data.coqProjPath ∧
      prepareOutput env data path fs = addMapping env data path fs' := by
  have notBelow := coqProjPath_not_isBelow located
  have notRcDir := ne_of_not_isBelow notBelow (isBelow_iff.mpr (.inl rfl))
  have notOutput := ne_of_not_isBelow notBelow data.isBelow_outputDir
  have isRcDir := fileRcDir_eq located
  have aboveRcDir : dirname data.fileRcDir = data.fileDir := by
    rw [isRcDir, located.fileDir, dirname_absPath located.components isComponent_rcDirName]
  have aboveOutput : dirname data.outputDir = data.fileRcDir := by
    have isBase := outputDirs_isComponent located isPath data.baseName (by simp [outputDirs])
    rw [CFileData.outputDir, isRcDir, concat_absPath (fileRcDir_isComponent located),
      dirname_absPath (fileRcDir_isComponent located) isBase]
  have different : data.outputDir ≠ data.fileRcDir := by
    intro same
    rw [same, aboveRcDir, located.fileDir, isRcDir] at aboveOutput
    cases (absPath_eq_append_iff (fileRcDir_isComponent located)).mp aboveOutput
  have prepared :
      ∃ fs₁, ensureDir data.fileRcDir (mkdir data.fileRcDir) fs = (.ok (), fs₁) ∧
      fs₁.node data.fileRcDir = some .dir ∧ fs₁.node data.outputDir = none ∧
      fs₁.node data.coqProjPath = fs.node data.coqProjPath := by
    rcases first.fileRcDir with notThere | isThere
    · refine ⟨fs.set data.fileRcDir .dir, ?_, FileSystem.set_node_same, ?_, ?_⟩
      · rw [ensureDir_missing notThere, mkdir_ok notThere]
        rw [aboveRcDir]
        exact first.fileDir
      · rw [FileSystem.set_node_other different]
        exact first.outputDir
      · exact FileSystem.set_node_other notRcDir
    · exact ⟨fs, ensureDir_there isThere, isThere, first.outputDir, rfl⟩
  obtain ⟨fs₁, ensured, isDir, notThere, sameProject⟩ := prepared
  refine ⟨fs₁.set data.outputDir .dir, ?_, ?_⟩
  · rw [FileSystem.set_node_other notOutput, sameProject]
  · rw [prepareOutput, Persistent.bind_ok ensured, ensureDir_missing notThere,
      Persistent.bind_ok (mkdir_ok notThere (by rwa [aboveOutput]))]

/-- The first check appends the mapping. -/
theorem run_firstRun_node {dunePath : String} (cfg : CheckConfig) (tools : Tools)
    (canonical : Canonicalises env.realpath)
    (isData : getCFileData env cFile fs = .ok data) (isPath : data.modulePath = .ok path)
    (isDune : duneDirPath env data = .ok dunePath) (first : FirstRun data fs)
    (absent : mappingLine dunePath path ∉ fs.lines data.coqProjPath) :
    (run env cfg tools cFile fs).2.node data.coqProjPath =
      match fs.text data.coqProjPath with
      | some text =>
        some (.file (text ++ textOf '\n' ([mappingLine dunePath path].map String.toList)))
      | none => fs.node data.coqProjPath := by
  obtain ⟨above, below, located⟩ := exists_located canonical isData
  obtain ⟨fs', sameProject, prepared⟩ := prepareOutput_firstRun located isPath first
  have notBelow := coqProjPath_not_isBelow located
  have same : (run env cfg tools cFile fs).2.node data.coqProjPath =
      (addMapping env data path fs').2.node data.coqProjPath := by
    rw [run_eq isData isPath, ← prepared, checkFile, generate, LeavesAlone.node_bind,
      LeavesAlone.node_bind]
    · exact fun _ => generateFiles_leavesAlone notBelow
    · intro _
      split
      · exact .pure ()
      · exact .lift _
  rw [same, addMapping_node path fs' isDune, FileSystem.text_congr sameProject,
    FileSystem.lines_congr sameProject, sameProject]
  cases fs.text data.coqProjPath with
  | none => rfl
  | some text => simp only [if_neg absent]

private theorem isComponent_rcProjectFile : IsComponent rcProjectFile := by
  constructor <;> decide

/-- A check does not change the data of the C file. -/
theorem getCFileData_run (canonical : Canonicalises env.realpath)
    (isData : getCFileData env cFile fs = .ok data) (isPath : data.modulePath = .ok path) :
    getCFileData env cFile (run env cfg tools cFile fs).2 = .ok data := by
  obtain ⟨root, below, located⟩ := exists_located canonical isData
  refine getCFileData_congr canonical isData fun cs above isDir components isPrefix => ?_
  have aboveComponents : ∀ c ∈ above, IsComponent c := fun c member =>
    components c (isPrefix.subset member)
  have rootComponents : ∀ c ∈ root, IsComponent c := fun c member =>
    located.components c (List.mem_append_left _ member)
  rw [run_eq isData isPath]
  refine (checkFile_leavesAlone ?_ ?_).node_eq fs
  · rw [CFileData.fileRcDir, isDir]
    exact not_isBelow_rcDir components isPrefix isComponent_rcProjectFile (by decide)
  · rw [CFileData.coqProjPath, located.rootDir, concat_absPath aboveComponents,
      concat_absPath rootComponents]
    intro same
    have lists := absPath_inj
      (List.forall_mem_append.mpr ⟨aboveComponents, by simpa using isComponent_rcProjectFile⟩)
      (List.forall_mem_append.mpr ⟨rootComponents, by simpa using isComponent_coqProjectFile⟩)
        same
    have names := (List.append_inj' lists rfl).2
    revert names
    decide

/-! ## Check and clean -/

private theorem filter_append_eq_iff {lines : List String} {new other : String}
    (absent : new ∉ lines) :
    (lines ++ [new]).filter (· ≠ other) = lines ↔ other = new := by
  constructor
  · intro same
    by_contra different
    refine absent ?_
    rw [← same]
    exact List.mem_filter.mpr ⟨by simp, by simpa using Ne.symm different⟩
  · rintro rfl
    have kept : lines.filter (· ≠ other) = lines := by
      refine List.filter_eq_self.mpr fun line member => ?_
      have different : line ≠ other := fun same => absent (same ▸ member)
      simpa using different
    rw [List.filter_append, kept]
    simp

private theorem filter_continued_ne {before : List String} {last new other : String}
    (nonempty : new ≠ "") (different : last ++ new ≠ other) :
    (before ++ [last ++ new]).filter (· ≠ other) ≠ before ++ [last] := by
  intro same
  have kept : [last ++ new].filter (· ≠ other) = [last ++ new] := by simp [different]
  rw [List.filter_append, kept] at same
  have lasts := (List.append_inj' same rfl).2
  have lengths := congrArg String.length (List.singleton_inj.mp lasts)
  rw [String.length_append] at lengths
  have positive : new.length ≠ 0 := fun isZero => nonempty (String.length_eq_zero_iff.mp isZero)
  omega

private theorem mappingLine_inj {d d' : String} (same : mappingLine d path = mappingLine d' path) :
    d = d' := by
  have chars := congrArg String.toList same
  simp only [mappingLine, String.toList_append, List.append_cancel_right_eq,
    List.append_cancel_left_eq] at chars
  exact String.toList_inj.mp chars

/-- The clean undoes the check unless it computes another mapping or the check
continued the last line. -/
theorem checkThenClean_lines_iff {dunePath : String} (canonical : Canonicalises env.realpath)
    (removes : RemovesWords env.rm) (plain : IsPlain data.outputDir)
    (isData : getCFileData env cFile fs = .ok data) (isPath : data.modulePath = .ok path)
    (isDune : duneDirPath env data = .ok dunePath) (first : FirstRun data fs)
    (absent : mappingLine dunePath path ∉ fs.lines data.coqProjPath) :
    (checkThenClean env cfg tools cFile fs).lines data.coqProjPath = fs.lines data.coqProjPath ↔
      ∀ text, fs.text data.coqProjPath = some text →
        data.fileDir ≠ data.rootDir ∧ Terminated '\n' text := by
  obtain ⟨above, below, located⟩ := exists_located canonical isData
  have checked := run_firstRun_node cfg tools canonical isData isPath isDune first absent
  have isMapping := isMapping_duneDirPath located isPath isDune
  obtain ⟨cleanPath, isClean⟩ : ∃ cleanPath, cleanDuneDirPath env data = .ok cleanPath :=
    ⟨_, cleanDuneDirPath_located located⟩
  have isCleanMapping := isMapping_cleanDuneDirPath located isPath isClean
  have sameMapping :
      mappingLine cleanPath path = mappingLine dunePath path ↔ data.fileDir ≠ data.rootDir := by
    rw [← cleanDuneDirPath_eq_iff located isPath, isClean, isDune, Except.ok.injEq]
    exact ⟨mappingLine_inj, fun same => by rw [same]⟩
  rw [checkThenClean, runClean_eq (getCFileData_run canonical isData isPath),
    cleanFile_lines located removes plain isPath isClean]
  cases isText : fs.text data.coqProjPath with
  | none =>
      simp only [isText] at checked
      refine iff_of_true ?_ (by simp)
      rw [FileSystem.lines_congr checked, FileSystem.lines, isText]
      rfl
  | some text =>
      simp only [isText, Option.some.injEq, forall_eq'] at checked ⊢
      rw [← @FileSystem.set_node_same fs] at checked
      rw [FileSystem.lines_congr checked]
      by_cases terminated : Terminated '\n' text
      · rw [FileSystem.lines_append_terminated isText terminated isMapping.noNewline,
          and_iff_left terminated, ← sameMapping]
        exact filter_append_eq_iff absent
      · obtain ⟨before, last, nonempty, old, new⟩ :=
          FileSystem.lines_append_unterminated isText terminated isMapping.noNewline
        refine iff_of_false ?_ fun both => terminated both.2
        rw [old, new]
        refine filter_continued_ne ?_ fun same => ?_
        · exact fun isEmpty => absurd isEmpty (by simp [mappingLine])
        · exact not_isMapping_append nonempty isMapping (same ▸ isCleanMapping)

end

/-- The mapping of a C file as the check or the clean computes it. -/
def IsMappingOf (env : ToolEnv) (cFile line : String) : Prop :=
  ∃ fs data path dunePath, getCFileData env cFile fs = .ok data ∧ data.modulePath = .ok path ∧
    (duneDirPath env data = .ok dunePath ∨ cleanDuneDirPath env data = .ok dunePath) ∧
    line = mappingLine dunePath path

theorem IsMappingOf.isMapping {env : ToolEnv} {cFile line : String}
    (canonical : Canonicalises env.realpath) (isMapping : IsMappingOf env cFile line) :
    IsMapping line := by
  obtain ⟨fs, data, path, dunePath, isData, isPath, isDune | isDune, rfl⟩ := isMapping
  · obtain ⟨above, below, located⟩ := exists_located canonical isData
    exact isMapping_duneDirPath located isPath isDune
  · obtain ⟨above, below, located⟩ := exists_located canonical isData
    exact isMapping_cleanDuneDirPath located isPath isDune

/-- Where the shell takes the path of the output directory as it is, a check and a clean leave
the lines of the Coq project file as they were exactly if the C file is not in the root
directory and the last line was terminated. No sequence of commands duplicates a mapping, even
where the shell splits the paths into words. -/
theorem check_clean_coqProject {env : ToolEnv} (canonical : Canonicalises env.realpath)
    (removes : RemovesWords env.rm) :
    (∀ cfg tools cFile fs data path dunePath, getCFileData env cFile fs = .ok data →
      data.modulePath = .ok path → duneDirPath env data = .ok dunePath → FirstRun data fs →
      IsPlain data.outputDir →
      mappingLine dunePath path ∉ fs.lines data.coqProjPath →
      ((checkThenClean env cfg tools cFile fs).lines data.coqProjPath =
          fs.lines data.coqProjPath ↔
        ∀ text, fs.text data.coqProjPath = some text →
          data.fileDir ≠ data.rootDir ∧ Terminated '\n' text)) ∧
      ∀ root cFile line commands fs, IsMappingOf env cFile line →
        (∀ c ∈ commands, InProject env root c.cFile ∧ c.GivesWords env) →
        (fs.lines (concat (absPath root) coqProjectFile)).count line ≤ 1 →
        ((performAll env commands fs).lines
          (concat (absPath root) coqProjectFile)).count line ≤ 1 := by
  constructor
  · intro cfg tools cFile fs data path dunePath isData isPath isDune first plain absent
    exact checkThenClean_lines_iff canonical removes plain isData isPath isDune first absent
  · intro root cFile line commands fs isMapping inProject atMostOnce
    exact performAll_count_le_one canonical removes (isMapping.isMapping canonical) commands
      inProject fs atMostOnce

/-! ## A project with one C file -/

/-- The real paths when there is one file. -/
def realpathOf (cs : List String) (path : String) : Option String :=
  (cs.inits.find? fun ds => absPath ds = path).map absPath

theorem canonicalises_realpathOf {cs : List String} (components : ∀ c ∈ cs, IsComponent c) :
    Canonicalises (realpathOf cs) := by
  have exists_prefix : ∀ {path real}, realpathOf cs path = some real →
      ∃ ds, ds <+: cs ∧ real = absPath ds := by
    intro path real isReal
    obtain ⟨ds, found, rfl⟩ := Option.map_eq_some_iff.mp isReal
    exact ⟨ds, (List.mem_inits ds cs).mp (List.mem_of_find?_eq_some found), rfl⟩
  constructor
  · intro path real isReal
    obtain ⟨ds, isPrefix, rfl⟩ := exists_prefix isReal
    exact ⟨ds, fun c member => components c (isPrefix.subset member), rfl⟩
  · intro path above below isPath isReal
    obtain ⟨ds, isPrefix, same⟩ := exists_prefix isReal
    have isList := absPath_inj isPath (fun c member => components c (isPrefix.subset member)) same
    have isInit : above ∈ cs.inits := by
      rw [List.mem_inits]
      exact (List.prefix_append above below).trans (isList ▸ isPrefix)
    cases found : cs.inits.find? fun ds => absPath ds = absPath above with
    | none =>
        have notFound := List.find?_eq_none.mp found above isInit
        simp at notFound
    | some ds' =>
        have same' := List.find?_some found
        rw [realpathOf, found, Option.map_some, of_decide_eq_true same']

/-- The path that a word stands for in the directory `/`. -/
def wordPath (word : List Char) : String :=
  let path := if word.head? = some '/' then word else '/' :: word
  String.ofList (if path.getLast? = some '/' then path.dropLast else path)

def wordPaths (text : String) : List String :=
  ((text.toList.splitOnP fun c => c == ' ' || c == '\t').filter fun word => !word.isEmpty).map
    wordPath

def rmWordPaths : RmCommand := fun text fs =>
  fs.restrict fun path => (wordPaths text).all fun word => !FileSystem.isBelow word path

private theorem wordPaths_absPath {cs : List String} (nonempty : cs ≠ [])
    (components : ∀ c ∈ cs, IsComponent c) (plain : IsPlain (absPath cs)) :
    wordPaths (absPath cs) = [absPath cs] := by
  have oneWord : (absPath cs).toList.splitOnP (fun c => c == ' ' || c == '\t') =
      [(absPath cs).toList] := by
    refine List.splitOnP_eq_singleton fun c member => ?_
    have ordinary := plain c member
    rw [Bool.or_eq_false_iff, beq_eq_false_iff_ne, beq_eq_false_iff_ne]
    constructor
    · rintro rfl
      exact ordinary (by decide)
    · rintro rfl
      exact ordinary (by decide)
  have isAbsolute : (absPath cs).toList.head? = some '/' := by
    obtain ⟨c, rest, rfl⟩ := List.exists_cons_of_ne_nil nonempty
    rw [toList_absPath nonempty]
    rfl
  have notDir : (absPath cs).toList.getLast? ≠ some '/' := by
    obtain ⟨init, last, rfl⟩ := (List.eq_nil_or_concat' cs).resolve_left nonempty
    obtain ⟨chars, c, same, notSep⟩ := (components last (by simp)).exists_last
    rw [toList_absPath_append, same, ← List.cons_append, ← List.append_assoc,
      List.getLast?_append, List.getLast?_singleton]
    simpa using notSep
  have isPath : wordPath (absPath cs).toList = absPath cs := by
    simp only [wordPath, if_pos isAbsolute, if_neg notDir, String.ofList_toList]
  have notEmpty : (absPath cs).toList.isEmpty = false := by
    rw [List.isEmpty_eq_false_iff]
    intro isEmpty
    rw [isEmpty] at isAbsolute
    cases isAbsolute
  rw [wordPaths, oneWord]
  simp only [List.filter_cons, notEmpty, Bool.not_false, if_true, List.filter_nil, List.map_cons,
    List.map_nil, isPath]

private theorem removesWords_rmWordPaths : RemovesWords rmWordPaths := by
  constructor
  · intro cs fs other nonempty components plain
    rw [rmWordPaths, FileSystem.restrict_node, wordPaths_absPath nonempty components plain]
    cases isBelow : FileSystem.isBelow (absPath cs) other <;> simp [isBelow]
  · intro text fs other _
    rw [rmWordPaths, FileSystem.restrict_node]
    split
    · exact .inl rfl
    · exact .inr rfl

def oneFileConfig : ProjectConfig where
  coqRoot := ⟨⟨"refinedc", by decide⟩, [⟨"project", by decide⟩, ⟨"p", by decide⟩]⟩
  theories := []
  cppInclude := []
  cppWithRc := false
  noBuild := true

def oneFileEnv (cs : List String) : ToolEnv where
  realpath := realpathOf cs
  readProjectFile := fun _ _ => .ok oneFileConfig
  refinedcInclude := none
  rm := rmWordPaths

/-- The tools for an empty C file. -/
def emptyTools : Tools where
  parseAnnots := fun _ _ => .ok ⟨[], [], [], [], []⟩
  translate := fun _ _ => .ok ⟨[]⟩
  ppCode := fun _ _ _ => .ok []
  ppSpec := fun _ _ _ => .ok []
  ppProof := fun _ _ _ _ _ => .ok []
  build := fun _ => .ok ()

def oneFileProject : FileSystem where
  entries := [("/", .dir), ("/p", .dir), ("/p/d", .dir), ("/p/rc-project.toml", .file []),
    ("/p/_CoqProject", .file "-arg -w\n".toList)]

def dirData : CFileData where
  origPath := "/p/d/f.c"
  filePath := "/p/d/f.c"
  fileDir := "/p/d"
  baseName := "f"
  rootDir := "/p"
  relPath := ["d"]
  projCfg := oneFileConfig

def rootData : CFileData where
  origPath := "/p/f.c"
  filePath := "/p/f.c"
  fileDir := "/p"
  baseName := "f"
  rootDir := "/p"
  relPath := []
  projCfg := oneFileConfig

private theorem isPlain_dirData : IsPlain dirData.outputDir := isPlain_iff.mpr (by decide)

theorem check_clean_coqProject_dir :
    (checkThenClean (oneFileEnv ["p", "d", "f.c"]) ⟨[], true⟩ emptyTools "/p/d/f.c"
        oneFileProject).lines "/p/_CoqProject" = oneFileProject.lines "/p/_CoqProject" ∧
      ((performAll (oneFileEnv ["p", "d", "f.c"]) [.check ⟨[], true⟩ emptyTools "/p/d/f.c",
          .clean true "/p/d/f.c", .check ⟨[], true⟩ emptyTools "/p/d/f.c"] oneFileProject).lines
        "/p/_CoqProject").count "-Q _build/default/d/proofs/f refinedc.project.p.d.f" ≤ 1 := by
  have components : ∀ c ∈ ["p", "d", "f.c"], IsComponent c := by
    intro c member
    simp only [List.mem_cons, List.not_mem_nil, or_false] at member
    rcases member with rfl | rfl | rfl <;> constructor <;> decide
  have canonical : Canonicalises (oneFileEnv ["p", "d", "f.c"]).realpath :=
    canonicalises_realpathOf components
  have isData : getCFileData (oneFileEnv ["p", "d", "f.c"]) "/p/d/f.c" oneFileProject =
      .ok dirData := rfl
  have isDune : duneDirPath (oneFileEnv ["p", "d", "f.c"]) dirData =
      .ok "_build/default/d/proofs/f" := by decide +kernel
  have isReal : (oneFileEnv ["p", "d", "f.c"]).realpath "/p/d/f.c" = some "/p/d/f.c" := by
    decide +kernel
  have inProject : InProject (oneFileEnv ["p", "d", "f.c"]) ["p"] "/p/d/f.c" :=
    ⟨["d"], "f.c", components, isReal⟩
  have main := check_clean_coqProject canonical removesWords_rmWordPaths
  constructor
  · refine (main.1 ⟨[], true⟩ emptyTools "/p/d/f.c" oneFileProject dirData _
      _ isData rfl isDune
      ⟨rfl, .inl rfl, rfl⟩ isPlain_dirData (by decide +kernel)).mpr fun text isText => ?_
    cases isText.symm.trans (show _ = some "-arg -w\n".toList from rfl)
    exact ⟨by decide, by decide⟩
  · refine main.2 ["p"] "/p/d/f.c" _ _ oneFileProject
      ⟨oneFileProject, dirData, _, _, isData, rfl, .inl isDune, rfl⟩ ?_ (by decide +kernel)
    intro c member
    simp only [List.mem_cons, List.not_mem_nil, or_false] at member
    rcases member with rfl | rfl | rfl
    · exact ⟨inProject, trivial⟩
    · refine ⟨inProject, fun filePath isReal' => ?_⟩
      rw [isReal, Option.some.injEq] at isReal'
      subst isReal'
      exact isPlain_dirData.isWords
    · exact ⟨inProject, trivial⟩

/-! ### Two projects whose mappings are lost or stay -/

/-- A project in a directory whose name starts with a blank. -/
def blankProject : FileSystem where
  entries := [("/", .dir), ("/p", .dir), ("/p/ q", .dir), ("/p/ q/d", .dir),
    ("/p/ q/rc-project.toml", .file []), ("/p/ q/_CoqProject", .file "-arg -w\n".toList)]

def blankData : CFileData where
  origPath := "/p/ q/d/f.c"
  filePath := "/p/ q/d/f.c"
  fileDir := "/p/ q/d"
  baseName := "f"
  rootDir := "/p/ q"
  relPath := ["d"]
  projCfg := oneFileConfig

/-- The mapping of a C file in the root directory stays. For a project in `/p/ q`, the shell
removes all of `/p`. -/
theorem check_clean_coqProject_root :
    (getCFileData (oneFileEnv ["p", "f.c"]) "/p/f.c" oneFileProject = .ok rootData ∧
      FirstRun rootData oneFileProject ∧
      duneDirPath (oneFileEnv ["p", "f.c"]) rootData = .ok "_build/default/proofs/f" ∧
      cleanDuneDirPath (oneFileEnv ["p", "f.c"]) rootData = .ok "_build/default/./proofs/f" ∧
      oneFileProject.lines "/p/_CoqProject" = ["-arg -w"] ∧
      (checkThenClean (oneFileEnv ["p", "f.c"]) ⟨[], true⟩ emptyTools "/p/f.c"
          oneFileProject).lines "/p/_CoqProject" =
        ["-arg -w", "-Q _build/default/proofs/f refinedc.project.p.f"]) ∧
    getCFileData (oneFileEnv ["p", " q", "d", "f.c"]) "/p/ q/d/f.c" blankProject = .ok blankData ∧
      FirstRun blankData blankProject ∧
      blankProject.lines "/p/ q/_CoqProject" = ["-arg -w"] ∧
      (checkThenClean (oneFileEnv ["p", " q", "d", "f.c"]) ⟨[], true⟩ emptyTools "/p/ q/d/f.c"
          blankProject).lines "/p/ q/_CoqProject" = [] := by
  refine ⟨⟨rfl, ⟨rfl, .inl rfl, rfl⟩, ?_, ?_, ?_, ?_⟩, rfl,
    ⟨rfl, .inl rfl, rfl⟩, ?_, ?_⟩ <;>
    decide +kernel

end RefinedC.Frontend
