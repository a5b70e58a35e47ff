import RefinedC.Frontend.CleanCommand

/-!
Paths of a project.

Source: `get_c_file_data`, `run` and `run_clean` of `frontend/main.ml`.

Owns: the search for the project file and its fuel, where a C file is in its project,
which paths are generated, and that neither command changes other paths than these and
the Coq project file.
-/

namespace RefinedC.Frontend

open Filename
open Library
open Persistent (lift)

/-! ## Search for the project file -/

private theorem findRoot_absPath {fs : FileSystem} {fuel : Nat}
    {cs acc rel : List String} {dir : String} (components : ∀ c ∈ cs, IsComponent c)
    (found : findRoot fs fuel acc (absPath cs) = some (dir, rel)) :
    ∃ above below, cs = above ++ below ∧ dir = absPath above ∧ rel = below ++ acc := by
  induction fuel generalizing cs acc with
  | zero => cases found
  | succ fuel inductionHypothesis =>
      rw [findRoot] at found
      split at found
      · cases found
        exact ⟨cs, [], (List.append_nil cs).symm, rfl, rfl⟩
      · rcases List.eq_nil_or_concat' cs with rfl | ⟨ds, c, rfl⟩
        · rw [dirname_root, if_pos rfl] at found
          cases found
        · rw [List.forall_mem_append] at components
          have isComponent := components.2 c List.mem_cons_self
          rw [dirname_absPath components.1 isComponent, basename_absPath isComponent] at found
          simp only at found
          split at found
          · cases found
          · obtain ⟨above, below, rfl, isDir, isRel⟩ := inductionHypothesis components.1 found
            refine ⟨above, below ++ [c], ?_, isDir, ?_⟩
            · rw [List.append_assoc]
            · rw [isRel, List.append_assoc]
              rfl

private theorem findRoot_congr {fs fs' : FileSystem} {cs : List String}
    (components : ∀ c ∈ cs, IsComponent c)
    (same : ∀ above, above <+: cs →
      fs'.node (concat (absPath above) rcProjectFile) =
        fs.node (concat (absPath above) rcProjectFile))
    (fuel : Nat) (acc : List String) :
    findRoot fs' fuel acc (absPath cs) = findRoot fs fuel acc (absPath cs) := by
  induction fuel generalizing cs acc with
  | zero => rfl
  | succ fuel inductionHypothesis =>
      rw [findRoot, findRoot, FileSystem.fileExists, FileSystem.fileExists,
        same cs (List.prefix_refl cs)]
      rcases List.eq_nil_or_concat' cs with rfl | ⟨ds, c, rfl⟩
      · rw [dirname_root]
        rfl
      · have isComponent := components c (by simp)
        rw [List.forall_mem_append] at components
        rw [dirname_absPath components.1 isComponent]
        simp only
        rw [inductionHypothesis components.1 fun above isPrefix =>
          same above (isPrefix.trans (List.prefix_append ds [c]))]

/-! ## Where a C file is -/

theorem getCFileData_ok {env : ToolEnv} {cFile : String} {fs : FileSystem} {data : CFileData}
    (isData : getCFileData env cFile fs = .ok data) :
    env.realpath cFile = some data.filePath ∧ data.fileDir = dirname data.filePath ∧
      data.baseName = removeExtension (basename data.filePath) ∧
      findRoot fs (data.fileDir.length + 1) [] data.fileDir =
        some (data.rootDir, data.relPath) := by
  rw [getCFileData] at isData
  split at isData
  · cases isData
  · rename_i filePath isReal
    simp only at isData
    split at isData
    · cases isData
    · rename_i rootDir relPath found
      split at isData
      · cases isData
      · cases isData
      · obtain ⟨projCfg, -, isOk⟩ := Library.bind_eq_ok.mp isData
        cases isOk
        exact ⟨isReal, rfl, rfl, found⟩

/-- The C file is in the directory `below` of the project in the directory `above`. -/
structure Located (env : ToolEnv) (data : CFileData) (above below : List String) : Prop where
  components : ∀ c ∈ above ++ below, IsComponent c
  rootDir : data.rootDir = absPath above
  fileDir : data.fileDir = absPath (above ++ below)
  relPath : data.relPath = below
  realRoot : env.realpath (absPath above) = some (absPath above)
  realDir : env.realpath (absPath (above ++ below)) = some (absPath (above ++ below))

theorem exists_located {env : ToolEnv} {cFile : String} {fs : FileSystem} {data : CFileData}
    (canonical : Canonicalises env.realpath) (isData : getCFileData env cFile fs = .ok data) :
    ∃ above below, Located env data above below := by
  obtain ⟨isReal, isDir, -, found⟩ := getCFileData_ok isData
  obtain ⟨cs, components, same, real⟩ := canonical.exists_dirname isReal
  rw [← isDir] at same
  rw [same] at found
  obtain ⟨above, below, rfl, isRoot, isRel⟩ := findRoot_absPath components found
  rw [List.append_nil] at isRel
  refine ⟨above, below, ?_⟩
  exact
    { components := components
      rootDir := isRoot
      fileDir := same
      relPath := isRel
      realRoot := real above (List.prefix_append above below)
      realDir := real _ (List.prefix_refl _) }

/-- The data of a C file depend on the project files only. -/
theorem getCFileData_congr {env : ToolEnv} {cFile : String} {fs fs' : FileSystem}
    {data : CFileData} (canonical : Canonicalises env.realpath)
    (isData : getCFileData env cFile fs = .ok data)
    (same : ∀ cs above, data.fileDir = absPath cs →
      (∀ c ∈ cs, IsComponent c) → above <+: cs →
      fs'.node (concat (absPath above) rcProjectFile) =
        fs.node (concat (absPath above) rcProjectFile)) :
    getCFileData env cFile fs' = .ok data := by
  obtain ⟨isReal, isDir, -, found⟩ := getCFileData_ok isData
  obtain ⟨cs, components, isPath, -⟩ := canonical.exists_dirname isReal
  rw [← isDir] at isPath
  have sameRoot := findRoot_congr components (fun above => same cs above isPath components)
    (data.fileDir.length + 1) []
  rw [← isPath, found] at sameRoot
  obtain ⟨above, below, split, isRoot, -⟩ := findRoot_absPath components (isPath ▸ found)
  have sameFile := same cs above isPath components ⟨below, split.symm⟩
  rw [← isRoot] at sameFile
  rw [← isData, getCFileData, getCFileData, isReal]
  simp only [← isDir, sameRoot, found, sameFile]

/-! ## Generated paths -/

theorem isBelow_iff {dir path : String} :
    FileSystem.isBelow dir path = true ↔ path = dir ∨ dir.toList ++ ['/'] <+: path.toList := by
  rw [FileSystem.isBelow, Bool.or_eq_true, beq_iff_eq, List.isPrefixOf_iff_prefix]

theorem prefix_concat (dir name : String) : dir.toList <+: (concat dir name).toList := by
  rw [concat]
  split
  · rw [String.toList_append]
    exact List.prefix_append _ _
  · rw [String.toList_append, String.toList_append, List.append_assoc]
    exact List.prefix_append _ _

/-- Nothing that is in a directory is outside of the directories above. -/
theorem ne_of_not_isBelow {dir path other : String}
    (notBelow : FileSystem.isBelow dir other = false)
    (isBelow : FileSystem.isBelow dir path = true) : other ≠ path := by
  rintro rfl
  rw [notBelow] at isBelow
  cases isBelow

private theorem isBelow_trans {dir between path : String}
    (first : FileSystem.isBelow dir between = true)
    (second : FileSystem.isBelow between path = true) : FileSystem.isBelow dir path = true := by
  rw [isBelow_iff] at first second ⊢
  rcases second with rfl | second
  · exact first
  · refine .inr ?_
    rcases first with rfl | first
    · exact second
    · exact first.trans ((List.prefix_append _ _).trans second)

namespace CFileData

variable (data : CFileData)

private theorem isBelow_fileRcDir_concat (name : String) :
    FileSystem.isBelow data.fileRcDir (concat data.fileRcDir name) = true := by
  have endsInS : data.fileRcDir.toList.getLast? = some 's' := by
    rw [fileRcDir, concat]
    split
    · rw [String.toList_append, List.getLast?_append]
      rfl
    · rw [String.toList_append, List.getLast?_append]
      rfl
  have notEmpty : data.fileRcDir ≠ "" := by
    intro isEmpty
    rw [isEmpty] at endsInS
    cases endsInS
  refine isBelow_iff.mpr (.inr ?_)
  rw [concat, if_neg (by simp [notEmpty, endsInS]), String.toList_append, String.toList_append]
  exact List.prefix_append _ _

theorem isBelow_outputDir : FileSystem.isBelow data.fileRcDir data.outputDir = true :=
  data.isBelow_fileRcDir_concat data.baseName

private theorem fileRcDir_prefix : data.fileRcDir.toList <+: data.outputDir.toList :=
  prefix_concat data.fileRcDir data.baseName

private theorem isWords_fileRcDir (words : IsWords data.outputDir) : IsWords data.fileRcDir :=
  fun c member => words c (data.fileRcDir_prefix.subset member)

private theorem isPlain_fileRcDir (plain : IsPlain data.outputDir) : IsPlain data.fileRcDir :=
  fun c member => plain c (data.fileRcDir_prefix.subset member)

private theorem isBelow_generated (name : String) :
    FileSystem.isBelow data.fileRcDir (concat data.outputDir name) = true := by
  have isOutput := data.isBelow_outputDir
  rw [isBelow_iff] at isOutput ⊢
  rcases isOutput with isRcDir | isPrefix
  · rw [isRcDir]
    exact isBelow_iff.mp (data.isBelow_fileRcDir_concat name)
  · exact .inr (isPrefix.trans (prefix_concat data.outputDir name))

end CFileData

/-! ## Canonical generated paths -/

private theorem prefix_of_isBelow {above path : List String} (nonempty : above ≠ [])
    (isAbove : ∀ c ∈ above, IsComponent c) (isPath : ∀ c ∈ path, IsComponent c)
    (below : FileSystem.isBelow (absPath above) (absPath path) = true) : above <+: path := by
  rcases isBelow_iff.mp below with same | ⟨rest, same⟩
  · have samePath : path = above := absPath_inj isPath isAbove same
    exact samePath ▸ List.prefix_refl above
  · rw [List.append_assoc, List.singleton_append] at same
    exact prefix_of_absPath nonempty isAbove isPath same

theorem isComponent_rcDirName : IsComponent rcDirName := by
  constructor <;> decide

/-- A file in a directory above is not generated unless it has the reserved name. -/
theorem not_isBelow_rcDir {cs above : List String} {name : String}
    (components : ∀ c ∈ cs, IsComponent c) (isAbove : above <+: cs) (isName : IsComponent name)
    (different : name ≠ rcDirName) :
    FileSystem.isBelow (concat (absPath cs) rcDirName) (concat (absPath above) name) = false := by
  obtain ⟨below, rfl⟩ := isAbove
  have above_components : ∀ c ∈ above, IsComponent c :=
    fun c member => components c (List.mem_append_left _ member)
  rw [concat_absPath components, concat_absPath above_components, ← Bool.not_eq_true]
  intro isBelow
  have isPrefix := prefix_of_isBelow (by simp)
    (List.forall_mem_append.mpr ⟨components, by simpa using isComponent_rcDirName⟩)
    (List.forall_mem_append.mpr ⟨above_components, by simpa using isName⟩) isBelow
  rw [List.append_assoc, List.prefix_append_right_inj] at isPrefix
  cases below with
  | nil =>
      rw [List.nil_append, List.cons_prefix_cons] at isPrefix
      exact different isPrefix.1.symm
  | cons c below =>
      have short := isPrefix.length_le
      simp at short

/-! ## Directories of the generated files -/

def outputDirOf (filePath : String) : String :=
  concat (concat (dirname filePath) rcDirName) (removeExtension (basename filePath))

theorem outputDir_eq_outputDirOf {env : ToolEnv} {cFile filePath : String} {fs : FileSystem}
    {data : CFileData} (isReal : env.realpath cFile = some filePath)
    (isData : getCFileData env cFile fs = .ok data) : data.outputDir = outputDirOf filePath := by
  obtain ⟨isReal', isDir, isBase, -⟩ := getCFileData_ok isData
  rw [isReal, Option.some.injEq] at isReal'
  rw [CFileData.outputDir, CFileData.fileRcDir, isDir, isBase, isReal', outputDirOf]

theorem modulePath_ok {data : CFileData} {path : CoqPath} (isPath : data.modulePath = .ok path) :
    ∀ c ∈ data.relPath ++ [data.baseName], ∃ m : CoqMember, m.name = c := by
  rw [CFileData.modulePath] at isPath
  split at isPath
  · rename_i suffix isSuffix
    intro c member
    obtain ⟨m, -, isMember⟩ := exists_of_mem_right (mapM_eq_ok.mp isSuffix).flip member
    rw [CoqPath.memberOfString] at isMember
    split at isMember
    · rename_i valid
      exact ⟨⟨c, valid⟩, rfl⟩
    · cases isMember
  · cases isPath
  · cases isPath

section

variable {env : ToolEnv} {data : CFileData} {path : CoqPath} {above below : List String}

/-- The directories above the generated files of a C file. -/
def outputDirs (data : CFileData) (above below : List String) : List String :=
  above ++ below ++ [rcDirName, data.baseName]

theorem outputDirs_isComponent (located : Located env data above below)
    (isPath : data.modulePath = .ok path) :
    ∀ c ∈ outputDirs data above below, IsComponent c := by
  obtain ⟨m, isBase⟩ := modulePath_ok isPath data.baseName (by simp)
  refine List.forall_mem_append.mpr ⟨located.components, ?_⟩
  rw [List.forall_mem_cons, List.forall_mem_singleton]
  exact ⟨isComponent_rcDirName, isBase ▸ m.isComponent⟩

theorem fileRcDir_isComponent (located : Located env data above below) :
    ∀ c ∈ above ++ below ++ [rcDirName], IsComponent c :=
  List.forall_mem_append.mpr ⟨located.components, by simpa using isComponent_rcDirName⟩

theorem fileRcDir_eq (located : Located env data above below) :
    data.fileRcDir = absPath (above ++ below ++ [rcDirName]) := by
  rw [CFileData.fileRcDir, located.fileDir, concat_absPath located.components]

theorem outputDir_eq (located : Located env data above below) :
    data.outputDir = absPath (outputDirs data above below) := by
  rw [CFileData.outputDir, fileRcDir_eq located, concat_absPath (fileRcDir_isComponent located),
    outputDirs, List.append_assoc _ [rcDirName]]
  rfl

end

/-! ## What the commands do -/

theorem run_eq {env : ToolEnv} {cfg : CheckConfig} {tools : Tools} {cFile : String}
    {fs : FileSystem} {data : CFileData} {path : CoqPath}
    (isData : getCFileData env cFile fs = .ok data) (isPath : data.modulePath = .ok path) :
    run env cfg tools cFile fs = checkFile env cfg tools data path fs := by
  have read : reads (getCFileData env cFile) fs = (.ok (getCFileData env cFile fs), fs) := rfl
  rw [run, Persistent.bind_ok read, isData, Persistent.lift_ok_bind, isPath,
    Persistent.lift_ok_bind]

/-- A check of a file that is in no project or has no module path does nothing. -/
theorem run_cases (env : ToolEnv) (cfg : CheckConfig) (tools : Tools) (cFile : String)
    (fs : FileSystem) :
    (∃ e, run env cfg tools cFile fs = (.error e, fs)) ∨
      ∃ data path, getCFileData env cFile fs = .ok data ∧ data.modulePath = .ok path ∧
        run env cfg tools cFile fs = checkFile env cfg tools data path fs := by
  have read : reads (getCFileData env cFile) fs = (.ok (getCFileData env cFile fs), fs) := rfl
  cases isData : getCFileData env cFile fs with
  | error e =>
      refine .inl ⟨e, ?_⟩
      rw [run, Persistent.bind_ok read, isData]
      rfl
  | ok data =>
      cases isPath : data.modulePath with
      | error e =>
          refine .inl ⟨e, ?_⟩
          rw [run, Persistent.bind_ok read, isData, Persistent.lift_ok_bind, isPath]
          rfl
      | ok path => exact .inr ⟨data, path, rfl, isPath, run_eq isData isPath⟩

theorem runClean_eq {env : ToolEnv} {soft : Bool} {cFile : String} {fs : FileSystem}
    {data : CFileData} (isData : getCFileData env cFile fs = .ok data) :
    runClean env soft cFile fs = cleanFile env soft data fs := by
  have read : reads (getCFileData env cFile) fs = (.ok (getCFileData env cFile fs), fs) := rfl
  rw [runClean, Persistent.bind_ok read, isData, Persistent.lift_ok_bind]

theorem runClean_cases (env : ToolEnv) (soft : Bool) (cFile : String) (fs : FileSystem) :
    (∃ e, runClean env soft cFile fs = (.error e, fs)) ∨
      ∃ data, getCFileData env cFile fs = .ok data ∧
        runClean env soft cFile fs = cleanFile env soft data fs := by
  have read : reads (getCFileData env cFile) fs = (.ok (getCFileData env cFile fs), fs) := rfl
  cases isData : getCFileData env cFile fs with
  | error e =>
      refine .inl ⟨e, ?_⟩
      rw [runClean, Persistent.bind_ok read, isData]
      rfl
  | ok data => exact .inr ⟨data, rfl, runClean_eq isData⟩

/-! ## What the commands leave alone -/

section

variable {env : ToolEnv} {cfg : CheckConfig} {tools : Tools} {data : CFileData} {path : CoqPath}
  {other : String}

theorem write_leavesAlone {file : String} {printed : Except Exn (List Char)}
    (different : other ≠ file) : LeavesAlone other (write file printed) := by
  refine .bind (.lift printed) fun text => .bind (.reads _) fun old => ?_
  split
  · exact .pure ()
  · exact .writeText different

theorem ensureDir_leavesAlone {dir : String} {create : FsM Unit}
    (creates : LeavesAlone other create) : LeavesAlone other (ensureDir dir create) := by
  refine .bind (.reads _) fun isThere => ?_
  split
  · exact .pure ()
  · exact creates

private theorem addMapping_leavesAlone (different : other ≠ data.coqProjPath) :
    LeavesAlone other (addMapping env data path) := by
  refine .bind (.lift _) fun dunePath => .bind (.orDefault .readFile) fun lines => ?_
  split
  · exact .pure ()
  · exact .appendFile different

theorem prepareOutput_leavesAlone (notRcDir : other ≠ data.fileRcDir)
    (notOutput : other ≠ data.outputDir) (different : other ≠ data.coqProjPath) :
    LeavesAlone other (prepareOutput env data path) := by
  refine .bind (ensureDir_leavesAlone (.mkdir notRcDir)) fun _ => ?_
  exact ensureDir_leavesAlone (.bind (.mkdir notOutput) fun _ => addMapping_leavesAlone different)

variable (notBelow : FileSystem.isBelow data.fileRcDir other = false)

include notBelow

private theorem generateProofs_leavesAlone {annots : CommentAnnots} {ast : CoqProgram} :
    LeavesAlone other (generateProofs tools data path annots ast) := by
  have notGenerated name := ne_of_not_isBelow notBelow (data.isBelow_generated name)
  refine .bind ?_ fun _ => .bind (.writeText (notGenerated _)) fun _ => .forM _ fun f _ => ?_
  · refine .bind (.orDefault .readFile) fun files => .forM _ fun file member => ?_
    obtain ⟨name, -, rfl⟩ := List.mem_map.mp member
    rw [deleteWhenObsolete]
    split
    · exact .pure ()
    · exact .orDefault (.remove (notGenerated name))
  · rw [writeProof.eq_def]
    split
    · exact .pure ()
    · split
      · exact .pure ()
      · exact write_leavesAlone (notGenerated _)

theorem generateFiles_leavesAlone : LeavesAlone other (generateFiles env cfg tools data path) := by
  have notGenerated name := ne_of_not_isBelow notBelow (data.isBelow_generated name)
  refine .bind (.lift _) fun cppI => .bind (.lift _) fun annots => .bind (.lift _) fun cFileRel =>
    .bind (.lift _) fun ast => ?_
  refine .bind (write_leavesAlone (notGenerated _)) fun _ =>
    .bind (write_leavesAlone (notGenerated _)) fun _ => ?_
  exact .bind (generateProofs_leavesAlone notBelow) fun _ => .writeText (notGenerated _)

theorem checkFile_leavesAlone (different : other ≠ data.coqProjPath) :
    LeavesAlone other (checkFile env cfg tools data path) := by
  have notRcDir := ne_of_not_isBelow notBelow (isBelow_iff.mpr (.inl rfl))
  have notOutput := ne_of_not_isBelow notBelow data.isBelow_outputDir
  refine .bind (.bind (prepareOutput_leavesAlone notRcDir notOutput different) fun _ =>
    generateFiles_leavesAlone notBelow) fun _ => ?_
  split
  · exact .pure ()
  · exact .lift _

/-- Outside of the directory of the generated files, only the shell removes something. -/
theorem removeGenerated_preserves {inv : FileSystem → Prop}
    (ofNode : ∀ fs fs', fs'.node other = fs.node other → inv fs → inv fs')
    (removes : ∀ dir ∈ [data.outputDir, data.fileRcDir],
      Persistent.Preserves inv (rmRf env.rm dir)) :
    Persistent.Preserves inv (removeGenerated env data) := by
  have notGenerated name := ne_of_not_isBelow notBelow (data.isBelow_generated name)
  have removesFile name : LeavesAlone other
      (orDefault (remove (concat data.outputDir name)) ()) :=
        .orDefault (.remove (notGenerated name))
  have reads : LeavesAlone other (orDefault (readFile data.proofFilesFile) []) :=
    .orDefault .readFile
  refine .bind (reads.preserves ofNode) fun files =>
    .bind (.forM _ fun file member => ?_) fun _ => .forM _ fun dir member => ?_
  · rcases List.mem_append.mp member with isFixed | isProof
    · simp only [List.mem_cons, List.not_mem_nil, or_false] at isFixed
      rcases isFixed with rfl | rfl | rfl | rfl <;> exact (removesFile _).preserves ofNode
    · obtain ⟨name, -, rfl⟩ := List.mem_map.mp isProof
      exact (removesFile name).preserves ofNode
  · refine .bind ((LeavesAlone.reads _).preserves ofNode) fun isEmpty => ?_
    split
    · exact removes dir member
    · exact .pure ()

theorem removeGenerated_leavesAlone {above below : List String}
    (located : Located env data above below) (isPath : data.modulePath = .ok path)
    (removes : RemovesWords env.rm) (plain : IsPlain data.outputDir) :
    LeavesAlone other (removeGenerated env data) := by
  have notBelowOutput : FileSystem.isBelow data.outputDir other = false := by
    rw [← Bool.not_eq_true] at notBelow ⊢
    exact notBelow ∘ isBelow_trans data.isBelow_outputDir
  intro node
  refine removeGenerated_preserves notBelow (fun fs fs' same isNode => same.trans isNode)
    fun dir member => ?_
  simp only [List.mem_cons, List.not_mem_nil, or_false] at member
  rcases member with rfl | rfl
  · exact LeavesAlone.rmRf removes (by simp [outputDirs]) (outputDirs_isComponent located isPath)
      (outputDir_eq located) plain notBelowOutput node
  · exact LeavesAlone.rmRf removes (by simp) (fileRcDir_isComponent located) (fileRcDir_eq located)
      (data.isPlain_fileRcDir plain) notBelow node

theorem removeGenerated_keepsOrRemoves (removes : RemovesWords env.rm)
    (words : IsWords data.outputDir) : KeepsOrRemoves other (removeGenerated env data) := by
  intro node
  refine removeGenerated_preserves notBelow (fun fs fs' same isNode => ?_) fun dir member => ?_
  · rwa [same]
  · simp only [List.mem_cons, List.not_mem_nil, or_false] at member
    rcases member with rfl | rfl
    · exact KeepsOrRemoves.rmRf removes words node
    · exact KeepsOrRemoves.rmRf removes (data.isWords_fileRcDir words) node

omit notBelow

theorem removeMapping_leavesAlone (different : other ≠ data.coqProjPath) :
    LeavesAlone other (removeMapping env data) := by
  refine .bind (.lift _) fun path => .bind (.lift _) fun dunePath =>
    .bind (.orDefault .readFile) fun lines => ?_
  split
  · exact .writeText different
  · exact .pure ()

theorem removeGenerated_succeeds (env : ToolEnv) (data : CFileData) :
    Succeeds (removeGenerated env data) := by
  have rmdirSucceeds dir : Succeeds (rmdir env dir) := by
    refine .bind (.reads _) fun isEmpty => ?_
    split
    · exact .rmRf env.rm dir
    · exact .pure ()
  rw [removeGenerated, orDefault_readFile]
  exact .bind (.reads _) fun files => .bind (.forM _ fun file => .orDefault_remove file) fun _ =>
    .forM _ fun dir => rmdirSucceeds dir

end

end RefinedC.Frontend
