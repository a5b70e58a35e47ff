import RefinedC.Frontend.CheckThenClean

/-!
Proof files.

Source: `run` of `frontend/main.ml`, from the list of proof files to generate to the last
proof file that is written.

Owns: which proof files are there and which are recorded, what a run does to both on
every way out, and the condition under which no obsolete proof file survives a run.

A function that is only declared keeps the proof file that it has, and gets none if it
has none.
-/

namespace RefinedC.Frontend

open Filename
open Library
open Persistent (lift Triple)

/-! ## Names of generated files -/

/-- The proof file of a function in an output directory. -/
def proofPath (out : String) (f : FunctionName) : String := concat out (proofFileName f.name)

private theorem concat_inj {dir name name' : String} (same : concat dir name = concat dir name') :
    name = name' := by
  rw [concat, concat] at same
  have chars := congrArg String.toList same
  split at chars
  · simp only [String.toList_append, List.append_cancel_left_eq] at chars
    exact String.toList_inj.mp chars
  · simp only [String.toList_append, List.append_cancel_left_eq] at chars
    exact String.toList_inj.mp chars

private theorem toList_proofFileName (id : String) :
    (proofFileName id).toList = "generated_proof_".toList ++ (id.toList ++ ".v".toList) := by
  have chars (start rest : String) :
      (start ++ id ++ rest).toList = start.toList ++ (id.toList ++ rest.toList) := by
    rw [String.toList_append, String.toList_append, List.append_assoc]
  exact chars "generated_proof_" ".v"

private theorem proofFileName_inj {f g : FunctionName}
    (same : proofFileName f.name = proofFileName g.name) :
    f = g := by
  have chars := congrArg String.toList same
  rw [toList_proofFileName, toList_proofFileName, List.append_cancel_left_eq,
    List.append_cancel_right_eq, String.toList_inj] at chars
  cases f
  cases g
  cases chars
  rfl

/-- A name that starts otherwise is no name of a proof file. -/
theorem proofFileName_ne {id name : String}
    (different : name.toList.take 16 ≠ "generated_proof_".toList) :
    proofFileName id ≠ name := by
  rintro rfl
  refine different ?_
  rw [toList_proofFileName]
  rfl

private theorem isComponent_proofFileName (f : FunctionName) :
    IsComponent (proofFileName f.name) where
  nonempty := proofFileName_ne (by decide)
  noSep := by
    have noSep := f.noSep
    rw [toList_proofFileName]
    simp [noSep]
  notCurrent := proofFileName_ne (by decide)
  notParent := proofFileName_ne (by decide)

private theorem newline_not_mem_proofFileName (f : FunctionName) :
    '\n' ∉ (proofFileName f.name).toList := by
  have noNewline := f.noNewline
  rw [toList_proofFileName]
  simp [noNewline]

section

variable {out : String} {f g : FunctionName}

private theorem proofPath_inj (same : proofPath out f = proofPath out g) : f = g :=
  proofFileName_inj (concat_inj same)

private theorem proofPath_ne {name : String}
    (different : name.toList.take 16 ≠ "generated_proof_".toList) :
    proofPath out f ≠ concat out name :=
  fun same => proofFileName_ne different (concat_inj same)

end

/-! ## Functions of a program -/

namespace CoqProgram

variable (ast : CoqProgram) (f : FunctionName)

/-- The program defines the function, and does not inline it. -/
def Defines : Prop :=
  ∃ annot fn, (f, .fDef annot fn) ∈ ast.functions ∧ isInlined annot = false

/-- The program declares the function and does not define it. -/
def OnlyDeclares : Prop := (∃ annot, (f, .fDec annot) ∈ ast.functions) ∧ ¬ ast.Defines f

end CoqProgram

private theorem mem_toGenerate_iff {data : CFileData} {ast : CoqProgram} {f : FunctionName} :
    proofPath data.outputDir f ∈ toGenerate data ast ↔
      ast.Defines f ∨ ast.OnlyDeclares f := by
  rw [toGenerate, mem_sortUniq, List.mem_map]
  constructor
  · rintro ⟨⟨g, d⟩, member, same⟩
    cases proofPath_inj same
    obtain ⟨isFunction, kept⟩ := List.mem_filter.mp member
    cases d with
    | fDef annot fn => exact .inl ⟨annot, fn, isFunction, by simpa [notInlined] using kept⟩
    | fDec annot =>
        by_cases defines : ast.Defines g
        · exact .inl defines
        · exact .inr ⟨⟨annot, isFunction⟩, defines⟩
  · rintro (⟨annot, fn, isFunction, kept⟩ | ⟨⟨annot, isFunction⟩, -⟩)
    · exact ⟨_, List.mem_filter.mpr ⟨isFunction, by simp [notInlined, kept]⟩, rfl⟩
    · exact ⟨_, List.mem_filter.mpr ⟨isFunction, rfl⟩, rfl⟩

private theorem exists_proofPath_of_mem_toGenerate {data : CFileData}
    {ast : CoqProgram} {path : String}
    (member : path ∈ toGenerate data ast) : ∃ f, path = proofPath data.outputDir f := by
  rw [toGenerate, mem_sortUniq, List.mem_map] at member
  obtain ⟨f, -, rfl⟩ := member
  exact ⟨f.1, rfl⟩

/-! ## Recorded proof files -/

section

variable (out : String) (fs : FileSystem)

/-- The function has a proof file in the output directory. -/
def Present (f : FunctionName) : Prop := (fs.text (proofPath out f)).isSome = true

/-- The list of proof files names proof files, and all that are there. -/
structure Recorded : Prop where
  names : ∀ line ∈ fs.lines (concat out proofsFileName), ∃ f : FunctionName,
    line = proofFileName f.name
  present : ∀ f, Present out fs f → proofFileName f.name ∈ fs.lines
      (concat out proofsFileName)

/-- The proof files are recorded, and are those of `there`. -/
structure Bookkept (there : FunctionName → Prop) : Prop where
  recorded : Recorded out fs
  present : ∀ f, Present out fs f ↔ there f

/-- The path is that of a proof file or of the list of them. -/
def IsBookkeeping (path : String) : Prop :=
  path = concat out proofsFileName ∨ ∃ f, path = proofPath out f

end

section

variable {out : String} {fs fs' : FileSystem}

private theorem proofPath_ne_proofsFile (f : FunctionName) :
    proofPath out f ≠ concat out proofsFileName := proofPath_ne (by decide)

private theorem present_congr (same : ∀ p, IsBookkeeping out p → fs'.node p = fs.node p)
    (f : FunctionName) : Present out fs' f ↔ Present out fs f := by
  rw [Present, Present, FileSystem.text_congr (same _ (.inr ⟨f, rfl⟩))]

theorem Recorded.congr (recorded : Recorded out fs)
    (same : ∀ p, IsBookkeeping out p → fs'.node p = fs.node p) : Recorded out fs' := by
  have sameLines := FileSystem.lines_congr (same _ (.inl rfl))
  constructor
  · rw [sameLines]
    exact recorded.names
  · intro f isPresent
    rw [sameLines]
    exact recorded.present f ((present_congr same f).mp isPresent)

theorem Bookkept.congr {there : FunctionName → Prop} (bookkept : Bookkept out fs there)
    (same : ∀ p, IsBookkeeping out p → fs'.node p = fs.node p) : Bookkept out fs' there :=
  ⟨bookkept.recorded.congr same, fun f => (present_congr same f).trans (bookkept.present f)⟩

/-- A computation that leaves the bookkeeping alone keeps what depends on nothing else. -/
theorem triple_of_leavesAlone {α : Type} {m : FsM α} {inv : FileSystem → Prop}
    (alone : ∀ p, IsBookkeeping out p → LeavesAlone p m)
    (congr : ∀ fs fs', (∀ p, IsBookkeeping out p → fs'.node p = fs.node p) →
      inv fs → inv fs') :
    Triple inv m (fun _ => inv) inv := by
  intro fs isInv
  have after : inv (m fs).2 :=
    congr fs (m fs).2 (fun p isBookkeeping => (alone p isBookkeeping).node_eq fs) isInv
  match outcome : m fs with
  | (.ok a, fs') =>
      rw [outcome] at after
      exact after
  | (.error e, fs') =>
      rw [outcome] at after
      exact after

/-! ## Obsolete proof files -/

/-- An obsolete file is removed if it is there, and nothing else changes. -/
theorem deleteWhenObsolete_text (toGenerate : List String) (fname : String) (fs : FileSystem) :
    ∃ fs', deleteWhenObsolete toGenerate fname fs = (.ok (), fs') ∧
      ∀ path, fs'.text path =
        if path = fname ∧ fname ∉ toGenerate then none else fs.text path := by
  rw [deleteWhenObsolete]
  by_cases isNeeded : fname ∈ toGenerate
  · exact ⟨fs, by rw [if_pos isNeeded]; rfl, by simp [isNeeded]⟩
  · rw [if_neg isNeeded, orDefault, Persistent.tryWith, remove]
    cases isText : fs.text fname with
    | none =>
        refine ⟨fs, rfl, fun path => ?_⟩
        by_cases same : path = fname
        · simp [same, isText]
        · simp [same]
    | some text =>
        refine ⟨_, rfl, fun path => ?_⟩
        by_cases same : path = fname
        · simp [same, FileSystem.text, isNeeded]
        · simp [same, FileSystem.text]

/-- After some recorded files, those of them that are needed are there. -/
def Sifted (data : CFileData) (toGenerate lines : List String) (before : FunctionName → Prop)
    (done : List String) (fs : FileSystem) : Prop :=
  fs.lines data.proofFilesFile = lines ∧ ∀ f, Present data.outputDir fs f ↔ before f ∧
    (proofPath data.outputDir f ∈ toGenerate ∨ proofPath data.outputDir f ∉ done)

private theorem deleteWhenObsolete_triple (data : CFileData) (toGenerate lines done : List String)
    (before : FunctionName → Prop) (g : FunctionName) :
    Triple (Sifted data toGenerate lines before done)
      (deleteWhenObsolete toGenerate (proofPath data.outputDir g))
      (fun _ => Sifted data toGenerate lines before (done ++ [proofPath data.outputDir g]))
      (fun _ => False) := by
  intro fs isSifted
  obtain ⟨sameLines, isPresent⟩ := isSifted
  obtain ⟨fs', outcome, texts⟩ :=
    deleteWhenObsolete_text toGenerate (proofPath data.outputDir g) fs
  rw [outcome]
  constructor
  · have notProofsFile := @proofPath_ne_proofsFile data.outputDir g
    rw [FileSystem.lines, texts, if_neg fun both => notProofsFile both.1.symm, ← FileSystem.lines,
      sameLines]
  · intro f
    rw [Present, texts, List.mem_append, List.mem_singleton]
    have old := isPresent f
    rw [Present] at old
    by_cases isThis : proofPath data.outputDir f = proofPath data.outputDir g
    · rw [isThis] at old ⊢
      by_cases isNeeded : proofPath data.outputDir g ∈ toGenerate
      · simpa [isNeeded] using old
      · simp [isNeeded]
    · simpa [isThis] using old

/-- Of the proof files that are there, those to generate stay. -/
theorem deleteObsolete_triple (data : CFileData) (toGenerate : List String)
    (before : FunctionName → Prop) :
    Triple (fun fs => Bookkept data.outputDir fs before) (deleteObsolete data toGenerate)
      (fun _ fs => Bookkept data.outputDir fs fun f =>
        before f ∧ proofPath data.outputDir f ∈ toGenerate)
      (Recorded data.outputDir) := by
  intro fs bookkept
  obtain ⟨recorded, isBefore⟩ := bookkept
  have read : reads (fun fs => fs.lines data.proofFilesFile) fs =
      (.ok (fs.lines data.proofFilesFile), fs) := rfl
  rw [deleteObsolete, orDefault_readFile, Persistent.bind_ok read]
  have loop : Triple (Sifted data toGenerate (fs.lines data.proofFilesFile) before [])
      (((fs.lines data.proofFilesFile).map (concat data.outputDir)).forM
        (deleteWhenObsolete toGenerate))
      (fun _ => Sifted data toGenerate (fs.lines data.proofFilesFile) before
        ((fs.lines data.proofFilesFile).map (concat data.outputDir)))
      (fun _ => False) := by
    refine Triple.forM _ fun done fname member => ?_
    obtain ⟨line, isLine, rfl⟩ := List.mem_map.mp member
    obtain ⟨g, rfl⟩ := recorded.names line isLine
    exact deleteWhenObsolete_triple data toGenerate _ done before g
  have after := loop fs ⟨rfl, fun f => by simp [isBefore]⟩
  split at after
  · rename_i outcome
    rw [outcome]
    obtain ⟨sameLines, isPresent⟩ := after
    -- what is there was there before, and so it is recorded
    have isRecorded f (isThere : before f) :
        proofFileName f.name ∈ fs.lines data.proofFilesFile :=
      recorded.present f ((isBefore f).mpr isThere)
    refine ⟨⟨?_, fun f isThere => ?_⟩, fun f => ?_⟩
    · rw [← CFileData.proofFilesFile, sameLines]
      exact recorded.names
    · rw [← CFileData.proofFilesFile, sameLines]
      exact isRecorded f ((isPresent f).mp isThere).1
    · rw [isPresent]
      refine and_congr_right fun isThere => or_iff_left fun notDone => notDone ?_
      exact List.mem_map_of_mem (isRecorded f isThere)
  · exact after.elim

/-! ## New proof files -/

/-- The list of proof files is the one of the program, and `there` has proof files. -/
structure Listed (data : CFileData) (ast : CoqProgram) (there : FunctionName → Prop)
    (fs : FileSystem) : Prop where
  lines : fs.lines data.proofFilesFile = (toGenerate data ast).map basename
  present : ∀ f, Present data.outputDir fs f ↔ there f

section

variable {data : CFileData} {cs : List String} {ast : CoqProgram} {there : FunctionName → Prop}
  (isOutput : data.outputDir = absPath cs) (components : ∀ c ∈ cs, IsComponent c)

include isOutput components

private theorem basename_proofPath (f : FunctionName) :
    basename (proofPath data.outputDir f) = proofFileName f.name := by
  rw [proofPath, isOutput, concat_absPath components,
    basename_absPath (isComponent_proofFileName f)]

theorem Listed.recorded (listed : Listed data ast there fs)
    (needed : ∀ f, there f → proofPath data.outputDir f ∈ toGenerate data ast) :
    Recorded data.outputDir fs := by
  constructor
  · rw [← CFileData.proofFilesFile, listed.lines]
    intro line member
    obtain ⟨path, inList, rfl⟩ := List.mem_map.mp member
    obtain ⟨f, rfl⟩ := exists_proofPath_of_mem_toGenerate inList
    exact ⟨f, basename_proofPath isOutput components f⟩
  · rw [← CFileData.proofFilesFile, listed.lines]
    intro f isPresent
    rw [← basename_proofPath isOutput components f]
    exact List.mem_map_of_mem (needed f ((listed.present f).mp isPresent))

private theorem writeList_triple :
    Triple (fun fs => Bookkept data.outputDir fs there)
      (writeFile data.proofFilesFile ((toGenerate data ast).map basename))
      (fun _ => Listed data ast there) (Recorded data.outputDir) := by
  intro fs bookkept
  obtain ⟨recorded, isPresent⟩ := bookkept
  rw [writeFile, writeText]
  split
  · rename_i outcome
    split at outcome
    · cases outcome
    · cases outcome
      constructor
      · refine FileSystem.lines_set_textOf fun line member => ?_
        obtain ⟨path, inList, rfl⟩ := List.mem_map.mp member
        obtain ⟨f, rfl⟩ := exists_proofPath_of_mem_toGenerate inList
        rw [basename_proofPath isOutput components]
        exact newline_not_mem_proofFileName f
      · intro f
        rw [← isPresent f, Present, Present, FileSystem.text_congr]
        exact FileSystem.set_node_other (proofPath_ne_proofsFile f)
  · rename_i outcome
    split at outcome
    · cases outcome
      exact recorded
    · cases outcome

end

/-- A failed write changes nothing. -/
theorem write_cases (path : String) (printed : Except Exn (List Char)) (fs : FileSystem) :
    (∃ e, write path printed fs = (.error e, fs)) ∨
      ∃ fs', write path printed fs = (.ok (), fs') ∧ (fs'.text path).isSome = true ∧
        ∀ p, p ≠ path → fs'.node p = fs.node p := by
  have read : reads (fun fs => fs.text path) fs = (.ok (fs.text path), fs) := rfl
  cases printed with
  | error e => exact .inl ⟨e, rfl⟩
  | ok text =>
      rw [write, Persistent.lift_ok_bind, Persistent.bind_ok read]
      by_cases same : fs.text path = some text
      · refine .inr ⟨fs, ?_, by simp [same], fun p _ => rfl⟩
        rw [if_pos same]
        rfl
      · rw [if_neg same, writeText]
        split
        · exact .inl ⟨_, rfl⟩
        · exact .inr ⟨_, rfl, by simp, fun p different => FileSystem.set_node_other different⟩

private theorem defines_append_iff {done : List (FunctionName × FuncDefOrDecl)}
    {x : FunctionName × FuncDefOrDecl} {f : FunctionName} :
    (CoqProgram.mk (done ++ [x])).Defines f ↔
      (CoqProgram.mk done).Defines f ∨ (CoqProgram.mk [x]).Defines f := by
  simp only [CoqProgram.Defines, List.mem_append]
  constructor
  · rintro ⟨annot, fn, inDone | isLast, notInlined⟩
    · exact .inl ⟨annot, fn, inDone, notInlined⟩
    · exact .inr ⟨annot, fn, isLast, notInlined⟩
  · rintro (⟨annot, fn, inDone, notInlined⟩ | ⟨annot, fn, isLast, notInlined⟩)
    · exact ⟨annot, fn, .inl inDone, notInlined⟩
    · exact ⟨annot, fn, .inr isLast, notInlined⟩

/-- After some functions, those of them that are defined have proof files. -/
theorem writeProof_triple (tools : Tools) (data : CFileData) (path : CoqPath)
    (annots : CommentAnnots) (ast : CoqProgram) (kept : FunctionName → Prop)
    (done : List (FunctionName × FuncDefOrDecl)) (x : FunctionName × FuncDefOrDecl) :
    Triple (Listed data ast fun f => kept f ∨ (CoqProgram.mk done).Defines f)
      (writeProof tools data path annots ast x)
      (fun _ => Listed data ast fun f => kept f ∨ (CoqProgram.mk (done ++ [x])).Defines f)
      (Listed data ast fun f => kept f ∨ (CoqProgram.mk done).Defines f) := by
  have skips (none : ∀ f, ¬ (CoqProgram.mk [x]).Defines f) :
      Triple (Listed data ast fun f => kept f ∨ (CoqProgram.mk done).Defines f)
        (pure () : FsM Unit)
        (fun _ => Listed data ast fun f => kept f ∨ (CoqProgram.mk (done ++ [x])).Defines f)
        (Listed data ast fun f => kept f ∨ (CoqProgram.mk done).Defines f) := by
    refine Triple.pure fun fs listed => ⟨listed.lines, fun f => ?_⟩
    rw [listed.present f, defines_append_iff, or_iff_left (none f)]
  obtain ⟨g, d⟩ := x
  cases d with
  | fDec annot =>
      refine skips fun f defines => ?_
      obtain ⟨annot, fn, member, -⟩ := defines
      cases List.mem_singleton.mp member
  | fDef annot fn =>
      rw [writeProof]
      by_cases inlined : isInlined annot = true
      · rw [if_pos inlined]
        refine skips fun f defines => ?_
        obtain ⟨annot, fn, member, notInlined⟩ := defines
        cases List.mem_singleton.mp member
        rw [inlined] at notInlined
        cases notInlined
      · rw [if_neg inlined]
        intro fs listed
        rcases write_cases (data.proofOfFile g.name) (tools.ppProof path annot fn annots ast) fs
          with ⟨e, stops⟩ | ⟨fs', outcome, isThere, others⟩
        · rw [stops]
          exact listed
        · rw [outcome]
          constructor
          · rw [← listed.lines, FileSystem.lines_congr]
            exact others _ fun same => proofPath_ne_proofsFile g same.symm
          · intro f
            rw [defines_append_iff]
            by_cases isThis : f = g
            · subst isThis
              refine iff_of_true isThere (.inr (.inr ?_))
              exact ⟨annot, fn, List.mem_singleton_self _, by simpa using inlined⟩
            · have notThis : ¬ (CoqProgram.mk [(g, .fDef annot fn)]).Defines f := by
                rintro ⟨annot', fn', member, -⟩
                cases List.mem_singleton.mp member
                exact isThis rfl
              rw [or_iff_left notThis, ← listed.present f, Present, Present,
                FileSystem.text_congr]
              exact others _ fun same => isThis (proofPath_inj same)

/-- The functions with a proof file after a run: those that have one already and are declared
or defined, and those that are defined. -/
def ThereAfter (data : CFileData) (ast : CoqProgram) (before : FunctionName → Prop)
    (f : FunctionName) : Prop :=
  (before f ∧ proofPath data.outputDir f ∈ toGenerate data ast) ∨ ast.Defines f

section

variable {data : CFileData} {cs : List String} {before : FunctionName → Prop}
  (isOutput : data.outputDir = absPath cs) (components : ∀ c ∈ cs, IsComponent c)

include isOutput components

private theorem Listed.recorded_after {ast : CoqProgram}
    (listed : Listed data ast (ThereAfter data ast before) fs) : Recorded data.outputDir fs := by
  refine listed.recorded isOutput components fun f isThere => ?_
  rcases isThere with ⟨-, needed⟩ | defines
  · exact needed
  · exact mem_toGenerate_iff.mpr (.inl defines)

private theorem writeProofs_triple (tools : Tools) (path : CoqPath) (annots : CommentAnnots)
    (ast : CoqProgram) :
    Triple
      (Listed data ast fun f => before f ∧ proofPath data.outputDir f ∈ toGenerate data ast)
      (ast.functions.forM (writeProof tools data path annots ast))
      (fun _ => Listed data ast (ThereAfter data ast before)) (Recorded data.outputDir) := by
  have loop := @Triple.forM _ _ (Recorded data.outputDir) _
    (fun done fs => (∀ x ∈ done, x ∈ ast.functions) ∧ Listed data ast (fun f =>
      (before f ∧ proofPath data.outputDir f ∈ toGenerate data ast) ∨
        (CoqProgram.mk done).Defines f) fs)
    (writeProof tools data path annots ast) ast.functions
  refine (loop fun done x member => ?_).weaken ?_ (fun _ fs listed => listed.2) fun _ => id
  · have step := writeProof_triple tools data path annots ast
      (fun f => before f ∧ proofPath data.outputDir f ∈ toGenerate data ast) done x
    intro fs isInv
    obtain ⟨inFunctions, listed⟩ := isInv
    have after := step fs listed
    split at after
    · refine ⟨fun y inDone => ?_, after⟩
      rcases List.mem_append.mp inDone with inDone | isLast
      · exact inFunctions y inDone
      · exact List.mem_singleton.mp isLast ▸ member
    · refine after.recorded isOutput components fun f isThere => ?_
      rcases isThere with ⟨-, needed⟩ | ⟨annot, fn, inDone, notInlined⟩
      · exact needed
      · exact mem_toGenerate_iff.mpr (.inl ⟨annot, fn, inFunctions _ inDone, notInlined⟩)
  · intro fs listed
    refine ⟨by simp, listed.lines, fun f => ?_⟩
    rw [listed.present f, or_iff_left]
    rintro ⟨annot, fn, inNil, -⟩
    cases inNil

private theorem generateProofs_triple (tools : Tools) (path : CoqPath) (annots : CommentAnnots)
    (ast : CoqProgram) :
    Triple (fun fs => Bookkept data.outputDir fs before)
      (generateProofs tools data path annots ast)
      (fun _ => Listed data ast (ThereAfter data ast before)) (Recorded data.outputDir) :=
  Triple.bind (deleteObsolete_triple data (toGenerate data ast) before) fun _ =>
    Triple.bind (writeList_triple isOutput components) fun _ =>
      writeProofs_triple isOutput components tools path annots ast

end

/-! ## A run -/

/-- The program that a run translates. -/
def programOfRun (env : ToolEnv) (cfg : CheckConfig) (tools : Tools) (data : CFileData) :
    Except Exn CoqProgram := do
  let cppI ← cppIncludes env cfg data
  let cFileRel ← Filename.relativePath env.realpath data.rootDir data.filePath
  tools.translate cppI cFileRel

section

variable {env : ToolEnv} {cfg : CheckConfig} {tools : Tools} {data : CFileData} {path : CoqPath}
  {above below : List String} {before : FunctionName → Prop}

private theorem isBookkeeping_ne {out p name : String} (isBookkeeping : IsBookkeeping out p)
    (notProof : name.toList.take 16 ≠ "generated_proof_".toList)
    (notList : name ≠ proofsFileName) :
    p ≠ concat out name := by
  rcases isBookkeeping with rfl | ⟨f, rfl⟩
  · exact fun same => notList (concat_inj same).symm
  · exact proofPath_ne notProof

/-- The bookkeeping is deeper than the directories and the Coq project file. -/
theorem isBookkeeping_ne_absPath {cs other : List String} {p : String}
    (isBookkeeping : IsBookkeeping (absPath cs) p) (components : ∀ c ∈ cs, IsComponent c)
    (isOther : ∀ c ∈ other, IsComponent c) (shorter : other.length ≤ cs.length) :
    p ≠ absPath other := by
  have exists_name : ∃ name, IsComponent name ∧ p = absPath (cs ++ [name]) := by
    rcases isBookkeeping with rfl | ⟨f, rfl⟩
    · exact ⟨proofsFileName, by constructor <;> decide, concat_absPath components _⟩
    · exact ⟨_, isComponent_proofFileName f, concat_absPath components _⟩
  obtain ⟨name, isName, rfl⟩ := exists_name
  intro same
  have lists := absPath_inj (List.forall_mem_append.mpr ⟨components, by simpa using isName⟩)
    isOther same
  have lengths := congrArg List.length lists
  rw [List.length_append, List.length_singleton] at lengths
  omega

private theorem prepareOutput_leavesBookkeeping (located : Located env data above below)
    (isPath : data.modulePath = .ok path) {p : String}
    (isBookkeeping : IsBookkeeping data.outputDir p) :
    LeavesAlone p (prepareOutput env data path) := by
  have components := outputDirs_isComponent located isPath
  have rootComponents : ∀ c ∈ above, IsComponent c := fun c member =>
    located.components c (List.mem_append_left _ member)
  rw [outputDir_eq located] at isBookkeeping
  apply prepareOutput_leavesAlone
  · rw [fileRcDir_eq located]
    refine isBookkeeping_ne_absPath isBookkeeping components ?_ (by simp [outputDirs])
    exact List.forall_mem_append.mpr ⟨located.components, by simpa using isComponent_rcDirName⟩
  · rw [outputDir_eq located]
    exact isBookkeeping_ne_absPath isBookkeeping components components le_rfl
  · rw [CFileData.coqProjPath, located.rootDir, concat_absPath rootComponents]
    refine isBookkeeping_ne_absPath isBookkeeping components ?_ ?_
    · exact List.forall_mem_append.mpr
        ⟨rootComponents, by simpa using isComponent_coqProjectFile⟩
    · simp only [outputDirs, List.length_append, List.length_cons, List.length_nil]
      omega

private theorem generateFiles_triple (located : Located env data above below)
    (isPath : data.modulePath = .ok path) :
    Triple (fun fs => Bookkept data.outputDir fs before)
      (generateFiles env cfg tools data path)
      (fun _ fs => ∃ ast, programOfRun env cfg tools data = .ok ast ∧
        Listed data ast (ThereAfter data ast before) fs) (Recorded data.outputDir) := by
  have components := outputDirs_isComponent located isPath
  have isOutput := outputDir_eq located
  have writes (name : String) (printed : Except Exn (List Char))
      (notProof : name.toList.take 16 ≠ "generated_proof_".toList)
      (notList : name ≠ proofsFileName) :
      Triple (fun fs => Bookkept data.outputDir fs before)
        (write (concat data.outputDir name) printed)
        (fun _ fs => Bookkept data.outputDir fs before) (Recorded data.outputDir) :=
    (triple_of_leavesAlone (fun p isBookkeeping => write_leavesAlone
      (isBookkeeping_ne isBookkeeping notProof notList))
      fun _ _ same bookkept => bookkept.congr same).weaken
      (fun _ => id) (fun _ _ => id) fun _ bookkept => bookkept.recorded
  rw [generateFiles]
  refine .lift_bind (fun _ bookkept => bookkept.recorded) fun cppI isCppI => ?_
  refine .lift_bind (fun _ bookkept => bookkept.recorded) fun annots _ => ?_
  refine .lift_bind (fun _ bookkept => bookkept.recorded) fun cFileRel isRel => ?_
  refine .lift_bind (fun _ bookkept => bookkept.recorded) fun ast isAst => ?_
  have isProgram : programOfRun env cfg tools data = .ok ast := by
    rw [programOfRun, isCppI, ok_bind, isRel, ok_bind, isAst]
  refine .bind (writes codeFileName _ (by decide) (by decide)) fun _ => ?_
  refine .bind (writes specFileName _ (by decide) (by decide)) fun _ => ?_
  refine .bind (generateProofs_triple isOutput components tools path annots ast) fun _ => ?_
  refine (triple_of_leavesAlone (fun p isBookkeeping => .writeText
    (isBookkeeping_ne isBookkeeping (by decide) (by decide))) ?_).weaken (fun _ => id)
    (fun _ fs listed => ⟨ast, isProgram, listed⟩)
    fun fs listed => listed.recorded_after isOutput components
  intro fs fs' same listed
  refine ⟨?_, fun f => (present_congr same f).trans (listed.present f)⟩
  exact (FileSystem.lines_congr (same _ (.inl rfl))).trans listed.lines

/-- What a run does to the proof files and to their list, on every way out. -/
theorem generate_triple (cfg : CheckConfig) (tools : Tools) (located : Located env data above below)
    (isPath : data.modulePath = .ok path) :
    Triple (fun fs => Bookkept data.outputDir fs before)
      (generate env cfg tools data path)
      (fun _ fs => ∃ ast, programOfRun env cfg tools data = .ok ast ∧
        Listed data ast (ThereAfter data ast before) fs) (Recorded data.outputDir) := by
  refine .bind ?_ fun _ => generateFiles_triple located isPath
  exact (triple_of_leavesAlone (fun p isBookkeeping =>
    prepareOutput_leavesBookkeeping located isPath isBookkeeping)
    fun _ _ same bookkept => bookkept.congr same).weaken
    (fun _ => id) (fun _ _ => id) fun _ bookkept => bookkept.recorded

/-- The build does not count. -/
theorem checkFile_state (fs : FileSystem) :
    (checkFile env cfg tools data path fs).2 = (generate env cfg tools data path fs).2 := by
  match outcome : generate env cfg tools data path fs with
  | (.error e, fs') => rw [checkFile, Persistent.bind_error outcome]
  | (.ok _, fs') =>
      rw [checkFile, Persistent.bind_ok outcome]
      split
      · rfl
      · rfl

end

end

/-! ## Runs on one C file -/

/-- The file systems that runs on one C file reach when nothing was generated before and
nobody else changes the output directory. -/
inductive Reachable (env : ToolEnv) (cFile out : String) : FileSystem → Prop where
  | start {fs : FileSystem} (nothing : ∀ name, fs.node (concat out name) = none) :
      Reachable env cFile out fs
  | edit {fs fs' : FileSystem} (reached : Reachable env cFile out fs)
      (same : ∀ name, fs'.node (concat out name) = fs.node (concat out name)) :
      Reachable env cFile out fs'
  | check {fs : FileSystem} (cfg : CheckConfig) (tools : Tools)
      (reached : Reachable env cFile out fs) :
      Reachable env cFile out (run env cfg tools cFile fs).2

section

variable {env : ToolEnv} {cfg : CheckConfig} {tools : Tools} {cFile filePath : String}
  {fs fs' : FileSystem} {data : CFileData} {path : CoqPath} {ast : CoqProgram}

/-- Every proof file is recorded after any number of runs, also of failed ones. -/
theorem Reachable.recorded (canonical : Canonicalises env.realpath)
    (isReal : env.realpath cFile = some filePath)
    (reachable : Reachable env cFile (outputDirOf filePath) fs) :
    Recorded (outputDirOf filePath) fs := by
  induction reachable with
  | start nothing =>
      constructor
      · intro line member
        rw [FileSystem.lines, FileSystem.text, nothing] at member
        cases member
      · intro f isPresent
        rw [Present, proofPath, FileSystem.text, nothing] at isPresent
        cases isPresent
  | edit reached same recorded =>
      refine recorded.congr fun p isBookkeeping => ?_
      rcases isBookkeeping with rfl | ⟨f, rfl⟩
      · exact same _
      · exact same _
  | @check fs cfg tools reached recorded =>
      rcases run_cases env cfg tools cFile fs with
        ⟨e, stops⟩ | ⟨data, path, isData, isPath, same⟩
      · rw [stops]
        exact recorded
      · obtain ⟨above, below, located⟩ := exists_located canonical isData
        have isOutput := outputDir_eq_outputDirOf isReal isData
        rw [same, checkFile_state, ← isOutput]
        rw [← isOutput] at recorded
        have after := generate_triple cfg tools located isPath fs
          ⟨recorded, fun f => Iff.rfl⟩
        split at after
        · rename_i outcome
          rw [outcome]
          obtain ⟨ast, -, listed⟩ := after
          exact listed.recorded_after (outputDir_eq located) (outputDirs_isComponent located isPath)
        · rename_i outcome
          rw [outcome]
          exact after

/-- After a run that generates everything, the list names the proof files of the functions
that the program defines. No other proof file is there exactly if none of the functions
that it only declares had one. -/
theorem proof_files_of_run (canonical : Canonicalises env.realpath)
    (isReal : env.realpath cFile = some filePath)
    (reachable : Reachable env cFile (outputDirOf filePath) fs)
    (isData : getCFileData env cFile fs = .ok data) (isPath : data.modulePath = .ok path)
    (isProgram : programOfRun env cfg tools data = .ok ast)
    (completes : generate env cfg tools data path fs = (.ok (), fs')) :
    (run env cfg tools cFile fs).2 = fs' ∧
      (∀ f, ast.Defines f → proofFileName f.name ∈ fs'.lines data.proofFilesFile) ∧
      ((∀ f, Present data.outputDir fs' f ↔ ast.Defines f) ↔
        ∀ f, ast.OnlyDeclares f → ¬ Present data.outputDir fs f) := by
  obtain ⟨above, below, located⟩ := exists_located canonical isData
  have isOutput := outputDir_eq_outputDirOf isReal isData
  have recorded := reachable.recorded canonical isReal
  rw [← isOutput] at recorded
  have after := generate_triple cfg tools located isPath fs
    ⟨recorded, fun f => Iff.rfl⟩
  rw [completes] at after
  obtain ⟨ast', isProgram', listed⟩ := after
  rw [isProgram] at isProgram'
  cases isProgram'
  refine ⟨?_, ?_, ?_⟩
  · rw [run_eq isData isPath, checkFile_state, completes]
  · intro f defines
    have recordedAfter := listed.recorded_after (outputDir_eq located)
      (outputDirs_isComponent located isPath)
    exact recordedAfter.present f ((listed.present f).mpr (.inr defines))
  · have thereAfter f : ThereAfter data ast (Present data.outputDir fs) f ↔
        ast.Defines f ∨ (ast.OnlyDeclares f ∧ Present data.outputDir fs f) := by
      rw [ThereAfter, mem_toGenerate_iff]
      tauto
    constructor
    · intro exact f declares isPresent
      have defines := (exact f).mp ((listed.present f).mpr ((thereAfter f).mpr
        (.inr ⟨declares, isPresent⟩)))
      exact declares.2 defines
    · intro noneLeft f
      rw [listed.present f, thereAfter f]
      exact or_iff_left fun both => noneLeft f both.1 both.2

end

def functionG : FunctionName := ⟨"g", by decide, by decide⟩

/-- The tools for a C file with the given functions. -/
def toolsFor (functions : List (FunctionName × FuncDefOrDecl)) : Tools :=
  { emptyTools with translate := fun _ _ => .ok ⟨functions⟩ }

def emptyBody : Coq.FuncDef := ⟨[], [], "#0", []⟩

def dirPath : CoqPath :=
  ⟨⟨"refinedc", @rfl Bool true⟩, [⟨"project", @rfl Bool true⟩, ⟨"p", @rfl Bool true⟩,
    ⟨"d", @rfl Bool true⟩, ⟨"f", @rfl Bool true⟩]⟩

private theorem dir_canonicalises : Canonicalises (oneFileEnv ["p", "d", "f.c"]).realpath := by
  refine canonicalises_realpathOf fun c member => ?_
  simp only [List.mem_cons, List.not_mem_nil, or_false] at member
  rcases member with rfl | rfl | rfl <;> constructor <;> decide

private theorem oneFileProject_reachable :
    Reachable (oneFileEnv ["p", "d", "f.c"]) "/p/d/f.c" (outputDirOf "/p/d/f.c")
      oneFileProject := by
  have isOutput : outputDirOf "/p/d/f.c" = "/p/d/proofs/f" := by decide
  have outside : ∀ entry ∈ oneFileProject.entries,
      "/p/d/proofs/f".toList.isPrefixOf entry.1.toList = false := by decide
  rw [isOutput]
  refine .start fun name => List.lookup_eq_none_iff.mpr fun entry member => ?_
  rw [bne_iff_ne]
  intro same
  have isPrefix := List.isPrefixOf_iff_prefix.mpr (prefix_concat "/p/d/proofs/f" name)
  rw [same, outside entry member] at isPrefix
  cases isPrefix

def functionH : FunctionName := ⟨"h", by decide, by decide⟩

/-- The project after a check of a C file that defines `g`. -/
def projectWithG : FileSystem :=
  (run (oneFileEnv ["p", "d", "f.c"]) ⟨[], true⟩ (toolsFor [(functionG, .fDef none emptyBody)])
    "/p/d/f.c" oneFileProject).2

private theorem projectWithG_reachable :
    Reachable (oneFileEnv ["p", "d", "f.c"]) "/p/d/f.c" (outputDirOf "/p/d/f.c") projectWithG :=
  .check _ _ oneFileProject_reachable

private theorem getCFileData_projectWithG :
    getCFileData (oneFileEnv ["p", "d", "f.c"]) "/p/d/f.c" projectWithG = .ok dirData := by
  have isData : getCFileData (oneFileEnv ["p", "d", "f.c"]) "/p/d/f.c" oneFileProject =
      .ok dirData := rfl
  have isPath : dirData.modulePath = .ok dirPath := rfl
  exact getCFileData_run dir_canonicalises isData isPath

/-- When `g` is replaced by `h`, the proof file of `g` is deleted by the next check. -/
theorem proof_files_of_run_dir :
    Present "/p/d/proofs/f" projectWithG functionG ∧
      "generated_proof_h.v" ∈ (run (oneFileEnv ["p", "d", "f.c"]) ⟨[], true⟩
        (toolsFor [(functionH, .fDef none emptyBody)]) "/p/d/f.c" projectWithG).2.lines
        "/p/d/proofs/f/proof_files" ∧
      ∀ f, Present "/p/d/proofs/f" (run (oneFileEnv ["p", "d", "f.c"]) ⟨[], true⟩
        (toolsFor [(functionH, .fDef none emptyBody)]) "/p/d/f.c" projectWithG).2 f ↔
        f = functionH := by
  have isReal : (oneFileEnv ["p", "d", "f.c"]).realpath "/p/d/f.c" = some "/p/d/f.c" := by
    decide +kernel
  have isOutput : dirData.outputDir = "/p/d/proofs/f" := by decide +kernel
  have isList : dirData.proofFilesFile = "/p/d/proofs/f/proof_files" := by decide +kernel
  have isPath : dirData.modulePath = .ok dirPath := rfl
  have isProgram : programOfRun (oneFileEnv ["p", "d", "f.c"]) ⟨[], true⟩
      (toolsFor [(functionH, .fDef none emptyBody)]) dirData =
        .ok ⟨[(functionH, .fDef none emptyBody)]⟩ := rfl
  have isOk : (generate (oneFileEnv ["p", "d", "f.c"]) ⟨[], true⟩
      (toolsFor [(functionH, .fDef none emptyBody)]) dirData dirPath projectWithG).1.isOk =
        true := by
    decide +kernel
  obtain ⟨result, completes⟩ := exists_ok_of_isOk isOk
  obtain ⟨fs', isAfter⟩ : ∃ fs', (generate (oneFileEnv ["p", "d", "f.c"]) ⟨[], true⟩
      (toolsFor [(functionH, .fDef none emptyBody)]) dirData dirPath projectWithG).2 =
        fs' := ⟨_, rfl⟩
  have main := proof_files_of_run dir_canonicalises isReal projectWithG_reachable
    getCFileData_projectWithG isPath isProgram (Prod.ext completes isAfter)
  rw [← main.1, isOutput, isList] at main
  have defines : ∀ f, (CoqProgram.mk [(functionH, .fDef none emptyBody)]).Defines f ↔
      f = functionH := by
    intro f
    constructor
    · rintro ⟨annot, fn, member, -⟩
      cases List.mem_singleton.mp member
      rfl
    · rintro rfl
      exact ⟨none, emptyBody, List.mem_singleton_self _, rfl⟩
  have before : (projectWithG.text (proofPath "/p/d/proofs/f" functionG)).isSome = true := by
    decide +kernel
  have isFile : proofFileName functionH.name = "generated_proof_h.v" := by decide
  have listed := main.2.1 functionH ((defines functionH).mpr rfl)
  rw [isFile] at listed
  refine ⟨before, listed, fun f => ?_⟩
  rw [← defines f]
  refine main.2.2.mpr ?_ f
  rintro f ⟨⟨annot, member⟩, -⟩
  cases List.mem_singleton.mp member

/-- A function that becomes a declaration keeps its proof file. -/
theorem proof_file_of_declaration_stays :
    Reachable (oneFileEnv ["p", "d", "f.c"]) "/p/d/f.c" (outputDirOf "/p/d/f.c") projectWithG ∧
      (generate (oneFileEnv ["p", "d", "f.c"]) ⟨[], true⟩
        (toolsFor [(functionG, .fDec none)]) dirData dirPath projectWithG).1 = .ok () ∧
      ((generate (oneFileEnv ["p", "d", "f.c"]) ⟨[], true⟩
        (toolsFor [(functionG, .fDec none)]) dirData dirPath projectWithG).2.text
        "/p/d/proofs/f/generated_proof_g.v").isSome = true ∧
      ¬ (CoqProgram.mk [(functionG, .fDec none)]).Defines functionG := by
  refine ⟨.check _ _ oneFileProject_reachable, rfl, by decide +kernel, ?_⟩
  rintro ⟨annot, fn, member, -⟩
  cases List.mem_singleton.mp member

end RefinedC.Frontend
