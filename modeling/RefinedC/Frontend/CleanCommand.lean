import RefinedC.Frontend.CheckCommand

/-!
The clean command.

Source: `run_clean` of `frontend/main.ml`.

Owns: the removal of the generated files of a C file, of the directories that are then
empty, and of the mapping in the Coq project file.

The path in the mapping is computed here a second time.
-/

namespace RefinedC.Frontend

open Library
open Persistent (lift)

/-- A directory that cannot be read counts as empty. -/
def rmdir (env : ToolEnv) (dir : String) : FsM Unit := do
  let isEmpty ← reads fun fs => !fs.isDirectory dir || fs.isEmptyDir dir
  if isEmpty then rmRf env.rm dir else pure ()

def removeGenerated (env : ToolEnv) (data : CFileData) : FsM Unit := do
  let files ← orDefault (readFile data.proofFilesFile) []
  let proofFiles := files.map (Filename.concat data.outputDir)
  let all := [data.codeFile, data.specFile, data.duneFile, data.proofFilesFile] ++ proofFiles
  all.forM fun f => orDefault (remove f) ()
  [data.outputDir, data.fileRcDir].forM (rmdir env)

/-- There is no special case for the root directory. -/
def cleanDuneDirPath (env : ToolEnv) (data : CFileData) : Except Exn String := do
  let relPath ← Filename.relativePath env.realpath data.rootDir data.fileDir
  let path := Filename.concat "_build/default" relPath
  .ok (Filename.concat (Filename.concat path rcDirName) data.baseName)

def removeMapping (env : ToolEnv) (data : CFileData) : FsM Unit := do
  let path ← lift data.modulePath
  let dunePath ← lift (cleanDuneDirPath env data)
  let line := mappingLine dunePath path
  let lines ← orDefault (readFile data.coqProjPath) []
  if line ∈ lines then writeFile data.coqProjPath (lines.filter (· ≠ line)) else pure ()

def cleanFile (env : ToolEnv) (soft : Bool) (data : CFileData) : FsM Unit := do
  removeGenerated env data
  if soft then pure () else removeMapping env data

def runClean (env : ToolEnv) (soft : Bool) (cFile : String) : FsM Unit := do
  let found ← reads (getCFileData env cFile)
  let data ← lift found
  cleanFile env soft data

end RefinedC.Frontend
