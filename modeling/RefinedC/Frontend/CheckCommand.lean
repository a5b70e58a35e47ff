import RefinedC.Frontend.CoqAst
import RefinedC.Frontend.CoqPath
import RefinedC.Frontend.FileSystem
import RefinedC.Frontend.RcAnnot
import RefinedC.Library.Sorting

/-!
The check command.

Source: `get_c_file_data` and `run` of `frontend/main.ml`, `proof_kind` and `is_inlined` of
`frontend/coq_ast.ml`, and `write` of `frontend/coq_pp.ml`.

Owns: the data of a C file, its Coq module path and its mapping in the Coq project file,
and the generation of its Coq files.

What canonicalises paths, reads project files and executes shell commands, and what
preprocesses, translates, prints and builds, are parameters. The latter differ from one
run to the next.
-/

namespace RefinedC.Frontend

open Library
open Persistent (lift throw)

def rcProjectFile : String := "rc-project.toml"
def coqProjectFile : String := "_CoqProject"
def rcDirName : String := "proofs"

def codeFileName : String := "generated_code.v"
def specFileName : String := "generated_spec.v"
def proofFileName (id : String) : String := "generated_proof_" ++ id ++ ".v"
def proofsFileName : String := "proof_files"

/-! ## Data of a C file -/

structure ProjectConfig where
  coqRoot : CoqPath
  theories : List CoqPath
  cppInclude : List String
  cppWithRc : Bool
  noBuild : Bool

structure ToolEnv where
  realpath : String → Option String
  readProjectFile : String → List Char → Except Exn ProjectConfig
  refinedcInclude : Option String
  rm : RmCommand

structure CFileData where
  origPath : String
  filePath : String
  fileDir : String
  baseName : String
  rootDir : String
  relPath : List String
  projCfg : ProjectConfig

/-- The directory with a project file, and the names below it. -/
def findRoot (fs : FileSystem) : Nat → List String → String → Option (String × List String)
  | 0, _, _ => none
  | fuel + 1, acc, dir =>
      if fs.fileExists (Filename.concat dir rcProjectFile) then some (dir, acc)
      else
        let parent := Filename.dirname dir
        if parent = dir then none
        else findRoot fs fuel (Filename.basename dir :: acc) parent

def getCFileData (env : ToolEnv) (cFile : String) (fs : FileSystem) : Except Exn CFileData :=
  match env.realpath cFile with
  | none => .error (.panic ("File \"" ++ cFile ++ "\" disappeared..."))
  | some filePath =>
      let fileDir := Filename.dirname filePath
      match findRoot fs (fileDir.length + 1) [] fileDir with
      | none =>
          .error (.panic ("No RefinedC project can be located for file \"" ++ cFile ++ "\"."))
      | some (rootDir, relPath) =>
          let projectFile := Filename.concat rootDir rcProjectFile
          match fs.node projectFile with
          | some .dir =>
              .error (.panic ("Invalid project file \"" ++ projectFile ++ "\" (directory)."))
          | none =>
              .error (.panic ("Error while reading the project file \"" ++ projectFile ++ "\"."))
          | some (.file text) => do
              let projCfg ← env.readProjectFile projectFile text
              .ok
                { origPath := cFile
                  filePath := filePath
                  fileDir := fileDir
                  baseName := Filename.removeExtension (Filename.basename filePath)
                  rootDir := rootDir
                  relPath := relPath
                  projCfg := projCfg }

namespace CFileData

variable (data : CFileData)

def modulePath : Except Exn CoqPath :=
  let suffix := data.relPath ++ [data.baseName]
  match suffix.mapM CoqPath.memberOfString with
  | .ok suffix => .ok (data.projCfg.coqRoot.append suffix)
  | .error (.invalidArgument msg) =>
      .error (.panic ("File \"" ++ data.origPath ++
        "\" does not correspond to a valid Coq module path.\n" ++
        "The obtained module path segment is \"" ++ ".".intercalate suffix ++ "\".\n" ++ msg))
  | .error e => .error e

def fileRcDir : String := Filename.concat data.fileDir rcDirName

def outputDir : String := Filename.concat data.fileRcDir data.baseName

def coqProjPath : String := Filename.concat data.rootDir coqProjectFile

def codeFile : String := Filename.concat data.outputDir codeFileName
def specFile : String := Filename.concat data.outputDir specFileName
def proofOfFile (id : String) : String := Filename.concat data.outputDir (proofFileName id)
def proofFilesFile : String := Filename.concat data.outputDir proofsFileName
def duneFile : String := Filename.concat data.outputDir "dune"

end CFileData

/-! ## Mapping in the Coq project file -/

def mappingLine (duneDirPath : String) (path : CoqPath) : String :=
  "-Q " ++ duneDirPath ++ " " ++ path.toString

def duneDirPath (env : ToolEnv) (data : CFileData) : Except Exn String := do
  let relativePath ← Filename.relativePath env.realpath data.rootDir data.fileDir
  let path :=
    if relativePath = Filename.currentDirName then "_build/default"
    else Filename.concat "_build/default" relativePath
  .ok (Filename.concat (Filename.concat path rcDirName) data.baseName)

def addMapping (env : ToolEnv) (data : CFileData) (path : CoqPath) : FsM Unit := do
  let dunePath ← lift (duneDirPath env data)
  let newLine := mappingLine dunePath path
  let lines ← orDefault (readFile data.coqProjPath) []
  if newLine ∈ lines then pure () else appendFile data.coqProjPath [newLine]

/-- Does what is needed for a directory that does not exist. -/
def ensureDir (dir : String) (create : FsM Unit) : FsM Unit := do
  let isThere ← reads fun fs => fs.fileExists dir
  if isThere then pure () else create

def prepareOutput (env : ToolEnv) (data : CFileData) (path : CoqPath) : FsM Unit := do
  ensureDir data.fileRcDir (mkdir data.fileRcDir)
  ensureDir data.outputDir do
    mkdir data.outputDir
    addMapping env data path

/-! ## Generation -/

/-- Name of a C function. -/
structure FunctionName where
  name : String
  noSep : '/' ∉ name.toList
  noNewline : '\n' ∉ name.toList
deriving DecidableEq

inductive FuncDefOrDecl where
  | fDef (annot : Option FunctionAnnot) (fn : Coq.FuncDef)
  | fDec (annot : Option FunctionAnnot)

def proofKind : Option FunctionAnnot → ProofKind
  | none => .normal
  | some annot => annot.proofKind

def isInlined (annot : Option FunctionAnnot) : Bool := decide (proofKind annot = .inlined)

structure CoqProgram where
  functions : List (FunctionName × FuncDefOrDecl)

structure CommentAnnots where
  requires : List String
  imports : List (String × String)
  proofImports : List (String × String)
  codeImports : List (String × String)
  context : List String

structure CheckConfig where
  cppI : List String
  noBuild : Bool

/-- What a run calls. The translation includes the analysis and the rest of the program. -/
structure Tools where
  parseAnnots : List String → String → Except Exn CommentAnnots
  translate : List String → String → Except Exn CoqProgram
  ppCode : CFileData → CommentAnnots → CoqProgram → Except Exn (List Char)
  ppSpec : CoqPath → CommentAnnots → CoqProgram → Except Exn (List Char)
  ppProof : CoqPath → Option FunctionAnnot → Coq.FuncDef → CommentAnnots → CoqProgram →
    Except Exn (List Char)
  build : String → Except Exn Unit

def cppIncludes (env : ToolEnv) (cfg : CheckConfig) (data : CFileData) :
    Except Exn (List String) :=
  let cppInclude := cfg.cppI ++ data.projCfg.cppInclude.map (Filename.concat data.rootDir)
  match env.refinedcInclude, data.projCfg.cppWithRc with
  | _, false => .ok cppInclude
  | some d, true => .ok (d :: cppInclude)
  | none, true => .error (.panic "Unable to locate the RefinedC include directory.")

/-- Writes a file if it is missing or different. -/
def write (path : String) (printed : Except Exn (List Char)) : FsM Unit := do
  let text ← lift printed
  let old ← reads fun fs => fs.text path
  if old = some text then pure () else writeText path text

def notInlined : FunctionName × FuncDefOrDecl → Bool
  | (_, .fDef annot _) => !isInlined annot
  | (_, .fDec _) => true

def toGenerate (data : CFileData) (ast : CoqProgram) : List String :=
  sortUniq ((ast.functions.filter notInlined).map fun f => data.proofOfFile f.1.name)

def deleteWhenObsolete (toGenerate : List String) (fname : String) : FsM Unit :=
  if fname ∈ toGenerate then pure () else orDefault (remove fname) ()

def deleteObsolete (data : CFileData) (toGenerate : List String) : FsM Unit := do
  let files ← orDefault (readFile data.proofFilesFile) []
  (files.map (Filename.concat data.outputDir)).forM (deleteWhenObsolete toGenerate)

def writeProof (tools : Tools) (data : CFileData) (path : CoqPath) (annots : CommentAnnots)
    (ast : CoqProgram) : FunctionName × FuncDefOrDecl → FsM Unit
  | (_, .fDec _) => pure ()
  | (id, .fDef annot fn) =>
      if isInlined annot then pure ()
      else write (data.proofOfFile id.name) (tools.ppProof path annot fn annots ast)

def generateProofs (tools : Tools) (data : CFileData) (path : CoqPath) (annots : CommentAnnots)
    (ast : CoqProgram) : FsM Unit := do
  deleteObsolete data (toGenerate data ast)
  writeFile data.proofFilesFile ((toGenerate data ast).map Filename.basename)
  ast.functions.forM (writeProof tools data path annots ast)

def defaultTheories : List String :=
  ["refinedc.typing", "refinedc.typing.automation", "caesium", "lithium", "Stdlib", "iris",
    "stdpp", "Ltac2", "RecordUpdate"]

def duneLines (data : CFileData) (path : CoqPath) (annots : CommentAnnots) : List String :=
  let glob := data.projCfg.theories.map CoqPath.toString
  let theories := (annots.requires ++ glob ++ defaultTheories).filter (· ≠ path.toString)
  ["; Generated by [refinedc], do not edit.",
    "(rocq.theory",
    " (flags :standard -w -notation-incompatible-prefix -w -redundant-canonical-projection)",
    " (name " ++ path.toString ++ ")",
    " (theories " ++ " ".intercalate (sortUniq theories) ++ "))"]

def generateFiles (env : ToolEnv) (cfg : CheckConfig) (tools : Tools) (data : CFileData)
    (path : CoqPath) : FsM Unit := do
  let cppI ← lift (cppIncludes env cfg data)
  let annots ← lift (tools.parseAnnots cppI data.filePath)
  let cFileRel ← lift (Filename.relativePath env.realpath data.rootDir data.filePath)
  let ast ← lift (tools.translate cppI cFileRel)
  write data.codeFile (tools.ppCode data annots ast)
  write data.specFile (tools.ppSpec path annots ast)
  generateProofs tools data path annots ast
  writeFile data.duneFile (duneLines data path annots)

/-- Everything that a run does before it calls the build. -/
def generate (env : ToolEnv) (cfg : CheckConfig) (tools : Tools) (data : CFileData)
    (path : CoqPath) : FsM Unit := do
  prepareOutput env data path
  generateFiles env cfg tools data path

def checkFile (env : ToolEnv) (cfg : CheckConfig) (tools : Tools) (data : CFileData)
    (path : CoqPath) : FsM Unit := do
  generate env cfg tools data path
  if cfg.noBuild || data.projCfg.noBuild then pure () else lift (tools.build data.outputDir)

def run (env : ToolEnv) (cfg : CheckConfig) (tools : Tools) (cFile : String) : FsM Unit := do
  let found ← reads (getCFileData env cFile)
  let data ← lift found
  let path ← lift data.modulePath
  checkFile env cfg tools data path

end RefinedC.Frontend
