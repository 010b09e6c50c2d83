import Cronova.Text.Path
import Cronova.Files.Calls
import Cronova.Model.Types
import Mathlib.Data.List.Lex

/-! Project uploads: the new tree is staged beside the project, from what the project has
and what the request brings, and then takes its place. -/
namespace Cronova.Api.Projects
open Cronova.Model Cronova.Files Cronova.Text.Path

abbrev Bytes := List UInt8

def maxProjectFileSize : ℕ := 10 <<< 20

def maxProjectSize : ℕ := 50 <<< 20

inductive UploadErr where
  | badPath
  | tooBig
  | other (message : String)
deriving DecidableEq

abbrev Disk (α : Type) := Sys Name Bytes UploadErr α

/-- The working directory, and what goes wrong. -/
structure Os where
  cwd : Place
  faults : Faults UploadErr
  /-- The random end of a temporary name, by the number of the call that makes it. -/
  random : ℕ → List Char
  /-- The first look at the project fails, with another error than that there is none. -/
  statFails : Bool
  /-- The old tree cannot be moved back. -/
  renameBackFails : Bool

/-- What is read, and the error behind it. -/
structure Source where
  data : Bytes
  failure : Option UploadErr := none

structure ZipEntry where
  name : List Char
  isDir : Bool := false
  isRegular : Bool
  uncompressedSize64 : UInt64
  content : Except UploadErr Source

structure FilePart where
  filename : List Char
  size : ℕ
  content : Except UploadErr Source
  /-- The entries, if it is an archive. -/
  archive : Option (List ZipEntry) := none

structure Form where
  files : List FilePart := []
  paths : List (List Char) := []
  filename : List Char := []
  content : Bytes := []

structure HttpErr where
  code : ℕ
  message : String
deriving DecidableEq

/-- The answer to an upload that is carried out. -/
structure Uploaded where
  project : List Char
  files : ℕ
deriving DecidableEq

/-! ### Names -/

def validProjectName (name : List Char) : Bool :=
  name ≠ ['.'] && name ≠ ['.', '.'] && name ≠ [] && name.all (fun c => c.isAlphanum || c = '.' || c = '_' || c = '-')

def safeFileName (name : List Char) : Bool :=
  name ≠ [] && name ≠ ['.'] && name ≠ ['.', '.'] && name.all (fun c => c ≠ '/' && c ≠ '\\')

def isZipName (name : List Char) : Bool := (ext (base name)).map Char.toLower = ['.', 'z', 'i', 'p']

/-- Either separator as a slash. -/
def slashed (name : List Char) : List Char := name.map (fun c => if c = '\\' then '/' else c)

def cleanRelPath (name : List Char) : Except UploadErr (List Char) :=
  if slashed name = [] ∨ isAbs (slashed name) then .error .badPath
  else if clean (slashed name) = ['.'] ∨ clean (slashed name) = ['.', '.'] ∨ ['.', '.', '/'] <+: clean (slashed name) then .error .badPath
  else .ok (clean (slashed name))

def withinDir (base target : List Char) : Bool :=
  match rel base (clean target) with
  | none => false
  | some parts => parts.head? ≠ some ['.', '.']

/-- The path that a file of the form is uploaded to. -/
def Form.named (form : Form) : List (List Char × FilePart) :=
  form.files.zipIdx.map (fun (fh, i) =>
    (match form.paths[i]? with
      | some path => if path ≠ [] then path else fh.filename
      | none => fh.filename, fh))

/-- The archive, if the form is one file with the name of one. -/
def Form.zipPart (form : Form) : Option FilePart :=
  match form.files with
  | [fh] => if isZipName fh.filename then some fh else none
  | _ => none

/-! ### The staged tree -/

section Staging
variable (os : Os)

/-- At most one byte more than a file may have. -/
def copyLimited (dst : List Char) (src : Source) : Disk ℕ := do
  let data := src.data.take (maxProjectFileSize + 1)
  Sys.writeData os.faults (resolve os.cwd dst) data
  match src.failure with
  | some err => if src.data.length < maxProjectFileSize + 1 then Sys.fail err else pure data.length
  | none => pure data.length

/-- What is read goes into the open file, which is removed again if this fails or it is too long. -/
def fillFile (dst : List Char) (src : Source) : Disk Unit := do
  let copied ← Sys.outcome (copyLimited os dst src)
  let closed ← Sys.outcome (Sys.call os.faults)
  match copied, closed with
  | .error err, _ => do
    let _ ← Sys.outcome (Sys.remove os.faults (resolve os.cwd dst) : Disk Unit)
    Sys.fail err
  | .ok _, .error err => do
    let _ ← Sys.outcome (Sys.remove os.faults (resolve os.cwd dst) : Disk Unit)
    Sys.fail err
  | .ok n, .ok _ =>
    if maxProjectFileSize < n then do
      let _ ← Sys.outcome (Sys.remove os.faults (resolve os.cwd dst) : Disk Unit)
      Sys.fail .tooBig
    else pure ()

def writeProjectFile (projDir relPath : List Char) (src : Source) : Disk Unit :=
  match cleanRelPath relPath with
  | .error err => Sys.fail err
  | .ok rel =>
    if withinDir projDir (join projDir rel) = false then Sys.fail .badPath
    else do
      Sys.mkdirAll os.faults (resolve os.cwd (dir (join projDir rel)))
      Sys.openFile os.faults (resolve os.cwd (join projDir rel))
      fillFile os (join projDir rel) src

/-- The sizes that the archive declares, and whether one is too large. -/
def declared (entries : List ZipEntry) : Option Int :=
  entries.foldlM
    (fun total e =>
      if e.isDir then some total
      else if (maxProjectFileSize : Int) < int64 e.uncompressedSize64.toNat then none
      else some (int64 (total + int64 e.uncompressedSize64.toNat)))
    0

def extractZipUpload (projDir : List Char) (fh : FilePart) : Disk ℕ :=
  match fh.content, fh.archive with
  | .error err, _ => Sys.fail err
  | .ok _, none => Sys.fail .badPath
  | .ok _, some entries =>
    match declared entries with
    | none => Sys.fail .tooBig
    | some total =>
      if (maxProjectSize : Int) < total then Sys.fail .tooBig
      else do
        Sys.mkdirAll os.faults (resolve os.cwd projDir)
        entries.foldlM
          (fun n e =>
            if e.isDir || !e.isRegular then pure n
            else match e.content with
              | .error err => Sys.fail err
              | .ok src => do
                writeProjectFile os projDir e.name src
                pure (n + 1))
          0

/-- Directories before what is in them, and the entries of one by name. -/
def before (a b : Place) : Prop := a.map (fun n => n.val.map Char.toNat) ≤ b.map (fun n => n.val.map Char.toNat)

instance : DecidableRel before := fun _ _ => inferInstanceAs (Decidable (_ ≤ _))

/-- One entry of a tree, by its place there, into another tree. -/
def copyEntry (src dst : List Char) (entry : Place) : Disk Unit := do
  match ← Sys.stat os.faults (resolve os.cwd src ++ entry) with
  | none => Sys.fail os.faults.refused
  | some .dir => Sys.mkdirAll os.faults (resolve os.cwd (join dst (spell entry)))
  | some (.file data) => do
    let _ ← Sys.call os.faults
    let read ← Sys.outcome (Sys.call os.faults)
    writeProjectFile os dst (spell entry) ⟨data, match read with | .error err => some err | .ok _ => none⟩

def copyProjectTree (src dst : List Char) : Disk Unit := do
  let _ ← Sys.call os.faults
  Sys.mkdirAll os.faults (resolve os.cwd (join dst ['.']))
  let t ← Sys.look
  ((t.below (resolve os.cwd src)).insertionSort before).foldlM (fun _ entry => copyEntry os src dst entry) ()

/-- The number of files in a tree and their sizes. What cannot be read does not count. -/
def dirStats (dir : List Char) : Disk (ℕ × ℕ) := do
  let t ← Sys.look
  (t.below (resolve os.cwd dir)).foldlM
    (fun stats entry => do
      let read ← Sys.outcome (Sys.call os.faults)
      match read, t.node (resolve os.cwd dir ++ entry) with
      | .ok _, some (.file data) => pure (stats.1 + 1, stats.2 + data.length)
      | _, _ => pure stats)
    (0, 0)

/-- A directory with a new name that starts with `pattern`. -/
def mkdirTemp (dir pattern : List Char) : Disk (List Char) := do
  let n ← Sys.mkdirTemp os.faults
    (fun k => if h : Proper (pattern ++ os.random k) then some ⟨pattern ++ os.random k, h⟩ else none) (resolve os.cwd dir)
  pure (inside dir n.val)

def renameBack (backup dst : List Char) : Disk Unit :=
  if os.renameBackFails then Sys.fail os.faults.refused
  else Sys.update os.faults.refused (·.rename (resolve os.cwd backup) (resolve os.cwd dst))

def commitProjectTree (dst staging : List Char) : Disk Unit := do
  let backup ← mkdirTemp os (dir dst) (['.', 'p', 'r', 'e', 'v', 'i', 'o', 'u', 's', '-'] ++ base dst ++ ['-'])
  Sys.remove os.faults (resolve os.cwd backup)
  let old ← Sys.stat os.faults (resolve os.cwd dst)
  (if old.isSome then Sys.rename os.faults (resolve os.cwd dst) (resolve os.cwd backup) else pure ())
  let moved ← Sys.outcome (Sys.rename os.faults (resolve os.cwd staging) (resolve os.cwd dst) : Disk Unit)
  match moved with
  | .error err => do
    let _ ← Sys.outcome (if old.isSome then renameBack os backup dst else pure ())
    Sys.fail err
  | .ok _ => do
    let _ ← Sys.outcome (if old.isSome then Sys.removeAll os.faults (resolve os.cwd backup) else pure () : Disk Unit)
    pure ()

end Staging

/-! ### The request -/

def writeUploadErr : UploadErr → HttpErr
  | .badPath => ⟨400, "upload contains an unsafe path"⟩
  | .tooBig => ⟨413, "a file exceeds the size limit"⟩
  | .other _ => ⟨500, "write failed"⟩

def UploadErr.text : UploadErr → String
  | badPath => "unsafe path in upload"
  | tooBig => "upload exceeds size limit"
  | other message => message

abbrev Handler (α : Type) := Sys Name Bytes HttpErr α

section Request
variable (os : Os)

/-- What a project has, into the staged tree. -/
def stageExisting (projDir staging : List Char) : Disk Unit :=
  if os.statFails then pure ()
  else do
    let t ← Sys.look
    match t.node (resolve os.cwd projDir) with
    | some .dir => copyProjectTree os projDir staging
    | _ => pure ()

/-- The files of the form, one after the other, and their number. -/
def writeFiles (staging : List Char) (files : List (List Char × FilePart)) : Disk ℕ :=
  files.foldlM
    (fun written (rel, fh) =>
      if maxProjectFileSize < fh.size then Sys.fail .tooBig
      else match fh.content with
        | .error err => Sys.fail err
        | .ok f => do
          writeProjectFile os staging rel f
          pure (written + 1))
    0

/-- What the form brings, into the staged tree. -/
def stageUploads (staging : List Char) (form : Form) : Handler ℕ :=
  match form.zipPart with
  | some fh => (extractZipUpload os staging fh).mapError writeUploadErr
  | none =>
    if form.files ≠ [] then (writeFiles os staging form.named).mapError writeUploadErr
    else if safeFileName form.filename = false then Sys.fail ⟨400, "invalid or missing filename"⟩
    else (do
      writeProjectFile os staging form.filename ⟨form.content, none⟩
      pure 1 : Disk ℕ).mapError writeUploadErr

def uploadStaged (projectsDir name staging : List Char) (form : Form) : Handler Uploaded := do
  (stageExisting os (join projectsDir name) staging).mapError (fun _ => ⟨500, "stage existing project failed"⟩)
  let written ← stageUploads os staging form
  let stats ← (dirStats os staging).mapError writeUploadErr
  if maxProjectSize < stats.2 then Sys.fail (writeUploadErr .tooBig)
  else do
    (commitProjectTree os (join projectsDir name) staging).mapError (fun _ => ⟨500, "commit upload failed"⟩)
    pure ⟨name, written⟩

/-- An error is answered by failing. There is no form if the request cannot be read. -/
def uploadProject (projectsDir name : List Char) (form : Option Form) : Handler Uploaded :=
  if projectsDir = [] then Sys.fail ⟨503, "project uploads are disabled (no projects dir configured)"⟩
  else if validProjectName name = false then Sys.fail ⟨400, "invalid project name (allowed: letters, digits, . _ -)"⟩
  else
    match form with
    | none => Sys.fail ⟨413, "upload too large or malformed"⟩
    | some form => do
      (Sys.mkdirAll os.faults (resolve os.cwd projectsDir)).mapError (fun err => ⟨500, err.text⟩)
      let staging ← (mkdirTemp os projectsDir (['.', 'u', 'p', 'l', 'o', 'a', 'd', '-'] ++ name ++ ['-'])).mapError
        (fun _ => ⟨500, "create upload staging failed"⟩)
      let answer ← Sys.outcome (uploadStaged os projectsDir name staging form)
      let _ ← Sys.outcome (Sys.removeAll os.faults (resolve os.cwd staging) : Disk Unit)
      match answer with
      | .ok response => pure response
      | .error response => Sys.fail response

end Request
end Cronova.Api.Projects
