import Cronova.Files.System
import Mathlib.Data.Int.Basic

/-! Uploads of projects: the endpoint and the functions that it calls, as programs that talk to the
file system. -/

set_option autoImplicit false

namespace Cronova.Api.Projects

open Process Files

/-- `maxProjectFileSize`, in bytes. -/
def maxProjectFileSize : Nat := 10 <<< 20

def maxProjectSize : Nat := 50 <<< 20

abbrev Chars := List Char

/-- The errors of the upload, and the responses that end it. -/
inductive Failure where
  | badPath
  | tooBig
  | os (e : OsErr)
  | response (status : Nat) (text : String)
  /-- 500 with the text of the error. -/
  | internal (e : OsErr)
  deriving DecidableEq

abbrev Act (A : Type) := Prog os Failure A

/-- An entry of an archive. -/
structure ZipEntry where
  name : Chars
  isDir : Bool
  regular : Bool
  size : UInt64
  content : Bytes

/-- A file part; `archive` is what `zip.NewReader` finds in it. -/
structure Part where
  filename : Chars
  size : Int
  content : Bytes
  archive : Option (List ZipEntry)

/-- The multipart form. -/
structure Form where
  files : List Part
  paths : List Chars
  filename : Chars
  content : Bytes

def validProjectName (name : Chars) : Bool :=
  name != dot && name != up && name != [] && name.all fun c => c.isAlphanum || c == '.' || c == '_' || c == '-'

def safeFileName (name : Chars) : Bool :=
  if name = [] ∨ name = dot ∨ name = up then false else !name.any fun c => c == '/' || c == '\\'

def isZipName (name : Chars) : Bool := (ext (basePath name)).map Char.toLower == ".zip".toList

/-- Backslashes are read as slashes. -/
def slashed (name : Chars) : Chars := name.map fun c => if c = '\\' then '/' else c

def cleanRelPath (name : Chars) : Except Failure Chars :=
  let name := slashed name
  if name = [] ∨ isAbs name then .error .badPath
  else
    let cleaned := clean name
    if cleaned = dot ∨ cleaned = up ∨ "../".toList.isPrefixOf cleaned then .error .badPath else .ok cleaned

def withinDir (base target : Chars) : Bool :=
  match relPath base (clean target) with
  | none => false
  | some rel => rel != up && !"../".toList.isPrefixOf rel

abbrev call (o : Op) : Act o.Reply := Prog.perform (I := os) o

def ofReply {A : Type} (r : Except OsErr A) : Act A := Prog.ofExcept (r.mapError .os)

def mkdirAll (path : Chars) : Act Unit := do ofReply (← call (.mkdirAll path))

def mkdirTemp (dir start : Chars) : Act Chars := do ofReply (← call (.mkdirTemp dir start))

def openPart : Act Unit := do ofReply (← call .openPart)

def openFile (path : Chars) : Act Unit := do ofReply (← call (.openFile path))

def create (path : Chars) : Act Unit := do ofReply (← call (.create path))

def remove (path : Chars) : Act Unit := do ofReply (← call (.remove path))

def rename (old new : Chars) : Act Unit := do ofReply (← call (.rename old new))

def writeProjectFile (projDir relPath : Chars) (src : Source) : Act Unit := do
  let rel ← Prog.ofExcept (cleanRelPath relPath)
  let dst := joinPath [projDir, rel]
  if withinDir projDir dst = false then .fail .badPath
  else do
    mkdirAll (dirPath dst)
    create dst
    match (← call (.copy dst src (maxProjectFileSize + 1)) : Except OsErr Nat) with
    | .error e => do
      let _ ← call (.remove dst)
      .fail (.os e)
    | .ok n =>
      if maxProjectFileSize < n then do
        let _ ← call (.remove dst)
        .fail .tooBig
      else pure ()

/-- The declared sizes of an archive, as the code adds them up in 64 bits. -/
def declaredSize : List ZipEntry → Int64 → Except Failure Int64
  | [], total => .ok total
  | e :: rest, total =>
    if e.isDir then declaredSize rest total
    else if Int64.ofNat maxProjectFileSize < e.size.toInt64 then .error .tooBig
    else declaredSize rest (total + e.size.toInt64)

def extractZipUpload (projDir : Chars) (fh : Part) : Act Nat := do
  openPart
  match fh.archive with
  | none => .fail .badPath
  | some entries => do
    let total ← Prog.ofExcept (declaredSize entries 0)
    if Int64.ofNat maxProjectSize < total then .fail .tooBig
    else do
      mkdirAll projDir
      Prog.fold (fun n (e : ZipEntry) =>
        if e.isDir || !e.regular then pure n
        else do
          openPart
          writeProjectFile projDir e.name (.given e.content)
          pure (n + 1)) entries 0

/-- The path that `filepath.WalkDir` gives an entry. -/
def walkedPath (root : Chars) (names : List Seg) : Chars := names.foldl (fun path name => joinPath [path, name]) root

/-- What `copyProjectTree` does at one visit of its walk. -/
def copyEntry (src dst : Chars) : Visit → Act Unit
  | .broken _ e => .fail (.os e)
  | .entry names kind =>
    let path := walkedPath src names
    match relPath src path with
    | none => .fail (.os broken)
    | some rel =>
      let target := joinPath [dst, rel]
      match kind with
      | .dir => mkdirAll target
      | .special => pure ()
      | .regular => do
        openFile path
        writeProjectFile dst rel (.opened path)

def copyProjectTree (src dst : Chars) : Act Unit := do
  let entries ← call (.walkDir src)
  Prog.forEach entries (copyEntry src dst)

/-- The end of `commitProjectTree`: the staged tree takes its place, or the old one takes it again. -/
def swapIn (dst staging backup : Chars) (hadOld : Bool) : Act Unit := do
  match (← call (.rename staging dst) : Except OsErr Unit) with
  | .error e =>
    if hadOld then do
      let _ ← call (.rename backup dst)
      .fail (.os e)
    else .fail (.os e)
  | .ok _ =>
    if hadOld then do
      let _ ← call (.removeAll backup)
      pure ()
    else pure ()

/-- The same from the look at the old tree on. -/
def putAside (dst staging backup : Chars) : Act Unit := do
  match (← call (.stat dst) : Except OsErr Kind) with
  | .ok _ => do
    rename dst backup
    swapIn dst staging backup true
  | .error e => if e.notExist then swapIn dst staging backup false else .fail (.os e)

def commitProjectTree (dst staging : Chars) : Act Unit := do
  let backup ← mkdirTemp (dirPath dst) (".previous-".toList ++ basePath dst ++ ['-'])
  remove backup
  putAside dst staging backup

def dirStats (dir : Chars) : Act (Nat × Nat) := do
  let entries ← call (.walkDir dir)
  Prog.fold (fun (stats : Nat × Nat) visit =>
    match visit with
    | .entry names .regular => do
      match (← call (.info (walkedPath dir names)) : Except OsErr Nat) with
      | .ok size => pure (stats.1 + 1, stats.2 + size)
      | .error _ => pure stats
    | _ => pure stats) entries (0, 0)

def writeUploadErr : Failure → Failure
  | .badPath => .response 400 "upload contains an unsafe path"
  | .tooBig => .response 413 "a file exceeds the size limit"
  | _ => .response 500 "write failed"

/-- The error of a call becomes a response. -/
def answering {A : Type} (response : Failure → Failure) (p : Act A) : Act A := do
  match (← p.attempt) with
  | .ok a => pure a
  | .error e => .fail (response e)

/-- Where a file part goes: the path that was given with it, or else its name. -/
def Form.partPath (form : Form) (part : Part × Nat) : Chars :=
  let path := form.paths.getD part.2 []
  if path ≠ [] then path else part.1.filename

/-- The files of the form, in their order. -/
def writeParts (staging : Chars) (form : Form) : Act Nat :=
  Prog.fold (fun written (part : Part × Nat) =>
    if (maxProjectFileSize : Int) < part.1.size then .fail .tooBig
    else do
      openPart
      writeProjectFile staging (form.partPath part) (.given part.1.content)
      pure (written + 1)) form.files.zipIdx 0

def receive (staging : Chars) (form : Form) : Act Nat :=
  match form.files with
  | [] =>
    if safeFileName form.filename then answering writeUploadErr do
      writeProjectFile staging form.filename (.given form.content)
      pure 1
    else .fail (.response 400 "invalid or missing filename")
  | fh :: rest =>
    answering writeUploadErr (if rest = [] ∧ isZipName fh.filename then extractZipUpload staging fh else writeParts staging form)

/-- The files that the form brings, by the names given to them. -/
def Form.uploads (form : Form) : List (Chars × Bytes) :=
  match form.files with
  | [] => [(form.filename, form.content)]
  | fh :: rest =>
    if rest = [] ∧ isZipName fh.filename then
      ((fh.archive.getD []).filter fun e => !e.isDir && e.regular).map fun e => (e.name, e.content)
    else form.files.zipIdx.map fun part => (form.partPath part, part.1.content)

/-- The same by their places in the project. -/
def Form.written (form : Form) : List (List Seg × Bytes) := form.uploads.map fun upload => (elements (slashed upload.1), upload.2)

/-- The project as it is, where it is a directory, is copied to the staging directory. -/
def stageOld (projDir staging : Chars) : Act Unit := do
  match (← call (.stat projDir) : Except OsErr Kind) with
  | .ok .dir => answering (fun _ => .response 500 "stage existing project failed") (copyProjectTree projDir staging)
  | _ => pure ()

/-- What `uploadProject` does between the creation of the staging directory and its removal. -/
def uploadStaged (projDir staging : Chars) (form : Form) : Act Nat := do
  stageOld projDir staging
  let written ← receive staging form
  let stats ← dirStats staging
  if maxProjectSize < stats.2 then .fail (writeUploadErr .tooBig)
  else do
    answering (fun _ => .response 500 "commit upload failed") (commitProjectTree projDir staging)
    pure written

/-- `uploadProject`; `form` is what `ParseMultipartForm` makes of the request. -/
def uploadProject (projectsDir name : Chars) (form : Option Form) : Act Nat :=
  if projectsDir = [] then .fail (.response 503 "project uploads are disabled (no projects dir configured)")
  else if validProjectName name = false then .fail (.response 400 "invalid project name (allowed: letters, digits, . _ -)")
  else
    match form with
    | none => .fail (.response 413 "upload too large or malformed")
    | some form => do
      match (← call (.mkdirAll projectsDir) : Except OsErr Unit) with
      | .error e => .fail (.internal e)
      | .ok _ => do
        let projDir := joinPath [projectsDir, name]
        let staging ← answering (fun _ => .response 500 "create upload staging failed")
          (mkdirTemp projectsDir (".upload-".toList ++ name ++ ['-']))
        let outcome ← (uploadStaged projDir staging form).attempt
        let _ ← call (.removeAll staging)
        Prog.ofExcept outcome

end Cronova.Api.Projects
