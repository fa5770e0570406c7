import IconCompiler.FileTree.Basic

/-!
Writing the files of a run, and removing those that no drawing stands behind any more. A dry run
says what would be done and does none of it.
-/

namespace IconCompiler

inductive WriteError where
  | createDirectory (path : String) (cause : IoError)
  | writeFile (path : String) (cause : IoError)
  | removeFile (path : String) (cause : IoError)
  | readDirectory (path : String) (cause : IoError)
  deriving DecidableEq

namespace WriteError

def path : WriteError → String
  | createDirectory path _ | writeFile path _ | removeFile path _ | readDirectory path _ => path

def cause : WriteError → IoError
  | createDirectory _ e | writeFile _ e | removeFile _ e | readDirectory _ e => e

def message : WriteError → String
  | createDirectory path cause => "Failed to create directory " ++ path ++ ": " ++ cause.message
  | writeFile path cause => "Failed to write file " ++ path ++ ": " ++ cause.message
  | removeFile path cause => "Failed to remove file " ++ path ++ ": " ++ cause.message
  | readDirectory path cause => "Failed to read directory " ++ path ++ ": " ++ cause.message

end WriteError

/-- A file that was written, or would have been. -/
structure Output where
  path : String
  content : String
  written : Bool
  deriving DecidableEq

/-- How many bytes were written. -/
def Output.bytes (o : Output) : Nat := if o.written then o.content.utf8ByteSize else 0

/-- What makes the changes of a run. The disk may refuse any of them, which are told apart by how
many were made before. -/
structure Writer where
  dryRun : Bool
  refuses : Nat → Option IoError

namespace Writer

/-- A writer whose disk refuses nothing. -/
def reliable (dryRun : Bool) : Writer := ⟨dryRun, fun _ => none⟩

/-- A change, unless the disk refuses it. -/
def attempt (w : Writer) (changes : Nat) (change : Except IoError FileTree) :
    Except IoError FileTree :=
  match w.refuses changes with
  | some e => .error e
  | none => change

/-- Makes the directory that a path is in, unless something is there already. -/
def prepare (t : FileTree) (path : String) : FileTree × Except WriteError Unit :=
  match Path.parent? path with
  | none => (t, .ok ())
  | some parent =>
    if parent.isEmpty || t.pathExists parent then (t, .ok ())
    else
      let (t, made) := t.makeDirectories parent
      (t, made.mapError (.createDirectory parent))

/-- Writes a file, after `changes` others. -/
def write (w : Writer) (changes : Nat) (t : FileTree) (path content : String) :
    FileTree × Except WriteError Output :=
  if w.dryRun then (t, .ok ⟨path, content, false⟩)
  else match prepare t path with
    | (t, .error e) => (t, .error e)
    | (t, .ok _) =>
      match w.attempt changes (t.writeText path content) with
      | .ok t => (t, .ok ⟨path, content, true⟩)
      | .error e => (t, .error (.writeFile path e))

/-! ## Cleaning up -/

/-- Whether an entry of a directory is a file with the extension and the marker that is not to be
kept. A file that is not text has no marker. -/
def isStale (extension marker : String) (keep : List String) (e : String × Entry) : Bool :=
  match e.2 with
  | .directory => false
  | .file contents =>
    Path.extension? e.1 == some extension && !keep.contains e.1 &&
      match String.fromUTF8? contents with
      | some text => Text.contains marker.toList text.toList
      | none => false

/-- The names of the stale files in a directory, sorted. -/
def staleNames (t : FileTree) (directory extension marker : String) (keep : List String) :
    List String :=
  if t.isDirectory directory then
    ((t.list directory).filter (isStale extension marker keep)).map Prod.fst
  else []

/-- Removes files one after the other, up to the first that the disk refuses to remove. -/
def removeAll (w : Writer) : Nat → FileTree → List String → FileTree × Except WriteError Unit
  | _, t, [] => (t, .ok ())
  | changes, t, path :: paths =>
    match w.attempt changes (t.removeFile path) with
    | .ok t => w.removeAll (changes + 1) t paths
    | .error e => (t, .error (.removeFile path e))

/-- Removes the stale files of a directory, after `changes` other changes, and says which. -/
def removeStale (w : Writer) (changes : Nat) (t : FileTree) (directory extension marker : String)
    (keep : List String) : FileTree × Except WriteError (List String) :=
  let stale := (staleNames t directory extension marker keep).map (Path.join directory)
  if w.dryRun then (t, .ok stale)
  else
    let (t, removed) := w.removeAll changes t stale
    (t, removed.map fun _ => stale)

end Writer

end IconCompiler
