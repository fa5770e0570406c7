import IconCompiler.FileTree.Basic
import IconCompiler.Text.Blank

/-!
Finding the drawings of a run: the files directly in one directory whose extension is that of
drawings, sorted by name, but for those that an ignore file names. An ignore file is taken for a
list of plain names, one a line.
-/

namespace IconCompiler

/-- A drawing as it was found. -/
structure SourceFile where
  path : String
  fileName : String
  content : String
  deriving DecidableEq

inductive ScanError where
  | directoryNotFound (path : String)
  | noDrawings (path : String)
  | unreadable (path : String) (cause : IoError)
  | interrupted (reason : String)
  deriving DecidableEq

def ScanError.message : ScanError → String
  | directoryNotFound path => "Directory not found: " ++ path
  | noDrawings path => "No SVG files found in: " ++ path
  | unreadable path cause => "Failed to read " ++ path ++ ": " ++ cause.message
  | interrupted reason => "Walk error: " ++ reason

namespace Discovery

/-- The extension of drawings. -/
def extension : String := "svg"

/-! ## Ignored names -/

/-- What a line of an ignore file names. Blank lines and comments name nothing. -/
def ignoredName? (line : List Char) : Option String :=
  let name := (line.reverse.dropWhile Text.isBlank).reverse
  if name.isEmpty || name.head? == some '#' then none else some (String.ofList name)

/-- The names in the ignore file of one directory. -/
def namesIn (t : FileTree) (directory : Location) (ignoreFile : String) : List String :=
  match t.entry? (directory ++ [ignoreFile]) with
  | some (.file contents) =>
    match String.fromUTF8? contents with
    | some text => (Text.splitAt (· == '\n') text.toList).filterMap ignoredName?
    | none => []
  | _ => []

/-- A directory and all that it is in, from the inside out. -/
def ancestry (l : Location) : List Location :=
  (List.range (l.length + 1)).map fun n => l.take (l.length - n)

def holdsRepository (t : FileTree) (l : Location) : Bool := (t.entry? (l ++ [".git"])).isSome

/-- The directories whose ignore files for repositories hold: up to the first that holds one, and
none if there is no such directory. -/
def repositoryAncestry (t : FileTree) (l : Location) : List Location :=
  let inner := (ancestry l).takeWhile (!holdsRepository t ·)
  match (ancestry l).drop inner.length with
  | [] => []
  | top :: _ => inner ++ [top]

/-- The names that are passed over in a directory. -/
def ignored (t : FileTree) (gitignore : Bool) (l : Location) : List String :=
  (ancestry l).flatMap (namesIn t · ".ignore") ++
    if gitignore then (repositoryAncestry t l).flatMap (namesIn t · ".gitignore") else []

/-! ## Drawings -/

/-- Whether a name is that of a drawing in a directory: of a file, as far as the path can be
followed, with the extension of drawings. -/
def isDrawing (t : FileTree) (root name : String) : Bool :=
  t.isFile (Path.join root name) && Path.extension? name == some extension

/-- The names of the drawings in a directory that are not ignored, sorted. -/
def drawingNames (t : FileTree) (gitignore : Bool) (root : String) : List String :=
  match t.locate root with
  | .ok l =>
    let passedOver := ignored t gitignore l
    ((t.list root).map Prod.fst).filter fun name =>
      isDrawing t root name && !passedOver.contains name
  | .error _ => []

def read (t : FileTree) (root name : String) : Except ScanError SourceFile := do
  let path := Path.join root name
  let content ← (t.readText path).mapError (.unreadable path)
  pure ⟨path, name, content⟩

/-- The drawings in a directory, at least one. -/
def scan (t : FileTree) (gitignore : Bool) (root : String) : Except ScanError (List SourceFile) :=
  if t.isDirectory root then do
    let files ← (drawingNames t gitignore root).mapM (read t root)
    if files.isEmpty then .error (.noDrawings root) else pure files
  else .error (.directoryNotFound root)

/-- The drawings in a directory, which may be none. -/
def scanAny (t : FileTree) (gitignore : Bool) (root : String) :
    Except ScanError (List SourceFile) :=
  match scan t gitignore root with
  | .error (.noDrawings _) => .ok []
  | result => result

end Discovery

end IconCompiler
