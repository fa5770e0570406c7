import IconCompiler.FileTree.Error
import IconCompiler.FileTree.Path
import IconCompiler.Table

/-!
File trees as values. A location is the list of names that lead to it from the root; the tree knows
the location of the working directory, from which relative paths start. Operations that change
files return the changed tree, and leave the tree as it is where they fail, but for directories that
were made before the failure.
-/

namespace IconCompiler

abbrev Location := List String

inductive Entry where
  | directory
  | file (contents : ByteArray)

structure FileTree where
  entries : Table Location Entry
  workingDirectory : Location

namespace FileTree

/-- A tree with nothing in it but the working directory. -/
def fresh (name : String) : FileTree := ⟨Table.empty.put [name] .directory, [name]⟩

def entry? (t : FileTree) (l : Location) : Option Entry :=
  if l.isEmpty then some .directory else t.entries.get? l

def isDirectoryAt (t : FileTree) (l : Location) : Bool :=
  match t.entry? l with
  | some .directory => true
  | _ => false

/-- The most bytes that a name may have. -/
def longestName : Nat := 255

/-- The most bytes that a path may have. -/
def longestPath : Nat := 4095

/-- What is wrong with the text of a path, whatever the files are. -/
def fault? (path : String) : Option IoError :=
  if path.toList.contains (Char.ofNat 0) then some .nullInName
  else if longestPath < path.utf8ByteSize then some .nameTooLong
  else if path.isEmpty then some .notFound
  else none

/-- Follows steps from a location. Every step starts in a directory; the last one may lead to
something that does not exist. -/
def walk (t : FileTree) (l : Location) : List String → Except IoError Location
  | [] => .ok l
  | s :: ss =>
    match t.entry? l with
    | none => .error .notFound
    | some (.file _) => .error .notDirectory
    | some .directory =>
      if s = "." then t.walk l ss
      else if s = ".." then t.walk l.dropLast ss
      else if longestName < s.utf8ByteSize then .error .nameTooLong
      else t.walk (l ++ [s]) ss

/-- Where the steps of a path start. -/
def origin (t : FileTree) (path : String) : Location :=
  if Path.isAbsolute path then [] else t.workingDirectory

def locate (t : FileTree) (path : String) : Except IoError Location :=
  match fault? path with
  | some e => .error e
  | none =>
    t.walk (t.origin path) (Path.steps path ++ if Path.endsInSlash path then ["."] else [])

/-- Where a file of a path is or would be. A directory is no place for one, nor is a path that asks
for a directory. -/
def placeForFile (t : FileTree) (path : String) : Except IoError Location :=
  match fault? path with
  | some e => .error e
  | none => do
    if Path.endsInSlash path then
      let _ ← t.walk (t.origin path) ((Path.steps path).dropLast ++ ["."])
      .error .isDirectory
    else
      let l ← t.walk (t.origin path) (Path.steps path)
      if t.isDirectoryAt l then .error .isDirectory else pure l

def find (t : FileTree) (path : String) : Except IoError Entry := do
  let l ← t.locate path
  match t.entry? l with
  | some e => pure e
  | none => .error .notFound

/-- Whether a path leads to something. -/
def pathExists (t : FileTree) (path : String) : Bool := (t.find path).toOption.isSome

def isDirectory (t : FileTree) (path : String) : Bool :=
  match t.find path with
  | .ok .directory => true
  | _ => false

def isFile (t : FileTree) (path : String) : Bool :=
  match t.find path with
  | .ok (.file _) => true
  | _ => false

def readBytes (t : FileTree) (path : String) : Except IoError ByteArray := do
  match ← t.find path with
  | .directory => .error .isDirectory
  | .file contents => pure contents

def readText (t : FileTree) (path : String) : Except IoError String := do
  match String.fromUTF8? (← t.readBytes path) with
  | some text => pure text
  | none => .error .notUtf8

/-- What is directly in a directory, in no particular order. -/
def children (t : FileTree) (l : Location) : List (String × Entry) :=
  t.entries.entries.filterMap fun e =>
    match e.1.getLast? with
    | some name => if e.1.dropLast = l then some (name, e.2) else none
    | none => none

/-- What is directly in the directory of a path, sorted by name. -/
def list (t : FileTree) (path : String) : List (String × Entry) :=
  match t.locate path with
  | .ok l => (t.children l).mergeSort fun a b => !(b.1 < a.1)
  | .error _ => []

def put (t : FileTree) (l : Location) (e : Entry) : FileTree :=
  { t with entries := t.entries.put l e }

def writeBytes (t : FileTree) (path : String) (contents : ByteArray) : Except IoError FileTree := do
  pure (t.put (← t.placeForFile path) (.file contents))

def writeText (t : FileTree) (path text : String) : Except IoError FileTree :=
  t.writeBytes path text.toUTF8

/-- Makes the directories that steps from a location lead through. -/
def makeAlong (t : FileTree) (l : Location) : List String → FileTree × Except IoError Unit
  | [] => (t, .ok ())
  | s :: ss =>
    if s = "." then t.makeAlong l ss
    else if s = ".." then t.makeAlong l.dropLast ss
    else if longestName < s.utf8ByteSize then (t, .error .nameTooLong)
    else match t.entry? (l ++ [s]) with
      | some .directory => t.makeAlong (l ++ [s]) ss
      | some (.file _) => (t, .error (if ss.isEmpty then .fileExists else .notDirectory))
      | none => (t.put (l ++ [s]) .directory).makeAlong (l ++ [s]) ss

/-- Makes a directory and what it is in, as far as they do not exist. -/
def makeDirectories (t : FileTree) (path : String) : FileTree × Except IoError Unit :=
  if path.isEmpty then (t, .ok ())
  else match fault? path with
    | some e => (t, .error e)
    | none => t.makeAlong (t.origin path) (Path.steps path)

def removeFile (t : FileTree) (path : String) : Except IoError FileTree := do
  let l ← t.locate path
  match t.entry? l with
  | none => .error .notFound
  | some .directory => .error .isDirectory
  | some (.file _) => pure { t with entries := t.entries.remove l }

/-- Everything below the working directory: the path, and the size unless it is a directory. -/
def listing (t : FileTree) : List (String × Option Nat) :=
  let below := t.entries.entries.filterMap fun e =>
    match t.workingDirectory.isPrefixOf? e.1 with
    | some (name :: names) =>
      let size := match e.2 with
        | .directory => none
        | .file contents => some contents.size
      some ("/".intercalate (name :: names), size)
    | _ => none
  below.mergeSort fun a b => !(b.1 < a.1)

end FileTree

end IconCompiler
