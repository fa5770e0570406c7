import IconCompiler.CommandLine.Places

/-!
The program. The part of the disk that a command may look at is read into a file tree, the command
runs on the tree, and what is different afterwards is written to the disk.
-/

namespace IconCompiler.Disk

def pathOf (l : Location) : String := "/" ++ "/".intercalate l

/-- Takes what is on the disk at a location into the tree. -/
def observe (t : FileTree) (l : Location) : IO FileTree := do
  let place := (← IO.currentDir) / pathOf l
  if ← place.isDir then pure (t.put l .directory)
  else if ← place.pathExists then pure (t.put l (.file (← IO.FS.readBinFile place)))
  else pure t

/-- The locations that a path leads through, from where it starts. -/
def trail (l : Location) : List String → List Location
  | [] => [l]
  | s :: ss =>
    l :: trail (if s = "." then l else if s = ".." then l.dropLast else l ++ [s]) ss

def observePath (t : FileTree) (path : String) : IO FileTree :=
  (trail (t.origin path) (Path.steps path)).foldlM observe t

/-- Takes a directory and the files in it into the tree, and the ignore files around it. -/
def observeDirectory (t : FileTree) (path : String) : IO FileTree := do
  let t ← observePath t path
  let .ok l := t.locate path | pure t
  let t ← ((Discovery.ancestry l).map (· ++ [".ignore"])).foldlM observe t
  let place := (← IO.currentDir) / pathOf l
  if ← place.isDir then
    (← place.readDir).foldlM (fun t e => observe t (l ++ [e.fileName])) t
  else pure t

def observeCommand (t : FileTree) (c : Command) : IO FileTree := do
  let t ← c.files.foldlM observePath t
  (c.directories t).foldlM observeDirectory t

/-- The working directory and what it is in. -/
def start : IO FileTree := do
  let here := Path.steps (← IO.currentDir).toString
  (trail [] here).foldlM observe ⟨.empty, here⟩

/-- Makes the disk what a tree says, given the tree that it was read into. -/
def commit (before after : FileTree) : IO Unit := do
  for (l, e) in after.entries.entries do
    match e, before.entries.get? l with
    | .directory, none => IO.FS.createDir (pathOf l)
    | .file new, some (.file old) => if new != old then IO.FS.writeBinFile (pathOf l) new
    | .file new, none => IO.FS.writeBinFile (pathOf l) new
    | _, some _ => pure ()
  for (l, _) in before.entries.entries do
    unless after.entries.has l do IO.FS.removeFile (pathOf l)

end IconCompiler.Disk

open IconCompiler in
def main (arguments : List String) : IO UInt32 := do
  let t ← Disk.start
  let t ← match Command.ofArguments arguments with
    | .ok c => Disk.observeCommand t c
    | .error _ => pure t
  let reply := Command.call t arguments
  Disk.commit t reply.tree
  IO.print reply.output
  IO.eprint reply.errors
  pure reply.code.toUInt32
