import IconCompiler.CommandLine.Run

/-! The part of the disk that a command may look at. -/

namespace IconCompiler.Command

/-- The files that a command reads or writes by name. -/
def files : Command → List String
  | generate path _ _ => [path.getD Config.fileName]
  | init _ output _ => [output]
  | list => []

/-- The directories whose files a command reads or writes, as the configuration has them. -/
def directories (t : FileTree) : Command → List String
  | generate path o _ =>
    match effectiveConfig t path o with
    | .ok c => [c.input, c.output]
    | .error _ => []
  | init _ _ _ | list => []

end IconCompiler.Command
