import IconCompiler.Generation.Run

/-! What is printed about a run. -/

namespace IconCompiler

namespace GenerationReport

def outputLine (dryRun : Bool) (o : Output) : String :=
  let size := " (" ++ toString o.content.utf8ByteSize ++ " bytes)"
  if dryRun then "  [dry-run] Would write " ++ o.path ++ size else "  ✓ " ++ o.path ++ size

def removedLine (dryRun : Bool) (path : String) : String :=
  if dryRun then "  [dry-run] Would remove " ++ path else "  ✗ Removed " ++ path

def rule : String := String.ofList (List.replicate 60 '─')

def failureLine (f : Failure) : String := "  ✗ " ++ f.file ++ ": " ++ f.error

/-- How many components there are, and what went wrong with the others. -/
def summary (dryRun : Bool) (s : Stats) : List String :=
  if s.isClean then
    ["✓ " ++ (if dryRun then "Would generate " else "Generated ") ++ toString s.success ++
      " icon components"]
  else
    ["⚠ " ++ (if dryRun then "Analyzed " else "Generated ") ++ toString s.success ++ " icons, " ++
      toString s.failed ++ " failed", "", "Errors:"] ++ s.errors.map failureLine

/-- Where the components are, or would be. -/
def closing (dryRun : Bool) (c : Config) : List String :=
  if dryRun then
    ["", "Target directory: " ++ c.output, "Run without --dry-run to generate files"]
  else
    ["", "Output: " ++ c.output] ++
      if c.generate.preview then ["Preview: " ++ Path.join c.output Preview.fileName] else []

def lines (dryRun : Bool) (c : Config) (r : GenerationReport) : List String :=
  r.outputs.map (outputLine dryRun) ++ r.removed.map (removedLine dryRun) ++ [rule] ++
    summary dryRun r.stats ++ closing dryRun c

end GenerationReport

end IconCompiler
