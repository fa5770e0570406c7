import IconCompiler.CommandLine.Command
import IconCompiler.CommandLine.Report

/-! What the commands do to a file tree, and what they print and answer. -/

namespace IconCompiler

structure Reply where
  code : Nat
  output : String
  errors : String
  tree : FileTree

namespace Reply

def ofLines (code : Nat) (t : FileTree) (output errors : List String) : Reply :=
  ⟨code, Text.lines output, Text.lines errors, t⟩

def success (t : FileTree) (output : List String) : Reply := ofLines 0 t output []

/-- Invalid input has an exit code of its own. -/
def failure (t : FileTree) (output : List String) (e : RunError) : Reply :=
  let code := match e with
    | .validation _ => 2
    | _ => 1
  ofLines code t output ["Error: " ++ e.account]

end Reply

namespace Command

/-! ## Generating -/

/-- The configuration that a run has in effect. -/
def effectiveConfig (t : FileTree) (path : Option String) (o : Overrides) :
    Except ConfigError Config :=
  (Config.load t path).map (·.override o)

/-- The lines before a run over this many drawings. -/
def announcement (c : Config) (dryRun : Bool) (count : Nat) : List String :=
  ["Scanning for SVG files...", "  Found " ++ toString count ++ " SVG file(s)"] ++
    (if dryRun then ["Dry run mode - no files will be written"] else []) ++
    ["Generating " ++ c.framework ++ " components..."]

def generateFrom (t : FileTree) (c : Config) (dryRun : Bool) (files : List SourceFile) : Reply :=
  let r := (Job.ofConfig c).run (.reliable dryRun) t files
  let announced := announcement c dryRun files.length
  match r.report with
  | .ok report => .success r.tree (announced ++ report.lines dryRun c)
  | .error e => .failure r.tree announced e

/-- A run over the drawings in the input directory. That there are none, or that they cannot be
read, is worth a warning and no more. -/
def generateWith (t : FileTree) (c : Config) (dryRun : Bool) : Reply :=
  let warn (text : String) := Reply.success t ["Scanning for SVG files...", "Warning: " ++ text]
  match Discovery.scanAny t false c.input with
  | .error e => warn (RunError.scan e).message
  | .ok [] => warn ("No SVG files found in " ++ c.input)
  | .ok files => generateFrom t c dryRun files

def runGenerate (t : FileTree) (path : Option String) (o : Overrides) (dryRun : Bool) : Reply :=
  let checked := do
    let c ← effectiveConfig t path o
    c.validate
    pure c
  match checked with
  | .error e => .failure t [] (.config e)
  | .ok c => generateWith t c dryRun

/-! ## The other commands -/

/-- Writes a configuration file to start from. -/
def runInit (t : FileTree) (framework output : String) (force : Bool) : Reply :=
  if !Registry.builtin.has framework then
    .failure t [] (.validation ("Unsupported framework '" ++ framework ++ "', expected one of: " ++
      Registry.builtin.listing))
  else if t.pathExists output && !force then
    .failure t ["Error: Configuration file already exists: " ++ output,
      "  Use --force to overwrite"] (.validation "Configuration file already exists")
  else
    match t.writeText output (Config.starter framework) with
    | .ok t => .success t ["✓ Created configuration file: " ++ output,
        "  Run vectify generate to generate components"]
    | .error e => .ofLines 1 t [] ["Error: Failed to write " ++ output ++ ": " ++ e.message]

/-- A text with blanks behind it up to a width. -/
def padded (width : Nat) (text : String) : String :=
  text ++ String.ofList (List.replicate (width - text.length) ' ')

def variantLine (v : Variant) : String :=
  "  " ++ padded 10 v.id ++ " " ++ v.family.title ++ " (." ++ v.component.pick true ++ " / ." ++
    v.component.pick false ++ ")"

def runList (t : FileTree) : Reply :=
  .success t ("Supported frameworks:" :: Registry.builtin.entries.map fun e => variantLine e.2)

def run (t : FileTree) : Command → Reply
  | generate path o dryRun => runGenerate t path o dryRun
  | init framework output force => runInit t framework output force
  | list => runList t

/-! ## Without a command -/

def usage : List String :=
  ["Usage: vectify [OPTIONS] <COMMAND>", "", "Commands:",
    "  generate  Generate components from a directory of SVG files",
    "  init      Initialize a new vectify configuration file",
    "  list      List supported frameworks",
    "  help      Print this message"]

def version : String := "vectify 0.1.0"

def answerStop (t : FileTree) : Stop → Reply
  | .help => .success t usage
  | .version => .success t [version]
  | .misuse => .ofLines 2 t [] usage

/-- What the program does when it is called with these arguments. -/
def call (t : FileTree) (arguments : List String) : Reply :=
  match ofArguments arguments with
  | .ok c => c.run t
  | .error reason => answerStop t reason

end Command

end IconCompiler
