import IconCompiler.CommandLine.Options
import IconCompiler.Configuration.File

/-! The commands, and the arguments that ask for them. -/

namespace IconCompiler

inductive Command where
  | generate (config : Option String) (overrides : Overrides) (dryRun : Bool)
  | init (framework output : String) (force : Bool)
  | list
  deriving DecidableEq

namespace Command

/-- Options that every command takes. -/
def sharedOptions : List OptionForm :=
  [⟨"verbose", some 'v', .switch⟩, ⟨"help", some 'h', .stop .help⟩]

/-- Options before the name of the command. -/
def leadingOptions : List OptionForm := ⟨"version", some 'V', .stop .version⟩ :: sharedOptions

def generateOptions : List OptionForm :=
  [⟨"config", some 'c', .path⟩, ⟨"input", some 'i', .path⟩, ⟨"output", some 'o', .path⟩,
    ⟨"framework", some 'f', .text⟩, ⟨"keep-colors", none, .switch⟩,
    ⟨"dry-run", none, .switch⟩] ++ sharedOptions

def initOptions : List OptionForm :=
  [⟨"framework", some 'f', .text⟩, ⟨"output", some 'o', .path⟩, ⟨"force", none, .switch⟩] ++
    sharedOptions

/-- The options of a command that has no arguments but options. -/
def settings (forms : List OptionForm) (arguments : List String) : Except Stop Settings := do
  match ← readOptions forms .empty none arguments with
  | (s, []) => pure s
  | (_, _ :: _) => .error .misuse

def readGenerate (arguments : List String) : Except Stop Command := do
  let s ← settings generateOptions arguments
  let overrides : Overrides :=
    { framework := s.get? "framework", input := s.get? "input", output := s.get? "output",
      typescript := none, keepColors := if s.has "keep-colors" then some true else none }
  pure (.generate (s.get? "config") overrides (s.has "dry-run"))

def readInit (arguments : List String) : Except Stop Command := do
  let s ← settings initOptions arguments
  pure (.init ((s.get? "framework").getD "react") ((s.get? "output").getD Config.fileName)
    (s.has "force"))

def readList (arguments : List String) : Except Stop Command := do
  let _ ← settings sharedOptions arguments
  pure .list

/-- Help on a command, or on all of them. -/
def readHelp : List String → Stop
  | [] => .help
  | [name] => if ["generate", "init", "list", "help"].contains name then .help else .misuse
  | _ => .misuse

/-- The command that arguments ask for. -/
def ofArguments (arguments : List String) : Except Stop Command := do
  let (_, rest) ← readOptions leadingOptions .empty none arguments
  match rest with
  | "generate" :: rest => readGenerate rest
  | "init" :: rest => readInit rest
  | "list" :: rest => readList rest
  | "help" :: rest => .error (readHelp rest)
  | _ => .error .misuse

end Command

end IconCompiler
