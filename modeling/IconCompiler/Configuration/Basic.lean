import IconCompiler.Compilation
import IconCompiler.Configuration.Error
import IconCompiler.FileTree.Path

/-! What a run is told: the variant, the two directories, and how components are made and named. -/

namespace IconCompiler

/-- What a run does beside writing components and their runtime. -/
structure Extras where
  index : Bool
  preview : Bool
  cleanOutput : Bool
  deriving DecidableEq

namespace Extras

def standard : Extras := ⟨true, false, false⟩

end Extras

structure Config where
  framework : String
  input : String
  output : String
  typescript : Bool
  keepColors : Bool
  namePrefix : String
  nameSuffix : String
  generate : Extras
  deriving DecidableEq

/-- What a command line says over the configuration. -/
structure Overrides where
  framework : Option String
  input : Option String
  output : Option String
  typescript : Option Bool
  keepColors : Option Bool
  deriving DecidableEq

namespace Overrides

def none : Overrides := ⟨.none, .none, .none, .none, .none⟩

end Overrides

namespace Config

def standard : Config :=
  { framework := "react", input := "./icons", output := "./src/icons", typescript := true,
    keepColors := false, namePrefix := "", nameSuffix := "", generate := .standard }

/-- Whether two configurations agree, paths that differ only in needless slashes and points being
the same. -/
def same (a b : Config) : Bool :=
  Path.same a.input b.input && Path.same a.output b.output &&
    decide ({ a with input := "", output := "" } = { b with input := "", output := "" })

def compileOptions (c : Config) : CompileOptions := ⟨c.framework, c.typescript, c.keepColors⟩

/-- Both directories as seen from `base`. -/
def resolvePaths (c : Config) (base : String) : Config :=
  { c with input := Path.join base c.input, output := Path.join base c.output }

def override (c : Config) (o : Overrides) : Config :=
  { c with
    framework := o.framework.getD c.framework
    input := o.input.getD c.input
    output := o.output.getD c.output
    typescript := o.typescript.getD c.typescript
    keepColors := o.keepColors.getD c.keepColors }

/-- Whether a text may be part of an identifier. -/
def isIdentifierPart (text : String) : Bool :=
  text.toList.all fun c => c.isAlphanum || c == '_'

def checkFramework (c : Config) : Except ConfigError Unit :=
  if Registry.builtin.has c.framework then .ok ()
  else .error (.invalidValue "framework" ("unsupported framework '" ++ c.framework ++
    "', expected one of: " ++ Registry.builtin.listing))

def checkAffix (key text : String) : Except ConfigError Unit :=
  if isIdentifierPart text then .ok ()
  else .error (.invalidValue key ("'" ++ text ++ "' is not a valid identifier fragment"))

/-- Refuses a configuration that no run can use. -/
def validate (c : Config) : Except ConfigError Unit := do
  c.checkFramework
  checkAffix "prefix" c.namePrefix
  checkAffix "suffix" c.nameSuffix

end Config

end IconCompiler
