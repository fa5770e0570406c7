import IconCompiler.Configuration.Basic
import IconCompiler.FileTree.Basic
import IconCompiler.Toml.Document

/-!
Configurations in TOML files. Keys that a configuration does not know are passed over, and missing
ones leave it as it is by default; a value of the wrong kind makes the file invalid.
-/

namespace IconCompiler.Config

/-! ## Reading -/

def text? : Toml.Value → Option String
  | .text s => some s
  | _ => none

def bool? : Toml.Value → Option Bool
  | .bool b => some b
  | _ => none

/-- A value read by its kind, or what stands for it where it is missing. -/
def readOr {α : Type} (kind : Toml.Value → Option α) (missing : α) (key : String) :
    Option Toml.Value → Except String α
  | none => .ok missing
  | some v =>
    match kind v with
    | some a => .ok a
    | none => .error ("invalid type for key '" ++ key ++ "'")

def readExtras (index preview cleanOutput : Option Toml.Value) : Except String Extras := do
  let index ← readOr bool? Extras.standard.index "index" index
  let preview ← readOr bool? Extras.standard.preview "preview" preview
  let cleanOutput ← readOr bool? Extras.standard.cleanOutput "clean_output" cleanOutput
  pure ⟨index, preview, cleanOutput⟩

/-- The extras from a table, or from a list in the order of the fields. A moment says nothing of
any of them. -/
def extrasOf : Option Toml.Value → Except String Extras
  | none | some .moment => .ok .standard
  | some (.inline es) | some (.table _ es) =>
    readExtras (es.lookup "index") (es.lookup "preview") (es.lookup "clean_output")
  | some (.list vs) => readExtras vs[0]? vs[1]? vs[2]?
  | some _ => .error "invalid type for key 'generate'"

def ofEntries (es : Toml.Entries) : Except String Config := do
  let framework ← readOr text? standard.framework "framework" (es.lookup "framework")
  let input ← readOr text? standard.input "input" (es.lookup "input")
  let output ← readOr text? standard.output "output" (es.lookup "output")
  let typescript ← readOr bool? standard.typescript "typescript" (es.lookup "typescript")
  let keepColors ← readOr bool? standard.keepColors "keep_colors" (es.lookup "keep_colors")
  let namePrefix ← readOr text? standard.namePrefix "prefix" (es.lookup "prefix")
  let nameSuffix ← readOr text? standard.nameSuffix "suffix" (es.lookup "suffix")
  let generate ← extrasOf (es.lookup "generate")
  pure { framework, input, output, typescript, keepColors, namePrefix, nameSuffix, generate }

def ofToml (text : String) : Except String Config :=
  match Toml.parse? text with
  | some es => ofEntries es
  | none => .error "not a TOML document"

/-! ## Loading -/

/-- The name of the file where no other is asked for. -/
def fileName : String := "vectify.toml"

/-- The configuration from a file. Its directories are seen from where the file is. -/
def ofFile (t : FileTree) (file : String) : Except ConfigError Config := do
  let text ← (t.readText file).mapError (.unreadable file)
  let config ← (ofToml text).mapError (.invalidToml file)
  match Path.parent? file with
  | some base => pure (if base.isEmpty then config else config.resolvePaths base)
  | none => pure config

/-- The configuration from the file asked for, or else from the usual one if there is one. -/
def load (t : FileTree) (path : Option String) : Except ConfigError Config :=
  let file := path.getD fileName
  if t.pathExists file then ofFile t file
  else if path.isSome then .error (.notFound file)
  else .ok standard

/-! ## Writing -/

/-- The text of a file that says of every field but the framework what holds by default. -/
def starter (framework : String) : String :=
  "# vectify configuration file\n\n" ++
  "# Target framework (" ++ Registry.builtin.listing ++ ")\n" ++
  "framework = \"" ++ framework ++ "\"\n" ++
r#"
# Directory containing the source SVG files
input = "./icons"

# Directory receiving the generated components
output = "./src/icons"

# Generate TypeScript instead of JavaScript
typescript = true

# Keep the original fill and stroke colors instead of the `color` prop
keep_colors = false

# Component name prefix and suffix (e.g. prefix = "Icon" -> IconArrowRight)
prefix = ""
suffix = ""

[generate]
# Generate an index file re-exporting every component
index = true

# Generate preview.html to browse the icons
preview = false

# Remove components whose SVG file no longer exists
clean_output = false
"#

end IconCompiler.Config
