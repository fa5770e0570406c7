import IconCompiler.Icon.Source
import IconCompiler.Variant.Registry

/-! Compiling one drawing into a component, and the files that go with the components. -/

namespace IconCompiler

inductive CompileError where
  | source (e : SourceError)
  | unsupportedVariant (id : String)
  | template (e : TemplateError)
  deriving DecidableEq

namespace CompileError

def message : CompileError → String
  | source e => "Failed to parse SVG: " ++ e.message
  | unsupportedVariant id => "Unsupported framework: " ++ id
  | template e => "Template error: " ++ e.message

/-- Whether an error concerns the drawing alone, so that other drawings may still compile. -/
def isPerFile : CompileError → Bool
  | source _ => true
  | _ => false

end CompileError

/-- The variant of an identifier. -/
def Registry.find (r : Registry) (id : String) : Except CompileError Variant :=
  match r.get? id with
  | some v => .ok v
  | none => .error (.unsupportedVariant id)

structure CompileOptions where
  variant : String
  typed : Bool
  keepColors : Bool
  deriving DecidableEq

namespace CompileOptions

def standard : CompileOptions := ⟨"react", true, false⟩

/-- The component of a drawing under a name. The variant is looked up before the drawing is read. -/
def compileComponent (o : CompileOptions) (name svg : String) :
    Except CompileError GeneratedFile := do
  let v ← Registry.builtin.find o.variant
  let icon ← (Icon.ofSvg svg).mapError .source
  let text ← (v.renderComponent name o.typed o.keepColors icon).mapError .template
  pure ⟨v.componentFileName name o.typed, text⟩

/-- The runtime that all components share. -/
def compileRuntime (o : CompileOptions) : Except CompileError GeneratedFile := do
  let v ← Registry.builtin.find o.variant
  (v.renderRuntime o.typed).mapError .template

/-- The index of components with these names. -/
def compileIndex (o : CompileOptions) (names : List String) :
    Except CompileError GeneratedFile := do
  let v ← Registry.builtin.find o.variant
  let text ← (v.renderIndex names o.typed).mapError .template
  pure ⟨v.indexFileName o.typed, text⟩

end CompileOptions

end IconCompiler
