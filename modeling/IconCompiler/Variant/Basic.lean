import IconCompiler.Icon.Literal
import IconCompiler.Icon.Paint
import IconCompiler.Template.Builtin.Index
import IconCompiler.Template.Shelf
import IconCompiler.Text.Words

/-!
Variants of output. A variant says how the components for one user interface library are written:
file extensions, the form of the literal, and the templates of a component and of the runtime that
all components of a directory share.
-/

namespace IconCompiler

/-- The shape of the generated code. -/
inductive Family where
  | functionComponent
  | templateDirective
  | customElement
  | classComponent
  | imperative
  deriving DecidableEq

namespace Family

/-- Whether components are the default exports of their files. -/
def usesDefaultExports (f : Family) : Bool := f == templateDirective

def title : Family → String
  | functionComponent => "function component"
  | templateDirective => "template directive"
  | customElement => "custom element"
  | classComponent => "class component"
  | imperative => "imperative"

def code : Family → String
  | functionComponent => "FunctionComponent"
  | templateDirective => "TemplateDirective"
  | customElement => "CustomElement"
  | classComponent => "ClassComponent"
  | imperative => "Imperative"

end Family

/-- File extensions of typed and of untyped source. -/
structure Extensions where
  typed : String
  untyped : String
  deriving DecidableEq

def Extensions.pick (e : Extensions) (typed : Bool) : String := if typed then e.typed else e.untyped

structure Variant where
  id : String
  family : Family
  component : Extensions
  index : Extensions
  runtimeStem : String
  runtime : Extensions
  keyStyle : KeyStyle
  /-- The indentation of the literal inside a component. -/
  nodeIndent : Nat
  componentTemplate : Template
  runtimeTemplate : Template

/-- A file and its text. -/
structure GeneratedFile where
  fileName : String
  contents : String
  deriving DecidableEq

namespace Variant

/-- Fills a template of a variant. -/
def fill (id : String) (t : Template) (d : Template.Data) : Except TemplateError String :=
  match t.render d with
  | .ok text => .ok text
  | .error fault => .error (.render id fault.message)

/-- The tag under which a component is registered, or the selector that it is found by. -/
def tagName (name : String) : String := "vectify-" ++ Text.hyphenated name

/-- The literal of an icon, its paint replaced by parameters unless colours are kept. -/
def literal (v : Variant) (keepColors : Bool) (icon : Icon) : String :=
  Literal.icon v.keyStyle v.nodeIndent (icon.normalized keepColors)

def componentData (v : Variant) (name : String) (typed keepColors : Bool) (icon : Icon) :
    Template.Data :=
  .record [("typescript", .bool typed), ("componentName", .text name),
    ("formattedNodes", .text (v.literal keepColors icon)), ("tagName", .text (tagName name))]

/-- The source of a component. -/
def renderComponent (v : Variant) (name : String) (typed keepColors : Bool) (icon : Icon) :
    Except TemplateError String :=
  fill (v.id ++ "/component") v.componentTemplate (v.componentData name typed keepColors icon)

def componentFileName (v : Variant) (name : String) (typed : Bool) : String :=
  name ++ "." ++ v.component.pick typed

def indexFileName (v : Variant) (typed : Bool) : String := "index." ++ v.index.pick typed

def runtimeFileName (v : Variant) (typed : Bool) : String :=
  v.runtimeStem ++ "." ++ v.runtime.pick typed

/-- The runtime that the components of a directory share. -/
def renderRuntime (v : Variant) (typed : Bool) : Except TemplateError GeneratedFile := do
  let text ← fill (v.id ++ "/runtime") v.runtimeTemplate (.record [("typescript", .bool typed)])
  pure ⟨v.runtimeFileName typed, text⟩

/-- What an index imports a component from. Script modules are named without their extension. -/
def importPath (v : Variant) (typed : Bool) (name : String) : String :=
  if v.family.usesDefaultExports then v.componentFileName name typed else name

/-- An index that exports the components of these names in this order. -/
def renderIndex (v : Variant) (names : List String) (typed : Bool) : Except TemplateError String :=
  let entry (name : String) : Template.Data :=
    .record [("name", .text name), ("path", .text (v.importPath typed name))]
  let data : Template.Data := .record [("components", .list (names.map entry))]
  if v.family.usesDefaultExports then fill "index/default" Template.Builtin.Index.byDefault data
  else fill "index/named" Template.Builtin.Index.named data

/-- The variant in one line. -/
def describe (v : Variant) : String :=
  "VariantStrategy \x7b id: " ++ Text.escaped '"' v.id.toList ++ ", family: " ++ v.family.code ++
    " \x7d"

end Variant

end IconCompiler
