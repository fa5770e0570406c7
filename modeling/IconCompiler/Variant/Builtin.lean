import IconCompiler.Template.Builtin.Angular
import IconCompiler.Template.Builtin.Astro
import IconCompiler.Template.Builtin.Lit
import IconCompiler.Template.Builtin.Preact
import IconCompiler.Template.Builtin.Qwik
import IconCompiler.Template.Builtin.React
import IconCompiler.Template.Builtin.Solid
import IconCompiler.Template.Builtin.Svelte
import IconCompiler.Template.Builtin.Vanilla
import IconCompiler.Template.Builtin.Vue
import IconCompiler.Variant.Basic

/-! The built-in variants, and the shelf of their templates. -/

namespace IconCompiler

namespace Extensions

def script : Extensions := ⟨"ts", "js"⟩

def jsx : Extensions := ⟨"tsx", "jsx"⟩

/-- One extension for typed and untyped source. -/
def same (extension : String) : Extensions := ⟨extension, extension⟩

end Extensions

namespace Variant

open Template.Builtin

/-- A function component, built by a factory. -/
def factory (id : String) (keyStyle : KeyStyle) (component runtime : Template) : Variant where
  id := id
  family := .functionComponent
  component := .jsx
  index := .script
  runtimeStem := "createIcon"
  runtime := .jsx
  keyStyle := keyStyle
  nodeIndent := 2
  componentTemplate := component
  runtimeTemplate := runtime

/-- A single-file component that holds data only and defers to a shared one. -/
def directive (id : String) (nodeIndent : Nat) (component runtime : Template) : Variant where
  id := id
  family := .templateDirective
  component := .same id
  index := .script
  runtimeStem := "Icon"
  runtime := .same id
  keyStyle := .kebab
  nodeIndent := nodeIndent
  componentTemplate := component
  runtimeTemplate := runtime

/-- A script module. -/
def script (id : String) (family : Family) (extensions : Extensions) (nodeIndent : Nat)
    (component runtime : Template) : Variant where
  id := id
  family := family
  component := extensions
  index := extensions
  runtimeStem := "createIcon"
  runtime := extensions
  keyStyle := .kebab
  nodeIndent := nodeIndent
  componentTemplate := component
  runtimeTemplate := runtime

def react : Variant := factory "react" .camel React.component React.runtime

def vue : Variant := directive "vue" 2 Vue.component Vue.runtime

def svelte : Variant := directive "svelte" 4 Svelte.component Svelte.runtime

def solid : Variant := factory "solid" .kebab Solid.component Solid.runtime

def preact : Variant := factory "preact" .camel Preact.component Preact.runtime

def vanilla : Variant :=
  script "vanilla" .imperative .script 2 Vanilla.component Vanilla.runtime

def lit : Variant := script "lit" .customElement .script 2 Lit.component Lit.runtime

def qwik : Variant := factory "qwik" .kebab Qwik.component Qwik.runtime

def astro : Variant := directive "astro" 2 Astro.component Astro.runtime

def angular : Variant :=
  script "angular" .classComponent (.same "ts") 4 Angular.component Angular.runtime

/-- The built-in variants in the order in which they are listed. -/
def builtins : List Variant :=
  [react, vue, svelte, solid, preact, vanilla, lit, qwik, astro, angular]

end Variant

/-- The shelf with every built-in template. -/
def Shelf.builtin : Shelf :=
  Table.ofList ((Variant.builtins.flatMap fun v =>
      [(v.id ++ "/component", v.componentTemplate), (v.id ++ "/runtime", v.runtimeTemplate)]) ++
    [("index/named", Template.Builtin.Index.named),
      ("index/default", Template.Builtin.Index.byDefault)])

end IconCompiler
