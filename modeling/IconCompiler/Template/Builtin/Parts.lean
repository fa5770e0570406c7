import IconCompiler.Template.Basic
import IconCompiler.Text.Search

/-!
Parts that the built-in templates share, and the component of every variant whose components are
built by a factory function.
-/

namespace IconCompiler.Template.Builtin

/-- The name of the component. -/
def componentName : Part := .value ["componentName"]

/-- The literal of the icon. -/
def formattedNodes : Part := .value ["formattedNodes"]

/-- The tag of a custom element, or the selector of a class. -/
def tagName : Part := .value ["tagName"]

/-- Text that stands in typed source only. -/
def whenTyped (s : String) : Part := .choice (some ["typescript"]) [.text s] []

open Text (lines)

/-- A component that a factory builds from its name and its nodes. -/
def factoryComponent : List Part :=
  [.text (lines [r"import { createIcon } from './createIcon'"]),
   whenTyped (lines [r"import type { IconNode } from './createIcon'"]),
   .text (lines [""] ++ "const iconNode"), whenTyped ": IconNode[]", .text (lines [" = ["]),
   formattedNodes,
   .text (lines
      ["",
       "]",
       ""] ++ "export const "),
   componentName, .text " = createIcon('", componentName, .text (lines ["', iconNode)"])]

end IconCompiler.Template.Builtin
