import IconCompiler.Table
import IconCompiler.Template.Source
import IconCompiler.Text.Escaped

/-! Templates under names. -/

namespace IconCompiler

inductive TemplateError where
  | notFound (id : String)
  | render (id message : String)
  deriving DecidableEq

def TemplateError.message : TemplateError → String
  | notFound id => "Template not found: " ++ id
  | render id message => "Failed to render template '" ++ id ++ "': " ++ message

abbrev Shelf := Table String Template

namespace Shelf

/-- Puts a template up, or leaves the shelf as it is if the source cannot be read. -/
def register (s : Shelf) (id source : String) : Except TemplateError Shelf :=
  match Template.parse? source with
  | some t => .ok (s.put id t)
  | none => .error (.render id Template.Fault.unreadable.message)

/-- The names of the templates, sorted. -/
def ids (s : Shelf) : List String := s.keys.mergeSort fun a b => !(b < a)

def render (s : Shelf) (id : String) (d : Template.Data) : Except TemplateError String :=
  match s.get? id with
  | none => .error (.notFound id)
  | some t =>
    match t.render d with
    | .ok text => .ok text
    | .error fault => .error (.render id fault.message)

/-- The shelf in one line. -/
def describe (s : Shelf) : String :=
  "TemplateRenderer \x7b templates: " ++ Text.escapedList s.ids ++ " \x7d"

end Shelf

end IconCompiler
