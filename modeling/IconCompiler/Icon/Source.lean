import IconCompiler.Icon.AttributeName
import IconCompiler.Icon.Node
import IconCompiler.Xml.Document

/-!
Icons from SVG documents. The drawing is the first `svg` element; of what is below it, the elements
of an icon are kept, and any other element is left out with everything in it.
-/

namespace IconCompiler

inductive SourceError where
  | noDrawing
  | malformed (reason : String)
  deriving DecidableEq

def SourceError.message : SourceError → String
  | noDrawing => "Invalid SVG: No <svg> tag found"
  | malformed reason => "Malformed markup: " ++ reason

/-- Enters an attribute under its folded name. Declarations of namespaces are left out. -/
def Attributes.note (bindings : List Xml.Binding) (as : Attributes) (a : Xml.Attr) : Attributes :=
  let name := a.qualifiedName bindings
  if "xmlns".toList.isPrefixOf name.toList then as
  else as.put (AttributeName.fold name) (AttrValue.ofText a.value)

def Attributes.ofXml (bindings : List Xml.Binding) (attrs : List Xml.Attr) : Attributes :=
  attrs.foldl (Attributes.note bindings) Table.empty

namespace Node

mutual

/-- The node of an element, if it is one that icons have. -/
def ofTree? : Xml.Tree → Option Node
  | .element name bindings attrs children =>
    match Element.ofTag? name.localPart with
    | some e => some (ofChildren e (Attributes.ofXml bindings attrs) (ofForest children))
    | none => none

def ofForest : List Xml.Tree → List Node
  | [] => []
  | t :: ts =>
    match ofTree? t with
    | some n => n :: ofForest ts
    | none => ofForest ts

end

end Node

namespace Xml

mutual

/-- The first `svg` element in document order, whatever its namespace. -/
def Tree.drawing? : Tree → Option Tree
  | .element name bindings attrs children =>
    if name.localPart = "svg" then some (.element name bindings attrs children)
    else forestDrawing? children

def forestDrawing? : List Tree → Option Tree
  | [] => none
  | t :: ts => t.drawing?.or (forestDrawing? ts)

end

end Xml

/-- The icon of a document. -/
def Icon.ofTree? (t : Xml.Tree) : Option Icon := t.drawing?.map fun d => Node.ofForest d.children

/-- Reads an icon from SVG text. -/
def Icon.ofSvg (svg : String) : Except SourceError Icon :=
  match Xml.read svg with
  | .error .noElement => .error .noDrawing
  | .error e => .error (.malformed e.message)
  | .ok t =>
    match Icon.ofTree? t with
    | some icon => .ok icon
    | none => .error .noDrawing

end IconCompiler
