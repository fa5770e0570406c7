import IconCompiler.Xml.Cursor

/-! Documents as trees of elements with resolved names. Only elements and their attributes count. -/

namespace IconCompiler.Xml

/-- The namespace that the qualifier `xml` always stands for. -/
def xmlNamespace : String := "http://www.w3.org/XML/1998/namespace"

/-- The namespace of namespace declarations, which no qualifier may stand for. -/
def xmlnsNamespace : String := "http://www.w3.org/2000/xmlns/"

/-- A qualifier, empty for the default, and the namespace that it stands for. -/
structure Binding where
  qualifier : String
  namespaceName : String
  deriving DecidableEq

/-- An attribute that declares no namespace. -/
structure Attr where
  namespaceName : Option String
  localPart : String
  value : String

/-- An element with the bindings in force in it, innermost first. -/
inductive Tree where
  | element (name : QName) (bindings : List Binding) (attributes : List Attr) (children : List Tree)

namespace Tree

def name : Tree → QName
  | element n _ _ _ => n

def bindings : Tree → List Binding
  | element _ bs _ _ => bs

def attributes : Tree → List Attr
  | element _ _ as _ => as

def children : Tree → List Tree
  | element _ _ _ cs => cs

end Tree

/-- The first qualifier that stands for a namespace. -/
def qualifierOf? (bindings : List Binding) (namespaceName : String) : Option String :=
  if namespaceName = xmlNamespace then some "xml"
  else (bindings.find? (·.namespaceName = namespaceName)).map (·.qualifier)

/-- The name of an attribute, with the first qualifier of its namespace in front. -/
def Attr.qualifiedName (bindings : List Binding) (a : Attr) : String :=
  match a.namespaceName.bind (qualifierOf? bindings) with
  | some q => (QName.mk q a.localPart).written
  | none => a.localPart

end IconCompiler.Xml
