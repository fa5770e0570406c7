import IconCompiler.Xml.Reference
import IconCompiler.Xml.Token
import IconCompiler.Xml.Tree

/-!
From tokens to a tree. Entities are put in where they are referred to, names get their namespaces,
and end tags are held against the start tags that they close.
-/

namespace IconCompiler.Xml

/-- How deep inside entities the reader is, and how many references it has followed there. -/
structure Nesting where
  depth : Nat
  references : Nat

namespace Nesting

def outside : Nesting := ⟨0, 0⟩

/-- Follows a reference. Ten entities inside each other, and 255 references inside an entity, are
the most that is not held to be a loop. -/
def enter (n : Nesting) (position : Position) : Except Error Nesting :=
  if (0 < n.depth ∧ n.references = 255) ∨ n.depth = 10 then
    .error (.located .entityLoop position)
  else .ok ⟨n.depth + 1, if 0 < n.depth then n.references + 1 else n.references⟩

def leave (n : Nesting) : Nesting :=
  if n.depth ≤ 1 then outside else ⟨n.depth - 1, n.references⟩

end Nesting

/-- The most entities that are read inside each other. -/
def maxDepth : Nat := 11

/-- Declared entities, the first declaration of a name counting. -/
abbrev Entities := List (String × Cursor)

def Entities.find (es : Entities) (name : String) (position : Position) : Except Error Cursor :=
  match es.lookup name with
  | some c => .ok c
  | none => .error (.located (.unknownEntity name) position)

/-- White space in an attribute value reads as spaces. -/
def blanked (c : Char) : Char := if c = '\t' ∨ c = '\n' ∨ c = '\r' then ' ' else c

def startsLine : List Piece → Bool
  | .plain '\n' :: _ => true
  | _ => false

/-- The value that pieces stand for, `expand` giving that of an entity. Outside entities a
character that is referred to stands for itself, whatever it is. -/
def valueOf (es : Entities) (expand : Cursor → Nesting → Except Error (List Char × Nesting)) :
    List Piece → Nesting → Except Error (List Char × Nesting)
  | [], n => .ok ([], n)
  | .plain c :: ps, n => do
    let (cs, n) ← valueOf es expand ps n
    pure (if c = '\r' ∧ startsLine ps then cs else blanked c :: cs, n)
  | .character c position :: ps, n => do
    if 0 < n.depth ∧ c = '<' then .error (.located .unescapedLess position)
    else
      let shown := if n.depth = 0 then c else blanked c
      let (cs, n) ← valueOf es expand ps n
      pure (shown :: cs, n)
  | .entity name position after :: ps, n => do
    let value ← es.find name position
    let (cs, n) ← expand value (← n.enter after)
    let (ds, n) ← valueOf es expand ps n.leave
    pure (cs ++ ds, n)
  | .malformed position :: _, _ => .error (.located .malformedReference position)

def valueIn (es : Entities) : Nat → Cursor → Nesting → Except Error (List Char × Nesting)
  | 0, _, n => .ok ([], n)
  | budget + 1, c, n => valueOf es (valueIn es budget) (pieces c) n

/-- An attribute that waits for the namespaces of its element. -/
structure Pending where
  name : QName
  position : Position
  value : String

/-- An element whose end tag has not come, with its children in reverse. -/
structure Frame where
  name : QName
  bindings : List Binding
  attributes : List Attr
  children : List Tree

def Frame.close (f : Frame) : Tree := .element f.name f.bindings f.attributes f.children.reverse

/-- A document that is being read: declared entities, the last start tag, what waits for an
element, open elements from the innermost, and closed elements outside of them in reverse. -/
structure Reading where
  entities : Entities
  tag : Option (QName × Position)
  attributes : List Pending
  bindings : List Binding
  nesting : Nesting
  frames : List Frame
  roots : List Tree

namespace Reading

def start : Reading := ⟨[], none, [], [], .outside, [], []⟩

/-- Adds a closed element to the one that holds it. -/
def addTree (r : Reading) (t : Tree) : Reading :=
  match r.frames with
  | [] => { r with roots := t :: r.roots }
  | f :: fs => { r with frames := { f with children := t :: f.children } :: fs }

/-- A declaration of a qualifier. -/
def bindQualifier (r : Reading) (qualifier value : String) (position : Position) :
    Except Error Reading :=
  if value = xmlnsNamespace then .error (.located .xmlnsNamespaceBound position)
  else if qualifier = "xml" ∧ value ≠ xmlNamespace then
    .error (.located .xmlQualifierRebound position)
  else if qualifier ≠ "xml" ∧ value = xmlNamespace then
    .error (.located .xmlNamespaceRebound position)
  else if r.bindings.any (·.qualifier = qualifier) then
    .error (.located (.duplicateNamespace qualifier) position)
  else if value = xmlNamespace then .ok r
  else .ok { r with bindings := r.bindings ++ [⟨qualifier, value⟩] }

/-- A declaration of the default namespace. -/
def bindDefault (r : Reading) (value : String) (position : Position) : Except Error Reading :=
  if value = xmlNamespace then .error (.located .xmlNamespaceRebound position)
  else if value = xmlnsNamespace then .error (.located .xmlnsNamespaceBound position)
  else .ok { r with bindings := r.bindings ++ [⟨"", value⟩] }

/-- Takes note of an attribute: a namespace, or one that waits for its element. -/
def noteAttr (r : Reading) (name : QName) (position : Position) (value : Cursor) :
    Except Error Reading := do
  let (cs, nesting) ← valueIn r.entities maxDepth value r.nesting
  let r := { r with nesting := nesting }
  let value := String.ofList cs
  if name.qualifier = "xmlns" then r.bindQualifier name.localPart value position
  else if name.localPart = "xmlns" then r.bindDefault value position
  else pure { r with attributes := r.attributes ++ [⟨name, position, value⟩] }

/-- The bindings of the element that is being started: its own, and those of the elements around
it whose qualifiers it does not bind. -/
def scope (r : Reading) : List Binding :=
  let outer := (r.frames.head?.map (·.bindings)).getD []
  if r.bindings.isEmpty then outer
  else r.bindings ++ outer.filter fun b => !r.bindings.any (·.qualifier = b.qualifier)

/-- The namespace of a qualifier. -/
def resolve (scope : List Binding) (qualifier : String) (position : Position) :
    Except Error String :=
  match scope.find? (·.qualifier = qualifier) with
  | some b => .ok b.namespaceName
  | none => .error (.located (.unknownNamespace qualifier) position)

def attrNamespace (scope : List Binding) (p : Pending) : Except Error (Option String) :=
  if p.name.qualifier = "xml" then .ok (some xmlNamespace)
  else if p.name.qualifier.isEmpty then .ok none
  else (resolve scope p.name.qualifier p.position).map some

/-- Resolves attributes in order, after those that are resolved. No two of them may have one
namespace and one local part. -/
def resolveAttrs (scope : List Binding) (resolved : List Attr) :
    List Pending → Except Error (List Attr)
  | [] => .ok resolved
  | p :: ps => do
    let namespaceName ← attrNamespace scope p
    if resolved.any fun a => a.namespaceName = namespaceName ∧ a.localPart = p.name.localPart then
      .error (.located (.duplicateAttribute p.name.localPart) p.position)
    else resolveAttrs scope (resolved ++ [⟨namespaceName, p.name.localPart, p.value⟩]) ps

/-- The end of a start tag. -/
def endTag (r : Reading) (isEmpty : Bool) : Except Error Reading := do
  match r.tag with
  | none => pure r
  | some (name, position) =>
    let scope := r.scope
    let attributes ← resolveAttrs scope [] r.attributes
    if !name.qualifier.isEmpty then
      let _ ← resolve scope name.qualifier (position.after '<')
    let r := { r with attributes := [], bindings := [] }
    if isEmpty then pure (r.addTree (.element name scope attributes []))
    else pure { r with frames := ⟨name, scope, attributes, []⟩ :: r.frames }

/-- An end tag. What waits for an element is looked up and dropped. -/
def closeTag (r : Reading) (name : QName) (position : Position) : Except Error Reading := do
  if r.tag.isNone then .error (.located .closeInEntity position)
  else
    let _ ← resolveAttrs r.scope [] r.attributes
    let r := { r with attributes := [], bindings := [] }
    match r.frames with
    | [] => pure r
    | f :: fs =>
      if f.name ≠ name then
        .error (.located (.unexpectedClose f.name.written name.written) position)
      else pure ({ r with frames := fs }.addTree f.close)

/-- Puts the entities in that a text refers to, `expand` reading the tokens of one. -/
def noteText (expand : List Token → Reading → Except Error Reading) :
    List Piece → Reading → Except Error Reading
  | [], r => .ok r
  | .plain _ :: ps, r => noteText expand ps r
  | .character _ _ :: ps, r => noteText expand ps r
  | .entity name position after :: ps, r => do
    let value ← r.entities.find name position
    let nesting ← r.nesting.enter after
    let scan := value.content
    let inner ← expand scan.tokens { r with nesting := nesting, tag := none }
    let _ ← scan.result
    noteText expand ps { inner with nesting := inner.nesting.leave, tag := r.tag }
  | .malformed position :: _, _ => .error (.located .malformedReference position)

/-- The state after one more token. -/
def step (expand : List Token → Reading → Except Error Reading) (r : Reading) :
    Token → Except Error Reading
  | .entity name value => .ok { r with entities := r.entities ++ [(name, value)] }
  | .tagStart name position => .ok { r with tag := some (name, position) }
  | .attr name position value => r.noteAttr name position value
  | .tagEnd isEmpty => r.endTag isEmpty
  | .close name position => r.closeTag name position
  | .text content => noteText expand (pieces content) r

/-- The state after tokens, entities being read inside each other as deep as the budget allows. -/
def run : Nat → List Token → Reading → Except Error Reading
  | 0, _, r => .ok r
  | budget + 1, ts, r => ts.foldlM (step (run budget)) r

/-- The first element of a document whose elements are all closed. -/
def root (r : Reading) : Except Error Tree :=
  match r.frames, r.roots.getLast? with
  | [], some t => .ok t
  | [], none => .error .noElement
  | _ :: _, _ => .error .unclosedElement

end Reading

/-- Reads a document. -/
def read (text : String) : Except Error Tree := do
  let scan := (Cursor.ofText text.toList).document
  let r ← Reading.run maxDepth scan.tokens .start
  scan.result
  r.root

end IconCompiler.Xml
