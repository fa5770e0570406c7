import IconCompiler.Text.Escaped

/-! What can be wrong with a document, and where. -/

namespace IconCompiler.Xml

/-- A place in a document, lines and characters of a line counted from one. -/
structure Position where
  row : Nat
  column : Nat
  deriving DecidableEq

namespace Position

def start : Position := ⟨1, 1⟩

/-- The place after a character that stands at this one. -/
def after (p : Position) (c : Char) : Position :=
  if c = '\n' then ⟨p.row + 1, 1⟩ else ⟨p.row, p.column + 1⟩

def text (p : Position) : String := p.row.repr ++ ":" ++ p.column.repr

end Position

/-- Faults that have a place. -/
inductive Fault where
  | xmlQualifierRebound
  | xmlNamespaceRebound
  | xmlnsNamespaceBound
  | xmlnsElement
  | duplicateNamespace (qualifier : String)
  | unknownNamespace (qualifier : String)
  | unexpectedClose (expected actual : String)
  | closeInEntity
  | malformedReference
  | unknownEntity (name : String)
  | entityLoop
  | unescapedLess
  | duplicateAttribute (name : String)
  | misplacedDeclaration
  | invalidName
  | invalidCharacter (c : Char)
  | expectedCharacter (expected found : Char)
  | expectedOneOf (expected : String) (found : Char)
  | expectedText (expected : String)
  | invalidExternalId
  | hyphensInComment
  | sectionEndInText
  | unknownToken
  deriving DecidableEq

namespace Fault

/-- The account of a fault at a place. -/
def message (fault : Fault) (place : String) : String :=
  match fault with
  | xmlQualifierRebound => "'xml' namespace prefix mapped to wrong URI at " ++ place
  | xmlNamespaceRebound => "the 'xml' namespace URI is used for not 'xml' prefix at " ++ place
  | xmlnsNamespaceBound =>
    "the 'xmlns' URI is used at " ++ place ++ ", but it must not be declared"
  | xmlnsElement => "the 'xmlns' prefix is used at " ++ place ++ ", but it must not be"
  | duplicateNamespace q => "namespace '" ++ q ++ "' at " ++ place ++ " is already defined"
  | unknownNamespace q => "an unknown namespace prefix '" ++ q ++ "' at " ++ place
  | unexpectedClose expected actual =>
    "expected '" ++ expected ++ "' tag, not '" ++ actual ++ "' at " ++ place
  | closeInEntity => "unexpected close tag at " ++ place
  | malformedReference => "malformed entity reference at " ++ place
  | unknownEntity name => "unknown entity reference '" ++ name ++ "' at " ++ place
  | entityLoop => "a possible entity reference loop is detected at " ++ place
  | unescapedLess => "unescaped '<' found at " ++ place
  | duplicateAttribute name => "attribute '" ++ name ++ "' at " ++ place ++ " is already defined"
  | misplacedDeclaration => "unexpected XML declaration at " ++ place
  | invalidName => "invalid name token at " ++ place
  | invalidCharacter c =>
    "a non-XML character " ++ Text.escaped '\'' [c] ++ " found at " ++ place
  | expectedCharacter expected found =>
    "expected '" ++ expected.toString ++ "' not '" ++ found.toString ++ "' at " ++ place
  | expectedOneOf expected found =>
    "expected " ++ expected ++ " not '" ++ found.toString ++ "' at " ++ place
  | expectedText expected => "expected '" ++ expected ++ "' at " ++ place
  | invalidExternalId => "invalid ExternalID at " ++ place
  | hyphensInComment => "comment at " ++ place ++ " contains '--'"
  | sectionEndInText => "']]>' at " ++ place ++ " is not allowed inside a character data"
  | unknownToken => "unknown token at " ++ place

end Fault

inductive Error where
  | located (fault : Fault) (position : Position)
  | unclosedElement
  | endOfText
  | noElement
  deriving DecidableEq

def Error.message : Error → String
  | located fault position => fault.message position.text
  | unclosedElement => "the root node was opened but never closed"
  | endOfText => "unexpected end of stream"
  | noElement => "the document does not have a root node"

end IconCompiler.Xml
