import IconCompiler.Text.Digit
import IconCompiler.Xml.Cursor

/-! Texts with references to characters and entities in them. -/

namespace IconCompiler.Xml

/-- What a text consists of. A reference that cannot be read ends the account of the text. -/
inductive Piece where
  | plain (c : Char)
  | character (c : Char) (position : Position)
  | entity (name : String) (position after : Position)
  | malformed (position : Position)

/-- Entities that every document has. -/
def standardEntities : List (String × Char) :=
  [("quot", '"'), ("amp", '&'), ("apos", '\''), ("lt", '<'), ("gt", '>')]

/-- The character of a code point, as far as it may stand in a document. -/
def charOfCode? (code : Nat) : Option Char :=
  let c := if code.isValidChar then Char.ofNat code else Char.ofNat 0xFFFD
  if isXmlChar c then some c else none

/-- The digits of a character reference up to its semicolon. -/
def codeReference? (base : Nat) (c : Cursor) : Option (Char × Cursor) :=
  let (ds, c) := c.span fun x => (Text.digitValue? base x).isSome
  if ds.isEmpty || !c.startsWith ";" then none
  else if Nat.pow 2 32 ≤ Text.readNat base ds then none
  else (charOfCode? (Text.readNat base ds)).map fun x => (x, c.skip 1)

/-- A reference, which an ampersand starts. -/
def reference? (c : Cursor) : Option (Piece × Cursor) :=
  if c.startsWith "&#x" then
    (codeReference? 16 (c.skip 3)).map fun r => (.character r.1 c.position, r.2)
  else if c.startsWith "&#" then
    (codeReference? 10 (c.skip 2)).map fun r => (.character r.1 c.position, r.2)
  else match (c.skip 1).expectName with
    | .error _ => none
    | .ok (name, after) =>
      if !after.startsWith ";" then none
      else
        let after := after.skip 1
        match standardEntities.lookup name with
        | some x => some (.character x c.position, after)
        | none => some (.entity name c.position after.position, after)

def piecesRest : Nat → Cursor → List Piece
  | 0, _ => []
  | fuel + 1, c =>
    match c.rest with
    | [] => []
    | x :: _ =>
      if x = '&' then
        match reference? c with
        | some (piece, after) => piece :: piecesRest fuel after
        | none => [.malformed c.position]
      else .plain x :: piecesRest fuel (c.skip 1)

/-- The pieces of a text in order. -/
def pieces (c : Cursor) : List Piece := piecesRest (c.rest.length + 1) c

end IconCompiler.Xml
