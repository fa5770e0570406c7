import IconCompiler.Text.Search
import IconCompiler.Xml.Cursor

/-!
The tokens of a document: what its tags, texts and entity declarations say, before names are
resolved and entities are put in. Texts and values are kept as cursors, so that a fault found in
them later still has its place. Reading a document gives the tokens up to its end or up to the
first fault.
-/

namespace IconCompiler.Xml

inductive Token where
  | entity (name : String) (value : Cursor)
  | tagStart (name : QName) (position : Position)
  | attr (name : QName) (position : Position) (value : Cursor)
  | tagEnd (isEmpty : Bool)
  | close (name : QName) (position : Position)
  | text (content : Cursor)

/-- Tokens, and what came after them. -/
structure Scan (α : Type) where
  tokens : List Token
  result : Except Error α

namespace Scan

variable {α β : Type}

def bind (s : Scan α) (f : α → Scan β) : Scan β :=
  match s.result with
  | .ok a => ⟨s.tokens ++ (f a).tokens, (f a).result⟩
  | .error e => ⟨s.tokens, .error e⟩

instance : Monad Scan where
  pure a := ⟨[], .ok a⟩
  bind := bind

def lift (r : Except Error α) : Scan α := ⟨[], r⟩

instance : MonadLift (Except Error) Scan := ⟨lift⟩

def emit (t : Token) : Scan Unit := ⟨[t], .ok ()⟩

end Scan

namespace Cursor

/-- What ends a start tag: `>`, `/>`, or the end of the text. -/
inductive TagEnd where
  | opened
  | empty
  | cut

/-- The end of a quoted value that does not hold a `<`. -/
def takeValue (quote : Char) (c : Cursor) : Except Error (Cursor × Cursor) := do
  let (run, after) ← c.takeUntil fun cs => cs.head?.any fun x => x = quote ∨ x = '<'
  pure (⟨run, c.position⟩, ← after.expectChar quote)

/-- Attributes up to the end of a tag. -/
def tagRest : Nat → Cursor → Scan (TagEnd × Cursor)
  | 0, c => pure (.cut, c)
  | fuel + 1, c =>
    if c.rest.isEmpty then pure (.cut, c)
    else do
      let spaced := c.rest.head?.any isSpace
      let here := c.spaces
      let x ← here.current
      if x = '/' then
        let after ← (here.skip 1).expectChar '>'
        Scan.emit (.tagEnd true)
        pure (.empty, after)
      else if x = '>' then
        Scan.emit (.tagEnd false)
        pure (.opened, here.skip 1)
      else do
        let here ← if spaced then pure here else here.expectSpaces
        let (name, c) ← here.expectQName
        let c ← c.expectEquals
        let (quote, c) ← c.expectQuote
        let (value, c) ← c.takeValue quote
        Scan.emit (.attr name here.position value)
        tagRest fuel c

/-- A start tag. -/
def startTag (c : Cursor) : Scan (TagEnd × Cursor) := do
  let (name, after) ← (c.skip 1).expectQName
  if name.qualifier = "xmlns" then ((c.skip 1).fail .xmlnsElement : Except Error Unit)
  Scan.emit (.tagStart name c.position)
  tagRest (after.rest.length + 1) after

def closeTag (c : Cursor) : Scan Cursor := do
  let (name, after) ← (c.skip 2).expectQName
  let after ← after.spaces.expectChar '>'
  Scan.emit (.close name c.position)
  pure after

def comment (c : Cursor) : Except Error Cursor := do
  let (text, after) ← (c.skip 4).takeThrough "-->"
  if Text.contains ['-', '-'] text ∨ text.getLast? = some '-' then c.fail .hyphensInComment
  else pure after

def processingInstruction (c : Cursor) : Except Error Cursor := do
  if c.startsWith "<?xml " then c.fail .misplacedDeclaration
  else
    let (_, c) ← (c.skip 2).expectName
    let (_, c) ← c.spaces.takeThrough "?>"
    pure c

def characterData (c : Cursor) : Except Error Cursor := do
  let (_, c) ← (c.skip 9).takeThrough "]]>"
  pure c

/-- Text up to the next tag. -/
def textRun (c : Cursor) : Scan Cursor := do
  let (run, after) ← c.takeUntil fun cs => cs.head? == some '<'
  if Text.contains [']', ']', '>'] run then (after.fail .sectionEndInText : Except Error Unit)
  Scan.emit (.text ⟨run, c.position⟩)
  pure after

/-- The content of an element, `level` elements deep in the one whose end tag ends it. -/
def contentRest : Nat → Nat → Cursor → Scan Cursor
  | 0, _, c => pure c
  | fuel + 1, level, c =>
    if c.rest.isEmpty then pure c
    else if c.startsWith "<!" then do
      let c ←
        if c.startsWith "<!--" then c.comment
        else if c.startsWith "<![CDATA[" then c.characterData
        else c.fail .unknownToken
      contentRest fuel level c
    else if c.startsWith "<?" then do
      contentRest fuel level (← c.processingInstruction)
    else if c.startsWith "</" then do
      let c ← c.closeTag
      if level = 0 then pure c else contentRest fuel (level - 1) c
    else if c.rest = ['<'] then
      Scan.lift (c.fail .unknownToken)
    else if c.startsWith "<" then do
      let (tagEnd, c) ← c.startTag
      match tagEnd with
      | .opened => contentRest fuel (level + 1) c
      | _ => contentRest fuel level c
    else do
      contentRest fuel level (← c.textRun)

/-- Content up to the end tag of what holds it, or to the end of the text. -/
def content (c : Cursor) : Scan Cursor := contentRest (c.rest.length + 1) 0 c

/-- Comments and processing instructions between the parts of a document. -/
def miscRest : Nat → Cursor → Except Error Cursor
  | 0, c => .ok c
  | fuel + 1, c => do
    if c.rest.isEmpty then pure c
    else
      let c := c.spaces
      if c.startsWith "<!--" then miscRest fuel (← c.comment)
      else if c.startsWith "<?" then miscRest fuel (← c.processingInstruction)
      else pure c

def misc (c : Cursor) : Except Error Cursor := miscRest (c.rest.length + 1) c

/-- Spaces inside the declaration, which may only be left out before its end. -/
def declarationSpaces (c : Cursor) : Except Error Cursor :=
  match c.rest with
  | [] => .ok c
  | x :: _ =>
    if isSpace x then .ok c.spaces
    else if c.startsWith "?>" then .ok c
    else c.fail (.expectedOneOf "a whitespace" (leadingByte x))

def declarationAttr (c : Cursor) : Except Error Cursor := do
  let (_, c) ← c.expectQName
  let c ← c.expectEquals
  let (quote, c) ← c.expectQuote
  let (_, c) ← c.takeValue quote
  pure c

/-- The XML declaration. -/
def declaration (c : Cursor) : Except Error Cursor := do
  let c ← (c.skip 5).declarationSpaces
  if !c.startsWith "version" then c.fail (.expectedText "version")
  else
    let c ← (← c.declarationAttr).declarationSpaces
    let c ← if c.startsWith "encoding" then do (← c.declarationAttr).declarationSpaces else pure c
    let c ← if c.startsWith "standalone" then c.declarationAttr else pure c
    c.spaces.expectText "?>"

/-- A quoted identifier, whatever characters it holds. -/
def skipQuoted (c : Cursor) : Except Error Cursor := do
  let (quote, c) ← (← c.expectSpaces).expectQuote
  (c.skipWhile (· != quote)).expectChar quote

/-- An identifier of something outside the document, if one stands here. -/
def externalId? (c : Cursor) : Except Error (Option Cursor) := do
  if c.startsWith "SYSTEM" then pure (some (← (c.skip 6).skipQuoted))
  else if c.startsWith "PUBLIC" then pure (some (← (← (c.skip 6).skipQuoted).skipQuoted))
  else pure none

/-- What an entity is declared as. One that stands for something outside is not declared here. -/
def entityDefinition (name : String) (isParameter : Bool) (c : Cursor) : Scan Cursor := do
  let x ← c.current
  if x = '\'' ∨ x = '"' then
    let (value, after) := (c.skip 1).span (· != x)
    let after ← after.expectChar x
    Scan.emit (.entity name ⟨value, (c.skip 1).position⟩)
    pure after
  else if x = 'S' ∨ x = 'P' then do
    match ← c.externalId? with
    | none => Scan.lift (c.fail .invalidExternalId)
    | some after =>
      if isParameter then pure after
      else if after.spaces.startsWith "NDATA" then do
        let c ← (after.spaces.skip 5).expectSpaces
        let (_, c) ← c.optionalName
        pure c
      else pure after.spaces
  else Scan.lift (c.fail (.expectedOneOf "a quote, SYSTEM or PUBLIC" (leadingByte x)))

def entityDeclaration (c : Cursor) : Scan Cursor := do
  let c ← (c.skip 8).expectSpaces
  let isParameter := c.rest.head? == some '%'
  let c ← if isParameter then (c.skip 1).expectSpaces else pure c
  let (name, c) ← c.expectName
  let c ← c.expectSpaces
  let c ← entityDefinition name isParameter c
  c.spaces.expectChar '>'

/-- The declarations between the brackets of a document type that starts at `start`. -/
def doctypeRest (start : Position) : Nat → Cursor → Scan Cursor
  | 0, c => pure c
  | fuel + 1, c => do
    if c.rest.isEmpty then pure c
    else
      let c := c.spaces
      if c.startsWith "<!ENTITY" then doctypeRest start fuel (← c.entityDeclaration)
      else if c.startsWith "<!--" then doctypeRest start fuel (← c.comment)
      else if c.startsWith "<?" then doctypeRest start fuel (← c.processingInstruction)
      else if c.startsWith "]" then
        let c := (c.skip 1).spaces
        let x ← c.current
        if x = '>' then pure (c.skip 1)
        else Scan.lift (c.fail (.expectedOneOf "'>'" (leadingByte x)))
      else if c.startsWith "<!ELEMENT" || c.startsWith "<!ATTLIST" || c.startsWith "<!NOTATION" then
        let c := c.skipWhile (· != '>')
        if c.rest.isEmpty then Scan.lift (.error (.located .unknownToken start))
        else doctypeRest start fuel (c.skip 1)
      else Scan.lift (c.fail .unknownToken)

/-- The document type declaration. -/
def doctype (start : Cursor) : Scan Cursor := do
  let c ← (start.skip 9).expectSpaces
  let (_, c) ← c.optionalName
  let c := c.spaces
  let c := ((← c.externalId?).getD c).spaces
  let x ← c.current
  if x ≠ '[' ∧ x ≠ '>' then
    (c.fail (.expectedOneOf "'[' or '>'" (leadingByte x)) : Except Error Unit)
  if x = '>' then pure (c.skip 1)
  else doctypeRest start.position (c.rest.length + 1) (c.skip 1)

/-- A whole document. -/
def document (c : Cursor) : Scan Unit := do
  let c := if c.rest.head? = some (Char.ofNat 0xFEFF) then c.skip 1 else c
  let c ← if c.startsWith "<?xml " then c.declaration else pure c
  let c := (← c.misc).spaces
  let c ← if c.startsWith "<!DOCTYPE" then do (← c.doctype).misc else pure c
  let c := c.spaces
  let c ←
    if c.startsWith "<" then do
      let (tagEnd, c) ← c.startTag
      match tagEnd with
      | .opened => c.content
      | _ => pure c
    else pure c
  let c ← c.misc
  if c.rest.isEmpty then pure () else Scan.lift (c.fail .unknownToken)

end Cursor

end IconCompiler.Xml
