import IconCompiler.Xml.Char
import IconCompiler.Xml.Error

/-!
Reading forward in a text. A cursor is what is left of a text with the place of its first character;
each reader below takes something off the front or tells what is wrong there.
-/

namespace IconCompiler.Xml

structure Cursor where
  rest : List Char
  position : Position

/-- A name with the part before its colon, empty without one. -/
structure QName where
  qualifier : String
  localPart : String
  deriving DecidableEq

/-- The name as it is written. -/
def QName.written (n : QName) : String :=
  if n.qualifier.isEmpty then n.localPart else n.qualifier ++ ":" ++ n.localPart

namespace Cursor

def ofText (text : List Char) : Cursor := ⟨text, .start⟩

def fail {α : Type} (c : Cursor) (fault : Fault) : Except Error α :=
  .error (.located fault c.position)

/-- Takes the next `n` characters off. -/
def skip : Nat → Cursor → Cursor
  | 0, c => c
  | _ + 1, ⟨[], p⟩ => ⟨[], p⟩
  | n + 1, ⟨x :: xs, p⟩ => skip n ⟨xs, p.after x⟩

def startsWith (c : Cursor) (piece : String) : Bool := piece.toList.isPrefixOf c.rest

/-- The longest run of characters of a class. -/
def span (p : Char → Bool) (c : Cursor) : List Char × Cursor :=
  let run := c.rest.takeWhile p
  (run, c.skip run.length)

def skipWhile (p : Char → Bool) (c : Cursor) : Cursor := (c.span p).2

def spaces (c : Cursor) : Cursor := c.skipWhile isSpace

def current (c : Cursor) : Except Error Char :=
  match c.rest with
  | [] => .error .endOfText
  | x :: _ => .ok x

def expectChar (c : Cursor) (x : Char) : Except Error Cursor := do
  let y ← c.current
  if y = x then pure (c.skip 1) else c.fail (.expectedCharacter x (leadingByte y))

def expectText (c : Cursor) (piece : String) : Except Error Cursor :=
  if c.startsWith piece then .ok (c.skip piece.length) else c.fail (.expectedText piece)

def expectSpaces (c : Cursor) : Except Error Cursor := do
  let x ← c.current
  if isSpace x then pure c.spaces else c.fail (.expectedOneOf "a whitespace" (leadingByte x))

/-- An opening quote. -/
def expectQuote (c : Cursor) : Except Error (Char × Cursor) := do
  let x ← c.current
  if x = '\'' ∨ x = '"' then pure (x, c.skip 1)
  else c.fail (.expectedOneOf "a quote" (leadingByte x))

def expectEquals (c : Cursor) : Except Error Cursor := do
  let c ← c.spaces.expectChar '='
  pure c.spaces

/-- The characters up to where `stops` holds of what is left; each of them has to be one that may
stand in a document, and so has the one that stops. -/
def charsUntil (stops : List Char → Bool) : List Char → Position → Except Error (List Char × Cursor)
  | [], p => .ok ([], ⟨[], p⟩)
  | x :: xs, p =>
    if !isXmlChar x then .error (.located (.invalidCharacter x) p)
    else if stops (x :: xs) then .ok ([], ⟨x :: xs, p⟩)
    else do
      let (run, c) ← charsUntil stops xs (p.after x)
      pure (x :: run, c)

def takeUntil (stops : List Char → Bool) (c : Cursor) : Except Error (List Char × Cursor) :=
  charsUntil stops c.rest c.position

/-- The characters before a given text, which is then taken off as well. -/
def takeThrough (piece : String) (c : Cursor) : Except Error (List Char × Cursor) := do
  let (run, c) ← c.takeUntil piece.toList.isPrefixOf
  pure (run, ← c.expectText piece)

/-- A name, or nothing at the end of the text. -/
def optionalName (c : Cursor) : Except Error (String × Cursor) :=
  match c.rest with
  | [] => .ok ("", c)
  | x :: _ =>
    if isNameStart x then
      let (run, c) := c.span isNameChar
      .ok (String.ofList run, c)
    else c.fail .invalidName

def expectName (c : Cursor) : Except Error (String × Cursor) :=
  if c.rest.isEmpty then c.fail .invalidName else c.optionalName

/-- The parts of a run of name characters around its colon. -/
def splitName? (run : List Char) : Option QName :=
  let front := run.takeWhile (· != ':')
  let split : List Char × List Char :=
    match run.dropWhile (· != ':') with
    | [] => ([], run)
    | _ :: back => (front, back)
  if split.2.contains ':' then none
  else if split.1.head?.any (!isNameStart ·) then none
  else if split.2.head?.all (!isNameStart ·) then none
  else some ⟨String.ofList split.1, String.ofList split.2⟩

def expectQName (c : Cursor) : Except Error (QName × Cursor) :=
  let (run, after) := c.span isNameChar
  match splitName? run with
  | some name => .ok (name, after)
  | none => c.fail .invalidName

end Cursor

end IconCompiler.Xml
