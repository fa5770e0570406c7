import IconCompiler.Toml.Scalar

/-! Reading TOML documents into tables. -/

namespace IconCompiler.Toml

/-- Takes a comment off, if there is one, up to the end of the line. -/
def comment? : List Char → Option (List Char)
  | '#' :: cs =>
    let rest := cs.dropWhile fun c => !isControl c
    if rest.isEmpty || (lineEnd? rest).isSome then some rest else none
  | cs => some cs

/-- Blanks, comments and line ends between the items of a list. -/
def filler? : Nat → List Char → Option (List Char)
  | 0, cs => some cs
  | fuel + 1, cs => do
    let cs ← comment? (skipGap cs)
    match lineEnd? cs with
    | some rest => filler? fuel rest
    | none => pure cs

mutual

def value? : Nat → Reader Value
  | 0, _ => none
  | fuel + 1, cs =>
    match cs with
    | '"' :: _ | '\'' :: _ => (string? cs).map fun r => (.text r.1, r.2)
    | '[' :: rest => items? fuel [] rest
    | '\x7b' :: rest =>
      match skipGap rest with
      | '\x7d' :: rest => some (.inline [], rest)
      | rest => pairs? fuel [] rest
    | _ => do
      let word := bareWord cs
      pure (← ofBareWord? word, cs.drop word.length)

/-- The items of a list up to its closing bracket, after those that are read. -/
def items? : Nat → List Value → Reader Value
  | 0, _, _ => none
  | fuel + 1, read, cs => do
    match ← filler? cs.length cs with
    | ']' :: rest => pure (.list read.reverse, rest)
    | cs =>
      let (v, cs) ← value? fuel cs
      match ← filler? cs.length cs with
      | ',' :: rest => items? fuel (v :: read) rest
      | ']' :: rest => pure (.list (v :: read).reverse, rest)
      | _ => none

/-- The pairs of a table on one line up to its closing brace, after those that are read. -/
def pairs? : Nat → Entries → Reader Value
  | 0, _, _ => none
  | fuel + 1, read, cs => do
    let (path, cs) ← key? cs
    let cs ← expect? '=' (skipGap cs)
    let (v, cs) ← value? fuel (skipGap cs)
    let read ← read.addDotted? path v
    match skipGap cs with
    | ',' :: rest => pairs? fuel read (skipGap rest)
    | '\x7d' :: rest => pure (.inline read, rest)
    | _ => none

end

/-- A document that is being read: its tables, and the path of the last header. -/
structure Reading where
  root : Entries
  header : List String

/-- The pair of a key and a value, added to the table of the last header. -/
def pair? (r : Reading) (cs : List Char) : Option (Reading × List Char) := do
  let (path, cs) ← key? cs
  let cs := skipGap (← expect? '=' (skipGap cs))
  let (v, cs) ← value? (cs.length + 1) cs
  let root ← r.root.alter? false (Entries.addDotted? path v) r.header
  pure ({ r with root := root }, cs)

/-- The header of a table, or with double brackets of one table in a list. -/
def header? (r : Reading) (cs : List Char) : Option (Reading × List Char) := do
  let (isList, cs) := match cs with
    | '[' :: rest => (true, rest)
    | _ => (false, cs)
  let (path, cs) ← key? (skipGap cs)
  let cs ← expect? ']' (skipGap cs)
  let cs ← if isList then expect? ']' cs else pure cs
  pure (⟨← r.root.open? isList path, path⟩, cs)

/-- What a line says: nothing, a header or a pair. -/
def line? (r : Reading) (cs : List Char) : Option (Reading × List Char) :=
  match cs with
  | [] | '#' :: _ | '\n' :: _ | '\r' :: _ => some (r, cs)
  | '[' :: rest => header? r rest
  | _ => pair? r cs

/-- Reads line after line. -/
def linesRest : Nat → Reading → List Char → Option Reading
  | 0, _, _ => none
  | fuel + 1, r, cs => do
    let (r, cs) ← line? r (skipGap cs)
    let cs ← comment? (skipGap cs)
    match cs with
    | [] => pure r
    | _ => linesRest fuel r (← lineEnd? cs)

/-- A mark of the byte order may stand before a document. -/
def skipMark : List Char → List Char
  | [] => []
  | c :: cs => if c = Char.ofNat 0xFEFF then cs else c :: cs

def ofChars? (cs : List Char) : Option Entries :=
  (linesRest (cs.length + 1) ⟨[], []⟩ (skipMark cs)).map (·.root)

/-- The tables of a document, or nothing if it is not well-formed. -/
def parse? (text : String) : Option Entries := ofChars? text.toList

end IconCompiler.Toml
