import IconCompiler.Binary64.Reader

/-!
Reading literals of a script: arrays, objects, texts in single quotes and decimal numbers. A text is
cut into tokens by a machine that looks at one character at a time, and the tokens are read as one
literal. Keys of objects are bare names or texts.
-/

namespace IconCompiler.Script

/-- What a literal stands for. The entries of an object keep their order. -/
inductive Value where
  | number (x : Binary64)
  | text (s : String)
  | array (items : List Value)
  | object (entries : List (String × Value))

inductive Token where
  | mark (c : Char)
  | name (s : String)
  | number (x : Binary64)
  | text (s : String)

/-! ## Characters and words -/

def isBlank (c : Char) : Bool := c == ' ' || c == '\t' || c == '\n' || c == '\r'

def isMark (c : Char) : Bool := ['[', ']', '\x7b', '\x7d', ',', ':'].contains c

/-- Characters that may stand in a word. -/
def isWordChar (c : Char) : Bool := !isBlank c && !isMark c && c != '\''

/-- The character that stands for itself behind a backslash or has a letter there. -/
def unescape? : Char → Option Char
  | '\\' => some '\\'
  | '\'' => some '\''
  | 'n' => some '\n'
  | 'r' => some '\r'
  | _ => none

/-- ASCII letters, underscores and dollar signs, behind the first of which digits may stand. -/
def isName : List Char → Bool
  | [] => false
  | c :: cs =>
    (c.isAlpha || c == '_' || c == '$') && cs.all fun d => d.isAlphanum || d == '_' || d == '$'

/-- A whole number without needless zeros. -/
def isWhole : List Char → Bool
  | [] => false
  | c :: cs => Text.isDigit c && cs.all Text.isDigit && (c != '0' || cs.isEmpty)

/-- A whole number, perhaps with a point and digits behind it. -/
def isDecimal (cs : List Char) : Bool :=
  isWhole (cs.takeWhile (· != '.')) &&
    match cs.dropWhile (· != '.') with
    | [] => true
    | _ :: fraction => !fraction.isEmpty && fraction.all Text.isDigit

/-- A number without its minus sign. -/
def magnitude : List Char → List Char
  | '-' :: cs => cs
  | cs => cs

/-- The number nearest to a decimal that may have a minus sign. -/
def number? (cs : List Char) : Option Binary64 :=
  if isDecimal (magnitude cs) then Binary64.read? cs else none

def word? (cs : List Char) : Option Token :=
  if isName cs then some (.name (String.ofList cs)) else (number? cs).map .number

/-! ## Tokens -/

/-- Where the reader is: between two tokens, in a word, or in quotes, there perhaps just behind a
backslash. What it has read of a token stands in reverse. -/
inductive State where
  | between
  | inWord (read : List Char)
  | inQuotes (read : List Char)
  | behindBackslash (read : List Char)

/-- A character that does not belong to the token before it. -/
def start (c : Char) : State × List Token :=
  if isBlank c then (.between, [])
  else if isMark c then (.between, [.mark c])
  else if c = '\'' then (.inQuotes [], [])
  else (.inWord [c], [])

/-- The next character, and the tokens that end with it. A text goes over no line end. -/
def step : State → Char → Option (State × List Token)
  | .between, c => some (start c)
  | .inWord read, c =>
    if isWordChar c then some (.inWord (c :: read), [])
    else (word? read.reverse).map fun t => ((start c).1, t :: (start c).2)
  | .inQuotes read, c =>
    if c = '\'' then some (.between, [.text (String.ofList read.reverse)])
    else if c = '\\' then some (.behindBackslash read, [])
    else if c = '\n' ∨ c = '\r' then none
    else some (.inQuotes (c :: read), [])
  | .behindBackslash read, c => (unescape? c).map fun d => (.inQuotes (d :: read), [])

def run : State → List Char → Option (State × List Token)
  | s, [] => some (s, [])
  | s, c :: cs => do
    let (s₁, ts₁) ← step s c
    let (s₂, ts₂) ← run s₁ cs
    pure (s₂, ts₁ ++ ts₂)

/-- The tokens of a text that does not end inside one. -/
def tokens? (cs : List Char) : Option (List Token) :=
  match run .between cs with
  | some (.between, ts) => some ts
  | _ => none

/-! ## Literals -/

def key? : Token → Option String
  | .name s | .text s => some s
  | _ => none

mutual

/-- The literal at the front, and the tokens behind it. -/
def value? : Nat → List Token → Option (Value × List Token)
  | _ + 1, .number x :: ts => some (.number x, ts)
  | _ + 1, .text s :: ts => some (.text s, ts)
  | fuel + 1, .mark '[' :: ts => (items? fuel ts).map fun r => (.array r.1, r.2)
  | fuel + 1, .mark '\x7b' :: ts => (entries? fuel ts).map fun r => (.object r.1, r.2)
  | _, _ => none

/-- Literals up to a closing bracket, with commas between them. -/
def items? : Nat → List Token → Option (List Value × List Token)
  | 0, _ => none
  | _ + 1, .mark ']' :: ts => some ([], ts)
  | fuel + 1, ts =>
    match value? fuel ts with
    | some (v, .mark ',' :: ts) => (items? fuel ts).map fun r => (v :: r.1, r.2)
    | some (v, .mark ']' :: ts) => some ([v], ts)
    | _ => none

/-- Keys with literals up to a closing brace, with commas between them. -/
def entries? : Nat → List Token → Option (List (String × Value) × List Token)
  | _ + 1, .mark '\x7d' :: ts => some ([], ts)
  | fuel + 1, t :: .mark ':' :: ts => do
    let key ← key? t
    match value? fuel ts with
    | some (v, .mark ',' :: ts) => (entries? fuel ts).map fun r => ((key, v) :: r.1, r.2)
    | some (v, .mark '\x7d' :: ts) => some ([(key, v)], ts)
    | _ => none
  | _, _ => none

end

/-- Reads a text that is one literal in full. -/
def read? (text : String) : Option Value := do
  let ts ← tokens? text.toList
  match value? ts.length ts with
  | some (v, []) => some v
  | _ => none

end IconCompiler.Script
