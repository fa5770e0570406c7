import IconCompiler.Binary64.Reader
import IconCompiler.Text.Search
import IconCompiler.Toml.Value

/-! Keys, strings, numbers, truth values and moments as TOML writes them. Each reader takes its
piece off the front of a text, or finds none. -/

namespace IconCompiler.Toml

open Text

abbrev Reader (α : Type) := List Char → Option (α × List Char)

def isGap (c : Char) : Bool := c == ' ' || c == '\t'

/-- Control characters other than the tab. -/
def isControl (c : Char) : Bool := (c.toNat < 0x20 && c != '\t') || c.toNat == 0x7F

def skipGap (cs : List Char) : List Char := cs.dropWhile isGap

/-- Takes a line end off, if there is one. -/
def lineEnd? : List Char → Option (List Char)
  | '\n' :: cs => some cs
  | '\r' :: '\n' :: cs => some cs
  | _ => none

/-! ## Strings -/

/-- A character by its number in hexadecimal digits. -/
def unicode? (count : Nat) : Reader Char := fun cs =>
  let ds := cs.take count
  let code := readNat 16 ds
  if ds.length = count ∧ ds.all (fun c => (digitValue? 16 c).isSome) ∧ code.isValidChar then
    some (Char.ofNat code, cs.drop count)
  else none

/-- The character that an escape stands for, after the backslash. -/
def escape? : Reader Char
  | [] => none
  | c :: cs =>
    match c with
    | 'b' => some (Char.ofNat 8, cs)
    | 't' => some ('\t', cs)
    | 'n' => some ('\n', cs)
    | 'f' => some (Char.ofNat 12, cs)
    | 'r' => some ('\r', cs)
    | '"' => some ('"', cs)
    | '\\' => some ('\\', cs)
    | 'u' => unicode? 4 cs
    | 'U' => unicode? 8 cs
    | _ => none

/-- The rest of a string on one line, `read` being what is read of it in reverse. -/
def shortRest (quote : Char) (escapes : Bool) : Nat → List Char → Reader String
  | 0, _, _ => none
  | _, _, [] => none
  | fuel + 1, read, c :: cs =>
    if c = quote then some (String.ofList read.reverse, cs)
    else if c = '\\' ∧ escapes then do
      let (d, cs) ← escape? cs
      shortRest quote escapes fuel (d :: read) cs
    else if isControl c then none
    else shortRest quote escapes fuel (c :: read) cs

/-- Blanks and line ends. -/
def skipLines (cs : List Char) : List Char :=
  cs.dropWhile fun c => isGap c || c == '\n' || c == '\r'

/-- The rest of a string of several lines. Up to two quotes may stand before the closing three. -/
def longRest (quote : Char) (escapes : Bool) : Nat → List Char → Reader String
  | 0, _, _ => none
  | _, _, [] => none
  | fuel + 1, read, c :: cs =>
    if [quote, quote, quote].isPrefixOf (c :: cs) then
      let extra := ((cs.drop 2).take 2).takeWhile (· == quote)
      some (String.ofList (read.reverse ++ extra), cs.drop (2 + extra.length))
    else if c = '\\' ∧ escapes then
      match lineEnd? (skipGap cs) with
      | some rest => longRest quote escapes fuel read (skipLines rest)
      | none => do
        let (d, cs) ← escape? cs
        longRest quote escapes fuel (d :: read) cs
    else match lineEnd? (c :: cs) with
      | some rest => longRest quote escapes fuel ('\n' :: read) rest
      | none => if isControl c then none else longRest quote escapes fuel (c :: read) cs

/-- A string on one line, in either kind of quotes. -/
def short? : Reader String
  | '"' :: cs => shortRest '"' true (cs.length + 1) [] cs
  | '\'' :: cs => shortRest '\'' false (cs.length + 1) [] cs
  | _ => none

/-- A string in quotes, single or triple. -/
def string? (cs : List Char) : Option (String × List Char) :=
  let long (quote : Char) (escapes : Bool) (rest : List Char) :=
    longRest quote escapes (rest.length + 1) [] ((lineEnd? rest).getD rest)
  match cs with
  | '"' :: '"' :: '"' :: rest => long '"' true rest
  | '\'' :: '\'' :: '\'' :: rest => long '\'' false rest
  | _ => short? cs

/-! ## Keys -/

def isKeyChar (c : Char) : Bool := c.isAlphanum || c == '_' || c == '-'

def simpleKey? (cs : List Char) : Option (String × List Char) :=
  match cs with
  | '"' :: _ | '\'' :: _ => short? cs
  | _ =>
    let name := cs.takeWhile isKeyChar
    if name.isEmpty then none else some (String.ofList name, cs.drop name.length)

def keyRest : Nat → List String → Reader (List String)
  | 0, _, _ => none
  | fuel + 1, read, cs => do
    let (name, cs) ← simpleKey? cs
    match skipGap cs with
    | '.' :: rest => keyRest fuel (name :: read) (skipGap rest)
    | _ => pure ((name :: read).reverse, cs)

/-- Simple keys joined by points. -/
def key? (cs : List Char) : Option (List String × List Char) := keyRest (cs.length + 1) [] cs

/-! ## Numbers and moments -/

/-- Digits with single underscores between them. -/
def digitGroups? (isDigit : Char → Bool) (cs : List Char) : Option (List Char) :=
  let groups := splitAt (· == '_') cs
  if groups.all fun g => !g.isEmpty && g.all isDigit then some groups.flatten else none

/-- A number without a sign and without needless zeros in front. -/
def wholePart? (cs : List Char) : Option Nat := do
  let ds ← digitGroups? isDigit cs
  if 1 < ds.length ∧ ds.head? = some '0' then none else pure (readNat 10 ds)

/-- Whether an integer fits into 128 bits, with a sign or without. -/
def inRange (n : Int) : Bool := -(Nat.pow 2 127 : Nat) ≤ n && n < (Nat.pow 2 128 : Nat)

def based? (base : Nat) (cs : List Char) : Option Value := do
  let ds ← digitGroups? (fun c => (digitValue? base c).isSome) cs
  let n : Int := readNat base ds
  if inRange n then pure (.integer n) else none

def integer? (cs : List Char) : Option Value :=
  match cs with
  | '0' :: 'x' :: ds => based? 16 ds
  | '0' :: 'o' :: ds => based? 8 ds
  | '0' :: 'b' :: ds => based? 2 ds
  | _ => do
    let (negative, ds) := Binary64.takeSign cs
    let n ← wholePart? ds
    let n : Int := if negative then -n else n
    if inRange n then pure (.integer n) else none

/-- A number with a point or a power of ten, or the word for one that is not finite. A finite one
may not be beyond the range. -/
def decimal? (text : List Char) : Option Value := do
  let x ← Binary64.read? (text.filter (· != '_'))
  let cs := (Binary64.takeSign text).2
  if cs = "inf".toList ∨ cs = "nan".toList then pure (.decimal x)
  else
    let isMark (c : Char) : Bool := c == 'e' || c == 'E'
    let front := cs.takeWhile (!isMark ·)
    let power := cs.dropWhile (!isMark ·)
    let whole := front.takeWhile (· != '.')
    let fraction := front.dropWhile (· != '.')
    let _ ← wholePart? whole
    if !fraction.isEmpty then
      let _ ← digitGroups? isDigit (fraction.drop 1)
    if !power.isEmpty then
      let _ ← digitGroups? isDigit (Binary64.takeSign (power.drop 1)).2
    if (fraction.isEmpty && power.isEmpty) || !x.isFinite then none else pure (.decimal x)

/-- A number of exactly as many digits as asked for, between two limits. -/
def field? (count low high : Nat) : Reader Nat := fun cs =>
  let ds := cs.take count
  let n := readNat 10 ds
  if ds.length = count ∧ ds.all isDigit ∧ low ≤ n ∧ n ≤ high then some (n, cs.drop count) else none

def expect? (c : Char) : List Char → Option (List Char)
  | d :: cs => if d = c then some cs else none
  | [] => none

def daysIn (year month : Nat) : Nat :=
  if month = 2 then
    if year % 4 = 0 ∧ (year % 100 ≠ 0 ∨ year % 400 = 0) then 29 else 28
  else if month ∈ [4, 6, 9, 11] then 30 else 31

def date? (cs : List Char) : Option (List Char) := do
  let (year, cs) ← field? 4 0 9999 cs
  let (month, cs) ← field? 2 1 12 (← expect? '-' cs)
  let (_, cs) ← field? 2 1 (daysIn year month) (← expect? '-' cs)
  pure cs

def time? (cs : List Char) : Option (List Char) := do
  let (_, cs) ← field? 2 0 23 cs
  let (_, cs) ← field? 2 0 59 (← expect? ':' cs)
  let (_, cs) ← field? 2 0 60 (← expect? ':' cs)
  match cs with
  | '.' :: rest =>
    if rest.head?.any isDigit then pure (rest.dropWhile isDigit) else none
  | _ => pure cs

def offset? : List Char → Option (List Char)
  | [] => some []
  | c :: cs =>
    if c = 'Z' ∨ c = 'z' then some cs
    else if c = '+' ∨ c = '-' then do
      let (_, cs) ← field? 2 0 23 cs
      let (_, cs) ← field? 2 0 59 (← expect? ':' cs)
      pure cs
    else none

/-- A date, a time of day, or both with an offset if there is one. -/
def moment? (cs : List Char) : Option Value := do
  let rest ←
    match date? cs with
    | none => time? cs
    | some [] => pure []
    | some (c :: rest) =>
      if c = 'T' ∨ c = 't' ∨ c = ' ' then do offset? (← time? rest) else none
  if rest.isEmpty then pure .moment else none

def isBareChar (c : Char) : Bool :=
  c.isAlphanum || c == '+' || c == '-' || c == '_' || c == '.' || c == ':'

/-- The word that a value without quotes or brackets is written as. A date may be followed by a
space and a time. -/
def bareWord (cs : List Char) : List Char :=
  let word := cs.takeWhile isBareChar
  match cs.drop word.length with
  | ' ' :: rest =>
    if date? word = some [] ∧ rest.head?.any isDigit then
      word ++ ' ' :: rest.takeWhile isBareChar
    else word
  | _ => word

def ofBareWord? (word : List Char) : Option Value :=
  if word = "true".toList then some (.bool true)
  else if word = "false".toList then some (.bool false)
  else (integer? word).or ((decimal? word).or (moment? word))

end IconCompiler.Toml
