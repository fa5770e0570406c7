import IconCompiler.Template.Basic
import IconCompiler.Text.Search

/-!
Templates as they are written: tags in double braces among literal text. A tag of a block that
stands alone on its line takes the line with it.
-/

namespace IconCompiler.Template

/-- What stands in a pair of double braces. -/
inductive Tag where
  | value (path : Path)
  | openChoice (condition : Option Path)
  | openLoop (list : Option Path)
  | otherwise
  | closeChoice
  | closeLoop

/-- Literal text, or a tag and whether it stands alone on its line. -/
inductive Lexeme where
  | text (cs : List Char)
  | tag (t : Tag) (alone : Bool)

namespace Source

def isGap (c : Char) : Bool := c == ' ' || c == '\t'

def isLineEnd (c : Char) : Bool := c == '\n' || c == '\r'

def isTagSpace (c : Char) : Bool := isGap c || isLineEnd c

def isNameChar (c : Char) : Bool :=
  c.isAlphanum || c == '_' || c == '-' || c == '$' || 0x80 ≤ c.toNat

/-- Names joined by points; `this` stands for the data themselves. -/
def path? (cs : List Char) : Option Path :=
  let names := Text.splitAt (· == '.') cs
  if names.all fun n => !n.isEmpty && n.all isNameChar then
    match names.map String.ofList with
    | "this" :: path => some path
    | path => some path
  else none

/-- The words of a tag. -/
def tagWords (cs : List Char) : List (List Char) :=
  (Text.splitAt isTagSpace cs).filter (!·.isEmpty)

/-- The argument of a block, which may be missing. -/
def argument? : List (List Char) → Option (Option Path)
  | [] => some none
  | [w] => (path? w).map some
  | _ => none

def tag? (cs : List Char) : Option Tag :=
  match tagWords cs with
  | [] => none
  | w :: ws =>
    if w = "#if".toList then (argument? ws).map .openChoice
    else if w = "#each".toList then (argument? ws).map .openLoop
    else if !ws.isEmpty then none
    else if w = "/if".toList then some .closeChoice
    else if w = "/each".toList then some .closeLoop
    else if w = "else".toList then some .otherwise
    else (path? w).map .value

def Tag.isBlock : Tag → Bool
  | .value _ => false
  | _ => true

/-- Whether a tag stands alone between what is before it, in reverse, and what is after it. -/
def standsAlone (before after : List Char) : Bool :=
  (before.dropWhile isGap).head?.all isLineEnd &&
    (after.isEmpty || (after.dropWhile isGap).head?.any isLineEnd)

/-- The characters before the first closing braces, and those after them. -/
def splitAtClose? : List Char → Option (List Char × List Char)
  | '}' :: '}' :: cs => some ([], cs)
  | c :: cs => (splitAtClose? cs).map fun r => (c :: r.1, r.2)
  | [] => none

/-- Cuts a source into lexemes. `before` is all that is already read and `literal` the text since
the last tag, both in reverse. -/
def lexemesRest : Nat → List Char → List Char → List Char → Option (List Lexeme)
  | 0, _, literal, _ => some [.text literal.reverse]
  | _, _, literal, [] => some [.text literal.reverse]
  | fuel + 1, before, literal, c :: cs =>
    match c, cs with
    | '{', '{' :: inner => do
      let (body, after) ← splitAtClose? inner
      let t ← tag? body
      let alone := Tag.isBlock t && standsAlone before after
      let read := (c :: '{' :: body ++ ['}', '}']).reverse ++ before
      let rest ← lexemesRest fuel read [] after
      pure (.text literal.reverse :: .tag t alone :: rest)
    | _, _ => lexemesRest fuel (c :: before) (c :: literal) cs

def lexemes? (cs : List Char) : Option (List Lexeme) := lexemesRest (cs.length + 1) [] [] cs

/-- The text without the blanks at its end. -/
def dropGapEnd (cs : List Char) : List Char := (cs.reverse.dropWhile isGap).reverse

/-- The text without the rest of the line that it begins with. -/
def dropLineStart (cs : List Char) : List Char :=
  match cs.dropWhile isGap with
  | '\n' :: rest => rest
  | '\r' :: '\n' :: rest => rest
  | rest => rest

def standsBefore : List Lexeme → Bool
  | .tag _ alone :: _ => alone
  | _ => false

/-- Takes the lines of tags that stand alone out of the literal texts. -/
def withoutTagLines (afterAlone : Bool) : List Lexeme → List Lexeme
  | [] => []
  | .tag t alone :: ls => .tag t alone :: withoutTagLines alone ls
  | .text cs :: ls =>
    let cs := if afterAlone then dropLineStart cs else cs
    let cs := if standsBefore ls then dropGapEnd cs else cs
    .text cs :: withoutTagLines false ls

/-- A block whose end has not come: what it is, the parts before it in reverse, and the parts of
its first branch when the second has begun. -/
structure OpenBlock where
  isLoop : Bool
  path : Option Path
  outer : List Part
  first : Option (List Part)

def OpenBlock.close (b : OpenBlock) (last : List Part) : Part :=
  match b.isLoop, b.first with
  | false, none => .choice b.path last []
  | false, some yes => .choice b.path yes last
  | true, none => .loop b.path last
  | true, some body => .loopOr b.path body last

/-- Builds parts from lexemes, given the open blocks and the parts of the innermost in reverse. -/
def assemble : List OpenBlock → List Part → List Lexeme → Option (List Part)
  | [], parts, [] => some parts.reverse
  | _ :: _, _, [] => none
  | blocks, parts, .text cs :: ls =>
    assemble blocks (if cs.isEmpty then parts else .text (String.ofList cs) :: parts) ls
  | blocks, parts, .tag t _ :: ls =>
    match t, blocks with
    | .value path, _ => assemble blocks (.value path :: parts) ls
    | .openChoice path, _ => assemble (⟨false, path, parts, none⟩ :: blocks) [] ls
    | .openLoop path, _ => assemble (⟨true, path, parts, none⟩ :: blocks) [] ls
    | .otherwise, b :: bs =>
      if b.first.isSome then none
      else assemble ({ b with first := some parts.reverse } :: bs) [] ls
    | .closeChoice, b :: bs =>
      if b.isLoop then none else assemble bs (b.close parts.reverse :: b.outer) ls
    | .closeLoop, b :: bs =>
      if b.isLoop then assemble bs (b.close parts.reverse :: b.outer) ls else none
    | _, [] => none

end Source

/-- Reads a template. -/
def parse? (source : String) : Option (List Part) :=
  (Source.lexemes? source.toList).bind fun ls =>
    Source.assemble [] [] (Source.withoutTagLines false ls)

end IconCompiler.Template
