/-! Finding and replacing pieces of a text. -/

namespace IconCompiler.Text

/-- Whether `piece` stands somewhere in the text. -/
def contains (piece : List Char) : List Char → Bool
  | [] => piece.isEmpty
  | c :: cs => piece.isPrefixOf (c :: cs) || contains piece cs

/-- Replaces from left to right, after `skip` characters that a match has already taken.
An empty `old` matches before every character and at the end. -/
def replaceAfter (old new : List Char) : Nat → List Char → List Char
  | _, [] => if old.isEmpty then new else []
  | skip + 1, _ :: cs => replaceAfter old new skip cs
  | 0, c :: cs =>
    if old.isEmpty then new ++ c :: replaceAfter old new 0 cs
    else if old.isPrefixOf (c :: cs) then new ++ replaceAfter old new (old.length - 1) cs
    else c :: replaceAfter old new 0 cs

/-- The text with every occurrence of `old` replaced by `new`. -/
def replaceAll (old new : String) (text : String) : String :=
  String.ofList (replaceAfter old.toList new.toList 0 text.toList)

/-- The pieces between the separators, one more than there are separators. -/
def splitAt (isSeparator : Char → Bool) : List Char → List (List Char)
  | [] => [[]]
  | c :: cs =>
    if isSeparator c then [] :: splitAt isSeparator cs
    else match splitAt isSeparator cs with
      | [] => [[c]]
      | piece :: pieces => (c :: piece) :: pieces

/-- Each line followed by a line feed. -/
def lines (ls : List String) : String :=
  String.join (ls.map (· ++ "\n"))

end IconCompiler.Text
