import IconCompiler.Text.Letter

/-!
The words of a name. A word ends at a separator, which belongs to no word, and between two
characters of which the second starts something new: a capital after a small letter, a digit after
a letter, a letter after a digit, and the last of several capitals when a small letter follows it.
-/

namespace IconCompiler.Text

def isSeparator (c : Char) : Bool := c == '_' || c == '-' || c == ' '

/-- Whether a word ends between `c` and the characters after it. -/
def endsWord (c : Char) (rest : List Char) : Bool :=
  match rest with
  | [] => false
  | d :: after =>
    (isSmall c && isCapital d) || (isSmall c && d.isDigit) || (isCapital c && d.isDigit) ||
      (c.isDigit && isSmall d) || (c.isDigit && isCapital d) ||
      (isCapital c && isCapital d && after.head?.any isSmall)

/-- The words of a text, in front of which `word` stands in reverse. Empty words count. -/
def wordsAfter (word : List Char) : List Char → List (List Char)
  | [] => [word.reverse]
  | c :: rest =>
    if isSeparator c then word.reverse :: wordsAfter [] rest
    else if endsWord c rest then (c :: word).reverse :: wordsAfter [] rest
    else wordsAfter (c :: word) rest

def words (cs : List Char) : List (List Char) := wordsAfter [] cs

/-- The words of a name in small letters, joined by hyphens. -/
def hyphenated (name : String) : String :=
  String.ofList (['-'].intercalate ((words name.toList).map (smallAfter false)))

end IconCompiler.Text
