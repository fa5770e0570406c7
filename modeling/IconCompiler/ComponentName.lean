import IconCompiler.Text.Escaped
import IconCompiler.Text.Letter
import IconCompiler.Text.Search

/-!
Names of components from names of files: the stem in Pascal case, changed by a transform if there is
one, between a prefix and a suffix.
-/

namespace IconCompiler

namespace ComponentName

/-- A hyphen or underscore goes, and the character after it becomes a capital. One before a line
end or at the end of the text stays. -/
def joinWords : List Char → List Char
  | [] => []
  | [c] => [c]
  | c :: d :: cs =>
    if c = '-' ∨ c = '_' then
      if d = '\n' then c :: d :: joinWords cs else Text.capital d ++ joinWords cs
    else c :: joinWords (d :: cs)

def capitalizeFirst : List Char → List Char
  | [] => []
  | c :: cs => Text.capital c ++ cs

/-- The Pascal case of a text: ASCII letters and digits only. -/
def pascalChars (cs : List Char) : List Char :=
  (capitalizeFirst (joinWords cs)).filter Char.isAlphanum

def pascal (text : String) : String := String.ofList (pascalChars text.toList)

/-- What names files end in. -/
def sourceExtension : String := ".svg"

/-- The name of a file without its extension. -/
def stem (fileName : String) : String :=
  match sourceExtension.toList.isSuffixOf? fileName.toList with
  | some cs => String.ofList cs
  | none => fileName

/-- A letter or underscore, then letters, digits and underscores, all ASCII. -/
def isValidChars : List Char → Bool
  | [] => false
  | c :: cs => (c.isAlpha || c == '_') && cs.all fun c => c.isAlphanum || c == '_'

def isValid (name : String) : Bool := isValidChars name.toList

end ComponentName

structure NamingOptions where
  namePrefix : String
  nameSuffix : String
  transform : Option (String → String)

namespace NamingOptions

/-- The name of the component for a file. -/
def componentName (o : NamingOptions) (fileName : String) : String :=
  let name := ComponentName.pascal (ComponentName.stem fileName)
  o.namePrefix ++ (o.transform.getD id) name ++ o.nameSuffix

/-- The options in one line. -/
def describe (o : NamingOptions) : String :=
  "NamingOptions \x7b prefix: " ++ Text.escaped '"' o.namePrefix.toList ++ ", suffix: " ++
    Text.escaped '"' o.nameSuffix.toList ++ ", transform: " ++
    (if o.transform.isSome then "true" else "false") ++ " \x7d"

end NamingOptions

end IconCompiler
