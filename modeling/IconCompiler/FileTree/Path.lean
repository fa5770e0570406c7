import IconCompiler.Text.Search

/-! Paths as texts. Nothing in a path is normalised when paths are joined. -/

namespace IconCompiler.Path

def isAbsolute (p : String) : Bool := p.toList.head? == some '/'

/-- A slash at the end asks for a directory. -/
def endsInSlash (p : String) : Bool := p.toList.getLast? == some '/'

/-- `p` as seen from `base`. -/
def join (base p : String) : String :=
  if isAbsolute p then p
  else if base.isEmpty || endsInSlash base then base ++ p
  else base ++ "/" ++ p

/-- The texts between the slashes. -/
def pieces (p : String) : List String :=
  (Text.splitAt (· == '/') p.toList).map String.ofList

/-- The pieces up to the last one that names something. A point does so only at the front. -/
def named : List String → List String
  | [] => []
  | p :: ps =>
    let rest := (ps.reverse.dropWhile fun q => q = "" ∨ q = ".").reverse
    if rest.isEmpty && p.isEmpty then [] else p :: rest

/-- The path without its last part, none of a path that has no parts. -/
def parent? (p : String) : Option String :=
  match (named (pieces p)).reverse with
  | [] => none
  | _ :: front =>
    let up := "/".intercalate (named front.reverse)
    some (if up.isEmpty && isAbsolute p then "/" else up)

/-- What follows the last point of a file name that has something before that point. -/
def extension? (fileName : String) : Option String :=
  let back := fileName.toList.reverse
  match back.dropWhile (· != '.') with
  | [] | [_] => none
  | _ :: _ :: _ =>
    if fileName = ".." then none else some (String.ofList (back.takeWhile (· != '.')).reverse)

/-- The steps from one directory to another that a path asks for. -/
def steps (p : String) : List String := (pieces p).filter (· ≠ "")

/-- The steps of a path as far as they name something: a point does so only at the front. -/
def parts (p : String) : List String :=
  match pieces p with
  | [] => []
  | first :: rest => (first :: rest.filter (· ≠ ".")).filter (· ≠ "")

/-- Whether two paths are spelt alike but for needless slashes and points. -/
def same (p q : String) : Bool := isAbsolute p == isAbsolute q && parts p == parts q

end IconCompiler.Path
