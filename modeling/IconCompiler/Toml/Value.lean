import IconCompiler.Binary64.Basic

/-!
TOML values, and the tables that the lines of a document build. A table remembers how it came to
be, since that decides what may be added to it later.
-/

namespace IconCompiler.Toml

/-- How a table came to be: as part of the path of a header, under a header of its own, or as part
of a dotted key. -/
inductive Origin where
  | implicit
  | header
  | dotted
  deriving DecidableEq

inductive Value where
  | text (s : String)
  | integer (n : Int)
  | decimal (x : Binary64)
  | moment
  | bool (b : Bool)
  | list (items : List Value)
  | inline (entries : List (String × Value))
  | table (origin : Origin) (entries : List (String × Value))
  | tables (elements : List (List (String × Value)))

abbrev Entries := List (String × Value)

namespace Entries

/-- Puts a value in the place of the one that a key has. -/
def replace (es : Entries) (key : String) (value : Value) : Entries :=
  es.map fun e => if e.1 = key then (key, value) else e

/-- Adds a key that is not there yet. -/
def add? (key : String) (value : Value) (es : Entries) : Option Entries :=
  if (es.lookup key).isSome then none else some (es ++ [(key, value)])

/-- Changes the table at the end of a path, the tables on the way being made where they are
missing. A list of tables stands for its last one. A dotted path may not lead into a table that has
a header of its own. -/
def alter? (dotted : Bool) (f : Entries → Option Entries) : List String → Entries → Option Entries
  | [], es => f es
  | key :: path, es =>
    match es.lookup key with
    | none => do
      let sub ← alter? dotted f path []
      pure (es ++ [(key, .table (if dotted then .dotted else .implicit) sub)])
    | some (.table origin sub) =>
      if dotted ∧ origin = .header then none
      else do
        let sub ← alter? dotted f path sub
        pure (es.replace key (.table origin sub))
    | some (.tables elements) =>
      match elements.reverse with
      | [] => none
      | last :: others => do
        let last ← alter? dotted f path last
        pure (es.replace key (.tables (last :: others).reverse))
    | some _ => none

/-- Gives a table its header. -/
def define? (key : String) (es : Entries) : Option Entries :=
  match es.lookup key with
  | none => some (es ++ [(key, .table .header [])])
  | some (.table .implicit sub) => some (es.replace key (.table .header sub))
  | some _ => none

/-- Adds a table to a list of tables. -/
def extend? (key : String) (es : Entries) : Option Entries :=
  match es.lookup key with
  | none => some (es ++ [(key, .tables [[]])])
  | some (.tables elements) => some (es.replace key (.tables (elements ++ [[]])))
  | some _ => none

/-- Adds the value of a dotted key. -/
def addDotted? (path : List String) (value : Value) (es : Entries) : Option Entries :=
  match path.getLast? with
  | some key => es.alter? true (add? key value) path.dropLast
  | none => none

/-- Follows a header of one kind or the other. -/
def open? (isList : Bool) (path : List String) (es : Entries) : Option Entries :=
  match path.getLast? with
  | some key => es.alter? false (if isList then extend? key else define? key) path.dropLast
  | none => none

end Entries

end IconCompiler.Toml
