import IconCompiler.Binary64.Printer

/-! Data that templates are filled with. -/

namespace IconCompiler.Template

/-- Names that lead from a record to a value inside it, outermost first. -/
abbrev Path := List String

inductive Data where
  | null
  | bool (b : Bool)
  | integer (n : Int)
  | decimal (x : Binary64)
  | text (s : String)
  | list (items : List Data)
  | record (fields : List (String × Data))

namespace Data

instance : Inhabited Data := ⟨null⟩

/-- The value at a path. -/
def at? (d : Data) : Path → Option Data
  | [] => some d
  | name :: path =>
    match d with
    | record fields =>
      match fields.lookup name with
      | some e => e.at? path
      | none => none
    | _ => none

/-- Whether a value counts as a yes: neither false nor null, zero, empty or NaN. -/
def holds : Data → Bool
  | null => false
  | bool b => b
  | integer n => n != 0
  | decimal x => !x.sameNumber (.zero false) && x != .nan
  | text s => !s.isEmpty
  | list items => !items.isEmpty
  | record fields => !fields.isEmpty

/-- A number with a point, also where it is whole. -/
def decimalText (x : Binary64) : String :=
  let digits := x.print
  String.ofList (if digits.contains '.' || !x.isFinite then digits else digits ++ ['.', '0'])

mutual

/-- How a value is written into a text. -/
def shown : Data → String
  | null => ""
  | bool b => if b then "true" else "false"
  | integer n => toString n
  | decimal x => decimalText x
  | text s => s
  | list items => "[" ++ ", ".intercalate (allShown items) ++ "]"
  | record _ => "[object]"

def allShown : List Data → List String
  | [] => []
  | d :: ds => d.shown :: allShown ds

end

/-- What a loop runs over, unless the value is no collection. -/
def items? : Data → Option (List Data)
  | list items => some items
  | record fields => some (fields.map Prod.snd)
  | _ => none

end Data

end IconCompiler.Template
