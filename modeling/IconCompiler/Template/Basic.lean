import IconCompiler.Template.Data

/-!
Templates: texts with places for values, parts that depend on a value, and parts that are repeated.
Filling is strict: a value or a loop over something that the data lack is a fault, while a condition
on it is false.
-/

namespace IconCompiler

namespace Template

/-- A part of a template. A block without an argument can be written but not filled. -/
inductive Part where
  | text (s : String)
  | value (path : Path)
  | choice (condition : Option Path) (yes no : List Part)
  | loop (list : Option Path) (body : List Part)
  | loopOr (list : Option Path) (body fallback : List Part)

/-- Why a template does not fit its data, or is none. -/
inductive Fault where
  | missing (path : Path)
  | noArgument
  | unreadable
  deriving DecidableEq

def Fault.message : Fault → String
  | missing path => "no value for " ++ ".".intercalate path
  | noArgument => "a block without an argument"
  | unreadable => "the template cannot be read"

/-- The argument of a block. -/
def argument : Option Path → Except Fault Path
  | some path => .ok path
  | none => .error .noArgument

/-- The texts for the items of a loop, one after the other. -/
def repeated (f : Data → Except Fault String) : List Data → Except Fault String
  | [] => .ok ""
  | d :: ds => do
    let s ← f d
    let rest ← repeated f ds
    pure (s ++ rest)

namespace Part

mutual

def fill (d : Data) : Part → Except Fault String
  | text s => .ok s
  | value path =>
    match d.at? path with
    | some v => .ok v.shown
    | none => .error (.missing path)
  | choice condition yes no => do
    let path ← argument condition
    if (d.at? path).any Data.holds then fillAll d yes else fillAll d no
  | loop list body => do
    let path ← argument list
    match (d.at? path).bind Data.items? with
    | some items => repeated (fun item => fillAll item body) items
    | none => .error (.missing path)
  | loopOr list body fallback => do
    let path ← argument list
    match (d.at? path).bind Data.items? with
    | some (item :: items) => repeated (fun item => fillAll item body) (item :: items)
    | _ => fillAll d fallback

def fillAll (d : Data) : List Part → Except Fault String
  | [] => .ok ""
  | p :: ps => do
    let s ← fill d p
    let rest ← fillAll d ps
    pure (s ++ rest)

end

end Part

end Template

abbrev Template := List Template.Part

/-- The text of a template filled with data. -/
def Template.render (t : Template) (d : Template.Data) : Except Template.Fault String :=
  Template.Part.fillAll d t

end IconCompiler
