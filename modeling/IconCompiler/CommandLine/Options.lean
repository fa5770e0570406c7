import IconCompiler.Table

/-!
Reading the options of a command from its arguments. An option has a long name and may have a
letter; a value follows it as the next argument, after an equals sign, or right after the letter.
Letters may stand together behind one hyphen.
-/

namespace IconCompiler

/-- Why reading the arguments ends without a command. -/
inductive Stop where
  | help
  | version
  | misuse
  deriving DecidableEq

inductive OptionKind where
  | switch
  | text
  /-- A text that is not empty. -/
  | path
  | stop (s : Stop)
  deriving DecidableEq

structure OptionForm where
  name : String
  letter : Option Char
  kind : OptionKind
  deriving DecidableEq

/-- The options that were given, by name. A switch has the empty text. -/
abbrev Settings := Table String String

namespace OptionForm

def takesValue (f : OptionForm) : Bool := f.kind = .text || f.kind = .path

/-- Enters the value of an option, which may be given only once. -/
def enter (f : OptionForm) (s : Settings) (value : String) : Except Stop Settings :=
  if s.has f.name || (f.kind = .path && value.isEmpty) then .error .misuse
  else .ok (s.put f.name value)

/-- Gives an option that takes no value. -/
def give (f : OptionForm) (s : Settings) : Except Stop Settings :=
  match f.kind with
  | .stop reason => .error reason
  | _ => f.enter s ""

end OptionForm

/-- What an argument is, by its looks alone. -/
inductive Argument where
  | plain
  /-- The two hyphens after which there are no options. -/
  | last
  | long (name : List Char) (value : Option (List Char))
  | letters (cs : List Char)
  deriving DecidableEq

def Argument.of : List Char → Argument
  | ['-', '-'] => .last
  | '-' :: '-' :: cs =>
    .long (cs.takeWhile (· != '=')) (match cs.dropWhile (· != '=') with
      | _ :: value => some value
      | [] => none)
  | '-' :: c :: cs => .letters (c :: cs)
  | _ => .plain

/-- An option by its long name, with the value after an equals sign if there is one. -/
def readLong (forms : List OptionForm) (s : Settings) (name : List Char)
    (value : Option (List Char)) : Except Stop (Settings × Option OptionForm) :=
  match forms.find? (·.name.toList = name), value with
  | none, _ => .error .misuse
  | some f, none =>
    if f.takesValue then .ok (s, some f) else (f.give s).map (·, none)
  | some f, some value =>
    if f.takesValue then (f.enter s (String.ofList value)).map (·, none) else .error .misuse

/-- Options by their letters. What follows the letter of an option with a value is the value. -/
def readLetters (forms : List OptionForm) (s : Settings) :
    List Char → Except Stop (Settings × Option OptionForm)
  | [] => .ok (s, none)
  | c :: cs =>
    match forms.find? (·.letter = some c) with
    | none => .error .misuse
    | some f =>
      if f.takesValue then
        match cs with
        | [] => .ok (s, some f)
        | '=' :: value => (f.enter s (String.ofList value)).map (·, none)
        | value => (f.enter s (String.ofList value)).map (·, none)
      else do readLetters forms (← f.give s) cs

/-- Reads options up to the first argument that is none, which is left with all that follows.
`waiting` is the option that the next argument is the value of. -/
def readOptions (forms : List OptionForm) (s : Settings) (waiting : Option OptionForm) :
    List String → Except Stop (Settings × List String)
  | [] => if waiting.isSome then .error .misuse else .ok (s, [])
  | a :: rest =>
    match Argument.of a.toList, waiting with
    | .plain, some f => do readOptions forms (← f.enter s a) none rest
    | .plain, none => .ok (s, a :: rest)
    | _, some _ => .error .misuse
    | .last, none => if rest.isEmpty then .ok (s, []) else .error .misuse
    | .long name value, none => do
      let (s, waiting) ← readLong forms s name value
      readOptions forms s waiting rest
    | .letters cs, none => do
      let (s, waiting) ← readLetters forms s cs
      readOptions forms s waiting rest

end IconCompiler
