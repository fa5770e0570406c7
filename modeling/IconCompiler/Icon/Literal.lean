import IconCompiler.Icon.AttributeName
import IconCompiler.Icon.Node

/-!
The literal of an icon: a list of arrays `['element', { key: value }, [children]]`, one node a line,
children indented by two. Keys that are identifiers stand bare, other keys and all texts in single
quotes.
-/

namespace IconCompiler

/-- Whether the keys of a literal are folded names or the spelling of SVG. -/
inductive KeyStyle where
  | camel
  | kebab
  deriving DecidableEq

def KeyStyle.key : KeyStyle → String → String
  | camel, name => name
  | kebab, name => AttributeName.unfold name

namespace Literal

/-- A character inside single quotes: the quote, the backslash and line ends have escapes. -/
def escape (c : Char) : List Char :=
  if c = '\\' then ['\\', '\\']
  else if c = '\'' then ['\\', '\'']
  else if c = '\n' then ['\\', 'n']
  else if c = '\r' then ['\\', 'r']
  else [c]

def quoted (s : String) : String :=
  String.ofList ('\'' :: s.toList.flatMap escape ++ ['\''])

def startsIdentifier (c : Char) : Bool := c.isAlpha || c == '_' || c == '$'

def continuesIdentifier (c : Char) : Bool := c.isAlphanum || c == '_' || c == '$'

def isIdentifier : List Char → Bool
  | [] => false
  | c :: cs => startsIdentifier c && cs.all continuesIdentifier

def key (name : String) : String := if isIdentifier name.toList then name else quoted name

def value : AttrValue → String
  | .number x => x.toText
  | .text s => quoted s
  | .parameter p => quoted p.placeholder

def entry (style : KeyStyle) (e : String × AttrValue) : String :=
  key (style.key e.1) ++ ": " ++ value e.2

def attributes (style : KeyStyle) (as : Attributes) : String :=
  if as.isEmpty then "\x7b\x7d"
  else "\x7b " ++ ", ".intercalate (as.entries.map (entry style)) ++ " \x7d"

def spaces (n : Nat) : String := String.ofList (List.replicate n ' ')

mutual

def node (style : KeyStyle) (indent : Nat) : Node → String
  | .leaf e as => spaces indent ++ "['" ++ e.name ++ "', " ++ attributes style as ++ "]"
  | .branch e as [] => spaces indent ++ "['" ++ e.name ++ "', " ++ attributes style as ++ "]"
  | .branch e as (c :: cs) =>
    spaces indent ++ "['" ++ e.name ++ "', " ++ attributes style as ++ ", [\n" ++
      ",\n".intercalate (nodes style (indent + 2) (c :: cs)) ++ "\n" ++ spaces indent ++ "]]"

def nodes (style : KeyStyle) (indent : Nat) : List Node → List String
  | [] => []
  | n :: ns => node style indent n :: nodes style indent ns

end

/-- The nodes of an icon, one after the other. -/
def icon (style : KeyStyle) (indent : Nat) (icon : Icon) : String :=
  ",\n".intercalate (nodes style indent icon)

end Literal

end IconCompiler
