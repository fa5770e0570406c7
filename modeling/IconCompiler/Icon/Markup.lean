import IconCompiler.Icon.AttributeName
import IconCompiler.Icon.Node

/-! SVG markup of an icon, with values given to its parameters. -/

namespace IconCompiler

/-- Values for the parameters, and the size that the drawing is shown at. -/
structure MarkupOptions where
  color : String
  strokeWidth : Binary64
  size : Nat

def MarkupOptions.standard : MarkupOptions := ⟨"currentColor", Binary64.two, 24⟩

namespace Markup

/-- A character inside double quotes. -/
def escape (c : Char) : List Char :=
  match c with
  | '&' => "&amp;".toList
  | '<' => "&lt;".toList
  | '>' => "&gt;".toList
  | '"' => "&quot;".toList
  | _ => [c]

def escaped (s : String) : String := String.ofList (s.toList.flatMap escape)

def value (options : MarkupOptions) : AttrValue → String
  | .number x => x.toText
  | .text s => s
  | .parameter .color => options.color
  | .parameter .strokeWidth => options.strokeWidth.toText

def entry (options : MarkupOptions) (e : String × AttrValue) : String :=
  " " ++ AttributeName.unfold e.1 ++ "=\"" ++ escaped (value options e.2) ++ "\""

def attributes (options : MarkupOptions) (as : Attributes) : String :=
  String.join (as.entries.map (entry options))

mutual

/-- A leaf is an empty element; a branch has an end tag even without children. -/
def node (options : MarkupOptions) : Node → String
  | .leaf e as => "<" ++ e.name ++ attributes options as ++ "/>"
  | .branch e as cs =>
    "<" ++ e.name ++ attributes options as ++ ">" ++ forest options cs ++ "</" ++ e.name ++ ">"

def forest (options : MarkupOptions) : List Node → String
  | [] => ""
  | n :: ns => node options n ++ forest options ns

end

/-- The drawing as a document of its own. -/
def document (options : MarkupOptions) (icon : Icon) : String :=
  "<svg xmlns=\"http://www.w3.org/2000/svg\" width=\"" ++ options.size.repr ++ "\" height=\"" ++
    options.size.repr ++ "\" viewBox=\"0 0 24 24\">" ++ forest options icon ++ "</svg>"

end Markup

end IconCompiler
