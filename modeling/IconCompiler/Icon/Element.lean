/-! The SVG elements that an icon consists of. -/

namespace IconCompiler

inductive Element where
  | circle | ellipse | line | path | polygon | polyline | rect | group
  deriving DecidableEq

namespace Element

def all : List Element := [circle, ellipse, line, path, polygon, polyline, rect, group]

def name : Element → String
  | circle => "circle"
  | ellipse => "ellipse"
  | line => "line"
  | path => "path"
  | polygon => "polygon"
  | polyline => "polyline"
  | rect => "rect"
  | group => "g"

def ofTag? (tag : String) : Option Element := all.find? (·.name = tag)

/-- What is said of a tag that is no element of an icon. -/
def unsupported (tag : String) : String := "unsupported SVG element '" ++ tag ++ "'"

theorem ofTag?_name (e : Element) : ofTag? e.name = some e := by cases e <;> decide

end Element

end IconCompiler
