import IconCompiler.Binary64.Reader
import IconCompiler.Binary64.Printer
import IconCompiler.Text.Blank

/-! Values of attributes: numbers, texts, and the parameters that are set when an icon is shown. -/

namespace IconCompiler

inductive Parameter where
  | color
  | strokeWidth
  deriving DecidableEq

/-- The text that stands for a parameter in a component. -/
def Parameter.placeholder : Parameter → String
  | color => "$color"
  | strokeWidth => "$strokeWidth"

inductive AttrValue where
  | number (value : Binary64)
  | text (content : String)
  | parameter (which : Parameter)
  deriving DecidableEq

namespace AttrValue

/-- A text that is a finite number in full, blanks at its ends apart, is that number. -/
def ofText (raw : String) : AttrValue :=
  match Binary64.read? (Text.trim raw.toList) with
  | some x => if x.isFinite then number x else text raw
  | none => text raw

def text? : AttrValue → Option String
  | text s => some s
  | _ => none

def number? : AttrValue → Option Binary64
  | number x => some x
  | _ => none

def isNone (v : AttrValue) : Bool := v.text? == some "none"

/-- Equality of values, numbers being compared as numbers. -/
def same : AttrValue → AttrValue → Bool
  | number x, number y => x.sameNumber y
  | text s, text t => s == t
  | parameter p, parameter q => p == q
  | _, _ => false

end AttrValue

end IconCompiler
