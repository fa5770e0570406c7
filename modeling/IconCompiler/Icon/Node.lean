import IconCompiler.Icon.Element
import IconCompiler.Icon.Value
import IconCompiler.Table

/-! Icons: ordered trees of elements with attributes. -/

namespace IconCompiler

abbrev Attributes := Table String AttrValue

/-- An element without a list of children, or with one that may be empty. -/
inductive Node where
  | leaf (element : Element) (attributes : Attributes)
  | branch (element : Element) (attributes : Attributes) (children : List Node)

instance : Inhabited Node := ⟨.leaf .path .empty⟩

/-- The nodes below the root of a drawing. -/
abbrev Icon := List Node

namespace Node

def element : Node → Element
  | leaf e _ | branch e _ _ => e

def attributes : Node → Attributes
  | leaf _ as | branch _ as _ => as

def children : Node → List Node
  | leaf _ _ => []
  | branch _ _ cs => cs

/-- A node with these children, a leaf when there are none. -/
def ofChildren (element : Element) (attributes : Attributes) : List Node → Node
  | [] => leaf element attributes
  | children => branch element attributes children

mutual

/-- The number of nodes in a tree. -/
def size : Node → Nat
  | leaf _ _ => 1
  | branch _ _ cs => 1 + forestSize cs

def forestSize : List Node → Nat
  | [] => 0
  | n :: ns => n.size + forestSize ns

end

end Node

/-- Equality of attributes as maps, in any order. -/
def Attributes.same (as bs : Attributes) : Bool :=
  as.size == bs.size && as.entries.all fun (name, v) => (bs.get? name).any v.same

namespace Node

mutual

/-- Equality of trees, attributes being compared in any order. -/
def same : Node → Node → Bool
  | leaf e as, leaf f bs => e == f && Attributes.same as bs
  | branch e as cs, branch f bs ds => e == f && Attributes.same as bs && forestSame cs ds
  | _, _ => false

def forestSame : List Node → List Node → Bool
  | [], [] => true
  | n :: ns, m :: ms => n.same m && forestSame ns ms
  | _, _ => false

end

end Node

end IconCompiler
