import IconCompiler.Icon.Node

/-!
Making an icon recolourable. The paint of every node is replaced by parameters, according to whether
the node is filled, stroked or neither.
-/

namespace IconCompiler

/-- How a node is painted. A fill other than `none` wins over a stroke. -/
inductive PaintRole where
  | fill
  | stroke
  | neutral
  deriving DecidableEq

namespace Attributes

def paintRole (as : Attributes) : PaintRole :=
  if (as.get? "fill").any (!·.isNone) then .fill
  else if as.has "stroke" then .stroke
  else .neutral

/-- The attributes without their paint. -/
def unpainted (as : Attributes) : Attributes :=
  ((as.remove "fill").remove "stroke").remove "strokeWidth"

/-- The paint that a role asks for, put over the unpainted attributes. A stroke keeps its width and
has round caps and joins. -/
def repainted (as : Attributes) : Attributes :=
  match as.paintRole with
  | .fill => as.unpainted.put "fill" (.parameter .color)
  | .stroke =>
    as.unpainted
      |>.put "fill" (.text "none")
      |>.put "stroke" (.parameter .color)
      |>.put "strokeWidth" ((as.get? "strokeWidth").getD (.parameter .strokeWidth))
      |>.put "strokeLinecap" (.text "round")
      |>.put "strokeLinejoin" (.text "round")
  | .neutral => as.unpainted

/-- Repainted unless the colours of the drawing are kept. -/
def normalized (keepColors : Bool) (as : Attributes) : Attributes :=
  if keepColors then as else as.repainted

end Attributes

namespace Node

mutual

def normalized (keepColors : Bool) : Node → Node
  | leaf e as => leaf e (Attributes.normalized keepColors as)
  | branch e as cs =>
    branch e (Attributes.normalized keepColors as) (forestNormalized keepColors cs)

def forestNormalized (keepColors : Bool) : List Node → List Node
  | [] => []
  | n :: ns => n.normalized keepColors :: forestNormalized keepColors ns

end

end Node

/-- The icon with the paint of every node replaced by parameters. -/
def Icon.normalized (keepColors : Bool) (icon : Icon) : Icon :=
  Node.forestNormalized keepColors icon

end IconCompiler
