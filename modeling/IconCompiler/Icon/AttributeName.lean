/-!
Names of attributes in their two spellings. Folding joins the hyphenated words of a name, each word
after the first beginning with a capital; unfolding restores the hyphens of the names that SVG
spells with them.
-/

namespace IconCompiler.AttributeName

/-- Attributes that SVG itself spells with inner capitals. -/
def camelNames : List String :=
  ["allowReorder", "attributeName", "attributeType", "baseFrequency", "clipPathUnits",
    "diffuseConstant", "edgeMode", "filterUnits", "gradientTransform", "gradientUnits",
    "kernelMatrix", "kernelUnitLength", "keyPoints", "keySplines", "keyTimes", "lengthAdjust",
    "limitingConeAngle", "markerHeight", "markerUnits", "markerWidth", "maskContentUnits",
    "maskUnits", "numOctaves", "pathLength", "patternContentUnits", "patternTransform",
    "patternUnits", "pointsAtX", "pointsAtY", "pointsAtZ", "preserveAlpha", "preserveAspectRatio",
    "primitiveUnits", "refX", "refY", "repeatCount", "repeatDur", "requiredExtensions",
    "requiredFeatures", "specularConstant", "specularExponent", "spreadMethod", "startOffset",
    "stdDeviation", "stitchTiles", "surfaceScale", "systemLanguage", "tableValues", "targetX",
    "targetY", "textLength", "viewBox", "xChannelSelector", "yChannelSelector", "zoomAndPan"]

/-- Attributes that SVG spells with hyphens, in their folded form. -/
def hyphenNames : List String :=
  ["alignmentBaseline", "baselineShift", "clipPath", "clipRule", "colorInterpolation",
    "colorInterpolationFilters", "colorProfile", "colorRendering", "dominantBaseline",
    "enableBackground", "fillOpacity", "fillRule", "floodColor", "floodOpacity", "fontFamily",
    "fontSize", "fontSizeAdjust", "fontStretch", "fontStyle", "fontVariant", "fontWeight",
    "glyphOrientationHorizontal", "glyphOrientationVertical", "imageRendering", "letterSpacing",
    "lightingColor", "markerEnd", "markerMid", "markerStart", "overlinePosition",
    "overlineThickness", "paintOrder", "pointerEvents", "shapeRendering", "stopColor",
    "stopOpacity", "strikethroughPosition", "strikethroughThickness", "strokeDasharray",
    "strokeDashoffset", "strokeLinecap", "strokeLinejoin", "strokeMiterlimit", "strokeOpacity",
    "strokeWidth", "textAnchor", "textDecoration", "textRendering", "transformOrigin",
    "underlinePosition", "underlineThickness", "unicodeBidi", "vectorEffect", "wordSpacing",
    "writingMode"]

/-- First words of the open families of hyphenated attributes. -/
def hyphenFamilies : List String := ["data", "aria"]

/-- A hyphen before a small ASCII letter goes, and the letter becomes a capital. -/
def foldChars : List Char → List Char
  | '-' :: c :: cs => if c.isLower then c.toUpper :: foldChars cs else '-' :: foldChars (c :: cs)
  | c :: cs => c :: foldChars cs
  | [] => []

def fold (name : String) : String := String.ofList (foldChars name.toList)

/-- Each ASCII capital becomes a hyphen and the small letter. -/
def unfoldChars (cs : List Char) : List Char :=
  cs.flatMap fun c => if c.isUpper then ['-', c.toLower] else [c]

/-- A name of a family: its first word, then a capital. -/
def inFamily (name : List Char) (family : String) : Bool :=
  match family.toList.isPrefixOf? name with
  | some (c :: _) => c.isUpper
  | _ => false

def isHyphenated (name : String) : Bool :=
  hyphenNames.contains name || hyphenFamilies.any (inFamily name.toList)

/-- The spelling that SVG has for a folded name. -/
def unfold (name : String) : String :=
  if camelNames.contains name || !isHyphenated name then name
  else String.ofList (unfoldChars name.toList)

end IconCompiler.AttributeName
