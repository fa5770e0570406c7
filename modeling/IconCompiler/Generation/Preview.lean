import IconCompiler.Icon.Markup
import IconCompiler.Icon.Paint
import IconCompiler.Icon.Source

/-! The page that shows every icon of a run. -/

namespace IconCompiler.Preview

def fileName : String := "preview.html"

/-- An icon in the page, with its name below. -/
def card (name : String) (icon : Icon) : String :=
  "      <figure class=\"icon\">" ++ Markup.document .standard icon ++ "<figcaption>" ++ name ++
    "</figcaption></figure>"

/-- The card of a drawing, unless it cannot be read. -/
def cardOf? (keepColors : Bool) (name svg : String) : Option String :=
  (Icon.ofSvg svg).toOption.map fun icon => card name (icon.normalized keepColors)

def page (framework : String) (cards : List String) : String :=
  let count := toString cards.length
r#"<!DOCTYPE html>
<html lang="en">
  <head>
    <meta charset="utf-8" />
    <title>Icons ("# ++ count ++ ", " ++ framework ++ r#")</title>
    <style>
      body { font-family: system-ui, sans-serif; margin: 2rem; color: #1f2328; }
      .grid { display: grid; grid-template-columns: repeat(auto-fill, minmax(120px, 1fr)); gap: 1rem; }
      .icon { margin: 0; padding: 1rem; border: 1px solid #d0d7de; border-radius: 8px; text-align: center; }
      .icon figcaption { margin-top: 0.5rem; font-size: 12px; word-break: break-all; }
    </style>
  </head>
  <body>
    <h1>"# ++ count ++ r#" icons</h1>
    <div class="grid">
"# ++ "\n".intercalate cards ++ r#"
    </div>
  </body>
</html>
"#

end IconCompiler.Preview
