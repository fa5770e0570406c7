import IconCompiler.Proofs.Icon.Qualifier
import IconCompiler.Proofs.Xml.Tags

/-!
What is kept of a document. An icon has, in document order and at their depths, the elements below
the drawing that are such as icons have and lie in none that is not. The tags of a document decide
which these are.
-/

namespace IconCompiler

/-- The tags of the elements that icons have. -/
def Element.tags : List String :=
  ["circle", "ellipse", "line", "path", "polygon", "polyline", "rect", "g"]

theorem Element.ofTag?_eq_none {tag : String} (h : tag ∉ tags) : ofTag? tag = none := by
  refine List.find?_eq_none.mpr fun e _ hname => h ?_
  rw [← of_decide_eq_true hname]
  cases e <;> decide

theorem Element.name_of_ofTag? {tag : String} {e : Element} (h : ofTag? tag = some e) :
    e.name = tag := by
  have hname := List.find?_some h
  exact of_decide_eq_true hname

theorem Element.exists_of_mem_tags {tag : String} (h : tag ∈ tags) :
    ∃ e, ofTag? tag = some e := by
  have hall : ∀ tag ∈ tags, (ofTag? tag).isSome = true := by decide
  exact Option.isSome_iff_exists.mp (hall tag h)

namespace Node

mutual

/-- The names of a node and of those below it in document order, each with its depth. -/
def outline (depth : Nat) : Node → List (String × Nat)
  | leaf e _ => [(e.name, depth)]
  | branch e _ cs => (e.name, depth) :: forestOutline (depth + 1) cs

def forestOutline (depth : Nat) : List Node → List (String × Nat)
  | [] => []
  | n :: ns => n.outline depth ++ forestOutline depth ns

end

theorem outline_ofChildren (depth : Nat) (e : Element) (as : Attributes) (cs : List Node) :
    (ofChildren e as cs).outline depth = (e.name, depth) :: forestOutline (depth + 1) cs := by
  cases cs <;> rfl

end Node

/-- The elements of an icon in document order, each with its depth. -/
def Icon.outline (icon : Icon) : List (String × Nat) := Node.forestOutline 0 icon

namespace Xml

/-! ## Places in a document -/

/-- Where an element lies in another one: the names of the elements around it, from the outermost,
and its own. -/
structure Place where
  around : List String
  name : String

/-- Whether all elements around an element and itself are such as icons have. -/
def Place.isKept (p : Place) : Bool := (p.around ++ [p.name]).all (· ∈ Element.tags)

theorem Place.isKept_iff (p : Place) :
    p.isKept = true ↔ ∀ n ∈ p.around ++ [p.name], n ∈ Element.tags := by
  simp only [isKept, List.all_eq_true, decide_eq_true_eq]

mutual

/-- The places of an element and of those in it, in document order. -/
def Shape.places (around : List String) : Shape → List Place
  | .element name cs => ⟨around, name⟩ :: shapesPlaces (around ++ [name]) cs

def shapesPlaces (around : List String) : List Shape → List Place
  | [] => []
  | s :: ss => s.places around ++ shapesPlaces around ss

end

/-- The elements in a drawing that are kept, in document order, each with its depth. -/
def Shape.kept (s : Shape) : List (String × Nat) :=
  ((shapesPlaces [] s.children).filter Place.isKept).map fun p => (p.name, p.around.length)

/-! ## The drawing -/

mutual

/-- An element and those in it, in document order. -/
def Shape.elements : Shape → List Shape
  | .element name cs => .element name cs :: shapesElements cs

def shapesElements : List Shape → List Shape
  | [] => []
  | s :: ss => s.elements ++ shapesElements ss

end

/-- What is drawn of a document: its outermost element if that is an `svg` element, and else the
first one in document order. -/
def Tree.svg? (t : Tree) : Option Tree :=
  if t.name.localPart = "svg" then some t else t.elements.find? (·.name.localPart = "svg")

mutual

theorem drawing?_eq_find? (t : Tree) :
    t.drawing? = t.elements.find? (·.name.localPart = "svg") := by
  match t with
  | .element name bindings attrs children =>
    rw [Tree.drawing?, Tree.elements, List.find?_cons, Tree.name]
    split
    · rename_i hname
      rw [decide_eq_true hname]
    · rename_i hname
      rw [decide_eq_false hname]
      exact forestDrawing?_eq_find? children

theorem forestDrawing?_eq_find? (ts : List Tree) :
    forestDrawing? ts = (forestElements ts).find? (·.name.localPart = "svg") := by
  match ts with
  | [] => rfl
  | t :: ts =>
    rw [forestDrawing?, forestElements, List.find?_append, drawing?_eq_find? t,
      forestDrawing?_eq_find? ts]

end

mutual

theorem map_shape_elements (t : Tree) : t.elements.map Tree.shape = t.shape.elements := by
  match t with
  | .element name bindings attrs children =>
    rw [Tree.elements, List.map_cons, Tree.shape, Shape.elements,
      map_shape_forestElements children]

theorem map_shape_forestElements (ts : List Tree) :
    (forestElements ts).map Tree.shape = shapesElements (forestShapes ts) := by
  match ts with
  | [] => rfl
  | t :: ts =>
    rw [forestElements, List.map_append, forestShapes, shapesElements, map_shape_elements t,
      map_shape_forestElements ts]

end

end Xml

namespace Node

open Xml

mutual

/-- What lies in an element that icons do not have is not kept. -/
theorem not_isKept_of_mem_places {around : List String} (h : ∃ n ∈ around, n ∉ Element.tags)
    (s : Shape) : ∀ p ∈ s.places around, ¬ p.isKept = true := by
  match s with
  | .element name cs =>
    obtain ⟨n, hn, hnot⟩ := h
    rw [Shape.places, List.forall_mem_cons]
    constructor
    · rw [Place.isKept_iff]
      exact fun hkept => hnot (hkept n (List.mem_append_left _ hn))
    · exact not_isKept_of_mem_shapesPlaces ⟨n, List.mem_append_left _ hn, hnot⟩ cs

theorem not_isKept_of_mem_shapesPlaces {around : List String}
    (h : ∃ n ∈ around, n ∉ Element.tags) (ss : List Shape) :
    ∀ p ∈ shapesPlaces around ss, ¬ p.isKept = true := by
  match ss with
  | [] => simp [shapesPlaces]
  | s :: ss =>
    exact List.forall_mem_append.mpr
      ⟨not_isKept_of_mem_places h s, not_isKept_of_mem_shapesPlaces h ss⟩

end

mutual

theorem outline_ofTree? {around : List String} (h : ∀ n ∈ around, n ∈ Element.tags) (t : Tree) :
    ((ofTree? t).map (outline around.length)).getD [] =
      ((t.shape.places around).filter Place.isKept).map fun p => (p.name, p.around.length) := by
  match t with
  | .element name bindings attrs children =>
    rw [Tree.shape, Shape.places]
    by_cases hname : name.localPart ∈ Element.tags
    · -- the element is kept, and is one more around those in it
      have hinside : ∀ n ∈ around ++ [name.localPart], n ∈ Element.tags :=
        List.forall_mem_append.mpr ⟨h, by simpa using hname⟩
      have hkept : (Place.mk around name.localPart).isKept = true :=
        (Place.isKept_iff _).mpr hinside
      have ih := forestOutline_ofForest hinside children
      rw [List.length_append, List.length_singleton] at ih
      obtain ⟨e, he⟩ := Element.exists_of_mem_tags hname
      rw [List.filter_cons_of_pos hkept, List.map_cons, ← ih, ofTree?, he]
      simp only [Option.map_some, Option.getD_some, outline_ofChildren,
        Element.name_of_ofTag? he]
    · have hself : name.localPart ∈ around ++ [name.localPart] := by simp
      have hnot : ¬ (Place.mk around name.localPart).isKept = true := by
        rw [Place.isKept_iff]
        exact fun hkept => hname (hkept _ hself)
      have hinside := not_isKept_of_mem_shapesPlaces ⟨_, hself, hname⟩ (forestShapes children)
      rw [List.filter_cons_of_neg hnot, List.filter_eq_nil_iff.mpr hinside, ofTree?,
        Element.ofTag?_eq_none hname]
      rfl

/-- The nodes made of elements are those that are kept. -/
theorem forestOutline_ofForest {around : List String} (h : ∀ n ∈ around, n ∈ Element.tags)
    (ts : List Tree) : forestOutline around.length (ofForest ts) =
      ((shapesPlaces around (forestShapes ts)).filter Place.isKept).map
        fun p => (p.name, p.around.length) := by
  match ts with
  | [] => rfl
  | t :: ts =>
    have ht := outline_ofTree? h t
    have hts := forestOutline_ofForest h ts
    rw [forestShapes, shapesPlaces, List.filter_append, List.map_append, ← ht, ← hts, ofForest]
    cases ofTree? t <;> rfl

end

end Node

namespace Icon

open Xml

/-- What is kept of a document, should anything be drawn. -/
theorem map_outline_ofTree? (t : Tree) :
    (ofTree? t).map outline = (t.drawing?.map Tree.shape).map Shape.kept := by
  rw [ofTree?, Option.map_map, Option.map_map]
  congr 1
  funext d
  have hnothing : ∀ n ∈ ([] : List String), n ∈ Element.tags := by simp
  have hout := Node.forestOutline_ofForest hnothing d.children
  rw [Function.comp_apply, Function.comp_apply, outline, Shape.kept]
  cases d with
  | element name bindings attrs children => exact hout

theorem map_shape_drawing? (t : Tree) :
    t.drawing?.map Tree.shape = t.shape.elements.find? (·.name = "svg") := by
  rw [drawing?_eq_find?, ← map_shape_elements, List.find?_map]
  congr 2
  funext e
  cases e
  rfl

theorem drawing?_eq_svg? (t : Tree) : t.drawing? = t.svg? := by
  rw [drawing?_eq_find?, Tree.svg?]
  split
  · rename_i hname
    cases t with
    | element name bindings attrs children =>
      rw [Tree.elements, List.find?_cons_of_pos (by simpa using hname)]
  · rfl

theorem ofSvg_eq_of_read {svg : String} {t : Tree} (h : Xml.read svg = .ok t) :
    Icon.ofSvg svg = (ofTree? t).elim (.error .noDrawing) .ok := by
  rw [ofSvg, h]
  dsimp only
  cases ofTree? t <;> rfl

/-- The icon of a document has its outline from the tags alone. -/
theorem map_outline_ofSvg {svg : String} {t : Tree} (h : Xml.read svg = .ok t) :
    (Icon.ofSvg svg).map outline =
      ((t.shape.elements.find? (·.name = "svg")).map Shape.kept).elim (.error .noDrawing) .ok := by
  rw [ofSvg_eq_of_read h, ← map_shape_drawing?, ← map_outline_ofTree?]
  cases ofTree? t <;> rfl

/-- There is no icon exactly if no element of the document is an `svg` element. Else the icon has
exactly the elements in the drawing that icons have and that lie only in such elements, in document
order and at their depths. A document with the same tags gives the same elements. -/
theorem supported_subtrees_kept {svg : String} {t : Tree} (h : Xml.read svg = .ok t) :
    (Icon.ofSvg svg = .error .noDrawing ↔ ∀ e ∈ t.elements, e.name.localPart ≠ "svg") ∧
      (∀ d, t.svg? = some d →
        ∃ icon, Icon.ofSvg svg = .ok icon ∧ icon.outline = d.shape.kept) ∧
      ∀ other u, Xml.read other = .ok u → tags other = tags svg →
        (Icon.ofSvg other).map outline = (Icon.ofSvg svg).map outline := by
  refine ⟨?_, fun d hd => ?_, fun other u hu htags => ?_⟩
  · rw [ofSvg_eq_of_read h]
    cases hicon : ofTree? t with
    | none =>
      have hnone : t.drawing? = none := Option.map_eq_none_iff.mp hicon
      rw [drawing?_eq_find?, List.find?_eq_none] at hnone
      simpa using hnone
    | some icon =>
      refine iff_of_false (by simp) fun hall => ?_
      have hnone : t.drawing? = none := by
        rw [drawing?_eq_find?, List.find?_eq_none]
        simpa using hall
      rw [ofTree?, hnone] at hicon
      contradiction
  · rw [← drawing?_eq_svg?] at hd
    have hkept := map_outline_ofTree? t
    rw [hd] at hkept
    obtain ⟨icon, hicon, houtline⟩ := Option.map_eq_some_iff.mp hkept
    refine ⟨icon, ?_, houtline⟩
    rw [ofSvg_eq_of_read h, hicon]
    rfl
  · rw [map_outline_ofSvg hu, map_outline_ofSvg h, shape_eq_of_tags_eq hu h htags]

/-- A drawing that is not outermost, with an unsupported element, another drawing and a second
drawing behind it, all of them with qualifiers. -/
def nested : String :=
  "<x:d xmlns:x=\"u\"><x:svg>t<g><a><path/></a><x:rect r=\"1\"/></g><!---->" ++
    "<svg><line/></svg><?p?><circle/></x:svg><svg><path/></svg></x:d>"

/-- The same tags and nothing else. -/
def nestedBare : String :=
  "<d><svg><g><a><path/></a><rect/></g><svg><line/></svg><circle/></svg><svg><path/></svg></d>"

theorem subtrees_of_nested_kept :
    ∃ t u, Xml.read nested = .ok t ∧ Xml.read nestedBare = .ok u ∧
      tags nestedBare = tags nested ∧
      (∃ icon, Icon.ofSvg nested = .ok icon ∧
        icon.outline = [("g", 0), ("rect", 1), ("circle", 0)]) ∧
      (Icon.ofSvg nestedBare).map outline = (Icon.ofSvg nested).map outline := by
  have hcheck : ((Xml.read nested).toOption.bind fun t => t.svg?.map fun d => d.shape.kept) =
      some [("g", 0), ("rect", 1), ("circle", 0)] := by
    decide +kernel
  have hbare : (Xml.read nestedBare).toOption.isSome = true := by decide +kernel
  have htags : tags nestedBare = tags nested := by decide +kernel
  cases ht : Xml.read nested with
  | error e => simp only [ht, Except.toOption, Option.bind_none, reduceCtorEq] at hcheck
  | ok t =>
    cases hu : Xml.read nestedBare with
    | error e => simp only [hu, Except.toOption, Option.isSome_none, Bool.false_eq_true] at hbare
    | ok u =>
      obtain ⟨-, hkept, hsame⟩ := supported_subtrees_kept ht
      rw [ht] at hcheck
      obtain ⟨d, hd, houtline⟩ := Option.map_eq_some_iff.mp hcheck
      obtain ⟨icon, hicon, hicons⟩ := hkept d hd
      exact ⟨t, u, rfl, rfl, htags, ⟨icon, hicon, hicons.trans houtline⟩,
        hsame nestedBare u hu htags⟩

end Icon

end IconCompiler
