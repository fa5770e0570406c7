import IconCompiler.Icon.Literal
import IconCompiler.Proofs.Icon.Node
import IconCompiler.Proofs.Script.Number

/-!
The literal of an icon read as a script reads it: between brackets it is the list of its nodes, each
with its element, its attributes in order and its children if it has any.
-/

namespace IconCompiler

namespace Script.Value

/-- A parameter is the text that stands for it. -/
def ofAttrValue : AttrValue → Value
  | .number x => .number x
  | .text s => .text s
  | .parameter p => .text p.placeholder

def ofAttributes (style : KeyStyle) (as : Attributes) : Value :=
  .object (as.entries.map fun a => (style.key a.1, ofAttrValue a.2))

mutual

/-- The element, the attributes and, if there are any, the children. -/
def ofNode (style : KeyStyle) : Node → Value
  | .leaf e as => .array [.text e.name, ofAttributes style as]
  | .branch e as cs =>
    .array ([.text e.name, ofAttributes style as] ++
      if cs.isEmpty then [] else [.array (ofForest style cs)])

def ofForest (style : KeyStyle) : List Node → List Value
  | [] => []
  | n :: ns => ofNode style n :: ofForest style ns

end

end Script.Value

namespace Literal

open Script

/-! ## Keys and values -/

theorem run_escape (c : Char) (read : List Char) :
    run (.inQuotes read) (escape c) = some (.inQuotes (c :: read), []) := by
  -- one case for each character that is escaped, and one for those that are not
  unfold escape
  split
  · rename_i h
    subst h
    rfl
  · split
    · rename_i h
      subst h
      rfl
    · split
      · rename_i h
        subst h
        rfl
      · split
        · rename_i h
          subst h
          rfl
        · rename_i h1 h2 h3 h4
          rw [run_singleton, step, if_neg h2, if_neg h1, if_neg (by simp [h3, h4])]

theorem scans_quoted (s : String) : Scans (quoted s).toList [.text s] := by
  rw [quoted, String.toList_ofList]
  exact Script.scans_quoted run_escape s

theorem isName_eq_isIdentifier (cs : List Char) : isName cs = isIdentifier cs := by
  cases cs <;> rfl

theorem isWordChar_of_continuesIdentifier {c : Char} (h : continuesIdentifier c = true) :
    isWordChar c = true :=
  isWordChar_of_separates (p := continuesIdentifier) rfl h

theorem isWordChar_of_isIdentifier {cs : List Char} (h : isIdentifier cs = true) {c : Char}
    (hc : c ∈ cs) : isWordChar c = true := by
  cases cs with
  | nil => contradiction
  | cons d ds =>
    simp only [isIdentifier, Bool.and_eq_true, List.all_eq_true] at h
    rcases List.mem_cons.mp hc with rfl | hc
    · refine isWordChar_of_continuesIdentifier ?_
      have hstart := h.1
      simp only [startsIdentifier, continuesIdentifier, Char.isAlphanum, Bool.or_eq_true] at hstart ⊢
      tauto
    · exact isWordChar_of_continuesIdentifier (h.2 c hc)

/-- A bare key is a name in front of its colon. -/
theorem scansApart_key (k : String) : ScansApart (key k).toList [keyToken k] := by
  unfold key keyToken
  rw [isName_eq_isIdentifier]
  split
  · rename_i h
    refine scansApart_word ?_ (fun c hc => isWordChar_of_isIdentifier h hc) ?_
    · intro hnil
      rw [hnil] at h
      contradiction
    · rw [word?, isName_eq_isIdentifier, if_pos h, String.ofList_toList]
  · exact (scans_quoted k).apart

/-- A value that a script can write. -/
def IsWritable (v : AttrValue) : Prop := ∀ x, v = .number x → x.isFinite = true

theorem scansApart_value {v : AttrValue} (h : IsWritable v) :
    ScansApart (value v).toList (Value.ofAttrValue v).tokens := by
  cases v with
  | number x =>
    have hprint := scansApart_print (h x rfl)
    rwa [value, Binary64.toText, String.toList_ofList]
  | text s => exact (scans_quoted s).apart
  | parameter p => exact (scans_quoted p.placeholder).apart

theorem scansApart_entry (style : KeyStyle) {a : String × AttrValue} (h : IsWritable a.2) :
    ScansApart (entry style a).toList
      (keyToken (style.key a.1) :: .mark ':' :: (Value.ofAttrValue a.2).tokens) := by
  have hcolon : Scans ": ".toList [.mark ':'] := rfl
  have hkey := (scansApart_key (style.key a.1)).append (by decide) hcolon
  rw [entry, String.toList_append, String.toList_append]
  exact hkey.append_apart (scansApart_value h)

/-! ## Attributes -/

/-- The entries of an object with the closing brace. -/
theorem scans_entries (style : KeyStyle) {es : List (String × AttrValue)} (hne : es ≠ [])
    (h : ∀ a ∈ es, IsWritable a.2) :
    Scans ([',', ' '].intercalate (es.map fun a => (entry style a).toList) ++ [' ', '\x7d'])
      (Value.entriesTokens (es.map fun a => (style.key a.1, Value.ofAttrValue a.2))) := by
  have hclose : Scans [' ', '\x7d'] [.mark '\x7d'] := rfl
  have hcomma : Scans [',', ' '] [.mark ','] := rfl
  induction es with
  | nil => contradiction
  | cons a es ih =>
    have ha := scansApart_entry style (h a List.mem_cons_self)
    cases es with
    | nil => simpa [Value.entriesTokens] using ha.append (by decide) hclose
    | cons b es =>
      have hrest := ih (by simp) fun d hd => h d (List.mem_cons_of_mem a hd)
      have hall := (ha.append (by decide) hcomma).append hrest
      simpa [Value.entriesTokens, List.intercalate_cons_cons] using hall

theorem scans_attributes (style : KeyStyle) {as : Attributes}
    (h : ∀ a ∈ as.entries, IsWritable a.2) :
    Scans (attributes style as).toList (Value.ofAttributes style as).tokens := by
  obtain ⟨es, hes⟩ := as
  cases es with
  | nil =>
    have hempty : Scans ['\x7b', '\x7d'] [.mark '\x7b', .mark '\x7d'] := rfl
    simpa [attributes, Table.isEmpty, Value.ofAttributes, Value.tokens, Value.entriesTokens]
      using hempty
  | cons a es =>
    have hopen : Scans ['\x7b', ' '] [.mark '\x7b'] := rfl
    have hentries := scans_entries style (List.cons_ne_nil a es) h
    have hall := hopen.append hentries
    simpa [attributes, Table.isEmpty, Value.ofAttributes, Value.tokens, String.toList_intercalate,
      Function.comp_def] using hall

/-! ## Nodes -/

theorem scans_elementName (e : Element) : Scans ('\'' :: e.name.toList ++ ['\'']) [.text e.name] := by
  cases e <;> rfl

/-- A node up to its attributes. -/
theorem scans_opening (style : KeyStyle) (indent : Nat) (e : Element) {as : Attributes}
    (h : ∀ a ∈ as.entries, IsWritable a.2) :
    Scans (List.replicate indent ' ' ++ '[' :: '\'' :: e.name.toList ++ ['\'', ',', ' '] ++
        (attributes style as).toList)
      (.mark '[' :: .text e.name :: .mark ',' :: (Value.ofAttributes style as).tokens) := by
  have hopen : Scans ['['] [.mark '['] := rfl
  have hcomma : Scans [',', ' '] [.mark ','] := rfl
  have hall := (((scans_spaces indent).append hopen).append (scans_elementName e)).append
    (hcomma.append (scans_attributes style h))
  simpa using hall

mutual

theorem scans_node (style : KeyStyle) (indent : Nat) (n : Node)
    (h : n.Forall fun a => IsWritable a.2) :
    Scans (node style indent n).toList (Value.ofNode style n).tokens := by
  have hclose : Scans [']'] [.mark ']'] := rfl
  match n with
  | .leaf e as =>
    simpa [node, spaces, Value.ofNode, Value.tokens, Value.itemsTokens] using
      (scans_opening style indent e h).append hclose
  | .branch e as [] =>
    simpa [node, spaces, Value.ofNode, Value.tokens, Value.itemsTokens] using
      (scans_opening style indent e h.1).append hclose
  | .branch e as (c :: cs) =>
    have hchildren : Scans [',', ' ', '[', '\n'] [.mark ',', .mark '['] := rfl
    have hline : Scans ['\n'] [] := rfl
    -- the bracket of the children stands on a line of its own
    have hbelow := (hline.append (scans_spaces indent)).append hclose
    have hnodes := scans_nodes style (indent + 2) (c :: cs) h.2 hbelow
    have hall := (((scans_opening style indent e h.1).append hchildren).append hnodes).append hclose
    simpa [node, spaces, Value.ofNode, Value.tokens, Value.itemsTokens, String.toList_intercalate]
      using hall

/-- The nodes of a list with what stands between them, in front of a closing bracket. -/
theorem scans_nodes (style : KeyStyle) (indent : Nat) (ns : List Node)
    (h : Node.ForestForall (fun a => IsWritable a.2) ns) {closing : List Char}
    (hclosing : Scans closing [.mark ']']) :
    Scans ([',', '\n'].intercalate ((nodes style indent ns).map String.toList) ++ closing)
      (Value.itemsTokens (Value.ofForest style ns)) := by
  match ns with
  | [] => exact hclosing
  | [n] =>
    have hn := scans_node style indent n h.1
    simpa [nodes, Value.ofForest, Value.itemsTokens] using hn.append hclosing
  | n :: m :: ns =>
    have hcomma : Scans [',', '\n'] [.mark ','] := rfl
    have hn := scans_node style indent n h.1
    have hrest := scans_nodes style indent (m :: ns) h.2 hclosing
    have hall := (hn.append hcomma).append hrest
    simpa [nodes, Value.ofForest, Value.itemsTokens, List.intercalate_cons_cons] using hall

end

end Literal

/-- The literal of an icon with finite numbers, between brackets, reads as its nodes. -/
theorem Script.read?_icon (style : KeyStyle) (indent : Nat) {icon : Icon}
    (h : Node.ForestForall (fun a => Literal.IsWritable a.2) icon) :
    read? ("[" ++ Literal.icon style indent icon ++ "]") =
      some (.array (Value.ofForest style icon)) := by
  have hopen : Scans ['['] [.mark '['] := rfl
  have hnodes := Literal.scans_nodes style indent icon h (rfl : Scans [']'] [.mark ']'])
  have htokens : tokens? ("[" ++ Literal.icon style indent icon ++ "]").toList =
      some (Value.array (Value.ofForest style icon)).tokens := by
    refine tokens?_of_scans ?_
    simpa [Literal.icon, String.toList_intercalate, Value.tokens] using hopen.append hnodes
  have hvalue := value?_tokens (.array (Value.ofForest style icon)) (Nat.le_refl _) []
  rw [List.append_nil] at hvalue
  rw [read?, htokens, Option.bind_eq_bind, Option.bind_some, hvalue]

/-- A drawing in two levels, with a key that is no identifier, a parameter and a text that holds
marks, a quote and a line end. -/
def awkward : Icon :=
  [.branch .group ⟨[("stroke", .parameter .color), ("strokeWidth", .number .one)], by simp⟩
    [.leaf .path ⟨[("data-it's", .text "a', ]\\\n")], by simp⟩]]

theorem Script.read?_awkward :
    Node.ForestForall (fun a => Literal.IsWritable a.2) awkward ∧
    Literal.icon .kebab 0 awkward =
      "['g', \x7b stroke: '$color', 'stroke-width': 1 \x7d, [\n" ++
        "  ['path', \x7b 'data-it\\'s': 'a\\', ]\\\\\\n' \x7d]\n]]" ∧
    read? ("[" ++ Literal.icon .kebab 0 awkward ++ "]") =
      some (.array [.array [.text "g",
        .object [("stroke", .text "$color"), ("stroke-width", .number .one)],
        .array [.array [.text "path", .object [("data-it's", .text "a', ]\\\n")]]]]]) := by
  have hwritable : Node.ForestForall (fun a => Literal.IsWritable a.2) awkward := by
    simp [awkward, Node.ForestForall, Node.Forall, Literal.IsWritable, Binary64.isFinite,
      Binary64.one]
  have hplain : AttributeName.unfold "stroke" = "stroke" := by decide +kernel
  have hcapital : AttributeName.unfold "strokeWidth" = "stroke-width" := by decide +kernel
  have hhyphen : AttributeName.unfold "data-it's" = "data-it's" := by decide +kernel
  refine ⟨hwritable, by decide +kernel, ?_⟩
  rw [read?_icon .kebab 0 hwritable]
  simp [awkward, Value.ofForest, Value.ofNode, Value.ofAttributes, Value.ofAttrValue, KeyStyle.key,
    hplain, hcapital, hhyphen, Element.name, Parameter.placeholder]

end IconCompiler
