import IconCompiler.Proofs.Icon.DataModel
import IconCompiler.Proofs.Xml.StartTag

/-!
Qualifiers of attribute names. A qualifier is looked up by its namespace, so that an attribute has
the one it was written with exactly if that is the first one that stands for its namespace where it
is, apart from hyphens that folding takes away. A qualified name whose local part is `xmlns` is
taken for a declaration.
-/

namespace IconCompiler

namespace AttributeName

theorem toList_fold_written {n : Xml.QName} (h : n.qualifier ≠ "") :
    (fold n.written).toList =
      foldChars n.qualifier.toList ++ ':' :: foldChars n.localPart.toList := by
  rw [toList_fold, Xml.QName.toList_written_of_qualifier h, foldChars_append_colon]

theorem fold_empty_ne {name : String} (h : name ≠ "") : fold "" ≠ fold name := by
  intro hfold
  rw [← String.toList_inj, toList_fold, toList_fold] at hfold
  exact h (String.toList_inj.mp (eq_of_foldChars_eq rfl hfold.symm))

/-- A folded name begins as a name without hyphens and capitals does if it did before. -/
theorem prefix_fold_iff {front : List Char} (hhyphen : '-' ∉ front)
    (hu : front.any Char.isUpper = false) (name : String) :
    front <+: (fold name).toList ↔ front <+: name.toList := by
  rw [toList_fold]
  constructor
  · rintro ⟨rest, hrest⟩
    obtain ⟨cs, hcs, -⟩ := exists_of_foldChars_eq_append hrest.symm hu
    exact ⟨cs, hcs.symm⟩
  · rintro ⟨rest, hrest⟩
    rw [← hrest, foldChars_append hhyphen]
    exact List.prefix_append front _

end AttributeName

namespace Node

theorem element_ofChildren (e : Element) (as : Attributes) (cs : List Node) :
    (ofChildren e as cs).element = e := by
  cases cs <;> rfl

theorem attributes_ofChildren (e : Element) (as : Attributes) (cs : List Node) :
    (ofChildren e as cs).attributes = as := by
  cases cs <;> rfl

theorem subtrees_ofChildren (e : Element) (as : Attributes) (cs : List Node) :
    (ofChildren e as cs).subtrees = ofChildren e as cs :: forestSubtrees cs := by
  cases cs <;> rfl

end Node

namespace Xml

open AttributeName

namespace StartTag

/-- The first qualifier in force for the namespace of a qualifier. -/
def qualifier? (tag : StartTag) (q : String) : Option String :=
  if q = "xml" then some "xml"
  else (tag.bindings.find? (·.qualifier = q)).bind fun b =>
    qualifierOf? tag.bindings b.namespaceName

/-- A qualifier that is the first one for its namespace, up to folding. -/
def Leads (tag : StartTag) (q : String) : Prop :=
  ∃ q', tag.qualifier? q = some q' ∧ fold q' = fold q

/-- The name that an attribute is shown with. -/
def shown (tag : StartTag) (n : QName) : QName :=
  if n.qualifier = "" then n else ⟨(tag.qualifier? n.qualifier).getD "", n.localPart⟩

/-- What is entered for an attribute of the tag. -/
def entry? (tag : StartTag) (a : QName × String) : Option (String × AttrValue) :=
  if a.1.Declares ∨ "xmlns".toList <+: (tag.shown a.1).written.toList then none
  else some (fold (tag.shown a.1).written, .ofText a.2)

variable {tag : StartTag}

theorem qualifier?_isProper (h : ∀ b ∈ tag.bindings, b.IsProper) {q q' : String}
    (hq : tag.qualifier? q = some q') : q' = "" ∨ IsPart q'.toList := by
  unfold qualifier? at hq
  split at hq
  · rw [← Option.some.inj hq]
    exact Or.inr (by decide)
  · obtain ⟨b, -, hb⟩ := Option.bind_eq_some_iff.mp hq
    exact qualifierOf?_isProper h hb

theorem written_getD (q? : Option String) (localPart : String) :
    (QName.mk (q?.getD "") localPart).written =
      match q? with
      | some q => (QName.mk q localPart).written
      | none => localPart := by
  cases q? with
  | some q => rfl
  | none =>
    rw [← String.toList_inj]
    exact QName.toList_written_of_empty rfl

/-- What an attribute means is named as it is shown. -/
theorem qualifiedName_of_means {a : QName × String} {b : Attr} (h : Means tag.bindings a b) :
    b.qualifiedName tag.bindings = (tag.shown a.1).written := by
  obtain ⟨position, hnamespace, hlocal, -⟩ := h
  unfold Reading.attrNamespace at hnamespace
  dsimp only at hnamespace
  rw [Attr.qualifiedName, hlocal]
  split at hnamespace
  · rename_i hxml
    have hne : a.1.qualifier ≠ "" := by
      rw [hxml]
      decide
    rw [← Except.ok.inj hnamespace, shown, if_neg hne, qualifier?, if_pos hxml]
    rfl
  · rename_i hxml
    split at hnamespace
    · rename_i hempty
      rw [String.isEmpty_iff] at hempty
      rw [← Except.ok.inj hnamespace, shown, if_pos hempty, ← String.toList_inj]
      exact (QName.toList_written_of_empty hempty).symm
    · rename_i hne
      rw [String.isEmpty_iff] at hne
      unfold Reading.resolve at hnamespace
      split at hnamespace
      · rename_i found hfound
        rw [← Except.ok.inj hnamespace, shown, if_neg hne, qualifier?, if_neg hxml, hfound,
          written_getD]
        rfl
      · contradiction

/-- The attributes of a node are what is entered for those of its start tag, one by one. -/
theorem foldl_note {as : List (QName × String)} {bs : List Attr}
    (h : List.Forall₂ (Means tag.bindings) (as.filter fun a => ¬ a.1.Declares) bs)
    (entered : Attributes) : bs.foldl (Attributes.note tag.bindings) entered =
      (as.filterMap tag.entry?).foldl (fun t e => t.put e.1 e.2) entered := by
  induction as generalizing bs entered with
  | nil =>
    cases h
    rfl
  | cons a as ih =>
    by_cases hd : a.1.Declares
    · -- a declaration is no attribute of the tree, and nothing is entered for it
      have hentry : tag.entry? a = none := if_pos (Or.inl hd)
      rw [List.filter_cons_of_neg (by simpa using hd)] at h
      rw [List.filterMap_cons_none hentry]
      exact ih h entered
    · rw [List.filter_cons_of_pos (by simpa using hd)] at h
      cases h with
      | cons hmeans hrest =>
        rename_i b bs
        have hname := qualifiedName_of_means hmeans
        obtain ⟨-, -, -, hvalue⟩ := hmeans
        rw [List.foldl_cons, Attributes.note, hname, ih hrest]
        by_cases hp : "xmlns".toList <+: (tag.shown a.1).written.toList
        · have hentry : tag.entry? a = none := if_pos (Or.inr hp)
          rw [List.filterMap_cons_none hentry, if_pos (List.isPrefixOf_iff_prefix.mpr hp)]
        · have hentry : tag.entry? a = some (fold (tag.shown a.1).written, .ofText a.2) :=
            if_neg (not_or.mpr ⟨hd, hp⟩)
          rw [List.filterMap_cons_some hentry, List.foldl_cons,
            if_neg (mt List.isPrefixOf_iff_prefix.mp hp), hvalue]

/-- Names with one local part are folded alike if their qualifiers are. -/
theorem fold_written_eq_iff {n m : QName} (hm : m.IsProper) (hq : n.qualifier ≠ "")
    (hlocal : m.localPart = n.localPart) :
    fold m.written = fold n.written ↔ fold m.qualifier = fold n.qualifier := by
  by_cases hmq : m.qualifier = ""
  · -- a name without a qualifier has no colon
    refine iff_of_false (fun h => ?_) (hmq ▸ fold_empty_ne hq)
    have hnot := colon_not_mem_foldChars hm.localPart.noColon
    rw [← QName.toList_written_of_empty hmq, ← toList_fold, h, toList_fold_written hq] at hnot
    exact hnot (List.mem_append_right _ List.mem_cons_self)
  · rw [← String.toList_inj, ← String.toList_inj, toList_fold_written hq, toList_fold_written hmq,
      hlocal, List.append_cancel_right_eq, toList_fold, toList_fold]

theorem shown_isProper (hbindings : ∀ b ∈ tag.bindings, b.IsProper) {n : QName} (hn : n.IsProper) :
    (tag.shown n).IsProper := by
  unfold shown
  split
  · exact hn
  · refine ⟨hn.localPart, ?_⟩
    cases hq : tag.qualifier? n.qualifier with
    | none => exact Or.inl rfl
    | some q => exact qualifier?_isProper hbindings hq

theorem localPart_shown (n : QName) : (tag.shown n).localPart = n.localPart := by
  unfold shown
  split <;> rfl

theorem fold_qualifier_shown {n : QName} (hq : n.qualifier ≠ "") :
    fold (tag.shown n).qualifier = fold n.qualifier ↔ tag.Leads n.qualifier := by
  rw [shown, if_neg hq, Leads]
  cases tag.qualifier? n.qualifier with
  | none => exact iff_of_false (fold_empty_ne hq) (by simp)
  | some q => simp

/-- The attribute is entered under its own name exactly if it is no declaration and its qualifier
leads. -/
theorem entry?_eq_iff (hbindings : ∀ b ∈ tag.bindings, b.IsProper) {a : QName × String}
    (ha : a.1.IsProper) (hq : a.1.qualifier ≠ "")
    (hnot : ¬ "xmlns".toList <+: a.1.written.toList) :
    tag.entry? a = some (fold a.1.written, .ofText a.2) ↔
      a.1.localPart ≠ "xmlns" ∧ tag.Leads a.1.qualifier := by
  have hdeclares : a.1.Declares ↔ a.1.localPart = "xmlns" := by
    refine or_iff_right fun hxmlns => hnot ?_
    rw [QName.toList_written_of_qualifier hq, hxmlns]
    exact List.prefix_append _ _
  have hfold : fold (tag.shown a.1).written = fold a.1.written ↔ tag.Leads a.1.qualifier := by
    rw [fold_written_eq_iff (shown_isProper hbindings ha) hq (localPart_shown a.1),
      fold_qualifier_shown hq]
  rw [← hfold, ne_eq, ← hdeclares, entry?]
  split
  · rename_i h
    refine iff_of_false (by simp) fun ⟨hnotDeclares, hsame⟩ => ?_
    have hp := h.resolve_left hnotDeclares
    rw [← prefix_fold_iff (by decide) (by decide), hsame,
      prefix_fold_iff (by decide) (by decide)] at hp
    exact hnot hp
  · rename_i h
    rw [not_or] at h
    rw [Option.some.injEq, Prod.mk.injEq, and_iff_left rfl, and_iff_right h.1]

/-- A node with the attributes of the tag, those with a qualifier that leads under their own
names. -/
structure Fills (tag : StartTag) (n : Node) : Prop where
  element : Element.ofTag? tag.name.localPart = some n.element
  attributes : n.attributes = Table.ofList (tag.attributes.filterMap tag.entry?)
  qualified : ∀ a ∈ tag.attributes, a.1.qualifier ≠ "" →
    ¬ "xmlns".toList <+: a.1.written.toList →
      (tag.entry? a = some (fold a.1.written, .ofText a.2) ↔
        a.1.localPart ≠ "xmlns" ∧ tag.Leads a.1.qualifier) ∧
      (a.1.localPart ≠ "xmlns" → tag.Leads a.1.qualifier →
        fold a.1.written ∈ n.attributes.keys)

end StartTag

theorem Opens.fills {tag : StartTag} {t : Tree} (h : Opens tag t.head) {n : Node}
    (hn : Node.ofTree? t = some n) : tag.Fills n := by
  obtain ⟨hname, hbindings, hproper, hnames, hmeans⟩ := h
  have hentered : Attributes.ofXml tag.bindings t.head.attributes =
      Table.ofList (tag.attributes.filterMap tag.entry?) :=
    StartTag.foldl_note hmeans Table.empty
  cases t with
  | element name bindings attrs children =>
    rw [Node.ofTree?] at hn
    split at hn
    · rename_i e he
      have hattributes : n.attributes = Table.ofList (tag.attributes.filterMap tag.entry?) := by
        rw [← Option.some.inj hn, Node.attributes_ofChildren, ← hentered, ← hbindings]
        rfl
      refine ⟨?_, hattributes, fun a ha hq hnot => ?_⟩
      · rw [← hname, ← Option.some.inj hn, Node.element_ofChildren]
        exact he
      · have hiff := StartTag.entry?_eq_iff hproper (hnames a ha) hq hnot
        refine ⟨hiff, fun hlocal hleads => ?_⟩
        rw [hattributes, Table.mem_keys_ofList]
        exact List.mem_map.mpr ⟨_, List.mem_filterMap.mpr ⟨a, ha, hiff.mpr ⟨hlocal, hleads⟩⟩, rfl⟩
    · contradiction

end Xml

/-! ## The nodes of a drawing -/

namespace Node

mutual

/-- A node and those below it are, in order, nodes of its element and of elements below that. -/
theorem subtrees_sublist (t : Xml.Tree) (n : Node) (hn : ofTree? t = some n) :
    n.subtrees.Sublist (t.elements.filterMap ofTree?) := by
  match t with
  | .element name bindings attrs children =>
    rw [Xml.Tree.elements, List.filterMap_cons_some hn]
    rw [ofTree?] at hn
    split at hn
    · rw [← Option.some.inj hn, subtrees_ofChildren]
      exact (forestSubtrees_sublist children).cons_cons _
    · contradiction

theorem forestSubtrees_sublist (ts : List Xml.Tree) :
    (forestSubtrees (ofForest ts)).Sublist ((Xml.forestElements ts).filterMap ofTree?) := by
  match ts with
  | [] => exact List.Sublist.slnil
  | t :: ts =>
    rw [Xml.forestElements, List.filterMap_append, ofForest]
    have ih := forestSubtrees_sublist ts
    split
    · rename_i n hn
      exact (subtrees_sublist t n hn).append ih
    · exact ih.trans (List.sublist_append_right _ _)

end

end Node

namespace Xml

mutual

theorem elements_sublist_of_drawing? (t d : Tree) (h : t.drawing? = some d) :
    (forestElements d.children).Sublist t.elements := by
  match t with
  | .element name bindings attrs children =>
    rw [Tree.drawing?] at h
    rw [Tree.elements]
    split at h
    · rw [← Option.some.inj h]
      exact List.sublist_cons_self _ _
    · exact (elements_sublist_of_forestDrawing? children d h).cons _

theorem elements_sublist_of_forestDrawing? (ts : List Tree) (d : Tree)
    (h : forestDrawing? ts = some d) : (forestElements d.children).Sublist (forestElements ts) := by
  match ts with
  | [] => contradiction
  | t :: ts =>
    rw [forestDrawing?, Option.or_eq_some_iff] at h
    rw [forestElements]
    rcases h with h | ⟨-, h⟩
    · exact (elements_sublist_of_drawing? t d h).trans (List.sublist_append_left _ _)
    · exact (elements_sublist_of_forestDrawing? ts d h).trans (List.sublist_append_right _ _)

end

end Xml

/-! ## Icons -/

namespace Icon

open Xml AttributeName

/-- The nodes of a drawing are those of its elements that icons have, in order, and the node of each
element is filled by the start tag of the element. -/
theorem qualified_names_kept_iff {svg : String} {icon : Icon} (h : Icon.ofSvg svg = .ok icon) :
    ∃ t tags rest, Xml.read svg = .ok t ∧ startTags svg = .ok (tags ++ rest) ∧
      icon.nodes.Sublist (t.elements.filterMap Node.ofTree?) ∧
      List.Forall₂ (fun tag e => ∀ n, Node.ofTree? e = some n → tag.Fills n) tags t.elements := by
  unfold Icon.ofSvg at h
  split at h
  · contradiction
  · contradiction
  · rename_i t ht
    obtain ⟨tags, rest, htags, hopens⟩ := exists_startTags ht
    refine ⟨t, tags, rest, ht, htags, ?_, hopens.imp fun _ _ hopen _ => hopen.fills⟩
    split at h
    · rename_i found hfound
      obtain ⟨d, hd, hicon⟩ := Option.map_eq_some_iff.mp hfound
      rw [← Except.ok.inj h, ← hicon]
      exact (Node.forestSubtrees_sublist d.children).trans
        ((elements_sublist_of_drawing? t d hd).filterMap _)
    · contradiction

/-- A group where a qualifier has changed places with another, and one that needs no binding. -/
def rebound : String :=
  "<svg xmlns:a=\"urn:u\" xmlns:b=\"urn:v\">" ++
    "<g xmlns:a=\"urn:v\" xmlns:b=\"urn:u\" a:x-y=\"1\" xml:id=\"i\"/></svg>"

theorem names_of_rebound_kept :
    ∃ icon, Icon.ofSvg rebound = .ok icon ∧
      icon.nodes.map (fun n => n.attributes.keys) = [["a:xY", "xml:id"]] ∧
      ∃ t tags rest, Xml.read rebound = .ok t ∧ startTags rebound = .ok (tags ++ rest) ∧
        icon.nodes.Sublist (t.elements.filterMap Node.ofTree?) ∧
        List.Forall₂ (fun tag e => ∀ n, Node.ofTree? e = some n → tag.Fills n) tags
          t.elements := by
  have hcheck : (Icon.ofSvg rebound).toOption.map
      (fun icon => icon.nodes.map fun n => n.attributes.keys) = some [["a:xY", "xml:id"]] := by
    decide +kernel
  obtain ⟨icon, hread, hkeys⟩ := exists_of_toOption hcheck
  exact ⟨icon, hread, hkeys, qualified_names_kept_iff hread⟩

/-- Two qualifiers of one namespace. -/
def aliased : String := "<svg xmlns:a=\"urn:u\" xmlns:b=\"urn:u\"><path b:x=\"1\"/></svg>"

/-- A qualifier of the default namespace. -/
def defaulted : String := "<svg xmlns=\"urn:u\" xmlns:b=\"urn:u\"><path b:x=\"1\" x=\"2\"/></svg>"

/-- Of two qualifiers of one namespace only the first one is kept, and none if the default namespace
is bound first. What has a qualifier and what has none is then one attribute. -/
theorem second_qualifier_lost :
    fold (QName.mk "b" "x").written = "b:x" ∧
    (startTags aliased).toOption.map (List.map fun tag => tag.attributes) =
      some [[(⟨"xmlns", "a"⟩, "urn:u"), (⟨"xmlns", "b"⟩, "urn:u")], [(⟨"b", "x"⟩, "1")]] ∧
    (Icon.ofSvg aliased).toOption.map (fun icon => icon.nodes.map (·.attributes.entries)) =
      some [[("a:x", .number .one)]] ∧
    (Icon.ofSvg defaulted).toOption.map (fun icon => icon.nodes.map (·.attributes.entries)) =
      some [[("x", .number .two)]] := by
  refine ⟨by decide, ?_, ?_, ?_⟩
  · decide +kernel
  · decide +kernel
  · decide +kernel

end Icon

end IconCompiler
