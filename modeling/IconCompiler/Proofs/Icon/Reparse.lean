import IconCompiler.Icon.Source
import IconCompiler.Proofs.Icon.Key
import IconCompiler.Proofs.Icon.Node
import IconCompiler.Proofs.Icon.Value

/-!
Reading the markup of an icon. The icon comes back with its values as reading takes them, unless
some name or some character in it cannot be read.
-/

namespace IconCompiler

open Xml

namespace Markup

variable {options : MarkupOptions}

/-- An attribute as it is written. -/
def written (options : MarkupOptions) (a : String × AttrValue) : String × String :=
  (AttributeName.unfold a.1, value options a.2)

mutual

def printed (options : MarkupOptions) : Node → Printed
  | .leaf e as => .empty e.name (as.entries.map (written options))
  | .branch e as cs => .full e.name (as.entries.map (written options)) (printedForest options cs)

def printedForest (options : MarkupOptions) : List Node → List Printed
  | [] => []
  | n :: ns => printed options n :: printedForest options ns

end

/-- The namespace of drawings. -/
def svgNamespace : String := "http://www.w3.org/2000/svg"

/-- The attributes of the outermost element that are not declarations. -/
def outerAttributes (options : MarkupOptions) : List (String × String) :=
  [("width", options.size.repr), ("height", options.size.repr), ("viewBox", "0 0 24 24")]

theorem toList_entry (options : MarkupOptions) (a : String × AttrValue) :
    (entry options a).toList = attrText (written options a) := by
  simp [entry, attrText, written, escaped, escapedChars]

theorem toList_attributes (options : MarkupOptions) (as : Attributes) :
    (attributes options as).toList = attrsText (as.entries.map (written options)) := by
  rw [attributes, attrsText]
  induction as.entries with
  | nil => rfl
  | cons a as ih =>
    rw [List.map_cons, String.join_cons, String.toList_append, toList_entry, ih, List.map_cons,
      List.flatMap_cons]

mutual

theorem toList_node (options : MarkupOptions) (n : Node) :
    (node options n).toList = (printed options n).text := by
  match n with
  | .leaf e as =>
    simp [node, printed, Printed.text, toList_attributes]
  | .branch e as cs =>
    have ih := toList_forest options cs
    simp [node, printed, Printed.text, toList_attributes, ih]

theorem toList_forest (options : MarkupOptions) (ns : List Node) :
    (forest options ns).toList = Printed.forestText (printedForest options ns) := by
  match ns with
  | [] => rfl
  | n :: ns =>
    rw [forest, printedForest, Printed.forestText, String.toList_append, toList_node options n,
      toList_forest options ns]

end

theorem escapedChars_eq_self {cs : List Char}
    (h : ∀ c ∈ cs, c ≠ '&' ∧ c ≠ '<' ∧ c ≠ '>' ∧ c ≠ '"') : escapedChars cs = cs := by
  induction cs with
  | nil => rfl
  | cons c cs ih =>
    obtain ⟨h1, h2, h3, h4⟩ := h c List.mem_cons_self
    have hescape : escape c = [c] := by
      unfold escape
      split <;> first | contradiction | rfl
    rw [escapedChars, List.flatMap_cons, hescape, ← escapedChars,
      ih fun d hd => h d (List.mem_cons_of_mem c hd)]
    rfl

theorem of_mem_repr {n : Nat} {c : Char} (h : c ∈ n.repr.toList) : c.isDigit = true := by
  rw [Nat.toList_repr] at h
  exact Nat.isDigit_of_mem_toDigits (by decide) (Nat.le_refl 10) h

theorem escapedChars_repr (n : Nat) : escapedChars n.repr.toList = n.repr.toList := by
  apply escapedChars_eq_self
  intro c hc
  have hdigit := of_mem_repr hc
  refine ⟨?_, ?_, ?_, ?_⟩ <;>
    rintro rfl <;> contradiction

theorem attrText_repr (name : String) (n : Nat) :
    attrText (name, n.repr) = ' ' :: (name.toList ++ '=' :: '"' :: (n.repr.toList ++ ['"'])) := by
  rw [attrText, escapedChars_repr]

theorem toList_document (options : MarkupOptions) (icon : Icon) :
    (document options icon).toList = (Printed.full "svg"
      (("xmlns", svgNamespace) :: outerAttributes options) (printedForest options icon)).text := by
  have hopen : "<svg xmlns=\"http://www.w3.org/2000/svg\" width=\"".toList =
      '<' :: ("svg".toList ++ (attrText ("xmlns", svgNamespace) ++ " width=\"".toList)) := rfl
  have hheight : "\" height=\"".toList = '"' :: " height=\"".toList := rfl
  have hbox : "\" viewBox=\"0 0 24 24\">".toList =
      '"' :: (attrText ("viewBox", "0 0 24 24") ++ ['>']) := rfl
  unfold document
  rw [Printed.text, outerAttributes, attrsText, List.flatMap_cons, List.flatMap_cons,
    List.flatMap_cons, List.flatMap_cons, List.flatMap_nil, attrText_repr, attrText_repr]
  rw [String.toList_append, String.toList_append, String.toList_append, String.toList_append,
    String.toList_append, String.toList_append, toList_forest, hopen, hheight, hbox]
  simp only [List.append_assoc, List.cons_append, List.nil_append]
  rfl

/-- The document of an icon as what is printed. -/
theorem document_eq (options : MarkupOptions) (icon : Icon) :
    document options icon = String.ofList (Printed.full "svg"
      (("xmlns", svgNamespace) :: outerAttributes options) (printedForest options icon)).text := by
  rw [← toList_document, String.ofList_toList]

/-! ## Attributes -/

/-- What reading takes a written value for. -/
def reread (options : MarkupOptions) (v : AttrValue) : AttrValue :=
  .ofText (blankedText (value options v))

/-- An attribute that can be read again. -/
structure Legible (options : MarkupOptions) (a : String × AttrValue) : Prop where
  key : AttributeName.IsPortable a.1
  value : ∀ c ∈ (value options a.2).toList, isXmlChar c = true

theorem legible_iff {a : String × AttrValue} (h : AttributeName.IsKey a.1) :
    Legible options a ↔ Scannable (written options a) ∧ Resolvable (written options a) := by
  constructor
  · intro ha
    obtain ⟨m, hm, hq⟩ := h.exists_split ha.key
    have hname : qnameOf (written options a).1 = m := qnameOf_of_splitName? hm
    refine ⟨⟨by rw [written, hm]; rfl, ha.value⟩, ?_⟩
    rw [Resolvable, hname]
    exact hq
  · rintro ⟨hs, hr⟩
    obtain ⟨m, hm⟩ := Option.isSome_iff_exists.mp hs.name
    have hname := qnameOf_of_splitName? hm
    rw [Resolvable, hname] at hr
    exact ⟨h.isPortable_of_split hm hr, hs.value⟩

theorem written_qnameOf {a : String × AttrValue} (h : AttributeName.IsKey a.1)
    (hs : Scannable (written options a)) :
    (qnameOf (written options a).1).written = AttributeName.unfold a.1 ∧
      IsPlain (written options a) := by
  obtain ⟨m, hm⟩ := Option.isSome_iff_exists.mp hs.name
  have hname := qnameOf_of_splitName? hm
  obtain ⟨hw, hq, hl⟩ := h.of_split hm
  exact ⟨by rw [hname, hw], ⟨by rw [hname]; exact hq, by rw [hname]; exact hl⟩⟩

theorem plainAttrs (name : String) {as : Attributes}
    (h : ∀ a ∈ as.entries, AttributeName.IsKey a.1 ∧ Scannable (written options a)) :
    PlainAttrs name (as.entries.map (written options)) := by
  constructor
  · intro b hb
    obtain ⟨a, ha, rfl⟩ := List.mem_map.mp hb
    exact (written_qnameOf (h a ha).1 (h a ha).2).2
  · -- the names fold to the keys of the table, and no key is in it twice
    have hkeys : (as.entries.map fun a =>
        AttributeName.fold (qnameOf (written options a).1).written) = as.entries.map Prod.fst :=
      List.map_congr_left fun a ha => by
        rw [(written_qnameOf (h a ha).1 (h a ha).2).1,
          AttributeName.fold_unfold (h a ha).1.fold_self]
    have hnodup := as.nodup
    rw [← hkeys] at hnodup
    refine List.Nodup.of_map (fun n => AttributeName.fold n.written) ?_
    rw [List.map_map, List.map_map]
    exact hnodup

theorem qualifiedName_attrOf {a : String × AttrValue} (h : AttributeName.IsKey a.1)
    (ha : Legible options a) (scope : List Binding) :
    (attrOf (written options a)).qualifiedName scope = AttributeName.unfold a.1 := by
  obtain ⟨hs, hr⟩ := (legible_iff h).mp ha
  have hw := (written_qnameOf h hs).1
  rcases Reading.attrOf_namespaceName hr with ⟨hq, hn⟩ | ⟨hq, hn⟩
  · have hxml : qualifierOf? scope xmlNamespace = some "xml" := if_pos rfl
    rw [Attr.qualifiedName, hn, Option.bind_some, hxml, ← hw]
    simp only [attrOf]
    rw [← hq]
  · rw [Attr.qualifiedName, hn, Option.bind_none, ← hw, ← String.toList_inj,
      QName.toList_written_of_empty hq]
    rfl

theorem note_attrOf {a : String × AttrValue} (h : AttributeName.IsKey a.1)
    (ha : Legible options a) (scope : List Binding) (as : Attributes) :
    as.note scope (attrOf (written options a)) = as.put a.1 (reread options a.2) := by
  have hprefix : "xmlns".toList.isPrefixOf (AttributeName.unfold a.1).toList = false := by
    rw [Bool.eq_false_iff, ne_eq, List.isPrefixOf_iff_prefix]
    exact h.undeclared
  simp only [Attributes.note, qualifiedName_attrOf h ha, hprefix, Bool.false_eq_true, if_false,
    AttributeName.fold_unfold h.fold_self]
  rfl

/-- Attributes are entered one after the other, none of them in another's place. -/
theorem entries_foldl_note (scope : List Binding) (es : List (String × AttrValue))
    (h : ∀ a ∈ es, AttributeName.IsKey a.1 ∧ Legible options a) (as : Attributes)
    (hn : (as.keys ++ es.map Prod.fst).Nodup) :
    (((es.map (written options)).map attrOf).foldl (Attributes.note scope) as).entries =
      as.entries ++ es.map fun a => (a.1, reread options a.2) := by
  induction es generalizing as with
  | nil => simp
  | cons a es ih =>
    have ha := h a List.mem_cons_self
    rw [List.map_cons, List.nodup_append] at hn
    obtain ⟨hkeys, hes, hdisjoint⟩ := hn
    have hnew : a.1 ∉ as.keys := fun hm => hdisjoint a.1 hm a.1 List.mem_cons_self rfl
    have hput := Table.entries_put_of_not_mem (reread options a.2) hnew
    -- what is entered so far carries the induction: the next key is not in it
    have hnext : ((as.put a.1 (reread options a.2)).keys ++ es.map Prod.fst).Nodup := by
      rw [Table.keys, hput, List.map_append, List.append_assoc]
      exact List.nodup_append.mpr ⟨hkeys, hes, hdisjoint⟩
    rw [List.map_cons, List.map_cons, List.foldl_cons, note_attrOf ha.1 ha.2,
      ih (fun b hb => h b (List.mem_cons_of_mem a hb)) _ hnext, hput, List.map_cons,
      List.append_assoc]
    rfl

theorem ofXml_written (scope : List Binding) (as : Attributes)
    (h : ∀ a ∈ as.entries, AttributeName.IsKey a.1 ∧ Legible options a) :
    Attributes.ofXml scope ((as.entries.map (written options)).map attrOf) =
      as.mapValues (reread options) := by
  have hentries := entries_foldl_note scope as.entries h .empty (by
    rw [Table.keys, Table.empty, List.map_nil, List.nil_append]
    exact as.nodup)
  cases hread : Attributes.ofXml scope ((as.entries.map (written options)).map attrOf) with
  | mk es hes =>
    have hsame : es = as.entries.map fun a => (a.1, reread options a.2) := by
      rw [Attributes.ofXml] at hread
      rw [hread] at hentries
      exact hentries
    subst hsame
    rfl

/-! ## Nodes -/

theorem isTag_of_isPart {name : String} (h : IsPart name.toList) : IsTag name :=
  ⟨h.chars, by rw [Cursor.splitName?_of_isPart h, String.ofList_toList]⟩

theorem isTag_name (e : Element) : IsTag e.name := by
  apply isTag_of_isPart
  cases e <;> decide

mutual

theorem forall_printed {P : String → List (String × String) → Prop} {Q : String × AttrValue → Prop}
    (h : ∀ (e : Element) (as : Attributes), (∀ a ∈ as.entries, Q a) →
      P e.name (as.entries.map (written options))) (n : Node) (hn : n.Forall Q) :
    (printed options n).Forall P := by
  match n with
  | .leaf e as => exact h e as hn
  | .branch e as cs => exact ⟨h e as hn.1, forall_printedForest h cs hn.2⟩

theorem forall_printedForest {P : String → List (String × String) → Prop}
    {Q : String × AttrValue → Prop} (h : ∀ (e : Element) (as : Attributes),
      (∀ a ∈ as.entries, Q a) → P e.name (as.entries.map (written options))) (ns : List Node)
    (hns : Node.ForestForall Q ns) : Printed.ForestForall P (printedForest options ns) := by
  match ns with
  | [] => trivial
  | n :: ns => exact ⟨forall_printed h n hns.1, forall_printedForest h ns hns.2⟩

end

mutual

theorem forall_of_printed {P : String × String → Prop} (n : Node)
    (h : (printed options n).Forall fun _ as => ∀ a ∈ as, P a) :
    n.Forall fun a => P (written options a) := by
  match n with
  | .leaf e as => exact fun a ha => h _ (List.mem_map_of_mem ha)
  | .branch e as cs =>
    exact ⟨fun a ha => h.1 _ (List.mem_map_of_mem ha), forall_of_printedForest cs h.2⟩

theorem forall_of_printedForest {P : String × String → Prop} (ns : List Node)
    (h : Printed.ForestForall (fun _ as => ∀ a ∈ as, P a) (printedForest options ns)) :
    Node.ForestForall (fun a => P (written options a)) ns := by
  match ns with
  | [] => trivial
  | n :: ns => exact ⟨forall_of_printed n h.1, forall_of_printedForest ns h.2⟩

end

/-- An attribute of a parsed icon that can be read again. -/
def LegibleKey (options : MarkupOptions) (a : String × AttrValue) : Prop :=
  AttributeName.IsKey a.1 ∧ Legible options a

mutual

/-- What was printed as a node is read as one. -/
theorem ofTree?_printed (scope : List Binding) (n : Node) (h : n.Forall (LegibleKey options))
    (hf : n.Filled) :
    Node.ofTree? ((printed options n).tree scope) = some (n.mapValues (reread options)) := by
  match n with
  | .leaf e as =>
    rw [printed, Printed.tree, Node.ofTree?, Element.ofTag?_name]
    dsimp only
    rw [ofXml_written scope as h]
    rfl
  | .branch e as cs =>
    obtain ⟨c, cs, rfl⟩ := List.exists_cons_of_ne_nil hf.1
    rw [printed, Printed.tree, Node.ofTree?, Element.ofTag?_name]
    dsimp only
    rw [ofXml_written scope as h.1, ofForest_printed scope (c :: cs) h.2 hf.2]
    rfl

theorem ofForest_printed (scope : List Binding) (ns : List Node)
    (h : Node.ForestForall (LegibleKey options) ns) (hf : Node.ForestFilled ns) :
    Node.ofForest (Printed.forest scope (printedForest options ns)) =
      Node.forestMapValues (reread options) ns := by
  match ns with
  | [] => rfl
  | n :: ns =>
    rw [printedForest, Printed.forest, Node.ofForest, ofTree?_printed scope n h.1 hf.1]
    dsimp only
    rw [ofForest_printed scope ns h.2 hf.2, Node.forestMapValues]

end

/-! ## Documents -/

theorem isXmlChar_of_isDigit {c : Char} (h : c.isDigit = true) : isXmlChar c = true := by
  simp only [Char.isDigit, Bool.and_eq_true, decide_eq_true_eq] at h
  have h1 : 48 ≤ c.toNat := UInt32.le_iff_toNat_le.mp h.1
  have h2 : c.toNat ≤ 57 := UInt32.le_iff_toNat_le.mp h.2
  exact (isXmlChar_of_printable ⟨by omega, by omega⟩).1

theorem name_outer {options : MarkupOptions} {a : String × String}
    (h : a ∈ outerAttributes options) : IsTag a.1 ∧ a.1 ≠ "xmlns" := by
  have hnames : ∀ name ∈ ["width", "height", "viewBox"],
      IsPart name.toList ∧ name ≠ "xmlns" := by decide
  have hmem : a.1 ∈ ["width", "height", "viewBox"] := List.mem_map_of_mem h
  obtain ⟨hpart, hne⟩ := hnames a.1 hmem
  exact ⟨isTag_of_isPart hpart, hne⟩

theorem qnameOf_outer {options : MarkupOptions} {a : String × String}
    (h : a ∈ outerAttributes options) : qnameOf a.1 = ⟨"", a.1⟩ :=
  qnameOf_of_splitName? (name_outer h).1.split

theorem value_outer {options : MarkupOptions} {a : String × String}
    (h : a ∈ outerAttributes options) : ∀ c ∈ a.2.toList, isXmlChar c = true := by
  have hrepr : ∀ c ∈ options.size.repr.toList, isXmlChar c = true :=
    fun c hc => isXmlChar_of_isDigit (of_mem_repr hc)
  simp only [outerAttributes, List.mem_cons, List.not_mem_nil, or_false] at h
  rcases h with rfl | rfl | rfl
  · exact hrepr
  · exact hrepr
  · have hbox : IsPlainText "0 0 24 24" := by decide
    exact fun c hc => (hbox c hc).1

theorem isPlainText_svgNamespace : IsPlainText svgNamespace := by decide

theorem scannable_outer (options : MarkupOptions) :
    ∀ a ∈ ("xmlns", svgNamespace) :: outerAttributes options, Scannable a := by
  intro a ha
  rcases List.mem_cons.mp ha with rfl | ha
  · exact ⟨by decide, fun c hc => (isPlainText_svgNamespace c hc).1⟩
  · exact ⟨by rw [(name_outer ha).1.split]; rfl, value_outer ha⟩

theorem plainAttrs_outer (options : MarkupOptions) :
    PlainAttrs "svg" (outerAttributes options) := by
  constructor
  · intro a ha
    have hname := qnameOf_outer ha
    have hempty : ("" : String) ≠ "xmlns" := by decide
    exact ⟨by rw [hname]; exact hempty, by rw [hname]; exact (name_outer ha).2⟩
  · have hnames : (outerAttributes options).map (fun a => qnameOf a.1) =
        ["width", "height", "viewBox"].map qnameOf := rfl
    rw [hnames]
    decide

theorem resolvable_outer (options : MarkupOptions) :
    ∀ a ∈ outerAttributes options, Resolvable a := by
  intro a ha
  exact Or.inl (by rw [qnameOf_outer ha])

variable {icon : Icon}

/-- The document of an icon before it is resolved. -/
def printedDocument (options : MarkupOptions) (icon : Icon) : Printed :=
  .full "svg" (("xmlns", svgNamespace) :: outerAttributes options) (printedForest options icon)

theorem spelled_document (h : Node.ForestForall (fun a => AttributeName.IsKey a.1) icon) :
    (printedDocument options icon).Forall Printed.Spelled := by
  have hsvg : IsPart "svg".toList := by decide
  have hxmlns : IsPart "xmlns".toList := by decide
  refine ⟨⟨isTag_of_isPart hsvg, fun a ha => ?_⟩, forall_printedForest (fun e as has => ?_) icon h⟩
  · rcases List.mem_cons.mp ha with rfl | ha
    · exact hxmlns.chars
    · exact (name_outer ha).1.nameText
  · refine ⟨isTag_name e, fun b hb => ?_⟩
    obtain ⟨a, ha, rfl⟩ := List.mem_map.mp hb
    exact (has a ha).isNameText

theorem scannable_document (h : Node.ForestForall (fun a => Scannable (written options a)) icon) :
    (printedDocument options icon).Forall Printed.AllScannable := by
  refine ⟨scannable_outer options, forall_printedForest (fun e as has b hb => ?_) icon h⟩
  obtain ⟨a, ha, rfl⟩ := List.mem_map.mp hb
  exact has a ha

theorem plain_document (h : Node.ForestForall (fun a => AttributeName.IsKey a.1 ∧
    Scannable (written options a)) icon) :
    (Printed.full "svg" (outerAttributes options) (printedForest options icon)).Forall
      PlainAttrs :=
  ⟨plainAttrs_outer options, forall_printedForest (fun e _ has => plainAttrs e.name has) icon h⟩

theorem resolvable_document (h : Node.ForestForall (fun a => Resolvable (written options a)) icon) :
    (Printed.full "svg" (outerAttributes options) (printedForest options icon)).Forall
      AllResolvable := by
  refine ⟨resolvable_outer options, forall_printedForest (fun e as has b hb => ?_) icon h⟩
  obtain ⟨a, ha, rfl⟩ := List.mem_map.mp hb
  exact has a ha

theorem svgNamespace_ne : svgNamespace ≠ xmlNamespace ∧ svgNamespace ≠ xmlnsNamespace :=
  ⟨by decide, by decide⟩

/-- Reading the document of an icon gives the icon back with its values as reading takes them. -/
theorem ofSvg_document (h : Node.ForestForall (LegibleKey options) icon)
    (hf : Node.ForestFilled icon) :
    Icon.ofSvg (document options icon) = .ok (Node.forestMapValues (reread options) icon) := by
  have hns := isPlainText_svgNamespace.blankedText_eq
  obtain ⟨hxml, hxmlns⟩ := svgNamespace_ne
  have hkeys := Node.ForestForall.imp (fun a ha => ha.1) icon h
  have hscan := Node.ForestForall.imp (fun a ha => ((legible_iff ha.1).mp ha.2).1) icon h
  have hresolve := Node.ForestForall.imp (fun a ha => ((legible_iff ha.1).mp ha.2).2) icon h
  have hread := Printed.read_printed hns hxml hxmlns (spelled_document hkeys)
    (scannable_document hscan) (plain_document (Node.ForestForall.and icon hkeys hscan))
    (resolvable_document hresolve)
  rw [← document_eq] at hread
  rw [Icon.ofSvg, hread]
  dsimp only
  rw [Icon.ofTree?, Printed.tree, Tree.drawing?, if_pos rfl, Option.map_some, Tree.children,
    ofForest_printed _ icon h hf]

/-- The document of an icon cannot be read if one attribute cannot. -/
theorem ofSvg_document_error (hkeys : Node.ForestForall (fun a => AttributeName.IsKey a.1) icon)
    (h : ¬ Node.ForestForall (Legible options) icon) :
    ∃ e, Icon.ofSvg (document options icon) = .error e := by
  have hread : ∃ e, read (document options icon) = .error e := by
    have hns := isPlainText_svgNamespace.blankedText_eq
    obtain ⟨hxml, hxmlns⟩ := svgNamespace_ne
    rw [document_eq]
    by_cases hscan : Node.ForestForall (fun a => Scannable (written options a)) icon
    · refine Printed.read_error_of_not_resolvable hns hxml hxmlns (spelled_document hkeys)
        (scannable_document hscan) (plain_document (Node.ForestForall.and icon hkeys hscan)) ?_
      intro hresolve
      have hall := Node.ForestForall.and icon hkeys
        (Node.ForestForall.and icon hscan (forall_of_printedForest icon hresolve.2))
      exact h (Node.ForestForall.imp (fun a ha => (legible_iff ha.1).mpr ha.2) icon hall)
    · exact Printed.read_error_of_not_scannable (spelled_document hkeys)
        fun hall => hscan (forall_of_printedForest icon hall.2)
  obtain ⟨e, he⟩ := hread
  rw [Icon.ofSvg, he]
  cases e with
  | noElement => exact ⟨.noDrawing, rfl⟩
  | located fault position => exact ⟨_, rfl⟩
  | unclosedElement => exact ⟨_, rfl⟩
  | endOfText => exact ⟨_, rfl⟩

end Markup

end IconCompiler
