import IconCompiler.Icon.Source
import IconCompiler.Proofs.Icon.Attributes
import IconCompiler.Proofs.Icon.Key
import IconCompiler.Proofs.Xml.Provenance

/-!
What icons read from a text are like: their keys are folded names, their values are what some text
stands for, and no node has an empty list of children.
-/

namespace IconCompiler

open Xml

/-- An attribute as reading enters it. -/
structure IsParsed (a : String × AttrValue) : Prop where
  key : AttributeName.IsKey a.1
  value : ∃ raw, a.2 = .ofText raw

theorem qualifierOf?_isProper {bindings : List Binding} (h : ∀ b ∈ bindings, b.IsProper)
    {namespaceName q : String} (hq : qualifierOf? bindings namespaceName = some q) :
    q = "" ∨ IsPart q.toList := by
  unfold qualifierOf? at hq
  split at hq
  · rw [← Option.some.inj hq]
    exact Or.inr (by decide)
  · obtain ⟨b, hb, rfl⟩ := Option.map_eq_some_iff.mp hq
    exact h b (List.mem_of_find?_eq_some hb)

/-- The name that an attribute is entered under was split, with the qualifier put in front again. -/
theorem exists_qualifiedName {bindings : List Binding} (h : ∀ b ∈ bindings, b.IsProper)
    {a : Attr} (ha : a.IsProper) :
    ∃ n : QName, n.IsProper ∧ n.localPart = a.localPart ∧
      a.qualifiedName bindings = n.written := by
  unfold Attr.qualifiedName
  split
  · rename_i q hq
    obtain ⟨namespaceName, -, hfound⟩ := Option.bind_eq_some_iff.mp hq
    exact ⟨⟨q, a.localPart⟩, ⟨ha.localPart, qualifierOf?_isProper h hfound⟩, rfl, rfl⟩
  · refine ⟨⟨"", a.localPart⟩, ⟨ha.localPart, Or.inl rfl⟩, rfl, ?_⟩
    rw [← String.toList_inj, QName.toList_written_of_empty rfl]

namespace Attributes

theorem note_isParsed {bindings : List Binding} (h : ∀ b ∈ bindings, b.IsProper) {a : Attr}
    (ha : a.IsProper) {as : Attributes} (has : ∀ e ∈ as.entries, IsParsed e) :
    ∀ e ∈ (as.note bindings a).entries, IsParsed e := by
  obtain ⟨n, hn, hlocal, hname⟩ := exists_qualifiedName h ha
  intro e he
  unfold note at he
  dsimp only at he
  split at he
  · exact has e he
  · rename_i hprefix
    rw [List.isPrefixOf_iff_prefix, hname] at hprefix
    rcases Table.of_mem_putEntry he with he | rfl
    · exact has e he
    · refine ⟨⟨n, hn, ?_, hprefix, ?_⟩, ⟨a.value, rfl⟩⟩
      · rw [hlocal]
        exact ha.undeclared
      · rw [hname]

theorem ofXml_isParsed {bindings : List Binding} (h : ∀ b ∈ bindings, b.IsProper)
    {attrs : List Attr} (ha : ∀ a ∈ attrs, a.IsProper) :
    ∀ e ∈ (ofXml bindings attrs).entries, IsParsed e := by
  have hfold : ∀ as : Attributes, (∀ e ∈ as.entries, IsParsed e) →
      ∀ e ∈ (attrs.foldl (note bindings) as).entries, IsParsed e := by
    induction attrs with
    | nil => exact fun _ has => has
    | cons a attrs ih =>
      intro as has
      rw [List.forall_mem_cons] at ha
      exact ih ha.2 (as.note bindings a) (note_isParsed h ha.1 has)
  exact hfold Table.empty (by simp [Table.empty])

end Attributes

namespace Node

theorem ofChildren_isParsed (e : Element) {as : Attributes} {cs : List Node}
    (has : ∀ a ∈ as.entries, IsParsed a) (hcs : ForestForall IsParsed cs ∧ ForestFilled cs) :
    (ofChildren e as cs).Forall IsParsed ∧ (ofChildren e as cs).Filled := by
  cases cs with
  | nil => exact ⟨has, trivial⟩
  | cons c cs => exact ⟨⟨has, hcs.1⟩, List.cons_ne_nil c cs, hcs.2⟩

mutual

theorem ofTree?_isParsed (t : Tree) (h : t.IsProper) (n : Node) (hn : ofTree? t = some n) :
    n.Forall IsParsed ∧ n.Filled := by
  match t with
  | .element name bindings attrs children =>
    rw [ofTree?] at hn
    split at hn
    · rename_i e _
      rw [← Option.some.inj hn]
      exact ofChildren_isParsed e (Attributes.ofXml_isParsed h.1 h.2.1)
        (ofForest_isParsed children h.2.2)
    · contradiction

theorem ofForest_isParsed (ts : List Tree) (h : ForestIsProper ts) :
    ForestForall IsParsed (ofForest ts) ∧ ForestFilled (ofForest ts) := by
  match ts with
  | [] => exact ⟨trivial, trivial⟩
  | t :: ts =>
    have ih := ofForest_isParsed ts h.2
    rw [ofForest]
    split
    · rename_i n hn
      have hnode := ofTree?_isParsed t h.1 n hn
      exact ⟨⟨hnode.1, ih.1⟩, hnode.2, ih.2⟩
    · exact ih

end

end Node

mutual

theorem drawing?_isProper (t : Tree) (h : t.IsProper) (d : Tree) (hd : t.drawing? = some d) :
    d.IsProper := by
  match t with
  | .element name bindings attrs children =>
    rw [Tree.drawing?] at hd
    split at hd
    · rw [← Option.some.inj hd]
      exact h
    · exact forestDrawing?_isProper children h.2.2 d hd

theorem forestDrawing?_isProper (ts : List Tree) (h : ForestIsProper ts) (d : Tree)
    (hd : forestDrawing? ts = some d) : d.IsProper := by
  match ts with
  | [] => contradiction
  | t :: ts =>
    rw [forestDrawing?, Option.or_eq_some_iff] at hd
    rcases hd with hd | ⟨-, hd⟩
    · exact drawing?_isProper t h.1 d hd
    · exact forestDrawing?_isProper ts h.2 d hd

end

/-- An icon that was read has proper keys, read values and no empty lists of children. -/
theorem Icon.isParsed_of_ofSvg {svg : String} {icon : Icon} (h : Icon.ofSvg svg = .ok icon) :
    Node.ForestForall IsParsed icon ∧ Node.ForestFilled icon := by
  unfold Icon.ofSvg at h
  split at h
  · contradiction
  · contradiction
  · rename_i t ht
    have hproper := yields_read svg t ht
    split at h
    · rename_i found hfound
      obtain ⟨d, hd, hicon⟩ := Option.map_eq_some_iff.mp hfound
      rw [← Except.ok.inj h, ← hicon]
      have hchildren : ForestIsProper d.children := by
        cases d with
        | element name bindings attrs children => exact (drawing?_isProper t hproper _ hd).2.2
      exact Node.ofForest_isParsed d.children hchildren
    · contradiction

/-- A reading that was looked at has been made. -/
theorem Icon.exists_of_toOption {α : Type} {svg : String} {f : Icon → α} {a : α}
    (h : (Icon.ofSvg svg).toOption.map f = some a) :
    ∃ icon, Icon.ofSvg svg = .ok icon ∧ f icon = a := by
  cases hread : Icon.ofSvg svg with
  | error e =>
    rw [hread] at h
    contradiction
  | ok icon =>
    rw [hread] at h
    exact ⟨icon, rfl, Option.some.inj h⟩

theorem isKey_of_mem_paints {a : String × AttrValue} (ha : a ∈ Attributes.paints) :
    AttributeName.IsKey a.1 := by
  have hplain : ∀ key ∈ Attributes.paints.map Prod.fst, IsPart key.toList ∧ key ≠ "xmlns" ∧
      ¬ "xmlns".toList <+: (QName.mk "" key).written.toList ∧
      AttributeName.fold (QName.mk "" key).written = key := by
    decide
  obtain ⟨hpart, hlocal, hfree, hfolded⟩ := hplain a.1 (List.mem_map_of_mem ha)
  exact ⟨⟨"", a.1⟩, ⟨hpart, Or.inl rfl⟩, hlocal, hfree, hfolded⟩

theorem Icon.isParsed_of_mem {svg : String} {icon : Icon} (h : Icon.ofSvg svg = .ok icon)
    {a : String × AttrValue} (ha : a ∈ icon.attributes) : IsParsed a :=
  (Node.forestForall_iff IsParsed icon).mp (isParsed_of_ofSvg h).1 a ha

/-- The keys of an icon that was read are folded names, also once it is recoloured. -/
theorem Icon.isKey_of_mem_normalized {svg : String} {icon : Icon} (h : Icon.ofSvg svg = .ok icon)
    {keepColors : Bool} {a : String × AttrValue} (ha : a ∈ (icon.normalized keepColors).attributes) :
    AttributeName.IsKey a.1 := by
  rcases of_mem_normalized ha with ha | ⟨-, ha⟩
  · exact (isParsed_of_mem h ha).key
  · exact isKey_of_mem_paints ha

end IconCompiler
