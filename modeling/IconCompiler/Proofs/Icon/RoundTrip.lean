import IconCompiler.Proofs.Icon.Parsed
import IconCompiler.Proofs.Icon.Reparse

/-!
Writing an icon and reading it again. An icon that was read comes back as it is if and only if its
keys need no declaration and its texts hold no white space other than spaces; an icon that was put
together from plain keys and values comes back with its parameters resolved.
-/

namespace IconCompiler

open Xml

theorem isPlainText_toText (x : Binary64) : IsPlainText x.toText := by
  intro c hc
  rw [Binary64.toText, String.toList_ofList] at hc
  exact isXmlChar_of_printable (x.printable_of_mem_print hc)

namespace AttrValue

/-- A value that is no text, or one that is plain. -/
def IsPlain : AttrValue → Prop
  | text s => IsPlainText s
  | _ => True

/-- What a value is once the parameters have theirs. -/
def resolve (options : MarkupOptions) : AttrValue → AttrValue
  | number x => number x
  | text s => text s
  | parameter .color => ofText options.color
  | parameter .strokeWidth => number options.strokeWidth

theorem sameNumber_self {x : Binary64} (h : x.isFinite = true) : x.sameNumber x = true := by
  cases x with
  | finite s m q _ => simp [Binary64.sameNumber]
  | infinite s => contradiction
  | nan => contradiction

end AttrValue

namespace Markup

variable {options : MarkupOptions} {a : String × AttrValue}

theorem reread_number (options : MarkupOptions) {x : Binary64} (h : x.isFinite = true) :
    reread options (.number x) = .number x := by
  rw [reread, value, (isPlainText_toText x).blankedText_eq, AttrValue.ofText_toText h]

/-- An attribute that was read can be read again and comes back as it is. -/
theorem legible_and_same_iff (h : IsParsed a) :
    Legible options a ∧ a.2.same (reread options a.2) = true ↔
      AttributeName.IsPortable a.1 ∧ a.2.IsPlain := by
  obtain ⟨key, v⟩ := a
  obtain ⟨raw, hraw⟩ := h.value
  rcases AttrValue.ofText_cases raw with ⟨x, hx, hfinite⟩ | htext
  · -- the digits of a number need no escape and are read as the number
    obtain rfl : v = .number x := hraw.trans hx
    constructor
    · exact fun hl => ⟨hl.1.key, trivial⟩
    · rintro ⟨hkey, -⟩
      refine ⟨⟨hkey, fun c hc => (isPlainText_toText x c hc).1⟩, ?_⟩
      rw [reread_number options hfinite]
      exact AttrValue.sameNumber_self hfinite
  · -- a text comes back with its white space read as spaces
    obtain rfl : v = .text raw := hraw.trans htext
    constructor
    · rintro ⟨hl, hsame⟩
      have hblank : blankedText raw = raw := by
        rw [reread, value] at hsame
        rcases AttrValue.ofText_cases (blankedText raw) with ⟨x, hx, -⟩ | ht
        · rw [hx] at hsame
          contradiction
        · rw [ht] at hsame
          exact (beq_iff_eq.mp hsame).symm
      exact ⟨hl.key, fun c hc => ⟨hl.value c hc, (blankedText_eq_self_iff raw).mp hblank c hc⟩⟩
    · rintro ⟨hkey, hplain⟩
      refine ⟨⟨hkey, fun c hc => (hplain c hc).1⟩, ?_⟩
      rw [reread, value, IsPlainText.blankedText_eq hplain, htext]
      exact beq_self_eq_true raw

end Markup

/-- An icon that was read comes back as it is if and only if its keys need no declaration and its
texts are plain. -/
theorem Icon.reparse_same_iff (options : MarkupOptions) {svg : String} {icon : Icon}
    (h : Icon.ofSvg svg = .ok icon) :
    (∃ icon', Icon.ofSvg (Markup.document options icon) = .ok icon' ∧
        Node.forestSame icon icon' = true) ↔
      Node.ForestForall (fun a => AttributeName.IsPortable a.1 ∧ a.2.IsPlain) icon := by
  obtain ⟨hparsed, hfilled⟩ := Icon.isParsed_of_ofSvg h
  have hkeys := Node.ForestForall.imp (fun a ha => ha.key) icon hparsed
  constructor
  · rintro ⟨icon', hread, hsame⟩
    by_cases hlegible : Node.ForestForall (Markup.Legible options) icon
    · have hdocument := Markup.ofSvg_document (Node.ForestForall.and icon hkeys hlegible) hfilled
      rw [hdocument] at hread
      rw [← Except.ok.inj hread, Node.forestSame_mapValues] at hsame
      have hall := Node.ForestForall.and icon hparsed (Node.ForestForall.and icon hlegible hsame)
      exact Node.ForestForall.imp (fun a ha => (Markup.legible_and_same_iff ha.1).mp ha.2) icon hall
    · obtain ⟨e, he⟩ := Markup.ofSvg_document_error hkeys hlegible
      rw [he] at hread
      contradiction
  · intro hplain
    have hall : Node.ForestForall (fun a => Markup.Legible options a ∧
        a.2.same (Markup.reread options a.2) = true) icon :=
      Node.ForestForall.imp (fun a ha => (Markup.legible_and_same_iff ha.1).mpr ha.2) icon
        (Node.ForestForall.and icon hparsed hplain)
    have hlegible := Node.ForestForall.imp (fun a ha => ha.1) icon hall
    refine ⟨_, Markup.ofSvg_document (Node.ForestForall.and icon hkeys hlegible) hfilled, ?_⟩
    rw [Node.forestSame_mapValues]
    exact Node.ForestForall.imp (fun a ha => ha.2) icon hall

/-- A drawing of one path. -/
def pathIcon : Icon := [.leaf .path ⟨[("d", .text "M3 10")], by simp⟩]

theorem isKey_d : AttributeName.IsKey "d" :=
  ⟨⟨"", "d"⟩, ⟨by decide, Or.inl rfl⟩, by decide, by decide, by decide⟩

theorem Icon.path_kept : Icon.ofSvg (Markup.document .standard pathIcon) = .ok pathIcon ∧
    ∃ icon', Icon.ofSvg (Markup.document .standard pathIcon) = .ok icon' ∧
      Node.forestSame pathIcon icon' = true := by
  have hportable : AttributeName.IsPortable "d" := Or.inl (by decide)
  have hplain : IsPlainText "M3 10" := by decide
  have hvalue : Markup.reread .standard (.text "M3 10") = .text "M3 10" := by decide +kernel
  have hread : Icon.ofSvg (Markup.document .standard pathIcon) = .ok pathIcon := by
    have hlegible : Node.ForestForall (Markup.LegibleKey .standard) pathIcon := by
      refine ⟨fun a ha => ?_, trivial⟩
      rw [List.mem_singleton.mp ha]
      exact ⟨isKey_d, hportable, fun c hc => (hplain c hc).1⟩
    have hdocument := Markup.ofSvg_document hlegible ⟨trivial, trivial⟩
    simpa only [pathIcon, Node.forestMapValues, Node.mapValues, Attributes.mapValues,
      List.map_cons, List.map_nil, hvalue] using hdocument
  refine ⟨hread, (Icon.reparse_same_iff .standard hread).mpr ⟨fun a ha => ?_, trivial⟩⟩
  rw [List.mem_singleton.mp ha]
  exact ⟨hportable, hplain⟩

/-- A drawing whose value holds a tab that is referred to. -/
def tabbed : String := "<svg><path d=\"a&#9;b\"/></svg>"

/-- A tab that was referred to is written as it is, and reads as a space. -/
theorem Icon.tab_not_kept : ∃ icon, Icon.ofSvg tabbed = .ok icon ∧
    ¬ ∃ icon', Icon.ofSvg (Markup.document .standard icon) = .ok icon' ∧
      Node.forestSame icon icon' = true := by
  have hcheck : ((Icon.ofSvg tabbed).toOption.any fun icon =>
      (Icon.ofSvg (Markup.document .standard icon)).toOption.all fun icon' =>
        !Node.forestSame icon icon') = true := by decide +kernel
  cases hread : Icon.ofSvg tabbed with
  | error e =>
    simp only [hread, Except.toOption, Option.any_none, Bool.false_eq_true] at hcheck
  | ok icon =>
    refine ⟨icon, rfl, ?_⟩
    rintro ⟨icon', hread', hsame⟩
    simp only [hread, Except.toOption, Option.any_some, hread', Option.all_some, hsame,
      Bool.not_true, Bool.false_eq_true] at hcheck

/-! ## Parameters -/

/-- A folded name without a colon that declares no namespace. -/
structure AttributeName.IsPlainKey (key : String) : Prop where
  part : IsPart key.toList
  undeclared : ¬ "xmlns".toList <+: key.toList
  folded : AttributeName.fold key = key

theorem AttributeName.IsPlainKey.isKey {key : String} (h : AttributeName.IsPlainKey key) :
    AttributeName.IsKey key := by
  have hwritten : (QName.mk "" key).written = key := by
    rw [← String.toList_inj, QName.toList_written_of_empty rfl]
  refine ⟨⟨"", key⟩, ⟨h.part, Or.inl rfl⟩, ?_, ?_, ?_⟩
  · rintro rfl
    exact h.undeclared ⟨[], rfl⟩
  · rw [hwritten]
    exact h.undeclared
  · rw [hwritten]
    exact h.folded

/-- A value that reads as itself, or a parameter. -/
def AttrValue.IsSettled : AttrValue → Prop
  | number x => x.isFinite = true
  | text s => IsPlainText s ∧ ofText s = text s
  | parameter _ => True

namespace Markup

variable {options : MarkupOptions}

theorem isPlainText_value (hcolor : IsPlainText options.color) {v : AttrValue}
    (h : v.IsSettled) : IsPlainText (value options v) := by
  cases v with
  | number x => exact isPlainText_toText x
  | text s => exact h.1
  | parameter p =>
    cases p with
    | color => exact hcolor
    | strokeWidth => exact isPlainText_toText options.strokeWidth

theorem reread_eq_resolve (hcolor : IsPlainText options.color)
    (hwidth : options.strokeWidth.isFinite = true) {v : AttrValue} (h : v.IsSettled) :
    reread options v = v.resolve options := by
  rw [reread, (isPlainText_value hcolor h).blankedText_eq]
  cases v with
  | number x => exact AttrValue.ofText_toText h
  | text s => exact h.2
  | parameter p =>
    cases p with
    | color => rfl
    | strokeWidth => exact AttrValue.ofText_toText hwidth

end Markup

/-- The markup of an icon reads as the icon with its parameters resolved. -/
theorem Icon.ofSvg_document_resolved (options : MarkupOptions) (icon : Icon)
    (hcolor : IsPlainText options.color) (hwidth : options.strokeWidth.isFinite = true)
    (hattributes : Node.ForestForall
      (fun a => AttributeName.IsPlainKey a.1 ∧ a.2.IsSettled) icon)
    (hlists : Node.ForestFilled icon) :
    Icon.ofSvg (Markup.document options icon) =
      .ok (Node.forestMapValues (AttrValue.resolve options) icon) := by
  have hlegible : Node.ForestForall (Markup.LegibleKey options) icon :=
    Node.ForestForall.imp (fun a ha => ⟨ha.1.isKey, Or.inl ha.1.part.noColon,
      fun c hc => (Markup.isPlainText_value hcolor ha.2 c hc).1⟩) icon hattributes
  have hvalues : Node.ForestForall
      (fun a => Markup.reread options a.2 = a.2.resolve options) icon :=
    Node.ForestForall.imp (fun a ha => Markup.reread_eq_resolve hcolor hwidth ha.2) icon
      hattributes
  rw [Markup.ofSvg_document hlegible hlists, Node.forestMapValues_congr icon hvalues]

/-- A drawing with both parameters. -/
def strokedIcon : Icon :=
  [.branch .group ⟨[("stroke", .parameter .color), ("strokeWidth", .parameter .strokeWidth)],
    by decide⟩ [.leaf .path ⟨[("d", .text "M3 10")], by decide⟩]]

theorem Icon.ofSvg_document_stroked : Icon.ofSvg (Markup.document .standard strokedIcon) =
    .ok (Node.forestMapValues (AttrValue.resolve .standard) strokedIcon) := by
  have hcolor : IsPlainText MarkupOptions.standard.color := by decide
  have hstroke : AttributeName.IsPlainKey "stroke" := ⟨by decide, by decide, by decide⟩
  have hwidth : AttributeName.IsPlainKey "strokeWidth" := ⟨by decide, by decide, by decide⟩
  have hd : AttributeName.IsPlainKey "d" := ⟨by decide, by decide, by decide⟩
  have hpath : (AttrValue.text "M3 10").IsSettled := ⟨by decide, by decide +kernel⟩
  refine Icon.ofSvg_document_resolved .standard strokedIcon hcolor (by decide)
    ⟨⟨fun a ha => ?_, fun a ha => ?_, trivial⟩, trivial⟩
    ⟨⟨List.cons_ne_nil _ _, trivial, trivial⟩, trivial⟩
  · rcases List.mem_cons.mp ha with rfl | ha
    · exact ⟨hstroke, trivial⟩
    · rw [List.mem_singleton.mp ha]
      exact ⟨hwidth, trivial⟩
  · rw [List.mem_singleton.mp ha]
    exact ⟨hd, hpath⟩

end IconCompiler
