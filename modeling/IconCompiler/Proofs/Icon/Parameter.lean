import IconCompiler.Proofs.Icon.Indentation
import IconCompiler.Proofs.Icon.Parsed

/-!
Parameters in a literal. A parameter is written as the text that stands for it, so what is written
like a parameter is one, or is that very text. No drawing has parameters of its own, but it may have
the text.
-/

namespace IconCompiler

namespace Literal

/-- Texts that are written alike are the same. -/
theorem quoted_injective : Function.Injective quoted := by
  intro s t h
  have hs : Script.Scans (quoted s).toList [.text s] := scans_quoted s
  have ht : Script.Scans (quoted t).toList [.text t] := scans_quoted t
  rw [h] at hs
  have htokens := (Prod.mk.inj (Option.some.inj (hs.symm.trans ht))).2
  exact Script.Token.text.inj (List.cons.inj htokens).1

theorem toText_ne_quoted (x : Binary64) (s : String) : x.toText ≠ quoted s := by
  intro h
  have hquote : '\'' ∈ x.toText.toList := by
    rw [h, quoted, String.toList_ofList]
    exact List.mem_cons_self
  rw [Binary64.toText, String.toList_ofList] at hquote
  rcases Binary64.of_mem_print hquote with h | h | h <;> exact absurd h (by decide)

theorem placeholder_injective : Function.Injective Parameter.placeholder := by
  intro p q
  cases p <;> cases q <;> decide

/-- What is written like a parameter. -/
theorem value_eq_parameter_iff (v : AttrValue) (p : Parameter) :
    value v = value (.parameter p) ↔ v = .parameter p ∨ v = .text p.placeholder := by
  cases v with
  | number x => simpa [value] using toText_ne_quoted x p.placeholder
  | text s => simp [value, quoted_injective.eq_iff]
  | parameter q => simp [value, quoted_injective.eq_iff, placeholder_injective.eq_iff]

/-- An attribute whose entry is written like that of a parameter under the same name. -/
def WrittenAs (style : KeyStyle) (p : Parameter) (a : String × AttrValue) : Prop :=
  entry style a = entry style (a.1, .parameter p)

theorem writtenAs_iff (style : KeyStyle) (p : Parameter) (a : String × AttrValue) :
    WrittenAs style p a ↔ a.2 = .parameter p ∨ a.2 = .text p.placeholder := by
  rw [WrittenAs, entry, entry, ← value_eq_parameter_iff]
  constructor
  · intro h
    have hchars := congrArg String.toList h
    simp only [String.toList_append] at hchars
    exact String.toList_injective (List.append_cancel_left hchars)
  · intro h
    rw [h]

/-! ## Entries in a literal -/

theorem infix_intercalate {sep w : List Char} {ws : List (List Char)} (h : w ∈ ws) :
    w <:+: sep.intercalate ws := by
  induction ws with
  | nil => contradiction
  | cons x ws ih =>
    cases ws with
    | nil =>
      rw [List.mem_singleton.mp h, List.intercalate_singleton]
    | cons y ws =>
      rw [List.intercalate_cons_cons]
      rcases List.mem_cons.mp h with rfl | h
      · rw [List.append_assoc]
        exact (List.prefix_append _ _).isInfix
      · exact (ih h).trans (List.suffix_append _ _).isInfix

variable {a : String × AttrValue}

theorem entry_infix_attributes (style : KeyStyle) {as : Attributes} (h : a ∈ as.entries) :
    (entry style a).toList <:+: (attributes style as).toList := by
  have hne : as.isEmpty = false := by
    rw [Table.isEmpty, List.isEmpty_eq_false_iff]
    exact List.ne_nil_of_mem h
  have hinside : (entry style a).toList <:+:
      [',', ' '].intercalate (as.entries.map fun a => (entry style a).toList) :=
    infix_intercalate (List.mem_map.mpr ⟨a, h, rfl⟩)
  have hattributes : (attributes style as).toList = ['\x7b', ' '] ++
      [',', ' '].intercalate (as.entries.map fun a => (entry style a).toList) ++ [' ', '\x7d'] := by
    simp [attributes, hne, String.toList_intercalate, Function.comp_def]
  rw [hattributes]
  exact hinside.trans (List.infix_append _ _ _)

theorem entry_infix_opening (style : KeyStyle) (e : Element) {as : Attributes}
    (h : a ∈ as.entries) : (entry style a).toList <:+: opening style e as :=
  (entry_infix_attributes style h).trans (List.suffix_append _ _).isInfix

mutual

theorem entry_infix_node (style : KeyStyle) (indent : Nat) (n : Node) (h : a ∈ n.allAttributes) :
    (entry style a).toList <:+: (node style indent n).toList := by
  match n with
  | .leaf e as =>
    rw [toList_leaf, ← List.append_assoc]
    exact (entry_infix_opening style e h).trans (List.infix_append _ _ _)
  | .branch e as [] =>
    rw [node_branch_nil]
    rw [Node.allAttributes, Node.forestAttributes, List.append_nil] at h
    exact entry_infix_node style indent (.leaf e as) h
  | .branch e as (c :: cs) =>
    rw [toList_branch]
    rcases List.mem_append.mp h with h | h
    · have hline := (entry_infix_opening style e h).trans
        (List.prefix_append _ [',', ' ', '[']).isInfix
      exact (hline.trans (List.prefix_append _ _).isInfix).trans (List.suffix_append _ _).isInfix
    · have hlines := (entry_infix_nodes style (indent + 2) (c :: cs) h).trans
        (List.prefix_append _ ('\n' :: (List.replicate indent ' ' ++ [']', ']']))).isInfix
      have hbehind := hlines.trans (List.suffix_cons '\n' _).isInfix
      exact (hbehind.trans (List.suffix_append _ _).isInfix).trans (List.suffix_append _ _).isInfix

theorem entry_infix_nodes (style : KeyStyle) (indent : Nat) (ns : List Node)
    (h : a ∈ Node.forestAttributes ns) : (entry style a).toList <:+:
      [',', '\n'].intercalate ((nodes style indent ns).map String.toList) := by
  match ns with
  | [] => contradiction
  | n :: ns =>
    rw [nodes, List.map_cons]
    rcases List.mem_append.mp h with h | h
    · exact (entry_infix_node style indent n h).trans (infix_intercalate List.mem_cons_self)
    · have hrest := entry_infix_nodes style indent ns h
      cases ns with
      | nil => contradiction
      | cons m ns =>
        rw [nodes, List.map_cons] at hrest ⊢
        rw [List.intercalate_cons_cons]
        exact hrest.trans (List.suffix_append _ _).isInfix

end

/-- Every attribute of an icon has its entry in the literal. -/
theorem entry_infix_icon (style : KeyStyle) (indent : Nat) {icon : Icon}
    (h : a ∈ icon.attributes) :
    (entry style a).toList <:+: (Literal.icon style indent icon).toList := by
  rw [Literal.icon, String.toList_intercalate]
  exact entry_infix_nodes style indent icon h

end Literal

namespace Icon

open Literal

variable {svg : String} {icon : Icon}

/-- No drawing has parameters. -/
theorem ne_parameter_of_ofSvg (h : Icon.ofSvg svg = .ok icon) :
    ∀ a ∈ icon.attributes, ∀ p, a.2 ≠ .parameter p := by
  intro a ha p
  obtain ⟨raw, hraw⟩ := (isParsed_of_mem h ha).value
  rw [hraw]
  rcases AttrValue.ofText_cases raw with ⟨x, hx, -⟩ | htext
  · rw [hx]
    exact AttrValue.noConfusion
  · rw [htext]
    exact AttrValue.noConfusion

/-- Whether a text of an icon is the one that stands for a parameter. -/
def NamesParameter (icon : Icon) : Prop := ∃ p : Parameter, p.placeholder ∈ icon.texts

theorem namesParameter_iff (icon : Icon) :
    icon.NamesParameter ↔ ∃ a ∈ icon.attributes, ∃ p : Parameter, a.2 = .text p.placeholder := by
  simp only [NamesParameter, mem_texts_iff]
  constructor
  · rintro ⟨p, a, ha, htext⟩
    exact ⟨a, ha, p, htext⟩
  · rintro ⟨a, ha, p, htext⟩
    exact ⟨p, a, ha, htext⟩

/-- A text of a recoloured icon that stands for a parameter is one of the drawing. -/
theorem namesParameter_of_normalized {keepColors : Bool}
    (h : (icon.normalized keepColors).NamesParameter) : icon.NamesParameter := by
  obtain ⟨a, ha, p, htext⟩ := (namesParameter_iff _).mp h
  rcases of_mem_normalized ha with ha | ⟨-, ha⟩
  · exact (namesParameter_iff icon).mpr ⟨a, ha, p, htext⟩
  · have hpaint : ∀ b ∈ Attributes.paints, ∀ p : Parameter, b.2 ≠ .text p.placeholder := by
      intro b hb p
      cases p <;> (revert b; decide)
    exact absurd htext (hpaint a ha p)

end Icon

end IconCompiler
