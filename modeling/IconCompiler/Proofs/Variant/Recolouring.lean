import IconCompiler.Proofs.Compilation
import IconCompiler.Proofs.Icon.Parameter

/-!
Parameters in components. Recolouring puts parameters in the place of paint, and the runtimes tell
them by how they are written. Whether something else is taken for a parameter is a question of the
texts of the drawing.
-/

namespace IconCompiler.Variant

open Literal

variable {v : Variant} {svg : String} {icon : Icon}

/-- What is written like a parameter is one that recolouring has put in the place of paint, and with
the colours kept there is none, unless a text of the drawing is the one that stands for a
parameter. -/
theorem parameters_recoloured_iff (hv : v ∈ builtins) (h : Icon.ofSvg svg = .ok icon)
    (name : String) (typed keepColors : Bool) :
    (∃ text, CompileOptions.compileComponent ⟨v.id, typed, keepColors⟩ name svg =
        .ok ⟨v.componentFileName name typed, text⟩ ∧
      ∀ a ∈ (icon.normalized keepColors).attributes,
        (entry v.keyStyle a).toList <:+: text.toList) ∧
    (∀ x p, value x = value (.parameter p) ↔ x = .parameter p ∨ x = .text p.placeholder) ∧
    (∀ a ∈ (icon.normalized keepColors).attributes, ∀ p, a.2 = .parameter p →
      keepColors = false ∧ a ∈ Attributes.paints) ∧
    ((∀ a ∈ (icon.normalized keepColors).attributes, ∀ p, WrittenAs v.keyStyle p a →
        a.2 = .parameter p) ↔ ¬ (icon.normalized keepColors).NamesParameter) ∧
    ((∀ a ∈ (icon.normalized true).attributes, ∀ p, ¬ WrittenAs v.keyStyle p a) ↔
      ¬ icon.NamesParameter) ∧
    (¬ icon.NamesParameter → ¬ (icon.normalized keepColors).NamesParameter) := by
  refine ⟨?_, value_eq_parameter_iff, ?_, ?_, ?_,
    fun hnone hnamed => hnone (Icon.namesParameter_of_normalized hnamed)⟩
  · have hfound : Registry.builtin.get? (CompileOptions.mk v.id typed keepColors).variant =
        some v := Registry.get?_builtin hv
    obtain ⟨text, htext, hmade⟩ := CompileOptions.compileComponent_of_ok hfound name h
    refine ⟨text, hmade, fun a ha => ?_⟩
    rw [← Except.ok.inj ((renderComponent_eq hv name typed keepColors icon).symm.trans htext),
      String.toList_append, String.toList_append]
    exact (entry_infix_icon v.keyStyle v.nodeIndent ha).trans (List.infix_append _ _ _)
  · intro a ha p hp
    exact (Icon.of_mem_normalized ha).resolve_left fun ha => Icon.ne_parameter_of_ofSvg h a ha p hp
  · rw [Icon.namesParameter_iff]
    constructor
    · rintro hall ⟨a, ha, p, htext⟩
      have hparameter := hall a ha p ((writtenAs_iff _ p a).mpr (Or.inr htext))
      rw [htext] at hparameter
      contradiction
    · intro hnone a ha p hp
      rcases (writtenAs_iff _ p a).mp hp with hparameter | htext
      · exact hparameter
      · exact absurd ⟨a, ha, p, htext⟩ hnone
  · rw [Icon.normalized_true, Icon.namesParameter_iff]
    constructor
    · rintro hall ⟨a, ha, p, htext⟩
      exact hall a ha p ((writtenAs_iff _ p a).mpr (Or.inr htext))
    · intro hnone a ha p hp
      rcases (writtenAs_iff _ p a).mp hp with hparameter | htext
      · exact Icon.ne_parameter_of_ofSvg h a ha p hparameter
      · exact hnone ⟨a, ha, p, htext⟩

/-- A drawing whose texts come close to those that stand for parameters. -/
def nearlyNaming : String := "<svg><path stroke=\"$Color\" d=\"'$color'\"/></svg>"

theorem nearlyNaming_keeps_colors :
    react ∈ builtins ∧ ∃ icon, Icon.ofSvg nearlyNaming = .ok icon ∧ ¬ icon.NamesParameter ∧
      ∀ a ∈ (icon.normalized true).attributes, ∀ p, ¬ WrittenAs react.keyStyle p a := by
  have hreact : react ∈ builtins := by simp [builtins]
  obtain ⟨icon, hicon⟩ := exists_eq_ok_of_isSome
    (show (Icon.ofSvg nearlyNaming).toOption.isSome = true by decide +kernel)
  have htexts : (Icon.ofSvg nearlyNaming).toOption.map Icon.texts =
      some ["$Color", "'$color'"] := by
    decide +kernel
  rw [hicon] at htexts
  have hicon' : icon.texts = ["$Color", "'$color'"] := Option.some.inj htexts
  have hnone : ¬ icon.NamesParameter := by
    rintro ⟨p, hp⟩
    rw [hicon'] at hp
    cases p <;> revert hp <;> decide
  obtain ⟨-, -, -, -, hkept, -⟩ := parameters_recoloured_iff hreact hicon "Home" true true
  exact ⟨hreact, icon, hicon, hnone, hkept.mpr hnone⟩

/-- The paint of this drawing is kept, and is written like a parameter. -/
theorem paint_written_as_parameter :
    ∃ icon, Icon.ofSvg "<svg><path fill=\"$color\"/></svg>" = .ok icon ∧
      ("fill", AttrValue.text "$color") ∈ (icon.normalized true).attributes ∧
      WrittenAs vue.keyStyle .color ("fill", .text "$color") ∧
      vue.literal true icon = "  ['path', \x7b fill: '$color' \x7d]" := by
  obtain ⟨icon, hicon⟩ := exists_eq_ok_of_isSome (show (Icon.ofSvg
    "<svg><path fill=\"$color\"/></svg>").toOption.isSome = true by decide +kernel)
  have hread : (Icon.ofSvg "<svg><path fill=\"$color\"/></svg>").toOption.map (fun icon =>
      (icon.attributes, vue.literal true icon)) =
        some ([("fill", .text "$color")], "  ['path', \x7b fill: '$color' \x7d]") := by
    decide +kernel
  rw [hicon] at hread
  obtain ⟨hattributes, hliteral⟩ := Prod.mk.inj (Option.some.inj hread)
  refine ⟨icon, hicon, ?_, rfl, hliteral⟩
  rw [Icon.normalized_true, hattributes]
  exact List.mem_singleton_self _

end IconCompiler.Variant
