import IconCompiler.Proofs.Icon.Repainting
import IconCompiler.Proofs.Variant.Embedding

/-!
Colours of a drawing do not show in its component. Two icons that differ in their paint alone, and
in where that stands among the attributes, have one component unless colours are kept.
-/

namespace IconCompiler

open Attributes

/-- Whether attributes differ in nothing but the colours of one role of paint. -/
structure Attributes.DifferInColors (as bs : Attributes) : Prop where
  colorless : as.colorless = bs.colorless
  paintRole : as.paintRole = bs.paintRole

/-- Icons that differ in the colours of their nodes alone are recoloured to one icon, and no variant
tells them apart. -/
theorem Icon.colors_hidden {icon icon' : Icon} (h : icon.Alike DifferInColors icon') :
    icon.normalized false = icon'.normalized false ∧
      ∀ v ∈ Variant.builtins, ∀ name typed, ∃ text,
        v.renderComponent name typed false icon = .ok text ∧
        v.renderComponent name typed false icon' = .ok text := by
  have hnormalized : icon.normalized false = icon'.normalized false := by
    rw [normalized_eq, normalized_eq]
    apply h.mapAttributes_eq
    exact fun as bs hab => repainted_eq_of_colorless hab.colorless hab.paintRole
  refine ⟨hnormalized, fun v hv name typed => ?_⟩
  have hliteral : v.literal false icon = v.literal false icon' := by
    rw [Variant.literal, Variant.literal, hnormalized]
  refine ⟨_, Variant.renderComponent_eq hv name typed false icon, ?_⟩
  rw [hliteral]
  exact Variant.renderComponent_eq hv name typed false icon'

/-- A group that is filled in black, and in it a path with a red stroke. -/
def redStroke : Icon :=
  [.branch .group ⟨[("fill", .text "black"), ("stroke", .text "red"), ("id", .text "a")], by decide⟩
    [.leaf .path ⟨[("fill", .text "none"), ("d", .text "M0 0"), ("stroke", .text "red"),
      ("strokeWidth", .number .two)], by decide⟩]]

/-- The same in other colours, which stand elsewhere or are left out. -/
def blueStroke : Icon :=
  [.branch .group ⟨[("id", .text "a"), ("fill", .parameter .color)], by decide⟩
    [.leaf .path ⟨[("stroke", .text "none"), ("d", .text "M0 0"), ("strokeWidth", .number .two)],
      by decide⟩]]

theorem Icon.red_and_blue_alike :
    redStroke.Alike DifferInColors blueStroke ∧ redStroke.texts ≠ blueStroke.texts ∧
      redStroke.normalized false = blueStroke.normalized false ∧
      ∃ text, Variant.svelte.renderComponent "Dot" true false redStroke = .ok text ∧
        Variant.svelte.renderComponent "Dot" true false blueStroke = .ok text := by
  have halike : redStroke.Alike DifferInColors blueStroke :=
    ⟨⟨rfl, ⟨by decide, by decide⟩, ⟨rfl, ⟨by decide, by decide⟩⟩, trivial⟩, trivial⟩
  obtain ⟨hnormalized, hrender⟩ := Icon.colors_hidden halike
  exact ⟨halike, by decide, hnormalized,
    hrender Variant.svelte (by simp [Variant.builtins]) "Dot" true⟩

end IconCompiler
