import IconCompiler.Proofs.Icon.Indentation
import IconCompiler.Proofs.Variant.Component

/-!
The literal of an icon inside its component. The template of a component has one place for it,
outside of its blocks, and what else it is filled with comes from the name alone. So a component is
the literal as it is, between two texts that the icon has no say in.
-/

namespace IconCompiler

namespace Template

/-- Parts that the icon has no say in: text, text of typed source, the name and the tag. -/
def isFrame : Part → Bool
  | .text _ => true
  | .choice (some path) [.text _] [] => path = ["typescript"]
  | .value path => path = ["componentName"] || path = ["tagName"]
  | _ => false

/-- What such a part is filled to. -/
def frameText (typed : Bool) (name : String) : Part → String
  | .text s => s
  | .choice _ [.text s] _ => if typed then s else ""
  | .value path => if path = ["tagName"] then Variant.tagName name else name
  | _ => ""

def frameTexts (typed : Bool) (name : String) (ps : List Part) : String :=
  String.join (ps.map (frameText typed name))

/-- Whether a template has the literal in one place, outside of its blocks. -/
def embedsLiteral (ps : List Part) : Bool :=
  match ps.dropWhile isFrame with
  | .value path :: after => path = ["formattedNodes"] && after.all isFrame
  | _ => false

theorem exists_of_embedsLiteral {ps : List Part} (h : embedsLiteral ps = true) :
    ∃ after, ps = ps.takeWhile isFrame ++ .value ["formattedNodes"] :: after ∧
      (ps.dropWhile isFrame).tail = after ∧ after.all isFrame = true := by
  unfold embedsLiteral at h
  split at h
  · rename_i path after hdrop
    rw [Bool.and_eq_true, decide_eq_true_eq] at h
    obtain ⟨rfl, hafter⟩ := h
    refine ⟨after, ?_, by rw [hdrop, List.tail_cons], hafter⟩
    rw [← hdrop, List.takeWhile_append_dropWhile]
  · contradiction

end Template

namespace Variant

open Template

variable {v : Variant}

/-- The text of a component in front of its literal. -/
def textBefore (v : Variant) (typed : Bool) (name : String) : String :=
  frameTexts typed name (v.componentTemplate.takeWhile isFrame)

/-- The text of a component behind its literal. -/
def textBehind (v : Variant) (typed : Bool) (name : String) : String :=
  frameTexts typed name (v.componentTemplate.dropWhile isFrame).tail

theorem embedsLiteral_builtins (hv : v ∈ builtins) : embedsLiteral v.componentTemplate = true := by
  revert v
  decide +kernel

section

variable {name : String} {typed keepColors : Bool} {icon : Icon}

theorem fill_of_isFrame {p : Part} (h : isFrame p = true) :
    Part.fill (v.componentData name typed keepColors icon) p = .ok (frameText typed name p) := by
  fun_cases isFrame p with
  | case1 s => rfl
  | case2 path s =>
    obtain rfl := of_decide_eq_true h
    exact fill_typescript s
  | case3 path =>
    rw [isFrame, Bool.or_eq_true, decide_eq_true_eq, decide_eq_true_eq] at h
    rcases h with rfl | rfl
    · exact (fill_value_eq_ok_iff (v := .text name) rfl).mpr rfl
    · exact (fill_value_eq_ok_iff (v := .text (tagName name)) rfl).mpr rfl
  | case4 htext hchoice hvalue =>
    rw [isFrame] at h
    · contradiction
    all_goals assumption

theorem fillAll_of_isFrame {ps : List Part} (h : ps.all isFrame = true) :
    Part.fillAll (v.componentData name typed keepColors icon) ps =
      .ok (frameTexts typed name ps) := by
  induction ps with
  | nil => rfl
  | cons p ps ih =>
    rw [List.all_cons, Bool.and_eq_true] at h
    refine fillAll_cons_eq_ok_iff.mpr ⟨_, _, fill_of_isFrame h.1, ih h.2, ?_⟩
    rw [frameTexts, List.map_cons, String.join_cons]
    rfl

end

/-- A component is its literal between the texts of its template. -/
theorem renderComponent_eq (hv : v ∈ builtins) (name : String) (typed keepColors : Bool)
    (icon : Icon) : v.renderComponent name typed keepColors icon =
      .ok (v.textBefore typed name ++ v.literal keepColors icon ++ v.textBehind typed name) := by
  obtain ⟨after, htemplate, htail, hafter⟩ := exists_of_embedsLiteral (embedsLiteral_builtins hv)
  have hliteral : (v.componentData name typed keepColors icon).at? ["formattedNodes"] =
      some (.text (v.literal keepColors icon)) := rfl
  have hbefore := @fillAll_of_isFrame v name typed keepColors icon _
    (List.all_takeWhile (p := isFrame) (l := v.componentTemplate))
  have hbehind := @fillAll_of_isFrame v name typed keepColors icon _ hafter
  have hfill : Part.fillAll (v.componentData name typed keepColors icon) v.componentTemplate =
      .ok (v.textBefore typed name ++ v.literal keepColors icon ++ v.textBehind typed name) := by
    rw [htemplate, fillAll_append_eq_ok_iff]
    refine ⟨_, _, hbefore, fillAll_cons_eq_ok_iff.mpr
      ⟨_, _, (fill_value_eq_ok_iff hliteral).mpr rfl, hbehind, rfl⟩, ?_⟩
    rw [textBehind, htail, String.append_assoc]
    rfl
  rw [renderComponent, fill, Template.render, hfill]

/-- A component holds the literal of its icon as it is, between two texts that only the name has a
say in. Variants whose keys are spelled alike hold the same literal but for the spaces in front of
its lines. -/
theorem literal_embedded (hv : v ∈ builtins) (typed : Bool) :
    (∃ before behind : String → String, ∀ name keepColors icon,
      v.renderComponent name typed keepColors icon = .ok (before name ++
        Literal.icon v.keyStyle v.nodeIndent (icon.normalized keepColors) ++ behind name)) ∧
    ∀ w ∈ builtins, w.keyStyle = v.keyStyle → ∀ keepColors icon,
      v.literal keepColors icon = Literal.indented v.nodeIndent
        (Literal.icon v.keyStyle 0 (icon.normalized keepColors)) ∧
      w.literal keepColors icon = Literal.indented w.nodeIndent
        (Literal.icon v.keyStyle 0 (icon.normalized keepColors)) := by
  refine ⟨⟨v.textBefore typed, v.textBehind typed, fun name keepColors icon =>
    renderComponent_eq hv name typed keepColors icon⟩, ?_⟩
  intro w _ hstyle keepColors icon
  refine ⟨Literal.icon_eq_indented _ _ _, ?_⟩
  rw [literal, hstyle]
  exact Literal.icon_eq_indented _ _ _

/-- A drawing whose text could be taken for a place in a template, and for markup. -/
def braced : Icon :=
  [.branch .group ⟨[], by simp⟩
    [.leaf .path ⟨[("d", .text "\x7b\x7bcomponentName\x7d\x7d & <b>")], by simp⟩]]

theorem literal_embedded_braced :
    angular ∈ builtins ∧ lit ∈ builtins ∧ lit.keyStyle = angular.keyStyle ∧
    (∃ before behind : String → String, ∀ name,
      angular.renderComponent name true false braced = .ok (before name ++
        ("    ['g', \x7b\x7d, [\n" ++
          "      ['path', \x7b d: '\x7b\x7bcomponentName\x7d\x7d & <b>' \x7d]\n" ++
          "    ]]") ++ behind name)) ∧
    lit.literal false braced = Literal.indented 2
      ("['g', \x7b\x7d, [\n" ++
        "  ['path', \x7b d: '\x7b\x7bcomponentName\x7d\x7d & <b>' \x7d]\n" ++ "]]") := by
  have hangular : angular ∈ builtins := by simp [builtins]
  have hlit : lit ∈ builtins := by simp [builtins]
  obtain ⟨⟨before, behind, hrender⟩, hlines⟩ := literal_embedded hangular true
  have hliteral : Literal.icon angular.keyStyle angular.nodeIndent (braced.normalized false) =
      "    ['g', \x7b\x7d, [\n" ++
        "      ['path', \x7b d: '\x7b\x7bcomponentName\x7d\x7d & <b>' \x7d]\n" ++ "    ]]" := by
    decide +kernel
  refine ⟨hangular, hlit, rfl, ⟨before, behind, fun name => ?_⟩, ?_⟩
  · rw [hrender, hliteral]
  · rw [(hlines lit hlit rfl false braced).2]
    decide +kernel

end Variant

end IconCompiler
