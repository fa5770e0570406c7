import IconCompiler.Proofs.Generation.FileNames
import IconCompiler.Proofs.Template.Filled
import IconCompiler.Proofs.Text.Words
import IconCompiler.Variant.Builtin

/-!
Tags of custom elements and selectors of classes. A tag keeps the words of a component's name and
loses the case of their letters, so names that differ otherwise may have one tag.
-/

namespace IconCompiler.Variant

open Template Template.Builtin

/-- Where a component has its tag: among the arguments of the factory that registers the element,
or in the selector of the class. -/
structure Tagged (v : Variant) (name code : String) : Prop where
  element : v = lit → ∃ front,
    code = front ++ "createIcon('" ++ name ++ "', '" ++ tagName name ++ "', iconNode)\n"
  selector : v = angular → ∃ front back,
    code = front ++ "  selector: '" ++ tagName name ++ "',\n" ++ back

section

variable {name code : String} {typed keepColors : Bool} {icon : Icon}

theorem render_of_renderComponent {v : Variant}
    (h : v.renderComponent name typed keepColors icon = .ok code) :
    Part.fillAll (v.componentData name typed keepColors icon) v.componentTemplate = .ok code := by
  unfold renderComponent fill at h
  split at h
  · rename_i text ht
    rwa [← Except.ok.inj h]
  · contradiction

theorem element_lit (h : lit.renderComponent name typed keepColors icon = .ok code) :
    ∃ front, code = front ++ "createIcon('" ++ name ++ "', '" ++ tagName name ++
      "', iconNode)\n" := by
  have hparts : lit.componentTemplate = lit.componentTemplate.take 10 ++
      [.text " = createIcon('", componentName, .text "', '", Builtin.tagName,
        .text "', iconNode)\n"] := rfl
  have hcode := render_of_renderComponent h
  rw [hparts, fillAll_append_eq_ok_iff] at hcode
  obtain ⟨front, back, -, hback, rfl⟩ := hcode
  have hname : (lit.componentData name typed keepColors icon).at? ["componentName"] =
      some (.text name) := rfl
  have htag : (lit.componentData name typed keepColors icon).at? ["tagName"] =
      some (.text (tagName name)) := rfl
  simp only [Part.fillAll, Part.fill, componentName, Builtin.tagName, hname, htag, bind,
    Except.bind, pure, Except.pure, Except.ok.injEq] at hback
  refine ⟨front ++ " = ", ?_⟩
  rw [← hback]
  simp [String.append_assoc, Data.shown]

theorem selector_angular (h : angular.renderComponent name typed keepColors icon = .ok code) :
    ∃ front back, code = front ++ "  selector: '" ++ tagName name ++ "',\n" ++ back := by
  obtain ⟨front, rest, parts, hparts⟩ : ∃ front rest parts, angular.componentTemplate =
      [.text (front ++ "  selector: '"), Builtin.tagName,
        .text (Text.lines ("'," :: rest) ++ "export class ")] ++ parts := ⟨_, _, _, rfl⟩
  have hcode := render_of_renderComponent h
  rw [hparts, fillAll_append_eq_ok_iff] at hcode
  obtain ⟨a, b, ha, -, rfl⟩ := hcode
  have htag : (angular.componentData name typed keepColors icon).at? ["tagName"] =
      some (.text (tagName name)) := rfl
  simp only [Part.fillAll, Part.fill, Builtin.tagName, htag, bind, Except.bind, pure, Except.pure,
    Except.ok.injEq] at ha
  refine ⟨front, Text.lines rest ++ "export class " ++ b, ?_⟩
  rw [← ha]
  simp [String.append_assoc, Data.shown, Text.lines, String.join_cons]

theorem tagged_of_renderComponent {v : Variant}
    (h : v.renderComponent name typed keepColors icon = .ok code) : v.Tagged name code :=
  ⟨fun hv => element_lit (hv ▸ h), fun hv => selector_angular (hv ▸ h)⟩

end

/-- Valid names have one tag exactly if their words are the same but for capitals. -/
theorem tagName_eq_iff {a b : String} (ha : ComponentName.isValid a = true)
    (hb : ComponentName.isValid b = true) :
    tagName a = tagName b ↔ Text.foldedWords a.toList = Text.foldedWords b.toList := by
  rw [tagName, tagName, String.append_right_inj]
  exact Text.hyphenated_eq_iff (ComponentName.isValid_chars ha) (ComponentName.isValid_chars hb)

end IconCompiler.Variant
