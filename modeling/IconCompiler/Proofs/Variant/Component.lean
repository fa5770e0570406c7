import IconCompiler.Proofs.Icon.Lines
import IconCompiler.Proofs.Variant.Tag

/-!
No line of a component exports from another module. The check of a template stands for all its
components: a name or a tag may stand only in a line that is settled already, and the literal of the
icon only at the beginning of a line.
-/

namespace IconCompiler.Variant

open Exports Template

/-- Whether no text that a template is filled to has a line that exports, when it goes on from a
line like this. -/
def settles (typed : Bool) : Line → List Part → Bool
  | _, [] => true
  | l, .text s :: ps => (l.after s.toList).any fun l' => settles typed l' ps
  | l, .choice (some path) [.text s] [] :: ps =>
    path = ["typescript"] &&
      if typed then (l.after s.toList).any fun l' => settles typed l' ps else settles typed l ps
  | l, .value path :: ps =>
    if path = ["formattedNodes"] then
      l = .start && settles typed .start ps && settles typed .settled ps
    else
      (path = ["componentName"] || path = ["tagName"]) && l = .settled && settles typed .settled ps
  | _, _ => false

theorem settles_text_append (typed : Bool) (l : Line) (a b : String) (ps : List Part) :
    settles typed l (.text (a ++ b) :: ps) = settles typed l (.text a :: .text b :: ps) := by
  have hafter : l.after (a ++ b).toList = (l.after a.toList).bind fun l' => l'.after b.toList := by
    rw [String.toList_append, Line.after, List.foldlM_append]
    rfl
  rw [settles, settles, hafter]
  cases l.after a.toList with
  | none => rfl
  | some l' =>
    rw [Option.bind_some, Option.any_some, settles]

/-- The texts of this template are long, so they are looked at line by line. -/
theorem settles_angular (typed : Bool) :
    settles typed .start angular.componentTemplate = true := by
  simp only [angular, script, Builtin.Angular.component, Text.lines, List.map_cons, List.map_nil,
    String.join_cons, settles_text_append]
  revert typed
  decide +kernel

theorem settles_builtins {v : Variant} (h : v ∈ builtins) (typed : Bool) :
    settles typed .start v.componentTemplate = true := by
  have hothers : ∀ v ∈ builtins.dropLast, ∀ typed,
      settles typed .start v.componentTemplate = true := by
    decide +kernel
  rcases List.mem_append.mp (show v ∈ builtins.dropLast ++ [angular] from h) with h | h
  · exact hothers v h typed
  · rw [List.mem_singleton.mp h]
    exact settles_angular typed

/-- A tag has letters, digits and hyphens only. -/
theorem not_mem_tagName {name : String} (h : ComponentName.isValid name = true) {c : Char}
    (hc : c.isAlphanum = false) (hhyphen : c ≠ '-') : c ∉ (tagName name).toList := by
  have hfront : "vectify-".toList.all (fun d => d.isAlphanum || d = '-') = true := by decide
  rw [tagName, String.toList_append, List.mem_append, not_or]
  constructor
  · intro hmem
    have hd := List.all_eq_true.mp hfront c hmem
    simp [hc, hhyphen] at hd
  · intro hmem
    rcases Text.of_mem_hyphenated (ComponentName.isValid_chars h) hmem with hd | hd
    · exact hhyphen hd
    · exact Bool.false_ne_true (hc.symm.trans hd)

theorem nodeIndent_ne_zero {v : Variant} (h : v ∈ builtins) : v.nodeIndent ≠ 0 := by
  revert v
  decide

section

variable {v : Variant} {name : String} {typed keepColors : Bool} {icon : Icon}

theorem fill_typescript (s : String) :
    Part.fill (v.componentData name typed keepColors icon)
      (.choice (some ["typescript"]) [.text s] []) = .ok (if typed then s else "") := by
  have hvalue : (v.componentData name typed keepColors icon).at? ["typescript"] =
      some (.bool typed) := rfl
  cases typed <;>
    simp [Part.fill, Part.fillAll, argument, hvalue, Data.holds, bind, Except.bind, pure,
      Except.pure]

/-- Names and tags go over no line end. -/
theorem not_mem_of_fill (hname : ComponentName.isValid name = true) {path : List String}
    (hpath : path = ["componentName"] ∨ path = ["tagName"]) {text : String}
    (h : Part.fill (v.componentData name typed keepColors icon) (.value path) = .ok text) :
    '\n' ∉ text.toList := by
  rcases hpath with rfl | rfl
  · have hvalue : (v.componentData name typed keepColors icon).at? ["componentName"] =
        some (.text name) := rfl
    obtain rfl := (fill_value_eq_ok_iff hvalue).mp h
    exact ComponentName.not_mem_of_isValid hname '\n' (by decide)
  · have hvalue : (v.componentData name typed keepColors icon).at? ["tagName"] =
        some (.text (tagName name)) := rfl
    obtain rfl := (fill_value_eq_ok_iff hvalue).mp h
    exact not_mem_tagName hname (by decide) (by decide)

theorem exists_after_append {l l₁ : Line} {a b : String} (ha : l.after a.toList = some l₁)
    (hb : ∃ l', l₁.after b.toList = some l') : ∃ l', l.after (a ++ b).toList = some l' := by
  obtain ⟨l', hb⟩ := hb
  rw [String.toList_append]
  exact ⟨l', Line.after_append ha hb⟩

theorem exists_after_of_settles (hname : ComponentName.isValid name = true)
    (hindent : v.nodeIndent ≠ 0) {l : Line} {ps : List Part} {text : String}
    (h : settles typed l ps = true)
    (ht : Part.fillAll (v.componentData name typed keepColors icon) ps = .ok text) :
    ∃ l', l.after text.toList = some l' := by
  fun_induction settles typed l ps generalizing text with
  | case1 l =>
    rw [Part.fillAll, Except.ok.injEq] at ht
    subst ht
    exact ⟨l, rfl⟩
  | case2 l s ps ih =>
    obtain ⟨a, b, ha, hb, rfl⟩ := fillAll_cons_eq_ok_iff.mp ht
    obtain rfl := fill_text_eq_ok_iff.mp ha
    obtain ⟨l', hl', hps⟩ := (Option.any_eq_true _ _).mp h
    exact exists_after_append hl' (ih l' hps hb)
  | case3 l path s ps ih' ih =>
    rw [Bool.and_eq_true, decide_eq_true_eq] at h
    obtain ⟨rfl, h⟩ := h
    obtain ⟨a, b, ha, hb, rfl⟩ := fillAll_cons_eq_ok_iff.mp ht
    rw [fill_typescript, Except.ok.injEq] at ha
    subst ha
    split at h
    · rename_i htyped
      obtain ⟨l', hl', hps⟩ := (Option.any_eq_true _ _).mp h
      rw [if_pos htyped]
      exact exists_after_append hl' (ih' l' hps hb)
    · rename_i htyped
      rw [if_neg htyped]
      exact exists_after_append rfl (ih h hb)
  | case4 l ps ihStart ihSettled =>
    simp only [Bool.and_eq_true, decide_eq_true_eq] at h
    obtain ⟨⟨rfl, hstart⟩, hsettled⟩ := h
    obtain ⟨a, b, ha, hb, rfl⟩ := fillAll_cons_eq_ok_iff.mp ht
    have hvalue : (v.componentData name typed keepColors icon).at? ["formattedNodes"] =
        some (.text (v.literal keepColors icon)) := rfl
    obtain rfl := (fill_value_eq_ok_iff hvalue).mp ha
    -- an icon without nodes leaves the line as it begins
    rcases Literal.after_icon v.keyStyle hindent (icon.normalized keepColors) with hl | hl
    · exact exists_after_append hl (ihStart hstart hb)
    · exact exists_after_append hl (ihSettled hsettled hb)
  | case5 l path ps hpath ih =>
    simp only [Bool.and_eq_true, Bool.or_eq_true, decide_eq_true_eq] at h
    obtain ⟨⟨hpath, rfl⟩, hps⟩ := h
    obtain ⟨a, b, ha, hb, rfl⟩ := fillAll_cons_eq_ok_iff.mp ht
    exact exists_after_append (Line.after_of_not_mem (not_mem_of_fill hname hpath ha)) (ih hps hb)
  | case6 => exact absurd h Bool.false_ne_true

/-- A component of a built-in variant exports from no module. -/
theorem modules_component (hv : v ∈ builtins) (hname : ComponentName.isValid name = true)
    {text : String} (h : v.renderComponent name typed keepColors icon = .ok text) :
    Exports.modules text = [] := by
  obtain ⟨l, hl⟩ := exists_after_of_settles hname (nodeIndent_ne_zero hv)
    (settles_builtins hv typed) (render_of_renderComponent h)
  exact Exports.modules_eq_nil hl

end

end IconCompiler.Variant
