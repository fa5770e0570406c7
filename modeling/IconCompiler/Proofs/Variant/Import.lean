import IconCompiler.Proofs.Generation.Cleanup
import IconCompiler.Proofs.Text.Occurrences
import IconCompiler.Proofs.Variant.Embedding

/-!
Components and the runtime that they import. A component of a built-in variant can be rendered from
every icon, and its text has the import of the runtime by which it is told from other files, since
the template has it outside of its blocks.
-/

namespace IconCompiler

/-! ## Texts outside of blocks -/

namespace Template

variable {d : Data} {ps : List Part} {s text : String}

theorem infix_of_mem_text (hs : Part.text s ∈ ps) (h : Part.fillAll d ps = .ok text) :
    s.toList <:+: text.toList := by
  induction ps generalizing text with
  | nil => contradiction
  | cons p ps ih =>
    obtain ⟨a, b, ha, hb, rfl⟩ := fillAll_cons_eq_ok_iff.mp h
    rw [String.toList_append]
    rcases List.mem_cons.mp hs with rfl | hs
    · obtain rfl := fill_text_eq_ok_iff.mp ha
      exact (List.prefix_append _ _).isInfix
    · exact (ih hs hb).trans (List.suffix_append _ _).isInfix

/-- Whether a template has this text outside of its blocks. -/
def containsPlain (piece : String) (ps : List Part) : Bool :=
  ps.any fun
    | .text s => Text.contains piece.toList s.toList
    | _ => false

theorem contains_of_containsPlain {piece : String} (hs : containsPlain piece ps = true)
    (h : Part.fillAll d ps = .ok text) : Text.contains piece.toList text.toList = true := by
  obtain ⟨p, hp, hpiece⟩ := List.any_eq_true.mp hs
  cases p with
  | text s =>
    exact Text.contains_iff_infix.mpr
      ((Text.contains_iff_infix.mp hpiece).trans (infix_of_mem_text hp h))
  | value _ | choice _ _ _ | loop _ _ | loopOr _ _ _ => contradiction

theorem line_infix_lines {line : String} {ls : List String} (h : line ∈ ls) :
    line.toList <:+: (Text.lines ls).toList := by
  induction ls with
  | nil => contradiction
  | cons l ls ih =>
    rw [Text.toList_lines_cons]
    rcases List.mem_cons.mp h with rfl | h
    · exact (List.prefix_append _ _).isInfix
    · exact ((ih h).trans (List.suffix_cons _ _).isInfix).trans (List.suffix_append _ _).isInfix

/-- In a text of lines it is enough to look at one of them. -/
theorem containsPlain_of_line {piece line rest : String} {ls : List String} (hline : line ∈ ls)
    (h : Text.contains piece.toList line.toList = true) :
    containsPlain piece (.text (Text.lines ls ++ rest) :: ps) = true := by
  have hpiece := (Text.contains_iff_infix.mp h).trans (line_infix_lines hline)
  rw [containsPlain, List.any_cons, Bool.or_eq_true]
  left
  apply Text.contains_iff_infix.mpr
  rw [String.toList_append]
  exact hpiece.trans (List.prefix_append _ _).isInfix

end Template

namespace Variant

open Template Exports

theorem containsPlain_runtimeImport {v : Variant} (h : v ∈ builtins) :
    containsPlain v.runtimeImport v.componentTemplate = true := by
  have hothers : ∀ v ∈ builtins.dropLast,
      containsPlain v.runtimeImport v.componentTemplate = true := by
    decide +kernel
  -- the texts of the last template are long, so only the line that imports is searched
  have hline : Text.contains angular.runtimeImport.toList
      "import \x7b VectifyIcon \x7d from './createIcon'".toList = true := by
    decide +kernel
  rcases List.mem_append.mp (show v ∈ builtins.dropLast ++ [angular] from h) with h | h
  · exact hothers v h
  · rw [List.mem_singleton.mp h]
    exact containsPlain_of_line (by simp) hline

variable {v : Variant} {name : String} {typed keepColors : Bool} {icon : Icon}

/-- Every component has the marker by which cleaning up knows components, whether the one or the
other is typed. -/
theorem contains_marker (hv : v ∈ builtins) {text : String}
    (h : v.renderComponent name typed keepColors icon = .ok text) (typed' : Bool) :
    Text.contains (Job.marker (v.runtimeFileName typed')).toList text.toList = true := by
  rw [(namesFiles_of_mem_builtins hv).marker]
  exact contains_of_containsPlain (containsPlain_runtimeImport hv) (render_of_renderComponent h)

/-! ## Rendering -/

/-- Every icon has a component, under every name. -/
theorem exists_renderComponent (hv : v ∈ builtins) (name : String) (typed keepColors : Bool)
    (icon : Icon) : ∃ text, v.renderComponent name typed keepColors icon = .ok text :=
  ⟨_, renderComponent_eq hv name typed keepColors icon⟩

theorem exists_renderRuntime (hv : v ∈ builtins) (typed : Bool) :
    ∃ runtime, v.renderRuntime typed = .ok runtime := by
  have hall : builtins.all (fun v =>
      [true, false].all fun typed => (v.renderRuntime typed).toOption.isSome) = true := by
    decide
  exact exists_eq_ok_of_isSome
    (List.all_eq_true.mp (List.all_eq_true.mp hall v hv) typed (by cases typed <;> decide))

end Variant

end IconCompiler
