import IconCompiler.Proofs.Variant.Index

/-!
Names in an index. Whatever variant an index is written for, built in or not, each of its lines
exports one component, and the names are read from the lines in the order in which they were listed.
-/

namespace IconCompiler

namespace Exports

/-- The name under which a line exports something: the one behind `as`, or else the one that it has
in its module. -/
def name? (line : List Char) : Option String :=
  match Text.splitAt (· == ' ') line with
  | _ :: _ :: name :: next :: renamed :: _ =>
    some (String.ofList (if next = ['a', 's'] then renamed else name))
  | _ => none

/-- The names that a text exports, in the order of its lines. -/
def names (text : String) : List String :=
  (Text.splitAt (· == '\n') text.toList).filterMap name?

theorem names_lines {ls : List String} (h : ∀ l ∈ ls, '\n' ∉ l.toList) :
    names (Text.lines ls) = ls.filterMap fun l => name? l.toList :=
  Text.filterMap_splitAt_lines rfl h

end Exports

namespace Variant

open Exports

section

variable {v : Variant} {typed : Bool} {name : String}

/-- The words of an opening, in front of those of what it opens. -/
theorem splitAt_exportOpening (v : Variant) (cs : List Char) :
    Text.splitAt (· == ' ') (v.exportOpening.toList ++ cs) =
      "export".toList :: ['\x7b'] ::
        ((if v.family.usesDefaultExports then ["default".toList, "as".toList] else []) ++
          Text.splitAt (· == ' ') cs) := by
  unfold exportOpening
  split
  · exact (Text.splitAt_append _ "export \x7b default as".toList cs ' ' rfl).trans rfl
  · exact (Text.splitAt_append _ "export \x7b".toList cs ' ' rfl).trans rfl

/-- The line that exports a component names it, whatever the component is called. -/
theorem name?_exportLine (hname : ComponentName.isValid name = true) :
    name? (v.exportLine typed name).toList = some name := by
  have hn : Text.splitAt (· == ' ') name.toList = [name.toList] := by
    refine Text.splitAt_of_forall_not _ _ fun c hc => ?_
    rw [beq_eq_false_iff_ne]
    rintro rfl
    exact ComponentName.not_mem_of_isValid hname ' ' (by decide) hc
  -- behind the name come two more words, the closing brace first
  have hline : (v.exportLine typed name).toList = v.exportOpening.toList ++ (name.toList ++
      ' ' :: (['\x7d'] ++ ' ' :: ("from".toList ++ ' ' ::
        ("'./".toList ++ (v.importPath typed name).toList ++ ['\''])))) := by
    simp [exportLine]
  have hbrace : Text.splitAt (· == ' ') ['\x7d'] = [['\x7d']] := rfl
  have hfrom : Text.splitAt (· == ' ') "from".toList = ["from".toList] := rfl
  have hname : some (String.ofList name.toList) = some name := congrArg some String.ofList_toList
  rw [name?, hline, splitAt_exportOpening, Text.splitAt_append _ _ _ _ rfl, hn,
    Text.splitAt_append _ _ _ _ rfl, hbrace, Text.splitAt_append _ _ _ _ rfl, hfrom]
  cases v.family.usesDefaultExports
  · exact hname
  · exact hname

/-- The names that an index was written for stand in it. -/
theorem names_lines_exportLine (hv : v.IsQuotable typed) {names : List String}
    (hnames : ∀ n ∈ names, ComponentName.isValid n = true) :
    Exports.names (Text.lines (names.map (v.exportLine typed))) = names := by
  have hname : ∀ n ∈ names, name? (v.exportLine typed n).toList = some n :=
    fun n hn => name?_exportLine (hnames n hn)
  rw [Exports.names_lines (hv.lineEnd_not_mem_of_mem_map hnames), List.filterMap_map,
    Function.comp_def, List.filterMap_congr hname, List.filterMap_some]

end

/-- An index has one line for every component, in order, and nothing else. What it lists is read
from it, so no two lists have the same index. -/
theorem index_lists_names {v : Variant} {typed : Bool} (hv : v ∈ builtins ∨ v.IsQuotable typed)
    {names : List String} (hnames : ∀ n ∈ names, ComponentName.isValid n = true) :
    ∃ text, v.renderIndex names typed = .ok text ∧
      (v.family = .templateDirective → text = Text.lines (names.map fun n =>
        "export \x7b default as " ++ n ++ " \x7d from './" ++ v.componentFileName n typed ++ "'")) ∧
      (v.family ≠ .templateDirective → text = Text.lines (names.map fun n =>
        "export \x7b " ++ n ++ " \x7d from './" ++ n ++ "'")) ∧
      Text.splitAt (· == '\n') text.toList =
        names.map (fun n => (v.exportLine typed n).toList) ++ [[]] ∧
      Exports.names text = names ∧
      ∀ others, (∀ n ∈ others, ComponentName.isValid n = true) →
        v.renderIndex others typed = .ok text → others = names := by
  have hquotable : v.IsQuotable typed := by
    rcases hv with hbuiltin | hquotable
    · exact (namesFiles_of_mem_builtins hbuiltin).isQuotable typed
    · exact hquotable
  have hread := names_lines_exportLine hquotable hnames
  refine ⟨_, renderIndex_eq v names typed, fun hfamily => ?_, fun hfamily => ?_, ?_, hread, ?_⟩
  · have hdefault : v.family.usesDefaultExports = true := by
      rw [hfamily]
      rfl
    apply congrArg fun line => Text.lines (names.map line)
    funext n
    simp only [exportLine, exportOpening, importPath, hdefault, if_true]
  · have hnamed : v.family.usesDefaultExports = false := beq_eq_false_iff_ne.mpr hfamily
    apply congrArg fun line => Text.lines (names.map line)
    funext n
    simp only [exportLine, exportOpening, importPath, hnamed, Bool.false_eq_true, if_false]
  · have hsplit := Text.splitAt_lines (hquotable.lineEnd_not_mem_of_mem_map hnames) []
    rwa [List.append_nil, List.map_map] at hsplit
  · intro others hothers h
    have htext := Except.ok.inj ((renderIndex_eq v others typed).symm.trans h)
    rw [← names_lines_exportLine hquotable hothers, htext]
    exact hread

/-- A variant of its own, with a point in an extension. -/
def nested : Variant := { vue with id := "nested", component := ⟨"icon.vue", "icon"⟩ }

theorem names_of_nested_listed :
    nested.IsQuotable true ∧ (∀ n ∈ ["default", "as", "default"], ComponentName.isValid n = true) ∧
      ∃ text, nested.renderIndex ["default", "as", "default"] true = .ok text ∧
        text = Text.lines
          ["export \x7b default as default \x7d from './default.icon.vue'",
            "export \x7b default as as \x7d from './as.icon.vue'",
            "export \x7b default as default \x7d from './default.icon.vue'"] ∧
        Exports.names text = ["default", "as", "default"] := by
  have hquotable : nested.IsQuotable true := ⟨by decide, by decide⟩
  have hnames : ∀ n ∈ ["default", "as", "default"], ComponentName.isValid n = true := by decide
  obtain ⟨text, htext, hlines, -, -, hread, -⟩ := index_lists_names (Or.inr hquotable) hnames
  exact ⟨hquotable, hnames, text, htext, (hlines rfl).trans rfl, hread⟩

end Variant

end IconCompiler
