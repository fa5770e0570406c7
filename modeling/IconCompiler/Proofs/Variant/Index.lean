import IconCompiler.Proofs.Text.Front
import IconCompiler.Proofs.Variant.Exports
import IconCompiler.Proofs.Variant.Tag
import Mathlib.Data.List.Basic

/-!
What an index exports: the components that it was rendered for, in order, each from the file that
the component is written to.
-/

namespace IconCompiler.Variant

open Template Exports

/-- The file that a module named in an index is: one of that name, or one of that name with the
extension of components. -/
def moduleFile (v : Variant) (typed : Bool) (module : String) : String :=
  if '.' ∈ module.toList then module else v.componentFileName module typed

/-! ## The text of an index -/

def exportOpening (v : Variant) : String :=
  if v.family.usesDefaultExports then "export \x7b default as " else "export \x7b "

/-- The line that exports a component. -/
def exportLine (v : Variant) (typed : Bool) (name : String) : String :=
  v.exportOpening ++ name ++ " \x7d from './" ++ v.importPath typed name ++ "'"

/-- A template that repeats one line for every component. -/
theorem render_lines (entry : String → Data) (opening : String) (path : String → String)
    (hname : ∀ n, (entry n).at? ["name"] = some (.text n))
    (hpath : ∀ n, (entry n).at? ["path"] = some (.text (path n))) (names : List String) :
    Template.render
      [.loop (some ["components"]) [.text opening, .value ["name"], .text " \x7d from './",
        .value ["path"], .text (Text.lines ["'"])]]
      (.record [("components", .list (names.map entry))]) =
      .ok (Text.lines (names.map fun n => opening ++ n ++ " \x7d from './" ++ path n ++ "'")) := by
  have hbody : ∀ n, Part.fillAll (entry n) [.text opening, .value ["name"],
      .text " \x7d from './", .value ["path"], .text (Text.lines ["'"])] =
      .ok (opening ++ n ++ " \x7d from './" ++ path n ++ "'" ++ "\n") := by
    intro n
    simp [Part.fillAll, Part.fill, hname, hpath, bind, Except.bind, pure, Except.pure, Data.shown,
      Text.lines, String.append_assoc]
  rw [Template.render, fillAll_singleton, fill_loop rfl, repeated_map hbody, Text.lines,
    List.map_map]
  rfl

/-- Every list of names has an index, with one line for each. -/
theorem renderIndex_eq (v : Variant) (names : List String) (typed : Bool) :
    v.renderIndex names typed = .ok (Text.lines (names.map (v.exportLine typed))) := by
  have hname : ∀ n : String, Data.at? (.record
      [("name", .text n), ("path", .text (v.importPath typed n))]) ["name"] = some (.text n) :=
    fun _ => rfl
  have hpath : ∀ n : String, Data.at? (.record
      [("name", .text n), ("path", .text (v.importPath typed n))]) ["path"] =
        some (.text (v.importPath typed n)) := fun _ => rfl
  have hfill := fun opening => render_lines _ opening (v.importPath typed) hname hpath names
  unfold exportLine exportOpening
  cases hd : v.family.usesDefaultExports with
  | true =>
    have hrender := hfill "export \x7b default as "
    simp only [renderIndex, hd, if_true, fill, Builtin.Index.byDefault, hrender]
  | false =>
    have hrender := hfill "export \x7b "
    simp only [renderIndex, hd, Bool.false_eq_true, if_false, fill, Builtin.Index.named, hrender]

/-! ## Its modules -/

theorem module?_exportLine {v : Variant} {typed : Bool} {name : String}
    (hname : '\'' ∉ name.toList) (hpath : '\'' ∉ (v.importPath typed name).toList) :
    module? (v.exportLine typed name).toList = some (v.importPath typed name) := by
  obtain ⟨rest, hopening, hrest⟩ : ∃ rest, v.exportOpening.toList = keyword ++ rest ∧
      '\'' ∉ rest := by
    unfold exportOpening
    split
    · exact ⟨" default as ".toList, rfl, by decide⟩
    · exact ⟨" ".toList, rfl, by decide⟩
  have hline : (v.exportLine typed name).toList =
      (keyword ++ rest ++ name.toList ++ " \x7d from ".toList) ++ '\'' ::
        ('.' :: '/' :: ((v.importPath typed name).toList ++ ['\''])) := by
    simp [exportLine, hopening]
  have hfront : '\'' ∉ keyword ++ rest ++ name.toList ++ " \x7d from ".toList := by
    have hkeyword : '\'' ∉ keyword := by decide
    simp [hkeyword, hrest, hname]
  rw [module?, hline, Text.dropWhile_ne hfront, if_pos (by simp)]
  simp only [Text.takeWhile_ne hpath, String.ofList_toList]

/-- The modules of lines are those of each line. -/
theorem modules_lines {ls : List String} (h : ∀ l ∈ ls, '\n' ∉ l.toList) :
    modules (Text.lines ls) = ls.filterMap fun l => module? l.toList :=
  Text.filterMap_splitAt_lines rfl h

section

variable {v : Variant} {typed : Bool} {name : String}

theorem not_mem_importPath (h : ComponentName.isValid name = true) {c : Char}
    (hc : (c.isAlphanum || c == '_') = false) (hpoint : c ≠ '.')
    (hext : c ∉ (v.component.pick typed).toList) : c ∉ (v.importPath typed name).toList := by
  have hname := ComponentName.not_mem_of_isValid h c hc
  unfold importPath
  split
  · simp [componentFileName, hname, hpoint, hext]
  · exact hname

/-- The extension of components can stand in a quoted module name. -/
structure IsQuotable (v : Variant) (typed : Bool) : Prop where
  quote : '\'' ∉ (v.component.pick typed).toList
  lineEnd : '\n' ∉ (v.component.pick typed).toList

theorem NamesFiles.isQuotable (h : v.NamesFiles) (typed : Bool) : v.IsQuotable typed := by
  have hall : ∀ e ∈ sourceExtensions, '\'' ∉ e.toList ∧ '\n' ∉ e.toList := by decide
  obtain ⟨hquote, hlineEnd⟩ := hall _ (h.component typed)
  exact ⟨hquote, hlineEnd⟩

namespace IsQuotable

theorem lineEnd_not_mem_exportLine (hv : v.IsQuotable typed)
    (hname : ComponentName.isValid name = true) : '\n' ∉ (v.exportLine typed name).toList := by
  have hn := ComponentName.not_mem_of_isValid hname '\n' (by decide)
  have hopening : '\n' ∉ v.exportOpening.toList := by
    unfold exportOpening
    split <;> decide
  have hpath := not_mem_importPath hname (by decide) (by decide) hv.lineEnd
  simp [exportLine, hopening, hn, hpath]

theorem lineEnd_not_mem_of_mem_map (hv : v.IsQuotable typed) {names : List String}
    (hnames : ∀ n ∈ names, ComponentName.isValid n = true) :
    ∀ l ∈ names.map (v.exportLine typed), '\n' ∉ l.toList := by
  intro l hl
  obtain ⟨n, hn, rfl⟩ := List.mem_map.mp hl
  exact hv.lineEnd_not_mem_exportLine (hnames n hn)

end IsQuotable

/-- An index exports the components that it was rendered for, in order. -/
theorem modules_renderIndex (hv : v.NamesFiles) {names : List String} {text : String}
    (hnames : ∀ n ∈ names, ComponentName.isValid n = true)
    (h : v.renderIndex names typed = .ok text) :
    modules text = names.map (v.importPath typed) := by
  have hquotable := hv.isQuotable typed
  have hmodule : ∀ n ∈ names,
      module? (v.exportLine typed n).toList = some (v.importPath typed n) := fun n hn =>
    module?_exportLine (ComponentName.not_mem_of_isValid (hnames n hn) '\'' (by decide))
      (not_mem_importPath (hnames n hn) (by decide) (by decide) hquotable.quote)
  have htext := Except.ok.inj ((v.renderIndex_eq names typed).symm.trans h)
  rw [← htext, modules_lines (hquotable.lineEnd_not_mem_of_mem_map hnames), List.filterMap_map,
    Function.comp_def, List.filterMap_congr hmodule, List.filterMap_eq_map']

theorem moduleFile_importPath (h : ComponentName.isValid name = true) :
    v.moduleFile typed (v.importPath typed name) = v.componentFileName name typed := by
  unfold moduleFile importPath
  split
  · rw [if_pos]
    simp [componentFileName]
  · rw [if_neg]
    exact ComponentName.not_mem_of_isValid h '.' (by decide)

end

end IconCompiler.Variant
