import IconCompiler.Proofs.Generation.Accounts
import IconCompiler.Proofs.Variant.Bindings

/-!
What the modules of a run bind. A component is exported under its name, and a name is checked
letter by letter only: it may be a word of the language, or one that the template uses itself.
-/

namespace IconCompiler

namespace Job

open Script

variable {j : Job} {v : Variant} {files : List SourceFile}

/-- The names that no component of a variant can be exported under. -/
def takenNames (j : Job) (v : Variant) : List String :=
  v.ownNames j.config.typescript ++ reservedWords

theorem bindings_code (hv : Registry.builtin.get? j.config.framework = some v)
    (hd : v.family.usesDefaultExports = false) {icon : CompiledIcon} (h : icon ∈ j.icons files) :
    bindings icon.code = v.ownNames j.config.typescript ++ [icon.name] := by
  obtain ⟨-, tree, hcode⟩ := renderComponent_of_mem_icons hv h
  exact Variant.bindings_component (Registry.mem_builtins_of_get? hv) hd
    (mem_icons_verdicts hv h).1 hcode

theorem wellBound_code_iff (hv : Registry.builtin.get? j.config.framework = some v)
    (hd : v.family.usesDefaultExports = false) {icon : CompiledIcon} (h : icon ∈ j.icons files) :
    WellBound icon.code ↔ icon.name ∉ j.takenNames v :=
  wellBound_iff (bindings_code hv hd h) (v.nodup_ownNames _)
    (v.not_mem_reservedWords_of_mem_ownNames _)

/-- The names of the components are those of the drawings that compile. -/
theorem forall_name_icons {P : String → Prop} :
    (∀ i ∈ j.icons files, P i.name) ↔
      ∀ file ∈ j.successes files, P (j.naming.componentName file.fileName) := by
  have hnames := congrArg (List.map Prod.snd) (map_icons j files)
  rw [List.map_map, List.map_map] at hnames
  have hall := congrArg (fun ns => ∀ n ∈ ns, P n) hnames
  simpa only [List.forall_mem_map, Function.comp_def, eq_iff_iff] using hall

/-- A name begins with the prefix and ends in the suffix. -/
theorem affixes_componentName (o : NamingOptions) (fileName : String) :
    o.namePrefix.toList <+: (o.componentName fileName).toList ∧
      o.nameSuffix.toList <:+ (o.componentName fileName).toList := by
  simp only [NamingOptions.componentName, String.toList_append]
  refine ⟨?_, List.suffix_append _ _⟩
  rw [List.append_assoc]
  exact List.prefix_append _ _

/-- The components of a run that comes to its end are its successes. One that is exported by name
binds the identifiers of its template and that name. So the modules bind each identifier once, and
no reserved word, exactly if no component is named by a reserved word or like an identifier of its
template; and none is where no such word has both the prefix and the suffix of the run. -/
theorem modules_wellBound_iff {w : Writer} {t : FileTree} {report : GenerationReport}
    (h : (j.run w t files).report = .ok report) :
    ∃ v, Registry.builtin.get? j.config.framework = some v ∧
      report.stats.success = (j.successes files).length ∧
      (v.family.usesDefaultExports = false →
        (∀ i ∈ j.icons files, bindings i.code = v.ownNames j.config.typescript ++ [i.name]) ∧
        ((∀ i ∈ j.icons files, WellBound i.code) ↔
          ∀ file ∈ j.successes files, j.naming.componentName file.fileName ∉ j.takenNames v) ∧
        ((∀ n ∈ j.takenNames v, j.naming.namePrefix.toList <+: n.toList →
            ¬ j.naming.nameSuffix.toList <:+ n.toList) →
          ∀ i ∈ j.icons files, WellBound i.code)) := by
  obtain ⟨p, stats, -, hresult, rfl, -⟩ := run_eq_ok h
  obtain ⟨v, runtime, index, ho⟩ := outline_of_plan hresult
  refine ⟨v, ho.variant, ?_, fun hd => ?_⟩
  · rw [stats_of_plan hresult, ← length_icons]
    exact success_ofVerdicts _
  have hnames : (∀ i ∈ j.icons files, WellBound i.code) ↔
      ∀ file ∈ j.successes files, j.naming.componentName file.fileName ∉ j.takenNames v := by
    rw [← forall_name_icons (P := fun n => n ∉ j.takenNames v)]
    exact forall₂_congr fun i hi => wellBound_code_iff ho.variant hd hi
  refine ⟨fun i hi => bindings_code ho.variant hd hi, hnames, fun hfree => hnames.mpr ?_⟩
  intro file _ htaken
  obtain ⟨hfront, hback⟩ := affixes_componentName j.naming file.fileName
  exact hfree _ htaken hfront hback

/-- Drawings that are named like the type of the nodes, and like a word of the language. -/
def clashing : List SourceFile :=
  [⟨"icon-node.svg", "icon-node.svg", "<svg/>"⟩, ⟨".class.svg", ".class.svg", "<svg/>"⟩]

/-- A run that writes React components whose names begin with "Ui". -/
def prefixed : Job :=
  .ofConfig { Config.standard with framework := "react", output := "out", namePrefix := "Ui" }

theorem modules_wellBound_of_prefixed :
    ∃ report, (prefixed.run (.reliable false) (.fresh "work") clashing).report = .ok report ∧
      report.stats.success = 2 ∧
      (prefixed.icons clashing).map (·.name) = ["UiIconNode", "Uiclass"] ∧
      ∀ i ∈ prefixed.icons clashing, WellBound i.code := by
  obtain ⟨report, h⟩ := exists_report_of_isSome (show (prefixed.run (.reliable false)
    (.fresh "work") clashing).report.toOption.isSome = true by decide +kernel)
  obtain ⟨v, hv, hsuccess, hmodules⟩ := modules_wellBound_iff h
  obtain rfl : Variant.react = v := Option.some.inj ((show
    Registry.builtin.get? prefixed.config.framework = some .react from rfl).symm.trans hv)
  have hfree : ∀ n ∈ prefixed.takenNames .react, ¬ "Ui".toList <+: n.toList := by decide +kernel
  exact ⟨report, h, hsuccess.trans (by decide +kernel), by decide +kernel,
    (hmodules rfl).2.2 fun n hn hfront => absurd hfront (hfree n hn)⟩

/-- Both drawings compile: one module declares an identifier that it imports, and the other one
exports a reserved word. -/
theorem reserved_and_imported_names_accepted :
    (sample "react").config.validate = .ok () ∧
      ((sample "react").run (.reliable false) (.fresh "work") clashing).report.toOption.map
        (·.stats.success) = some 2 ∧
      ((sample "react").icons clashing).map (·.name) = ["IconNode", "class"] ∧
      ((sample "react").icons clashing).map (fun i => bindings i.code) =
        [["createIcon", "IconNode", "iconNode", "IconNode"],
          ["createIcon", "IconNode", "iconNode", "class"]] ∧
      "class" ∈ reservedWords ∧
      ∀ i ∈ (sample "react").icons clashing, ¬ WellBound i.code := by
  have hnames : ((sample "react").icons clashing).map (·.name) = ["IconNode", "class"] := by
    decide +kernel
  have hbindings : ∀ i ∈ (sample "react").icons clashing,
      bindings i.code = ["createIcon", "IconNode", "iconNode"] ++ [i.name] := fun i hi =>
    bindings_code (v := .react) rfl rfl hi
  refine ⟨by decide +kernel, by decide +kernel, hnames, ?_, by decide, fun i hi => ?_⟩
  · rw [List.map_congr_left hbindings]
    have hall := congrArg
      (List.map fun n => ["createIcon", "IconNode", "iconNode"] ++ [n]) hnames
    rw [List.map_map] at hall
    exact hall
  · have htaken : ∀ n ∈ ["IconNode", "class"], n ∈ (sample "react").takenNames .react := by
      decide +kernel
    rw [wellBound_code_iff (v := .react) rfl rfl hi, not_not]
    exact htaken _ (hnames ▸ List.mem_map_of_mem hi)

end Job

end IconCompiler
