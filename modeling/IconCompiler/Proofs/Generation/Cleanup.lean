import IconCompiler.Proofs.Generation.Outputs

/-!
What a run that cleans up removes: of the files that were in its directory before, those with the
extension of components, a name that the run does not reserve, and the beginning of an import of the
runtime in their text. Such a file need not import the runtime itself.
-/

namespace IconCompiler

open FileTree

namespace Variant

/-- How every component begins to name the runtime that it imports. -/
def runtimeImport (v : Variant) : String := "from './" ++ v.runtimeStem

/-- The text imports the runtime, named with or without its extension. -/
def ImportsRuntime (v : Variant) (typed : Bool) (text : String) : Prop :=
  Text.contains (v.runtimeImport ++ "'").toList text.toList = true ∨
    Text.contains ("from './" ++ v.runtimeFileName typed ++ "'").toList text.toList = true

theorem NamesFiles.marker {v : Variant} (h : v.NamesFiles) (typed : Bool) :
    Job.marker (v.runtimeFileName typed) = v.runtimeImport := by
  rw [h.runtimeFileName, Job.marker, takeWhile_fileName _ _ h.point_not_mem_runtimeStem,
    String.ofList_toList]
  rfl

end Variant

namespace Job

variable {j : Job} {v : Variant} {files : List SourceFile} {runtime : GeneratedFile}
  {index : Option GeneratedFile}

/-! ## Reserved names -/

/-- The names of the runtime, of the components of all drawings, whether they compile or not, and
of the index if one is asked for. -/
def Reserves (j : Job) (v : Variant) (files : List SourceFile) (s : String) : Prop :=
  s = v.runtimeFileName j.config.typescript ∨
    (∃ file ∈ files, ComponentName.isValid (j.naming.componentName file.fileName) = true ∧
      s = v.componentFileName (j.naming.componentName file.fileName) j.config.typescript) ∨
    (j.config.generate.index = true ∧ s = v.indexFileName j.config.typescript)

theorem validName?_verdict (done : List CompiledIcon) (file : SourceFile) :
    (j.verdict done file).validName? =
      if ComponentName.isValid (j.naming.componentName file.fileName) then
        some (j.naming.componentName file.fileName) else none := by
  unfold verdict compile
  dsimp only
  split
  · split
    · rfl
    · split <;> rfl
  · rfl

/-- The names of a run that nothing stops are the valid ones among those of all drawings. -/
theorem mem_validNames_verdicts (done : List CompiledIcon)
    (hf : (j.verdicts done files).findSome? (·.2.fatal?) = none) (name : String) :
    name ∈ (j.verdicts done files).filterMap (·.2.validName?) ↔
      ∃ file ∈ files, ComponentName.isValid name = true ∧
        name = j.naming.componentName file.fileName := by
  have hverdict : ∀ e ∈ j.verdicts done files, e.2.validName? = some name ↔
      ComponentName.isValid name = true ∧ name = j.naming.componentName e.1.fileName := by
    intro e he
    obtain ⟨done', hmade⟩ := exists_verdict_of_mem he
    rw [← hmade, validName?_verdict, Option.ite_none_right_eq_some, Option.some.injEq]
    constructor
    · rintro ⟨hvalid, rfl⟩
      exact ⟨hvalid, rfl⟩
    · rintro ⟨hvalid, rfl⟩
      exact ⟨hvalid, rfl⟩
  rw [List.mem_filterMap]
  constructor
  · rintro ⟨e, he, hname⟩
    exact ⟨e.1, map_fst_verdicts hf ▸ List.mem_map_of_mem he, (hverdict e he).mp hname⟩
  · rintro ⟨file, hfile, hname⟩
    rw [← map_fst_verdicts hf] at hfile
    obtain ⟨e, he, rfl⟩ := List.mem_map.mp hfile
    exact ⟨e, he, (hverdict e he).mpr hname⟩

theorem Outline.mem_keptNames_iff (h : Outline j files v runtime index) (s : String) :
    s ∈ j.keptNames v runtime files index ↔ j.Reserves v files s := by
  have hnames := mem_validNames_verdicts [] h.unstopped
  have hindex := indexFile?_eq_ok h.variant h.lists
  have hmap : ((j.verdicts [] files).filterMap fun e =>
      e.2.validName?.map (v.componentFileName · j.config.typescript)) =
      ((j.verdicts [] files).filterMap (·.2.validName?)).map
        (v.componentFileName · j.config.typescript) := by
    rw [List.map_filterMap]
  simp only [keptNames, kept, hmap, hindex, List.mem_append, List.mem_cons, List.mem_map, hnames,
    List.mem_ite_nil_right, List.not_mem_nil, or_false, compileRuntime_eq_ok h.variant h.compiles]
  constructor
  · rintro ((rfl | ⟨name, ⟨file, hfile, hvalid, rfl⟩, rfl⟩) | ⟨hon, rfl⟩)
    · exact Or.inl rfl
    · exact Or.inr (Or.inl ⟨file, hfile, hvalid, rfl⟩)
    · exact Or.inr (Or.inr ⟨hon, rfl⟩)
  · rintro (rfl | ⟨file, hfile, hvalid, rfl⟩ | ⟨hon, rfl⟩)
    · exact Or.inl (Or.inl rfl)
    · exact Or.inl (Or.inr ⟨_, ⟨file, hfile, hvalid, rfl⟩, rfl⟩)
    · exact Or.inr ⟨hon, rfl⟩

/-! ## Removed files -/

/-- A file that cleaning up takes for the component of a drawing that is no longer there. -/
structure TakesForStale (j : Job) (v : Variant) (files : List SourceFile) (s text : String) :
    Prop where
  extension : Path.extension? s = some (v.component.pick j.config.typescript)
  unreserved : ¬ j.Reserves v files s
  marked : Text.contains v.runtimeImport.toList text.toList = true

/-- The file of that path is in the directory of a run, and had this text before the run. -/
structure Held (j : Job) (t t' : FileTree) (path s text : String) (d : Location) : Prop where
  directory : t'.LocatesDirectory j.config.output d
  path_eq : path = Path.join j.config.output s
  hasText : t.HasText (d ++ [s]) text

theorem Held.unique {t t' : FileTree} {path s s' text text' : String} {d d' : Location}
    (ht : t.ProperlyNamed) (h : j.Held t t' path s text d) (h' : j.Held t t' path s' text' d') :
    s' = s ∧ text' = text := by
  obtain rfl := h.directory.unique h'.directory
  obtain ⟨c, hc, htext⟩ := h.hasText
  obtain ⟨c', hc', htext'⟩ := h'.hasText
  obtain rfl := Path.join_injective _ _ _ (ht.isName _ s _ hc).no_slash
    (ht.isName _ s' _ hc').no_slash (h.path_eq.symm.trans h'.path_eq)
  rw [hc, Option.some.injEq, Entry.file.injEq] at hc'
  subst hc'
  rw [htext, Option.some.injEq] at htext'
  exact ⟨rfl, htext'.symm⟩

/-- The stale files of the tree that the run has written to are those of the tree before it. -/
theorem Outline.mem_staleNames_iff (h : Outline j files v runtime index) {t t₁ : FileTree}
    {d : Location} (hw : WroteAmong t t₁ j.config.output ((j.plan files).files.map (·.fileName)))
    (hd : t₁.LocatesDirectory j.config.output d) (s : String) :
    s ∈ Writer.staleNames t₁ j.config.output (v.component.pick j.config.typescript)
        (marker runtime.fileName) (j.keptNames v runtime files index) ↔
      ∃ text, t.HasText (d ++ [s]) text ∧ j.TakesForStale v files s text := by
  have hmarker : marker runtime.fileName = v.runtimeImport := by
    rw [compileRuntime_eq_ok h.variant h.compiles]
    exact h.namesFiles.marker _
  -- what is stale after the run was not written by it, so it is what it was before
  have hunwritten : Path.extension? s = some (v.component.pick j.config.typescript) →
      s ∉ j.keptNames v runtime files index → s ∉ (j.plan files).files.map (·.fileName) := by
    intro he hk hm
    obtain ⟨f, hf, rfl⟩ := List.mem_map.mp hm
    rcases h.kept_or_extension_ne hf with hkept | hne
    · exact hk hkept
    · exact hne he
  rw [Writer.mem_staleNames, hmarker]
  constructor
  · rintro ⟨d', c, hd', hc, hext, hkept, text, htext, hmark⟩
    obtain rfl := hd.unique hd'
    refine ⟨text, ⟨c, ?_, htext⟩, hext, fun hr => hkept ((h.mem_keptNames_iff s).mpr hr), hmark⟩
    exact (hw.file _ s c hd.leadsTo (hunwritten hext hkept)).mp hc
  · rintro ⟨text, ⟨c, hc, htext⟩, hext, hfree, hmark⟩
    have hkept : s ∉ j.keptNames v runtime files index := fun hk =>
      hfree ((h.mem_keptNames_iff s).mp hk)
    exact ⟨d, c, hd, (hw.file d s c hd.leadsTo (hunwritten hext hkept)).mpr hc, hext, hkept, text,
      htext, hmark⟩

/-- A run that cleans up does so once all its files are written. -/
theorem Outline.exists_clean {w : Writer} {t : FileTree} {p : Progress}
    (h : Outline j files v runtime index) (hclean : j.config.generate.cleanOutput = true)
    (hp : (Progress.start t).takeAll w j.config.output (j.plan files).actions = (p, .ok ())) :
    ∃ p₁ p₂, (Progress.start t).takeAll w j.config.output
        (j.writing runtime (j.verdicts [] files) index) = (p₁, .ok ()) ∧
      WroteAmong t p₁.tree j.config.output ((j.plan files).files.map (·.fileName)) ∧
      p₁.removed = [] ∧
      p₁.take w j.config.output (.clean (v.component.pick j.config.typescript)
        (marker runtime.fileName) (j.keptNames v runtime files index)) = (p₂, .ok ()) ∧
      p.tree = p₂.tree ∧ p.removed = p₂.removed := by
  rw [h.actions_eq, finish, if_pos hclean] at hp
  obtain ⟨p₁, h₁, hp⟩ := Progress.takeAll_append.mp hp
  obtain ⟨p₂, h₂, h₃⟩ := Progress.takeAll_append.mp hp
  obtain ⟨hwrote, hremoved⟩ :=
    Progress.wroteAmong_takeAll (fun a ha => h.writes_of_mem_writing ha) h₁
  rw [← h.files_eq_writing] at hwrote
  rw [Progress.takeAll_singleton] at h₂ h₃
  rw [Progress.take_call h₃]
  exact ⟨p₁, p₂, h₁, hwrote, hremoved, h₂, rfl, rfl⟩

theorem Outline.cleaned {w : Writer} {t : FileTree} {p : Progress}
    (h : Outline j files v runtime index) (ht : t.ProperlyNamed)
    (hclean : j.config.generate.cleanOutput = true)
    (hp : (Progress.start t).takeAll w j.config.output (j.plan files).actions = (p, .ok ())) :
    ∃ t₁ stale, WroteAmong t t₁ j.config.output ((j.plan files).files.map (·.fileName)) ∧
      stale = Writer.staleNames t₁ j.config.output (v.component.pick j.config.typescript)
        (marker runtime.fileName) (j.keptNames v runtime files index) ∧
      p.removed = stale.map (Path.join j.config.output) ∧
      (∀ d, p.tree.LocatesDirectory j.config.output d ↔ t₁.LocatesDirectory j.config.output d) ∧
      (w.dryRun = false → ∀ l, p.tree.entry? l = none ↔ t₁.entry? l = none ∨
        ∃ d s, t₁.LocatesDirectory j.config.output d ∧ l = d ++ [s] ∧ s ∈ stale) := by
  obtain ⟨p₁, p₂, -, hwrote, hnil, htake, htree, hremoved⟩ := h.exists_clean hclean hp
  obtain ⟨hstale, hdirs, hgone⟩ := Progress.take_clean_tree (hwrote.named ht) htake
  rw [hnil] at hstale
  rw [htree, hremoved]
  exact ⟨p₁.tree, _, hwrote, rfl, hstale, hdirs, hgone⟩

/-- A run that does not clean up removes nothing. -/
theorem Outline.removed_eq_nil {w : Writer} {t : FileTree} {p : Progress}
    (h : Outline j files v runtime index) (hclean : j.config.generate.cleanOutput = false)
    (hp : (Progress.start t).takeAll w j.config.output (j.plan files).actions = (p, .ok ())) :
    p.removed = [] := by
  rw [h.actions_eq, finish, if_neg (by simp [hclean]), List.nil_append] at hp
  obtain ⟨p₁, h₁, h₂⟩ := Progress.takeAll_append.mp hp
  obtain ⟨-, hremoved⟩ :=
    Progress.wroteAmong_takeAll (fun a ha => h.writes_of_mem_writing ha) h₁
  rw [Progress.take_call (Progress.takeAll_singleton.mp h₂)]
  exact hremoved

section

variable {t t₁ t' : FileTree} {removed : List String}

/-- What was removed are the files of the tree before the run that it takes for stale. -/
theorem Outline.mem_removed_iff (h : Outline j files v runtime index)
    (hwrote : WroteAmong t t₁ j.config.output ((j.plan files).files.map (·.fileName)))
    (hdirs : ∀ d, t'.LocatesDirectory j.config.output d ↔ t₁.LocatesDirectory j.config.output d)
    (hremoved : removed = (Writer.staleNames t₁ j.config.output
      (v.component.pick j.config.typescript) (marker runtime.fileName)
      (j.keptNames v runtime files index)).map (Path.join j.config.output)) (path : String) :
    path ∈ removed ↔
      ∃ d s text, j.Held t t' path s text d ∧ j.TakesForStale v files s text := by
  rw [hremoved, List.mem_map]
  constructor
  · rintro ⟨s, hs, rfl⟩
    obtain ⟨d, -, hd, -, -⟩ := (Writer.mem_staleNames _ _ _ _ _ s).mp hs
    obtain ⟨text, htext, hstale⟩ := (h.mem_staleNames_iff hwrote hd s).mp hs
    exact ⟨d, s, text, ⟨(hdirs d).mpr hd, rfl, htext⟩, hstale⟩
  · rintro ⟨d, s, text, hheld, hstale⟩
    have hd := (hdirs d).mp hheld.directory
    exact ⟨s, (h.mem_staleNames_iff hwrote hd s).mpr ⟨text, hheld.hasText, hstale⟩,
      hheld.path_eq.symm⟩

/-- What was there before the run and is gone after it is what was removed. -/
theorem Outline.gone_iff (h : Outline j files v runtime index) (ht : t.ProperlyNamed)
    (hwrote : WroteAmong t t₁ j.config.output ((j.plan files).files.map (·.fileName)))
    (hdirs : ∀ d, t'.LocatesDirectory j.config.output d ↔ t₁.LocatesDirectory j.config.output d)
    (hremoved : removed = (Writer.staleNames t₁ j.config.output
      (v.component.pick j.config.typescript) (marker runtime.fileName)
      (j.keptNames v runtime files index)).map (Path.join j.config.output)) {l : Location}
    (hgone : t'.entry? l = none ↔ t₁.entry? l = none ∨
      ∃ d s, t₁.LocatesDirectory j.config.output d ∧ l = d ++ [s] ∧
        s ∈ Writer.staleNames t₁ j.config.output (v.component.pick j.config.typescript)
          (marker runtime.fileName) (j.keptNames v runtime files index))
    (hl : t.entry? l ≠ none) :
    t'.entry? l = none ↔ ∃ d s, t'.LocatesDirectory j.config.output d ∧ l = d ++ [s] ∧
      Path.join j.config.output s ∈ removed := by
  rw [hgone]
  constructor
  · rintro (hnone | ⟨d, s, hd, rfl, hs⟩)
    · exact absurd (hwrote.keeps l hnone) hl
    · exact ⟨d, s, (hdirs d).mpr hd, rfl, by rw [hremoved]; exact List.mem_map_of_mem hs⟩
  · rintro ⟨d, s, hd, rfl, hs⟩
    obtain ⟨e, he⟩ := Option.ne_none_iff_exists'.mp hl
    obtain ⟨d', s', text, hheld, hstale⟩ := (h.mem_removed_iff hwrote hdirs hremoved _).mp hs
    obtain rfl := hd.unique hheld.directory
    obtain ⟨c, hc, -⟩ := hheld.hasText
    -- names without a slash are told apart in the paths that they end
    obtain rfl := Path.join_injective _ _ _ (ht.isName _ s e he).no_slash
      (ht.isName _ s' _ hc).no_slash hheld.path_eq
    have hd₁ := (hdirs d').mp hd
    exact Or.inr ⟨d', s, hd₁, rfl,
      (h.mem_staleNames_iff hwrote hd₁ s).mpr ⟨text, hheld.hasText, hstale⟩⟩

end

/-- A run that cleans up removes the files that it takes for stale, and no others. So whatever it
removes imports the runtime exactly if every file that it takes for stale does. -/
theorem removed_import_runtime_iff {w : Writer} {t : FileTree} {report : GenerationReport}
    (ht : t.ProperlyNamed) (hclean : j.config.generate.cleanOutput = true)
    (h : (j.run w t files).report = .ok report) :
    ∃ v, Registry.builtin.get? j.config.framework = some v ∧
      (∀ path, path ∈ report.removed ↔ ∃ d s text,
        j.Held t (j.run w t files).tree path s text d ∧ j.TakesForStale v files s text) ∧
      (w.dryRun = false → ∀ l, t.entry? l ≠ none → ((j.run w t files).tree.entry? l = none ↔
        ∃ d s, (j.run w t files).tree.LocatesDirectory j.config.output d ∧ l = d ++ [s] ∧
          Path.join j.config.output s ∈ report.removed)) ∧
      ((∀ path ∈ report.removed, ∃ d s text, j.Held t (j.run w t files).tree path s text d ∧
          v.ImportsRuntime j.config.typescript text) ↔
        ∀ path d s text, j.Held t (j.run w t files).tree path s text d →
          j.TakesForStale v files s text → v.ImportsRuntime j.config.typescript text) := by
  obtain ⟨p, stats, hp, hresult, rfl, htree⟩ := run_eq_ok h
  obtain ⟨v, runtime, index, ho⟩ := outline_of_plan hresult
  obtain ⟨t₁, stale, hwrote, rfl, hremoved, hdirs, hgone⟩ := ho.cleaned ht hclean hp
  rw [htree]
  have hmem := ho.mem_removed_iff hwrote hdirs hremoved
  refine ⟨v, ho.variant, hmem,
    fun hw l hl => ho.gone_iff ht hwrote hdirs hremoved (hgone hw l) hl, ?_⟩
  constructor
  · intro himports path d s text hheld hstale
    have hpath := (hmem path).mpr ⟨d, s, text, hheld, hstale⟩
    obtain ⟨d', s', text', hheld', hi⟩ := himports path hpath
    obtain ⟨-, rfl⟩ := hheld.unique ht hheld'
    exact hi
  · intro himports path hpath
    obtain ⟨d, s, text, hheld, hstale⟩ := (hmem path).mp hpath
    exact ⟨d, s, text, hheld, himports path d s text hheld hstale⟩

/-- A working directory with one file in one directory. -/
def oneFile (directory name text : String) : FileTree :=
  ((FileTree.fresh "work").put ["work", directory] .directory).put ["work", directory, name]
    (.file text.toUTF8)

theorem oneFile_named {directory name : String} (text : String) (hd : Path.IsName directory)
    (hn : Path.IsName name) : (oneFile directory name text).ProperlyNamed := by
  have hwork : Path.IsName "work" := by decide
  refine ((FileTree.ProperlyNamed.fresh "work" hwork).put _ _ ?_).put _ _ ?_
  · simp [hwork, hd]
  · simp [hwork, hd, hn]

/-- A working directory with one file in the directory "out". -/
def outputTree (name text : String) : FileTree :=
  ((FileTree.fresh "work").put ["work", "out"] .directory).put ["work", "out", name]
    (.file text.toUTF8)

theorem outputTree_named (name text : String) (h : Path.IsName name) :
    (outputTree name text).ProperlyNamed :=
  oneFile_named text (by decide) h

/-- A run that cleans up among the components of one framework. -/
def cleaning (framework : String) : Job :=
  .ofConfig { Config.standard with
    framework := framework, output := "out", generate := ⟨true, false, true⟩ }

theorem component_without_drawing_removed :
    ∃ report, ((cleaning "vue").run (.reliable true)
        (outputTree "Old.vue" "import Icon from './Icon.vue'") []).report = .ok report ∧
      "out/Old.vue" ∈ report.removed := by
  have hrun : ((cleaning "vue").run (.reliable true)
      (outputTree "Old.vue" "import Icon from './Icon.vue'") []).report.toOption.isSome = true := by
    decide +kernel
  obtain ⟨report, h⟩ := exists_report_of_isSome hrun
  have hnamed := outputTree_named "Old.vue" "import Icon from './Icon.vue'" (by decide)
  obtain ⟨v, hv, hmem, -⟩ := removed_import_runtime_iff hnamed rfl h
  obtain rfl : Variant.vue = v := Option.some.inj (Registry.get?_builtin_vue.symm.trans hv)
  refine ⟨report, h, (hmem _).mpr ⟨["work", "out"], "Old.vue", "import Icon from './Icon.vue'",
    ⟨⟨?_, ?_⟩, ?_, ?_⟩, ?_, ?_, ?_⟩⟩
  · decide +kernel
  · exact (isDirectoryAt_iff _ _).mp (by decide +kernel)
  · decide +kernel
  · exact ⟨_, rfl, fromUTF8?_toUTF8 _⟩
  · decide +kernel
  · simp only [Reserves, List.not_mem_nil, false_and, exists_false, false_or]
    decide +kernel
  · decide +kernel

/-- This file imports another module, whose name begins like that of the runtime, and is gone after
the run. -/
theorem hand_written_file_removed :
    (cleaning "vue").config.validate = .ok () ∧
      (outputTree "Buttons.vue" "import IconButton from './IconButton.vue'").ProperlyNamed ∧
      ¬ Variant.vue.ImportsRuntime true "import IconButton from './IconButton.vue'" ∧
      ∃ report, ((cleaning "vue").run (.reliable false)
          (outputTree "Buttons.vue" "import IconButton from './IconButton.vue'") []).report =
            .ok report ∧
        "out/Buttons.vue" ∈ report.removed ∧
        ((cleaning "vue").run (.reliable false)
          (outputTree "Buttons.vue" "import IconButton from './IconButton.vue'") []).tree.entry?
            ["work", "out", "Buttons.vue"] = none := by
  have hname : Path.IsName "Buttons.vue" := by decide
  have hother : ¬ Variant.vue.ImportsRuntime true "import IconButton from './IconButton.vue'" := by
    rw [Variant.ImportsRuntime]
    decide +kernel
  refine ⟨by decide +kernel, outputTree_named _ _ hname, hother, ?_⟩
  have hclosing : ((cleaning "vue").plan []).actions.drop 2 =
      [.clean "vue" "from './Icon" ["Icon.vue", "index.ts"], .call (.complete .empty)] := by
    decide +kernel
  obtain ⟨hreport, htree⟩ := run_of_children (cleaning "vue") (.reliable false)
    (outputTree "Buttons.vue" "import IconButton from './IconButton.vue'") [] 2 ["work", "out"]
    ["Buttons.vue"] hclosing (by decide +kernel) rfl rfl (by decide +kernel)
    ⟨by decide +kernel, (isDirectoryAt_iff _ _).mp (by decide +kernel)⟩ (by decide +kernel)
    (by decide +kernel) (by decide +kernel)
  refine ⟨_, hreport, List.mem_append_right _ (by decide), ?_⟩
  rw [htree]
  decide +kernel

end Job

end IconCompiler
