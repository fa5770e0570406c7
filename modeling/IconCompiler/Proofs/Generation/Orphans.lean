import IconCompiler.Proofs.Variant.Import

/-!
What a run that cleans up leaves. It leaves no component that no drawing stands behind, but for a
directory that is named by the empty path: files are written there, and none are looked for. It
removes nothing that it wrote, and no component of a drawing that is still there.
-/

namespace IconCompiler

open FileTree

/-- The texts of components, whatever they are called and drawn from. -/
def Variant.IsComponent (v : Variant) (text : String) : Prop :=
  ∃ name typed keepColors icon, v.renderComponent name typed keepColors icon = .ok text

theorem Writer.staleNames_of_isEmpty (t : FileTree) (extension marker : String)
    (keep : List String) : staleNames t "" extension marker keep = [] := by
  have hdir : t.isDirectory "" = false := rfl
  rw [staleNames, hdir]
  rfl

/-- A clean-up that is no dry run removes all stale files. -/
theorem Progress.removed_of_take_clean {w : Writer} {out extension mark : String}
    {keep : List String} {p p' : Progress} (hw : w.dryRun = false) (hp : p.tree.ProperlyNamed)
    (h : p.take w out (.clean extension mark keep) = (p', .ok ())) :
    ∃ d, Removed p.tree p'.tree d (Writer.staleNames p.tree out extension mark keep) ∧
      (Writer.staleNames p.tree out extension mark keep ≠ [] →
        p.tree.LocatesDirectory out d) := by
  obtain ⟨paths, t, hr, rfl⟩ := take_clean h
  obtain ⟨d, hd, hremoved⟩ := Writer.removed_of_removeStale hw hp hr
  exact ⟨d, hremoved, hd⟩

namespace Job

variable {j : Job} {v : Variant} {files : List SourceFile} {runtime : GeneratedFile}
  {index : Option GeneratedFile} {t t₁ : FileTree} {d : Location} {s : String} {w : Writer}
  {p : Progress}

/-! ## Orphans -/

/-- A file with the extension and the text of a component whose name the run does not reserve. -/
structure Orphan (j : Job) (v : Variant) (files : List SourceFile) (t : FileTree) (d : Location)
    (s : String) : Prop where
  extension : Path.extension? s = some (v.component.pick j.config.typescript)
  unreserved : ¬ j.Reserves v files s
  component : ∃ text, t.HasText (d ++ [s]) text ∧ v.IsComponent text

/-- The files of a run are no orphans, so writing them makes none and takes none away. -/
theorem Outline.orphan_iff (h : Outline j files v runtime index)
    (hw : WroteAmong t t₁ j.config.output ((j.plan files).files.map (·.fileName)))
    (hd : t₁.LeadsTo j.config.output d) : j.Orphan v files t₁ d s ↔ j.Orphan v files t d s := by
  have hsame : Path.extension? s = some (v.component.pick j.config.typescript) →
      ¬ j.Reserves v files s → ∀ text, t₁.HasText (d ++ [s]) text ↔ t.HasText (d ++ [s]) text := by
    intro he hfree text
    have hunwritten : s ∉ (j.plan files).files.map (·.fileName) := by
      intro hm
      obtain ⟨f, hf, rfl⟩ := List.mem_map.mp hm
      rcases h.kept_or_extension_ne hf with hkept | hne
      · exact hfree ((h.mem_keptNames_iff _).mp hkept)
      · exact hne he
    simp only [HasText, hw.file d s _ hd hunwritten]
  constructor
  · rintro ⟨he, hfree, text, htext, hc⟩
    exact ⟨he, hfree, text, (hsame he hfree text).mp htext, hc⟩
  · rintro ⟨he, hfree, text, htext, hc⟩
    exact ⟨he, hfree, text, (hsame he hfree text).mpr htext, hc⟩

/-- Orphans are taken for stale, since every component has the marker. -/
theorem Outline.mem_staleNames_of_orphan (h : Outline j files v runtime index)
    (hw : WroteAmong t t₁ j.config.output ((j.plan files).files.map (·.fileName)))
    (hd : t₁.LocatesDirectory j.config.output d) (ho : j.Orphan v files t₁ d s) :
    s ∈ Writer.staleNames t₁ j.config.output (v.component.pick j.config.typescript)
      (marker runtime.fileName) (j.keptNames v runtime files index) := by
  obtain ⟨he, hfree, text, htext, name, typed, keepColors, icon, hcode⟩ :=
    (h.orphan_iff hw hd.leadsTo).mp ho
  have hmark := Variant.contains_marker (Registry.mem_builtins_of_get? h.variant) hcode typed
  rw [h.namesFiles.marker] at hmark
  exact (h.mem_staleNames_iff hw hd s).mpr ⟨text, htext, he, hfree, hmark⟩

/-- What is left of the orphans in the directory of a run that cleans up. -/
theorem Outline.orphans_left (h : Outline j files v runtime index) (ht : t.ProperlyNamed)
    (hw : w.dryRun = false) (hclean : j.config.generate.cleanOutput = true)
    (hp : (Progress.start t).takeAll w j.config.output (j.plan files).actions = (p, .ok ())) :
    ∃ d, p.tree.LeadsTo j.config.output d ∧
      (j.config.output ≠ "" → ∀ s, ¬ j.Orphan v files p.tree d s) ∧
      (j.config.output = "" → ∀ s, j.Orphan v files p.tree d s ↔ j.Orphan v files t d s) := by
  obtain ⟨p₁, p₂, hwriting, hwrote, -, htake, htree, -⟩ := h.exists_clean hclean hp
  obtain ⟨d, hd, hlocates⟩ : ∃ d, p₁.tree.LeadsTo j.config.output d ∧
      (j.config.output ≠ "" → p₁.tree.LocatesDirectory j.config.output d) := by
    simp only [writing, List.cons_append] at hwriting
    refine Progress.exists_directory hw ?_ (fun a ha => ?_) hwriting
    · rw [compileRuntime_eq_ok h.variant h.compiles]
      exact h.namesFiles.isName_runtimeFileName _
    · refine h.writes_of_mem_writing ?_
      rw [writing, List.cons_append, List.cons_append]
      exact List.mem_cons_of_mem _ ha
  obtain ⟨d', hremoved, hd'⟩ := Progress.removed_of_take_clean hw (hwrote.named ht) htake
  have hbefore : ∀ s, j.Orphan v files p₂.tree d s → j.Orphan v files p₁.tree d s := by
    rintro s ⟨he, hfree, text, ⟨c, hc, htext⟩, hcode⟩
    exact ⟨he, hfree, text, ⟨c, hremoved.entry?_of_some hc, htext⟩, hcode⟩
  rw [htree]
  refine ⟨d, hd.keepsDirectories hremoved.keepsDirectories, fun hne s ho => ?_, fun he s => ?_⟩
  · have hstale := h.mem_staleNames_of_orphan hwrote (hlocates hne) (hbefore s ho)
    obtain rfl := (hlocates hne).unique (hd' (List.ne_nil_of_mem hstale))
    obtain ⟨text, ⟨c, hc, -⟩, -⟩ := ho.component
    rw [hremoved.gone s hstale] at hc
    contradiction
  · -- nothing is found in the directory of the empty path, so nothing of it is removed
    rw [he, Writer.staleNames_of_isEmpty] at hremoved
    rw [← h.orphan_iff hwrote hd]
    refine ⟨hbefore s, ?_⟩
    rintro ⟨hext, hfree, text, ⟨c, hc, htext⟩, hcode⟩
    exact ⟨hext, hfree, text, ⟨c, (hremoved.kept _ (by simp)).trans hc, htext⟩, hcode⟩

/-- Every component has the marker by which cleaning up finds components, so a run that cleans up
leaves no orphan in its directory, exactly if the directory is not named by the empty path or had
none before. -/
theorem orphans_found_iff (j : Job) (w : Writer) (t : FileTree) (files : List SourceFile) :
    (∀ v ∈ Variant.builtins, ∀ name typed keepColors icon, ∃ text,
      v.renderComponent name typed keepColors icon = .ok text ∧
        ∀ typed', Text.contains (marker (v.runtimeFileName typed')).toList text.toList = true) ∧
    (t.ProperlyNamed → w.dryRun = false → j.config.generate.cleanOutput = true →
      ∀ report, (j.run w t files).report = .ok report →
      ∃ v d, Registry.builtin.get? j.config.framework = some v ∧
        (j.run w t files).tree.LeadsTo j.config.output d ∧
        ((∀ s, ¬ j.Orphan v files (j.run w t files).tree d s) ↔
          j.config.output ≠ "" ∨ ∀ s, ¬ j.Orphan v files t d s)) := by
  constructor
  · intro v hv name typed keepColors icon
    obtain ⟨text, h⟩ := Variant.exists_renderComponent hv name typed keepColors icon
    exact ⟨text, h, Variant.contains_marker hv h⟩
  · intro ht hw hclean report h
    obtain ⟨p, stats, hp, hresult, rfl, htree⟩ := run_eq_ok h
    obtain ⟨v, runtime, index, ho⟩ := outline_of_plan hresult
    obtain ⟨d, hd, hfound, hleft⟩ := ho.orphans_left ht hw hclean hp
    rw [htree]
    refine ⟨v, d, ho.variant, hd, ?_⟩
    by_cases he : j.config.output = ""
    · simp only [hleft he, he, ne_eq, not_true_eq_false, false_or]
    · exact iff_of_true (hfound he) (Or.inl he)

/-- The component of a drawing that is no longer there. -/
def formerComponent : String :=
  (Variant.vue.renderComponent "Gone" true false []).toOption.getD ""

theorem isComponent_formerComponent : Variant.vue.IsComponent formerComponent := by
  obtain ⟨text, h⟩ := Variant.exists_renderComponent
    (Registry.mem_builtins_of_get? Registry.get?_builtin_vue) "Gone" true false []
  refine ⟨"Gone", true, false, [], ?_⟩
  rw [formerComponent, h]
  rfl

/-- The marker is in every component, so the text of this one need not be searched. -/
theorem isStale_formerComponent :
    Writer.isStale "vue" "from './Icon" ["Icon.vue", "index.ts"]
      ("Gone.vue", .file formerComponent.toUTF8) = true := by
  obtain ⟨_, _, _, _, h⟩ := isComponent_formerComponent
  have hmarker : marker (Variant.vue.runtimeFileName true) = "from './Icon" := by decide
  have hmarked := Variant.contains_marker (Registry.mem_builtins_of_get? Registry.get?_builtin_vue)
    h true
  rw [hmarker] at hmarked
  exact (Writer.isStale_iff ..).mpr
    ⟨_, rfl, by decide, by decide, formerComponent, fromUTF8?_toUTF8 _, hmarked⟩

theorem orphan_found_of_gone :
    ∃ report, ((cleaning "vue").run (.reliable false) (outputTree "Gone.vue" formerComponent)
        []).report = .ok report ∧
      report.removed = ["out/Gone.vue"] ∧
      (cleaning "vue").Orphan .vue [] (outputTree "Gone.vue" formerComponent) ["work", "out"]
        "Gone.vue" ∧
      ∃ d, ((cleaning "vue").run (.reliable false) (outputTree "Gone.vue" formerComponent)
          []).tree.LeadsTo "out" d ∧
        ∀ s, ¬ (cleaning "vue").Orphan .vue [] ((cleaning "vue").run (.reliable false)
          (outputTree "Gone.vue" formerComponent) []).tree d s := by
  have hclosing : ((cleaning "vue").plan []).actions.drop 2 =
      [.clean "vue" "from './Icon" ["Icon.vue", "index.ts"], .call (.complete .empty)] := by
    decide +kernel
  have hwrites : ((Progress.start (outputTree "Gone.vue" formerComponent)).takeAll
      (.reliable false) "out" (((cleaning "vue").plan []).actions.take 2)).2 = .ok () := by
    decide +kernel
  obtain ⟨p, hp⟩ : ∃ p, ((Progress.start (outputTree "Gone.vue" formerComponent)).takeAll
      (.reliable false) "out" (((cleaning "vue").plan []).actions.take 2)).1 = p := ⟨_, rfl⟩
  have hlocates : p.tree.LocatesDirectory "out" ["work", "out"] := by
    rw [← hp]
    exact ⟨by decide +kernel, (isDirectoryAt_iff _ _).mp (by decide +kernel)⟩
  have hchildren : (p.tree.children ["work", "out"]).map Prod.fst =
      ["Gone.vue", "Icon.vue", "index.ts"] := by
    rw [← hp]
    decide +kernel
  have hactions : ∀ a ∈ ((cleaning "vue").plan []).actions.take 2, Progress.Writes a := by
    decide +kernel
  obtain ⟨hwrote, -⟩ := Progress.wroteAmong_takeAll hactions (Prod.ext hp hwrites)
  have hsorted : ((p.tree.children ["work", "out"]).map Prod.fst).Pairwise fun a b =>
      (!decide (b < a)) = true := by
    rw [hchildren]
    decide
  have hgone : ("Gone.vue", .file formerComponent.toUTF8) ∈ p.tree.children ["work", "out"] :=
    (mem_children _ _ _ _).mpr ((hwrote.file _ _ _ hlocates.leadsTo (by decide +kernel)).mpr rfl)
  obtain ⟨hreport, -⟩ := run_of_children (cleaning "vue") (.reliable false)
    (outputTree "Gone.vue" formerComponent) [] 2 ["work", "out"] ["Gone.vue"] hclosing
    (by decide +kernel) rfl hp hwrites hlocates (List.pairwise_map.mp hsorted)
    (Writer.names_isStale hchildren (by decide) (by decide) hgone isStale_formerComponent)
    (by rw [← hp]; decide +kernel)
  have hnamed := outputTree_named "Gone.vue" formerComponent (by decide)
  obtain ⟨v, d, hv, hd, hiff⟩ := (orphans_found_iff _ _ _ _).2 hnamed rfl rfl _ hreport
  obtain rfl : Variant.vue = v := Option.some.inj (Registry.get?_builtin_vue.symm.trans hv)
  refine ⟨_, hreport, by rw [← hp]; decide +kernel, ⟨by decide, ?_, formerComponent, ?_, ?_⟩, d, hd,
    hiff.mpr (Or.inl (by decide))⟩
  · simp only [Reserves, List.not_mem_nil, false_and, exists_false, false_or]
    decide +kernel
  · exact ⟨_, rfl, fromUTF8?_toUTF8 _⟩
  · exact isComponent_formerComponent

/-- A run that cleans up in the working directory, which its configuration names by the empty path.
-/
def cleaningHere : Job :=
  .ofConfig { (cleaning "vue").config with output := "" }

/-- A working directory with a component. -/
def workingTree : FileTree :=
  (FileTree.fresh "work").put ["work", "Gone.vue"] (.file formerComponent.toUTF8)

/-- The component is left where the files of the run are written. -/
theorem orphan_left_in_working_directory :
    cleaningHere.config.validate = .ok () ∧ workingTree.ProperlyNamed ∧
      ∃ report, (cleaningHere.run (.reliable false) workingTree []).report = .ok report ∧
        report.outputs.map (·.path) = ["Icon.vue", "index.ts"] ∧ report.removed = [] ∧
        ∃ d, (cleaningHere.run (.reliable false) workingTree []).tree.LeadsTo
            cleaningHere.config.output d ∧
          cleaningHere.Orphan .vue [] (cleaningHere.run (.reliable false) workingTree []).tree d
            "Gone.vue" := by
  have hwork : Path.IsName "work" := by decide
  have hgone : Path.IsName "Gone.vue" := by decide
  have hnamed : workingTree.ProperlyNamed :=
    (FileTree.ProperlyNamed.fresh "work" hwork).put _ _ (by simp [hwork, hgone])
  obtain ⟨report, h⟩ := exists_report_of_isSome (show (cleaningHere.run (.reliable false)
    workingTree []).report.toOption.isSome = true by decide +kernel)
  have hpaths : ((cleaningHere.run (.reliable false) workingTree []).report.toOption.map
      fun r => (r.outputs.map (·.path), r.removed)) = some (["Icon.vue", "index.ts"], []) := by
    decide +kernel
  rw [h] at hpaths
  obtain ⟨houtputs, hremoved⟩ := Prod.mk.inj (Option.some.inj hpaths)
  obtain ⟨p, stats, hp, hresult, -, htree⟩ := run_eq_ok h
  obtain ⟨v, runtime, index, ho⟩ := outline_of_plan hresult
  obtain rfl : Variant.vue = v :=
    Option.some.inj (Registry.get?_builtin_vue.symm.trans ho.variant)
  obtain ⟨d, hd, -, hleft⟩ := ho.orphans_left hnamed rfl rfl hp
  -- the empty path leads to the working directory
  have hwork' : (cleaningHere.run (.reliable false) workingTree []).tree.LeadsTo "" ["work"] :=
    ⟨by decide +kernel, (isDirectoryAt_iff _ _).mp (by decide +kernel)⟩
  rw [htree] at hwork'
  obtain rfl := hd.unique hwork'
  refine ⟨by decide +kernel, hnamed, report, h, houtputs, hremoved, _, htree ▸ hd, ?_⟩
  rw [htree, hleft rfl]
  refine ⟨by decide, ?_, formerComponent, ⟨_, rfl, fromUTF8?_toUTF8 _⟩,
    isComponent_formerComponent⟩
  simp only [Reserves, List.not_mem_nil, false_and, exists_false, false_or]
  decide +kernel

/-! ## What is still wanted -/

/-- What is removed is in the directory of the run, under a name that the run does not reserve. -/
theorem Outline.of_mem_removed (h : Outline j files v runtime index) (ht : t.ProperlyNamed)
    (hp : (Progress.start t).takeAll w j.config.output (j.plan files).actions = (p, .ok ()))
    {path : String} (hpath : path ∈ p.removed) :
    ∃ s, Path.IsName s ∧ path = Path.join j.config.output s ∧
      Path.extension? s = some (v.component.pick j.config.typescript) ∧
      ¬ j.Reserves v files s := by
  cases hclean : j.config.generate.cleanOutput with
  | false =>
    rw [h.removed_eq_nil hclean hp] at hpath
    contradiction
  | true =>
    obtain ⟨t₁, stale, hwrote, rfl, hremoved, hdirs, -⟩ := h.cleaned ht hclean hp
    obtain ⟨d, s, text, hheld, hstale⟩ := (h.mem_removed_iff hwrote hdirs hremoved path).mp hpath
    obtain ⟨c, hc, -⟩ := hheld.hasText
    exact ⟨s, ht.isName d s _ hc, hheld.path_eq, hstale.extension, hstale.unreserved⟩

/-- A clean-up removes no output of its run, and no component of a drawing that is there, whether
that compiled, did not, or had its name taken by another one. -/
theorem wanted_not_removed {report : GenerationReport} (ht : t.ProperlyNamed)
    (h : (j.run w t files).report = .ok report) :
    ∃ v, Registry.builtin.get? j.config.framework = some v ∧
      ∀ path ∈ report.removed,
        (∀ o ∈ report.outputs, Path.same path o.path = false) ∧
        ∀ file ∈ files, ComponentName.isValid (j.naming.componentName file.fileName) = true →
          Path.same path (Path.join j.config.output (v.componentFileName
            (j.naming.componentName file.fileName) j.config.typescript)) = false := by
  obtain ⟨p, stats, hp, hresult, rfl, -⟩ := run_eq_ok h
  obtain ⟨v, runtime, index, ho⟩ := outline_of_plan hresult
  refine ⟨v, ho.variant, fun path hpath => ?_⟩
  obtain ⟨s, hs, rfl, hext, hfree⟩ := ho.of_mem_removed ht hp hpath
  -- the path differs from that of any name that is reserved or has another extension
  have hother : ∀ s', Path.IsName s' → s' ≠ s →
      Path.same (Path.join j.config.output s) (Path.join j.config.output s') = false := by
    intro s' hs' hne
    rw [← Bool.not_eq_true, Path.same_join_iff _ _ _ hs hs']
    exact hne.symm
  constructor
  · intro o hm
    rw [Progress.outputs_takeAll hp] at hm
    obtain ⟨f, hf, rfl⟩ := List.mem_map.mp hm
    refine hother _ (ho.isName_of_mem_files hf) ?_
    rintro rfl
    rcases ho.kept_or_extension_ne hf with hkept | hne
    · exact hfree ((ho.mem_keptNames_iff _).mp hkept)
    · exact hne hext
  · intro file hfile hvalid
    refine hother _ (ho.namesFiles.isName_componentFileName _ hvalid) ?_
    rintro rfl
    exact hfree (Or.inr (Or.inl ⟨file, hfile, hvalid, rfl⟩))

/-- A drawing that compiles, one that does not, and one that comes after the first under its name.
-/
def mixedDrawings : List SourceFile :=
  [⟨"zoom.svg", "zoom.svg", "<svg/>"⟩, ⟨"a.svg", "a.svg", "<svg"⟩,
    ⟨"Zoom.svg", "Zoom.svg", "<svg/>"⟩]

/-- An output directory with two components, only one of which has its drawing. -/
def formerTree : FileTree :=
  (outputTree "A.vue" "import Icon from './Icon.vue'").put ["work", "out", "B.vue"]
    (.file "import Icon from './Icon.vue'".toUTF8)

/-- The component of the drawing that does not compile this time is not removed, the other is. -/
theorem broken_drawing_keeps_component :
    ∃ report, ((cleaning "vue").run (.reliable false) formerTree mixedDrawings).report =
        .ok report ∧
      report.stats.failed = 2 ∧ report.removed = ["out/B.vue"] ∧
      ∀ path ∈ report.removed, Path.same path "out/A.vue" = false := by
  have hclosing : ((cleaning "vue").plan mixedDrawings).actions.drop 6 =
      [.clean "vue" "from './Icon" ["Icon.vue", "Zoom.vue", "A.vue", "Zoom.vue", "index.ts"],
        .call (.complete ⟨1, 2, 3,
          [⟨"a.svg", "Failed to parse SVG: Invalid SVG: No <svg> tag found"⟩,
            ⟨"Zoom.svg", "Component name 'Zoom' is already used by zoom.svg"⟩]⟩)] := by
    decide +kernel
  obtain ⟨hreport, -⟩ := run_of_children (cleaning "vue") (.reliable false) formerTree
    mixedDrawings 6 ["work", "out"] ["B.vue"] hclosing (by rfl) rfl rfl (by decide +kernel)
    ⟨by decide +kernel, (isDirectoryAt_iff _ _).mp (by decide +kernel)⟩ (by decide +kernel)
    (by decide +kernel) (by decide +kernel)
  have hnamed : formerTree.ProperlyNamed := by
    refine (outputTree_named _ _ (by decide)).put _ _ ?_
    rintro s hs
    simp only [List.mem_cons, List.not_mem_nil, or_false] at hs
    rcases hs with rfl | rfl | rfl <;> decide
  obtain ⟨v, hv, hkept⟩ := wanted_not_removed hnamed hreport
  obtain rfl : Variant.vue = v := Option.some.inj (Registry.get?_builtin_vue.symm.trans hv)
  refine ⟨_, hreport, rfl, by decide +kernel, fun path hpath => ?_⟩
  exact (hkept path hpath).2 ⟨"a.svg", "a.svg", "<svg"⟩ (by decide) (by decide +kernel)

end Job

end IconCompiler
