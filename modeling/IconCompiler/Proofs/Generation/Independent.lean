import IconCompiler.Proofs.Generation.Confined

/-!
Runs over different drawings that share one. What becomes of a drawing depends on the others only in
that one of them may have its name, and the text of a component on nothing but its own drawing. So
drawings that are all named apart can be put into any order.
-/

namespace IconCompiler

open FileTree

namespace Job

variable {j : Job} {v : Variant} {done : List CompiledIcon} {file : SourceFile}
  {files files' before after : List SourceFile} {icon : CompiledIcon}

/-! ## One drawing among others -/

theorem verdict_eq_alone
    (h : done.find? (·.name = j.naming.componentName file.fileName) = none) :
    j.verdict done file = j.verdict [] file := by
  unfold verdict
  dsimp only
  rw [h]
  rfl

/-- A drawing that compiles among others compiles to the same alone. -/
theorem verdict_alone_of_mem (h : (file, .compiled icon) ∈ j.verdicts done files) :
    j.verdict [] file = .compiled icon := by
  obtain ⟨done', hverdict⟩ := exists_verdict_of_mem h
  obtain ⟨-, hfree, -, hname, -⟩ := compiled_of_verdict hverdict
  refine (verdict_eq_alone (List.find?_eq_none.mpr fun o ho => ?_)).symm.trans hverdict
  rw [decide_eq_true_eq, ← hname]
  exact hfree o ho

theorem verdicts_singleton (hv : Registry.builtin.get? j.config.framework = some v)
    (file : SourceFile) : j.verdicts [] [file] = [(file, j.verdict [] file)] := by
  rw [verdicts_cons hv]
  rfl

theorem name_of_mem_icons (hv : Registry.builtin.get? j.config.framework = some v)
    (h : icon ∈ j.icons files) :
    ∃ g ∈ files, icon.name = j.naming.componentName g.fileName := by
  have hmem : (icon.source, icon.name) ∈ (j.icons files).map fun i => (i.source, i.name) :=
    List.mem_map.mpr ⟨icon, h, rfl⟩
  rw [map_icons] at hmem
  obtain ⟨g, hg, he⟩ := List.mem_map.mp hmem
  obtain ⟨e, he', rfl⟩ := List.mem_map.mp hg
  refine ⟨e.1, ?_, (Prod.mk.inj he).2.symm⟩
  rw [← map_fst_verdicts (findSome?_fatal?_verdicts hv [] files)]
  exact List.mem_map_of_mem (List.mem_filter.mp he').1

/-- A drawing whose name no other has is judged as if it were alone. -/
theorem mem_verdicts_of_unshared (hv : Registry.builtin.get? j.config.framework = some v)
    (h : ∀ g ∈ before, j.naming.componentName g.fileName ≠ j.naming.componentName file.fileName) :
    (file, j.verdict [] file) ∈ j.verdicts [] (before ++ file :: after) := by
  have hfree : (j.icons before).find?
      (·.name = j.naming.componentName file.fileName) = none := by
    refine List.find?_eq_none.mpr fun i hi => ?_
    obtain ⟨g, hg, hname⟩ := name_of_mem_icons hv hi
    rw [decide_eq_true_eq, hname]
    exact h g hg
  rw [verdicts_append hv, verdicts_cons hv, List.nil_append, ← icons, verdict_eq_alone hfree]
  exact List.mem_append_right _ List.mem_cons_self

theorem mem_successes_iff : file ∈ j.successes files ↔
    ∃ icon, (file, .compiled icon) ∈ j.verdicts [] files := by
  rw [successes, List.mem_map]
  constructor
  · rintro ⟨⟨_, verdict⟩, he, rfl⟩
    obtain ⟨hmem, hicon⟩ := List.mem_filter.mp he
    cases verdict with
    | compiled icon => exact ⟨icon, hmem⟩
    | unnamed _ | taken _ _ | rejected _ _ => contradiction
  · rintro ⟨icon, hmem⟩
    exact ⟨_, List.mem_filter.mpr ⟨hmem, rfl⟩, rfl⟩

theorem mem_successes_alone_iff (hv : Registry.builtin.get? j.config.framework = some v)
    (h : ∀ g ∈ before, j.naming.componentName g.fileName ≠ j.naming.componentName file.fileName) :
    file ∈ j.successes (before ++ file :: after) ↔ file ∈ j.successes [file] := by
  have halone : (file, j.verdict [] file) ∈ j.verdicts [] (before ++ file :: after) :=
    mem_verdicts_of_unshared hv h
  rw [mem_successes_iff, mem_successes_iff, verdicts_singleton hv]
  constructor
  · rintro ⟨icon, hmem⟩
    exact ⟨icon, by rw [verdict_alone_of_mem hmem]; exact List.mem_singleton.mpr rfl⟩
  · rintro ⟨icon, hmem⟩
    rw [← (Prod.mk.inj (List.mem_singleton.mp hmem)).2] at halone
    exact ⟨icon, halone⟩

theorem mem_successes_singleton_iff (hv : Registry.builtin.get? j.config.framework = some v) :
    file ∈ j.successes [file] ↔ (Stats.ofVerdicts (j.verdicts [] [file])).success = 1 := by
  rw [success_ofVerdicts, successes, verdicts_singleton hv]
  cases j.verdict [] file <;> simp [Verdict.icon?]

/-! ## Drawings that are named apart -/

/-- Drawings that are named apart are each judged alone. -/
theorem verdicts_of_nodup (hv : Registry.builtin.get? j.config.framework = some v)
    (hn : (files.map fun f => j.naming.componentName f.fileName).Nodup) :
    j.verdicts [] files = files.map fun file => (file, j.verdict [] file) := by
  -- the components that are done carry the induction: none has the name of a drawing to come
  suffices hdone : ∀ done : List CompiledIcon,
      (∀ i ∈ done, ∀ f ∈ files, i.name ≠ j.naming.componentName f.fileName) →
        j.verdicts done files = files.map fun file => (file, j.verdict [] file) from
    hdone [] (by simp)
  induction files with
  | nil => exact fun _ _ => rfl
  | cons file files ih =>
    intro done hdone
    rw [List.map_cons, List.nodup_cons] at hn
    obtain ⟨hfile, hn⟩ := hn
    have hfree : done.find? (·.name = j.naming.componentName file.fileName) = none :=
      List.find?_eq_none.mpr fun i hi => by simpa using hdone i hi file List.mem_cons_self
    rw [verdicts_cons hv, verdict_eq_alone hfree, List.map_cons]
    refine congrArg _ (ih hn _ fun i hi f hf => ?_)
    rcases List.mem_append.mp hi with hi | hi
    · exact hdone i hi f (List.mem_cons_of_mem file hf)
    · cases hverdict : j.verdict [] file with
      | compiled icon =>
        rw [hverdict] at hi
        obtain rfl := List.mem_singleton.mp hi
        rw [(source_of_verdict hverdict).2]
        exact fun e => hfile (List.mem_map.mpr ⟨f, hf, e.symm⟩)
      | unnamed _ | taken _ _ | rejected _ _ =>
        rw [hverdict] at hi
        contradiction

theorem verdicts_perm (hv : Registry.builtin.get? j.config.framework = some v)
    (hn : (files.map fun f => j.naming.componentName f.fileName).Nodup)
    (hperm : files.Perm files') : (j.verdicts [] files').Perm (j.verdicts [] files) := by
  rw [verdicts_of_nodup hv hn, verdicts_of_nodup hv ((hperm.map _).nodup_iff.mp hn)]
  exact (hperm.map _).symm

/-! ## Files in another order -/

/-- The files of a run with these components. -/
def filesFor (j : Job) (v : Variant) (runtime : GeneratedFile) (icons : List CompiledIcon) :
    List GeneratedFile :=
  runtime :: icons.map (·.file) ++ (j.indexOf v icons).toList ++
    if j.config.generate.preview then [j.previewFile icons] else []

theorem files_eq_filesFor {runtime : GeneratedFile} {index : Option GeneratedFile}
    (h : Outline j files v runtime index) :
    (j.plan files).files = j.filesFor v runtime (j.icons files) := by
  obtain rfl := Except.ok.inj (h.lists.symm.trans (indexFile?_eq h.variant _))
  exact h.files_eq

/-- The index and the preview are the only files that another order of components can change. -/
theorem lastNamed_filesFor {runtime : GeneratedFile} {icons icons' : List CompiledIcon}
    (hperm : icons'.Perm icons) (hn : (icons.map (·.file.fileName)).Nodup) {s : String}
    (hindex : s ≠ v.indexFileName j.config.typescript) (hpreview : s ≠ Preview.fileName) :
    lastNamed (j.filesFor v runtime icons') s = lastNamed (j.filesFor v runtime icons) s := by
  -- a file of another name is the runtime or a component
  have hother : ∀ icons, lastNamed (j.filesFor v runtime icons) s =
      lastNamed (runtime :: icons.map (·.file)) s := by
    intro icons
    have hlast : ∀ fs : List GeneratedFile, (∀ f ∈ fs, f.fileName ≠ s) → lastNamed fs s = none :=
      fun fs hfs => lastNamed_eq_none_iff.mpr fun hm => by
        obtain ⟨f, hf, rfl⟩ := List.mem_map.mp hm
        exact hfs f hf rfl
    have hi : lastNamed (j.indexOf v icons).toList s = none := by
      refine hlast _ fun f hf => ?_
      unfold indexOf at hf
      split at hf
      · obtain rfl := List.mem_singleton.mp hf
        exact hindex.symm
      · contradiction
    have hp : lastNamed (if j.config.generate.preview then [j.previewFile icons] else []) s =
        none := by
      refine hlast _ fun f hf => ?_
      split at hf
      · obtain rfl := List.mem_singleton.mp hf
        exact hpreview.symm
      · contradiction
    rw [filesFor, lastNamed_append, lastNamed_append, hi, hp, Option.none_or, Option.none_or]
  rw [hother, hother, lastNamed_cons, lastNamed_cons]
  congr 1
  refine (lastNamed_perm (hperm.map _).symm ?_ s).symm
  rwa [List.map_map]

theorem takesForStale_perm (hperm : files.Perm files') {s text : String} :
    j.TakesForStale v files' s text ↔ j.TakesForStale v files s text := by
  have hreserves : j.Reserves v files' s ↔ j.Reserves v files s := by
    simp only [Reserves, hperm.mem_iff]
  constructor
  · rintro ⟨he, hfree, hmark⟩
    exact ⟨he, hreserves.not.mp hfree, hmark⟩
  · rintro ⟨he, hfree, hmark⟩
    exact ⟨he, hreserves.not.mpr hfree, hmark⟩

section

variable {runtime : GeneratedFile} {index index' : Option GeneratedFile} {w w' : Writer}
  {t : FileTree} {p p' : Progress}

/-- What is removed does not depend on the order of the drawings. -/
theorem Outline.removed_perm (h : Outline j files v runtime index)
    (h' : Outline j files' v runtime index') (hperm : files.Perm files') (ht : t.ProperlyNamed)
    (hp : (Progress.start t).takeAll w j.config.output (j.plan files).actions = (p, .ok ()))
    (hp' : (Progress.start t).takeAll w' j.config.output (j.plan files').actions = (p', .ok ()))
    (hd : ∀ d, p'.tree.LocatesDirectory j.config.output d ↔
      p.tree.LocatesDirectory j.config.output d) : p'.removed = p.removed := by
  cases hclean : j.config.generate.cleanOutput with
  | false => rw [h.removed_eq_nil hclean hp, h'.removed_eq_nil hclean hp']
  | true =>
    obtain ⟨t₁, stale, hwrote, rfl, hremoved, hdirs, -⟩ := h.cleaned ht hclean hp
    obtain ⟨t₂, stale, hwrote', rfl, hremoved', hdirs', -⟩ := h'.cleaned ht hclean hp'
    have hlocates : ∀ d, t₂.LocatesDirectory j.config.output d ↔
        t₁.LocatesDirectory j.config.output d := fun d =>
      (hdirs' d).symm.trans ((hd d).trans (hdirs d))
    rw [hremoved, hremoved']
    refine congrArg _ (Writer.staleNames_ext fun s => ?_)
    by_cases hloc : ∃ d, t₁.LocatesDirectory j.config.output d
    · obtain ⟨d, hd₁⟩ := hloc
      rw [h.mem_staleNames_iff hwrote hd₁, h'.mem_staleNames_iff hwrote' ((hlocates d).mpr hd₁)]
      simp only [takesForStale_perm hperm]
    · -- neither tree has a directory to look into
      rw [Writer.mem_staleNames, Writer.mem_staleNames]
      constructor
      · rintro ⟨d, c, hd₂, -⟩
        exact absurd ⟨d, (hlocates d).mp hd₂⟩ hloc
      · rintro ⟨d, c, hd₁, -⟩
        exact absurd ⟨d, hd₁⟩ hloc

theorem Outline.nodup_fileNames (h : Outline j files v runtime index) :
    ((j.icons files).map (·.file.fileName)).Nodup := by
  have hfiles : (j.icons files).map (·.file.fileName) =
      ((j.icons files).map (·.name)).map (v.componentFileName · j.config.typescript) := by
    rw [List.map_map]
    exact List.map_congr_left fun i hi => (mem_icons_verdicts h.variant hi).2
  rw [hfiles]
  refine (nodup_names_icons files h.variant).map fun a b hab => ?_
  simpa [Variant.componentFileName, String.append_left_inj] using hab

/-- Only the index and the preview of a tree depend on the order of drawings that are named
apart. -/
theorem Outline.entry?_perm (h : Outline j files v runtime index)
    (h' : Outline j files' v runtime index') (hicons : (j.icons files').Perm (j.icons files))
    (hperm : files.Perm files') (ht : t.ProperlyNamed) (hw : w.dryRun = false)
    (hw' : w'.dryRun = false)
    (hp : (Progress.start t).takeAll w j.config.output (j.plan files).actions = (p, .ok ()))
    (hp' : (Progress.start t).takeAll w' j.config.output (j.plan files').actions = (p', .ok ())) :
    p'.removed = p.removed ∧ ∀ l, (∀ s, l = t.place j.config.output ++ [s] →
      s ≠ v.indexFileName j.config.typescript ∧ s ≠ Preview.fileName) →
        p'.tree.entry? l = p.tree.entry? l := by
  obtain ⟨fs, gone, hr, hend⟩ := h.reached ht hw hp
  obtain ⟨fs', gone', hr', hend'⟩ := h'.reached ht hw' hp'
  obtain ⟨rfl, -, hremoved⟩ := hend rfl
  obtain ⟨rfl, -, hremoved'⟩ := hend' rfl
  rw [files_eq_filesFor h] at hr
  rw [files_eq_filesFor h'] at hr'
  have hleads := (hr.names runtime.fileName (Or.inl (by simp [filesFor]))).2
  have hleads' := (hr'.names runtime.fileName (Or.inl (by simp [filesFor]))).2
  have hsame := h.removed_perm h' hperm ht hp hp' fun d => by
    rw [hleads.locatesDirectory_iff, hleads'.locatesDirectory_iff]
  refine ⟨hsame, fun l hl => ?_⟩
  rw [hremoved, hremoved'] at hsame
  -- the same paths were removed, so the same names were
  obtain rfl := Path.map_join_injective _ (fun s hs => (hr'.names s (Or.inr hs)).1.no_slash)
    (fun s hs => (hr.names s (Or.inr hs)).1.no_slash) hsame
  exact hr.entry?_eq hr' fun s hs =>
    lastNamed_filesFor hicons h.nodup_fileNames (hl s hs).1 (hl s hs).2

end

/-! ## Two runs -/

/-- The reports of two runs that judge the same drawings, each in its own order. -/
structure Rearranged (j : Job) (files files' : List SourceFile)
    (report report' : GenerationReport) : Prop where
  verdicts : (j.verdicts [] files').Perm (j.verdicts [] files)
  icons : (j.icons files').Perm (j.icons files)
  success : report'.stats.success = report.stats.success
  failed : report'.stats.failed = report.stats.failed
  total : report'.stats.total = report.stats.total
  errors : report'.stats.errors.Perm report.stats.errors

theorem rearranged (hv : Registry.builtin.get? j.config.framework = some v)
    (hn : (files.map fun f => j.naming.componentName f.fileName).Nodup)
    (hperm : files.Perm files') {report report' : GenerationReport}
    (h : report.stats = .ofVerdicts (j.verdicts [] files))
    (h' : report'.stats = .ofVerdicts (j.verdicts [] files')) :
    j.Rearranged files files' report report' := by
  have hverdicts := verdicts_perm hv hn hperm
  have hicons : (j.icons files').Perm (j.icons files) := hverdicts.filterMap _
  have herrors := hverdicts.filterMap failureOf?
  rw [ofVerdicts_eq] at h h'
  refine ⟨hverdicts, hicons, ?_, ?_, ?_, ?_⟩ <;> rw [h, h']
  · exact hicons.length_eq
  · exact herrors.length_eq
  · exact hverdicts.length_eq
  · exact herrors

/-- What a run says of a file that it has written, or would have. -/
def outputOf (j : Job) (w : Writer) (f : GeneratedFile) : Output :=
  ⟨Path.join j.config.output f.fileName, f.contents, !w.dryRun⟩

section

variable {w w' : Writer} {t t' : FileTree} {report report' : GenerationReport}

theorem Outline.outputs_eq {runtime : GeneratedFile} {index : Option GeneratedFile} {p : Progress}
    (h : Outline j files v runtime index)
    (hp : (Progress.start t).takeAll w j.config.output (j.plan files).actions = (p, .ok ())) :
    p.outputs = (j.filesFor v runtime (j.icons files)).map (j.outputOf w) := by
  rw [← files_eq_filesFor h]
  exact Progress.outputs_takeAll hp

theorem file_mem_filesFor {icon : CompiledIcon} (v : Variant) (runtime : GeneratedFile)
    (h : (file, Verdict.compiled icon) ∈ j.verdicts [] files) :
    icon.file ∈ j.filesFor v runtime (j.icons files) := by
  have hicon : icon ∈ j.icons files := List.mem_filterMap.mpr ⟨_, h, rfl⟩
  refine List.mem_append_left _ (List.mem_append_left _ (List.mem_cons_of_mem _ ?_))
  exact List.mem_map_of_mem hicon

/-- Drawings do not influence each other. One that compiles in two runs has the same component in
both, whatever else they are over; one whose name no other has compiles exactly if it does alone;
and where all are named apart their order decides on nothing but the order of what is reported, of
the lines of the index and of the cards of the preview. -/
theorem icons_independent (h : (j.run w t files).report = .ok report)
    (h' : (j.run w' t' files').report = .ok report') :
    (∀ file icon icon', (file, .compiled icon) ∈ j.verdicts [] files →
      (file, .compiled icon') ∈ j.verdicts [] files' → icon' = icon ∧
        j.outputOf w icon.file ∈ report.outputs ∧ j.outputOf w' icon.file ∈ report'.outputs) ∧
    (∀ before file after, files = before ++ file :: after →
      (∀ g ∈ before ++ after,
        j.naming.componentName g.fileName ≠ j.naming.componentName file.fileName) →
      (file ∈ j.successes files ↔ file ∈ j.successes [file]) ∧
        ∀ w₁ t₁ alone, (j.run w₁ t₁ [file]).report = .ok alone →
          (file ∈ j.successes files ↔ alone.stats.success = 1)) ∧
    (files.Perm files' → (files.map fun f => j.naming.componentName f.fileName).Nodup →
      ∃ v runtime, Registry.builtin.get? j.config.framework = some v ∧
        j.Rearranged files files' report report' ∧
        report.outputs = (j.filesFor v runtime (j.icons files)).map (j.outputOf w) ∧
        report'.outputs = (j.filesFor v runtime (j.icons files')).map (j.outputOf w') ∧
        (t.ProperlyNamed → t' = t → w'.dryRun = w.dryRun → report'.removed = report.removed ∧
          ∀ l, (∀ s, l = t.place j.config.output ++ [s] →
            s ≠ v.indexFileName j.config.typescript ∧ s ≠ Preview.fileName) →
              (j.run w' t' files').tree.entry? l = (j.run w t files).tree.entry? l)) := by
  obtain ⟨p, stats, hp, hresult, rfl, htree⟩ := run_eq_ok h
  obtain ⟨p', stats', hp', hresult', rfl, htree'⟩ := run_eq_ok h'
  obtain ⟨v, runtime, index, ho⟩ := outline_of_plan hresult
  obtain ⟨v', runtime', index', ho'⟩ := outline_of_plan hresult'
  obtain rfl : v' = v := Option.some.inj (ho'.variant.symm.trans ho.variant)
  obtain rfl : runtime' = runtime := Except.ok.inj (ho'.compiles.symm.trans ho.compiles)
  have houtputs := ho.outputs_eq hp
  have houtputs' := ho'.outputs_eq hp'
  refine ⟨?_, ?_, ?_⟩
  · intro file icon icon' hmem hmem'
    obtain rfl := Verdict.compiled.inj
      ((verdict_alone_of_mem hmem').symm.trans (verdict_alone_of_mem hmem))
    exact ⟨rfl, houtputs ▸ List.mem_map_of_mem (file_mem_filesFor v' runtime' hmem),
      houtputs' ▸ List.mem_map_of_mem (file_mem_filesFor v' runtime' hmem')⟩
  · rintro before file after rfl hapart
    have hiff : file ∈ j.successes (before ++ file :: after) ↔ file ∈ j.successes [file] :=
      mem_successes_alone_iff ho.variant fun g hg => hapart g (List.mem_append_left _ hg)
    refine ⟨hiff, fun w₁ t₁ alone halone => ?_⟩
    obtain ⟨p₁, stats₁, -, hresult₁, rfl, -⟩ := run_eq_ok halone
    rw [stats_of_plan hresult₁, ← mem_successes_singleton_iff ho.variant, hiff]
  · intro hperm hn
    have hreports : j.Rearranged files files' ⟨stats, p.outputs, p.removed⟩
        ⟨stats', p'.outputs, p'.removed⟩ :=
      rearranged ho.variant hn hperm (stats_of_plan hresult) (stats_of_plan hresult')
    refine ⟨v', runtime', ho.variant, hreports, houtputs, houtputs', ?_⟩
    rintro ht rfl hdry
    rw [htree, htree']
    cases hw : w.dryRun with
    | true =>
      -- neither run changes the tree
      have hsame : p'.tree = p.tree := by
        rw [← htree, ← htree', tree_of_dryRun hw, tree_of_dryRun (hdry.trans hw)]
      exact ⟨ho.removed_perm ho' hperm ht hp hp' fun d => by rw [hsame], fun l _ => by rw [hsame]⟩
    | false =>
      exact ho.entry?_perm ho' hreports.icons hperm ht hw (hdry.trans hw) hp hp'

end

/-- Drawings that are named apart. The second is not closed. -/
def apartDrawings : List SourceFile :=
  [⟨"star.svg", "star.svg", "<svg/>"⟩, ⟨"home.svg", "home.svg", "<svg"⟩,
    ⟨"moon.svg", "moon.svg", "<svg/>"⟩]

/-- In the other order the same drawings compile, to the same components. -/
theorem apart_reversed :
    ∃ report report', ((sample "vue").run (.reliable false) (.fresh "work") apartDrawings).report =
        .ok report ∧
      ((sample "vue").run (.reliable false) (.fresh "work") apartDrawings.reverse).report =
        .ok report' ∧
      (sample "vue").Rearranged apartDrawings apartDrawings.reverse report report' ∧
      report.outputs.map (·.path) =
        ["out/Icon.vue", "out/Star.vue", "out/Moon.vue", "out/index.ts"] ∧
      report'.outputs.map (·.path) =
        ["out/Icon.vue", "out/Moon.vue", "out/Star.vue", "out/index.ts"] ∧
      (⟨"moon.svg", "moon.svg", "<svg/>"⟩ ∈ (sample "vue").successes apartDrawings ↔
        ⟨"moon.svg", "moon.svg", "<svg/>"⟩ ∈
          (sample "vue").successes [⟨"moon.svg", "moon.svg", "<svg/>"⟩]) := by
  obtain ⟨report, h⟩ := exists_report_of_isSome (show ((sample "vue").run (.reliable false)
    (.fresh "work") apartDrawings).report.toOption.isSome = true by decide +kernel)
  obtain ⟨report', h'⟩ := exists_report_of_isSome (show ((sample "vue").run (.reliable false)
    (.fresh "work") apartDrawings.reverse).report.toOption.isSome = true by decide +kernel)
  have hpaths : ((sample "vue").run (.reliable false) (.fresh "work")
      apartDrawings).report.toOption.map (fun r => r.outputs.map (·.path)) =
      some ["out/Icon.vue", "out/Star.vue", "out/Moon.vue", "out/index.ts"] := by
    decide +kernel
  have hpaths' : ((sample "vue").run (.reliable false) (.fresh "work")
      apartDrawings.reverse).report.toOption.map (fun r => r.outputs.map (·.path)) =
      some ["out/Icon.vue", "out/Moon.vue", "out/Star.vue", "out/index.ts"] := by
    decide +kernel
  rw [h] at hpaths
  rw [h'] at hpaths'
  obtain ⟨-, halone, hperm⟩ := icons_independent h h'
  obtain ⟨v, runtime, -, hreports, -⟩ := hperm (List.reverse_perm _).symm (by decide +kernel)
  exact ⟨report, report', h, h', hreports, Option.some.inj hpaths, Option.some.inj hpaths',
    (halone (apartDrawings.take 2) _ [] rfl (by decide +kernel)).1⟩

end Job

end IconCompiler
