import IconCompiler.Proofs.Generation.Run
import Mathlib.Data.List.Nodup

/-!
The outputs of a run as files of their own. No output is written over another one, and each file
holds the text that was rendered for it, as long as no component is named like the runtime or like
the index.
-/

namespace IconCompiler

namespace Job

/-- Stems and extensions of the files of a run, in order. -/
def stems (j : Job) (v : Variant) (files : List SourceFile) : List (String × String) :=
  (v.runtimeStem, v.component.pick j.config.typescript) ::
    ((j.icons files).map fun i => (i.name, v.component.pick j.config.typescript)) ++
    (if j.config.generate.index then [("index", v.index.pick j.config.typescript)] else []) ++
    if j.config.generate.preview then [("preview", "html")] else []

/-- No component is named like the runtime, nor like the index where both have one extension. -/
structure NamesApart (j : Job) (v : Variant) (files : List SourceFile) : Prop where
  runtime : ∀ i ∈ j.icons files, i.name ≠ v.runtimeStem
  index : j.config.generate.index = true →
    v.component.pick j.config.typescript = v.index.pick j.config.typescript →
      ∀ i ∈ j.icons files, i.name ≠ "index"

theorem nodup_append_if {α : Type} {as : List α} {a : α} {c : Bool} (h : as.Nodup)
    (ha : c = true → a ∉ as) : (as ++ if c then [a] else []).Nodup := by
  cases c with
  | false => simpa using h
  | true =>
    rw [if_pos rfl, List.nodup_append]
    refine ⟨h, List.nodup_singleton a, ?_⟩
    intro x hx y hy
    rw [List.mem_singleton.mp hy]
    exact ne_of_mem_of_not_mem hx (ha rfl)

variable {j : Job} {v : Variant} {files : List SourceFile} {runtime : GeneratedFile}
  {index : Option GeneratedFile}

theorem Outline.namesFiles (h : Outline j files v runtime index) : v.NamesFiles :=
  Variant.namesFiles_of_mem_builtins (Registry.mem_builtins_of_get? h.variant)

theorem Outline.map_fileName_files (h : Outline j files v runtime index) :
    (j.plan files).files.map (·.fileName) = (j.stems v files).map fun p => fileName p.1 p.2 := by
  have hindex := indexFile?_eq_ok h.variant h.lists
  have hruntime := compileRuntime_eq_ok h.variant h.compiles
  have hicons : (j.icons files).map (·.file.fileName) =
      (j.icons files).map fun i => fileName i.name (v.component.pick j.config.typescript) :=
    List.map_congr_left fun i hi => (mem_icons_verdicts h.variant hi).2
  rw [h.files_eq]
  simp only [stems, List.map_append, List.map_cons, List.map_map, Function.comp_def, hindex,
    hruntime, hicons, h.namesFiles.runtimeFileName]
  congr 1
  · congr 1
    split <;> rfl
  · split <;> rfl

theorem Outline.of_mem_stems (h : Outline j files v runtime index) {p : String × String}
    (hp : p ∈ j.stems v files) :
    p.1 ≠ "" ∧ '.' ∉ p.1.toList ∧ '/' ∉ p.1.toList ∧ '/' ∉ p.2.toList := by
  have hv := h.namesFiles
  have hc := not_slash_of_mem_sourceExtensions (hv.component j.config.typescript)
  have hi := not_slash_of_mem_sourceExtensions (hv.index j.config.typescript)
  simp only [stems, List.mem_append, List.mem_cons, List.mem_map, List.mem_ite_nil_right,
    List.not_mem_nil, or_false] at hp
  rcases hp with ((rfl | ⟨i, hicon, rfl⟩) | ⟨-, rfl⟩) | ⟨-, rfl⟩
  · exact ⟨hv.runtimeStem_ne_empty, hv.point_not_mem_runtimeStem, hv.slash_not_mem_runtimeStem, hc⟩
  · have hvalid := (mem_icons_verdicts h.variant hicon).1
    exact ⟨ComponentName.ne_empty_of_isValid hvalid,
      ComponentName.not_mem_of_isValid hvalid '.' (by decide),
      ComponentName.not_mem_of_isValid hvalid '/' (by decide), hc⟩
  · exact ⟨show "index" ≠ "" by decide, show '.' ∉ "index".toList by decide,
      show '/' ∉ "index".toList by decide, hi⟩
  · decide

theorem Outline.isName_of_mem_files (h : Outline j files v runtime index) {f : GeneratedFile}
    (hf : f ∈ (j.plan files).files) : Path.IsName f.fileName := by
  have hm : f.fileName ∈ (j.plan files).files.map (·.fileName) := List.mem_map_of_mem hf
  rw [h.map_fileName_files] at hm
  obtain ⟨p, hp, hname⟩ := List.mem_map.mp hm
  obtain ⟨h1, h2, h3, h4⟩ := h.of_mem_stems hp
  exact hname ▸ isName_fileName h1 h2 h3 h4

theorem Outline.nodup_paths_iff (h : Outline j files v runtime index) :
    ((j.plan files).files.map fun f => Path.join j.config.output f.fileName).Nodup ↔
      (j.stems v files).Nodup := by
  have hcomp : ((j.plan files).files.map fun f => Path.join j.config.output f.fileName) =
      (j.stems v files).map fun p => Path.join j.config.output (fileName p.1 p.2) := by
    have hnames := congrArg (List.map (Path.join j.config.output)) h.map_fileName_files
    simpa only [List.map_map, Function.comp_def] using hnames
  rw [hcomp]
  refine ⟨List.Nodup.of_map _, fun hn => hn.map_on fun p hp q hq he => ?_⟩
  obtain ⟨p1, p2, p3, p4⟩ := h.of_mem_stems hp
  obtain ⟨q1, q2, q3, q4⟩ := h.of_mem_stems hq
  have hname := Path.join_injective _ _ _ (isName_fileName p1 p2 p3 p4).no_slash
    (isName_fileName q1 q2 q3 q4).no_slash he
  obtain ⟨e1, e2⟩ := fileName_inj p2 q2 hname
  exact Prod.ext e1 e2

theorem Outline.nodup_components (h : Outline j files v runtime index) (extension : String) :
    ((j.icons files).map fun i => (i.name, extension)).Nodup := by
  apply List.Nodup.of_map Prod.fst
  rw [List.map_map]
  exact nodup_names_icons files h.variant

theorem Outline.namesApart_of_nodup (hn : (j.stems v files).Nodup) : j.NamesApart v files := by
  unfold stems at hn
  rw [List.nodup_append, List.nodup_append, List.nodup_cons] at hn
  obtain ⟨⟨⟨hruntime, -⟩, -, hindex⟩, -⟩ := hn
  refine ⟨fun i hi e => hruntime (List.mem_map.mpr ⟨i, hi, by rw [e]⟩), ?_⟩
  intro hon he i hi e
  refine hindex _ (List.mem_cons_of_mem _ (List.mem_map_of_mem hi))
    ("index", v.index.pick j.config.typescript) ?_ ?_
  · rw [if_pos hon]
    exact List.mem_singleton.mpr rfl
  · rw [e, he]

theorem Outline.nodup_stems (h : Outline j files v runtime index) (ha : j.NamesApart v files) :
    (j.stems v files).Nodup := by
  have hv := h.namesFiles
  have hc : v.component.pick j.config.typescript ≠ "html" := fun e =>
    absurd (e ▸ hv.component j.config.typescript) (by decide)
  have hi : v.index.pick j.config.typescript ≠ "html" := fun e =>
    absurd (e ▸ hv.index j.config.typescript) (by decide)
  unfold stems
  -- each kind of file is told apart from those before it, by its stem or by its extension
  refine nodup_append_if (nodup_append_if (List.nodup_cons.mpr ⟨?_, h.nodup_components _⟩) ?_) ?_
  · intro hm
    obtain ⟨i, hicon, e⟩ := List.mem_map.mp hm
    exact ha.runtime i hicon (Prod.mk.inj e).1
  · intro hon hm
    rcases List.mem_cons.mp hm with e | hm
    · exact hv.runtimeStem_ne_index (Prod.mk.inj e).1.symm
    · obtain ⟨i, hicon, e⟩ := List.mem_map.mp hm
      obtain ⟨e1, e2⟩ := Prod.mk.inj e
      exact ha.index hon e2 i hicon e1
  · intro _ hm
    simp only [List.mem_append, List.mem_cons, List.mem_map, List.mem_ite_nil_right,
      List.not_mem_nil, or_false, Prod.mk.injEq] at hm
    rcases hm with (⟨-, e⟩ | ⟨i, -, -, e⟩) | ⟨-, -, e⟩
    · exact hc e.symm
    · exact hc e
    · exact hi e.symm

theorem writes_of_mem_writing {vs : List (SourceFile × Verdict)} {a : Action}
    (hnames : ∀ f ∈ (j.writing runtime vs index).filterMap Action.file?, Path.IsName f.fileName)
    (ha : a ∈ j.writing runtime vs index) : Progress.Writes a := by
  rcases mem_writing ha with ⟨f, rfl⟩ | ⟨c, rfl, -⟩
  · exact hnames f (List.mem_filterMap.mpr ⟨_, ha, rfl⟩)
  · trivial

theorem Outline.writes_of_mem_writing (h : Outline j files v runtime index) {a : Action}
    (ha : a ∈ j.writing runtime (j.verdicts [] files) index) : Progress.Writes a := by
  refine Job.writes_of_mem_writing (fun f hf => h.isName_of_mem_files ?_) ha
  rw [h.files_eq_writing]
  exact hf

theorem extension?_preview_ne (hv : v.NamesFiles) (typed : Bool) :
    Path.extension? Preview.fileName ≠ some (v.component.pick typed) := by
  have hhtml : Path.extension? Preview.fileName = some "html" := by decide
  rw [hhtml, ne_eq, Option.some.injEq]
  exact fun e => absurd (e ▸ hv.component typed) (by decide)

/-- A written file that would not be kept has another extension than the components. -/
theorem Outline.kept_or_extension_ne (h : Outline j files v runtime index) {f : GeneratedFile}
    (hf : f ∈ (j.plan files).files) : f.fileName ∈ j.keptNames v runtime files index ∨
      Path.extension? f.fileName ≠ some (v.component.pick j.config.typescript) := by
  apply (h.fileName_mem_keptNames hf).imp_right
  intro e
  rw [e]
  exact extension?_preview_ne h.namesFiles j.config.typescript

theorem Outline.readable {w : Writer} {t : FileTree} {p : Progress}
    (h : Outline j files v runtime index) (ht : t.ProperlyNamed) (hw : w.dryRun = false)
    (hp : (Progress.start t).takeAll w j.config.output (j.plan files).actions = (p, .ok ())) :
    (p.outputs.map (·.path)).Nodup → ∀ o ∈ p.outputs, p.tree.readText o.path = .ok o.content := by
  rw [h.actions_eq, finish] at hp
  -- all is written, then perhaps cleaned up, and one call closes the run
  obtain ⟨p₁, h₁, hp⟩ := Progress.takeAll_append.mp hp
  obtain ⟨p₂, h₂, h₃⟩ := Progress.takeAll_append.mp hp
  have hsound : p₁.Sound j.config.output :=
    (Progress.Sound.start ht).takeAll hw (fun a ha => h.writes_of_mem_writing ha) h₁
  have houtputs := Progress.outputs_takeAll h₁
  rw [← h.files_eq_writing] at houtputs
  have h₂' : (p₂.outputs.map (·.path)).Nodup → ∀ o ∈ p₂.outputs,
      p₂.tree.readText o.path = .ok o.content := by
    split at h₂
    · refine hsound.clean hw (fun o ho s hpath hs => ?_) (Progress.takeAll_singleton.mp h₂)
      rw [houtputs] at ho
      obtain ⟨f, hf, rfl⟩ := List.mem_map.mp ho
      obtain rfl := Path.join_injective _ _ _ (h.isName_of_mem_files hf).no_slash hs.no_slash hpath
      exact h.kept_or_extension_ne hf
    · obtain rfl := (Prod.mk.inj h₂).1
      exact hsound.readable
  rw [Progress.take_call (Progress.takeAll_singleton.mp h₃)]
  exact h₂'

/-- The outputs of a run are what was rendered, in the order in which it was written. They are files
of their own, each with its own text, exactly if no component is named like the runtime or the
index. -/
theorem outputs_distinct_iff {w : Writer} {t : FileTree} {report : GenerationReport}
    (ht : t.ProperlyNamed) (hw : w.dryRun = false)
    (h : (j.run w t files).report = .ok report) :
    ∃ v, Registry.builtin.get? j.config.framework = some v ∧
      report.outputs = (j.plan files).files.map (fun f =>
        ⟨Path.join j.config.output f.fileName, f.contents, true⟩) ∧
      ((report.outputs.map (·.path)).Nodup ∧
          (∀ o ∈ report.outputs, (j.run w t files).tree.readText o.path = .ok o.content) ↔
        j.NamesApart v files) := by
  obtain ⟨p, stats, hp, hresult, rfl, htree⟩ := run_eq_ok h
  obtain ⟨v, runtime, index, ho⟩ := outline_of_plan hresult
  have houtputs : p.outputs = (j.plan files).files.map fun f =>
      ⟨Path.join j.config.output f.fileName, f.contents, true⟩ := by
    have hall := Progress.outputs_takeAll hp
    rwa [hw] at hall
  have hpaths : p.outputs.map (·.path) =
      (j.plan files).files.map fun f => Path.join j.config.output f.fileName := by
    rw [houtputs, List.map_map]
    rfl
  refine ⟨v, ho.variant, houtputs, ?_⟩
  rw [htree]
  constructor
  · rintro ⟨hn, -⟩
    rw [hpaths] at hn
    exact Outline.namesApart_of_nodup (ho.nodup_paths_iff.mp hn)
  · intro ha
    have hn : (p.outputs.map (·.path)).Nodup := by
      rw [hpaths]
      exact ho.nodup_paths_iff.mpr (ho.nodup_stems ha)
    exact ⟨hn, ho.readable ht hw hp hn⟩

/-- A run that writes components of one framework to the directory "out". -/
def sample (framework : String) : Job :=
  .ofConfig { Config.standard with framework := framework, output := "out" }

theorem outputs_distinct_of_home :
    ∃ report, ((sample "vue").run (.reliable false) (.fresh "work")
        [⟨"icons/home.svg", "home.svg", "<svg/>"⟩]).report = .ok report ∧
      (report.outputs.map (·.path)).Nodup := by
  obtain ⟨report, h⟩ := exists_report_of_isSome (show ((sample "vue").run (.reliable false)
    (.fresh "work") [⟨"icons/home.svg", "home.svg", "<svg/>"⟩]).report.toOption.isSome = true by
      decide +kernel)
  obtain ⟨v, hv, -, hiff⟩ := outputs_distinct_iff (.fresh "work" (by decide)) rfl h
  obtain rfl : Variant.vue = v := Option.some.inj (Registry.get?_builtin_vue.symm.trans hv)
  have hnames : ∀ i ∈ (sample "vue").icons [⟨"icons/home.svg", "home.svg", "<svg/>"⟩],
      i.name ≠ "Icon" ∧ i.name ≠ "index" := by decide +kernel
  exact ⟨report, h, (hiff.mpr ⟨fun i hi => (hnames i hi).1, fun _ _ i hi => (hnames i hi).2⟩).1⟩

/-- The component of this drawing is written over the runtime that it imports. -/
theorem runtime_overwritten_by_icon :
    (sample "vue").config.validate = .ok () ∧
      ∃ report, ((sample "vue").run (.reliable false) (.fresh "work")
          [⟨"icons/icon.svg", "icon.svg", "<svg/>"⟩]).report = .ok report ∧
        ¬ (report.outputs.map (·.path)).Nodup := by
  obtain ⟨report, h⟩ := exists_report_of_isSome (show ((sample "vue").run (.reliable false)
    (.fresh "work") [⟨"icons/icon.svg", "icon.svg", "<svg/>"⟩]).report.toOption.isSome = true by
      decide +kernel)
  refine ⟨by decide +kernel, report, h, fun hn => ?_⟩
  have hpaths : (((sample "vue").run (.reliable false) (.fresh "work")
      [⟨"icons/icon.svg", "icon.svg", "<svg/>"⟩]).report.toOption.map fun r =>
        r.outputs.map (·.path)) = some ["out/Icon.vue", "out/Icon.vue", "out/index.ts"] := by
    decide +kernel
  rw [h] at hpaths
  have hlist : report.outputs.map (·.path) = ["out/Icon.vue", "out/Icon.vue", "out/index.ts"] :=
    Option.some.inj hpaths
  rw [hlist] at hn
  exact absurd hn (by decide)

end Job

end IconCompiler
