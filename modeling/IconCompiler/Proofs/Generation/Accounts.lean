import IconCompiler.Proofs.Generation.Outputs
import IconCompiler.Proofs.Generation.Verdicts

/-!
What a run reports of its drawings. Each is counted once and either has a component among the
outputs or a failure among the errors, in the order of the drawings; and which of the two it has
depends on the first drawing of its name that is read to an icon.
-/

namespace IconCompiler

/-- The hook that an action calls. -/
def Action.call? : Action → Option HookCall
  | .call c => some c
  | .write _ | .clean _ _ _ => none

/-- The hooks that are called are those of the actions, in order. -/
theorem Progress.calls_takeAll {w : Writer} {out : String} {p p' : Progress} {as : List Action}
    (h : p.takeAll w out as = (p', .ok ())) :
    p'.calls = p.calls ++ as.filterMap Action.call? := by
  induction as generalizing p with
  | nil => simp [(Prod.mk.inj h).1]
  | cons a as ih =>
    obtain ⟨p₁, h₁, h⟩ := takeAll_cons.mp h
    rw [ih h]
    cases a with
    | call c => simp [take_call h₁, Action.call?]
    | write f =>
      obtain ⟨o, t, -, rfl⟩ := take_write h₁
      rfl
    | clean extension marker keep =>
      obtain ⟨paths, t, -, rfl⟩ := take_clean h₁
      rfl

namespace Job

variable {j : Job} {v : Variant} {files : List SourceFile} {runtime : GeneratedFile}
  {index : Option GeneratedFile} {w : Writer} {t : FileTree} {report : GenerationReport}

theorem calls_of_run (h : (j.run w t files).report = .ok report) :
    (j.run w t files).calls = (j.plan files).actions.filterMap Action.call? := by
  obtain ⟨p, stats, hp, hresult, -, -⟩ := run_eq_ok h
  rw [run_of_finished hp hresult, Progress.calls_takeAll hp]
  rfl

theorem filterMap_closing (vs : List (SourceFile × Verdict)) :
    (j.closing v runtime vs index).filterMap Action.call? = [.complete (.ofVerdicts vs)] := by
  unfold closing
  cases index <;> cases j.config.generate.preview <;> cases j.config.generate.cleanOutput <;> rfl

/-- The hooks of the drawings are called in the order of the drawings, and the last one once. -/
theorem Outline.calls_eq (h : Outline j files v runtime index) :
    (j.plan files).actions.filterMap Action.call? =
      ((j.verdicts [] files).flatMap fun e => (e.2.actions e.1).filterMap Action.call?) ++
        [.complete (.ofVerdicts (j.verdicts [] files))] := by
  rw [h.actions, List.filterMap_append, filterMap_closing, List.filterMap_cons,
    List.filterMap_flatMap]
  rfl

/-! ## Successes and failures -/

/-- The drawings that compile, in order. -/
def successes (j : Job) (files : List SourceFile) : List SourceFile :=
  ((j.verdicts [] files).filter (·.2.icon?.isSome)).map Prod.fst

/-- The components of a run go with the drawings that compile. -/
theorem map_icons (j : Job) (files : List SourceFile) :
    (j.icons files).map (fun i => (i.source, i.name)) =
      (j.successes files).map fun file => (file, j.naming.componentName file.fileName) := by
  -- a component is named by its own drawing, verdict by verdict
  have hmade : ∀ e ∈ j.verdicts [] files, e.2.icon?.map (fun i => (i.source, i.name)) =
      if e.2.icon?.isSome then some (e.1, j.naming.componentName e.1.fileName) else none := by
    intro e he
    obtain ⟨done, hverdict⟩ := exists_verdict_of_mem he
    cases hicon : e.2 with
    | compiled icon =>
      obtain ⟨hsource, hname⟩ := source_of_verdict (hverdict.trans hicon)
      simp [Verdict.icon?, hsource, hname]
    | unnamed _ | taken _ _ | rejected _ _ => rfl
  rw [icons, successes, List.map_filterMap, List.filterMap_congr hmade, List.map_map]
  induction j.verdicts [] files with
  | nil => rfl
  | cons e es ih =>
    rw [List.filterMap_cons, List.filter_cons]
    cases e.2.icon?.isSome <;> simp [ih]

theorem length_icons (j : Job) (files : List SourceFile) :
    (j.icons files).length = (j.successes files).length := by
  simpa using congrArg List.length (map_icons j files)

/-- Drawings that are named alike, and between them one without a name of a component. The first is
not closed. -/
def homeDrawings : List SourceFile :=
  [⟨"home.svg", "home.svg", "<svg"⟩, ⟨"Home.svg", "Home.svg", "<svg/>"⟩,
    ⟨"1st.svg", "1st.svg", "<svg/>"⟩, ⟨"-home.svg", "-home.svg", "<svg/>"⟩]

/-- Of the drawings of one valid name, the first that is read to an icon has the component. Those
before it are recorded with what is wrong with them, and those behind it as duplicates of it: no
hook is called with them, nothing is written for them, and the run is the same whatever they hold.
So no two components have one name. -/
theorem first_to_compile_owns_name (h : (j.run w t files).report = .ok report) :
    ∃ v runtime index, Outline j files v runtime index ∧
      (j.verdicts [] files).map Prod.fst = files ∧
      report.stats.errors = (j.verdicts [] files).filterMap failureOf? ∧
      (j.run w t files).calls =
        ((j.verdicts [] files).flatMap fun e => (e.2.actions e.1).filterMap Action.call?) ++
          [.complete report.stats] ∧
      (∀ n, ComponentName.isValid n = true → j.Owned v n ((j.verdicts [] files).filter
        fun e => j.naming.componentName e.1.fileName = n)) ∧
      ((j.icons files).map (·.name)).Nodup ∧
      ∀ before dup after owner tree content, files = before ++ dup :: after → owner ∈ before →
        ComponentName.isValid (j.naming.componentName owner.fileName) = true →
        j.naming.componentName dup.fileName = j.naming.componentName owner.fileName →
        Icon.ofSvg (j.svgOf owner) = .ok tree →
        j.run w t (before ++ { dup with content := content } :: after) = j.run w t files := by
  have hcalls := calls_of_run h
  obtain ⟨p, stats, -, hresult, rfl, -⟩ := run_eq_ok h
  obtain ⟨v, runtime, index, ho⟩ := outline_of_plan hresult
  have hstats := stats_of_plan hresult
  refine ⟨v, runtime, index, ho, map_fst_verdicts ho.unstopped, ?_, ?_,
    fun n hn => owned_verdicts [] files ho.variant hn rfl, nodup_names_icons files ho.variant, ?_⟩
  · rw [hstats, ofVerdicts_eq]
  · rw [hcalls, ho.calls_eq, hstats]
  · intro before dup after owner tree content hfiles howner hvalid hdup hread
    rw [hfiles]
    unfold run
    rw [plan_of_duplicate ho.variant content hvalid howner hdup hread]

/-- The name is that of the second drawing, and what the last one holds does not matter. -/
theorem home_of_second_drawing :
    ∃ report, ((sample "vue").run (.reliable false) (.fresh "work") homeDrawings).report =
        .ok report ∧
      report.stats.errors =
        [⟨"home.svg", "Failed to parse SVG: Invalid SVG: No <svg> tag found"⟩,
          ⟨"1st.svg", "Invalid component name '1st'"⟩,
          ⟨"-home.svg", "Component name 'Home' is already used by Home.svg"⟩] ∧
      ∀ content, (sample "vue").run (.reliable false) (.fresh "work")
        (homeDrawings.take 3 ++ [⟨"-home.svg", "-home.svg", content⟩]) =
          (sample "vue").run (.reliable false) (.fresh "work") homeDrawings := by
  obtain ⟨report, h⟩ := exists_report_of_isSome (show ((sample "vue").run (.reliable false)
    (.fresh "work") homeDrawings).report.toOption.isSome = true by decide +kernel)
  obtain ⟨v, runtime, index, -, -, herrors, -, -, -, hsame⟩ := first_to_compile_owns_name h
  refine ⟨report, h, herrors.trans (by decide +kernel), fun content => ?_⟩
  exact hsame (homeDrawings.take 3) ⟨"-home.svg", "-home.svg", "<svg/>"⟩ []
    ⟨"Home.svg", "Home.svg", "<svg/>"⟩ [] content rfl (by decide) (by decide +kernel)
    (by decide +kernel) (by rfl)

end Job

end IconCompiler
