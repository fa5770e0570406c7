import IconCompiler.Proofs.Generation.Independent
import IconCompiler.Proofs.Generation.Session

/-!
Which hooks a run calls, with what, and in which order. What becomes of a drawing depends on what
the hooks have answered before, so the calls of a run are told drawing by drawing; the answers of
the hooks themselves may depend on anything that the run has done.
-/

namespace IconCompiler

namespace Job

open Running

/-- What becomes of a drawing whose turn it is, after what a run has done and the components that
are there. Without a valid name that is free no hook is called with it. Otherwise the one hook is,
and the component is made of what it answers; if it can be, the other hook is called with its text,
and what that answers is written. -/
inductive Attended (j : Job) (h : LiveHooks) (past : List Action) (done : List CompiledIcon)
    (file : SourceFile) : Verdict → Prop where
  | unnamed
    (invalid : ComponentName.isValid (j.naming.componentName file.fileName) = false) :
    Attended j h past done file (.unnamed (j.naming.componentName file.fileName))
  | taken {owner : CompiledIcon}
    (valid : ComponentName.isValid (j.naming.componentName file.fileName) = true)
    (owned : done.find? (·.name = j.naming.componentName file.fileName) = some owner) :
    Attended j h past done file
      (.taken (j.naming.componentName file.fileName) owner.source.fileName)
  | rejected {cause : CompileError}
    (valid : ComponentName.isValid (j.naming.componentName file.fileName) = true)
    (free : done.find? (·.name = j.naming.componentName file.fileName) = none)
    (fails : j.options.compileComponent (j.naming.componentName file.fileName)
      (h.beforeParse past file.content file.fileName) = .error cause) :
    Attended j h past done file (.rejected (j.naming.componentName file.fileName) cause)
  | compiled {made : GeneratedFile}
    (valid : ComponentName.isValid (j.naming.componentName file.fileName) = true)
    (free : done.find? (·.name = j.naming.componentName file.fileName) = none)
    (compiles : j.options.compileComponent (j.naming.componentName file.fileName)
      (h.beforeParse past file.content file.fileName) = .ok made) :
    Attended j h past done file (.compiled
      ⟨file, j.naming.componentName file.fileName, h.beforeParse past file.content file.fileName,
        made.contents, ⟨made.fileName,
          h.afterGenerate (past ++ [.call (.beforeParse file.content file.fileName)])
            made.contents (j.naming.componentName file.fileName)⟩⟩)

/-- The run with what its hooks are when it is the turn of a drawing. -/
def facing (j : Job) (h : LiveHooks) (past : List Action) (file : SourceFile) : Job :=
  { j with hooks := ⟨h.beforeParse past,
      h.afterGenerate (past ++ [.call (.beforeParse file.content file.fileName)])⟩ }

variable {j : Job} {v : Variant} {h : LiveHooks} {w : Writer} {t : FileTree} {s s' : Session}
  {past : List Action} {done : List CompiledIcon} {file : SourceFile} {files : List SourceFile}
  {verdict : Verdict}

/-! ## One drawing -/

theorem attended_verdict (j : Job) (h : LiveHooks) (past : List Action)
    (done : List CompiledIcon) (file : SourceFile) :
    j.Attended h past done file ((j.facing h past file).verdict done file) := by
  -- the hooks have no say in the name
  have hname : (j.facing h past file).naming.componentName file.fileName =
      j.naming.componentName file.fileName := rfl
  cases hvalid : ComponentName.isValid (j.naming.componentName file.fileName) with
  | false =>
    rw [verdict_of_not_isValid done (hname ▸ hvalid)]
    exact .unnamed hvalid
  | true =>
    cases hfind : done.find? (·.name = j.naming.componentName file.fileName) with
    | some owner =>
      rw [verdict_of_find?_eq_some hvalid hname hfind]
      exact .taken hvalid hfind
    | none =>
      rw [verdict_of_find?_eq_none hvalid hname hfind]
      cases hmade : (j.facing h past file).options.compileComponent
          (j.naming.componentName file.fileName) ((j.facing h past file).svgOf file) with
      | error cause =>
        rw [compile, hmade]
        exact .rejected hvalid hfind hmade
      | ok made =>
        rw [compile, hmade]
        exact .compiled hvalid hfind hmade

/-- The verdict says what is done about the drawing, and no more is done about it. -/
theorem attend_of_attended (hv : Registry.builtin.get? j.config.framework = some v)
    (ha : j.Attended h s.past done file verdict) :
    j.attend h w done file s =
      (performAll h w j.config.output (verdict.actions file) >>= fun _ => pure verdict) s := by
  unfold attend
  cases ha with
  | unnamed hinvalid =>
    simp only [hinvalid, Bool.false_eq_true, if_false]
    rfl
  | taken hvalid howned =>
    simp only [hvalid, howned, if_true]
    rfl
  | rejected hvalid hfree hfails =>
    obtain ⟨cause, -, rfl⟩ := (CompileOptions.compileComponent_eq_error_iff hv _ _ _).mp hfails
    simp only [hvalid, hfree, if_true, get_bind, hfails]
    rfl
  | compiled hvalid hfree hcompiles =>
    simp only [hvalid, hfree, if_true, get_bind, hcompiles, Verdict.actions, performAll_cons,
      performAll_nil, bind_assoc, pure_bind, perform_call_bind]

/-- What is left behind a drawing: the verdict on it, and the actions that this asks for. -/
theorem attended_of_attend (hv : Registry.builtin.get? j.config.framework = some v)
    (hok : j.attend h w done file s = .ok verdict s') :
    j.Attended h s.past done file verdict ∧
      performAll h w j.config.output (verdict.actions file) s = .ok () s' := by
  have ha := attended_verdict j h s.past done file
  rw [attend_of_attended hv ha] at hok
  obtain ⟨_, s₁, hactions, hpure⟩ := bind_eq_ok.mp hok
  obtain ⟨rfl, rfl⟩ := pure_eq_ok.mp hpure
  exact ⟨ha, hactions⟩

/-! ## Drawings in order -/

/-- The verdicts on drawings in order. What was done about those before a drawing has been done when
its turn comes, and their components are there. -/
structure AttendedAll (j : Job) (h : LiveHooks) (past : List Action) (done : List CompiledIcon)
    (files : List SourceFile) (vs : List (SourceFile × Verdict)) : Prop where
  drawings : vs.map Prod.fst = files
  each : ∀ before e after, vs = before ++ e :: after →
    j.Attended h (past ++ before.flatMap fun e => e.2.actions e.1)
      (done ++ before.filterMap (·.2.icon?)) e.1 e.2

theorem AttendedAll.nil : j.AttendedAll h past done [] [] :=
  ⟨rfl, by simp⟩

theorem AttendedAll.cons {vs : List (SourceFile × Verdict)}
    (ha : j.Attended h past done file verdict)
    (has : j.AttendedAll h (past ++ verdict.actions file) (done ++ verdict.icon?.toList) files vs) :
    j.AttendedAll h past done (file :: files) ((file, verdict) :: vs) := by
  refine ⟨by rw [List.map_cons, has.drawings], fun before e after hvs => ?_⟩
  cases before with
  | nil =>
    obtain ⟨rfl, -⟩ := List.cons.inj hvs
    simpa using ha
  | cons first before =>
    obtain ⟨rfl, hrest⟩ := List.cons.inj hvs
    have hrest := has.each before e after hrest
    rw [List.append_assoc, List.append_assoc] at hrest
    rw [List.flatMap_cons, List.filterMap_cons]
    cases hicon : verdict.icon? <;> simpa [hicon] using hrest

/-- What is left behind drawings: the verdicts on them, and the actions that these ask for. -/
theorem attended_of_attendAll (hv : Registry.builtin.get? j.config.framework = some v)
    {vs : List (SourceFile × Verdict)} (hok : j.attendAll h w done files s = .ok vs s') :
    j.AttendedAll h s.past done files vs ∧
      performAll h w j.config.output (vs.flatMap fun e => e.2.actions e.1) s = .ok () s' := by
  induction files generalizing done s vs with
  | nil =>
    obtain ⟨rfl, rfl⟩ := pure_eq_ok.mp hok
    exact ⟨.nil, rfl⟩
  | cons file files ih =>
    obtain ⟨verdict, s₁, hfirst, hok⟩ := bind_eq_ok.mp hok
    obtain ⟨vs', s₂, hrest, hpure⟩ := bind_eq_ok.mp hok
    obtain ⟨rfl, rfl⟩ := pure_eq_ok.mp hpure
    obtain ⟨ha, hactions⟩ := attended_of_attend hv hfirst
    obtain ⟨has, hactions'⟩ := ih hrest
    rw [(Performed.of_performAll hactions).past] at has
    exact ⟨.cons ha has, performAll_append_eq_ok.mpr ⟨s₁, hactions, hactions'⟩⟩

theorem attendAll_live (hv : Registry.builtin.get? j.config.framework = some v) (w : Writer)
    (done : List CompiledIcon) (files : List SourceFile) :
    j.attendAll j.hooks.live w done files = performAll j.hooks.live w j.config.output
      ((j.verdicts done files).flatMap fun e => e.2.actions e.1) >>= fun _ =>
        pure (j.verdicts done files) := by
  induction files generalizing done with
  | nil => rfl
  | cons file files ih =>
    have hfirst : j.attend j.hooks.live w done file = performAll j.hooks.live w j.config.output
        ((j.verdict done file).actions file) >>= fun _ => pure (j.verdict done file) := by
      funext s
      exact attend_of_attended hv (attended_verdict j j.hooks.live s.past done file)
    rw [attendAll, hfirst, verdicts_cons hv, List.flatMap_cons, performAll_append]
    simp only [bind_assoc, pure_bind, ih]

/-! ## The whole run -/

theorem generate_of_unsupported (h : LiveHooks) (w : Writer) (files : List SourceFile)
    (hnone : Registry.builtin.get? j.config.framework = none) :
    j.generate h w files = throw (.generate (.unsupportedVariant j.config.framework)) := by
  rw [generate, Registry.find, hnone]
  rfl

/-- A run of a built-in variant: all that it needs besides the drawings can be made. -/
theorem generate_eq (hv : Registry.builtin.get? j.config.framework = some v) (h : LiveHooks)
    (w : Writer) (files : List SourceFile) {runtime : GeneratedFile}
    (hruntime : j.options.compileRuntime = .ok runtime) :
    j.generate h w files = (do
      perform h w j.config.output (.write runtime)
      let vs ← j.attendAll h w [] files
      performAll h w j.config.output
        (j.closing v runtime vs (j.indexOf v (vs.filterMap (·.2.icon?))))
      let s ← get
      pure ⟨.ofVerdicts vs, s.progress.outputs, s.progress.removed⟩) := by
  have hfind : Registry.builtin.find j.config.framework = .ok v := find_eq_ok_iff.mpr hv
  simp only [generate, hfind, hruntime, indexFile?_eq hv, ofExcept_ok, pure_bind]

/-- With hooks that only rewrite texts a run is the one that is planned beforehand. -/
theorem runWith_live (j : Job) (w : Writer) (t : FileTree) (files : List SourceFile) :
    j.runWith j.hooks.live w t files = j.run w t files := by
  unfold runWith
  cases hv : Registry.builtin.get? j.config.framework with
  | none =>
    rw [generate_of_unsupported _ w files hv, run_of_unsupported w t files hv]
    rfl
  | some v =>
    obtain ⟨runtime, ho, hresult⟩ := exists_outline hv files
    -- no verdict depends on what hooks do, so all actions can be taken behind all verdicts
    have hgenerate : j.generate j.hooks.live w files = (do
        performAll j.hooks.live w j.config.output (j.plan files).actions
        let s ← get
        pure ⟨.ofVerdicts (j.verdicts [] files), s.progress.outputs, s.progress.removed⟩) := by
      rw [generate_eq hv _ w files ho.compiles, attendAll_live hv, ho.actions,
        performAll_append, performAll_cons]
      simp only [bind_assoc, pure_bind]
      rfl
    rw [hgenerate]
    cases hp : (Progress.start t).takeAll w j.config.output (j.plan files).actions with
    | mk p taken =>
      cases taken with
      | ok =>
        have hall := performAll_live_of_ok (k := j.hooks) (s := .start t) hp
        rw [run_of_finished hp hresult, bind_of_ok _ hall]
        rfl
      | error e =>
        obtain ⟨past, hall⟩ := performAll_live_of_error (k := j.hooks) (s := .start t) hp
        rw [run_of_stopped hp, bind_of_error _ hall]

theorem exists_generate_of_runWith {report : GenerationReport}
    (hr : (j.runWith h w t files).report = .ok report) :
    ∃ s, j.generate h w files (.start t) = .ok report s ∧
      (j.runWith h w t files).calls = s.progress.calls := by
  unfold runWith at hr ⊢
  cases hok : j.generate h w files (.start t) with
  | error e s =>
    rw [hok] at hr
    contradiction
  | ok report' s =>
    rw [hok] at hr
    obtain rfl := Except.ok.inj hr
    exact ⟨s, rfl, rfl⟩

/-! ## Calls -/

/-- A run that comes to its end has taken the actions that its verdicts ask for, and all that goes
with them. -/
theorem performed_of_generate {report : GenerationReport}
    (hok : j.generate h w files (.start t) = .ok report s) :
    ∃ v runtime vs, Registry.builtin.get? j.config.framework = some v ∧
      j.options.compileRuntime = .ok runtime ∧ j.AttendedAll h [.write runtime] [] files vs ∧
      report = ⟨.ofVerdicts vs, s.progress.outputs, s.progress.removed⟩ ∧
      performAll h w j.config.output (.write runtime :: (vs.flatMap fun e => e.2.actions e.1) ++
        j.closing v runtime vs (j.indexOf v (vs.filterMap (·.2.icon?)))) (.start t) =
          .ok () s := by
  cases hv : Registry.builtin.get? j.config.framework with
  | none =>
    rw [generate_of_unsupported h w files hv] at hok
    exact absurd hok throw_ne_ok
  | some v =>
    obtain ⟨runtime, hruntime⟩ := CompileOptions.exists_compileRuntime (o := j.options) hv
    rw [generate_eq hv h w files hruntime] at hok
    obtain ⟨_, s₁, hwrite, hok⟩ := bind_eq_ok.mp hok
    obtain ⟨vs, s₂, hdrawings, hok⟩ := bind_eq_ok.mp hok
    obtain ⟨_, s₃, hclosing, hok⟩ := bind_eq_ok.mp hok
    rw [get_bind] at hok
    obtain ⟨rfl, rfl⟩ := pure_eq_ok.mp hok
    obtain ⟨has, hactions⟩ := attended_of_attendAll hv hdrawings
    rw [(Performed.of_perform hwrite).past] at has
    refine ⟨v, runtime, vs, rfl, hruntime, has, rfl, ?_⟩
    rw [List.cons_append, performAll_cons, bind_of_ok _ hwrite]
    exact performAll_append_eq_ok.mpr ⟨s₂, hactions, hclosing⟩

theorem opening_append_closing (v : Variant) (runtime : GeneratedFile)
    (vs : List (SourceFile × Verdict)) (index : Option GeneratedFile) :
    .write runtime :: (vs.flatMap fun e => e.2.actions e.1) ++ j.closing v runtime vs index =
      j.writing runtime vs index ++
        (if j.config.generate.cleanOutput then
          [.clean (v.component.pick j.config.typescript) (marker runtime.fileName)
            (kept v j.config.typescript runtime vs index)]
        else []) ++ [.call (.complete (.ofVerdicts vs))] := by
  simp only [writing, closing, List.append_assoc, List.cons_append]

theorem filterMap_opening_append_closing (v : Variant) (runtime : GeneratedFile)
    (vs : List (SourceFile × Verdict)) :
    (.write runtime :: (vs.flatMap fun e => e.2.actions e.1) ++
      j.closing v runtime vs (j.indexOf v (vs.filterMap (·.2.icon?)))).filterMap Action.file? =
        j.filesFor v runtime (vs.filterMap (·.2.icon?)) := by
  have hclean : (if j.config.generate.cleanOutput then
      [Action.clean (v.component.pick j.config.typescript) (marker runtime.fileName)
        (kept v j.config.typescript runtime vs (j.indexOf v (vs.filterMap (·.2.icon?))))]
      else []).filterMap Action.file? = [] := by
    split <;> rfl
  rw [opening_append_closing, List.filterMap_append, List.filterMap_append, filterMap_writing,
    hclean, List.append_nil]
  exact List.append_nil _

/-- The hooks of the drawings are not the one that is called last. -/
theorem complete_not_mem_calls (vs : List (SourceFile × Verdict)) (stats : Stats) :
    HookCall.complete stats ∉
      vs.flatMap fun e => (e.2.actions e.1).filterMap Action.call? := by
  intro hmem
  obtain ⟨e, -, hcall⟩ := List.mem_flatMap.mp hmem
  obtain ⟨a, ha, hcall⟩ := List.mem_filterMap.mp hcall
  rcases mem_actions ha with ⟨c, rfl, hc⟩ | ⟨icon, -, rfl⟩
  · exact hc stats (Option.some.inj hcall)
  · contradiction

/-- The hooks of a run that comes to its end, whatever they answer and do. In the order of the
drawings, each that has a valid name which is still free is handed to the one hook, and the other is
handed what is made of the answer, if it compiles, and decides on what is written for it. When all
files are written and the stale ones are removed, the last hook is called with the account of the
run, and no hook is called otherwise. -/
theorem hooks_called_in_order {report : GenerationReport}
    (hok : j.generate h w files (.start t) = .ok report s) :
    ∃ v runtime vs, Registry.builtin.get? j.config.framework = some v ∧
      j.options.compileRuntime = .ok runtime ∧ j.AttendedAll h [.write runtime] [] files vs ∧
      report.stats = .ofVerdicts vs ∧
      s.progress.calls = (vs.flatMap fun e => (e.2.actions e.1).filterMap Action.call?) ++
        [.complete report.stats] ∧
      (∀ stats, HookCall.complete stats ∉
        vs.flatMap fun e => (e.2.actions e.1).filterMap Action.call?) ∧
      s.past = j.writing runtime vs (j.indexOf v (vs.filterMap (·.2.icon?))) ++
        (if j.config.generate.cleanOutput then
          [.clean (v.component.pick j.config.typescript) (marker runtime.fileName)
            (kept v j.config.typescript runtime vs (j.indexOf v (vs.filterMap (·.2.icon?))))]
        else []) ++ [.call (.complete report.stats)] ∧
      performAll h w j.config.output s.past (.start t) = .ok () s ∧
      report.outputs = (j.filesFor v runtime (vs.filterMap (·.2.icon?))).map (j.outputOf w) ∧
      report.removed = s.progress.removed ∧
      (h = j.hooks.live →
        j.run w t files = ⟨s.progress.tree, s.progress.calls, .ok report⟩) := by
  obtain ⟨v, runtime, vs, hv, hruntime, has, rfl, hall⟩ := performed_of_generate hok
  have hdone := Performed.of_performAll hall
  have hpast : s.past = _ := hdone.past
  refine ⟨v, runtime, vs, hv, hruntime, has, rfl, ?_, complete_not_mem_calls vs, ?_, ?_, ?_, rfl,
    ?_⟩
  · rw [hdone.calls, List.filterMap_append, filterMap_closing, List.filterMap_cons,
      List.filterMap_flatMap]
    rfl
  · rw [hpast]
    exact opening_append_closing v runtime vs _
  · rw [hpast]
    exact hall
  · rw [hdone.outputs, filterMap_opening_append_closing]
    rfl
  · rintro rfl
    rw [← runWith_live, runWith, hok]

/-- Hooks with a memory: the first drawing is handed on unclosed, and all others are replaced. -/
def forgiving : LiveHooks where
  beforeParse past _ _ := if past.filterMap Action.call? = [] then "<svg" else "<svg/>"
  afterGenerate _ code _ := code
  touch _ _ t := t

/-- Of the drawings named alike the second compiles, so that the fourth is handed to no hook. -/
theorem homes_called_in_order :
    ∃ report s calls, (sample "vue").generate forgiving (.reliable false) homeDrawings
        (.start (.fresh "work")) = .ok report s ∧
      s.progress.calls = calls ++ [.complete report.stats] ∧
      calls.map (fun | .beforeParse _ n | .afterGenerate _ n => n | .complete _ => "") =
        ["home.svg", "Home.svg", "Home"] := by
  have hcalls : ((sample "vue").runWith forgiving (.reliable false) (.fresh "work")
      homeDrawings).calls.dropLast.map
        (fun | .beforeParse _ n | .afterGenerate _ n => n | .complete _ => "") =
      ["home.svg", "Home.svg", "Home"] := by
    decide +kernel
  obtain ⟨report, hreport⟩ := exists_report_of_isSome (show ((sample "vue").runWith forgiving
    (.reliable false) (.fresh "work") homeDrawings).report.toOption.isSome = true by
      decide +kernel)
  obtain ⟨s, hok, hsame⟩ := exists_generate_of_runWith hreport
  obtain ⟨v, runtime, vs, -, -, -, -, hlast, -⟩ := hooks_called_in_order hok
  rw [hsame, hlast, List.dropLast_concat] at hcalls
  exact ⟨report, s, _, hok, hlast, hcalls⟩

end Job

end IconCompiler
