import IconCompiler.Generation.Plan
import IconCompiler.Proofs.Generation.FileNames

/-!
The plan of a run that can be carried out to its end: which files it writes under which names, and
what it cleans up.
-/

namespace IconCompiler

/-- The file that an action writes. -/
def Action.file? : Action → Option GeneratedFile
  | .write file => some file
  | .call _ | .clean _ _ _ => none

/-- The files that a plan writes, in order. -/
def Plan.files (p : Plan) : List GeneratedFile := p.actions.filterMap Action.file?

section

variable {ε ε' α : Type}

theorem mapError_ok (f : ε → ε') (a : α) : (Except.ok a).mapError f = .ok a := rfl

theorem mapError_error (f : ε → ε') (e : ε) :
    (Except.error e : Except ε α).mapError f = .error (f e) := rfl

theorem exists_eq_ok_of_isSome {x : Except ε α} (h : x.toOption.isSome = true) :
    ∃ a, x = .ok a := by
  cases x with
  | ok a => exact ⟨a, rfl⟩
  | error e => contradiction

end

namespace Job

/-- The components of a run, in order. -/
def icons (j : Job) (files : List SourceFile) : List CompiledIcon :=
  (j.verdicts [] files).filterMap (·.2.icon?)

/-! ## Components -/

theorem find_eq_ok_iff {r : Registry} {id : String} {v : Variant} :
    r.find id = .ok v ↔ r.get? id = some v := by
  unfold Registry.find
  split <;> simp_all

theorem find_of_get?_eq_none {r : Registry} {id : String} (h : r.get? id = none) :
    r.find id = .error (.unsupportedVariant id) := by
  rw [Registry.find, h]

theorem compileComponent_eq_ok {o : CompileOptions} {v : Variant} {name svg : String}
    {made : GeneratedFile} (hv : Registry.builtin.get? o.variant = some v)
    (h : o.compileComponent name svg = .ok made) :
    made.fileName = v.componentFileName name o.typed ∧
      ∃ icon, v.renderComponent name o.typed o.keepColors icon = .ok made.contents := by
  unfold CompileOptions.compileComponent at h
  rw [find_eq_ok_iff.mpr hv] at h
  cases hi : (Icon.ofSvg svg).mapError CompileError.source with
  | error e => simp [hi, bind, Except.bind] at h
  | ok icon =>
    cases ht : v.renderComponent name o.typed o.keepColors icon with
    | error e => simp [hi, ht, bind, Except.bind, mapError_error] at h
    | ok text =>
      simp only [hi, ht, bind, Except.bind, pure, Except.pure, mapError_ok, Except.ok.injEq] at h
      rw [← h]
      exact ⟨rfl, icon, ht⟩

/-- What is behind a drawing that compiles. -/
theorem compiled_of_verdict {j : Job} {done : List CompiledIcon} {file : SourceFile}
    {icon : CompiledIcon} (h : j.verdict done file = .compiled icon) :
    ComponentName.isValid icon.name = true ∧ (∀ o ∈ done, o.name ≠ icon.name) ∧
      icon.source = file ∧ icon.name = j.naming.componentName file.fileName ∧
      j.options.compileComponent icon.name (j.svgOf file) = .ok ⟨icon.file.fileName, icon.code⟩ ∧
      icon.file.contents = j.hooks.afterGenerate icon.code icon.name := by
  unfold verdict at h
  dsimp only at h
  split at h
  · rename_i hvalid
    split at h
    · contradiction
    · rename_i hfree
      unfold compile at h
      split at h
      · contradiction
      · rename_i made hmade
        obtain rfl := Verdict.compiled.inj h
        refine ⟨hvalid, fun o ho e => ?_, rfl, rfl, hmade, rfl⟩
        have := List.find?_eq_none.mp hfree o ho
        simp [e] at this
  · contradiction

theorem icon_of_verdict {j : Job} {v : Variant} {done : List CompiledIcon} {file : SourceFile}
    {icon : CompiledIcon} (hv : Registry.builtin.get? j.config.framework = some v)
    (h : j.verdict done file = .compiled icon) :
    ComponentName.isValid icon.name = true ∧ (∀ o ∈ done, o.name ≠ icon.name) ∧
      icon.file.fileName = v.componentFileName icon.name j.config.typescript := by
  obtain ⟨hvalid, hfree, -, -, hmade, -⟩ := compiled_of_verdict h
  exact ⟨hvalid, hfree, (compileComponent_eq_ok hv hmade).1⟩

theorem icons_verdicts_cons (j : Job) (done : List CompiledIcon) (file : SourceFile)
    (files : List SourceFile) :
    (j.verdicts done (file :: files)).filterMap (·.2.icon?) =
      (j.verdict done file).icon?.toList ++
        if (j.verdict done file).fatal?.isSome then []
        else (j.verdicts (done ++ (j.verdict done file).icon?.toList) files).filterMap
          (·.2.icon?) := by
  rw [verdicts, List.filterMap_cons]
  dsimp only
  by_cases hf : (j.verdict done file).fatal?.isSome = true <;>
    cases (j.verdict done file).icon? <;> simp [hf]

/-- Every verdict is the one on its drawing, after some components. -/
theorem exists_verdict_of_mem {j : Job} {done : List CompiledIcon} {files : List SourceFile}
    {e : SourceFile × Verdict} (he : e ∈ j.verdicts done files) :
    ∃ done', j.verdict done' e.1 = e.2 := by
  induction files generalizing done with
  | nil => simp [verdicts] at he
  | cons file files ih =>
    rw [verdicts] at he
    rcases List.mem_cons.mp he with rfl | he
    · exact ⟨done, rfl⟩
    · split at he
      · contradiction
      · exact ih he

/-- The verdicts of a run that nothing stops are on all drawings, in order. -/
theorem map_fst_verdicts {j : Job} {done : List CompiledIcon} {files : List SourceFile}
    (hf : (j.verdicts done files).findSome? (·.2.fatal?) = none) :
    (j.verdicts done files).map Prod.fst = files := by
  induction files generalizing done with
  | nil => rfl
  | cons file files ih =>
    rw [verdicts] at hf ⊢
    have hfatal : (j.verdict done file).fatal? = none :=
      List.findSome?_eq_none_iff.mp hf _ List.mem_cons_self
    simp only [List.findSome?_cons, hfatal, Option.isSome_none, Bool.false_eq_true, if_false] at hf
    simp only [hfatal, Option.isSome_none, Bool.false_eq_true, if_false, List.map_cons, ih hf]

theorem verdict_of_mem_icons {j : Job} {done : List CompiledIcon} {files : List SourceFile}
    {icon : CompiledIcon} (h : icon ∈ (j.verdicts done files).filterMap (·.2.icon?)) :
    ∃ done' file, j.verdict done' file = .compiled icon := by
  obtain ⟨⟨file, verdict⟩, he, hicon⟩ := List.mem_filterMap.mp h
  obtain ⟨done', hverdict⟩ := exists_verdict_of_mem he
  refine ⟨done', file, hverdict.trans ?_⟩
  cases verdict with
  | compiled first => exact congrArg _ (Option.some.inj hicon)
  | unnamed _ | taken _ _ | rejected _ _ => contradiction

theorem mem_icons_verdicts {j : Job} {v : Variant} {done : List CompiledIcon}
    {files : List SourceFile} {icon : CompiledIcon}
    (hv : Registry.builtin.get? j.config.framework = some v)
    (h : icon ∈ (j.verdicts done files).filterMap (·.2.icon?)) :
    ComponentName.isValid icon.name = true ∧
      icon.file.fileName = v.componentFileName icon.name j.config.typescript := by
  obtain ⟨done', file, hverdict⟩ := verdict_of_mem_icons h
  obtain ⟨hvalid, -, hname⟩ := icon_of_verdict hv hverdict
  exact ⟨hvalid, hname⟩

theorem nodup_names_verdicts {j : Job} {v : Variant} {done : List CompiledIcon}
    {files : List SourceFile} (hv : Registry.builtin.get? j.config.framework = some v)
    (hn : (done.map (·.name)).Nodup) :
    ((done ++ (j.verdicts done files).filterMap (·.2.icon?)).map (·.name)).Nodup := by
  induction files generalizing done with
  | nil => simpa [verdicts] using hn
  | cons file files ih =>
    -- the components that are done carry the induction: the next one is named like none of them
    have hn' : ((done ++ (j.verdict done file).icon?.toList).map (·.name)).Nodup := by
      cases hd : j.verdict done file with
      | compiled first =>
        obtain ⟨-, hfree, -⟩ := icon_of_verdict hv hd
        rw [List.map_append, List.nodup_append]
        refine ⟨hn, by simp [Verdict.icon?], fun a ha b hb => ?_⟩
        obtain ⟨o, ho, rfl⟩ := List.mem_map.mp ha
        obtain rfl := List.mem_singleton.mp hb
        exact hfree o ho
      | unnamed _ | taken _ _ | rejected _ _ => simpa [Verdict.icon?] using hn
    rw [icons_verdicts_cons, ← List.append_assoc]
    split
    · rwa [List.append_nil]
    · exact ih hn'

theorem nodup_names_icons {j : Job} {v : Variant} (files : List SourceFile)
    (hv : Registry.builtin.get? j.config.framework = some v) :
    ((j.icons files).map (·.name)).Nodup :=
  @nodup_names_verdicts j v [] files hv List.nodup_nil

/-- What is done about a drawing: hooks are called, and a component is written. -/
theorem mem_actions {file : SourceFile} {verdict : Verdict} {a : Action}
    (h : a ∈ verdict.actions file) : (∃ c, a = .call c ∧ ∀ stats, c ≠ .complete stats) ∨
      ∃ icon, verdict = .compiled icon ∧ a = .write icon.file := by
  cases verdict with
  | unnamed _ | taken _ _ => contradiction
  | rejected _ _ =>
    obtain rfl := List.mem_singleton.mp h
    exact Or.inl ⟨_, rfl, by simp⟩
  | compiled icon =>
    simp only [Verdict.actions, List.mem_cons, List.not_mem_nil, or_false] at h
    rcases h with rfl | rfl | rfl
    · exact Or.inl ⟨_, rfl, by simp⟩
    · exact Or.inl ⟨_, rfl, by simp⟩
    · exact Or.inr ⟨icon, rfl, rfl⟩

theorem filterMap_file?_actions (vs : List (SourceFile × Verdict)) :
    (vs.flatMap fun e => e.2.actions e.1).filterMap Action.file? =
      (vs.filterMap (·.2.icon?)).map (·.file) := by
  induction vs with
  | nil => rfl
  | cons e vs ih =>
    rw [List.flatMap_cons, List.filterMap_append, ih, List.filterMap_cons]
    cases e.2 <;> rfl

/-! ## The whole plan -/

theorem compileRuntime_eq_ok {o : CompileOptions} {v : Variant} {runtime : GeneratedFile}
    (hv : Registry.builtin.get? o.variant = some v) (h : o.compileRuntime = .ok runtime) :
    runtime.fileName = v.runtimeFileName o.typed := by
  unfold CompileOptions.compileRuntime at h
  rw [find_eq_ok_iff.mpr hv] at h
  unfold Variant.renderRuntime at h
  cases ht : Variant.fill (v.id ++ "/runtime") v.runtimeTemplate
      (.record [("typescript", .bool o.typed)]) with
  | error e => simp [ht, bind, Except.bind, mapError_error] at h
  | ok text =>
    simp only [ht, bind, Except.bind, pure, Except.pure, mapError_ok, Except.ok.injEq] at h
    rw [← h]

theorem compileIndex_eq_ok {o : CompileOptions} {v : Variant} {names : List String}
    {index : GeneratedFile} (hv : Registry.builtin.get? o.variant = some v)
    (h : o.compileIndex names = .ok index) :
    index.fileName = v.indexFileName o.typed ∧
      v.renderIndex names o.typed = .ok index.contents := by
  unfold CompileOptions.compileIndex at h
  rw [find_eq_ok_iff.mpr hv] at h
  cases ht : v.renderIndex names o.typed with
  | error e => simp [ht, bind, Except.bind, mapError_error] at h
  | ok text =>
    simp only [ht, bind, Except.bind, pure, Except.pure, mapError_ok, Except.ok.injEq] at h
    rw [← h]
    exact ⟨rfl, rfl⟩

theorem indexFile?_eq_ok {j : Job} {v : Variant} {icons : List CompiledIcon}
    {index : Option GeneratedFile} (hv : Registry.builtin.get? j.config.framework = some v)
    (h : j.indexFile? icons = .ok index) :
    index.toList.map (·.fileName) =
      if j.config.generate.index then [v.indexFileName j.config.typescript] else [] := by
  unfold indexFile? at h
  split at h
  · rename_i hi
    rw [if_pos hi]
    cases hc : j.options.compileIndex (icons.map (·.name)) with
    | error e => simp [hc, Except.map] at h
    | ok made =>
      simp only [hc, Except.map, Except.ok.injEq] at h
      rw [← h, Option.toList_some, List.map_singleton, (compileIndex_eq_ok hv hc).1]
      rfl
  · rename_i hi
    rw [if_neg hi, ← Except.ok.inj h]
    rfl

/-- What a plan that can be carried out consists of. -/
structure Outline (j : Job) (files : List SourceFile) (v : Variant) (runtime : GeneratedFile)
    (index : Option GeneratedFile) : Prop where
  variant : Registry.builtin.get? j.config.framework = some v
  compiles : j.options.compileRuntime = .ok runtime
  unstopped : (j.verdicts [] files).findSome? (·.2.fatal?) = none
  lists : j.indexFile? (j.icons files) = .ok index
  actions : (j.plan files).actions =
    .write runtime :: ((j.verdicts [] files).flatMap fun e => e.2.actions e.1) ++
      j.closing v runtime (j.verdicts [] files) index

theorem outline_of_plan {j : Job} {files : List SourceFile} {stats : Stats}
    (h : (j.plan files).result = .ok stats) :
    ∃ v runtime index, Outline j files v runtime index := by
  unfold plan at h
  split at h
  · rename_i v runtime hv hruntime
    -- both lookups of the plan succeed, in the hypothesis as in what is to be shown
    have hplan : j.plan files = j.planWith v runtime files := by
      unfold plan
      rw [hv, hruntime]
    unfold planWith at h
    dsimp only at h
    split at h
    · contradiction
    · rename_i hfatal
      split at h
      · contradiction
      · rename_i index hindex
        refine ⟨v, runtime, index, find_eq_ok_iff.mp hv, hruntime, hfatal, hindex, ?_⟩
        rw [hplan]
        simp only [planWith, hfatal, hindex]
  · contradiction
  · contradiction

section Outline

variable {j : Job} {files : List SourceFile} {v : Variant} {runtime : GeneratedFile}
  {index : Option GeneratedFile}

/-- What is done before anything is cleaned up. -/
def writing (j : Job) (runtime : GeneratedFile) (vs : List (SourceFile × Verdict))
    (index : Option GeneratedFile) : List Action :=
  .write runtime :: (vs.flatMap fun e => e.2.actions e.1) ++ index.toList.map .write ++
    if j.config.generate.preview then [.write (j.previewFile (vs.filterMap (·.2.icon?)))] else []

/-- The names of the files that a cleaning up leaves alone. -/
def keptNames (j : Job) (v : Variant) (runtime : GeneratedFile) (files : List SourceFile)
    (index : Option GeneratedFile) : List String :=
  kept v j.config.typescript runtime (j.verdicts [] files) index

/-- What is done once all files are written. -/
def finish (j : Job) (v : Variant) (runtime : GeneratedFile) (files : List SourceFile)
    (index : Option GeneratedFile) : List Action :=
  (if j.config.generate.cleanOutput then
    [.clean (v.component.pick j.config.typescript) (marker runtime.fileName)
      (j.keptNames v runtime files index)]
  else []) ++ [.call (.complete (.ofVerdicts (j.verdicts [] files)))]

theorem Outline.actions_eq (h : Outline j files v runtime index) :
    (j.plan files).actions =
      j.writing runtime (j.verdicts [] files) index ++ j.finish v runtime files index := by
  rw [h.actions]
  simp only [writing, finish, closing, keptNames, List.append_assoc, List.cons_append]

theorem filterMap_writing (vs : List (SourceFile × Verdict)) :
    (j.writing runtime vs index).filterMap Action.file? =
      runtime :: (vs.filterMap (·.2.icon?)).map (·.file) ++ index.toList ++
        if j.config.generate.preview then [j.previewFile (vs.filterMap (·.2.icon?))] else [] := by
  have hindex : (index.toList.map Action.write).filterMap Action.file? = index.toList := by
    cases index <;> rfl
  have hpreview : (if j.config.generate.preview then
      [Action.write (j.previewFile (vs.filterMap (·.2.icon?)))] else []).filterMap Action.file? =
      if j.config.generate.preview then [j.previewFile (vs.filterMap (·.2.icon?))] else [] := by
    split <;> rfl
  unfold writing
  rw [List.filterMap_append, List.filterMap_append, List.filterMap_cons, filterMap_file?_actions,
    hindex]
  exact congrArg _ hpreview

theorem Outline.files_eq_writing (h : Outline j files v runtime index) :
    (j.plan files).files = (j.writing runtime (j.verdicts [] files) index).filterMap
      Action.file? := by
  rw [Plan.files, h.actions_eq, finish, List.filterMap_append, List.filterMap_append]
  split <;> simp [Action.file?]

theorem Outline.files_eq (h : Outline j files v runtime index) :
    (j.plan files).files = runtime :: (j.icons files).map (·.file) ++ index.toList ++
      if j.config.generate.preview then [j.previewFile (j.icons files)] else [] :=
  h.files_eq_writing.trans (filterMap_writing _)

/-- Files are written before the end, and the hooks of drawings are called. -/
theorem mem_writing {vs : List (SourceFile × Verdict)} {a : Action}
    (h : a ∈ j.writing runtime vs index) :
    (∃ f, a = .write f) ∨ ∃ c, a = .call c ∧ ∀ stats, c ≠ .complete stats := by
  simp only [writing, List.mem_append, List.mem_cons, List.mem_flatMap, List.mem_map,
    List.mem_ite_nil_right, List.not_mem_nil, or_false] at h
  rcases h with ((rfl | ⟨e, -, h⟩) | ⟨f, -, rfl⟩) | ⟨-, rfl⟩
  · exact Or.inl ⟨_, rfl⟩
  · rcases mem_actions h with hcall | ⟨icon, -, rfl⟩
    · exact Or.inr hcall
    · exact Or.inl ⟨_, rfl⟩
  · exact Or.inl ⟨_, rfl⟩
  · exact Or.inl ⟨_, rfl⟩

theorem Outline.component_mem_keptNames (h : Outline j files v runtime index) {i : CompiledIcon}
    (hi : i ∈ j.icons files) : i.file.fileName ∈ j.keptNames v runtime files index := by
  refine List.mem_append_left _ (List.mem_cons_of_mem _ ?_)
  obtain ⟨e, he, hicon⟩ := List.mem_filterMap.mp hi
  refine List.mem_filterMap.mpr ⟨e, he, ?_⟩
  rw [(mem_icons_verdicts h.variant hi).2]
  obtain ⟨file, verdict⟩ := e
  cases verdict <;> simp_all [Verdict.icon?, Verdict.validName?]

/-- A written file is kept, unless it is the preview. -/
theorem Outline.fileName_mem_keptNames (h : Outline j files v runtime index) {f : GeneratedFile}
    (hf : f ∈ (j.plan files).files) :
    f.fileName ∈ j.keptNames v runtime files index ∨ f.fileName = Preview.fileName := by
  rw [h.files_eq] at hf
  simp only [List.mem_append, List.mem_cons, List.mem_map, List.mem_ite_nil_right,
    List.not_mem_nil, or_false] at hf
  rcases hf with ((rfl | ⟨i, hi, rfl⟩) | hf) | ⟨-, rfl⟩
  · exact Or.inl (List.mem_append_left _ List.mem_cons_self)
  · exact Or.inl (h.component_mem_keptNames hi)
  · exact Or.inl (List.mem_append_right _ (List.mem_map_of_mem hf))
  · exact Or.inr rfl

end Outline

end Job

end IconCompiler
