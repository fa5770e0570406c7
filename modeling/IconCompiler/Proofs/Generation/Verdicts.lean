import IconCompiler.Proofs.Compilation
import IconCompiler.Proofs.Generation.Components
import IconCompiler.Proofs.Generation.Run

/-!
The verdicts of a run, one on each drawing in order. A name belongs to the first drawing that is
read to an icon under it: those of the same name before it are recorded with what is wrong with
them, and those behind it as duplicates of it, whose drawings nothing looks at.
-/

namespace IconCompiler

namespace Job

variable {j : Job} {v : Variant} {done : List CompiledIcon} {file : SourceFile}
  {files : List SourceFile} {n : String}

/-! ## One drawing -/

theorem compile_of_error (hv : Registry.builtin.get? j.config.framework = some v) (n : String)
    {cause : SourceError} (h : Icon.ofSvg (j.svgOf file) = .error cause) :
    j.compile file n = .rejected n (.source cause) := by
  have hmade : j.options.compileComponent n (j.svgOf file) = .error (.source cause) :=
    CompileOptions.compileComponent_of_error hv n h
  rw [compile, hmade]

theorem compile_of_ok (hv : Registry.builtin.get? j.config.framework = some v) (n : String)
    {tree : Icon} (h : Icon.ofSvg (j.svgOf file) = .ok tree) :
    ∃ code, v.renderComponent n j.config.typescript j.config.keepColors tree = .ok code ∧
      j.compile file n = .compiled ⟨file, n, j.svgOf file, code,
        ⟨v.componentFileName n j.config.typescript, j.hooks.afterGenerate code n⟩⟩ := by
  obtain ⟨code, hcode, hmade⟩ :=
    CompileOptions.compileComponent_of_ok (o := j.options) hv n h
  refine ⟨code, hcode, ?_⟩
  rw [compile, hmade]
  rfl

theorem verdict_of_not_isValid (done : List CompiledIcon)
    (h : ComponentName.isValid (j.naming.componentName file.fileName) = false) :
    j.verdict done file = .unnamed (j.naming.componentName file.fileName) := by
  rw [verdict, h, if_neg Bool.false_ne_true]

/-- Under a name that is taken nothing of a drawing matters. -/
theorem verdict_of_find?_eq_some {owner : CompiledIcon} (hn : ComponentName.isValid n = true)
    (hfile : j.naming.componentName file.fileName = n)
    (h : done.find? (·.name = n) = some owner) :
    j.verdict done file = .taken n owner.source.fileName := by
  rw [verdict, hfile, if_pos hn, h]

theorem verdict_of_find?_eq_none (hn : ComponentName.isValid n = true)
    (hfile : j.naming.componentName file.fileName = n) (h : done.find? (·.name = n) = none) :
    j.verdict done file = j.compile file n := by
  rw [verdict, hfile, if_pos hn, h]

/-- The icon that a verdict speaks of is that of its drawing. -/
theorem source_of_verdict {icon : CompiledIcon} (h : j.verdict done file = .compiled icon) :
    icon.source = file ∧ icon.name = j.naming.componentName file.fileName := by
  obtain ⟨-, -, hsource, hname, -, -⟩ := compiled_of_verdict h
  exact ⟨hsource, hname⟩

/-! ## Drawings in order -/

/-- Nothing stops a run of a built-in variant, since what is wrong with a drawing is wrong with
that one alone. -/
theorem fatal?_verdict (hv : Registry.builtin.get? j.config.framework = some v)
    (done : List CompiledIcon) (file : SourceFile) : (j.verdict done file).fatal? = none := by
  cases hn : ComponentName.isValid (j.naming.componentName file.fileName) with
  | false =>
    rw [verdict_of_not_isValid done hn]
    rfl
  | true =>
    cases hfind : done.find? (·.name = j.naming.componentName file.fileName) with
    | some owner =>
      rw [verdict_of_find?_eq_some hn rfl hfind]
      rfl
    | none =>
      rw [verdict_of_find?_eq_none hn rfl hfind]
      cases hread : Icon.ofSvg (j.svgOf file) with
      | error cause =>
        rw [compile_of_error hv _ hread]
        rfl
      | ok tree =>
        obtain ⟨code, -, h⟩ := compile_of_ok hv _ hread
        rw [h]
        rfl

theorem verdicts_cons (hv : Registry.builtin.get? j.config.framework = some v)
    (done : List CompiledIcon) (file : SourceFile) (files : List SourceFile) :
    j.verdicts done (file :: files) = (file, j.verdict done file) ::
      j.verdicts (done ++ (j.verdict done file).icon?.toList) files := by
  rw [verdicts, fatal?_verdict hv]
  rfl

theorem findSome?_fatal?_verdicts (hv : Registry.builtin.get? j.config.framework = some v)
    (done : List CompiledIcon) (files : List SourceFile) :
    (j.verdicts done files).findSome? (·.2.fatal?) = none := by
  rw [List.findSome?_eq_none_iff]
  intro e he
  obtain ⟨done', hverdict⟩ := exists_verdict_of_mem he
  rw [← hverdict]
  exact fatal?_verdict hv done' e.1

theorem verdicts_append (hv : Registry.builtin.get? j.config.framework = some v)
    (done : List CompiledIcon) (before after : List SourceFile) :
    j.verdicts done (before ++ after) = j.verdicts done before ++
      j.verdicts (done ++ (j.verdicts done before).filterMap (·.2.icon?)) after := by
  induction before generalizing done with
  | nil => simp [verdicts]
  | cons file before ih =>
    rw [List.cons_append, verdicts_cons hv, verdicts_cons hv, ih, List.cons_append,
      List.filterMap_cons]
    dsimp only
    cases (j.verdict done file).icon? <;> simp

/-! ## The whole plan -/

/-- The index of components: a line for each, in order. -/
def indexOf (j : Job) (v : Variant) (icons : List CompiledIcon) : Option GeneratedFile :=
  if j.config.generate.index then
    some ⟨v.indexFileName j.config.typescript,
      Text.lines ((icons.map (·.name)).map (v.exportLine j.config.typescript))⟩
  else none

theorem indexFile?_eq (hv : Registry.builtin.get? j.config.framework = some v)
    (icons : List CompiledIcon) : j.indexFile? icons = .ok (j.indexOf v icons) := by
  have hindex := CompileOptions.compileIndex_eq (o := j.options) hv (icons.map (·.name))
  unfold indexFile? indexOf
  split
  · rw [hindex]
    rfl
  · rfl

/-- Nothing stops the plan of a built-in variant: its runtime and its index can be rendered, and no
drawing is fatal. -/
theorem exists_outline (hv : Registry.builtin.get? j.config.framework = some v)
    (files : List SourceFile) :
    ∃ runtime, Outline j files v runtime (j.indexOf v (j.icons files)) ∧
      (j.plan files).result = .ok (.ofVerdicts (j.verdicts [] files)) := by
  have hfind : Registry.builtin.find j.config.framework = .ok v := find_eq_ok_iff.mpr hv
  obtain ⟨runtime, hruntime⟩ := CompileOptions.exists_compileRuntime (o := j.options) hv
  have hfatal := findSome?_fatal?_verdicts hv [] files
  have hindex := indexFile?_eq hv (j.icons files)
  have hplan : j.plan files = ⟨.write runtime ::
      ((j.verdicts [] files).flatMap fun e => e.2.actions e.1) ++
        j.closing v runtime (j.verdicts [] files) (j.indexOf v (j.icons files)),
      .ok (.ofVerdicts (j.verdicts [] files))⟩ := by
    simp only [icons] at hindex
    simp only [plan, hfind, hruntime, planWith, hfatal, hindex, icons]
  exact ⟨runtime, ⟨hv, hruntime, hfatal, hindex, by rw [hplan]⟩, by rw [hplan]⟩

theorem plan_of_unsupported (files : List SourceFile)
    (h : Registry.builtin.get? j.config.framework = none) :
    j.plan files = ⟨[], .error (.unsupportedVariant j.config.framework)⟩ := by
  rw [plan, find_of_get?_eq_none h]

/-- A run over a framework that is not known does nothing. -/
theorem run_of_unsupported (w : Writer) (t : FileTree) (files : List SourceFile)
    (h : Registry.builtin.get? j.config.framework = none) :
    j.run w t files = ⟨t, [], .error (.generate (.unsupportedVariant j.config.framework))⟩ := by
  rw [run, plan_of_unsupported files h]
  rfl

/-- A run of a built-in variant comes to its end, or stops at a file. -/
theorem report_of_builtin (hv : Registry.builtin.get? j.config.framework = some v) (w : Writer)
    (t : FileTree) (files : List SourceFile) :
    (∃ report, (j.run w t files).report = .ok report) ∨
      ∃ e, (j.run w t files).report = .error (.write e) := by
  obtain ⟨runtime, -, hresult⟩ := exists_outline hv files
  cases hp : (Progress.start t).takeAll w j.config.output (j.plan files).actions with
  | mk p taken =>
    cases taken with
    | ok =>
      rw [run_of_finished hp hresult]
      exact Or.inl ⟨_, rfl⟩
    | error e =>
      rw [run_of_stopped hp]
      exact Or.inr ⟨e, rfl⟩

/-! ## The drawings of one name -/

/-- A drawing that is read to no icon, and is recorded with the reason. -/
structure Unread (j : Job) (e : SourceFile × Verdict) : Prop where
  recorded : ∃ cause, Icon.ofSvg (j.svgOf e.1) = .error cause ∧
    e.2.failure? = some ("Failed to parse SVG: " ++ cause.message)
  unwritten : (e.2.actions e.1).filterMap Action.file? = []

/-- A drawing whose name another one has: it is recorded as a duplicate of that one, and nothing is
done about it. -/
structure Duplicates (n : String) (owner : SourceFile) (e : SourceFile × Verdict) : Prop where
  recorded : e.2.failure? =
    some ("Component name '" ++ n ++ "' is already used by " ++ owner.fileName)
  untouched : e.2.actions e.1 = []

/-- The component of a name, made from what a drawing is read to. -/
structure Made (j : Job) (v : Variant) (n : String) (owner : SourceFile) (icon : CompiledIcon) :
    Prop where
  source : icon.source = owner
  name : icon.name = n
  code : ∃ tree, Icon.ofSvg (j.svgOf owner) = .ok tree ∧
    v.renderComponent n j.config.typescript j.config.keepColors tree = .ok icon.code
  file : icon.file =
    ⟨v.componentFileName n j.config.typescript, j.hooks.afterGenerate icon.code n⟩

/-- The verdicts on the drawings of one name, in order: none of them is read to an icon, or the
first that is has the component, those before it are not read, and those behind it duplicate it. -/
def Owned (j : Job) (v : Variant) (n : String) (es : List (SourceFile × Verdict)) : Prop :=
  (∀ e ∈ es, j.Unread e) ∨ ∃ front owner icon later,
    es = front ++ (owner, .compiled icon) :: later ∧ (∀ e ∈ front, j.Unread e) ∧
      j.Made v n owner icon ∧ ∀ e ∈ later, Duplicates n owner e

theorem duplicates_of_find? (hv : Registry.builtin.get? j.config.framework = some v)
    (hn : ComponentName.isValid n = true) {owner : CompiledIcon}
    (h : done.find? (·.name = n) = some owner) :
    ∀ e ∈ (j.verdicts done files).filter fun e => j.naming.componentName e.1.fileName = n,
      Duplicates n owner.source e := by
  induction files generalizing done with
  | nil => simp [verdicts]
  | cons file files ih =>
    -- the owner stays the first of its name, whatever is made after it
    have hrest : (done ++ (j.verdict done file).icon?.toList).find? (·.name = n) = some owner := by
      rw [List.find?_append, h]
      rfl
    rw [verdicts_cons hv, List.filter_cons]
    split
    · rename_i hfile
      have hverdict := verdict_of_find?_eq_some hn (of_decide_eq_true hfile) h
      refine List.forall_mem_cons.mpr ⟨?_, ih hrest⟩
      rw [hverdict]
      exact ⟨rfl, rfl⟩
    · exact ih hrest

theorem owned_verdicts (done : List CompiledIcon) (files : List SourceFile)
    (hv : Registry.builtin.get? j.config.framework = some v)
    (hn : ComponentName.isValid n = true) (h : done.find? (·.name = n) = none) :
    j.Owned v n ((j.verdicts done files).filter
      fun e => j.naming.componentName e.1.fileName = n) := by
  induction files generalizing done with
  | nil => exact Or.inl (by simp [verdicts])
  | cons file files ih =>
    rw [verdicts_cons hv, List.filter_cons]
    by_cases hfile : j.naming.componentName file.fileName = n
    · have hverdict := verdict_of_find?_eq_none hn hfile h
      rw [if_pos (decide_eq_true hfile)]
      cases hread : Icon.ofSvg (j.svgOf file) with
      | error cause =>
        have hnone : (Verdict.rejected n (.source cause)).icon? = none := rfl
        rw [hverdict, compile_of_error hv n hread, hnone, Option.toList_none, List.append_nil]
        have hunread : j.Unread (file, .rejected n (.source cause)) :=
          ⟨⟨cause, hread, rfl⟩, rfl⟩
        rcases ih done h with hall | ⟨front, owner, icon, later, hes, hfront, hmade, hlater⟩
        · exact Or.inl (List.forall_mem_cons.mpr ⟨hunread, hall⟩)
        · exact Or.inr ⟨_ :: front, owner, icon, later, congrArg (List.cons _) hes,
            List.forall_mem_cons.mpr ⟨hunread, hfront⟩, hmade, hlater⟩
      | ok tree =>
        obtain ⟨code, hcode, hmade⟩ := compile_of_ok hv n hread
        rw [hverdict, hmade]
        generalize hicon : CompiledIcon.mk file n _ code _ = icon
        have hof : j.Made v n file icon := by
          rw [← hicon]
          exact ⟨rfl, rfl, ⟨tree, hread, hcode⟩, rfl⟩
        -- from here on the name is taken
        have htaken : (done ++ [icon]).find? (·.name = n) = some icon := by
          rw [List.find?_append, h]
          simp [hof.name]
        exact Or.inr ⟨[], file, icon, _, rfl, by simp, hof,
          hof.source ▸ duplicates_of_find? hv hn htaken⟩
    · rw [if_neg (by simpa using hfile)]
      refine ih _ ?_
      rw [List.find?_append, h, Option.none_or]
      -- what is made of a drawing has the name of the drawing
      cases hverdict : j.verdict done file with
      | compiled icon => simpa [Verdict.icon?, (source_of_verdict hverdict).2] using hfile
      | unnamed _ | taken _ _ | rejected _ _ => rfl

/-! ## Duplicates -/

/-- A name is taken behind a drawing of it that is read to an icon. -/
theorem exists_owner (hv : Registry.builtin.get? j.config.framework = some v)
    (hn : ComponentName.isValid n = true) (hmem : file ∈ files)
    (hfile : j.naming.componentName file.fileName = n) {tree : Icon}
    (hread : Icon.ofSvg (j.svgOf file) = .ok tree) :
    ∃ owner, (j.icons files).find? (·.name = n) = some owner := by
  rw [← map_fst_verdicts (findSome?_fatal?_verdicts hv [] files)] at hmem
  obtain ⟨e, he, rfl⟩ := List.mem_map.mp hmem
  have hmine : e ∈ (j.verdicts [] files).filter
      fun e => j.naming.componentName e.1.fileName = n :=
    List.mem_filter.mpr ⟨he, decide_eq_true hfile⟩
  rcases owned_verdicts [] files hv hn rfl with
    hall | ⟨front, owner, icon, later, hes, -, hmade, -⟩
  · -- the drawing itself is one of those that cannot be read
    obtain ⟨cause, hcause, -⟩ := (hall e hmine).recorded
    rw [hread] at hcause
    contradiction
  · have howner : (owner, Verdict.compiled icon) ∈ j.verdicts [] files := by
      refine (List.mem_filter.mp (?_ : _ ∈ (j.verdicts [] files).filter
        fun e => j.naming.componentName e.1.fileName = n)).1
      rw [hes]
      simp
    rw [← Option.isSome_iff_exists, List.find?_isSome]
    exact ⟨icon, List.mem_filterMap.mpr ⟨_, howner, rfl⟩, decide_eq_true hmade.name⟩

/-- Nothing depends on the drawing of a duplicate. -/
theorem plan_of_duplicate (hv : Registry.builtin.get? j.config.framework = some v)
    {before after : List SourceFile} {dup : SourceFile} {tree : Icon} (content : String)
    (hn : ComponentName.isValid (j.naming.componentName file.fileName) = true)
    (hmem : file ∈ before)
    (hdup : j.naming.componentName dup.fileName = j.naming.componentName file.fileName)
    (hread : Icon.ofSvg (j.svgOf file) = .ok tree) :
    j.plan (before ++ { dup with content := content } :: after) =
      j.plan (before ++ dup :: after) := by
  obtain ⟨owner, howner⟩ := exists_owner hv hn hmem rfl hread
  have hverdicts : ∀ d : SourceFile, d.fileName = dup.fileName →
      j.verdicts [] (before ++ d :: after) = j.verdicts [] before ++
        (d, .taken (j.naming.componentName file.fileName) owner.source.fileName) ::
          j.verdicts (j.icons before) after := by
    intro d hd
    have hverdict := verdict_of_find?_eq_some hn (hd ▸ hdup) howner
    rw [verdicts_append hv, verdicts_cons hv, List.nil_append, ← icons, hverdict]
    simp [Verdict.icon?]
  unfold plan
  split
  · -- the verdicts are told apart by the drawing of the duplicate alone
    simp only [planWith, closing, kept, ofVerdicts_eq, hverdicts dup rfl,
      hverdicts { dup with content := content } rfl, List.flatMap_append, List.flatMap_cons,
      List.filterMap_append, List.filterMap_cons, List.findSome?_append, List.findSome?_cons,
      Verdict.actions, Verdict.icon?, Verdict.fatal?, Verdict.validName?, failureOf?,
      Verdict.failure?]
    simp
  · rfl
  · rfl

end Job

end IconCompiler
