import IconCompiler.Proofs.Generation.Stages
import IconCompiler.Proofs.Output.Index

/-!
The index of a directory over several runs, each of which may stop at any change that the disk
refuses. Whatever an index exports from is a file of the directory: components are written before
the index that names them, and what is removed after that is named by no index.
-/

namespace IconCompiler

open FileTree

namespace Progress

variable {v : Variant} {typed : Bool} {w : Writer} {out : String} {d : Location} {p p' : Progress}
  {outcome : Except WriteError Unit}

theorem take_write_cases {f : GeneratedFile} (hw : w.dryRun = false) (hf : Path.IsName f.fileName)
    (h : p.take w out (.write f) = (p', outcome)) :
    (∃ d, outcome = .ok () ∧ Wrote p.tree p'.tree out f.fileName f.contents d) ∨
      ∃ e, outcome = .error e ∧ AddsDirectories p.tree p'.tree ∧
        (p.tree.ProperlyNamed → p'.tree.ProperlyNamed) := by
  obtain ⟨p₀, rfl, ⟨d, rfl, -, hd, hplace, rfl⟩ | ⟨e, rfl, -, rfl⟩⟩ := take_write_steps hw hf h
  · exact Or.inl ⟨d, rfl, Writer.wrote_put f.contents hf hd hplace⟩
  · exact Or.inr ⟨e, rfl, Writer.prepare_addsDirectories _ _, fun ht => Writer.prepare_named ht _⟩

theorem take_clean_cases {extension mark : String} {keep : List String} (hw : w.dryRun = false)
    (hn : p.tree.ProperlyNamed) (h : p.take w out (.clean extension mark keep) = (p', outcome)) :
    ∃ d gone, (gone ≠ [] → p.tree.LeadsTo out d) ∧ Removed p.tree p'.tree d gone ∧
      ∀ s ∈ gone, s ∉ keep := by
  obtain ⟨d, hd⟩ := Writer.exists_directory_of_staleNames p.tree out extension mark keep
  obtain ⟨gone, hgone, hremoved, -⟩ := take_clean_steps hw hn (fun hne => (hd hne).leadsTo) h
  refine ⟨d, gone, fun hne => ?_, hremoved, fun s hs => ?_⟩
  · obtain ⟨s, hs⟩ := List.exists_mem_of_ne_nil gone hne
    exact (hd (List.ne_nil_of_mem (hgone.subset hs))).leadsTo
  · obtain ⟨_, _, _, _, hmark⟩ := (Writer.mem_staleNames _ _ _ _ _ s).mp (hgone.subset hs)
    exact hmark.not_kept

/-! ## Before the index -/

/-- Actions that leave no index with modules behind: calls, and files that export from no module if
they stand in the place of an index. -/
def Precedes (v : Variant) (typed : Bool) : Action → Prop
  | .call _ => True
  | .write f => Path.IsName f.fileName ∧
      (f.fileName = v.indexFileName typed → Exports.modules f.contents = [])
  | .clean _ _ _ => False

theorem safe_of_precedes {as : List Action} (hw : w.dryRun = false) (hp : Safe v typed p.tree d)
    (has : ∀ a ∈ as, Precedes v typed a) (h : p.takeAll w out as = (p', outcome)) :
    Safe v typed p'.tree d ∧ KeepsFiles p.tree p'.tree ∧
      (outcome = .ok () → ∀ f ∈ as.filterMap Action.file?, p'.tree.HasFile out f.fileName) := by
  induction as generalizing p with
  | nil =>
    obtain ⟨rfl, rfl⟩ := Prod.mk.inj h
    exact ⟨hp, .refl _, by simp⟩
  | cons a as ih =>
    have ha := has a List.mem_cons_self
    have hrest := fun b hb => has b (List.mem_cons_of_mem a hb)
    rw [takeAll] at h
    cases a with
    | clean extension mark keep => exact ha.elim
    | call c => exact ih (p := { p with calls := p.calls ++ [c] }) hp hrest h
    | write f =>
      cases hstep : p.take w out (.write f) with
      | mk p₁ first =>
        rw [hstep] at h
        rcases take_write_cases hw ha.1 hstep with ⟨d₀, rfl, hwrote⟩ | ⟨e, rfl, hadds, hnamed⟩
        · have hp₁ : Safe v typed p₁.tree d := hp.wrote hwrote fun hs m hm => by
            rw [ha.2 hs] at hm
            contradiction
          obtain ⟨hsafe, hkeeps, hfiles⟩ := ih hp₁ hrest h
          refine ⟨hsafe, hwrote.keepsFiles.trans hkeeps, fun hok g hg => ?_⟩
          rcases List.mem_cons.mp hg with rfl | hg
          · exact HasFile.keepsFiles ⟨d₀, _, hwrote.leadsTo, hwrote.written⟩ hkeeps
          · exact hfiles hok g hg
        · obtain ⟨rfl, rfl⟩ := Prod.mk.inj h
          exact ⟨hp.addsDirectories hadds (hnamed hp.named), hadds.keepsFiles, fun hok => by
            contradiction⟩

/-! ## After the index -/

/-- Actions that go with an index of this text: calls, files of other names, and cleaning up that
keeps the index and the files of its modules. -/
def Follows (v : Variant) (typed : Bool) (index : String) : Action → Prop
  | .call _ => True
  | .write f => Path.IsName f.fileName ∧ f.fileName ≠ v.indexFileName typed
  | .clean _ _ keep => v.indexFileName typed ∈ keep ∧
      ∀ m ∈ Exports.modules index, v.moduleFile typed m ∈ keep

theorem safe_of_follows {index : String} {as : List Action} (hw : w.dryRun = false)
    (hp : Safe v typed p.tree d) (hi : IndexIs v typed p.tree out index)
    (has : ∀ a ∈ as, Follows v typed index a) (h : p.takeAll w out as = (p', outcome)) :
    Safe v typed p'.tree d ∧ (outcome = .ok () → IndexIs v typed p'.tree out index) := by
  induction as generalizing p with
  | nil =>
    obtain ⟨rfl, rfl⟩ := Prod.mk.inj h
    exact ⟨hp, fun _ => hi⟩
  | cons a as ih =>
    have ha := has a List.mem_cons_self
    have hrest := fun b hb => has b (List.mem_cons_of_mem a hb)
    rw [takeAll] at h
    -- a write that fails may have made directories, a clean-up that fails may have removed files
    cases a with
    | call c => exact ih (p := { p with calls := p.calls ++ [c] }) hp hi hrest h
    | write f =>
      cases hstep : p.take w out (.write f) with
      | mk p₁ first =>
        rw [hstep] at h
        rcases take_write_cases hw ha.1 hstep with ⟨d₀, rfl, hwrote⟩ | ⟨e, rfl, hadds, hnamed⟩
        · exact ih (hp.wrote hwrote fun hs => absurd hs ha.2) (hi.wrote hwrote ha.2) hrest h
        · obtain ⟨rfl, rfl⟩ := Prod.mk.inj h
          exact ⟨hp.addsDirectories hadds (hnamed hp.named), fun hok => by contradiction⟩
    | clean extension mark keep =>
      cases hstep : p.take w out (.clean extension mark keep) with
      | mk p₁ first =>
        rw [hstep] at h
        obtain ⟨d₀, gone, hd₀, hremoved, hgone⟩ := take_clean_cases hw hp.named hstep
        have hp₁ : Safe v typed p₁.tree d :=
          hp.removed hi hd₀ hremoved fun m hm hg => hgone _ hg (ha.2 m hm)
        cases first with
        | ok => exact ih hp₁ (hi.removed hremoved fun hg => hgone _ hg ha.1) hrest h
        | error e =>
          obtain ⟨rfl, rfl⟩ := Prod.mk.inj h
          exact ⟨hp₁, fun hok => by contradiction⟩

/-! ## The index -/

/-- Actions that begin with an index whose modules are there. -/
theorem safe_of_index {made : GeneratedFile} {as : List Action} (hw : w.dryRun = false)
    (hp : Safe v typed p.tree d) (hname : made.fileName = v.indexFileName typed)
    (hisName : Path.IsName (v.indexFileName typed))
    (hfiles : ∀ m ∈ Exports.modules made.contents, p.tree.HasFile out (v.moduleFile typed m))
    (has : ∀ a ∈ as, Follows v typed made.contents a)
    (h : p.takeAll w out (.write made :: as) = (p', outcome)) :
    Safe v typed p'.tree d ∧ (outcome = .ok () → IndexIs v typed p'.tree out made.contents) := by
  rw [takeAll] at h
  cases hstep : p.take w out (.write made) with
  | mk p₁ first =>
    rw [hstep] at h
    rcases take_write_cases hw (hname ▸ hisName) hstep with ⟨d₀, rfl, hwrote⟩ | ⟨e, rfl, hadds, hn⟩
    · rw [hname] at hwrote
      exact safe_of_follows hw (hp.wrote hwrote fun _ => hfiles)
        ⟨d₀, hwrote.leadsTo, hwrote.hasText⟩ has h
    · obtain ⟨rfl, rfl⟩ := Prod.mk.inj h
      exact ⟨hp.addsDirectories hadds (hn hp.named), fun hok => by contradiction⟩

end Progress

/-- Hooks that add no export to a component whose file is the index, if it has none. -/
def Hooks.LeavesIndex (h : Hooks) : Prop :=
  ∀ code, Exports.modules code = [] → Exports.modules (h.afterGenerate code "index") = []

namespace Job

variable {j : Job} {v : Variant} {files : List SourceFile} {runtime : GeneratedFile}
  {index : Option GeneratedFile} {w : Writer} {t : FileTree} {d : Location}

/-! ## The actions of a plan -/

/-- What is done up to the last drawing. -/
def opening (j : Job) (runtime : GeneratedFile) (files : List SourceFile) : List Action :=
  .write runtime :: (j.verdicts [] files).flatMap fun e => e.2.actions e.1

theorem mem_opening {a : Action} (h : a ∈ j.opening runtime files) :
    a = .write runtime ∨ (∃ c, a = .call c) ∨ ∃ i ∈ j.icons files, a = .write i.file := by
  rcases List.mem_cons.mp h with rfl | h
  · exact Or.inl rfl
  · right
    obtain ⟨e, he, ha⟩ := List.mem_flatMap.mp h
    rcases mem_actions ha with ⟨c, rfl, -⟩ | ⟨icon, hicon, rfl⟩
    · exact Or.inl ⟨c, rfl⟩
    · exact Or.inr ⟨icon, List.mem_filterMap.mpr ⟨e, he, by rw [hicon]; rfl⟩, rfl⟩

theorem file_mem_opening {i : CompiledIcon} (h : i ∈ j.icons files) :
    i.file ∈ (j.opening runtime files).filterMap Action.file? := by
  rw [opening, List.filterMap_cons, filterMap_file?_actions]
  exact List.mem_cons_of_mem _ (List.mem_map_of_mem h)

theorem namesFiles_of_get? (hv : Registry.builtin.get? j.config.framework = some v) :
    v.NamesFiles :=
  Variant.namesFiles_of_mem_builtins (Registry.mem_builtins_of_get? hv)

/-- Nothing that is done up to the last drawing leaves an index that exports from a module. -/
theorem precedes_of_mem_opening (hv : Registry.builtin.get? j.config.framework = some v)
    (hhook : j.hooks.LeavesIndex) (hruntime : j.options.compileRuntime = .ok runtime) {a : Action}
    (h : a ∈ j.opening runtime files) : Progress.Precedes v j.config.typescript a := by
  have hnames := namesFiles_of_get? hv
  rcases mem_opening h with rfl | ⟨c, rfl⟩ | ⟨i, hi, rfl⟩
  · have hname : runtime.fileName = v.runtimeFileName j.config.typescript :=
      compileRuntime_eq_ok hv hruntime
    refine ⟨hname ▸ hnames.isName_runtimeFileName _, fun hindex => absurd hindex ?_⟩
    rw [hname, hnames.runtimeFileName]
    exact Variant.ne_indexFileName v _ hnames.point_not_mem_runtimeStem hnames.runtimeStem_ne_index
  · trivial
  · obtain ⟨hvalid, hname⟩ := mem_icons_verdicts hv hi
    obtain ⟨hcontents, tree, hcode⟩ := renderComponent_of_mem_icons hv hi
    refine ⟨hname ▸ hnames.isName_componentFileName _ hvalid, fun hindex => ?_⟩
    -- only a component called `index` is written to the file of the index
    have hname : i.name = "index" := by
      by_contra hne
      exact Variant.ne_indexFileName v _
        (ComponentName.not_mem_of_isValid hvalid '.' (by decide)) hne (hname ▸ hindex)
    rw [hcontents, hname]
    exact hhook _ (Variant.modules_component (Registry.mem_builtins_of_get? hv) hvalid hcode)

theorem Outline.modules_index (h : Outline j files v runtime index) {made : GeneratedFile}
    (hmade : j.options.compileIndex ((j.icons files).map (·.name)) = .ok made) :
    Exports.modules made.contents =
      ((j.icons files).map (·.name)).map (v.importPath j.config.typescript) := by
  refine Variant.modules_renderIndex h.namesFiles ?_ (compileIndex_eq_ok h.variant hmade).2
  intro n hn
  obtain ⟨i, hi, rfl⟩ := List.mem_map.mp hn
  exact (mem_icons_verdicts h.variant hi).1

/-- The file of a module that an index exports from is that of a component. -/
theorem exists_icon_of_mem (hv : Registry.builtin.get? j.config.framework = some v) {m : String}
    (hm : m ∈ ((j.icons files).map (·.name)).map (v.importPath j.config.typescript)) :
    ∃ i ∈ j.icons files, v.moduleFile j.config.typescript m = i.file.fileName := by
  obtain ⟨n, hn, rfl⟩ := List.mem_map.mp hm
  obtain ⟨i, hi, rfl⟩ := List.mem_map.mp hn
  obtain ⟨hvalid, hfile⟩ := mem_icons_verdicts hv hi
  exact ⟨i, hi, (Variant.moduleFile_importPath hvalid).trans hfile.symm⟩

/-- What is done after the index. -/
def ending (j : Job) (v : Variant) (runtime : GeneratedFile) (files : List SourceFile)
    (index : Option GeneratedFile) : List Action :=
  (if j.config.generate.preview then [.write (j.previewFile (j.icons files))] else []) ++
    (if j.config.generate.cleanOutput then
      [.clean (v.component.pick j.config.typescript) (marker runtime.fileName)
        (j.keptNames v runtime files index)]
    else []) ++
    [.call (.complete (.ofVerdicts (j.verdicts [] files)))]

theorem Outline.exists_index (h : Outline j files v runtime index)
    (hon : j.config.generate.index = true) :
    ∃ made, j.options.compileIndex ((j.icons files).map (·.name)) = .ok made ∧
      index = some made ∧ (j.plan files).actions =
        j.opening runtime files ++ .write made :: j.ending v runtime files index := by
  have hlists := h.lists
  rw [indexFile?, if_pos hon] at hlists
  cases hmade : j.options.compileIndex ((j.icons files).map (·.name)) with
  | error e => simp [hmade, Except.map] at hlists
  | ok made =>
    obtain rfl : some made = index := by simpa [hmade, Except.map] using hlists
    refine ⟨made, rfl, rfl, ?_⟩
    rw [h.actions]
    simp [opening, closing, ending, keptNames, icons]

/-- Cleaning up keeps the components that the index names, and nothing is written over it. -/
theorem Outline.follows_of_mem_ending {made : GeneratedFile}
    (h : Outline j files v runtime (some made))
    (hname : made.fileName = v.indexFileName j.config.typescript)
    (hmodules : Exports.modules made.contents =
      ((j.icons files).map (·.name)).map (v.importPath j.config.typescript)) {a : Action}
    (ha : a ∈ j.ending v runtime files (some made)) :
    Progress.Follows v j.config.typescript made.contents a := by
  simp only [ending, List.mem_append, List.mem_ite_nil_right, List.mem_singleton] at ha
  rcases ha with (⟨-, rfl⟩ | ⟨-, rfl⟩) | rfl
  · have hisName : Path.IsName Preview.fileName := by decide
    have hne : fileName "preview" "html" ≠ v.indexFileName j.config.typescript :=
      Variant.ne_indexFileName v _ (by decide) (by decide)
    exact ⟨hisName, hne⟩
  · refine ⟨List.mem_append_right _ (by simp [hname]), fun m hm => ?_⟩
    rw [hmodules] at hm
    obtain ⟨i, hi, hfile⟩ := exists_icon_of_mem h.variant hm
    rw [hfile]
    exact h.component_mem_keptNames hi
  · trivial

/-- What is carried out of a plan keeps the index of every directory together with its modules,
and all of a plan leaves an index of its components. -/
theorem safe_of_actions {p : Progress} {outcome : Except WriteError Unit}
    (hv : Registry.builtin.get? j.config.framework = some v)
    (hon : j.config.generate.index = true) (hhook : j.hooks.LeavesIndex) (hw : w.dryRun = false)
    (ht : Safe v j.config.typescript t d)
    (h : (Progress.start t).takeAll w j.config.output (j.plan files).actions = (p, outcome)) :
    Safe v j.config.typescript p.tree d ∧
      (outcome = .ok () →
        IndexLists v j.config.typescript p.tree j.config.output
          ((j.icons files).map (·.name))) := by
  obtain ⟨runtime, ho, -⟩ := exists_outline hv files
  obtain ⟨made, hmade, hindex, hactions⟩ := ho.exists_index hon
  rw [hindex] at ho hactions
  have hname := (compileIndex_eq_ok ho.variant hmade).1
  have hmodules := ho.modules_index hmade
  rw [hactions, Progress.takeAll_append_eq] at h
  cases hfirst : (Progress.start t).takeAll w j.config.output (j.opening runtime files) with
  | mk p₁ first =>
    rw [hfirst] at h
    obtain ⟨hsafe, -, hfiles⟩ := Progress.safe_of_precedes (p := .start t) hw ht
      (fun a ha => precedes_of_mem_opening hv hhook ho.compiles ha) hfirst
    cases first with
    | error e =>
      obtain ⟨rfl, rfl⟩ := Prod.mk.inj h
      exact ⟨hsafe, fun hok => by contradiction⟩
    | ok =>
      have hthere : ∀ m ∈ Exports.modules made.contents,
          p₁.tree.HasFile j.config.output (v.moduleFile j.config.typescript m) := by
        intro m hm
        obtain ⟨i, hi, hfile⟩ := exists_icon_of_mem hv (hmodules ▸ hm)
        exact hfile ▸ hfiles rfl i.file (file_mem_opening hi)
      obtain ⟨hend, hlists⟩ := Progress.safe_of_index hw hsafe hname
        (ho.namesFiles.isName_indexFileName _) hthere
        (fun a ha => ho.follows_of_mem_ending hname hmodules ha) h
      exact ⟨hend, fun hok => ⟨made.contents, hlists hok, hmodules⟩⟩

/-- A run keeps the index of every directory together with its modules, wherever it stops. -/
theorem safe_of_run (hv : Registry.builtin.get? j.config.framework = some v)
    (hon : j.config.generate.index = true) (hhook : j.hooks.LeavesIndex) (hw : w.dryRun = false)
    (ht : Safe v j.config.typescript t d) : Safe v j.config.typescript (j.run w t files).tree d :=
  (safe_of_actions hv hon hhook hw ht (Prod.ext rfl rfl)).1

/-- A run that comes to its end leaves an index of its components. -/
theorem indexLists_of_run (hv : Registry.builtin.get? j.config.framework = some v)
    (hon : j.config.generate.index = true) (hhook : j.hooks.LeavesIndex) (hw : w.dryRun = false)
    (ht : Safe v j.config.typescript t d) {report : GenerationReport}
    (h : (j.run w t files).report = .ok report) :
    IndexLists v j.config.typescript (j.run w t files).tree j.config.output
      ((j.icons files).map (·.name)) := by
  obtain ⟨p, stats, hp, -, -, htree⟩ := run_eq_ok h
  rw [htree]
  exact (safe_of_actions hv hon hhook hw ht hp).2 rfl

end Job

/-! ## Several runs -/

/-- A run as it is set off: what is ordered, the writer it has and the drawings it finds. -/
structure Attempt where
  job : Job
  writer : Writer
  files : List SourceFile

/-- A run that writes an index for a framework, in one of its two languages. Everything else about
it is left open, and how far its writer comes. -/
structure Attempt.WritesIndex (a : Attempt) (framework : String) (typed : Bool) : Prop where
  framework : a.job.config.framework = framework
  typescript : a.job.config.typescript = typed
  index : a.job.config.generate.index = true
  hooks : a.job.hooks.LeavesIndex
  writing : a.writer.dryRun = false

/-- What is left of a file tree after runs in order. -/
def runAll (t : FileTree) (attempts : List Attempt) : FileTree :=
  attempts.foldl (fun t a => (a.job.run a.writer t a.files).tree) t

section

variable {v : Variant} {t : FileTree} {d : Location} {framework : String} {typed : Bool}
  {attempts : List Attempt}

theorem runAll_append (t : FileTree) (attempts more : List Attempt) :
    runAll t (attempts ++ more) = runAll (runAll t attempts) more :=
  List.foldl_append

theorem safe_of_runAll (hv : Registry.builtin.get? framework = some v) (ht : Safe v typed t d)
    (h : ∀ a ∈ attempts, a.WritesIndex framework typed) :
    Safe v typed (runAll t attempts) d := by
  induction attempts generalizing t with
  | nil => exact ht
  | cons a attempts ih =>
    obtain ⟨rfl, rfl, hon, hhook, hw⟩ := h a List.mem_cons_self
    exact ih (Job.safe_of_run hv hon hhook hw ht) fun b hb => h b (List.mem_cons_of_mem a hb)

/-- An index that runs have written exports from files of its directory only, after each of them,
wherever they stopped. Each that comes to its end leaves an index of its components. -/
theorem index_resolves_after_runs (hv : Registry.builtin.get? framework = some v)
    (ht : t.ProperlyNamed)
    (hfresh : ∀ c, t.entry? (d ++ [v.indexFileName typed]) ≠ some (.file c))
    (h : ∀ a ∈ attempts, a.WritesIndex framework typed) (n : Nat) :
    IndexResolves v typed (runAll t (attempts.take n)) d ∧
    ∀ a report, attempts[n]? = some a →
      (a.job.run a.writer (runAll t (attempts.take n)) a.files).report = .ok report →
      IndexLists v typed (runAll t (attempts.take (n + 1))) a.job.config.output
        ((a.job.icons a.files).map (·.name)) := by
  have hstart : Safe v typed t d := ⟨ht, fun _ ⟨c, hc, _⟩ => absurd hc (hfresh c)⟩
  have hsafe := safe_of_runAll hv hstart fun a ha => h a (List.mem_of_mem_take (i := n) ha)
  refine ⟨hsafe.resolves, fun a report ha hreport => ?_⟩
  obtain ⟨rfl, rfl, hon, hhook, hw⟩ := h a (List.mem_of_getElem? ha)
  rw [List.take_add_one, ha, runAll_append]
  exact Job.indexLists_of_run hv hon hhook hw hsafe hreport

end

/-- A run that comes to its end, and one over another drawing that fails when it writes the index.
-/
def interrupted : List Attempt :=
  [⟨Job.sample "vue", .reliable false, [⟨"arrow-left.svg", "arrow-left.svg", "<svg/>"⟩]⟩,
    ⟨Job.sample "vue", ⟨false, fun n => if n = 2 then some .permissionDenied else none⟩,
      [⟨"home.svg", "home.svg", "<svg/>"⟩]⟩]

/-- The index of the first run is left, and what it exports from is there. -/
theorem index_resolves_after_interrupted :
    (runAll (.fresh "work") interrupted).HasText ["work", "out", "index.ts"]
        "export \x7b default as ArrowLeft \x7d from './ArrowLeft.vue'\n" ∧
      IndexResolves .vue true (runAll (.fresh "work") interrupted) ["work", "out"] ∧
      IndexLists .vue true (runAll (.fresh "work") (interrupted.take 1)) "out" ["ArrowLeft"] := by
  have hwork : Path.IsName "work" := by decide
  have hnone : FileTree.entry? (.fresh "work") ["work", "out", "index.ts"] = none := rfl
  have hall : ∀ a ∈ interrupted, a.WritesIndex "vue" true := by
    intro a ha
    rcases List.mem_pair.mp ha with rfl | rfl <;> exact ⟨rfl, rfl, rfl, fun _ h => h, rfl⟩
  have hresolves := @index_resolves_after_runs .vue (.fresh "work") ["work", "out"] "vue" true
    interrupted Registry.get?_builtin_vue (.fresh "work" hwork)
    (fun c h => by simpa using hnone.symm.trans h) hall
  obtain ⟨report, hreport⟩ := Job.exists_report_of_isSome (show ((Job.sample "vue").run
    (.reliable false) (.fresh "work")
      [⟨"arrow-left.svg", "arrow-left.svg", "<svg/>"⟩]).report.toOption.isSome = true by
        decide +kernel)
  have hnames : ((Job.sample "vue").icons [⟨"arrow-left.svg", "arrow-left.svg", "<svg/>"⟩]).map
      (·.name) = ["ArrowLeft"] := by
    decide +kernel
  exact ⟨hasText_of_spells (by decide +kernel), (hresolves 2).1,
    hnames ▸ (hresolves 0).2 _ report rfl hreport⟩

end IconCompiler
