import IconCompiler.Proofs.Generation.DryRun
import IconCompiler.Proofs.Generation.Stages

/-!
What a run leaves behind that fails. An unknown framework is told before anything is done. A file
that cannot be written ends the run behind the files before it, with nothing removed and the last
hook not called.
-/

namespace IconCompiler

open FileTree

theorem FileTree.keepsFiles_withFiles {t : FileTree} {d : Location} {fs : List GeneratedFile}
    (h : KeepsDirectories t (t.withFiles d fs)) : KeepsFiles t (t.withFiles d fs) := by
  refine ⟨h, fun l c hc => ?_⟩
  rcases entry?_withFiles_cases t d l fs with ⟨f, -, -, hf⟩ | ⟨-, hl⟩
  · exact ⟨_, hf⟩
  · exact ⟨c, hl.trans hc⟩

namespace Job

variable {j : Job} {v : Variant} {files : List SourceFile} {runtime : GeneratedFile}
  {index : Option GeneratedFile} {w : Writer} {t : FileTree} {e : WriteError}

/-- No other framework stops a run. -/
theorem unsupported_of_run {e : CompileError}
    (h : (j.run w t files).report = .error (.generate e)) :
    Registry.builtin.get? j.config.framework = none := by
  cases hv : Registry.builtin.get? j.config.framework with
  | none => rfl
  | some v =>
    rcases report_of_builtin hv w t files with ⟨report, hreport⟩ | ⟨e', hreport⟩ <;>
    · rw [hreport] at h
      cases h

/-- The last hook is not called while files are written. -/
theorem complete_not_mem_writing (stats : Stats) :
    .complete stats ∉
      (j.writing runtime (j.verdicts [] files) index).filterMap Action.call? := by
  intro h
  obtain ⟨a, ha, hcall⟩ := List.mem_filterMap.mp h
  rcases mem_writing ha with ⟨f, rfl⟩ | ⟨c, rfl, hc⟩
  · contradiction
  · exact hc stats (Option.some.inj hcall)

/-- A run that was to write these files and has stopped at one of them, told by how many are before
it. Those are what the tree has more than before, besides the directories that they are in. -/
structure CutOff (j : Job) (w : Writer) (t : FileTree) (files : List SourceFile)
    (fs : List GeneratedFile) (k : Nat) (e : WriteError) : Prop where
  file : ∃ f, fs[k]? = some f ∧ e.OfFile (Path.join j.config.output f.fileName)
  tree : ∃ t₀, MakesWay t t₀ j.config.output ∧
    (j.run w t files).tree = t₀.withFiles (t.place j.config.output) (fs.take k)
  located : ∀ f ∈ fs.take k, (j.run w t files).tree.locate
    (Path.join j.config.output f.fileName) = .ok (t.place j.config.output ++ [f.fileName])
  keepsFiles : KeepsFiles t (j.run w t files).tree
  calls : (j.run w t files).calls <+: (j.plan files).actions.filterMap Action.call?
  incomplete : ∀ stats, .complete stats ∉ (j.run w t files).calls

theorem Outline.cutOff_of_filed {p : Progress} {taken later : List Action} {f : GeneratedFile}
    (h : Outline j files v runtime index)
    (hp : (Progress.start t).takeAll w j.config.output (j.plan files).actions = (p, .error e))
    (htaken : j.writing runtime (j.verdicts [] files) index = taken ++ .write f :: later)
    (hof : e.OfFile (Path.join j.config.output f.fileName))
    (hfiled : Progress.Filed w j.config.output (t.place j.config.output)
      (.start (j.prepared runtime t)) p taken) :
    j.CutOff w t files (j.plan files).files (taken.filterMap Action.file?).length e := by
  have hway := h.makesWay t
  have htree := tree_of_takeAll hp
  have hwithFiles := hfiled.tree
  have hcalls : (j.run w t files).calls = taken.filterMap Action.call? := by
    rw [run_of_stopped hp]
    exact hfiled.calls
  -- the files in front of the one that failed are those that were taken
  have hfs : (j.plan files).files = taken.filterMap Action.file? ++
      f :: later.filterMap Action.file? := by
    rw [h.files_eq_writing, htaken, List.filterMap_append]
    rfl
  have htake : (j.plan files).files.take (taken.filterMap Action.file?).length =
      taken.filterMap Action.file? := by
    rw [hfs, List.take_left]
  refine ⟨⟨f, ?_, hof⟩, ⟨_, hway, ?_⟩, ?_, ?_, ?_, ?_⟩
  · rw [hfs, List.getElem?_append_right (Nat.le_refl _), Nat.sub_self]
    rfl
  · rw [htree, htake]
    exact hwithFiles
  · rw [htree, htake]
    exact hfiled.located
  · rw [htree, hwithFiles]
    exact hway.keepsFiles.trans (keepsFiles_withFiles (hwithFiles ▸ hfiled.keepsDirectories))
  · rw [hcalls, h.actions_eq, htaken, List.append_assoc, List.filterMap_append]
    exact List.prefix_append _ _
  · intro stats hstats
    have hnone : .complete stats ∉
        (j.writing runtime (j.verdicts [] files) index).filterMap Action.call? :=
      complete_not_mem_writing stats
    rw [htaken, List.filterMap_append] at hnone
    exact hnone (List.mem_append_left _ (hcalls ▸ hstats))

/-- A run that fails, and not where it removes a file, has stopped at a file that it was to
write. -/
theorem Outline.cutOff (h : Outline j files v runtime index)
    (hreport : (j.run w t files).report = .error (.write e))
    (he : ∀ path cause, e ≠ .removeFile path cause) :
    ∃ k, j.CutOff w t files (j.plan files).files k e := by
  obtain ⟨p, hp⟩ := run_eq_error hreport
  cases hw : w.dryRun with
  | true =>
    obtain ⟨p', hp', -⟩ :=
      Progress.takeAll_of_dryRun hw j.config.output (.start t) (j.plan files).actions
    rw [hp] at hp'
    simp at hp'
  | false =>
    obtain ⟨taken, f, later, e', htaken, he', hof, hfiled⟩ | ⟨p₁, -, -, hfinish⟩ :=
      h.stages hw hp
    · obtain rfl := Except.error.inj he'
      exact ⟨_, h.cutOff_of_filed hp htaken hof hfiled⟩
    · obtain ⟨path, cause, rfl⟩ := error_of_finish hfinish
      exact absurd rfl (he path cause)

/-- A run over a framework that is not known fails before it does anything. One that fails at a file
has done what it does up to that file: it has made directories, written the files before it in order
and called their hooks. -/
theorem failed_run_stops_short (j : Job) (w : Writer) (t : FileTree) (files : List SourceFile) :
    (Registry.builtin.get? j.config.framework = none →
      j.run w t files = ⟨t, [], .error (.generate (.unsupportedVariant j.config.framework))⟩) ∧
    (∀ e, (j.run w t files).report = .error (.generate e) →
      Registry.builtin.get? j.config.framework = none) ∧
    ∀ e, (j.run w t files).report = .error (.write e) →
      (∃ path cause, e = .writeFile path cause ∨ e = .createDirectory path cause) →
      ∃ v runtime index, Outline j files v runtime index ∧
        ∃ k, j.CutOff w t files (runtime :: (j.icons files).map (·.file) ++ index.toList ++
          if j.config.generate.preview then [j.previewFile (j.icons files)] else []) k e := by
  refine ⟨run_of_unsupported w t files, fun e h => unsupported_of_run h, ?_⟩
  intro e h hkind
  cases hv : Registry.builtin.get? j.config.framework with
  | none => simp [run_of_unsupported w t files hv] at h
  | some v =>
    obtain ⟨runtime, ho, -⟩ := exists_outline hv files
    refine ⟨v, runtime, _, ho, ?_⟩
    rw [← ho.files_eq]
    refine ho.cutOff h fun path cause => ?_
    obtain ⟨path', cause', rfl | rfl⟩ := hkind <;> simp

/-- A writer whose disk refuses the change after this many. -/
def stoppedAfter (n : Nat) : Writer :=
  ⟨false, fun changes => if changes = n then some .permissionDenied else none⟩

/-- The index cannot be written, and the runtime and the component are there. -/
theorem component_left_without_index :
    (sample "nope").run (.reliable false) (.fresh "work") homeDrawings =
        ⟨.fresh "work", [], .error (.generate (.unsupportedVariant "nope"))⟩ ∧
      ((sample "vue").run (stoppedAfter 2) (.fresh "work") homeDrawings).report =
        .error (.write (.writeFile "out/index.ts" .permissionDenied)) ∧
      ∃ fs, fs.map (·.fileName) = ["Icon.vue", "Home.vue", "index.ts"] ∧
        (sample "vue").CutOff (stoppedAfter 2) (.fresh "work") homeDrawings fs 2
          (.writeFile "out/index.ts" .permissionDenied) := by
  have hreport : ((sample "vue").run (stoppedAfter 2) (.fresh "work") homeDrawings).report =
      .error (.write (.writeFile "out/index.ts" .permissionDenied)) := by
    decide +kernel
  obtain ⟨-, -, hcut⟩ := failed_run_stops_short (sample "vue") (stoppedAfter 2) (.fresh "work")
    homeDrawings
  obtain ⟨v, runtime, index, ho, k, hcut⟩ := hcut _ hreport ⟨_, _, Or.inl rfl⟩
  have hnames : ((sample "vue").plan homeDrawings).files.map (·.fileName) =
      ["Icon.vue", "Home.vue", "index.ts"] := by
    decide +kernel
  rw [← ho.files_eq] at hcut
  refine ⟨(failed_run_stops_short (sample "nope") _ _ _).1 (by decide +kernel), hreport, _,
    hnames, ?_⟩
  have hthird : ∀ k, ["Icon.vue", "Home.vue", "index.ts"][k]? = some "index.ts" → k = 2
    | 0, h | 1, h => absurd h (by decide)
    | 2, _ => rfl
  -- the error tells which of the three files it is
  obtain ⟨f, hf, ⟨cause, hpath⟩ | ⟨up, cause, -, hpath⟩⟩ := hcut.file
  · obtain ⟨hpath, -⟩ := WriteError.writeFile.inj hpath
    have hslash := (ho.isName_of_mem_files (List.mem_of_getElem? hf)).no_slash
    have hindex : "index.ts" = f.fileName := Path.join_injective "out" _ _ (by decide) hslash hpath
    have hname : ["Icon.vue", "Home.vue", "index.ts"][k]? = some "index.ts" := by
      rw [← hnames, List.getElem?_map, hf, hindex]
      rfl
    exact hthird k hname ▸ hcut
  · cases hpath

/-! ## What can be wrong -/

theorem exists_variant_of_validate {c : Config} (h : c.validate = .ok ()) :
    ∃ v, Registry.builtin.get? c.framework = some v := by
  have hhas : Registry.builtin.has c.framework = true := by
    by_contra hn
    simp [Config.validate, Config.checkFramework, hn, bind, Except.bind] at h
  rw [← Option.isSome_iff_exists, Table.get?_isSome_iff]
  obtain ⟨e, he, hkey⟩ := List.any_eq_true.mp hhas
  exact List.mem_map.mpr ⟨e, he, of_decide_eq_true hkey⟩

/-- With a built-in variant only the drawing can be wrong with a component, and nothing with a
runtime or an index. So a run whose configuration was accepted comes to its end unless a file cannot
be read, written or removed. -/
theorem only_drawings_and_files_fail :
    (∀ v ∈ Variant.builtins, ∀ typed keepColors,
      (∀ name svg,
        (∃ icon text, Icon.ofSvg svg = .ok icon ∧
          v.renderComponent name typed keepColors icon = .ok text ∧
          CompileOptions.compileComponent ⟨v.id, typed, keepColors⟩ name svg =
            .ok ⟨v.componentFileName name typed, text⟩) ∨
        ∃ cause, Icon.ofSvg svg = .error cause ∧
          CompileOptions.compileComponent ⟨v.id, typed, keepColors⟩ name svg =
            .error (.source cause) ∧
          (CompileError.source cause).isPerFile = true) ∧
      (∃ runtime, CompileOptions.compileRuntime ⟨v.id, typed, keepColors⟩ = .ok runtime) ∧
      ∀ names, ∃ index,
        CompileOptions.compileIndex ⟨v.id, typed, keepColors⟩ names = .ok index) ∧
    ∀ (j : Job) (w : Writer) (t : FileTree) (files : List SourceFile),
      j.config.validate = .ok () →
        (∃ report, (j.run w t files).report = .ok report) ∨
          ∃ e, (j.run w t files).report = .error (.write e) := by
  constructor
  · intro v hv typed keepColors
    have hfound : Registry.builtin.get? (CompileOptions.mk v.id typed keepColors).variant =
        some v := Registry.get?_builtin hv
    refine ⟨fun name svg => ?_, CompileOptions.exists_compileRuntime hfound,
      fun names => ⟨_, CompileOptions.compileIndex_eq hfound names⟩⟩
    cases hread : Icon.ofSvg svg with
    | ok icon =>
      obtain ⟨text, htext, hmade⟩ := CompileOptions.compileComponent_of_ok hfound name hread
      exact Or.inl ⟨icon, text, rfl, htext, hmade⟩
    | error cause =>
      exact Or.inr ⟨cause, rfl, CompileOptions.compileComponent_of_error hfound name hread, rfl⟩
  · intro j w t files h
    obtain ⟨v, hv⟩ := exists_variant_of_validate h
    exact report_of_builtin hv w t files

/-- A drawing that is not closed has no component, and a run over it goes on to a file that cannot
be written. -/
theorem unclosed_drawing_and_refused_file :
    Variant.lit ∈ Variant.builtins ∧ (sample "lit").config.validate = .ok () ∧
      CompileOptions.compileComponent ⟨"lit", true, false⟩ "Home" "<svg" =
        .error (.source .noDrawing) ∧
      ∃ e, ((sample "lit").run (stoppedAfter 2) (.fresh "work") homeDrawings).report =
        .error (.write e) := by
  have hlit : Variant.lit ∈ Variant.builtins := by simp [Variant.builtins]
  have hvalid : (sample "lit").config.validate = .ok () := by decide +kernel
  refine ⟨hlit, hvalid, ?_, ?_⟩
  · have hread : Icon.ofSvg "<svg" = .error .noDrawing := by rfl
    rcases (only_drawings_and_files_fail.1 Variant.lit hlit true false).1 "Home" "<svg" with
      ⟨icon, text, hicon, -, -⟩ | ⟨cause, hcause, hmade, -⟩
    · rw [hread] at hicon
      cases hicon
    · rw [hread] at hcause
      exact hmade.trans (congrArg _ (congrArg _ (Except.error.inj hcause).symm))
  · have hstopped : ((sample "lit").run (stoppedAfter 2) (.fresh "work")
        homeDrawings).report.toOption.isSome = false := by decide +kernel
    refine (only_drawings_and_files_fail.2 _ _ _ _ hvalid).resolve_left ?_
    rintro ⟨report, hreport⟩
    rw [hreport] at hstopped
    contradiction

end Job

end IconCompiler
