import IconCompiler.Proofs.FileTree.Rooted
import IconCompiler.Proofs.Generation.Cleanup

/-!
What a dry run says of the run that it stands for. It makes no change, says the same of the drawings
and of the files that are written, and names the files that would be removed, unless they are in a
directory that the path leads to only once the run has made directories.
-/

namespace IconCompiler

open FileTree

namespace Progress

theorem take_of_dryRun {w : Writer} (hw : w.dryRun = true) (out : String) (p : Progress)
    (a : Action) :
    ∃ p', p.take w out a = (p', .ok ()) ∧ p'.tree = p.tree := by
  cases a with
  | call c => exact ⟨_, rfl, rfl⟩
  | write f => simp [take, Writer.write, hw]
  | clean extension mark keep => simp [take, Writer.removeStale, hw]

/-- A dry run takes all actions, whatever the disk refuses, and leaves the tree as it is. -/
theorem takeAll_of_dryRun {w : Writer} (hw : w.dryRun = true) (out : String) (p : Progress)
    (as : List Action) :
    ∃ p', p.takeAll w out as = (p', .ok ()) ∧ p'.tree = p.tree := by
  induction as generalizing p with
  | nil => exact ⟨p, rfl, rfl⟩
  | cons a as ih =>
    obtain ⟨p₁, h₁, htree₁⟩ := take_of_dryRun hw out p a
    obtain ⟨p', h, htree⟩ := ih p₁
    exact ⟨p', takeAll_cons.mpr ⟨p₁, h₁, h⟩, htree.trans htree₁⟩

end Progress

namespace Job

variable {j : Job} {v : Variant} {files : List SourceFile} {runtime : GeneratedFile}
  {index : Option GeneratedFile} {t t₁ t₂ : FileTree} {dry real : Writer}

theorem tree_of_dryRun (hw : dry.dryRun = true) : (j.run dry t files).tree = t := by
  obtain ⟨p, hp, htree⟩ := Progress.takeAll_of_dryRun hw j.config.output
    (Progress.start t) (j.plan files).actions
  exact (tree_of_takeAll hp).trans htree

theorem report_of_dryRun (hw : dry.dryRun = true) {stats : Stats}
    (h : (j.plan files).result = .ok stats) :
    ∃ p, (Progress.start t).takeAll dry j.config.output (j.plan files).actions = (p, .ok ()) ∧
      p.tree = t ∧ (j.run dry t files).report = .ok ⟨stats, p.outputs, p.removed⟩ := by
  obtain ⟨p, hp, htree⟩ := Progress.takeAll_of_dryRun hw j.config.output
    (Progress.start t) (j.plan files).actions
  refine ⟨p, hp, htree, ?_⟩
  rw [run_of_finished hp h]

/-- Two trees that files of the run were written to have the same stale files where the path leads
to one directory of both. -/
theorem Outline.staleNames_eq (h : Outline j files v runtime index) {d : Location}
    (hw₁ : WroteAmong t t₁ j.config.output ((j.plan files).files.map (·.fileName)))
    (hw₂ : WroteAmong t t₂ j.config.output ((j.plan files).files.map (·.fileName)))
    (hd₁ : t₁.LocatesDirectory j.config.output d) (hd₂ : t₂.LocatesDirectory j.config.output d) :
    Writer.staleNames t₁ j.config.output (v.component.pick j.config.typescript)
        (marker runtime.fileName) (j.keptNames v runtime files index) =
      Writer.staleNames t₂ j.config.output (v.component.pick j.config.typescript)
        (marker runtime.fileName) (j.keptNames v runtime files index) :=
  Writer.staleNames_ext fun s =>
    (h.mem_staleNames_iff hw₁ hd₁ s).trans (h.mem_staleNames_iff hw₂ hd₂ s).symm

/-- The directory of a run is new and has a stale file in it all the same. -/
def FindsStale (j : Job) (v : Variant) (files : List SourceFile) (t t' : FileTree) : Prop :=
  j.config.generate.cleanOutput = true ∧ t.isDirectory j.config.output = false ∧
    ∃ path d s text, j.Held t t' path s text d ∧ j.TakesForStale v files s text

theorem Outline.removed_eq_iff {p p' : Progress} (h : Outline j files v runtime index)
    (ht : t.ProperlyNamed)
    (hp : (Progress.start t).takeAll dry j.config.output (j.plan files).actions = (p, .ok ()))
    (hp' : (Progress.start t).takeAll real j.config.output (j.plan files).actions = (p', .ok ()))
    (htree : p.tree = t) : p.removed = p'.removed ↔ ¬ j.FindsStale v files t p'.tree := by
  cases hclean : j.config.generate.cleanOutput with
  | false =>
    rw [h.removed_eq_nil hclean hp, h.removed_eq_nil hclean hp']
    simp [FindsStale, hclean]
  | true =>
    obtain ⟨t₁, stale, hw₁, rfl, hremoved, hdirs, -⟩ := h.cleaned ht hclean hp
    obtain ⟨t₂, stale, hw₂, rfl, hremoved', hdirs', -⟩ := h.cleaned ht hclean hp'
    rw [htree] at hdirs
    cases hdir : t.isDirectory j.config.output with
    | true =>
      obtain ⟨d, hd⟩ := (isDirectory_iff _ _).mp hdir
      have hstale := h.staleNames_eq hw₁ hw₂ ((hdirs d).mp hd)
        (hd.keepsDirectories hw₂.keepsDirectories)
      rw [hremoved, hremoved', hstale]
      simp [FindsStale, hdir]
    | false =>
      -- the dry run finds no directory to look into
      have hnil : p.removed = [] := by
        refine List.eq_nil_iff_forall_not_mem.mpr fun path hpath => ?_
        obtain ⟨d, s, text, hheld, -⟩ := (h.mem_removed_iff hw₁ hdirs hremoved path).mp hpath
        have hfound := (isDirectory_iff _ _).mpr ⟨d, hheld.directory⟩
        rw [hdir] at hfound
        contradiction
      have hmem := h.mem_removed_iff hw₂ hdirs' hremoved'
      rw [hnil, eq_comm, List.eq_nil_iff_forall_not_mem]
      simp only [hmem, FindsStale, hclean, hdir, true_and, not_exists]

/-- In a rooted tree a path that never steps up finds nothing in a new directory. -/
theorem Outline.not_findsStale {w : Writer} {p : Progress} (h : Outline j files v runtime index)
    (ht : t.ProperlyNamed) (hrooted : t.Rooted) (hpath : ".." ∉ Path.steps j.config.output)
    (hp : (Progress.start t).takeAll w j.config.output (j.plan files).actions = (p, .ok ())) :
    ¬ j.FindsStale v files t p.tree := by
  rintro ⟨hclean, hdir, path, d, s, text, hheld, -⟩
  obtain ⟨t₁, stale, hwrote, -, -, hdirs, -⟩ := h.cleaned ht hclean hp
  obtain ⟨c, hc, -⟩ := hheld.hasText
  -- the directory of a file that was there before was there before
  have hd : t.LocatesDirectory j.config.output d :=
    hrooted.locatesDirectory hpath hwrote.keepsDirectories.workingDirectory
      ((hdirs d).mp hheld.directory) (hrooted d s (by simp [hc]))
  have hfound := (isDirectory_iff _ _).mpr ⟨d, hd⟩
  rw [hdir] at hfound
  contradiction

/-- A dry run changes nothing, and tells of a run that comes to its end the drawings that compile,
the files that are written with their contents, and, unless the run finds stale files in a directory
that is new to its path, the files that are removed. -/
theorem dryRun_foretells (ht : t.ProperlyNamed) (hdry : dry.dryRun = true)
    (hreal : real.dryRun = false) :
    (j.run dry t files).tree = t ∧
    ∀ report, (j.run real t files).report = .ok report →
      ∃ v preview, Registry.builtin.get? j.config.framework = some v ∧
        (j.run dry t files).report = .ok preview ∧
        preview.stats = report.stats ∧
        preview.outputs = report.outputs.map (fun o => { o with written := false }) ∧
        (∀ o ∈ report.outputs, o.written = true) ∧
        (preview.removed = report.removed ↔
          ¬ j.FindsStale v files t (j.run real t files).tree) ∧
        (t.Rooted → ".." ∉ Path.steps j.config.output → preview.removed = report.removed) := by
  refine ⟨tree_of_dryRun hdry, fun report h => ?_⟩
  obtain ⟨p', stats, hp', hresult, rfl, htree'⟩ := run_eq_ok h
  obtain ⟨v, runtime, index, ho⟩ := outline_of_plan hresult
  obtain ⟨p, hp, htree, hpreview⟩ := report_of_dryRun (t := t) hdry hresult
  have houtputs := Progress.outputs_takeAll hp
  have houtputs' := Progress.outputs_takeAll hp'
  rw [hdry] at houtputs
  rw [hreal] at houtputs'
  have hremoved := ho.removed_eq_iff ht hp hp' htree
  rw [htree']
  refine ⟨v, _, ho.variant, hpreview, rfl, ?_, ?_, hremoved,
    fun hrooted hpath => hremoved.mpr (ho.not_findsStale ht hrooted hpath hp')⟩
  · rw [houtputs, houtputs']
    simp [Progress.start]
  · intro o hm
    rw [houtputs'] at hm
    obtain ⟨f, -, rfl⟩ := List.mem_map.mp hm
    rfl

theorem oneFile_rooted (directory name text : String) : (oneFile directory name text).Rooted := by
  have hfresh : ∀ l s, l ≠ [] → FileTree.entry? (.fresh "work") (l ++ [s]) = none := by
    intro l s hl
    have hne : l ++ [s] ≠ ["work"] := by simp [List.append_eq_singleton_iff, hl]
    rw [entry?_append_singleton, FileTree.fresh, Table.get?_put, if_neg hne]
    rfl
  have hroot := (FileTree.Rooted.fresh "work").put .directory (l := ["work"]) (s := directory) rfl
    (by rw [hfresh _ _ (by simp)]; simp)
  refine hroot.put _ (l := ["work", directory]) ?_ ?_
  · exact entry?_put_self _ _ (by simp)
  · rw [List.singleton_append, entry?_put_of_ne _ _ (by simp) (by simp), hfresh _ _ (by simp)]
    simp

theorem former_component_foretold :
    ∃ preview report, ((cleaning "vue").run (.reliable true)
        (oneFile "out" "Gone.vue" "import Icon from './Icon.vue'") []).report = .ok preview ∧
      ((cleaning "vue").run (.reliable false)
        (oneFile "out" "Gone.vue" "import Icon from './Icon.vue'") []).report = .ok report ∧
      preview.removed = report.removed ∧ report.removed = ["out/Gone.vue"] := by
  have hclosing : ((cleaning "vue").plan []).actions.drop 2 =
      [.clean "vue" "from './Icon" ["Icon.vue", "index.ts"], .call (.complete .empty)] := by
    decide +kernel
  obtain ⟨hreport, -⟩ := run_of_children (cleaning "vue") (.reliable false)
    (oneFile "out" "Gone.vue" "import Icon from './Icon.vue'") [] 2 ["work", "out"]
    ["Gone.vue"] hclosing (by decide +kernel) rfl rfl (by decide +kernel)
    ⟨by decide +kernel, (isDirectoryAt_iff _ _).mp (by decide +kernel)⟩ (by decide +kernel)
    (by decide +kernel) (by decide +kernel)
  have hnamed := oneFile_named "import Icon from './Icon.vue'"
    (show Path.IsName "out" by decide) (show Path.IsName "Gone.vue" by decide)
  have hrooted := oneFile_rooted "out" "Gone.vue" "import Icon from './Icon.vue'"
  obtain ⟨-, hall⟩ := @dryRun_foretells (cleaning "vue") [] _ (.reliable true) (.reliable false)
    hnamed rfl rfl
  obtain ⟨v, preview, -, hpreview, -, -, -, -, hremoved⟩ := hall _ hreport
  exact ⟨preview, _, hpreview, hreport, hremoved hrooted (by decide +kernel), by decide +kernel⟩

/-- A run that cleans up in a directory which its path leads to by way of one that is not there. -/
def roundabout : Job :=
  .ofConfig { (cleaning "vue").config with output := "a/../b" }

/-- The dry run tells of no removal, and the run removes a file. -/
theorem removal_not_foretold :
    roundabout.config.validate = .ok () ∧
    (oneFile "b" "Gone.vue" "import Icon from './Icon.vue'").ProperlyNamed ∧
    (oneFile "b" "Gone.vue" "import Icon from './Icon.vue'").Rooted ∧
    ∃ preview report, (roundabout.run (.reliable true)
        (oneFile "b" "Gone.vue" "import Icon from './Icon.vue'") []).report = .ok preview ∧
      (roundabout.run (.reliable false)
        (oneFile "b" "Gone.vue" "import Icon from './Icon.vue'") []).report = .ok report ∧
      preview.removed = [] ∧ report.removed = ["a/../b/Gone.vue"] := by
  have hclosing : (roundabout.plan []).actions.drop 2 =
      [.clean "vue" "from './Icon" ["Icon.vue", "index.ts"], .call (.complete .empty)] := by
    decide +kernel
  obtain ⟨hreport, -⟩ := run_of_children roundabout (.reliable false)
    (oneFile "b" "Gone.vue" "import Icon from './Icon.vue'") [] 2 ["work", "b"]
    ["Gone.vue"] hclosing (by decide +kernel) rfl rfl (by decide +kernel)
    ⟨by decide +kernel, (isDirectoryAt_iff _ _).mp (by decide +kernel)⟩ (by decide +kernel)
    (by decide +kernel) (by decide +kernel)
  have hnamed := oneFile_named "import Icon from './Icon.vue'"
    (show Path.IsName "b" by decide) (show Path.IsName "Gone.vue" by decide)
  have hpreview : ((roundabout.run (.reliable true)
      (oneFile "b" "Gone.vue" "import Icon from './Icon.vue'") []).report.toOption.map
        (·.removed)) = some [] := by
    decide +kernel
  refine ⟨by decide +kernel, hnamed, oneFile_rooted _ _ _, ?_⟩
  cases h : (roundabout.run (.reliable true)
      (oneFile "b" "Gone.vue" "import Icon from './Icon.vue'") []).report with
  | error e => simp [h, Except.toOption] at hpreview
  | ok preview =>
    rw [h] at hpreview
    exact ⟨preview, _, rfl, hreport, Option.some.inj hpreview, by decide +kernel⟩

end Job

end IconCompiler
