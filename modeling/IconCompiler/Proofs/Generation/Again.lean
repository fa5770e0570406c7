import IconCompiler.Proofs.Generation.Stages

/-!
A run that is done once more on the tree that it has left. Every file is written where it is
already, with the text that it has, and what was stale is gone, so nothing changes.
-/

namespace IconCompiler

open FileTree

theorem Writer.removeStale_of_nil (w : Writer) (changes : Nat) {t : FileTree}
    {directory extension marker : String} {keep : List String}
    (h : staleNames t directory extension marker keep = []) :
    w.removeStale changes t directory extension marker keep = (t, .ok []) := by
  unfold removeStale
  rw [h]
  split <;> rfl

namespace Progress

variable {w : Writer} {out : String} {d : Location} {p : Progress}

/-- Where there is a place for every file, and the disk refuses none, all are written. -/
theorem takeAll_of_places {as : List Action} (hw : w.dryRun = false) (has : ∀ a ∈ as, Writes a)
    (hd : p.tree.LeadsTo out d)
    (hplaces : ∀ f ∈ as.filterMap Action.file?,
      p.tree.placeForFile (Path.join out f.fileName) = .ok (d ++ [f.fileName]))
    (haccepted : ∀ n < (as.filterMap Action.file?).length, w.refuses (p.changes + n) = none) :
    p.takeAll w out as =
      (⟨p.tree.withFiles d (as.filterMap Action.file?), p.calls ++ as.filterMap Action.call?,
        p.outputs ++ (as.filterMap Action.file?).map fun f =>
          ⟨Path.join out f.fileName, f.contents, true⟩,
        p.removed⟩, .ok ()) := by
  induction as generalizing p with
  | nil => simp [takeAll, withFiles]
  | cons a as ih =>
    have ha := has a List.mem_cons_self
    have hrest := fun b hb => has b (List.mem_cons_of_mem a hb)
    cases a with
    | clean extension mark keep => exact ha.elim
    | call c =>
      have hcall := ih (p := { p with calls := p.calls ++ [c] }) hrest hd hplaces haccepted
      rw [takeAll, take]
      dsimp only
      rw [hcall, List.append_assoc]
      rfl
    | write f =>
      have hplace := hplaces f List.mem_cons_self
      have hput := KeepsDirectories.put_placeForFile hplace f.contents.toUTF8
      have hrefuses : w.refuses p.changes = none := haccepted 0 (Nat.succ_pos _)
      have htake : p.take w out (.write f) = (p.put out d f, .ok ()) := by
        simp only [take, Writer.write_of_placeForFile hw ha hrefuses hd hplace]
        rfl
      -- the places for the other files stay once this one is written
      have hwrites := ih (p := p.put out d f) hrest (by exact hd.keepsDirectories hput)
        (fun g hg => placeForFile_put _ hplace (hplaces g (List.mem_cons_of_mem f hg)))
        (fun n hn => by
          have hnext := haccepted (n + 1) (Nat.succ_lt_succ hn)
          rwa [changes_put, Nat.add_assoc, Nat.add_comm 1 n])
      rw [takeAll, htake]
      dsimp only
      rw [hwrites]
      simp only [put, List.append_assoc]
      rfl

end Progress

namespace Job

variable {j : Job} {v : Variant} {files : List SourceFile} {runtime : GeneratedFile}
  {index : Option GeneratedFile} {w : Writer} {t : FileTree} {d : Location} {p : Progress}

theorem filterMap_finish : (j.finish v runtime files index).filterMap Action.call? =
    [.complete (.ofVerdicts (j.verdicts [] files))] := by
  unfold finish
  split <;> rfl

/-- Where nothing is stale, only the last hook is called once the files are written. -/
theorem takeAll_finish_of_nil (w : Writer) (calls : List HookCall) (outputs : List Output)
    (removed : List String) (h : j.staleIn v runtime files index t = []) :
    (Progress.mk t calls outputs removed).takeAll w j.config.output
        (j.finish v runtime files index) =
      (⟨t, calls ++ [.complete (.ofVerdicts (j.verdicts [] files))], outputs, removed⟩,
        .ok ()) := by
  unfold staleIn at h
  unfold finish
  split at h
  · rename_i hclean
    have hstale := fun changes => Writer.removeStale_of_nil w changes h
    simp only [hclean, if_true, List.singleton_append, Progress.takeAll, Progress.take, hstale,
      List.append_nil]
  · rename_i hclean
    rw [if_neg hclean]
    rfl

/-- Nothing is stale in a tree that was rid of what was stale. -/
theorem staleIn_of_removed {t t' : FileTree} {d : Location} (hd : t.LeadsTo j.config.output d)
    (h : Removed t t' d (j.staleIn v runtime files index t)) :
    j.staleIn v runtime files index t' = [] := by
  unfold staleIn at h ⊢
  split
  · rename_i hclean
    rw [if_pos hclean] at h
    refine List.eq_nil_iff_forall_not_mem.mpr fun s hs => ?_
    obtain ⟨d', c, hd', hc, hstale⟩ := (Writer.mem_staleNames _ _ _ _ _ s).mp hs
    have hbefore := h.locatesDirectory.mp hd'
    obtain rfl := hd.unique hbefore.leadsTo
    -- it was stale before, and then it is gone
    have hgone := h.gone s ((Writer.mem_staleNames _ _ _ _ _ s).mpr
      ⟨_, c, hbefore, h.entry?_of_some hc, hstale⟩)
    rw [hc] at hgone
    contradiction
  · rfl

/-- A tree that holds in a directory what a run writes there, and nothing that the run takes for
stale. -/
structure Settled (j : Job) (v : Variant) (runtime : GeneratedFile) (files : List SourceFile)
    (index : Option GeneratedFile) (t : FileTree) (d : Location) : Prop where
  leadsTo : t.LeadsTo j.config.output d
  located : ∀ f ∈ (j.plan files).files,
    t.locate (Path.join j.config.output f.fileName) = .ok (d ++ [f.fileName])
  entry? : ∀ f ∈ (j.plan files).files, t.entry? (d ++ [f.fileName]) =
    (lastNamed (j.plan files).files f.fileName).map fun g => .file g.contents.toUTF8
  nothing_stale : j.staleIn v runtime files index t = []

/-- A run that has come to its end leaves such a tree, and its disk has refused no file. -/
theorem Outline.settled (h : Outline j files v runtime index) (ht : t.ProperlyNamed)
    (hw : w.dryRun = false)
    (hp : (Progress.start t).takeAll w j.config.output (j.plan files).actions = (p, .ok ())) :
    j.Settled v runtime files index p.tree (t.place j.config.output) ∧
      ∀ n < (j.plan files).files.length, w.refuses n = none := by
  obtain ⟨taken, f, later, e, -, he, -⟩ | ⟨p₁, hwriting, hfiled, hfinish⟩ := h.stages hw hp
  · contradiction
  obtain ⟨hnamed, hd₁⟩ := h.written ht hwriting hfiled
  obtain ⟨gone, -, hremoved, -, ⟨-, rfl, -⟩ | ⟨path, cause, he⟩⟩ :=
    finish_steps hw hnamed hd₁ hfinish
  swap
  · contradiction
  have htree := hfiled.tree
  have hlocated := hfiled.located
  have haccepted := hfiled.accepted
  rw [← h.files_eq_writing] at htree hlocated haccepted
  refine ⟨⟨hd₁.keepsDirectories hremoved.keepsDirectories, fun f hf => ?_, fun f hf => ?_,
    staleIn_of_removed hd₁ hremoved⟩, fun n hn => ?_⟩
  · exact locate_keepsDirectories hremoved.keepsDirectories (hlocated f hf)
  · -- what was written is left where it is, since none of it is stale
    have hkept : ∀ s ∈ j.staleIn v runtime files index p₁.tree,
        t.place j.config.output ++ [f.fileName] ≠ t.place j.config.output ++ [s] := by
      intro s hs e
      obtain rfl := name_inj e
      exact h.not_written_of_mem_staleIn hs (List.mem_map_of_mem hf)
    obtain ⟨g, hg⟩ := exists_lastNamed hf
    rw [hremoved.kept _ hkept, htree, entry?_withFiles, hg]
    rfl
  · exact (congrArg w.refuses (Nat.zero_add n)).symm.trans (haccepted n hn)

/-- A run on such a tree writes what is there and removes nothing. -/
theorem Settled.takeAll (hs : j.Settled v runtime files index t d)
    (h : Outline j files v runtime index) (hw : w.dryRun = false)
    (haccepted : ∀ n < (j.plan files).files.length, w.refuses n = none) :
    (Progress.start t).takeAll w j.config.output (j.plan files).actions =
      (⟨t, (j.plan files).actions.filterMap Action.call?,
        (j.plan files).files.map fun f => ⟨Path.join j.config.output f.fileName, f.contents, true⟩,
        []⟩, .ok ()) := by
  have hplaces : ∀ f ∈ (j.plan files).files,
      t.placeForFile (Path.join j.config.output f.fileName) = .ok (d ++ [f.fileName]) := by
    intro f hf
    obtain ⟨g, hg⟩ := exists_lastNamed hf
    exact (placeForFile_join _ _ _ _ (h.isName_of_mem_files hf)).mpr
      ⟨hs.located f hf, by simp [hs.entry? f hf, hg]⟩
  have hself : t.withFiles d (j.plan files).files = t := withFiles_eq_self hs.entry?
  rw [h.files_eq_writing] at hplaces hself haccepted
  have hwrites := Progress.takeAll_of_places (p := .start t) hw
    (fun a ha => h.writes_of_mem_writing ha) hs.leadsTo hplaces
    (fun n hn => (congrArg w.refuses (Nat.zero_add n)).trans (haccepted n hn))
  rw [h.files_eq_writing, h.actions_eq, Progress.takeAll_append_eq, hwrites, List.filterMap_append,
    filterMap_finish]
  dsimp only [Progress.start]
  rw [hself, takeAll_finish_of_nil w _ _ _ hs.nothing_stale]
  rfl

/-- A run that has come to its end does the same once more on the tree that it has left, and leaves
it as it is: there is nothing to remove any more. -/
theorem regeneration_idempotent {report : GenerationReport} (ht : t.ProperlyNamed)
    (hw : w.dryRun = false) (h : (j.run w t files).report = .ok report) :
    j.run w (j.run w t files).tree files =
      { j.run w t files with report := .ok { report with removed := [] } } := by
  obtain ⟨p, stats, hp, hresult, rfl, -⟩ := run_eq_ok h
  obtain ⟨v, runtime, index, ho⟩ := outline_of_plan hresult
  obtain ⟨hsettled, haccepted⟩ := ho.settled ht hw hp
  have hagain := hsettled.takeAll ho hw haccepted
  have houtputs := Progress.outputs_takeAll hp
  rw [hw] at houtputs
  rw [run_of_finished hp hresult, run_of_finished hagain hresult, Progress.calls_takeAll hp,
    houtputs]
  rfl

/-- A file that imports the runtime and that no drawing stands behind. -/
def goneTree : FileTree := outputTree "Gone.vue" "import Icon from './Icon.vue'"

/-- It is removed the first time, and nothing is the second. -/
theorem gone_component_removed_once :
    ∃ first, (cleaning "vue").run (.reliable false) goneTree [] = first ∧
      ∃ report, first.report = .ok report ∧ report.removed = ["out/Gone.vue"] ∧
        (cleaning "vue").run (.reliable false) first.tree [] =
          { first with report := .ok { report with removed := [] } } := by
  have hclosing : ((cleaning "vue").plan []).actions.drop 2 =
      [.clean "vue" "from './Icon" ["Icon.vue", "index.ts"], .call (.complete .empty)] := by
    decide +kernel
  obtain ⟨hreport, -⟩ := run_of_children (cleaning "vue") (.reliable false) goneTree [] 2
    ["work", "out"] ["Gone.vue"] hclosing (by decide +kernel) rfl rfl (by decide +kernel)
    ⟨by decide +kernel, (isDirectoryAt_iff _ _).mp (by decide +kernel)⟩ (by decide +kernel)
    (by decide +kernel) (by decide +kernel)
  have hnamed := outputTree_named "Gone.vue" "import Icon from './Icon.vue'" (by decide)
  exact ⟨_, rfl, _, hreport, by decide +kernel, regeneration_idempotent hnamed rfl hreport⟩

end Job

end IconCompiler
