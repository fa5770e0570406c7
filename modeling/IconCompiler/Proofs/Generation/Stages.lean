import IconCompiler.Proofs.Generation.Accounts
import IconCompiler.Proofs.Output.Files

/-!
The stages of a run, and what each has done wherever it stops. First the files are written, all of
them or those in front of one that cannot be written; only behind them stale files are removed, and
the last hook is called.
-/

namespace IconCompiler

open FileTree

namespace Progress

variable {w : Writer} {out : String} {p p' : Progress} {d : Location} {taken : List Action}
  {outcome : Except WriteError Unit}

/-! ## Writing -/

/-- What actions that write have done once they are taken in a directory. -/
structure Filed (w : Writer) (out : String) (d : Location) (p p' : Progress)
    (taken : List Action) : Prop where
  tree : p'.tree = p.tree.withFiles d (taken.filterMap Action.file?)
  calls : p'.calls = p.calls ++ taken.filterMap Action.call?
  removed : p'.removed = p.removed
  keepsDirectories : KeepsDirectories p.tree p'.tree
  located : ∀ f ∈ taken.filterMap Action.file?,
    p'.tree.locate (Path.join out f.fileName) = .ok (d ++ [f.fileName])
  accepted : ∀ n < (taken.filterMap Action.file?).length, w.refuses (p.changes + n) = none

/-- The actions that were taken are all of them, or those before a file that was not written. -/
def StopsAfter (out : String) (taken as : List Action) (outcome : Except WriteError Unit) : Prop :=
  (as = taken ∧ outcome = .ok ()) ∨ ∃ f later e, as = taken ++ .write f :: later ∧
    outcome = .error e ∧ e.OfFile (Path.join out f.fileName)

theorem StopsAfter.cons {as : List Action} (a : Action) (h : StopsAfter out taken as outcome) :
    StopsAfter out (a :: taken) (a :: as) outcome := by
  rcases h with ⟨rfl, rfl⟩ | ⟨f, later, e, rfl, rfl, he⟩
  · exact Or.inl ⟨rfl, rfl⟩
  · exact Or.inr ⟨f, later, e, rfl, rfl, he⟩

theorem Filed.nil (w : Writer) (out : String) (d : Location) (p : Progress) :
    Filed w out d p p [] :=
  ⟨rfl, by simp, rfl, .refl _, by simp, by simp⟩

theorem Filed.call {c : HookCall} (h : Filed w out d { p with calls := p.calls ++ [c] } p' taken) :
    Filed w out d p p' (.call c :: taken) :=
  ⟨h.tree, by simp [h.calls, Action.call?], h.removed, h.keepsDirectories, h.located, h.accepted⟩

/-- The progress after a file is put into a directory. -/
def put (p : Progress) (out : String) (d : Location) (f : GeneratedFile) : Progress :=
  { p with
    tree := p.tree.put (d ++ [f.fileName]) (.file f.contents.toUTF8)
    outputs := p.outputs ++ [⟨Path.join out f.fileName, f.contents, true⟩] }

theorem changes_put (p : Progress) (out : String) (d : Location) (f : GeneratedFile) :
    (p.put out d f).changes = p.changes + 1 := by
  simp only [changes, put, List.length_append, List.length_singleton]
  omega

theorem Filed.write {f : GeneratedFile} (hrefuses : w.refuses p.changes = none)
    (hplace : p.tree.placeForFile (Path.join out f.fileName) = .ok (d ++ [f.fileName]))
    (h : Filed w out d (p.put out d f) p' taken) : Filed w out d p p' (.write f :: taken) := by
  obtain ⟨-, hlocate, -⟩ := (placeForFile_eq_ok_iff _ _ _).mp hplace
  have hput : KeepsDirectories p.tree (p.put out d f).tree := .put_placeForFile hplace _
  refine ⟨h.tree, h.calls, h.removed, hput.trans h.keepsDirectories, ?_, ?_⟩
  · intro g hg
    rcases List.mem_cons.mp hg with rfl | hg
    · exact locate_keepsDirectories (hput.trans h.keepsDirectories) hlocate
    · exact h.located g hg
  · intro n hn
    cases n with
    | zero => exact hrefuses
    | succ n =>
      have hrest := h.accepted n (Nat.lt_of_succ_lt_succ hn)
      rwa [changes_put, Nat.add_assoc, Nat.add_comm 1 n] at hrest

/-- Writing makes the way to the directory, and puts the file there unless it fails. -/
theorem take_write_steps {f : GeneratedFile} (hw : w.dryRun = false) (hf : Path.IsName f.fileName)
    (h : p.take w out (.write f) = (p', outcome)) :
    ∃ p₀, p₀ = { p with tree := (Writer.prepare p.tree (Path.join out f.fileName)).1 } ∧
      ((∃ d, outcome = .ok () ∧ w.refuses p.changes = none ∧ p₀.tree.LeadsTo out d ∧
        p₀.tree.placeForFile (Path.join out f.fileName) = .ok (d ++ [f.fileName]) ∧
        p' = p₀.put out d f) ∨
      ∃ e, outcome = .error e ∧ e.OfFile (Path.join out f.fileName) ∧ p' = p₀) := by
  refine ⟨_, rfl, ?_⟩
  simp only [take] at h
  split at h
  · rename_i t o hwrite
    obtain ⟨rfl, rfl⟩ := Prod.mk.inj h
    rcases Writer.write_steps hw hf hwrite with ⟨d, ho, hrefuses, hd, hplace, rfl⟩ | ⟨e, he, -⟩
    · obtain rfl := Except.ok.inj ho
      exact Or.inl ⟨d, rfl, hrefuses, hd, hplace, rfl⟩
    · contradiction
  · rename_i t e hwrite
    obtain ⟨rfl, rfl⟩ := Prod.mk.inj h
    rcases Writer.write_steps hw hf hwrite with ⟨d, ho, -⟩ | ⟨e', he, hof, rfl⟩
    · contradiction
    · obtain rfl := Except.error.inj he
      exact Or.inr ⟨e, rfl, hof, rfl⟩

/-- Actions that are taken where the path leads to a directory already. -/
theorem exists_filed {as : List Action} (hw : w.dryRun = false) (has : ∀ a ∈ as, Writes a)
    (hd : p.tree.LeadsTo out d) (h : p.takeAll w out as = (p', outcome)) :
    ∃ taken, Filed w out d p p' taken ∧ StopsAfter out taken as outcome := by
  induction as generalizing p with
  | nil =>
    obtain ⟨rfl, rfl⟩ := Prod.mk.inj h
    exact ⟨[], .nil w out d p, Or.inl ⟨rfl, rfl⟩⟩
  | cons a as ih =>
    have ha := has a List.mem_cons_self
    have hrest := fun b hb => has b (List.mem_cons_of_mem a hb)
    rw [takeAll] at h
    cases a with
    | clean extension mark keep => exact ha.elim
    | call c =>
      obtain ⟨taken, hfiled, hstops⟩ := ih (p := { p with calls := p.calls ++ [c] }) hrest hd h
      exact ⟨_, hfiled.call, hstops.cons _⟩
    | write f =>
      cases hstep : p.take w out (.write f) with
      | mk p₁ first =>
        rw [hstep] at h
        obtain ⟨p₀, hp₀, hcases⟩ := take_write_steps hw ha hstep
        -- the directory is there already, so none is made on the way
        rw [(Writer.prepare_of_leadsTo ha hd).1] at hp₀
        obtain rfl : p₀ = p := hp₀
        rcases hcases with ⟨d', rfl, hrefuses, hd', hplace, rfl⟩ | ⟨e, rfl, hof, rfl⟩
        · obtain rfl := hd.unique hd'
          have hput : KeepsDirectories p₀.tree (p₀.put out d' f).tree :=
            .put_placeForFile hplace _
          obtain ⟨taken, hfiled, hstops⟩ := ih hrest (hd.keepsDirectories hput) h
          exact ⟨_, hfiled.write hrefuses hplace, hstops.cons _⟩
        · obtain ⟨rfl, rfl⟩ := Prod.mk.inj h
          exact ⟨[], .nil w out d _, Or.inr ⟨f, as, e, rfl, rfl, hof⟩⟩

/-- Actions that begin with a file, which is where directories are made. -/
theorem exists_filed_of_write {f : GeneratedFile} {as : List Action} (hw : w.dryRun = false)
    (hf : Path.IsName f.fileName) (has : ∀ a ∈ as, Writes a)
    (h : p.takeAll w out (.write f :: as) = (p', outcome)) :
    ∃ taken, Filed w out (p.tree.place out)
        { p with tree := (Writer.prepare p.tree (Path.join out f.fileName)).1 } p' taken ∧
      StopsAfter out taken (.write f :: as) outcome := by
  rw [takeAll] at h
  cases hstep : p.take w out (.write f) with
  | mk p₁ first =>
    rw [hstep] at h
    obtain ⟨p₀, rfl, ⟨d, rfl, hrefuses, hd, hplace, rfl⟩ | ⟨e, rfl, hof, rfl⟩⟩ :=
      take_write_steps hw hf hstep
    · have hput := KeepsDirectories.put_placeForFile hplace f.contents.toUTF8
      obtain ⟨taken, hfiled, hstops⟩ :=
        exists_filed (d := d) hw has (by exact hd.keepsDirectories hput) h
      have hway := Writer.prepare_makesWay p.tree out hf
      obtain rfl : d = p.tree.place out :=
        hd.eq_place.trans (place_eq_of_workingDirectory out hway.workingDirectory)
      exact ⟨_, hfiled.write hrefuses hplace, hstops.cons _⟩
    · obtain ⟨rfl, rfl⟩ := Prod.mk.inj h
      exact ⟨[], .nil w out _ _, Or.inr ⟨f, as, e, rfl, rfl, hof⟩⟩

theorem Filed.leadsTo {f : GeneratedFile} (h : Filed w out d p p' taken)
    (hf : f ∈ taken.filterMap Action.file?) (hs : Path.IsName f.fileName) :
    p'.tree.LeadsTo out d := by
  obtain ⟨-, d', hd', -, he⟩ := (locate_join _ _ _ _ hs).mp (h.located f hf)
  rwa [(List.append_inj' he rfl).1]

/-! ## Cleaning up -/

/-- Cleaning up the directory of a run, as far as it comes. -/
theorem take_clean_steps {extension mark : String} {keep : List String} (hw : w.dryRun = false)
    (hp : p.tree.ProperlyNamed)
    (hd : Writer.staleNames p.tree out extension mark keep ≠ [] → p.tree.LeadsTo out d)
    (h : p.take w out (.clean extension mark keep) = (p', outcome)) :
    ∃ gone, gone <+: Writer.staleNames p.tree out extension mark keep ∧
      Removed p.tree p'.tree d gone ∧ p'.outputs = p.outputs ∧
      ((outcome = .ok () ∧ gone = Writer.staleNames p.tree out extension mark keep ∧
          p'.removed = p.removed ++ gone.map (Path.join out)) ∨
        ∃ path cause, outcome = .error (.removeFile path cause)) := by
  simp only [take] at h
  cases hr : w.removeStale p.changes p.tree out extension mark keep with
  | mk t result =>
    obtain ⟨gone, hgone, hremoved, ⟨rfl, hall⟩ | ⟨path, cause, rfl⟩⟩ :=
      Writer.removeStale_steps hw hp hd hr
    · rw [hr] at h
      obtain ⟨rfl, rfl⟩ := Prod.mk.inj h
      exact ⟨gone, hgone, hremoved, rfl, Or.inl ⟨rfl, hall, by rw [hall]⟩⟩
    · rw [hr] at h
      obtain ⟨rfl, rfl⟩ := Prod.mk.inj h
      exact ⟨gone, hgone, hremoved, rfl, Or.inr ⟨path, cause, rfl⟩⟩

theorem error_of_take_clean {extension mark : String} {keep : List String} {e : WriteError}
    (h : p.take w out (.clean extension mark keep) = (p', .error e)) :
    ∃ path cause, e = .removeFile path cause := by
  simp only [take] at h
  split at h
  · simp at h
  · rename_i t e' hstale
    obtain rfl := Except.error.inj (Prod.mk.inj h).2
    exact Writer.error_of_removeStale hstale

end Progress

namespace Job

variable {j : Job} {v : Variant} {files : List SourceFile} {runtime : GeneratedFile}
  {index : Option GeneratedFile} {w : Writer} {t : FileTree} {d : Location} {p p' : Progress}
  {outcome : Except WriteError Unit}

/-- The names of the files that a run takes for stale in a tree. -/
def staleIn (j : Job) (v : Variant) (runtime : GeneratedFile) (files : List SourceFile)
    (index : Option GeneratedFile) (t : FileTree) : List String :=
  if j.config.generate.cleanOutput then
    Writer.staleNames t j.config.output (v.component.pick j.config.typescript)
      (marker runtime.fileName) (j.keptNames v runtime files index)
  else []

theorem mem_staleIn {t : FileTree} {s : String} (hs : s ∈ j.staleIn v runtime files index t) :
    ∃ d c, t.LocatesDirectory j.config.output d ∧ t.entry? (d ++ [s]) = some (.file c) ∧
      Writer.IsStale (v.component.pick j.config.typescript) (marker runtime.fileName)
        (j.keptNames v runtime files index) s c := by
  unfold staleIn at hs
  split at hs
  · exact (Writer.mem_staleNames _ _ _ _ _ s).mp hs
  · contradiction

theorem isName_of_mem_staleIn {s : String} (ht : t.ProperlyNamed)
    (hs : s ∈ j.staleIn v runtime files index t) : Path.IsName s := by
  unfold staleIn at hs
  split at hs
  · exact Writer.isName_of_mem_staleNames ht hs
  · contradiction

/-- What is stale is not kept and has the extension of components, and what a run writes is kept or
has another one. -/
theorem Outline.not_written_of_mem_staleIn {s : String} (h : Outline j files v runtime index)
    (hs : s ∈ j.staleIn v runtime files index t) : s ∉ (j.plan files).files.map (·.fileName) := by
  obtain ⟨d, c, -, -, hstale⟩ := mem_staleIn hs
  intro hm
  obtain ⟨f, hf, rfl⟩ := List.mem_map.mp hm
  rcases h.kept_or_extension_ne hf with hkept | hne
  · exact hstale.not_kept hkept
  · exact hne hstale.extension

/-- After its files are written a run removes those that are stale, as far as it comes. -/
theorem finish_steps (hw : w.dryRun = false) (hp : p.tree.ProperlyNamed)
    (hd : p.tree.LeadsTo j.config.output d)
    (h : p.takeAll w j.config.output (j.finish v runtime files index) = (p', outcome)) :
    ∃ gone, gone <+: j.staleIn v runtime files index p.tree ∧ Removed p.tree p'.tree d gone ∧
      p'.outputs = p.outputs ∧
      ((outcome = .ok () ∧ gone = j.staleIn v runtime files index p.tree ∧
          p'.removed = p.removed ++ gone.map (Path.join j.config.output)) ∨
        ∃ path cause, outcome = .error (.removeFile path cause)) := by
  unfold finish at h
  unfold staleIn
  split at h
  · rename_i hclean
    rw [if_pos hclean]
    rw [List.singleton_append, Progress.takeAll] at h
    cases hstep : p.take w j.config.output (.clean (v.component.pick j.config.typescript)
        (marker runtime.fileName) (j.keptNames v runtime files index)) with
    | mk p₁ first =>
      rw [hstep] at h
      obtain ⟨gone, hgone, hremoved, houtputs, hend⟩ :=
        Progress.take_clean_steps hw hp (fun _ => hd) hstep
      refine ⟨gone, hgone, ?_⟩
      rcases hend with ⟨rfl, hall⟩ | ⟨path, cause, rfl⟩
      · obtain ⟨rfl, rfl⟩ := Prod.mk.inj h
        exact ⟨hremoved, houtputs, Or.inl ⟨rfl, hall⟩⟩
      · obtain ⟨rfl, rfl⟩ := Prod.mk.inj h
        exact ⟨hremoved, houtputs, Or.inr ⟨path, cause, rfl⟩⟩
  · rename_i hclean
    rw [if_neg hclean]
    obtain ⟨rfl, rfl⟩ := Prod.mk.inj h
    exact ⟨[], List.nil_prefix, .refl _ d, rfl, Or.inl ⟨rfl, rfl, (List.append_nil _).symm⟩⟩

/-- A run whose files are all written fails only where a stale file cannot be removed. -/
theorem error_of_finish {e : WriteError}
    (h : p.takeAll w j.config.output (j.finish v runtime files index) = (p', .error e)) :
    ∃ path cause, e = .removeFile path cause := by
  unfold finish at h
  split at h
  · rw [List.singleton_append, Progress.takeAll] at h
    split at h
    · simp [Progress.takeAll, Progress.take] at h
    · rename_i p₁ e' hstep
      obtain rfl := Except.error.inj (Prod.mk.inj h).2
      exact Progress.error_of_take_clean hstep
  · simp [Progress.takeAll, Progress.take] at h

/-! ## A run -/

/-- The tree with the directories made that the files of a run are put into. -/
def prepared (j : Job) (runtime : GeneratedFile) (t : FileTree) : FileTree :=
  (Writer.prepare t (Path.join j.config.output runtime.fileName)).1

theorem Outline.isName_runtime (h : Outline j files v runtime index) :
    Path.IsName runtime.fileName :=
  h.writes_of_mem_writing (a := .write runtime) List.mem_cons_self

theorem Outline.makesWay (h : Outline j files v runtime index) (t : FileTree) :
    MakesWay t (j.prepared runtime t) j.config.output :=
  Writer.prepare_makesWay t j.config.output h.isName_runtime

/-- A run makes the way to its directory and writes its files there. It stops at one of them, or it
goes on once all are written. -/
theorem Outline.stages (h : Outline j files v runtime index) (hw : w.dryRun = false)
    (hp : (Progress.start t).takeAll w j.config.output (j.plan files).actions = (p, outcome)) :
    (∃ taken f later e,
      j.writing runtime (j.verdicts [] files) index = taken ++ .write f :: later ∧
      outcome = .error e ∧ e.OfFile (Path.join j.config.output f.fileName) ∧
      Progress.Filed w j.config.output (t.place j.config.output)
        (.start (j.prepared runtime t)) p taken) ∨
    ∃ p₁, (Progress.start t).takeAll w j.config.output
        (j.writing runtime (j.verdicts [] files) index) = (p₁, .ok ()) ∧
      Progress.Filed w j.config.output (t.place j.config.output)
        (.start (j.prepared runtime t)) p₁
        (j.writing runtime (j.verdicts [] files) index) ∧
      p₁.takeAll w j.config.output (j.finish v runtime files index) = (p, outcome) := by
  have hrest : ∀ a ∈ (j.writing runtime (j.verdicts [] files) index).tail, Progress.Writes a :=
    fun a ha => h.writes_of_mem_writing (List.mem_of_mem_tail ha)
  rw [h.actions_eq, Progress.takeAll_append_eq] at hp
  cases hwriting : (Progress.start t).takeAll w j.config.output
      (j.writing runtime (j.verdicts [] files) index) with
  | mk p₁ first =>
    rw [hwriting] at hp
    obtain ⟨taken, hfiled, ⟨htaken, rfl⟩ | ⟨f, later, e, htaken, rfl, hof⟩⟩ :=
      Progress.exists_filed_of_write hw h.isName_runtime hrest hwriting
    · obtain rfl : j.writing runtime (j.verdicts [] files) index = taken := htaken
      exact Or.inr ⟨p₁, rfl, hfiled, hp⟩
    · obtain ⟨rfl, rfl⟩ := Prod.mk.inj hp
      exact Or.inl ⟨taken, f, later, e, htaken, rfl, hof, hfiled⟩

/-- Once all its files are written a run has a tree without names out of place, in which its path
leads to the directory of the files. -/
theorem Outline.written {p₀ p₁ : Progress} (h : Outline j files v runtime index)
    (ht : t.ProperlyNamed) (hwriting : (Progress.start t).takeAll w j.config.output
      (j.writing runtime (j.verdicts [] files) index) = (p₁, .ok ()))
    (hfiled : Progress.Filed w j.config.output d p₀ p₁
      (j.writing runtime (j.verdicts [] files) index)) :
    p₁.tree.ProperlyNamed ∧ p₁.tree.LeadsTo j.config.output d :=
  ⟨(Progress.wroteAmong_takeAll (fun _ ha => h.writes_of_mem_writing ha) hwriting).1.named ht,
    hfiled.leadsTo List.mem_cons_self h.isName_runtime⟩

end Job

end IconCompiler
