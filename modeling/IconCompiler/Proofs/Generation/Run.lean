import IconCompiler.Generation.Run
import IconCompiler.Proofs.Generation.Plan
import IconCompiler.Proofs.Output.Cleaning

/-!
What a run that comes to its end has done, action by action: the files that it reports hold the
texts that were written, as long as no two of them are one file.
-/

namespace IconCompiler

open FileTree

namespace Progress

variable {w : Writer} {out : String} {p p' : Progress}

/-! ## One action -/

theorem take_call {c : HookCall} (h : p.take w out (.call c) = (p', .ok ())) :
    p' = { p with calls := p.calls ++ [c] } :=
  (Prod.mk.inj h).1.symm

theorem take_write {f : GeneratedFile} (h : p.take w out (.write f) = (p', .ok ())) :
    ∃ o t, w.write p.changes p.tree (Path.join out f.fileName) f.contents = (t, .ok o) ∧
      p' = { p with tree := t, outputs := p.outputs ++ [o] } := by
  simp only [take] at h
  split at h
  · rename_i t o hw
    exact ⟨o, t, hw, (Prod.mk.inj h).1.symm⟩
  · simp at h

theorem take_clean {extension marker : String} {keep : List String}
    (h : p.take w out (.clean extension marker keep) = (p', .ok ())) :
    ∃ paths t, w.removeStale p.changes p.tree out extension marker keep = (t, .ok paths) ∧
      p' = { p with tree := t, removed := p.removed ++ paths } := by
  simp only [take] at h
  split at h
  · rename_i t paths hr
    exact ⟨paths, t, hr, (Prod.mk.inj h).1.symm⟩
  · simp at h

/-! ## Several actions -/

theorem takeAll_cons {a : Action} {as : List Action} :
    p.takeAll w out (a :: as) = (p', .ok ()) ↔
      ∃ p₁, p.take w out a = (p₁, .ok ()) ∧ p₁.takeAll w out as = (p', .ok ()) := by
  rw [takeAll]
  split
  · rename_i p₁ _ hp
    rw [hp]
    exact ⟨fun h => ⟨p₁, rfl, h⟩, fun ⟨p₂, h₂, h⟩ => (Prod.mk.inj h₂).1 ▸ h⟩
  · rename_i p₁ e hp
    rw [hp]
    simp

theorem takeAll_singleton {a : Action} :
    p.takeAll w out [a] = (p', .ok ()) ↔ p.take w out a = (p', .ok ()) := by
  rw [takeAll_cons]
  constructor
  · rintro ⟨p₁, ha, hnil⟩
    exact (Prod.mk.inj hnil).1 ▸ ha
  · exact fun ha => ⟨p', ha, rfl⟩

/-- Actions behind others are taken if none of those fails. -/
theorem takeAll_append_eq (p : Progress) (w : Writer) (out : String) (as bs : List Action) :
    p.takeAll w out (as ++ bs) =
      match p.takeAll w out as with
      | (p, .ok _) => p.takeAll w out bs
      | (p, .error e) => (p, .error e) := by
  induction as generalizing p with
  | nil => rfl
  | cons a as ih =>
    rw [List.cons_append, takeAll, takeAll]
    split
    · exact ih _
    · rfl

theorem takeAll_append {as bs : List Action} :
    p.takeAll w out (as ++ bs) = (p', .ok ()) ↔
      ∃ p₁, p.takeAll w out as = (p₁, .ok ()) ∧ p₁.takeAll w out bs = (p', .ok ()) := by
  rw [takeAll_append_eq]
  split
  · rename_i p₁ _ hp
    rw [hp]
    exact ⟨fun h => ⟨p₁, rfl, h⟩, fun ⟨p₂, h₂, h⟩ => (Prod.mk.inj h₂).1 ▸ h⟩
  · rename_i p₁ e hp
    rw [hp]
    simp

/-- The files that were written are the outputs, in order. -/
theorem outputs_takeAll {as : List Action} (h : p.takeAll w out as = (p', .ok ())) :
    p'.outputs = p.outputs ++ (as.filterMap Action.file?).map fun f =>
      ⟨Path.join out f.fileName, f.contents, !w.dryRun⟩ := by
  induction as generalizing p with
  | nil => simp [(Prod.mk.inj h).1]
  | cons a as ih =>
    obtain ⟨p₁, h₁, h⟩ := takeAll_cons.mp h
    rw [ih h]
    cases a with
    | call c =>
      rw [take_call h₁]
      rfl
    | write f =>
      obtain ⟨o, t, hw, rfl⟩ := take_write h₁
      simp [Action.file?, Writer.output_of_write hw]
    | clean extension marker keep =>
      obtain ⟨paths, t, -, rfl⟩ := take_clean h₁
      rfl

/-! ## Written files -/

/-- Actions before cleaning up: calls, and files whose names a directory can have. -/
def Writes : Action → Prop
  | .call _ => True
  | .write f => Path.IsName f.fileName
  | .clean _ _ _ => False

instance : DecidablePred Writes
  | .call _ => .isTrue trivial
  | .write f => inferInstanceAs (Decidable (Path.IsName f.fileName))
  | .clean _ _ _ => .isFalse id

/-- What holds after every action: no name is out of place, and the outputs, as long as they are
different files, are files of the directory that hold their contents. -/
structure Sound (p : Progress) (out : String) : Prop where
  named : p.tree.ProperlyNamed
  spelled : ∀ o ∈ p.outputs, ∃ s, Path.IsName s ∧ o.path = Path.join out s
  readable : (p.outputs.map (·.path)).Nodup → ∀ o ∈ p.outputs,
    p.tree.readText o.path = .ok o.content

theorem Sound.start {t : FileTree} (ht : t.ProperlyNamed) : (Progress.start t).Sound out :=
  ⟨ht, by simp [Progress.start], by simp [Progress.start]⟩

theorem Sound.write {f : GeneratedFile} (hp : p.Sound out) (hw : w.dryRun = false)
    (hf : Path.IsName f.fileName) (h : p.take w out (.write f) = (p', .ok ())) :
    p'.Sound out := by
  obtain ⟨o, t, hwrite, rfl⟩ := take_write h
  obtain ⟨d, hwrote⟩ := Writer.wrote_of_write hw hf hwrite
  have ho := Writer.output_of_write hwrite
  refine ⟨hwrote.named hp.named, fun x hx => ?_, fun hn x hx => ?_⟩
  · rcases List.mem_append.mp hx with hx | hx
    · exact hp.spelled x hx
    · rw [List.mem_singleton.mp hx, ho]
      exact ⟨_, hf, rfl⟩
  · rw [List.map_append, List.nodup_append] at hn
    obtain ⟨hn, -, hne⟩ := hn
    rcases List.mem_append.mp hx with hx | hx
    · obtain ⟨s, hs, hpath⟩ := hp.spelled x hx
      have hr := hp.readable hn x hx
      -- the paths are told apart, so the names are, and the older file is not the new one
      have hsne : s ≠ f.fileName := by
        rintro rfl
        exact hne x.path (List.mem_map_of_mem hx) o.path (by simp) (by rw [hpath, ho])
      rw [hpath] at hr ⊢
      exact hwrote.readText_of_ne s x.content hs hsne hr
    · rw [List.mem_singleton.mp hx, ho]
      exact hwrote.readText

theorem Sound.takeAll {as : List Action} (hp : p.Sound out) (hw : w.dryRun = false)
    (has : ∀ a ∈ as, Writes a) (h : p.takeAll w out as = (p', .ok ())) : p'.Sound out := by
  induction as generalizing p with
  | nil => exact (Prod.mk.inj h).1 ▸ hp
  | cons a as ih =>
    obtain ⟨p₁, h₁, h⟩ := takeAll_cons.mp h
    have ha := has a List.mem_cons_self
    refine ih ?_ (fun b hb => has b (List.mem_cons_of_mem a hb)) h
    cases a with
    | call c =>
      rw [take_call h₁]
      exact ⟨hp.named, hp.spelled, hp.readable⟩
    | write f => exact hp.write hw ha h₁
    | clean extension marker keep => exact ha.elim

/-- Cleaning up leaves a file alone that is to be kept or has another extension. -/
theorem readText_of_take_clean {extension marker name text : String} {keep : List String}
    (hw : w.dryRun = false) (hp : p.tree.ProperlyNamed) (hname : Path.IsName name)
    (hkeep : name ∈ keep ∨ Path.extension? name ≠ some extension)
    (h : p.take w out (.clean extension marker keep) = (p', .ok ()))
    (hread : p.tree.readText (Path.join out name) = .ok text) :
    p'.tree.readText (Path.join out name) = .ok text := by
  obtain ⟨paths, t, hr, rfl⟩ := take_clean h
  obtain ⟨d, -, hrem⟩ := Writer.removed_of_removeStale hw hp hr
  -- a stale name is not kept and has the extension
  refine hrem.readText name text hname (fun hstale => ?_) hread
  obtain ⟨d', c, _, _, hmark⟩ := (Writer.mem_staleNames _ _ _ _ _ name).mp hstale
  rcases hkeep with hk | he
  · exact hmark.not_kept hk
  · exact he hmark.extension

theorem Sound.clean {extension marker : String} {keep : List String} (hp : p.Sound out)
    (hw : w.dryRun = false)
    (hkeep : ∀ o ∈ p.outputs, ∀ s, o.path = Path.join out s → Path.IsName s →
      s ∈ keep ∨ Path.extension? s ≠ some extension)
    (h : p.take w out (.clean extension marker keep) = (p', .ok ())) :
    (p'.outputs.map (·.path)).Nodup → ∀ o ∈ p'.outputs,
      p'.tree.readText o.path = .ok o.content := by
  have houtputs : p'.outputs = p.outputs := by
    obtain ⟨paths, t, -, rfl⟩ := take_clean h
    rfl
  rw [houtputs]
  intro hn o ho
  have hread := hp.readable hn o ho
  obtain ⟨s, hs, hpath⟩ := hp.spelled o ho
  rw [hpath] at hread ⊢
  exact readText_of_take_clean hw hp.named hs (hkeep o ho s hpath hs) h hread

/-! ## Changed files -/

theorem wroteAmong_takeAll {as : List Action} (has : ∀ a ∈ as, Writes a)
    (h : p.takeAll w out as = (p', .ok ())) :
    WroteAmong p.tree p'.tree out ((as.filterMap Action.file?).map (·.fileName)) ∧
      p'.removed = p.removed := by
  induction as generalizing p with
  | nil =>
    obtain rfl := (Prod.mk.inj h).1
    exact ⟨.refl _ _ _, rfl⟩
  | cons a as ih =>
    obtain ⟨p₁, h₁, h⟩ := takeAll_cons.mp h
    have ha := has a List.mem_cons_self
    obtain ⟨htree, hremoved⟩ := ih (fun b hb => has b (List.mem_cons_of_mem a hb)) h
    cases a with
    | call c =>
      rw [take_call h₁] at htree hremoved
      exact ⟨htree, hremoved⟩
    | write f =>
      obtain ⟨o, t, hwrite, rfl⟩ := take_write h₁
      refine ⟨?_, hremoved⟩
      cases hw : w.dryRun with
      | true =>
        -- nothing was written, which leaves fewer names than are listed
        have ht : p.tree = t := by
          simp only [Writer.write, hw, if_true] at hwrite
          exact (Prod.mk.inj hwrite).1
        rw [ht]
        exact ⟨htree.keepsDirectories,
          fun d s c hd hs => htree.file d s c hd fun hm => hs (List.mem_cons_of_mem _ hm),
          htree.keeps, htree.named⟩
      | false =>
        obtain ⟨d, hwrote⟩ := Writer.wrote_of_write hw ha hwrite
        exact hwrote.trans_wroteAmong htree
    | clean extension marker keep => exact ha.elim

/-- The first file is written to the directory that the path leads to from then on. -/
theorem exists_directory {f : GeneratedFile} {as : List Action} (hw : w.dryRun = false)
    (hf : Path.IsName f.fileName) (has : ∀ a ∈ as, Writes a)
    (h : p.takeAll w out (.write f :: as) = (p', .ok ())) :
    ∃ d, p'.tree.LeadsTo out d ∧ (out ≠ "" → p'.tree.LocatesDirectory out d) := by
  obtain ⟨p₁, h₁, h₂⟩ := takeAll_cons.mp h
  obtain ⟨o, t, hwrite, rfl⟩ := take_write h₁
  obtain ⟨d, hwrote⟩ := Writer.wrote_of_write hw hf hwrite
  have hd := hwrote.leadsTo.keepsDirectories (wroteAmong_takeAll has h₂).1.keepsDirectories
  have hfault := ((locate_join t out f.fileName _ hf).mp hwrote.locate).1
  exact ⟨d, hd, fun hne => hd.locatesDirectory (fault?_eq_none_of_join hf hfault hne)⟩

/-- A dry run leaves the files of a clean-up alone; any other one removes them. -/
theorem take_clean_tree {extension mark : String} {keep : List String}
    (hp : p.tree.ProperlyNamed)
    (h : p.take w out (.clean extension mark keep) = (p', .ok ())) :
    p'.removed = p.removed ++
        (Writer.staleNames p.tree out extension mark keep).map (Path.join out) ∧
      (∀ d, p'.tree.LocatesDirectory out d ↔ p.tree.LocatesDirectory out d) ∧
      (w.dryRun = false → ∀ l, p'.tree.entry? l = none ↔ p.tree.entry? l = none ∨
        ∃ d s, p.tree.LocatesDirectory out d ∧ l = d ++ [s] ∧
          s ∈ Writer.staleNames p.tree out extension mark keep) := by
  obtain ⟨paths, t, hr, rfl⟩ := take_clean h
  refine ⟨congrArg _ (Writer.paths_of_removeStale hr), ?_⟩
  cases hw : w.dryRun with
  | true =>
    simp only [Writer.removeStale, hw, if_true] at hr
    obtain rfl := (Prod.mk.inj hr).1
    exact ⟨fun _ => Iff.rfl, fun h => by contradiction⟩
  | false =>
    obtain ⟨d, hd, hrem⟩ := Writer.removed_of_removeStale hw hp hr
    refine ⟨fun _ => hrem.locatesDirectory, fun _ l => ?_⟩
    rw [hrem.entry?_eq_none_iff]
    constructor
    · intro hl
      exact hl.imp_right fun ⟨s, hs, e⟩ => ⟨d, s, hd (List.ne_nil_of_mem hs), e, hs⟩
    · intro hl
      refine hl.imp_right fun ⟨d', s, hd', e, hs⟩ => ⟨s, hs, ?_⟩
      rw [e, (hd (List.ne_nil_of_mem hs)).unique hd']

end Progress

namespace Job

section

variable {j : Job} {w : Writer} {t : FileTree} {files : List SourceFile} {p : Progress}

theorem tree_of_takeAll {outcome : Except WriteError Unit}
    (hp : (Progress.start t).takeAll w j.config.output (j.plan files).actions = (p, outcome)) :
    (j.run w t files).tree = p.tree := by
  simp only [run, hp]

theorem run_of_finished {stats : Stats}
    (hp : (Progress.start t).takeAll w j.config.output (j.plan files).actions = (p, .ok ()))
    (hresult : (j.plan files).result = .ok stats) :
    j.run w t files = ⟨p.tree, p.calls, .ok ⟨stats, p.outputs, p.removed⟩⟩ := by
  simp only [run, hp, hresult, bind, Except.bind, mapError_ok, pure, Except.pure]

/-- A run that has taken all its actions fails where its plan does. -/
theorem run_of_broken {e : CompileError}
    (hp : (Progress.start t).takeAll w j.config.output (j.plan files).actions = (p, .ok ()))
    (hresult : (j.plan files).result = .error e) :
    j.run w t files = ⟨p.tree, p.calls, .error (.generate e)⟩ := by
  simp only [run, hp, hresult, bind, Except.bind, mapError_ok, mapError_error]

theorem run_of_stopped {e : WriteError}
    (hp : (Progress.start t).takeAll w j.config.output (j.plan files).actions = (p, .error e)) :
    j.run w t files = ⟨p.tree, p.calls, .error (.write e)⟩ := by
  simp only [run, hp, bind, Except.bind, mapError_error]

/-- What a run that comes to its end has done. -/
theorem run_eq_ok {report : GenerationReport} (h : (j.run w t files).report = .ok report) :
    ∃ p stats, (Progress.start t).takeAll w j.config.output (j.plan files).actions = (p, .ok ()) ∧
      (j.plan files).result = .ok stats ∧ report = ⟨stats, p.outputs, p.removed⟩ ∧
      (j.run w t files).tree = p.tree := by
  cases hp : (Progress.start t).takeAll w j.config.output (j.plan files).actions with
  | mk p taken =>
    cases taken with
    | error e =>
      rw [run_of_stopped hp] at h
      contradiction
    | ok =>
      cases hresult : (j.plan files).result with
      | error e =>
        rw [run_of_broken hp hresult] at h
        contradiction
      | ok stats =>
        rw [run_of_finished hp hresult] at h
        exact ⟨p, stats, rfl, rfl, (Except.ok.inj h).symm, tree_of_takeAll hp⟩

/-- A run that fails to write or to remove a file has stopped at one of its actions. -/
theorem run_eq_error {e : WriteError} (h : (j.run w t files).report = .error (.write e)) :
    ∃ p, (Progress.start t).takeAll w j.config.output (j.plan files).actions = (p, .error e) := by
  cases hp : (Progress.start t).takeAll w j.config.output (j.plan files).actions with
  | mk p taken =>
    cases taken with
    | error e' =>
      rw [run_of_stopped hp] at h
      obtain rfl := RunError.write.inj (Except.error.inj h)
      exact ⟨p, rfl⟩
    | ok =>
      cases hresult : (j.plan files).result with
      | error e' =>
        rw [run_of_broken hp hresult] at h
        cases h
      | ok stats =>
        rw [run_of_finished hp hresult] at h
        contradiction

end

/-- A run that comes to its end if the files of these names are the stale ones. -/
theorem run_of_staleNames (j : Job) (w : Writer) (t : FileTree) (files : List SourceFile)
    {writes : List Action} {extension mark : String} {keep names : List String} {stats : Stats}
    {p : Progress}
    (hactions : (j.plan files).actions =
      writes ++ [.clean extension mark keep, .call (.complete stats)])
    (hresult : (j.plan files).result = .ok stats) (hw : w.dryRun = false)
    (hp : ((Progress.start t).takeAll w j.config.output writes).1 = p)
    (hwrites : ((Progress.start t).takeAll w j.config.output writes).2 = .ok ())
    (hstale : Writer.staleNames p.tree j.config.output extension mark keep = names)
    (hremove : (w.removeAll p.changes p.tree (names.map (Path.join j.config.output))).2 = .ok ()) :
    (j.run w t files).report =
        .ok ⟨stats, p.outputs, p.removed ++ names.map (Path.join j.config.output)⟩ ∧
      (j.run w t files).tree =
        (w.removeAll p.changes p.tree (names.map (Path.join j.config.output))).1 := by
  obtain ⟨t', hr⟩ : ∃ t', w.removeAll p.changes p.tree
      (names.map (Path.join j.config.output)) = (t', .ok ()) := ⟨_, Prod.ext rfl hremove⟩
  have hclosing : p.takeAll w j.config.output
      [.clean extension mark keep, .call (.complete stats)] =
      (⟨t', p.calls ++ [.complete stats], p.outputs,
        p.removed ++ names.map (Path.join j.config.output)⟩, .ok ()) := by
    simp only [Progress.takeAll, Progress.take, Writer.removeStale, hw, Bool.false_eq_true,
      if_false, hstale, hr, Except.map]
  have hall := Progress.takeAll_append.mpr ⟨p, Prod.ext hp hwrites, hclosing⟩
  rw [← hactions] at hall
  rw [run_of_finished hall hresult, hr]
  exact ⟨rfl, rfl⟩

/-- The same run, where the directory that it cleans up lists its files in order. -/
theorem run_of_children (j : Job) (w : Writer) (t : FileTree) (files : List SourceFile) (n : Nat)
    (d : Location) (names : List String) {extension mark : String} {keep : List String}
    {stats : Stats} {p : Progress}
    (hclosing : (j.plan files).actions.drop n =
      [.clean extension mark keep, .call (.complete stats)])
    (hresult : (j.plan files).result = .ok stats) (hw : w.dryRun = false)
    (hp : ((Progress.start t).takeAll w j.config.output ((j.plan files).actions.take n)).1 = p)
    (hwrites :
      ((Progress.start t).takeAll w j.config.output ((j.plan files).actions.take n)).2 = .ok ())
    (hd : p.tree.LocatesDirectory j.config.output d)
    (hsorted : (p.tree.children d).Pairwise fun a b => (!decide (b.1 < a.1)) = true)
    (hnames : ((p.tree.children d).filter (Writer.isStale extension mark keep)).map Prod.fst =
      names)
    (hremove : (w.removeAll p.changes p.tree (names.map (Path.join j.config.output))).2 = .ok ()) :
    (j.run w t files).report =
        .ok ⟨stats, p.outputs, p.removed ++ names.map (Path.join j.config.output)⟩ ∧
      (j.run w t files).tree =
        (w.removeAll p.changes p.tree (names.map (Path.join j.config.output))).1 := by
  have hactions := List.take_append_drop n (j.plan files).actions
  rw [hclosing] at hactions
  exact run_of_staleNames j w t files hactions.symm hresult hw hp hwrites
    ((Writer.staleNames_of_pairwise hd hsorted).trans hnames) hremove

theorem exists_report_of_isSome {r : RunResult} (h : r.report.toOption.isSome = true) :
    ∃ report, r.report = .ok report :=
  exists_eq_ok_of_isSome h

end Job

end IconCompiler
