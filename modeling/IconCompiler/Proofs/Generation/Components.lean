import IconCompiler.Proofs.Generation.Plan

/-!
The components of a run. Each is the rendering of a drawing, as the hook before it leaves it, and
its file holds what the hook after it makes of that. A run tells as many successes as there are
components.
-/

namespace IconCompiler

namespace Job

variable {j : Job} {v : Variant} {files : List SourceFile} {done : List CompiledIcon}
  {icon : CompiledIcon}

/-- What a component and its file consist of. -/
theorem renderComponent_of_mem_icons (hv : Registry.builtin.get? j.config.framework = some v)
    (h : icon ∈ (j.verdicts done files).filterMap (·.2.icon?)) :
    icon.file.contents = j.hooks.afterGenerate icon.code icon.name ∧
      ∃ tree, v.renderComponent icon.name j.config.typescript j.config.keepColors tree =
        .ok icon.code := by
  obtain ⟨done', file, hd⟩ := verdict_of_mem_icons h
  obtain ⟨-, -, -, -, hmade, hfile⟩ := compiled_of_verdict hd
  exact ⟨hfile, (compileComponent_eq_ok hv hmade).2⟩

/-! ## The account of the verdicts -/

/-- What is recorded of a drawing, unless it compiled. -/
def failureOf? (e : SourceFile × Verdict) : Option Failure :=
  e.2.failure?.map fun reason => ⟨e.1.fileName, reason⟩

/-- Every verdict counts once, as a success or as a failure that is recorded in its place. -/
theorem ofVerdicts_eq (vs : List (SourceFile × Verdict)) :
    Stats.ofVerdicts vs = ⟨(vs.filterMap (·.2.icon?)).length, (vs.filterMap failureOf?).length,
      vs.length, vs.filterMap failureOf?⟩ := by
  -- the account of those before carries the induction
  have hfold : ∀ s : Stats, vs.foldl (fun s v =>
      v.2.failure?.elim s.recordSuccess (s.recordFailure v.1.fileName)) s =
      ⟨s.success + (vs.filterMap (·.2.icon?)).length,
        s.failed + (vs.filterMap failureOf?).length, s.total + vs.length,
        s.errors ++ vs.filterMap failureOf?⟩ := by
    induction vs with
    | nil => simp
    | cons e vs ih =>
      intro s
      obtain ⟨file, verdict⟩ := e
      rw [List.foldl_cons, ih]
      cases verdict <;>
        simp [List.filterMap_cons, failureOf?, Verdict.failure?, Verdict.icon?,
          Stats.recordFailure, Stats.recordSuccess] <;> omega
  have hsteps : Stats.ofVerdicts vs = vs.foldl (fun s v =>
      v.2.failure?.elim s.recordSuccess (s.recordFailure v.1.fileName)) .empty := by
    unfold Stats.ofVerdicts
    congr 1
    funext s v
    cases v.2.failure? <;> rfl
  rw [hsteps, hfold]
  simp [Stats.empty]

theorem success_ofVerdicts (vs : List (SourceFile × Verdict)) :
    (Stats.ofVerdicts vs).success = (vs.filterMap (·.2.icon?)).length := by
  rw [ofVerdicts_eq]

theorem stats_of_plan {stats : Stats} (h : (j.plan files).result = .ok stats) :
    stats = .ofVerdicts (j.verdicts [] files) := by
  unfold plan planWith at h
  split at h
  · dsimp only at h
    split at h
    · contradiction
    · split at h
      · contradiction
      · exact (Except.ok.inj h).symm
  · contradiction
  · contradiction

end Job

end IconCompiler
