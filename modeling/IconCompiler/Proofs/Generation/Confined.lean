import IconCompiler.Proofs.Generation.DryRun
import IconCompiler.Proofs.Generation.Stages

/-!
What a run can change, whatever it is ordered to do and wherever it stops: files directly in its
output directory, and directories on the way there. Names of components are valid or have no file,
so no text that names are made of leads out of the directory.
-/

namespace IconCompiler

open FileTree

namespace FileTree

/-- A file is made, written over or removed at a location. -/
def ChangesFile (t t' : FileTree) (l : Location) : Prop :=
  t'.entry? l ≠ t.entry? l ∧ ∃ c, t.entry? l = some (.file c) ∨ t'.entry? l = some (.file c)

/-- Files are changed only in the directory that a path leads to, each under a name of its own
there. Directories are only made, where nothing was, and on the way that the path spells. -/
structure Confined (t t' : FileTree) (out : String) : Prop where
  keepsDirectories : KeepsDirectories t t'
  file : ∀ l, ChangesFile t t' l → ∃ d s, t'.LeadsTo out d ∧ Path.IsName s ∧ l = d ++ [s]
  directory : ∀ l, t'.entry? l = some .directory → t.entry? l ≠ some .directory →
    t.entry? l = none ∧ ∃ ss, ss <+: Path.steps out ∧ l = follow (t.origin out) ss

theorem Confined.refl (t : FileTree) (out : String) : Confined t t out :=
  ⟨.refl t, fun _ h => absurd rfl h.1, fun _ h h' => absurd h h'⟩

/-- The second tree is the first after directories were made on the way to a path, files written
where it leads, and files removed there. -/
structure Reached (t t₀ t' : FileTree) (out : String) (fs : List GeneratedFile)
    (gone : List String) : Prop where
  way : MakesWay t t₀ out
  filed : KeepsDirectories t₀ (t₀.withFiles (t.place out) fs)
  removed : Removed (t₀.withFiles (t.place out) fs) t' (t.place out) gone
  names : ∀ s, s ∈ fs.map (·.fileName) ∨ s ∈ gone → Path.IsName s ∧ t'.LeadsTo out (t.place out)

section

variable {t t₀ t' : FileTree} {out : String} {fs : List GeneratedFile} {gone : List String}

/-- Runs that write the same files last and remove the same ones reach the same entries. -/
theorem Reached.entry?_eq {t'' : FileTree} {gs : List GeneratedFile}
    (h : Reached t t₀ t' out fs gone) (h' : Reached t t₀ t'' out gs gone) {l : Location}
    (hl : ∀ s, l = t.place out ++ [s] → lastNamed gs s = lastNamed fs s) :
    t''.entry? l = t'.entry? l := by
  by_cases hgone : ∃ s ∈ gone, l = t.place out ++ [s]
  · obtain ⟨s, hs, rfl⟩ := hgone
    rw [h.removed.gone s hs, h'.removed.gone s hs]
  · have hkept : ∀ s ∈ gone, l ≠ t.place out ++ [s] := fun s hs e => hgone ⟨s, hs, e⟩
    rw [h.removed.kept l hkept, h'.removed.kept l hkept]
    by_cases hs : ∃ s, l = t.place out ++ [s]
    · obtain ⟨s, rfl⟩ := hs
      rw [entry?_withFiles, entry?_withFiles, hl s rfl]
    · have hne : ∀ s, l ≠ t.place out ++ [s] := fun s e => hs ⟨s, e⟩
      rw [entry?_withFiles_of_ne _ _ _ hne, entry?_withFiles_of_ne _ _ _ hne]

end

end FileTree

namespace Job

variable {j : Job} {v : Variant} {files : List SourceFile} {runtime : GeneratedFile}
  {index : Option GeneratedFile} {w : Writer} {t : FileTree} {p : Progress}
  {outcome : Except WriteError Unit}

/-- Wherever a run stops, it has reached a tree by making directories, writing files of its plan
and removing stale ones. At its end these are all of them. -/
theorem Outline.reached (h : Outline j files v runtime index) (ht : t.ProperlyNamed)
    (hw : w.dryRun = false)
    (hp : (Progress.start t).takeAll w j.config.output (j.plan files).actions = (p, outcome)) :
    ∃ fs gone, Reached t (j.prepared runtime t) p.tree j.config.output fs gone ∧
      (outcome = .ok () → fs = (j.plan files).files ∧
        (∀ s ∈ gone, s ∉ (j.plan files).files.map (·.fileName)) ∧
        p.removed = gone.map (Path.join j.config.output)) := by
  have hway := h.makesWay t
  obtain ⟨taken, f, later, e, htaken, rfl, -, hfiled⟩ | ⟨p₁, hwriting, hfiled, hfinish⟩ :=
    h.stages hw hp
  · -- the run has stopped at a file, so nothing was removed
    have hnames : ∀ f ∈ taken.filterMap Action.file?, Path.IsName f.fileName := by
      intro f hf
      refine h.isName_of_mem_files ?_
      rw [h.files_eq_writing, htaken, List.filterMap_append]
      exact List.mem_append_left _ hf
    refine ⟨_, [], ⟨hway, hfiled.tree ▸ hfiled.keepsDirectories,
      hfiled.tree ▸ Removed.refl _ _, ?_⟩, fun hok => by contradiction⟩
    rintro s (hs | hs)
    · obtain ⟨f, hf, rfl⟩ := List.mem_map.mp hs
      exact ⟨hnames f hf, hfiled.leadsTo hf (hnames f hf)⟩
    · contradiction
  · obtain ⟨hnamed, hd⟩ := h.written ht hwriting hfiled
    obtain ⟨gone, hgone, hremoved, -, houtcome⟩ := finish_steps hw hnamed hd hfinish
    have htree : p₁.tree =
        (j.prepared runtime t).withFiles (t.place j.config.output) (j.plan files).files := by
      rw [h.files_eq_writing]
      exact hfiled.tree
    have hnil : p₁.removed = [] := hfiled.removed
    refine ⟨(j.plan files).files, gone,
      ⟨hway, htree ▸ hfiled.keepsDirectories, htree ▸ hremoved, ?_⟩, fun hok => ⟨rfl, ?_, ?_⟩⟩
    · rintro s (hs | hs)
      · obtain ⟨f, hf, rfl⟩ := List.mem_map.mp hs
        exact ⟨h.isName_of_mem_files hf, hd.keepsDirectories hremoved.keepsDirectories⟩
      · exact ⟨isName_of_mem_staleIn hnamed (hgone.subset hs),
          hd.keepsDirectories hremoved.keepsDirectories⟩
    · exact fun s hs => h.not_written_of_mem_staleIn (hgone.subset hs)
    · obtain ⟨-, -, hall⟩ | ⟨path, cause, he⟩ := houtcome
      · rw [hall, hnil, List.nil_append]
      · rw [hok] at he
        contradiction

end Job

end IconCompiler
