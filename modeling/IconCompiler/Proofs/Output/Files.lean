import IconCompiler.Proofs.FileTree.Way
import IconCompiler.Proofs.Output.Writing
import IconCompiler.Variant.Basic
import Mathlib.Data.List.Nodup

/-!
Files that are put into one directory, in order. Of files with one name the last is left, and a tree
that has what is left of them is no other once they are put into it again. A write makes the way to
its directory, and makes none where the path leads to one.
-/

namespace IconCompiler

namespace FileTree

/-- The tree with files put into a directory one after the other. -/
def withFiles (t : FileTree) (d : Location) (fs : List GeneratedFile) : FileTree :=
  fs.foldl (fun t f => t.put (d ++ [f.fileName]) (.file f.contents.toUTF8)) t

theorem workingDirectory_withFiles (t : FileTree) (d : Location) (fs : List GeneratedFile) :
    (t.withFiles d fs).workingDirectory = t.workingDirectory := by
  induction fs generalizing t with
  | nil => rfl
  | cons f fs ih => exact ih _

/-- The last of files with a name. -/
def lastNamed (fs : List GeneratedFile) (s : String) : Option GeneratedFile :=
  fs.reverse.find? (·.fileName = s)

theorem lastNamed_cons (f : GeneratedFile) (fs : List GeneratedFile) (s : String) :
    lastNamed (f :: fs) s = (lastNamed fs s).or (if f.fileName = s then some f else none) := by
  rw [lastNamed, List.reverse_cons, List.find?_append]
  by_cases h : f.fileName = s <;> simp [h, lastNamed]

theorem lastNamed_eq_none_iff {fs : List GeneratedFile} {s : String} :
    lastNamed fs s = none ↔ s ∉ fs.map (·.fileName) := by
  simp [lastNamed]

theorem of_lastNamed {fs : List GeneratedFile} {s : String} {f : GeneratedFile}
    (h : lastNamed fs s = some f) : f ∈ fs ∧ f.fileName = s := by
  rw [lastNamed] at h
  exact ⟨List.mem_reverse.mp (List.mem_of_find?_eq_some h), by simpa using List.find?_some h⟩

theorem exists_lastNamed {fs : List GeneratedFile} {f : GeneratedFile} (hf : f ∈ fs) :
    ∃ g, lastNamed fs f.fileName = some g :=
  Option.ne_none_iff_exists'.mp fun hnone =>
    lastNamed_eq_none_iff.mp hnone (List.mem_map_of_mem hf)

theorem lastNamed_append (fs gs : List GeneratedFile) (s : String) :
    lastNamed (fs ++ gs) s = (lastNamed gs s).or (lastNamed fs s) := by
  rw [lastNamed, List.reverse_append, List.find?_append]
  rfl

/-- Where no two files have one name, the order is no matter. -/
theorem lastNamed_eq_some_iff {fs : List GeneratedFile} {s : String} {f : GeneratedFile}
    (hn : (fs.map (·.fileName)).Nodup) : lastNamed fs s = some f ↔ f ∈ fs ∧ f.fileName = s := by
  refine ⟨of_lastNamed, ?_⟩
  rintro ⟨hf, rfl⟩
  obtain ⟨g, hg⟩ := exists_lastNamed hf
  obtain ⟨hmem, hname⟩ := of_lastNamed hg
  rw [hg, List.inj_on_of_nodup_map hn hmem hf hname]

theorem lastNamed_perm {fs gs : List GeneratedFile} (h : fs.Perm gs)
    (hn : (fs.map (·.fileName)).Nodup) (s : String) : lastNamed fs s = lastNamed gs s := by
  refine Option.ext fun f => ?_
  rw [lastNamed_eq_some_iff hn, lastNamed_eq_some_iff ((h.map _).nodup_iff.mp hn), h.mem_iff]

section

variable (t : FileTree) (d : Location) (fs : List GeneratedFile)

theorem get?_withFiles (s : String) :
    (t.withFiles d fs).entries.get? (d ++ [s]) =
      (lastNamed fs s).elim (t.entries.get? (d ++ [s])) fun f =>
        some (.file f.contents.toUTF8) := by
  induction fs generalizing t with
  | nil => rfl
  | cons f fs ih =>
    rw [withFiles, List.foldl_cons, ← withFiles, ih, lastNamed_cons, put, Table.get?_put]
    cases lastNamed fs s with
    | some g => rfl
    | none =>
      by_cases h : f.fileName = s
      · simp [h]
      · have hne : d ++ [s] ≠ d ++ [f.fileName] := fun e => h (name_inj e).symm
        simp [h, hne]

theorem get?_withFiles_of_ne {l : Location} (h : ∀ s, l ≠ d ++ [s]) :
    (t.withFiles d fs).entries.get? l = t.entries.get? l := by
  induction fs generalizing t with
  | nil => rfl
  | cons f fs ih =>
    rw [withFiles, List.foldl_cons, ← withFiles, ih]
    exact (Table.get?_put _ _ _ _).trans (if_neg (h f.fileName))

/-- The file of a name is the last one that was put there under it. -/
theorem entry?_withFiles (s : String) :
    FileTree.entry? (t.withFiles d fs) (d ++ [s]) =
      (lastNamed fs s).elim (t.entry? (d ++ [s])) fun f => some (.file f.contents.toUTF8) := by
  simp only [entry?_append_singleton, get?_withFiles]

theorem entry?_withFiles_of_ne {l : Location} (h : ∀ s, l ≠ d ++ [s]) :
    FileTree.entry? (t.withFiles d fs) l = t.entry? l := by
  simp only [ entry?, get?_withFiles_of_ne t d fs h]

end

/-- What is at every location, which may be one in the directory. -/
theorem entry?_withFiles_cases (t : FileTree) (d l : Location) (fs : List GeneratedFile) :
    (∃ f ∈ fs, l = d ++ [f.fileName] ∧
      FileTree.entry? (t.withFiles d fs) l = some (.file f.contents.toUTF8)) ∨
    (∀ f ∈ fs, l ≠ d ++ [f.fileName]) ∧ FileTree.entry? (t.withFiles d fs) l = t.entry? l := by
  by_cases hl : ∃ s, l = d ++ [s]
  · obtain ⟨s, rfl⟩ := hl
    rw [entry?_withFiles]
    cases h : lastNamed fs s with
    | some f =>
      obtain ⟨hf, rfl⟩ := of_lastNamed h
      exact Or.inl ⟨f, hf, rfl, rfl⟩
    | none =>
      refine Or.inr ⟨fun f hf e => lastNamed_eq_none_iff.mp h ?_, rfl⟩
      exact name_inj e ▸ List.mem_map_of_mem hf
  · exact Or.inr ⟨fun f _ e => hl ⟨_, e⟩, entry?_withFiles_of_ne t d fs fun s e => hl ⟨s, e⟩⟩

theorem keys_withFiles_of_mem {t : FileTree} {d : Location} {fs : List GeneratedFile}
    (h : ∀ f ∈ fs, d ++ [f.fileName] ∈ t.entries.keys) :
    (t.withFiles d fs).entries.keys = t.entries.keys := by
  induction fs generalizing t with
  | nil => rfl
  | cons f fs ih =>
    have hkeys : (t.entries.put (d ++ [f.fileName]) (.file f.contents.toUTF8)).keys =
        t.entries.keys := Table.keys_put_of_mem _ (h f List.mem_cons_self)
    rw [withFiles, List.foldl_cons, ← withFiles, ih fun g hg => ?_]
    · exact hkeys
    · exact hkeys ▸ h g (List.mem_cons_of_mem f hg)

/-- A tree that has what is left of the files is not changed by them. -/
theorem withFiles_eq_self {t : FileTree} {d : Location} {fs : List GeneratedFile}
    (h : ∀ f ∈ fs, t.entry? (d ++ [f.fileName]) =
      (lastNamed fs f.fileName).map fun g => .file g.contents.toUTF8) :
    t.withFiles d fs = t := by
  have hlast : ∀ s f, lastNamed fs s = some f →
      t.entries.get? (d ++ [s]) = some (.file f.contents.toUTF8) := by
    intro s f hs
    obtain ⟨hf, rfl⟩ := of_lastNamed hs
    rw [← entry?_append_singleton, h f hf, hs]
    rfl
  have hkeys : ∀ f ∈ fs, d ++ [f.fileName] ∈ t.entries.keys := by
    intro f hf
    obtain ⟨g, hg⟩ := exists_lastNamed hf
    rw [← Table.get?_isSome_iff, hlast _ g hg]
    rfl
  -- both trees have the same keys in the same order, and the same entry under each
  have hentries : (t.withFiles d fs).entries = t.entries := by
    refine Table.ext_get? (keys_withFiles_of_mem hkeys) fun l => ?_
    by_cases hl : ∃ s, l = d ++ [s]
    · obtain ⟨s, rfl⟩ := hl
      rw [get?_withFiles]
      cases hs : lastNamed fs s with
      | some f => exact (hlast s f hs).symm
      | none => rfl
    · exact get?_withFiles_of_ne t d fs fun s e => hl ⟨s, e⟩
  have hdirectory := workingDirectory_withFiles t d fs
  cases t
  exact (mk.injEq ..).mpr ⟨hentries, hdirectory⟩

end FileTree

namespace Writer

open FileTree

variable {w : Writer} {changes : Nat} {t t' : FileTree} {out s text : String} {d : Location}

theorem prepare_makesWay (t : FileTree) (out : String) (hs : Path.IsName s) :
    MakesWay t (prepare t (Path.join out s)).1 out := by
  obtain ⟨up, points, hup, hsteps, -, habs, -⟩ := Path.exists_parent?_join out s hs
  refine ⟨prepare_addsDirectories t _, fun l hl => ?_⟩
  simp only [prepare, hup] at hl
  split at hl
  · exact absurd rfl hl
  · unfold makeDirectories at hl
    split at hl
    · exact absurd rfl hl
    · split at hl
      · exact absurd rfl hl
      · obtain ⟨front, hfront, rfl⟩ := follow_of_makeAlong hl
        have horigin : t.origin up = t.origin out := by rw [origin, habs]; rfl
        rw [horigin, hsteps]
        exact ⟨front, hfront.trans (List.prefix_append _ _), rfl⟩

/-- Nothing is made where the path leads to a directory. -/
theorem prepare_of_leadsTo (hs : Path.IsName s) (hd : t.LeadsTo out d) :
    (prepare t (Path.join out s)).1 = t ∧
      (fault? (Path.join out s) = none → (prepare t (Path.join out s)).2 = .ok ()) := by
  obtain ⟨up, points, hup, hsteps, hpoints, habs, rest, hrest⟩ := Path.exists_parent?_join out s hs
  have hdup := hd.of_points hsteps hpoints habs
  simp only [prepare, hup]
  split
  · exact ⟨rfl, fun _ => rfl⟩
  · rename_i hmissing
    rw [Bool.or_eq_true, String.isEmpty_iff, not_or, Bool.not_eq_true] at hmissing
    obtain ⟨hne, hmissing⟩ := hmissing
    cases hfault : fault? up with
    | some e =>
      have hne' : up.isEmpty = false := by simpa [String.isEmpty_iff] using hne
      refine ⟨by simp [makeDirectories, hne', hfault], fun hnone => ?_⟩
      rw [fault?_eq_none_of_append (hrest ▸ hnone) hne] at hfault
      contradiction
    | none =>
      -- the directory is found, so there was nothing to be made
      obtain ⟨hlocate, hdir⟩ := hdup.locatesDirectory hfault
      simp [pathExists, find, hlocate, hdir, bind, Except.bind, pure, Except.pure,
        Except.toOption] at hmissing

/-- A write succeeds where there is a place for its file. -/
theorem write_of_placeForFile (hw : w.dryRun = false) (hs : Path.IsName s)
    (hrefuses : w.refuses changes = none) (hd : t.LeadsTo out d)
    (hplace : t.placeForFile (Path.join out s) = .ok (d ++ [s])) :
    w.write changes t (Path.join out s) text =
      (t.put (d ++ [s]) (.file text.toUTF8), .ok ⟨Path.join out s, text, true⟩) := by
  obtain ⟨hlocate, -⟩ := (placeForFile_join _ _ _ _ hs).mp hplace
  have hfault := ((locate_join _ _ _ _ hs).mp hlocate).1
  obtain ⟨htree, hmade⟩ := prepare_of_leadsTo hs hd
  have hprepare : prepare t (Path.join out s) = (t, .ok ()) := Prod.ext htree (hmade hfault)
  have htext := (writeText_eq_ok_iff t _ _ text).mpr ⟨_, hplace, rfl⟩
  simp only [write, hw, hprepare, attempt_eq_ok_iff.mpr ⟨hrefuses, htext⟩, Bool.false_eq_true,
    if_false]

end Writer

end IconCompiler
