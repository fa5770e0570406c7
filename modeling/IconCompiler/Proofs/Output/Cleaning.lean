import IconCompiler.Proofs.Output.Writing

/-!
What cleaning up does to a file tree: the stale files of a directory go, and all other files stay as
they are. A clean-up that fails has removed stale files and no others.
-/

namespace IconCompiler

namespace FileTree

theorem removeFile_eq_ok_iff (t t' : FileTree) (path : String) :
    t.removeFile path = .ok t' ↔ ∃ l c, t.locate path = .ok l ∧
      t.entry? l = some (.file c) ∧ t' = { t with entries := t.entries.remove l } := by
  unfold removeFile
  cases t.locate path with
  | error e => simp [bind, Except.bind]
  | ok l =>
    cases he : t.entry? l with
    | none => simp [bind, Except.bind, he]
    | some e =>
      cases e with
      | directory => simp [bind, Except.bind, he]
      | file c => simp [bind, Except.bind, pure, Except.pure, he, eq_comm]

theorem entry?_remove (t : FileTree) (l x : Location) (hl : l ≠ []) :
    FileTree.entry? { t with entries := t.entries.remove l } x =
      if x = l then none else t.entry? x := by
  by_cases hx : x = []
  · subst hx
    simp [ entry?, hl.symm]
  · simp [ entry?, hx, Table.get?_remove]

/-- The second tree is the first without files of these names in a directory. -/
structure Removed (t t' : FileTree) (d : Location) (names : List String) : Prop where
  workingDirectory : t'.workingDirectory = t.workingDirectory
  file : ∀ s ∈ names, ∃ c, t.entry? (d ++ [s]) = some (.file c)
  gone : ∀ s ∈ names, t'.entry? (d ++ [s]) = none
  kept : ∀ l, (∀ s ∈ names, l ≠ d ++ [s]) → t'.entry? l = t.entry? l

theorem Removed.refl (t : FileTree) (d : Location) : Removed t t d [] :=
  ⟨rfl, by simp, by simp, fun _ _ => rfl⟩

theorem Removed.keepsDirectories {t t' : FileTree} {d : Location} {names : List String}
    (h : Removed t t' d names) : KeepsDirectories t t' := by
  refine ⟨h.workingDirectory, fun l hl => ?_⟩
  rw [h.kept l fun s hs e => ?_, hl]
  obtain ⟨c, hc⟩ := h.file s hs
  rw [e, hc] at hl
  simp at hl

theorem Removed.entry?_eq_none_iff {t t' : FileTree} {d : Location} {names : List String}
    (h : Removed t t' d names) (l : Location) :
    t'.entry? l = none ↔ t.entry? l = none ∨ ∃ s ∈ names, l = d ++ [s] := by
  by_cases hs : ∃ s ∈ names, l = d ++ [s]
  · obtain ⟨s, hs, rfl⟩ := hs
    exact ⟨fun _ => Or.inr ⟨s, hs, rfl⟩, fun _ => h.gone s hs⟩
  · rw [h.kept l fun s hm e => hs ⟨s, hm, e⟩]
    exact ⟨Or.inl, fun hl => hl.resolve_right hs⟩

/-- What is left is as it was. -/
theorem Removed.entry?_of_some {t t' : FileTree} {d l : Location} {names : List String} {e : Entry}
    (h : Removed t t' d names) (he : t'.entry? l = some e) : t.entry? l = some e := by
  rw [← he, eq_comm]
  apply h.kept l
  rintro s hs rfl
  rw [h.gone s hs] at he
  contradiction

theorem Removed.readText {t t' : FileTree} {out : String} {d : Location} {names : List String}
    (h : Removed t t' d names) (x text : String) (hx : Path.IsName x) (hn : x ∉ names)
    (hr : t.readText (Path.join out x) = .ok text) :
    t'.readText (Path.join out x) = .ok text := by
  obtain ⟨l, c, hl, he, hc⟩ := (readText_eq_ok_iff t _ _).mp hr
  obtain ⟨-, d', hd', -, rfl⟩ := (locate_join t out x l hx).mp hl
  refine (readText_eq_ok_iff t' _ _).mpr
    ⟨_, c, locate_keepsDirectories h.keepsDirectories hl, ?_, hc⟩
  rw [h.kept _ fun s hs e => hn ?_, he]
  exact name_inj e ▸ hs

theorem Removed.locatesDirectory {t t' : FileTree} {d l : Location} {names : List String}
    {path : String} (h : Removed t t' d names) :
    t'.LocatesDirectory path l ↔ t.LocatesDirectory path l := by
  refine ⟨fun hl => hl.keepsDirectories ⟨h.workingDirectory.symm, fun x hx => ?_⟩,
    fun hl => hl.keepsDirectories h.keepsDirectories⟩
  rw [← h.kept x fun s hs e => ?_, hx]
  rw [e, h.gone s hs] at hx
  contradiction

theorem ProperlyNamed.removed {t t' : FileTree} {d : Location} {names : List String}
    (ht : t.ProperlyNamed) (h : Removed t t' d names) : t'.ProperlyNamed := by
  refine ⟨fun s hs => ht.workingDirectory s (h.workingDirectory ▸ hs), fun l hl => ?_⟩
  cases l with
  | nil => simp
  | cons x xs =>
    have hentry : ∀ t : FileTree, t.entry? (x :: xs) = t.entries.get? (x :: xs) := fun t => by
      simp [ entry?]
    refine ht.entries _ ?_
    rw [← Table.get?_isSome_iff, ← hentry, Option.isSome_iff_ne_none] at hl ⊢
    exact fun hnone => hl ((h.entry?_eq_none_iff _).mpr (Or.inl hnone))

end FileTree

namespace Writer

open FileTree

theorem removed_cons {t t' t'' : FileTree} {d : Location} {s : String} {names : List String}
    {c : ByteArray} (hs : s ∉ names) (hc : t.entry? (d ++ [s]) = some (.file c))
    (he : t' = { t with entries := t.entries.remove (d ++ [s]) })
    (h : Removed t' t'' d names) : Removed t t'' d (s :: names) := by
  have hne : d ++ [s] ≠ [] := by simp
  have hr : ∀ x, t'.entry? x = if x = d ++ [s] then none else t.entry? x := fun x => by
    rw [he, entry?_remove t _ x hne]
  have hout : ∀ x, (∀ y ∈ names, x ≠ d ++ [y]) → t''.entry? x = t'.entry? x := h.kept
  -- the first name is none of the others, so their removal does not look at its entry
  refine ⟨h.workingDirectory.trans (by rw [he]), ?_, ?_, ?_⟩
  · intro x hx
    rcases List.mem_cons.mp hx with rfl | hx
    · exact ⟨c, hc⟩
    · obtain ⟨c', hc'⟩ := h.file x hx
      have hne : d ++ [x] ≠ d ++ [s] := fun e => hs (name_inj e ▸ hx)
      rw [hr, if_neg hne] at hc'
      exact ⟨c', hc'⟩
  · intro x hx
    rcases List.mem_cons.mp hx with rfl | hx
    · rw [hout _ fun y hy e => hs ?_, hr, if_pos rfl]
      exact name_inj e ▸ hy
    · exact h.gone x hx
  · intro x hx
    rw [hout x fun y hy => hx y (List.mem_cons_of_mem s hy), hr,
      if_neg (hx s List.mem_cons_self)]

/-- However far it comes, the removal of files takes those at the front of the list, and all of
them if it comes to its end. -/
theorem exists_removed_of_removeAll {w : Writer} {changes : Nat} {t t' : FileTree} {out : String}
    {d : Location} {names : List String} {outcome : Except WriteError Unit}
    (h : w.removeAll changes t (names.map (Path.join out)) = (t', outcome))
    (hd : names ≠ [] → t.LeadsTo out d) (hn : names.Nodup) (hs : ∀ s ∈ names, Path.IsName s) :
    ∃ gone, gone <+: names ∧ Removed t t' d gone ∧ (outcome = .ok () → gone = names) := by
  induction names generalizing t changes with
  | nil =>
    obtain ⟨rfl, -⟩ := Prod.mk.inj h
    exact ⟨[], List.prefix_refl [], .refl t d, fun _ => rfl⟩
  | cons s names ih =>
    obtain ⟨hs₁, hn⟩ := List.nodup_cons.mp hn
    have hname := hs s List.mem_cons_self
    simp only [List.map_cons, removeAll] at h
    split at h
    · rename_i t₁ hc
      obtain ⟨l, c, hl, hc, he⟩ := (removeFile_eq_ok_iff t t₁ _).mp (attempt_eq_ok_iff.mp hc).2
      obtain ⟨-, d', hd', -, rfl⟩ := (locate_join t out s l hname).mp hl
      obtain rfl := (hd (List.cons_ne_nil s names)).unique hd'
      -- `out` leads to the same directory once the first file is gone
      have hone : Removed t t₁ d' [s] := removed_cons List.not_mem_nil hc he (.refl t₁ d')
      obtain ⟨gone, hgone, hremoved, hall⟩ := ih h
        (fun _ => hd'.keepsDirectories hone.keepsDirectories) hn
        fun x hx => hs x (List.mem_cons_of_mem s hx)
      exact ⟨s :: gone, List.cons_prefix_cons.mpr ⟨rfl, hgone⟩,
        removed_cons (fun hm => hs₁ (hgone.subset hm)) hc he hremoved,
        fun ho => by rw [hall ho]⟩
    · obtain ⟨rfl, ho⟩ := Prod.mk.inj h
      refine ⟨[], List.nil_prefix, .refl t d, fun hok => ?_⟩
      rw [← ho] at hok
      contradiction

/-- A clean-up fails only where a file cannot be removed. -/
theorem error_of_removeAll {w : Writer} {changes : Nat} {t : FileTree} {paths : List String}
    {e : WriteError} (h : (w.removeAll changes t paths).2 = .error e) :
    ∃ path cause, e = .removeFile path cause := by
  induction paths generalizing changes t with
  | nil => contradiction
  | cons path paths ih =>
    rw [removeAll] at h
    split at h
    · exact ih h
    · rename_i cause _
      exact ⟨path, cause, (Except.error.inj h).symm⟩

/-! ## Stale files -/

theorem nodup_staleNames (t : FileTree) (directory extension marker : String)
    (keep : List String) : (staleNames t directory extension marker keep).Nodup := by
  unfold staleNames
  split
  · exact (nodup_list t directory).sublist (List.filter_sublist.map Prod.fst)
  · exact List.nodup_nil

theorem pairwise_staleNames (t : FileTree) (directory extension marker : String)
    (keep : List String) : (staleNames t directory extension marker keep).Pairwise (· ≤ ·) := by
  unfold staleNames
  split
  · exact List.pairwise_map.mpr ((pairwise_list t directory).sublist List.filter_sublist)
  · exact .nil

/-- Stale files are told in one order, so which they are says how they are told. -/
theorem staleNames_ext {t t' : FileTree} {directory extension marker : String}
    {keep keep' : List String} (h : ∀ s, s ∈ staleNames t directory extension marker keep ↔
      s ∈ staleNames t' directory extension marker keep') :
    staleNames t directory extension marker keep =
      staleNames t' directory extension marker keep' := by
  have hperm := (List.perm_ext_iff_of_nodup (nodup_staleNames t _ _ _ _)
    (nodup_staleNames t' _ _ _ _)).mpr h
  exact hperm.eq_of_pairwise (fun _ _ _ _ => String.le_antisymm) (pairwise_staleNames t _ _ _ _)
    (pairwise_staleNames t' _ _ _ _)

/-- What makes a file stale: its extension, a name that is not to be kept, and the marker in its
text. -/
structure IsStale (extension marker : String) (keep : List String) (s : String)
    (contents : ByteArray) : Prop where
  extension : Path.extension? s = some extension
  not_kept : s ∉ keep
  marked : ∃ text, String.fromUTF8? contents = some text ∧
    Text.contains marker.toList text.toList = true

theorem isStale_iff (extension marker : String) (keep : List String) (s : String) (e : Entry) :
    isStale extension marker keep (s, e) = true ↔
      ∃ c, e = .file c ∧ IsStale extension marker keep s c := by
  cases e with
  | directory => simp [isStale]
  | file c =>
    simp only [isStale, Bool.and_eq_true, beq_iff_eq, Bool.not_eq_true', Entry.file.injEq]
    cases hc : String.fromUTF8? c with
    | none =>
      simp only [Bool.false_eq_true, and_false, false_iff]
      rintro ⟨c', rfl, -, -, text, ht, -⟩
      rw [hc] at ht
      contradiction
    | some text =>
      constructor
      · rintro ⟨⟨he, hk⟩, hm⟩
        exact ⟨c, rfl, he, by simpa using hk, text, hc, hm⟩
      · rintro ⟨c', rfl, he, hk, text', ht, hm⟩
        rw [hc, Option.some.injEq] at ht
        exact ⟨⟨he, by simpa using hk⟩, ht ▸ hm⟩

theorem mem_staleNames (t : FileTree) (directory extension marker : String) (keep : List String)
    (s : String) :
    s ∈ staleNames t directory extension marker keep ↔
      ∃ d c, t.LocatesDirectory directory d ∧ t.entry? (d ++ [s]) = some (.file c) ∧
        IsStale extension marker keep s c := by
  unfold staleNames
  by_cases hdir : t.isDirectory directory = true
  · obtain ⟨d, hd⟩ := (isDirectory_iff t directory).mp hdir
    rw [if_pos hdir]
    simp only [List.mem_map, List.mem_filter, Prod.exists, exists_and_right, exists_eq_right,
      mem_list t directory d _ _ hd.locate, isStale_iff]
    constructor
    · rintro ⟨e, he, c, rfl, hc⟩
      exact ⟨d, c, hd, he, hc⟩
    · rintro ⟨d', c, hd', he, hc⟩
      exact ⟨_, hd.unique hd' ▸ he, c, rfl, hc⟩
  · simp only [hdir, Bool.false_eq_true, if_false, List.not_mem_nil, false_iff]
    rintro ⟨d, c, hd, -⟩
    exact hdir ((isDirectory_iff t directory).mpr ⟨d, hd⟩)

theorem staleNames_of_pairwise {t : FileTree} {directory extension marker : String}
    {keep : List String} {d : Location} (hd : t.LocatesDirectory directory d)
    (hs : (t.children d).Pairwise fun a b => (!decide (b.1 < a.1)) = true) :
    staleNames t directory extension marker keep =
      ((t.children d).filter (isStale extension marker keep)).map Prod.fst := by
  have hdir := (isDirectory_iff t directory).mpr ⟨d, hd⟩
  rw [staleNames, if_pos hdir, list_of_pairwise hd.locate hs]

/-- Where all files but one have names that are to be kept, no other is stale. -/
theorem names_isStale {es : List (String × Entry)} {extension mark s : String} {e : Entry}
    {keep names : List String} (hnames : es.map Prod.fst = s :: names) (hs : s ∉ names)
    (hkept : ∀ x ∈ names, x ∈ keep) (he : (s, e) ∈ es)
    (hstale : isStale extension mark keep (s, e) = true) :
    (es.filter (isStale extension mark keep)).map Prod.fst = [s] := by
  obtain ⟨a, es, rfl, rfl, rfl⟩ := List.map_eq_cons_iff.mp hnames
  have ha : (a.1, e) = a := by
    rcases List.mem_cons.mp he with he | he
    · exact he
    · exact absurd (List.mem_map_of_mem (f := Prod.fst) he) hs
  have hnone : es.filter (isStale extension mark keep) = [] := by
    refine List.filter_eq_nil_iff.mpr fun x hx hx' => ?_
    obtain ⟨c, -, h⟩ := (isStale_iff _ _ _ x.1 x.2).mp hx'
    exact h.not_kept (hkept _ (List.mem_map_of_mem hx))
  rw [ha] at hstale
  rw [List.filter_cons_of_pos hstale, hnone, List.map_singleton]

/-- A stale file has a name that a directory can have, since the tree has no others. -/
theorem isName_of_mem_staleNames {t : FileTree} {directory extension marker s : String}
    {keep : List String} (ht : t.ProperlyNamed)
    (hs : s ∈ staleNames t directory extension marker keep) : Path.IsName s := by
  obtain ⟨d, c, -, he, -⟩ := (mem_staleNames t _ _ _ _ s).mp hs
  exact ht.isName d s _ he

/-- Where something is stale the path is that of a directory. -/
theorem exists_directory_of_staleNames (t : FileTree) (directory extension marker : String)
    (keep : List String) : ∃ d, staleNames t directory extension marker keep ≠ [] →
      t.LocatesDirectory directory d := by
  by_cases hdir : t.isDirectory directory = true
  · obtain ⟨d, hd⟩ := (isDirectory_iff t directory).mp hdir
    exact ⟨d, fun _ => hd⟩
  · exact ⟨[], fun h => absurd (by simp [staleNames, hdir]) h⟩

/-- Cleaning up a directory removes all that is stale there, or fails on the way. -/
theorem removeStale_steps {w : Writer} {changes : Nat} {t t' : FileTree}
    {directory extension marker : String} {keep : List String} {d : Location}
    {outcome : Except WriteError (List String)} (hw : w.dryRun = false) (ht : t.ProperlyNamed)
    (hd : staleNames t directory extension marker keep ≠ [] → t.LeadsTo directory d)
    (h : w.removeStale changes t directory extension marker keep = (t', outcome)) :
    ∃ gone, gone <+: staleNames t directory extension marker keep ∧ Removed t t' d gone ∧
      ((outcome = .ok ((staleNames t directory extension marker keep).map (Path.join directory)) ∧
          gone = staleNames t directory extension marker keep) ∨
        ∃ path cause, outcome = .error (.removeFile path cause)) := by
  unfold removeStale at h
  simp only [hw, Bool.false_eq_true, if_false, Prod.mk.injEq] at h
  obtain ⟨htree, rfl⟩ := h
  obtain ⟨gone, hgone, hremoved, hall⟩ := exists_removed_of_removeAll (Prod.ext htree rfl) hd
    (nodup_staleNames t directory extension marker keep) fun s => isName_of_mem_staleNames ht
  refine ⟨gone, hgone, hremoved, ?_⟩
  cases hr : (w.removeAll changes t
      ((staleNames t directory extension marker keep).map (Path.join directory))).2 with
  | ok => exact Or.inl ⟨rfl, hall hr⟩
  | error e =>
    obtain ⟨path, cause, rfl⟩ := error_of_removeAll hr
    exact Or.inr ⟨path, cause, rfl⟩

theorem error_of_removeStale {w : Writer} {changes : Nat} {t t' : FileTree}
    {directory extension marker : String} {keep : List String} {e : WriteError}
    (h : w.removeStale changes t directory extension marker keep = (t', .error e)) :
    ∃ path cause, e = .removeFile path cause := by
  unfold removeStale at h
  split at h
  · simp at h
  · obtain ⟨-, h⟩ := Prod.mk.inj h
    cases hr : (w.removeAll changes t
        ((staleNames t directory extension marker keep).map (Path.join directory))).2 with
    | ok => simp [hr, Except.map] at h
    | error e' =>
      obtain rfl : e' = e := by simpa [hr, Except.map] using h
      exact error_of_removeAll hr

theorem removed_of_removeStale {w : Writer} {changes : Nat} {t t' : FileTree}
    {directory extension marker : String} {keep paths : List String} (hw : w.dryRun = false)
    (ht : t.ProperlyNamed)
    (h : w.removeStale changes t directory extension marker keep = (t', .ok paths)) :
    ∃ d, (staleNames t directory extension marker keep ≠ [] → t.LocatesDirectory directory d) ∧
      Removed t t' d (staleNames t directory extension marker keep) := by
  obtain ⟨d, hd⟩ := exists_directory_of_staleNames t directory extension marker keep
  obtain ⟨gone, -, hremoved, ⟨-, rfl⟩ | ⟨path, cause, he⟩⟩ :=
    removeStale_steps hw ht (fun hne => (hd hne).leadsTo) h
  · exact ⟨d, hd, hremoved⟩
  · contradiction

theorem paths_of_removeStale {w : Writer} {changes : Nat} {t t' : FileTree}
    {directory extension marker : String} {keep paths : List String}
    (h : w.removeStale changes t directory extension marker keep = (t', .ok paths)) :
    paths = (staleNames t directory extension marker keep).map (Path.join directory) := by
  unfold removeStale at h
  split at h
  · simpa [eq_comm] using (Prod.mk.inj h).2
  · obtain ⟨-, h⟩ := Prod.mk.inj h
    cases hr : (w.removeAll changes t
        ((staleNames t directory extension marker keep).map (Path.join directory))).2 with
    | ok => simpa [hr, Except.map, eq_comm] using h
    | error e => simp [hr, Except.map] at h

end Writer

end IconCompiler
