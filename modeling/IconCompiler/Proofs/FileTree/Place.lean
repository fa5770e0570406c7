import IconCompiler.FileTree.Basic
import IconCompiler.Proofs.FileTree.Steps
import IconCompiler.Proofs.Table

/-!
Where the files of a directory are. A path leads to a directory in every tree that has the
directories of a tree in which it does, and the file of a name in it is one step further.
-/

namespace IconCompiler

namespace FileTree

theorem entry?_put (t : FileTree) (l x : Location) (e : Entry) (hl : l ≠ []) :
    FileTree.entry? (t.put l e) x = if x = l then some e else t.entry? x := by
  by_cases hx : x = []
  · subst hx
    simp [ entry?, hl.symm]
  · simp [ entry?, put, hx, Table.get?_put]

theorem entry?_put_self (t : FileTree) {l : Location} (e : Entry) (hl : l ≠ []) :
    FileTree.entry? (t.put l e) l = some e := by
  rw [ entry?_put t l l e hl, if_pos rfl]

theorem entry?_put_of_ne (t : FileTree) {l x : Location} (e : Entry) (hl : l ≠ []) (hx : x ≠ l) :
    FileTree.entry? (t.put l e) x = t.entry? x := by
  rw [ entry?_put t l x e hl, if_neg hx]

/-- A location ends in one name. -/
theorem name_inj {d d' : Location} {s s' : String} (h : d ++ [s] = d' ++ [s']) : s = s' :=
  List.singleton_inj.mp (List.append_inj_right' h rfl)

theorem isDirectoryAt_iff (t : FileTree) (l : Location) :
    t.isDirectoryAt l = true ↔ t.entry? l = some .directory := by
  unfold isDirectoryAt
  split
  · rename_i h
    simp [h]
  · rename_i h
    simp only [Bool.false_eq_true, false_iff]
    exact h

theorem entry?_append_singleton (t : FileTree) (l : Location) (s : String) :
    t.entry? (l ++ [s]) = t.entries.get? (l ++ [s]) := by
  simp [ entry?]

/-- The directories of the first tree are directories of the second, and relative paths start in
the same place. -/
structure KeepsDirectories (t t' : FileTree) : Prop where
  workingDirectory : t'.workingDirectory = t.workingDirectory
  directory : ∀ l, t.entry? l = some .directory → t'.entry? l = some .directory

theorem KeepsDirectories.refl (t : FileTree) : KeepsDirectories t t := ⟨rfl, fun _ h => h⟩

theorem KeepsDirectories.trans {t t' t'' : FileTree} (h : KeepsDirectories t t')
    (h' : KeepsDirectories t' t'') : KeepsDirectories t t'' :=
  ⟨h'.workingDirectory.trans h.workingDirectory, fun l hl => h'.directory l (h.directory l hl)⟩

theorem KeepsDirectories.put {t : FileTree} {l : Location} (e : Entry) (hl : l ≠ [])
    (hd : t.entry? l ≠ some .directory) : KeepsDirectories t (t.put l e) := by
  refine ⟨rfl, fun x hx => ?_⟩
  have hne : x ≠ l := fun h => hd (h ▸ hx)
  rw [ entry?_put_of_ne t e hl hne, hx]

/-- The second tree is the first with directories added where nothing was. -/
structure AddsDirectories (t t' : FileTree) : Prop where
  workingDirectory : t'.workingDirectory = t.workingDirectory
  entry? : ∀ l, t'.entry? l = t.entry? l ∨ t.entry? l = none ∧ t'.entry? l = some .directory

theorem AddsDirectories.refl (t : FileTree) : AddsDirectories t t := ⟨rfl, fun _ => Or.inl rfl⟩

theorem AddsDirectories.trans {t t' t'' : FileTree} (h : AddsDirectories t t')
    (h' : AddsDirectories t' t'') : AddsDirectories t t'' := by
  refine ⟨h'.workingDirectory.trans h.workingDirectory, fun l => ?_⟩
  obtain e | ⟨hn, hd⟩ := h.entry? l <;> obtain e' | ⟨hn', hd'⟩ := h'.entry? l
  · exact Or.inl (e'.trans e)
  · exact Or.inr ⟨e ▸ hn', hd'⟩
  · exact Or.inr ⟨hn, e'.trans hd⟩
  · exact Or.inr ⟨hn, hd'⟩

theorem AddsDirectories.keepsDirectories {t t' : FileTree} (h : AddsDirectories t t') :
    KeepsDirectories t t' := by
  refine ⟨h.workingDirectory, fun l hl => ?_⟩
  obtain e | ⟨hn, -⟩ := h.entry? l
  · exact e.trans hl
  · rw [hn] at hl
    contradiction

theorem AddsDirectories.file {t t' : FileTree} (h : AddsDirectories t t') (l : Location)
    (c : ByteArray) : t'.entry? l = some (.file c) ↔ t.entry? l = some (.file c) := by
  obtain e | ⟨hn, hd⟩ := h.entry? l
  · rw [e]
  · rw [hn, hd]
    simp

/-! ## Steps -/

/-- Where a step leads from a location, whatever is there. -/
def next (l : Location) (s : String) : Location :=
  if s = "." then l else if s = ".." then l.dropLast else l ++ [s]

theorem next_of_isName (l : Location) {s : String} (hs : Path.IsName s) : next l s = l ++ [s] := by
  rw [next, if_neg hs.ne_point, if_neg hs.ne_points]

/-- A step is taken from a directory and to where it leads, unless its name is too long for one. -/
theorem walk_cons_eq_ok_iff {t : FileTree} {l d : Location} {s : String} {ss : List String} :
    t.walk l (s :: ss) = .ok d ↔
      t.entry? l = some .directory ∧ s.utf8ByteSize ≤ longestName ∧ t.walk (next l s) ss = .ok d := by
  rw [walk, next]
  split
  · rename_i h
    simp [h]
  · rename_i h
    simp [h]
  · rename_i h
    rw [h, eq_self, true_and]
    -- points are not held against the longest name, but are no longer than it
    split
    · rename_i hpoint
      have hshort : s.utf8ByteSize ≤ longestName := by
        rw [hpoint]
        decide
      rw [and_iff_right hshort]
    · split
      · rename_i hpoints
        have hshort : s.utf8ByteSize ≤ longestName := by
          rw [hpoints]
          decide
        rw [and_iff_right hshort]
      · split
        · rename_i hlong
          simp [Nat.not_le_of_lt hlong]
        · rename_i hlong
          rw [and_iff_right (Nat.le_of_not_lt hlong)]

/-- Making directories on the way ends where it is, or goes on behind a step, with a directory put
there if nothing was. -/
theorem makeAlong_cons_cases (t : FileTree) (l : Location) (s : String) (ss : List String) :
    (t.makeAlong l (s :: ss)).1 = t ∨
      t.makeAlong l (s :: ss) = t.makeAlong (next l s) ss ∨
      next l s ≠ [] ∧ t.entry? (next l s) = none ∧
        t.makeAlong l (s :: ss) = (t.put (next l s) .directory).makeAlong (next l s) ss := by
  rw [makeAlong, next]
  split
  · exact Or.inr (Or.inl rfl)
  · split
    · exact Or.inr (Or.inl rfl)
    · split
      · exact Or.inl rfl
      · split
        · exact Or.inr (Or.inl rfl)
        · exact Or.inl rfl
        · rename_i hnone
          exact Or.inr (Or.inr ⟨by simp, hnone, rfl⟩)

theorem AddsDirectories.put {t : FileTree} {l : Location} (hl : l ≠ [])
    (hnone : t.entry? l = none) : AddsDirectories t (t.put l .directory) := by
  refine ⟨rfl, fun x => ?_⟩
  rw [ entry?_put t l x _ hl]
  split
  · rename_i hx
    exact Or.inr ⟨hx ▸ hnone, rfl⟩
  · exact Or.inl rfl

theorem makeAlong_addsDirectories (t : FileTree) (l : Location) (ss : List String) :
    AddsDirectories t (t.makeAlong l ss).1 := by
  induction ss generalizing t l with
  | nil => exact .refl t
  | cons s ss ih =>
    rcases makeAlong_cons_cases t l s ss with hstop | hgo | ⟨hne, hnone, hput⟩
    · rw [hstop]
      exact .refl t
    · rw [hgo]
      exact ih t _
    · rw [hput]
      exact (AddsDirectories.put hne hnone).trans (ih _ _)

theorem makeDirectories_addsDirectories (t : FileTree) (path : String) :
    AddsDirectories t (t.makeDirectories path).1 := by
  unfold makeDirectories
  split
  · exact .refl t
  · split
    · exact .refl t
    · exact makeAlong_addsDirectories t _ _

/-! ## Walking -/

theorem walk_append (t : FileTree) (l : Location) (xs ys : List String) :
    t.walk l (xs ++ ys) = (t.walk l xs).bind fun d => t.walk d ys := by
  induction xs generalizing l with
  | nil => rfl
  | cons x xs ih =>
    simp only [List.cons_append, walk]
    split
    · rfl
    · rfl
    · split
      · exact ih l
      · split
        · exact ih l.dropLast
        · split
          · rfl
          · exact ih (l ++ [x])

theorem walk_keepsDirectories {t t' : FileTree} (h : KeepsDirectories t t') (l d : Location)
    (ss : List String) (hw : t.walk l ss = .ok d) : t'.walk l ss = .ok d := by
  induction ss generalizing l with
  | nil => exact hw
  | cons s ss ih =>
    obtain ⟨hdirectory, hshort, hrest⟩ := walk_cons_eq_ok_iff.mp hw
    exact walk_cons_eq_ok_iff.mpr ⟨h.directory l hdirectory, hshort, ih _ hrest⟩

theorem walk_singleton (t : FileTree) (d l : Location) (s : String) (hs : Path.IsName s) :
    t.walk d [s] = .ok l ↔
      t.entry? d = some .directory ∧ s.utf8ByteSize ≤ longestName ∧ l = d ++ [s] := by
  rw [walk_cons_eq_ok_iff, next_of_isName d hs, walk, Except.ok.injEq, eq_comm (a := d ++ [s])]

/-- The path leads to the directory at a location. -/
structure LeadsTo (t : FileTree) (path : String) (d : Location) : Prop where
  walk : t.walk (t.origin path) (Path.steps path) = .ok d
  isDirectory : t.entry? d = some .directory

theorem LeadsTo.unique {t : FileTree} {path : String} {d d' : Location} (h : t.LeadsTo path d)
    (h' : t.LeadsTo path d') : d' = d :=
  Except.ok.inj (h'.walk.symm.trans h.walk)

theorem origin_eq_of_workingDirectory {t t' : FileTree} (path : String)
    (h : t'.workingDirectory = t.workingDirectory) : t'.origin path = t.origin path := by
  simp [origin, h]

theorem LeadsTo.keepsDirectories {t t' : FileTree} {path : String} {d : Location}
    (h : t.LeadsTo path d) (hk : KeepsDirectories t t') : t'.LeadsTo path d := by
  refine ⟨?_, hk.directory d h.isDirectory⟩
  rw [origin_eq_of_workingDirectory path hk.workingDirectory]
  exact walk_keepsDirectories hk _ _ _ h.walk

theorem origin_join (t : FileTree) (base s : String) (hs : Path.IsName s) :
    t.origin (Path.join base s) = t.origin base := by
  simp [origin, Path.isAbsolute_join base s hs]

theorem walk_join (t : FileTree) (base s : String) (l : Location) (hs : Path.IsName s) :
    t.walk (t.origin (Path.join base s)) (Path.steps (Path.join base s)) = .ok l ↔
      ∃ d, t.LeadsTo base d ∧ s.utf8ByteSize ≤ longestName ∧ l = d ++ [s] := by
  rw [origin_join t base s hs, Path.steps_join base s hs, walk_append]
  constructor
  · intro h
    cases hd : t.walk (t.origin base) (Path.steps base) with
    | error e =>
      rw [hd] at h
      contradiction
    | ok d =>
      rw [hd] at h
      obtain ⟨h1, h2, h3⟩ := (walk_singleton t d l s hs).mp h
      exact ⟨d, ⟨hd, h1⟩, h2, h3⟩
  · rintro ⟨d, hd, hlen, rfl⟩
    rw [hd.walk]
    exact (walk_singleton t d _ s hs).mpr ⟨hd.isDirectory, hlen, rfl⟩

theorem locate_join (t : FileTree) (base s : String) (l : Location) (hs : Path.IsName s) :
    t.locate (Path.join base s) = .ok l ↔
      fault? (Path.join base s) = none ∧
        ∃ d, t.LeadsTo base d ∧ s.utf8ByteSize ≤ longestName ∧ l = d ++ [s] := by
  rw [← walk_join t base s l hs]
  unfold locate
  cases fault? (Path.join base s) with
  | some e => simp
  | none => simp [Path.endsInSlash_join base s hs]

theorem locate_keepsDirectories {t t' : FileTree} (h : KeepsDirectories t t') {path : String}
    {l : Location} (hl : t.locate path = .ok l) : t'.locate path = .ok l := by
  unfold locate at hl ⊢
  split at hl
  · contradiction
  · rw [origin_eq_of_workingDirectory path h.workingDirectory]
    exact walk_keepsDirectories h _ _ _ hl

/-! ## Places for files -/

/-- A place for a file is what a path leads to that does not ask for a directory, where no
directory is. -/
theorem placeForFile_eq_ok_iff (t : FileTree) (path : String) (l : Location) :
    t.placeForFile path = .ok l ↔
      Path.endsInSlash path = false ∧ t.locate path = .ok l ∧ t.entry? l ≠ some .directory := by
  unfold placeForFile locate
  cases fault? path with
  | some e => simp
  | none =>
    cases Path.endsInSlash path with
    | true =>
      cases t.walk (t.origin path) ((Path.steps path).dropLast ++ ["."]) <;>
        simp [bind, Except.bind]
    | false =>
      simp only [Bool.false_eq_true, if_false, List.append_nil, true_and]
      cases t.walk (t.origin path) (Path.steps path) with
      | error e => simp [bind, Except.bind]
      | ok l' =>
        simp only [bind, Except.bind, pure, Except.pure]
        by_cases hd : t.entry? l' = some .directory
        · rw [if_pos ((isDirectoryAt_iff t l').mpr hd)]
          refine ⟨fun h => by contradiction, fun ⟨h, hne⟩ => ?_⟩
          obtain rfl := Except.ok.inj h
          exact absurd hd hne
        · rw [if_neg (hd ∘ (isDirectoryAt_iff t l').mp)]
          exact ⟨fun h => ⟨h, Except.ok.inj h ▸ hd⟩, And.left⟩

theorem placeForFile_join (t : FileTree) (base s : String) (l : Location) (hs : Path.IsName s) :
    t.placeForFile (Path.join base s) = .ok l ↔
      t.locate (Path.join base s) = .ok l ∧ t.entry? l ≠ some .directory := by
  simp [placeForFile_eq_ok_iff, Path.endsInSlash_join base s hs]

theorem ne_nil_of_placeForFile {t : FileTree} {path : String} {l : Location}
    (h : t.placeForFile path = .ok l) : l ≠ [] := by
  rintro rfl
  exact ((placeForFile_eq_ok_iff t path []).mp h).2.2 rfl

/-- Putting a file at its place keeps every directory. -/
theorem KeepsDirectories.put_placeForFile {t : FileTree} {path : String} {l : Location}
    (h : t.placeForFile path = .ok l) (contents : ByteArray) :
    KeepsDirectories t (t.put l (.file contents)) :=
  .put _ (ne_nil_of_placeForFile h) ((placeForFile_eq_ok_iff t path l).mp h).2.2

/-- Whatever is put at the place for one file, the places for others stay. -/
theorem placeForFile_put {t : FileTree} {path path' : String} {l l' : Location}
    (contents : ByteArray) (h : t.placeForFile path = .ok l) (h' : t.placeForFile path' = .ok l') :
    (t.put l (.file contents)).placeForFile path' = .ok l' := by
  obtain ⟨hslash, hlocate, hdir⟩ := (placeForFile_eq_ok_iff t path' l').mp h'
  refine (placeForFile_eq_ok_iff _ path' l').mpr
    ⟨hslash, locate_keepsDirectories (.put_placeForFile h contents) hlocate, ?_⟩
  rw [entry?_put _ _ _ _ (ne_nil_of_placeForFile h)]
  split
  · simp
  · exact hdir

/-! ## Directories of paths -/

/-- The path is that of an existing directory, which is at a location. -/
structure LocatesDirectory (t : FileTree) (path : String) (d : Location) : Prop where
  locate : t.locate path = .ok d
  isDirectory : t.entry? d = some .directory

theorem isDirectory_iff (t : FileTree) (path : String) :
    t.isDirectory path = true ↔ ∃ d, t.LocatesDirectory path d := by
  unfold isDirectory find
  cases hl : t.locate path with
  | error e =>
    simp only [bind, Except.bind, Bool.false_eq_true, false_iff]
    rintro ⟨d, hd⟩
    have he := hd.locate
    rw [hl] at he
    contradiction
  | ok l =>
    have hunique : (∃ d, t.LocatesDirectory path d) ↔ t.entry? l = some .directory := by
      refine ⟨fun ⟨d, hd⟩ => ?_, fun h => ⟨l, hl, h⟩⟩
      obtain rfl := Except.ok.inj (hl.symm.trans hd.locate)
      exact hd.isDirectory
    rw [hunique]
    cases he : t.entry? l with
    | none => simp [bind, Except.bind, he]
    | some e => cases e <;> simp [bind, Except.bind, pure, Except.pure, he]

theorem LocatesDirectory.unique {t : FileTree} {path : String} {d d' : Location}
    (h : t.LocatesDirectory path d) (h' : t.LocatesDirectory path d') : d' = d :=
  Except.ok.inj (h'.locate.symm.trans h.locate)

theorem LocatesDirectory.keepsDirectories {t t' : FileTree} {path : String} {d : Location}
    (h : t.LocatesDirectory path d) (hk : KeepsDirectories t t') :
    t'.LocatesDirectory path d := by
  exact ⟨locate_keepsDirectories hk h.locate, hk.directory d h.isDirectory⟩

/-- The last step of a path that asks for a directory stays where it is. -/
theorem LocatesDirectory.leadsTo {t : FileTree} {path : String} {d : Location}
    (h : t.LocatesDirectory path d) : t.LeadsTo path d := by
  refine ⟨?_, h.isDirectory⟩
  have hl := h.locate
  unfold FileTree.locate at hl
  split at hl
  · contradiction
  · rw [walk_append] at hl
    -- what is appended to the steps is nothing, or the point that stands for a slash at the end
    cases hw : t.walk (t.origin path) (Path.steps path) with
    | error e => simp [hw, Except.bind] at hl
    | ok d' =>
      simp only [hw, Except.bind] at hl
      split at hl
      · have hrest := (walk_cons_eq_ok_iff.mp hl).2.2
        rwa [next, if_pos rfl] at hrest
      · simpa [walk] using hl

/-- A path that leads to a directory is that of the directory, unless its text is none of a path. -/
theorem LeadsTo.locatesDirectory {t : FileTree} {path : String} {d : Location}
    (h : t.LeadsTo path d) (hf : fault? path = none) : t.LocatesDirectory path d := by
  refine ⟨?_, h.isDirectory⟩
  rw [FileTree.locate, hf]
  dsimp only
  rw [walk_append, h.walk]
  -- the point that stands for a slash at the end asks for a directory, and that it is
  cases Path.endsInSlash path <;> simp [Except.bind, FileTree.walk, h.isDirectory]

/-- It is told by the text of the path whether the path is that of the directory that it leads
to. -/
theorem LeadsTo.locatesDirectory_iff {t : FileTree} {path : String} {d : Location}
    (h : t.LeadsTo path d) (x : Location) :
    t.LocatesDirectory path x ↔ fault? path = none ∧ x = d := by
  constructor
  · intro hx
    refine ⟨?_, h.unique hx.leadsTo⟩
    have hl := hx.locate
    unfold FileTree.locate at hl
    split at hl
    · contradiction
    · assumption
  · rintro ⟨hf, rfl⟩
    exact h.locatesDirectory hf

/-- Nothing but its being empty is wrong with the front of a path. -/
theorem fault?_eq_none_of_append {front rest : String} (h : fault? (front ++ rest) = none)
    (hne : front ≠ "") : fault? front = none := by
  have hsize : (front ++ rest).utf8ByteSize = front.utf8ByteSize + rest.utf8ByteSize :=
    String.utf8ByteSize_append
  rw [fault?] at h
  split at h
  · contradiction
  · rename_i hnull
    split at h
    · contradiction
    · rename_i hlong
      have hnull' : front.toList.contains (Char.ofNat 0) = false := by
        simp only [String.toList_append, List.contains_append, Bool.or_eq_true, not_or] at hnull
        simpa using hnull.1
      rw [fault?, hnull', if_neg Bool.false_ne_true, if_neg (by omega), if_neg]
      simpa [String.isEmpty_iff] using hne

/-- Only the empty path is none of a directory while it can be joined with a name. -/
theorem fault?_eq_none_of_join {base s : String} (hs : Path.IsName s)
    (h : fault? (Path.join base s) = none) (hne : base ≠ "") : fault? base = none := by
  obtain ⟨middle, hjoin⟩ : ∃ middle, Path.join base s = base ++ middle := by
    unfold Path.join
    rw [Path.not_isAbsolute_of_no_slash s hs.no_slash]
    split
    · contradiction
    · split
      · exact ⟨s, rfl⟩
      · exact ⟨"/" ++ s, String.append_assoc⟩
  exact fault?_eq_none_of_append (hjoin ▸ h) hne

end FileTree

end IconCompiler
