import IconCompiler.Proofs.FileTree.Place

/-!
Trees in which whatever exists is in a directory. There a path that never steps up leads to no
directory that is new unless what is in the directory is new as well.
-/

namespace IconCompiler

namespace FileTree

/-- Whatever is in the tree is in a directory of it. -/
def Rooted (t : FileTree) : Prop :=
  ∀ l s, t.entry? (l ++ [s]) ≠ none → t.entry? l = some .directory

theorem Rooted.fresh (name : String) : (FileTree.fresh name).Rooted := by
  intro l s h
  rw [entry?_append_singleton, FileTree.fresh, Table.get?_put] at h
  split at h
  · rename_i hl
    obtain rfl := (List.append_eq_singleton_iff.mp hl).elim And.left fun h => by simp at h
    rfl
  · exact absurd rfl h

theorem Rooted.put {t : FileTree} (ht : t.Rooted) {l : Location} {s : String} (e : Entry)
    (hl : t.entry? l = some .directory) (hs : t.entry? (l ++ [s]) ≠ some .directory) :
    (t.put (l ++ [s]) e).Rooted := by
  have hne : l ++ [s] ≠ [] := by simp
  have hk := KeepsDirectories.put e hne hs
  intro x y h
  apply hk.directory
  rw [entry?_put t _ _ e hne] at h
  split at h
  · rename_i hx
    rwa [(List.append_inj' hx rfl).1]
  · exact ht x y h

theorem Rooted.directory_of_append {t : FileTree} (ht : t.Rooted) {l more : Location}
    (h : t.entry? (l ++ more) = some .directory) : t.entry? l = some .directory := by
  induction more generalizing l with
  | nil => rwa [List.append_nil] at h
  | cons s more ih =>
    have hs : t.entry? (l ++ [s]) = some .directory := ih (by rwa [List.append_assoc])
    exact ht l s (by simp [hs])

/-- A walk that never steps up, in whatever tree it is taken, can be taken in a tree that has the
directory where it ends. -/
theorem Rooted.walk {t t' : FileTree} (ht : t.Rooted) {l d : Location} {ss : List String}
    (hss : ".." ∉ ss) (hw : t'.walk l ss = .ok d) (hd : t.entry? d = some .directory) :
    t.walk l ss = .ok d ∧ ∃ more, d = l ++ more := by
  induction ss generalizing l with
  | nil =>
    obtain rfl := Except.ok.inj hw
    exact ⟨rfl, [], (List.append_nil l).symm⟩
  | cons s ss ih =>
    rw [List.mem_cons, not_or] at hss
    obtain ⟨-, hshort, hrest⟩ := walk_cons_eq_ok_iff.mp hw
    obtain ⟨hwalk, more, rfl⟩ := ih hss.2 hrest
    -- the walk ends at or below each location on the way, so all of these are directories
    obtain ⟨first, hfirst⟩ : ∃ first, next l s = l ++ first := by
      unfold next
      split
      · exact ⟨[], (List.append_nil l).symm⟩
      · rw [if_neg (Ne.symm hss.1)]
        exact ⟨[s], rfl⟩
    rw [hfirst, List.append_assoc] at hd
    exact ⟨walk_cons_eq_ok_iff.mpr ⟨ht.directory_of_append hd, hshort, hwalk⟩, first ++ more,
      by rw [hfirst, List.append_assoc]⟩

theorem Rooted.locatesDirectory {t t' : FileTree} (ht : t.Rooted) {path : String} {d : Location}
    (hpath : ".." ∉ Path.steps path) (hw : t'.workingDirectory = t.workingDirectory)
    (hd' : t'.LocatesDirectory path d) (hd : t.entry? d = some .directory) :
    t.LocatesDirectory path d := by
  refine ⟨?_, hd⟩
  have hl := hd'.locate
  unfold FileTree.locate at hl ⊢
  split at hl
  · contradiction
  · rw [origin_eq_of_workingDirectory path hw] at hl
    refine (ht.walk (fun hm => ?_) hl hd).1
    rcases List.mem_append.mp hm with hm | hm
    · exact hpath hm
    · split at hm
      · exact absurd (List.mem_singleton.mp hm) (by decide)
      · contradiction

end FileTree

end IconCompiler
