import IconCompiler.Proofs.FileTree.Place

/-!
Trees whose entries have names that a directory can have. No operation on files puts any other name
into a tree, so what a directory lists can be reached by joining its path with a listed name.
-/

namespace IconCompiler

namespace Text

theorem not_mem_splitAt (isSeparator : Char → Bool) (cs piece : List Char)
    (h : piece ∈ splitAt isSeparator cs) (c : Char) (hc : c ∈ piece) : isSeparator c = false := by
  induction cs generalizing piece with
  | nil =>
    rw [splitAt, List.mem_singleton] at h
    subst h
    simp at hc
  | cons x cs ih =>
    unfold splitAt at h
    split at h
    · rcases List.mem_cons.mp h with rfl | h
      · simp at hc
      · exact ih piece h hc
    · rename_i hx
      split at h
      · rename_i he
        exact absurd he (splitAt_ne_nil isSeparator cs)
      · rename_i p ps he
        rw [he] at ih
        -- the character belongs to the first piece
        rcases List.mem_cons.mp h with rfl | h
        · rcases List.mem_cons.mp hc with rfl | hc
          · exact Bool.not_eq_true _ ▸ hx
          · exact ih p List.mem_cons_self hc
        · exact ih piece (List.mem_cons_of_mem p h) hc

end Text

namespace Path

theorem of_mem_steps {p s : String} (h : s ∈ steps p) : s ≠ "" ∧ '/' ∉ s.toList := by
  simp only [steps, pieces, List.mem_filter, List.mem_map, decide_eq_true_eq] at h
  obtain ⟨⟨piece, hp, rfl⟩, hne⟩ := h
  refine ⟨hne, fun hs => ?_⟩
  rw [String.toList_ofList] at hs
  have := Text.not_mem_splitAt (· == '/') p.toList piece hp '/' hs
  contradiction

end Path

namespace FileTree

/-- Every location in the tree, and the working directory, consists of names of entries. -/
structure ProperlyNamed (t : FileTree) : Prop where
  workingDirectory : ∀ s ∈ t.workingDirectory, Path.IsName s
  entries : ∀ l ∈ t.entries.keys, ∀ s ∈ l, Path.IsName s

theorem ProperlyNamed.fresh (name : String) (h : Path.IsName name) :
    (FileTree.fresh name).ProperlyNamed := by
  refine ⟨by simpa [FileTree.fresh] using h, fun l hl => ?_⟩
  rcases (Table.mem_keys_put _ _ _ _).mp hl with hl | rfl
  · simp [Table.empty, Table.keys] at hl
  · simpa using h

theorem ProperlyNamed.put {t : FileTree} (ht : t.ProperlyNamed) (l : Location) (e : Entry)
    (hl : ∀ s ∈ l, Path.IsName s) : (t.put l e).ProperlyNamed := by
  refine ⟨ht.workingDirectory, fun x hx => ?_⟩
  rcases (Table.mem_keys_put t.entries l x e).mp hx with hx | rfl
  · exact ht.entries x hx
  · exact hl

theorem names_append {l : Location} {s : String} (hl : ∀ x ∈ l, Path.IsName x)
    (hs : Path.IsName s) : ∀ x ∈ l ++ [s], Path.IsName x := by
  intro x hx
  rcases List.mem_append.mp hx with hx | hx
  · exact hl x hx
  · exact List.mem_singleton.mp hx ▸ hs

/-- What is neither empty nor has a slash is a point, two points or a name. -/
theorem names_next {l : Location} {s : String} (hl : ∀ x ∈ l, Path.IsName x)
    (hs : s ≠ "" ∧ '/' ∉ s.toList) : ∀ x ∈ next l s, Path.IsName x := by
  unfold next
  split
  · exact hl
  · rename_i hpoint
    split
    · exact fun x hx => hl x (List.dropLast_subset _ hx)
    · rename_i hpoints
      exact names_append hl ⟨hs.1, hs.2, hpoint, hpoints⟩

theorem ProperlyNamed.makeAlong {t : FileTree} (ht : t.ProperlyNamed) (l : Location)
    (ss : List String) (hl : ∀ x ∈ l, Path.IsName x)
    (hss : ∀ s ∈ ss, s ≠ "" ∧ '/' ∉ s.toList) : (t.makeAlong l ss).1.ProperlyNamed := by
  induction ss generalizing t l with
  | nil => exact ht
  | cons s ss ih =>
    rw [List.forall_mem_cons] at hss
    have hnext := names_next hl hss.1
    rcases makeAlong_cons_cases t l s ss with hstop | hgo | ⟨-, -, hput⟩
    · rw [hstop]
      exact ht
    · rw [hgo]
      exact ih ht _ hnext hss.2
    · rw [hput]
      exact ih (ht.put _ _ hnext) _ hnext hss.2

theorem ProperlyNamed.origin {t : FileTree} (ht : t.ProperlyNamed) (path : String) :
    ∀ s ∈ t.origin path, Path.IsName s := by
  unfold FileTree.origin
  split
  · simp
  · exact ht.workingDirectory

theorem ProperlyNamed.makeDirectories {t : FileTree} (ht : t.ProperlyNamed) (path : String) :
    (t.makeDirectories path).1.ProperlyNamed := by
  unfold FileTree.makeDirectories
  split
  · exact ht
  · split
    · exact ht
    · exact ht.makeAlong _ _ (ht.origin path) fun s hs => Path.of_mem_steps hs

theorem names_walk (t : FileTree) (l d : Location) (ss : List String)
    (hl : ∀ x ∈ l, Path.IsName x) (hss : ∀ s ∈ ss, s ≠ "" ∧ '/' ∉ s.toList)
    (hw : t.walk l ss = .ok d) : ∀ x ∈ d, Path.IsName x := by
  induction ss generalizing l with
  | nil => exact Except.ok.inj hw ▸ hl
  | cons s ss ih =>
    rw [List.forall_mem_cons] at hss
    obtain ⟨-, -, hrest⟩ := walk_cons_eq_ok_iff.mp hw
    exact ih _ (names_next hl hss.1) hss.2 hrest

theorem ProperlyNamed.leadsTo {t : FileTree} (ht : t.ProperlyNamed) {path : String} {d : Location}
    (h : t.LeadsTo path d) : ∀ s ∈ d, Path.IsName s :=
  names_walk t _ d _ (ht.origin path) (fun _ hs => Path.of_mem_steps hs) h.walk

/-! ## What a directory lists -/

/-- The child that an entry of the tree is in a directory. -/
theorem child_eq_some_iff (l : Location) (e : Location × Entry) (s : String) (c : Entry) :
    (match e.1.getLast? with
      | some name => if e.1.dropLast = l then some (name, e.2) else none
      | none => none) = some (s, c) ↔ e = (l ++ [s], c) := by
  constructor
  · intro h
    split at h
    · rename_i name hlast
      obtain ⟨front, hfront⟩ := List.getLast?_eq_some_iff.mp hlast
      rw [hfront, List.dropLast_concat, Option.ite_none_right_eq_some, Option.some.injEq,
        Prod.mk.injEq] at h
      exact Prod.ext (by rw [hfront, h.1, h.2.1]) h.2.2
    · contradiction
  · rintro rfl
    simp

theorem mem_children (t : FileTree) (l : Location) (s : String) (e : Entry) :
    (s, e) ∈ t.children l ↔ t.entry? (l ++ [s]) = some e := by
  rw [entry?_append_singleton, Table.get?_eq_some_iff, children, List.mem_filterMap]
  constructor
  · rintro ⟨x, hx, h⟩
    exact (child_eq_some_iff l x s e).mp h ▸ hx
  · exact fun h => ⟨_, h, (child_eq_some_iff l _ s e).mpr rfl⟩

theorem nodup_children (t : FileTree) (l : Location) : ((t.children l).map Prod.fst).Nodup := by
  have hn := List.pairwise_map.mp t.entries.nodup
  rw [children, List.map_filterMap]
  refine List.pairwise_filterMap.mpr (hn.imp fun {e e'} hne s hs s' hs' h => hne ?_)
  obtain ⟨⟨x, c⟩, hx, rfl⟩ := Option.map_eq_some_iff.mp hs
  obtain ⟨⟨x', c'⟩, hx', rfl⟩ := Option.map_eq_some_iff.mp hs'
  rw [(child_eq_some_iff l e x c).mp hx, (child_eq_some_iff l e' x' c').mp hx']
  exact congrArg (fun y => l ++ [y]) h

theorem mem_list (t : FileTree) (path : String) (d : Location) (s : String) (e : Entry)
    (h : t.locate path = .ok d) : (s, e) ∈ t.list path ↔ t.entry? (d ++ [s]) = some e := by
  rw [← mem_children]
  simp [list, h]

theorem pairwise_list (t : FileTree) (path : String) :
    (t.list path).Pairwise fun a b => a.1 ≤ b.1 := by
  unfold FileTree.list
  split
  · rename_i l _
    have hsorted := @List.pairwise_mergeSort _ (fun a b : String × Entry => !(b.1 < a.1))
      (fun a b c hab hbc => by
        simp only [Bool.not_eq_true', decide_eq_false_iff_not, String.not_lt] at *
        exact String.le_trans hab hbc)
      (fun a b => by
        simp only [Bool.or_eq_true, Bool.not_eq_true', decide_eq_false_iff_not, String.not_lt]
        exact String.le_total a.1 b.1) (t.children l)
    refine hsorted.imp fun h => String.not_lt.mp ?_
    simpa only [Bool.not_eq_true', decide_eq_false_iff_not] using h
  · exact .nil

theorem list_of_pairwise {t : FileTree} {path : String} {d : Location} (h : t.locate path = .ok d)
    (hs : (t.children d).Pairwise fun a b => (!decide (b.1 < a.1)) = true) :
    t.list path = t.children d := by
  simp only [FileTree.list, h, List.mergeSort_of_pairwise hs]

theorem nodup_list (t : FileTree) (path : String) : ((t.list path).map Prod.fst).Nodup := by
  unfold FileTree.list
  split
  · exact ((List.mergeSort_perm _ _).map Prod.fst).nodup_iff.mpr (nodup_children t _)
  · exact List.nodup_nil

theorem ProperlyNamed.isName {t : FileTree} (ht : t.ProperlyNamed) (d : Location) (s : String)
    (e : Entry) (h : t.entry? (d ++ [s]) = some e) : Path.IsName s := by
  rw [entry?_append_singleton] at h
  have hk : d ++ [s] ∈ t.entries.keys := by
    rw [← Table.get?_isSome_iff, h]
    rfl
  exact ht.entries _ hk s (by simp)

end FileTree

end IconCompiler
