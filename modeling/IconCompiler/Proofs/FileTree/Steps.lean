import IconCompiler.FileTree.Path

/-!
The steps of joined paths. A path that is joined with the name of a file leads where the path leads,
and then to that name.
-/

namespace IconCompiler

namespace Text

variable (isSeparator : Char → Bool)

theorem splitAt_ne_nil (cs : List Char) : splitAt isSeparator cs ≠ [] := by
  cases cs with
  | nil => simp [splitAt]
  | cons c cs =>
    unfold splitAt
    split
    · simp
    · split <;> simp

theorem splitAt_append (a b : List Char) (c : Char) (hc : isSeparator c = true) :
    splitAt isSeparator (a ++ c :: b) = splitAt isSeparator a ++ splitAt isSeparator b := by
  induction a with
  | nil => simp [splitAt, hc]
  | cons x a ih =>
    by_cases hx : isSeparator x = true
    · simp [splitAt, hx, ih]
    · simp only [List.cons_append, splitAt, hx, Bool.false_eq_true, if_false, ih]
      obtain ⟨p, ps, hp⟩ := List.exists_cons_of_ne_nil (splitAt_ne_nil isSeparator a)
      simp [hp]

/-- What stands in front without a separator belongs to the first piece. -/
theorem splitAt_append_of_forall_not {a b piece : List Char} {pieces : List (List Char)}
    (h : ∀ c ∈ a, isSeparator c = false) (hb : splitAt isSeparator b = piece :: pieces) :
    splitAt isSeparator (a ++ b) = (a ++ piece) :: pieces := by
  induction a with
  | nil => exact hb
  | cons x a ih =>
    have hx : isSeparator x = false := h x List.mem_cons_self
    have ha := ih fun c hc => h c (List.mem_cons_of_mem x hc)
    simp [splitAt, hx, ha]

theorem splitAt_of_forall_not (a : List Char) (h : ∀ c ∈ a, isSeparator c = false) :
    splitAt isSeparator a = [a] := by
  have ha : splitAt isSeparator (a ++ []) = [a ++ []] :=
    splitAt_append_of_forall_not isSeparator h rfl
  rwa [List.append_nil] at ha

end Text

namespace Path

/-- Texts that a directory can have as the name of an entry. -/
structure IsName (s : String) : Prop where
  ne_empty : s ≠ ""
  no_slash : '/' ∉ s.toList
  ne_point : s ≠ "."
  ne_points : s ≠ ".."

instance (s : String) : Decidable (IsName s) :=
  decidable_of_iff (s ≠ "" ∧ '/' ∉ s.toList ∧ s ≠ "." ∧ s ≠ "..")
    ⟨fun ⟨h₁, h₂, h₃, h₄⟩ => ⟨h₁, h₂, h₃, h₄⟩, fun ⟨h₁, h₂, h₃, h₄⟩ => ⟨h₁, h₂, h₃, h₄⟩⟩

theorem pieces_append_slash (a b : String) : pieces (a ++ "/" ++ b) = pieces a ++ pieces b := by
  have h := Text.splitAt_append (· == '/') a.toList b.toList '/' rfl
  simp [pieces, h]

theorem pieces_of_no_slash (s : String) (hs : '/' ∉ s.toList) : pieces s = [s] := by
  have h := Text.splitAt_of_forall_not (· == '/') s.toList fun c hc => by
    rw [beq_eq_false_iff_ne]
    exact fun e => hs (e ▸ hc)
  simp [pieces, h]

theorem not_isAbsolute_of_no_slash (s : String) (hs : '/' ∉ s.toList) : isAbsolute s = false := by
  unfold isAbsolute
  cases h : s.toList with
  | nil => rfl
  | cons c cs =>
    rw [h] at hs
    simp only [List.head?_cons, beq_eq_false_iff_ne, ne_eq, Option.some.injEq]
    exact fun e => hs (e ▸ List.mem_cons_self)

/-- A path without its slash at the end. -/
theorem eq_append_slash_of_endsInSlash (p : String) (h : endsInSlash p = true) :
    ∃ q, p = q ++ "/" := by
  simp only [endsInSlash, beq_iff_eq, List.getLast?_eq_some_iff] at h
  obtain ⟨cs, hcs⟩ := h
  exact ⟨String.ofList cs, String.ext (by simp [hcs])⟩

theorem join_eq_append (base s : String) (hs : '/' ∉ s.toList) :
    ∃ front, join base s = front ++ s := by
  unfold join
  rw [not_isAbsolute_of_no_slash s hs]
  split
  · contradiction
  · split
    · exact ⟨base, rfl⟩
    · exact ⟨base ++ "/", rfl⟩

/-- No slash is put before the name where the base is empty or already ends in one. -/
theorem exists_pieces_join (base s : String) (hs : '/' ∉ s.toList) :
    ∃ front, pieces (join base s) = front ++ [s] ∧
      (pieces base = front ∨ pieces base = front ++ [""]) := by
  have hp := pieces_of_no_slash s hs
  have hempty := pieces_of_no_slash "" (by simp)
  unfold join
  rw [not_isAbsolute_of_no_slash s hs]
  split
  · contradiction
  · split
    · rename_i h
      rw [Bool.or_eq_true, String.isEmpty_iff] at h
      obtain rfl | h := h
      · exact ⟨[], by simp [hp], Or.inr hempty⟩
      · obtain ⟨q, rfl⟩ := eq_append_slash_of_endsInSlash base h
        have hq : pieces (q ++ "/") = pieces q ++ [""] := by
          rw [← String.append_empty (s := q ++ "/"), pieces_append_slash, hempty]
        exact ⟨pieces q, by rw [pieces_append_slash, hp], Or.inr hq⟩
    · exact ⟨pieces base, by rw [pieces_append_slash, hp], Or.inl rfl⟩

theorem steps_join (base s : String) (hs : IsName s) : steps (join base s) = steps base ++ [s] := by
  obtain ⟨front, hjoin, hbase⟩ := exists_pieces_join base s hs.no_slash
  have hne : s ≠ "" := hs.ne_empty
  rcases hbase with hbase | hbase <;> simp [steps, hjoin, hbase, hne]

theorem parts_join (base s : String) (hs : IsName s) : parts (join base s) = parts base ++ [s] := by
  obtain ⟨front, hjoin, hbase⟩ := exists_pieces_join base s hs.no_slash
  have hne : s ≠ "" := hs.ne_empty
  have hpoint : s ≠ "." := hs.ne_point
  cases front with
  | nil =>
    have hnil : pieces base ≠ [] := by simp [pieces, Text.splitAt_ne_nil]
    have hempty := hbase.resolve_left hnil
    simp [parts, hjoin, hempty, hne]
  | cons first rest =>
    rcases hbase with hbase | hbase <;>
      simp [parts, hjoin, hbase, hne, hpoint, List.filter_cons] <;> split <;> simp

/-- Paths of names in one directory are spelt alike only if the names are the same. -/
theorem same_join_iff (base s s' : String) (hs : IsName s) (hs' : IsName s') :
    same (join base s) (join base s') = true ↔ s = s' := by
  rw [same, Bool.and_eq_true, beq_iff_eq, beq_iff_eq, parts_join base s hs, parts_join base s' hs']
  refine ⟨fun h => List.singleton_inj.mp (List.append_inj_right' h.2 rfl), ?_⟩
  rintro rfl
  exact ⟨rfl, rfl⟩

theorem endsInSlash_append_of_isName (front s : String) (hs : IsName s) :
    endsInSlash (front ++ s) = false := by
  have hne : s.toList ≠ [] := fun h => hs.ne_empty (String.toList_eq_nil_iff.mp h)
  have hlast : (front ++ s).toList.getLast? = some (s.toList.getLast hne) := by
    rw [String.toList_append, List.getLast?_append, List.getLast?_eq_some_getLast hne]
    rfl
  rw [endsInSlash, hlast, beq_eq_false_iff_ne, ne_eq, Option.some.injEq]
  exact fun h => hs.no_slash (h ▸ List.getLast_mem hne)

theorem endsInSlash_join (base s : String) (hs : IsName s) : endsInSlash (join base s) = false := by
  obtain ⟨front, h⟩ := join_eq_append base s hs.no_slash
  rw [h]
  exact endsInSlash_append_of_isName front s hs

theorem isAbsolute_join (base s : String) (hs : IsName s) :
    isAbsolute (join base s) = isAbsolute base := by
  have habs := not_isAbsolute_of_no_slash s hs.no_slash
  by_cases hb : base = ""
  · subst hb
    simp [join, habs]
    rfl
  · have hne : base.toList ≠ [] := fun h => hb (String.toList_eq_nil_iff.mp h)
    obtain ⟨c, cs, hc⟩ := List.exists_cons_of_ne_nil hne
    unfold join
    rw [habs]
    split
    · contradiction
    · split <;> simp [isAbsolute, hc]

theorem join_injective (base s s' : String) (hs : '/' ∉ s.toList) (hs' : '/' ∉ s'.toList)
    (h : join base s = join base s') : s = s' := by
  unfold join at h
  rw [not_isAbsolute_of_no_slash s hs, not_isAbsolute_of_no_slash s' hs'] at h
  simp only [Bool.false_eq_true, if_false] at h
  split at h <;> exact (String.append_right_inj _).mp h

theorem map_join_injective (base : String) {ss ss' : List String} (hs : ∀ s ∈ ss, '/' ∉ s.toList)
    (hs' : ∀ s ∈ ss', '/' ∉ s.toList) (h : ss.map (join base) = ss'.map (join base)) :
    ss = ss' := by
  induction ss generalizing ss' with
  | nil => exact (List.map_eq_nil_iff.mp h.symm).symm
  | cons s ss ih =>
    cases ss' with
    | nil => contradiction
    | cons s' ss' =>
      obtain ⟨hhead, htail⟩ := List.cons.inj h
      rw [join_injective base s s' (hs s List.mem_cons_self) (hs' s' List.mem_cons_self) hhead,
        ih (fun x hx => hs x (List.mem_cons_of_mem s hx))
          (fun x hx => hs' x (List.mem_cons_of_mem s' hx)) htail]

end Path

end IconCompiler
