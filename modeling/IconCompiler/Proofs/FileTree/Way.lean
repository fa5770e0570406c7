import IconCompiler.Proofs.FileTree.Names
import IconCompiler.Proofs.Text.Words

/-!
The way to a path. Where the steps of a path lead is spelt by the path and does not depend on what
is there. The directories that are made for a file are on the way to the directory that it is in,
and none are made where the path leads to a directory already.
-/

namespace IconCompiler

namespace Text

/-- Pieces that were cut apart are joined again. -/
theorem intercalate_splitAt (separator : Char) (cs : List Char) :
    [separator].intercalate (splitAt (· == separator) cs) = cs := by
  induction cs with
  | nil => rfl
  | cons c cs ih =>
    obtain ⟨p, ps, hp⟩ := List.exists_cons_of_ne_nil (splitAt_ne_nil (· == separator) cs)
    rw [hp] at ih
    unfold splitAt
    split
    · rename_i hc
      rw [hp, List.intercalate_cons_cons, ih, eq_of_beq hc]
      rfl
    · rw [hp]
      cases ps with
      | nil => simpa using ih
      | cons q qs =>
        rw [List.intercalate_cons_cons] at ih ⊢
        rw [← ih]
        rfl

end Text

namespace Path

/-! ## The path that a file is in -/

theorem map_toList_ofList (ps : List (List Char)) :
    (ps.map String.ofList).map String.toList = ps := by
  rw [List.map_map]
  exact (List.map_congr_left fun _ _ => String.toList_ofList).trans (List.map_id ps)

theorem map_ofList_toList (ps : List String) : (ps.map String.toList).map String.ofList = ps := by
  rw [List.map_map]
  exact (List.map_congr_left fun _ _ => String.ofList_toList).trans (List.map_id ps)

theorem intercalate_pieces (p : String) : "/".intercalate (pieces p) = p := by
  apply String.ext
  rw [String.toList_intercalate, pieces, map_toList_ofList]
  exact Text.intercalate_splitAt '/' p.toList

theorem pieces_intercalate {ps : List String} (hne : ps ≠ []) (h : ∀ p ∈ ps, '/' ∉ p.toList) :
    pieces ("/".intercalate ps) = ps := by
  have hpieces : ∀ w ∈ ps.map String.toList, ∀ c ∈ w, (c == '/') = false := by
    intro w hw c hc
    obtain ⟨p, hp, rfl⟩ := List.mem_map.mp hw
    rw [beq_eq_false_iff_ne]
    exact fun e => h p hp (e ▸ hc)
  have hsplit : Text.splitAt (· == '/') (['/'].intercalate (ps.map String.toList)) =
      ps.map String.toList :=
    Text.splitAt_intercalate rfl (by simpa using hne) hpieces
  rw [pieces, String.toList_intercalate]
  exact (congrArg (List.map String.ofList) hsplit).trans (map_ofList_toList ps)

theorem no_slash_of_mem_pieces {p s : String} (h : s ∈ pieces p) : '/' ∉ s.toList := by
  obtain ⟨piece, hpiece, rfl⟩ := List.mem_map.mp h
  intro hs
  rw [String.toList_ofList] at hs
  have := Text.not_mem_splitAt (· == '/') p.toList piece hpiece '/' hs
  contradiction

/-- What does not name anything at the end of a path are points and empty pieces. -/
theorem exists_named_append (ps : List String) :
    ∃ points, ps = named ps ++ points ∧ ∀ x ∈ points, x = "" ∨ x = "." := by
  cases ps with
  | nil => exact ⟨[], rfl, by simp⟩
  | cons p ps =>
    have hsplit := List.takeWhile_append_dropWhile
      (p := fun q : String => decide (q = "" ∨ q = ".")) (l := ps.reverse)
    have hps := congrArg List.reverse hsplit
    rw [List.reverse_append, List.reverse_reverse] at hps
    have hpoints : ∀ x ∈ (ps.reverse.takeWhile fun q => decide (q = "" ∨ q = ".")).reverse,
        x = "" ∨ x = "." := fun x hx =>
      of_decide_eq_true (List.all_eq_true.mp List.all_takeWhile x (List.mem_reverse.mp hx))
    unfold named
    dsimp only
    split
    · rename_i h
      rw [Bool.and_eq_true, List.isEmpty_iff, String.isEmpty_iff] at h
      rw [h.1, List.nil_append] at hps
      refine ⟨p :: ps, rfl, fun x hx => ?_⟩
      rcases List.mem_cons.mp hx with rfl | hx
      · exact Or.inl h.2
      · exact hpoints x (by rwa [hps])
    · exact ⟨_, by rw [List.cons_append, hps], hpoints⟩

theorem named_append_isName {s : String} (hs : IsName s) (front : List String) :
    named (front ++ [s]) = front ++ [s] := by
  have hempty := hs.ne_empty
  have hpoint := hs.ne_point
  cases front with
  | nil => simp [named, hempty]
  | cons p front => simp [named, hempty, hpoint]

theorem isAbsolute_append {p : String} (hp : p ≠ "") (q : String) :
    isAbsolute (p ++ q) = isAbsolute p := by
  have hne : p.toList ≠ [] := fun h => hp (String.toList_eq_nil_iff.mp h)
  obtain ⟨c, cs, hc⟩ := List.exists_cons_of_ne_nil hne
  simp [isAbsolute, hc]

theorem exists_append_of_isAbsolute {p : String} (h : isAbsolute p = true) :
    ∃ rest, p = "/" ++ rest := by
  obtain ⟨cs, hcs⟩ := List.head?_eq_some_iff.mp (eq_of_beq h)
  exact ⟨String.ofList cs, String.ext (by simp [hcs])⟩

theorem steps_intercalate {ps : List String} (h : ∀ p ∈ ps, '/' ∉ p.toList) :
    steps ("/".intercalate ps) = ps.filter (· ≠ "") := by
  by_cases hnil : ps = []
  · rw [hnil]
    rfl
  · rw [steps, pieces_intercalate hnil h]

/-- The first pieces of a path are its front. -/
theorem exists_append_of_pieces {p : String} {front rest : List String}
    (h : pieces p = front ++ rest) (hrest : rest ≠ []) :
    ∃ tail, p = "/".intercalate front ++ tail := by
  have hall := intercalate_pieces p
  rw [h] at hall
  by_cases hnil : front = []
  · exact ⟨p, by rw [hnil]; simp⟩
  · rw [String.intercalate_append_of_ne_nil hnil hrest, String.append_assoc] at hall
    exact ⟨_, hall.symm⟩

/-- The front of a path, or the root where the path is absolute and its front is empty, takes the
steps of the front and starts where the path does. -/
theorem front_or_root {p front rest up : String} (hp : p = front ++ rest)
    (hup : up = if front.isEmpty && isAbsolute p then "/" else front) :
    steps up = steps front ∧ isAbsolute up = isAbsolute p ∧ ∃ rest, p = up ++ rest := by
  by_cases hempty : front = ""
  · subst hempty
    cases habs : isAbsolute p with
    | true =>
      obtain rfl : up = "/" := by rw [hup, habs]; rfl
      exact ⟨rfl, rfl, exists_append_of_isAbsolute habs⟩
    | false =>
      obtain rfl : up = "" := by rw [hup, habs]; rfl
      exact ⟨rfl, rfl, rest, hp⟩
  · have hne : front.isEmpty = false := by
      rw [Bool.eq_false_iff, ne_eq, String.isEmpty_iff]
      exact hempty
    obtain rfl : up = front := by rw [hup, hne]; rfl
    exact ⟨rfl, by rw [hp, isAbsolute_append hempty], rest, hp⟩

/-- A file is in a path that takes the steps of the base, but for points at its end. -/
theorem exists_parent?_join (base s : String) (hs : IsName s) :
    ∃ up points, parent? (join base s) = some up ∧ steps base = steps up ++ points ∧
      (∀ x ∈ points, x = ".") ∧ isAbsolute up = isAbsolute base ∧
      ∃ rest, join base s = up ++ rest := by
  obtain ⟨front, hjoin, hbase⟩ := exists_pieces_join base s hs.no_slash
  obtain ⟨points, hfront, hpoints⟩ := exists_named_append front
  have hpieces : pieces (join base s) = named front ++ (points ++ [s]) := by
    rw [hjoin, ← List.append_assoc, ← hfront]
  -- what is before the name, as far as it names something
  obtain ⟨rest, hrest⟩ := exists_append_of_pieces hpieces (by simp)
  have hsteps : steps ("/".intercalate (named front)) = (named front).filter (· ≠ "") :=
    steps_intercalate fun p hp =>
      no_slash_of_mem_pieces (hpieces ▸ List.mem_append_left _ hp)
  have hbaseSteps : steps base = (named front).filter (· ≠ "") ++ points.filter (· ≠ "") := by
    rw [← List.filter_append, ← hfront]
    rcases hbase with hbase | hbase <;> simp [steps, hbase]
  have hpoint : ∀ x ∈ points.filter (· ≠ ""), x = "." := fun x hx => by
    obtain ⟨hx, hne⟩ := List.mem_filter.mp hx
    exact (hpoints x hx).resolve_left (of_decide_eq_true hne)
  obtain ⟨hup, habs, hprefix⟩ := front_or_root hrest rfl
  refine ⟨_, points.filter (· ≠ ""), ?_, ?_, hpoint, habs.trans (isAbsolute_join base s hs),
    hprefix⟩
  · rw [parent?, hjoin, named_append_isName hs, List.reverse_concat]
    simp only [List.reverse_reverse]
  · rw [hbaseSteps, ← hsteps, hup]

end Path

namespace FileTree

/-! ## Steps -/

/-- Where steps lead from a location, whatever is on the way. -/
def follow (l : Location) (ss : List String) : Location := ss.foldl next l

/-- The location that a path spells. -/
def place (t : FileTree) (path : String) : Location := follow (t.origin path) (Path.steps path)

theorem follow_cons (l : Location) (s : String) (ss : List String) :
    follow l (s :: ss) = follow (next l s) ss := rfl

theorem eq_follow_of_walk {t : FileTree} {l d : Location} {ss : List String}
    (h : t.walk l ss = .ok d) : d = follow l ss := by
  induction ss generalizing l with
  | nil => exact (Except.ok.inj h).symm
  | cons s ss ih => exact ih (walk_cons_eq_ok_iff.mp h).2.2

/-- A path leads to no other location than the one that it spells. -/
theorem LeadsTo.eq_place {t : FileTree} {path : String} {d : Location} (h : t.LeadsTo path d) :
    d = t.place path :=
  eq_follow_of_walk h.walk

theorem follow_points (l : Location) {points : List String} (h : ∀ x ∈ points, x = ".") :
    follow l points = l := by
  induction points with
  | nil => rfl
  | cons x points ih =>
    rw [follow_cons, next, if_pos (h x List.mem_cons_self)]
    exact ih fun y hy => h y (List.mem_cons_of_mem x hy)

/-- Points at the end of a path lead nowhere else. -/
theorem LeadsTo.of_points {t : FileTree} {base up : String} {points : List String} {d : Location}
    (h : t.LeadsTo base d) (hsteps : Path.steps base = Path.steps up ++ points)
    (hpoints : ∀ x ∈ points, x = ".") (habs : Path.isAbsolute up = Path.isAbsolute base) :
    t.LeadsTo up d := by
  have hwalk := h.walk
  rw [hsteps, walk_append] at hwalk
  refine ⟨?_, h.isDirectory⟩
  have horigin : t.origin up = t.origin base := by rw [origin, habs]; rfl
  rw [horigin]
  cases hup : t.walk (t.origin base) (Path.steps up) with
  | error e => simp [hup, Except.bind] at hwalk
  | ok l =>
    simp only [hup, Except.bind] at hwalk
    rw [eq_follow_of_walk hwalk, follow_points l hpoints]

theorem place_eq_of_workingDirectory {t t' : FileTree} (path : String)
    (h : t'.workingDirectory = t.workingDirectory) : t'.place path = t.place path := by
  rw [place, place, origin_eq_of_workingDirectory path h]

/-! ## Directories on the way -/

/-- The second tree is the first with directories added on the way to a path. -/
structure MakesWay (t t' : FileTree) (path : String) : Prop extends AddsDirectories t t' where
  way : ∀ l, t'.entry? l ≠ t.entry? l →
    ∃ ss, ss <+: Path.steps path ∧ l = follow (t.origin path) ss

theorem MakesWay.refl (t : FileTree) (path : String) : MakesWay t t path :=
  ⟨.refl t, fun _ h => absurd rfl h⟩

theorem follow_of_makeAlong {t : FileTree} {l x : Location} {ss : List String}
    (h : FileTree.entry? (t.makeAlong l ss).1 x ≠ t.entry? x) :
    ∃ front, front <+: ss ∧ x = follow l front := by
  induction ss generalizing t l with
  | nil => exact absurd rfl h
  | cons s ss ih =>
    have hcons : (∃ front, front <+: ss ∧ x = follow (next l s) front) →
        ∃ front, front <+: s :: ss ∧ x = follow l front := by
      rintro ⟨front, hfront, hx⟩
      exact ⟨s :: front, List.cons_prefix_cons.mpr ⟨rfl, hfront⟩, hx⟩
    rcases makeAlong_cons_cases t l s ss with hstop | hgo | ⟨hne, -, hput⟩
    · rw [hstop] at h
      exact absurd rfl h
    · rw [hgo] at h
      exact hcons (ih h)
    · rw [hput] at h
      -- what is new was made by this step or further on
      by_cases hx : x = next l s
      · exact hcons ⟨[], List.nil_prefix, hx⟩
      · refine hcons (ih fun hsame => h (hsame.trans ?_))
        rw [entry?_put_of_ne _ _ hne hx]

end FileTree

end IconCompiler
