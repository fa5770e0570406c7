import IconCompiler.Discovery
import IconCompiler.Proofs.Output.Writing
import IconCompiler.Proofs.Text.Bytes

/-!
What a scan finds. The drawings of a directory are found in the order of the bytes of their names,
each with its text, but for those that an ignore file names and those whose path cannot be followed.
-/

namespace IconCompiler

section

variable {ε α β : Type} {f : α → Except ε β} {xs : List α}

theorem mapM_eq_ok_iff {ys : List β} : xs.mapM f = .ok ys ↔ xs.map f = ys.map .ok := by
  induction xs generalizing ys with
  | nil => cases ys <;> simp [pure, Except.pure]
  | cons x xs ih =>
    cases ys with
    | nil =>
      cases hx : f x <;> cases hxs : xs.mapM f <;>
        simp [hx, hxs, bind, Except.bind, pure, Except.pure]
    | cons y ys =>
      rw [List.map_cons, List.map_cons, List.cons.injEq, ← ih]
      cases hx : f x <;> cases hxs : xs.mapM f <;>
        simp [hx, hxs, bind, Except.bind, pure, Except.pure]

theorem exists_of_mapM_eq_error {e : ε} (h : xs.mapM f = .error e) :
    ∃ x ∈ xs, f x = .error e := by
  induction xs with
  | nil => simp [pure, Except.pure] at h
  | cons x xs ih =>
    cases hx : f x with
    | error e' =>
      obtain rfl : e' = e := by simpa [hx, bind, Except.bind] using h
      exact ⟨x, List.mem_cons_self, hx⟩
    | ok y =>
      cases hxs : xs.mapM f with
      | error e' =>
        obtain rfl : e' = e := by simpa [hx, hxs, bind, Except.bind] using h
        obtain ⟨x', hx', he⟩ := ih hxs
        exact ⟨x', List.mem_cons_of_mem x hx', he⟩
      | ok ys => simp [hx, hxs, bind, Except.bind, pure, Except.pure] at h

end

namespace Discovery

open FileTree

variable {t : FileTree} {gitignore : Bool} {root name : String} {d : Location}

/-- A file directly in a directory that has the extension of drawings. -/
structure Drawing (t : FileTree) (d : Location) (name : String) : Prop where
  file : ∃ c, t.entry? (d ++ [name]) = some (.file c)
  extension : Path.extension? name = some Discovery.extension

/-- The path of a name in a directory can be followed. -/
structure Followed (root name : String) : Prop where
  path : fault? (Path.join root name) = none
  name : name.utf8ByteSize ≤ longestName

/-- A name that a scan does not pass over. -/
structure Seen (t : FileTree) (gitignore : Bool) (root : String) (d : Location) (name : String) :
    Prop where
  followed : Followed root name
  not_ignored : name ∉ ignored t gitignore d

theorem isFile_iff (t : FileTree) (path : String) :
    t.isFile path = true ↔ ∃ l c, t.locate path = .ok l ∧ t.entry? l = some (.file c) := by
  unfold isFile find
  cases t.locate path with
  | error e => simp [bind, Except.bind]
  | ok l =>
    cases he : t.entry? l with
    | none => simp [bind, Except.bind, he]
    | some e => cases e <;> simp [bind, Except.bind, pure, Except.pure, he]

theorem locate_of_followed (hd : t.LocatesDirectory root d) (hs : Path.IsName name)
    (h : Followed root name) : t.locate (Path.join root name) = .ok (d ++ [name]) :=
  (locate_join t root name _ hs).mpr ⟨h.path, d, hd.leadsTo, h.name, rfl⟩

theorem isFile_join_iff (hd : t.LocatesDirectory root d) (hs : Path.IsName name) :
    t.isFile (Path.join root name) = true ↔
      Followed root name ∧ ∃ c, t.entry? (d ++ [name]) = some (.file c) := by
  rw [isFile_iff]
  constructor
  · rintro ⟨l, c, hl, hc⟩
    obtain ⟨hpath, d', hd', hname, rfl⟩ := (locate_join t root name l hs).mp hl
    obtain rfl := hd.leadsTo.unique hd'
    exact ⟨⟨hpath, hname⟩, c, hc⟩
  · rintro ⟨hfollowed, c, hc⟩
    exact ⟨_, c, locate_of_followed hd hs hfollowed, hc⟩

theorem mem_drawingNames_iff (ht : t.ProperlyNamed) (hd : t.LocatesDirectory root d) :
    name ∈ drawingNames t gitignore root ↔ Drawing t d name ∧ Seen t gitignore root d name := by
  have hlist : name ∈ (t.list root).map Prod.fst ↔ ∃ e, t.entry? (d ++ [name]) = some e := by
    simp [List.mem_map, mem_list t root d _ _ hd.locate]
  rw [drawingNames, hd.locate]
  simp only [isDrawing, List.mem_filter, hlist, Bool.and_eq_true, beq_iff_eq, Bool.not_eq_true',
    List.contains_eq_mem, decide_eq_false_iff_not]
  constructor
  · rintro ⟨⟨e, he⟩, ⟨hfile, hextension⟩, hignored⟩
    obtain ⟨hfollowed, hc⟩ := (isFile_join_iff hd (ht.isName d name e he)).mp hfile
    exact ⟨⟨hc, hextension⟩, hfollowed, hignored⟩
  · rintro ⟨⟨⟨c, hc⟩, hextension⟩, hfollowed, hignored⟩
    have hs := ht.isName d name _ hc
    exact ⟨⟨_, hc⟩, ⟨(isFile_join_iff hd hs).mpr ⟨hfollowed, c, hc⟩, hextension⟩, hignored⟩

/-- The names are told in the order of their bytes, and so none of them twice. -/
theorem pairwise_drawingNames (t : FileTree) (gitignore : Bool) (root : String) :
    (drawingNames t gitignore root).Pairwise fun a b => Text.bytes a < Text.bytes b := by
  have hle := List.pairwise_map.mpr (pairwise_list t root)
  have hlt := (hle.and (nodup_list t root)).imp fun {a b} ⟨h, hne⟩ =>
    Text.bytes_lt (Decidable.not_not.mp fun hge =>
      hne (String.le_antisymm h (String.not_lt.mp hge)))
  unfold drawingNames
  split
  · exact hlt.sublist List.filter_sublist
  · exact .nil

/-! ## Reading -/

theorem read_eq_ok_iff {f : SourceFile} : read t root name = .ok f ↔
    f.path = Path.join root name ∧ f.fileName = name ∧
      t.readText (Path.join root name) = .ok f.content := by
  unfold read
  cases hread : t.readText (Path.join root name) with
  | error e => simp [hread, Except.mapError, bind, Except.bind]
  | ok text =>
    obtain ⟨path, fileName, content⟩ := f
    simp [hread, Except.mapError, bind, Except.bind, pure, Except.pure, eq_comm]

theorem read_eq_error_iff {e : ScanError} : read t root name = .error e ↔
    ∃ cause, t.readText (Path.join root name) = .error cause ∧
      e = .unreadable (Path.join root name) cause := by
  unfold read
  cases hread : t.readText (Path.join root name) with
  | error cause => simp [hread, Except.mapError, bind, Except.bind, eq_comm]
  | ok text => simp [hread, Except.mapError, bind, Except.bind, pure, Except.pure]

theorem readText_join_iff (hd : t.LocatesDirectory root d) (hs : Path.IsName name)
    (h : Followed root name) {text : String} :
    t.readText (Path.join root name) = .ok text ↔ t.HasText (d ++ [name]) text := by
  rw [readText_eq_ok_iff, HasText, locate_of_followed hd hs h]
  simp only [Except.ok.injEq, exists_and_left, exists_eq_left']

theorem map_fileName_of_map_read {names : List String} {files : List SourceFile}
    (h : names.map (read t root) = files.map .ok) : files.map (·.fileName) = names := by
  induction names generalizing files with
  | nil => rw [List.map_eq_nil_iff.mp h.symm, List.map_nil]
  | cons name names ih =>
    cases files with
    | nil => contradiction
    | cons f files =>
      obtain ⟨hread, hrest⟩ := List.cons.inj h
      rw [List.map_cons, ih hrest, (read_eq_ok_iff.mp hread).2.1]

theorem mem_iff_of_map_read {names : List String} {files : List SourceFile}
    (h : names.map (read t root) = files.map .ok) {f : SourceFile} :
    f ∈ files ↔ f.fileName ∈ names ∧ read t root f.fileName = .ok f := by
  have hok : f ∈ files ↔ Except.ok f ∈ files.map (Except.ok (ε := ScanError)) := by simp
  rw [hok, ← h, List.mem_map]
  refine ⟨?_, fun hf => ⟨_, hf⟩⟩
  rintro ⟨name, hname, hf⟩
  rw [(read_eq_ok_iff.mp hf).2.1]
  exact ⟨hname, hf⟩

/-! ## Scanning -/

theorem scan_eq_ok_iff (h : t.isDirectory root = true) {files : List SourceFile} :
    scan t gitignore root = .ok files ↔
      files ≠ [] ∧ (drawingNames t gitignore root).map (read t root) = files.map .ok := by
  rw [← mapM_eq_ok_iff, scan, if_pos h]
  cases (drawingNames t gitignore root).mapM (read t root) with
  | error e => simp [bind, Except.bind]
  | ok found =>
    cases found with
    | nil => simp [bind, Except.bind, eq_comm]
    | cons f found =>
      simp only [bind, Except.bind, pure, Except.pure, List.isEmpty_cons, Bool.false_eq_true,
        if_false, Except.ok.injEq]
      refine ⟨?_, And.right⟩
      rintro rfl
      exact ⟨List.cons_ne_nil f found, rfl⟩

theorem scan_eq_error (h : t.isDirectory root = true) {e : ScanError}
    (he : scan t gitignore root = .error e) :
    drawingNames t gitignore root = [] ∧ e = .noDrawings root ∨
      ∃ name ∈ drawingNames t gitignore root, read t root name = .error e := by
  rw [scan, if_pos h] at he
  cases hfound : (drawingNames t gitignore root).mapM (read t root) with
  | error e' =>
    obtain rfl : e' = e := by simpa [hfound, bind, Except.bind] using he
    exact Or.inr (exists_of_mapM_eq_error hfound)
  | ok found =>
    cases found with
    | nil =>
      refine Or.inl ⟨List.map_eq_nil_iff.mp (mapM_eq_ok_iff.mp hfound), ?_⟩
      simpa [hfound, bind, Except.bind, eq_comm] using he
    | cons f files => simp [hfound, bind, Except.bind, pure, Except.pure] at he

/-- What a scan answers that finds the files of certain names in a directory, and no others. -/
def Finds (t : FileTree) (root : String) (d : Location) (P : String → Prop) :
    Except ScanError (List SourceFile) → Prop
  | .ok files => files ≠ [] ∧
      files.Pairwise (fun f g => Text.bytes f.fileName < Text.bytes g.fileName) ∧
      ∀ f, f ∈ files ↔ P f.fileName ∧ f.path = Path.join root f.fileName ∧
        t.HasText (d ++ [f.fileName]) f.content
  | .error e => e = .noDrawings root ∧ ∀ name, ¬ P name

/-- A scan that finds all files of certain names says which names these are. -/
theorem Finds.unique {P Q : String → Prop} {answer : Except ScanError (List SourceFile)}
    (hP : ∀ name, P name → ∃ text, t.HasText (d ++ [name]) text) (h : Finds t root d P answer)
    (h' : Finds t root d Q answer) (hname : P name) : Q name := by
  cases answer with
  | error e => exact absurd hname (h.2 name)
  | ok files =>
    obtain ⟨text, htext⟩ := hP name hname
    have hmem := (h.2.2 ⟨Path.join root name, name, text⟩).mpr ⟨hname, rfl, htext⟩
    exact ((h'.2.2 _).mp hmem).1

/-- What is found are the drawings that are not passed over, each with its text. -/
theorem mem_found_iff (ht : t.ProperlyNamed) (hd : t.LocatesDirectory root d)
    {files : List SourceFile}
    (h : (drawingNames t gitignore root).map (read t root) = files.map .ok) {f : SourceFile} :
    f ∈ files ↔ (Drawing t d f.fileName ∧ Seen t gitignore root d f.fileName) ∧
      f.path = Path.join root f.fileName ∧ t.HasText (d ++ [f.fileName]) f.content := by
  rw [mem_iff_of_map_read h, mem_drawingNames_iff ht hd, read_eq_ok_iff]
  refine and_congr_right fun ⟨hdrawing, hseen⟩ => ?_
  obtain ⟨c, hc⟩ := hdrawing.file
  rw [readText_join_iff hd (ht.isName d _ _ hc) hseen.followed]
  simp only [true_and]

/-- What a scan finds in any case are the drawings that it does not pass over. -/
theorem scan_finds (ht : t.ProperlyNamed) (hd : t.LocatesDirectory root d)
    (htext : ∀ name, Drawing t d name → Seen t gitignore root d name →
      ∃ text, t.HasText (d ++ [name]) text) :
    Finds t root d (fun name => Drawing t d name ∧ Seen t gitignore root d name)
      (scan t gitignore root) := by
  have hroot := (isDirectory_iff t root).mpr ⟨d, hd⟩
  cases hscan : scan t gitignore root with
  | ok files =>
    obtain ⟨hne, hread⟩ := (scan_eq_ok_iff hroot).mp hscan
    refine ⟨hne, ?_, fun f => mem_found_iff ht hd hread⟩
    have hsorted := pairwise_drawingNames t gitignore root
    rw [← map_fileName_of_map_read hread] at hsorted
    exact (List.pairwise_map (R := fun a b => Text.bytes a < Text.bytes b)).mp hsorted
  | error e =>
    rcases scan_eq_error hroot hscan with ⟨hnil, rfl⟩ | ⟨name, hname, he⟩
    · refine ⟨rfl, fun name hname => ?_⟩
      have hmem := (mem_drawingNames_iff ht hd).mpr hname
      rw [hnil] at hmem
      contradiction
    · -- whatever is seen has a text, so that nothing is in the way of reading it
      obtain ⟨hdrawing, hseen⟩ := (mem_drawingNames_iff ht hd).mp hname
      obtain ⟨c, hc⟩ := hdrawing.file
      obtain ⟨text, htext⟩ := htext name hdrawing hseen
      obtain ⟨cause, hcause, -⟩ := read_eq_error_iff.mp he
      rw [(readText_join_iff hd (ht.isName d _ _ hc) hseen.followed).mpr htext] at hcause
      contradiction

theorem scan_finds_of_seen (ht : t.ProperlyNamed) (hd : t.LocatesDirectory root d)
    (htext : ∀ name, Drawing t d name → ∃ text, t.HasText (d ++ [name]) text)
    (hseen : ∀ name, Drawing t d name → Seen t gitignore root d name) :
    Finds t root d (Drawing t d) (scan t gitignore root) := by
  have hsame : (fun name => Drawing t d name ∧ Seen t gitignore root d name) = Drawing t d :=
    funext fun name => propext (and_iff_left_of_imp (hseen name))
  exact hsame ▸ scan_finds ht hd fun name hname _ => htext name hname

/-- Ignore files are the only files that have a say in what is passed over. -/
theorem ignored_eq_nil (h : ∀ l, l <+: d → t.entry? (l ++ [".ignore"]) = none) :
    ignored t false d = [] := by
  have hnames : ∀ l ∈ ancestry d, namesIn t l ".ignore" = [] := by
    intro l hl
    obtain ⟨n, -, rfl⟩ := List.mem_map.mp hl
    rw [namesIn, h _ (List.take_prefix _ d)]
  simpa [ignored, List.flatMap_eq_nil_iff] using hnames

/-- Without an ignore file all drawings are found whose paths can be followed. -/
theorem scan_finds_all (ht : t.ProperlyNamed) (hd : t.LocatesDirectory root d)
    (htext : ∀ name, Drawing t d name → ∃ text, t.HasText (d ++ [name]) text)
    (hpath : ∀ name, Drawing t d name → Followed root name)
    (hignore : ∀ l, l <+: d → t.entry? (l ++ [".ignore"]) = none) :
    Finds t root d (Drawing t d) (scan t false root) := by
  refine scan_finds_of_seen ht hd htext fun name hname => ⟨hpath name hname, ?_⟩
  rw [ignored_eq_nil hignore]
  exact List.not_mem_nil

end Discovery

end IconCompiler
