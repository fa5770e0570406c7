import IconCompiler.Output
import IconCompiler.Proofs.FileTree.Names

/-!
What writing a file does to a file tree: one file of a directory is given a text, and all other
files stay as they are. A write that fails changes no file.
-/

namespace IconCompiler

namespace FileTree

theorem readText_eq_ok_iff (t : FileTree) (path text : String) :
    t.readText path = .ok text ↔ ∃ l c, t.locate path = .ok l ∧
      t.entry? l = some (.file c) ∧ String.fromUTF8? c = some text := by
  unfold readText readBytes find
  cases t.locate path with
  | error e => simp [bind, Except.bind]
  | ok l =>
    cases he : t.entry? l with
    | none => simp [bind, Except.bind, he]
    | some e =>
      cases e with
      | directory => simp [bind, Except.bind, pure, Except.pure, he]
      | file c =>
        cases hc : String.fromUTF8? c <;>
          simp [bind, Except.bind, pure, Except.pure, he, hc]

theorem fromUTF8?_toUTF8 (text : String) : String.fromUTF8? text.toUTF8 = some text := by
  simp [String.fromUTF8?, String.fromUTF8, String.isValidUTF8]

theorem writeText_eq_ok_iff (t t' : FileTree) (path text : String) :
    t.writeText path text = .ok t' ↔
      ∃ l, t.placeForFile path = .ok l ∧ t' = t.put l (.file text.toUTF8) := by
  unfold writeText writeBytes
  cases t.placeForFile path with
  | error e => simp [bind, Except.bind]
  | ok l => simp [bind, Except.bind, pure, Except.pure, eq_comm]

/-- A text that is written by a path is read by it. -/
theorem readText_of_writeText {t t' : FileTree} {path text : String}
    (h : t.writeText path text = .ok t') : t'.readText path = .ok text := by
  obtain ⟨l, hplace, rfl⟩ := (writeText_eq_ok_iff t t' path text).mp h
  obtain ⟨-, hlocate, -⟩ := (placeForFile_eq_ok_iff t path l).mp hplace
  exact (readText_eq_ok_iff _ _ _).mpr ⟨l, _,
    locate_keepsDirectories (.put_placeForFile hplace _) hlocate,
    entry?_put_self t _ (ne_nil_of_placeForFile hplace), fromUTF8?_toUTF8 text⟩

/-- The text of the file at a location. -/
def HasText (t : FileTree) (l : Location) (text : String) : Prop :=
  ∃ c, t.entry? l = some (.file c) ∧ String.fromUTF8? c = some text

/-- The second tree is the first with a text in the file of that name in the directory that `out`
leads to, and with the directories that lead there. -/
structure Wrote (t t' : FileTree) (out s text : String) (d : Location) : Prop where
  keepsDirectories : KeepsDirectories t t'
  leadsTo : t'.LeadsTo out d
  locate : t'.locate (Path.join out s) = .ok (d ++ [s])
  written : t'.entry? (d ++ [s]) = some (.file text.toUTF8)
  file : ∀ l c, l ≠ d ++ [s] → (t'.entry? l = some (.file c) ↔ t.entry? l = some (.file c))
  keeps : ∀ l, t'.entry? l = none → t.entry? l = none
  named : t.ProperlyNamed → t'.ProperlyNamed

theorem Wrote.readText {t t' : FileTree} {out s text : String} {d : Location}
    (h : Wrote t t' out s text d) : t'.readText (Path.join out s) = .ok text :=
  (readText_eq_ok_iff t' _ _).mpr ⟨_, _, h.locate, h.written, fromUTF8?_toUTF8 text⟩

/-- A file of another name reads as before. -/
theorem Wrote.readText_of_ne {t t' : FileTree} {out s text : String} {d : Location}
    (h : Wrote t t' out s text d) (x other : String) (hx : Path.IsName x) (hne : x ≠ s)
    (hr : t.readText (Path.join out x) = .ok other) :
    t'.readText (Path.join out x) = .ok other := by
  obtain ⟨l, c, hl, he, hc⟩ := (readText_eq_ok_iff t _ _).mp hr
  obtain ⟨-, d', hd', -, rfl⟩ := (locate_join t out x l hx).mp hl
  refine (readText_eq_ok_iff t' _ _).mpr
    ⟨_, c, locate_keepsDirectories h.keepsDirectories hl, ?_, hc⟩
  exact (h.file _ c fun e => hne (name_inj e)).mpr he

/-- The second tree is the first with files of these names in the directory of a path, and with
directories. -/
structure WroteAmong (t t' : FileTree) (out : String) (names : List String) : Prop where
  keepsDirectories : KeepsDirectories t t'
  file : ∀ d s c, t'.LeadsTo out d → s ∉ names →
    (t'.entry? (d ++ [s]) = some (.file c) ↔ t.entry? (d ++ [s]) = some (.file c))
  keeps : ∀ l, t'.entry? l = none → t.entry? l = none
  named : t.ProperlyNamed → t'.ProperlyNamed

theorem WroteAmong.refl (t : FileTree) (out : String) (names : List String) :
    WroteAmong t t out names :=
  ⟨.refl t, fun _ _ _ _ _ => Iff.rfl, fun _ h => h, id⟩

theorem Wrote.trans_wroteAmong {t t₁ t' : FileTree} {out s text : String} {d : Location}
    {names : List String} (h : Wrote t t₁ out s text d) (h' : WroteAmong t₁ t' out names) :
    WroteAmong t t' out (s :: names) := by
  refine ⟨h.keepsDirectories.trans h'.keepsDirectories, fun d' x c hd hx => ?_,
    fun l hl => h.keeps l (h'.keeps l hl), h'.named ∘ h.named⟩
  rw [List.mem_cons, not_or] at hx
  obtain ⟨hne, hx⟩ := hx
  -- the first file was written where the path still leads afterwards
  obtain rfl := hd.unique (h.leadsTo.keepsDirectories h'.keepsDirectories)
  rw [h'.file _ x c hd hx]
  exact h.file _ c fun e => hne (name_inj e)

/-- Directories are kept as they are, and files as files, perhaps with other contents. -/
structure KeepsFiles (t t' : FileTree) : Prop where
  keepsDirectories : KeepsDirectories t t'
  file : ∀ l c, t.entry? l = some (.file c) → ∃ c', t'.entry? l = some (.file c')

theorem KeepsFiles.refl (t : FileTree) : KeepsFiles t t := ⟨.refl t, fun _ c h => ⟨c, h⟩⟩

theorem KeepsFiles.trans {t t' t'' : FileTree} (h : KeepsFiles t t') (h' : KeepsFiles t' t'') :
    KeepsFiles t t'' := by
  refine ⟨h.keepsDirectories.trans h'.keepsDirectories, fun l c hc => ?_⟩
  obtain ⟨c', hc'⟩ := h.file l c hc
  exact h'.file l c' hc'

theorem AddsDirectories.keepsFiles {t t' : FileTree} (h : AddsDirectories t t') :
    KeepsFiles t t' :=
  ⟨h.keepsDirectories, fun l c hc => ⟨c, (h.file l c).mpr hc⟩⟩

theorem Wrote.keepsFiles {t t' : FileTree} {out s text : String} {d : Location}
    (h : Wrote t t' out s text d) : KeepsFiles t t' := by
  refine ⟨h.keepsDirectories, fun l c hc => ?_⟩
  by_cases hl : l = d ++ [s]
  · exact ⟨_, hl ▸ h.written⟩
  · exact ⟨c, (h.file l c hl).mpr hc⟩

end FileTree

/-- The error is that this file was not written, or that no directory could be made for it. -/
def WriteError.OfFile (e : WriteError) (path : String) : Prop :=
  (∃ cause, e = .writeFile path cause) ∨
    ∃ up cause, Path.parent? path = some up ∧ e = .createDirectory up cause

namespace Writer

open FileTree

theorem prepare_addsDirectories (t : FileTree) (path : String) :
    AddsDirectories t (prepare t path).1 := by
  unfold prepare
  split
  · exact .refl t
  · split
    · exact .refl t
    · exact makeDirectories_addsDirectories t _

theorem prepare_named {t : FileTree} (ht : t.ProperlyNamed) (path : String) :
    (prepare t path).1.ProperlyNamed := by
  unfold prepare
  split
  · exact ht
  · split
    · exact ht
    · exact ht.makeDirectories _

theorem attempt_eq_ok_iff {w : Writer} {changes : Nat} {change : Except IoError FileTree}
    {t : FileTree} : w.attempt changes change = .ok t ↔
      w.refuses changes = none ∧ change = .ok t := by
  unfold attempt
  split
  · rename_i e he
    simp [he]
  · rename_i he
    simp [he]

theorem ofFile_of_prepare {t : FileTree} {path : String} {e : WriteError}
    (h : (prepare t path).2 = .error e) : e.OfFile path := by
  unfold prepare at h
  split at h
  · contradiction
  · rename_i up hup
    split at h
    · contradiction
    · dsimp only at h
      cases hmade : (t.makeDirectories up).2 with
      | ok =>
        rw [hmade] at h
        contradiction
      | error cause =>
        rw [hmade] at h
        exact Or.inr ⟨up, cause, hup, (Except.error.inj h).symm⟩

/-- A write makes the way to its directory, and then it puts its file there or it fails. -/
theorem write_steps {w : Writer} {changes : Nat} {t t' : FileTree} {out s text : String}
    {outcome : Except WriteError Output} (hw : w.dryRun = false) (hs : Path.IsName s)
    (h : w.write changes t (Path.join out s) text = (t', outcome)) :
    (∃ d, outcome = .ok ⟨Path.join out s, text, true⟩ ∧ w.refuses changes = none ∧
      (prepare t (Path.join out s)).1.LeadsTo out d ∧
      (prepare t (Path.join out s)).1.placeForFile (Path.join out s) = .ok (d ++ [s]) ∧
      t' = (prepare t (Path.join out s)).1.put (d ++ [s]) (.file text.toUTF8)) ∨
    ∃ e, outcome = .error e ∧ e.OfFile (Path.join out s) ∧
      t' = (prepare t (Path.join out s)).1 := by
  cases hp : prepare t (Path.join out s) with
  | mk t₀ made =>
    simp only [write, hw, hp, Bool.false_eq_true, if_false] at h
    cases made with
    | error e =>
      obtain ⟨rfl, rfl⟩ := Prod.mk.inj h
      exact Or.inr ⟨e, rfl, ofFile_of_prepare (congrArg Prod.snd hp), rfl⟩
    | ok =>
      dsimp only at h
      split at h
      · rename_i hc
        obtain ⟨rfl, rfl⟩ := Prod.mk.inj h
        obtain ⟨hrefuses, htext⟩ := attempt_eq_ok_iff.mp hc
        obtain ⟨l, hplace, rfl⟩ := (writeText_eq_ok_iff _ _ _ _).mp htext
        -- where there is a place for the file, the path in front of its name leads to a directory
        obtain ⟨hlocate, -⟩ := (placeForFile_join _ _ _ _ hs).mp hplace
        obtain ⟨-, d, hd, -, rfl⟩ := (locate_join _ _ _ _ hs).mp hlocate
        exact Or.inl ⟨d, rfl, hrefuses, hd, hplace, rfl⟩
      · obtain ⟨rfl, rfl⟩ := Prod.mk.inj h
        exact Or.inr ⟨_, rfl, Or.inl ⟨_, rfl⟩, rfl⟩

/-- A file that is put where the way was made for it. -/
theorem wrote_put {t : FileTree} {out s : String} {d : Location} (text : String)
    (hs : Path.IsName s) (hd : (prepare t (Path.join out s)).1.LeadsTo out d)
    (hplace : (prepare t (Path.join out s)).1.placeForFile (Path.join out s) = .ok (d ++ [s])) :
    Wrote t ((prepare t (Path.join out s)).1.put (d ++ [s]) (.file text.toUTF8)) out s text d := by
  have ha := prepare_addsDirectories t (Path.join out s)
  obtain ⟨-, hlocate, -⟩ := (placeForFile_eq_ok_iff _ _ _).mp hplace
  have hne := ne_nil_of_placeForFile hplace
  have hk := KeepsDirectories.put_placeForFile hplace text.toUTF8
  refine ⟨ha.keepsDirectories.trans hk, hd.keepsDirectories hk,
    locate_keepsDirectories hk hlocate, ?_, ?_, ?_, ?_⟩
  · exact entry?_put_self _ _ hne
  · intro x c hx
    rw [entry?_put_of_ne _ _ hne hx]
    exact ha.file x c
  · intro x hx
    rw [entry?_put _ _ _ _ hne] at hx
    split at hx
    · contradiction
    · obtain e | ⟨hnone, -⟩ := ha.entry? x
      · exact e ▸ hx
      · exact hnone
  · intro ht
    have hn := prepare_named ht (Path.join out s)
    exact hn.put _ _ (names_append (hn.leadsTo hd) hs)

theorem wrote_of_write {w : Writer} {changes : Nat} {t t' : FileTree} {out s text : String}
    {o : Output} (hw : w.dryRun = false) (hs : Path.IsName s)
    (h : w.write changes t (Path.join out s) text = (t', .ok o)) :
    ∃ d, Wrote t t' out s text d := by
  rcases write_steps hw hs h with ⟨d, -, -, hd, hplace, rfl⟩ | ⟨e, he, -⟩
  · exact ⟨d, wrote_put text hs hd hplace⟩
  · contradiction

theorem output_of_write {w : Writer} {changes : Nat} {t t' : FileTree} {path text : String}
    {o : Output} (h : w.write changes t path text = (t', .ok o)) :
    o = ⟨path, text, !w.dryRun⟩ := by
  unfold write at h
  split at h
  · rename_i hw
    simp only [Prod.mk.injEq, Except.ok.injEq] at h
    rw [← h.2, hw]
    rfl
  · rename_i hw
    split at h
    · simp at h
    · split at h
      · simp only [Prod.mk.injEq, Except.ok.injEq] at h
        rw [Bool.not_eq_true] at hw
        rw [← h.2, hw]
        rfl
      · simp at h

end Writer

end IconCompiler
