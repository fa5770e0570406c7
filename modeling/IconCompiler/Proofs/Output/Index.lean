import IconCompiler.Proofs.Output.Cleaning
import IconCompiler.Proofs.Variant.Index

/-!
The index of a directory and the files that it exports from. They stay together when a file is
written, unless it is an index that names what is not there, and when files go that the index does
not name.
-/

namespace IconCompiler

open FileTree

/-! ## Trees -/

namespace FileTree

/-- The directory of a path has a file of this name. -/
def HasFile (t : FileTree) (out s : String) : Prop :=
  ∃ d c, t.LeadsTo out d ∧ t.entry? (d ++ [s]) = some (.file c)

theorem HasFile.keepsFiles {t t' : FileTree} {out s : String} (h : t.HasFile out s)
    (hk : KeepsFiles t t') : t'.HasFile out s := by
  obtain ⟨d, c, hd, hc⟩ := h
  obtain ⟨c', hc'⟩ := hk.file _ c hc
  exact ⟨d, c', hd.keepsDirectories hk.keepsDirectories, hc'⟩

/-- Whether an entry is a file with the bytes of this text. -/
def Entry.spells (text : String) : Entry → Bool
  | .directory => false
  | .file c => c.data.toList == text.toUTF8.data.toList

theorem HasText.unique {t : FileTree} {l : Location} {text text' : String} (h : t.HasText l text)
    (h' : t.HasText l text') : text' = text := by
  obtain ⟨c, hc, htext⟩ := h
  obtain ⟨c', hc', htext'⟩ := h'
  rw [hc, Option.some.injEq, Entry.file.injEq] at hc'
  rw [← hc', htext, Option.some.injEq] at htext'
  exact htext'.symm

theorem hasText_of_spells {t : FileTree} {l : Location} {text : String}
    (h : (t.entry? l).any (Entry.spells text) = true) : t.HasText l text := by
  cases he : t.entry? l with
  | none => simp [he] at h
  | some e =>
    rw [he] at h
    cases e with
    | directory => contradiction
    | file c =>
      have hbytes : c = text.toUTF8 := ByteArray.ext (Array.toList_inj.mp (eq_of_beq h))
      exact ⟨c, he, hbytes ▸ fromUTF8?_toUTF8 text⟩

theorem Wrote.hasText {t t' : FileTree} {out s text : String} {d : Location}
    (h : Wrote t t' out s text d) : t'.HasText (d ++ [s]) text :=
  ⟨_, h.written, fromUTF8?_toUTF8 text⟩

theorem Wrote.hasText_of_ne {t t' : FileTree} {out s text other : String} {d l : Location}
    (h : Wrote t t' out s text d) (hl : l ≠ d ++ [s]) : t'.HasText l other ↔ t.HasText l other := by
  simp only [HasText, h.file l _ hl]

theorem AddsDirectories.hasText {t t' : FileTree} (h : AddsDirectories t t') {l : Location}
    {text : String} : t'.HasText l text ↔ t.HasText l text := by
  simp only [HasText, h.file]

end FileTree

section

variable (v : Variant) (typed : Bool)

/-- Every module that the index of a directory exports from is a file of the directory. -/
def IndexResolves (t : FileTree) (d : Location) : Prop :=
  ∀ text, t.HasText (d ++ [v.indexFileName typed]) text → ∀ m ∈ Exports.modules text,
    ∃ c, t.entry? (d ++ [v.moduleFile typed m]) = some (.file c)

/-- What runs keep of a tree. -/
structure Safe (t : FileTree) (d : Location) : Prop where
  named : t.ProperlyNamed
  resolves : IndexResolves v typed t d

end

variable {v : Variant} {typed : Bool} {t t' : FileTree} {out s text : String} {d : Location}

theorem Safe.addsDirectories (h : Safe v typed t d) (ha : AddsDirectories t t')
    (hn : t'.ProperlyNamed) : Safe v typed t' d := by
  refine ⟨hn, fun text htext m hm => ?_⟩
  obtain ⟨c, hc⟩ := h.resolves text (ha.hasText.mp htext) m hm
  exact ha.keepsFiles.file _ c hc

/-- The modules of a new index are in its directory before it is. -/
theorem Safe.wrote (h : Safe v typed t d) {d₀ : Location} (hw : Wrote t t' out s text d₀)
    (hindex : s = v.indexFileName typed →
      ∀ m ∈ Exports.modules text, t.HasFile out (v.moduleFile typed m)) : Safe v typed t' d := by
  refine ⟨hw.named h.named, fun text' htext' m hm => ?_⟩
  by_cases hl : d ++ [v.indexFileName typed] = d₀ ++ [s]
  · obtain ⟨rfl, hs⟩ := List.append_inj' hl rfl
    obtain rfl := (List.singleton_inj.mp hs).symm
    obtain rfl := hw.hasText.unique htext'
    obtain ⟨d', c, hd', hc⟩ := (hindex rfl m hm).keepsFiles hw.keepsFiles
    obtain rfl := hw.leadsTo.unique hd'
    exact ⟨c, hc⟩
  · obtain ⟨c, hc⟩ := h.resolves text' ((hw.hasText_of_ne hl).mp htext') m hm
    exact hw.keepsFiles.file _ c hc

/-- The index of the directory of a path has this text. -/
def IndexIs (v : Variant) (typed : Bool) (t : FileTree) (out text : String) : Prop :=
  ∃ d, t.LeadsTo out d ∧ t.HasText (d ++ [v.indexFileName typed]) text

/-- The index of the directory of a path exports the components of these names and nothing else. -/
def IndexLists (v : Variant) (typed : Bool) (t : FileTree) (out : String) (names : List String) :
    Prop :=
  ∃ text, IndexIs v typed t out text ∧ Exports.modules text = names.map (v.importPath typed)

theorem IndexIs.wrote {index : String} (h : IndexIs v typed t out index) {d₀ : Location}
    (hw : Wrote t t' out s text d₀) (hs : s ≠ v.indexFileName typed) :
    IndexIs v typed t' out index := by
  obtain ⟨d, hd, htext⟩ := h
  refine ⟨d, hd.keepsDirectories hw.keepsDirectories, (hw.hasText_of_ne fun e => hs ?_).mpr htext⟩
  exact (name_inj e).symm

/-- Files go that the index does not name. -/
theorem Safe.removed (h : Safe v typed t d) {index : String} {gone : List String} {d₀ : Location}
    (hindex : IndexIs v typed t out index) (hd : gone ≠ [] → t.LeadsTo out d₀)
    (hr : Removed t t' d₀ gone)
    (hgone : ∀ m ∈ Exports.modules index, v.moduleFile typed m ∉ gone) : Safe v typed t' d := by
  refine ⟨h.named.removed hr, fun text ⟨c, hc, htext⟩ m hm => ?_⟩
  have hbefore : t.HasText (d ++ [v.indexFileName typed]) text := ⟨c, hr.entry?_of_some hc, htext⟩
  obtain ⟨c', hc'⟩ := h.resolves text hbefore m hm
  refine ⟨c', (hr.kept _ fun x hx e => ?_).trans hc'⟩
  -- a module that went would be one that the index of this directory names
  obtain ⟨rfl, hname⟩ := List.append_inj' e rfl
  obtain rfl := List.singleton_inj.mp hname
  obtain ⟨d', hd', hindex⟩ := hindex
  obtain rfl := (hd (List.ne_nil_of_mem hx)).unique hd'
  obtain rfl := hindex.unique hbefore
  exact hgone m hm hx

theorem IndexIs.removed {index : String} (h : IndexIs v typed t out index) {gone : List String}
    {d₀ : Location} (hr : Removed t t' d₀ gone) (hgone : v.indexFileName typed ∉ gone) :
    IndexIs v typed t' out index := by
  obtain ⟨d, hd, c, hc, htext⟩ := h
  refine ⟨d, hd.keepsDirectories hr.keepsDirectories, c, (hr.kept _ fun x hx e => hgone ?_).trans hc,
    htext⟩
  exact name_inj e ▸ hx

end IconCompiler
