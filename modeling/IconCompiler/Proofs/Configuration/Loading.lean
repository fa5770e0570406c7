import IconCompiler.Configuration.File
import IconCompiler.Proofs.Output.Writing

/-!
What a configuration is made of. A document may say something of each field; where it says nothing
the field is as it is by default. Paths that a file says or leaves as they are by default are seen
from the directory of the file.
-/

namespace IconCompiler

/-- The directory of a file, as the path has it. -/
def Path.directory (file : String) : String := (Path.parent? file).getD ""

/-- A path as it is seen from a directory: joined to it if the path is relative and the directory is
not the empty path. -/
def Path.seenFrom (directory path : String) : String :=
  if isAbsolute path = true ∨ directory = "" then path else join directory path

namespace Config

variable {ε α β : Type}

theorem bind_eq_ok_iff {x : Except ε α} {f : α → Except ε β} {b : β} :
    (x >>= f) = .ok b ↔ ∃ a, x = .ok a ∧ f a = .ok b := by
  cases x <;> simp [bind, Except.bind]

theorem mapError_eq_ok_iff {δ : Type} {x : Except ε α} {f : ε → δ} {a : α} :
    x.mapError f = .ok a ↔ x = .ok a := by
  cases x with
  | error e => exact ⟨nofun, nofun⟩
  | ok b => exact ⟨fun h => Except.ok.inj h ▸ rfl, fun h => Except.ok.inj h ▸ rfl⟩

/-! ## What a document says -/

/-- What is said of each field, if anything is. -/
structure Stated where
  framework : Option String
  input : Option String
  output : Option String
  typescript : Option Bool
  keepColors : Option Bool
  namePrefix : Option String
  nameSuffix : Option String
  index : Option Bool
  preview : Option Bool
  cleanOutput : Option Bool

namespace Stated

def silent : Stated := ⟨none, none, none, none, none, none, none, none, none, none⟩

/-- The value that a document has for an extra: by its key in a table, or by its place in a list. -/
def extra? (es : Toml.Entries) (key : String) (place : Nat) : Option Toml.Value :=
  match es.lookup "generate" with
  | some (.inline extras) | some (.table _ extras) => extras.lookup key
  | some (.list values) => values[place]?
  | _ => none

/-- What is said is what the entries of a document have, each value being of the kind of its field,
and nothing is said of the fields that the document does not have. -/
structure WrittenIn (w : Stated) (es : Toml.Entries) : Prop where
  framework : es.lookup "framework" = w.framework.map .text
  input : es.lookup "input" = w.input.map .text
  output : es.lookup "output" = w.output.map .text
  typescript : es.lookup "typescript" = w.typescript.map .bool
  keepColors : es.lookup "keep_colors" = w.keepColors.map .bool
  namePrefix : es.lookup "prefix" = w.namePrefix.map .text
  nameSuffix : es.lookup "suffix" = w.nameSuffix.map .text
  index : extra? es "index" 0 = w.index.map .bool
  preview : extra? es "preview" 1 = w.preview.map .bool
  cleanOutput : extra? es "clean_output" 2 = w.cleanOutput.map .bool

/-- What is said, and what holds by default of the rest. -/
def config (w : Stated) : Config :=
  { framework := w.framework.getD standard.framework
    input := w.input.getD standard.input
    output := w.output.getD standard.output
    typescript := w.typescript.getD standard.typescript
    keepColors := w.keepColors.getD standard.keepColors
    namePrefix := w.namePrefix.getD standard.namePrefix
    nameSuffix := w.nameSuffix.getD standard.nameSuffix
    generate := ⟨w.index.getD Extras.standard.index, w.preview.getD Extras.standard.preview,
      w.cleanOutput.getD Extras.standard.cleanOutput⟩ }

end Stated

/-! ## Reading a document -/

theorem eq_text_of_text? {v : Toml.Value} {s : String} (h : text? v = some s) : v = .text s := by
  cases v <;> simp_all [text?]

theorem eq_bool_of_bool? {v : Toml.Value} {b : Bool} (h : bool? v = some b) : v = .bool b := by
  cases v <;> simp_all [bool?]

/-- A field that is read has a value of its kind, or is missing and as it is by default. -/
theorem exists_of_readOr {kind : Toml.Value → Option α} {ofKind : α → Toml.Value}
    (hkind : ∀ {v a}, kind v = some a → v = ofKind a) {missing a : α} {key : String}
    {v? : Option Toml.Value} (h : readOr kind missing key v? = .ok a) :
    ∃ said : Option α, v? = said.map ofKind ∧ a = said.getD missing := by
  cases v? with
  | none =>
    rw [readOr, Except.ok.injEq] at h
    exact ⟨none, rfl, h.symm⟩
  | some v =>
    rw [readOr] at h
    cases hv : kind v with
    | none => simp [hv] at h
    | some b =>
      rw [hv, Except.ok.injEq] at h
      exact ⟨some b, congrArg some (hkind hv), h.symm⟩

theorem exists_of_readExtras {index preview cleanOutput : Option Toml.Value} {x : Extras}
    (h : readExtras index preview cleanOutput = .ok x) :
    ∃ i p c : Option Bool, index = i.map .bool ∧ preview = p.map .bool ∧
      cleanOutput = c.map .bool ∧ x = ⟨i.getD Extras.standard.index,
        p.getD Extras.standard.preview, c.getD Extras.standard.cleanOutput⟩ := by
  obtain ⟨_, hindex, h⟩ := bind_eq_ok_iff.mp h
  obtain ⟨_, hpreview, h⟩ := bind_eq_ok_iff.mp h
  obtain ⟨_, hclean, h⟩ := bind_eq_ok_iff.mp h
  obtain ⟨i, hi, rfl⟩ := exists_of_readOr eq_bool_of_bool? hindex
  obtain ⟨p, hp, rfl⟩ := exists_of_readOr eq_bool_of_bool? hpreview
  obtain ⟨c, hc, rfl⟩ := exists_of_readOr eq_bool_of_bool? hclean
  exact ⟨i, p, c, hi, hp, hc, (Except.ok.inj h).symm⟩

/-- The extras that are read are those that a table or a list has, in whichever form. -/
theorem exists_of_extrasOf {es : Toml.Entries} {x : Extras}
    (h : extrasOf (es.lookup "generate") = .ok x) :
    ∃ i p c : Option Bool, Stated.extra? es "index" 0 = i.map .bool ∧
      Stated.extra? es "preview" 1 = p.map .bool ∧
      Stated.extra? es "clean_output" 2 = c.map .bool ∧
      x = ⟨i.getD Extras.standard.index, p.getD Extras.standard.preview,
        c.getD Extras.standard.cleanOutput⟩ := by
  unfold Stated.extra?
  unfold extrasOf at h
  split at h
  all_goals rename_i heq
  · rw [heq]
    exact ⟨none, none, none, rfl, rfl, rfl, (Except.ok.inj h).symm⟩
  · rw [heq]
    exact ⟨none, none, none, rfl, rfl, rfl, (Except.ok.inj h).symm⟩
  · rw [heq]
    exact exists_of_readExtras h
  · rw [heq]
    exact exists_of_readExtras h
  · rw [heq]
    exact exists_of_readExtras h
  · contradiction

theorem exists_of_ofEntries {es : Toml.Entries} {c : Config} (h : ofEntries es = .ok c) :
    ∃ w : Stated, w.WrittenIn es ∧ c = w.config := by
  -- the fields are read in turn, and each of them has to be of its kind
  obtain ⟨_, h₁, h⟩ := bind_eq_ok_iff.mp h
  obtain ⟨_, h₂, h⟩ := bind_eq_ok_iff.mp h
  obtain ⟨_, h₃, h⟩ := bind_eq_ok_iff.mp h
  obtain ⟨_, h₄, h⟩ := bind_eq_ok_iff.mp h
  obtain ⟨_, h₅, h⟩ := bind_eq_ok_iff.mp h
  obtain ⟨_, h₆, h⟩ := bind_eq_ok_iff.mp h
  obtain ⟨_, h₇, h⟩ := bind_eq_ok_iff.mp h
  obtain ⟨_, h₈, h⟩ := bind_eq_ok_iff.mp h
  obtain ⟨framework, hframework, rfl⟩ := exists_of_readOr eq_text_of_text? h₁
  obtain ⟨input, hinput, rfl⟩ := exists_of_readOr eq_text_of_text? h₂
  obtain ⟨output, houtput, rfl⟩ := exists_of_readOr eq_text_of_text? h₃
  obtain ⟨typescript, htypescript, rfl⟩ := exists_of_readOr eq_bool_of_bool? h₄
  obtain ⟨keepColors, hkeepColors, rfl⟩ := exists_of_readOr eq_bool_of_bool? h₅
  obtain ⟨namePrefix, hprefix, rfl⟩ := exists_of_readOr eq_text_of_text? h₆
  obtain ⟨nameSuffix, hsuffix, rfl⟩ := exists_of_readOr eq_text_of_text? h₇
  obtain ⟨index, preview, cleanOutput, hindex, hpreview, hclean, rfl⟩ := exists_of_extrasOf h₈
  exact ⟨⟨framework, input, output, typescript, keepColors, namePrefix, nameSuffix, index, preview,
    cleanOutput⟩, ⟨hframework, hinput, houtput, htypescript, hkeepColors, hprefix, hsuffix, hindex,
    hpreview, hclean⟩, (Except.ok.inj h).symm⟩

theorem ofToml_eq_ok_iff {text : String} {c : Config} :
    ofToml text = .ok c ↔ ∃ es, Toml.parse? text = some es ∧ ofEntries es = .ok c := by
  rw [ofToml]
  cases Toml.parse? text <;> simp

/-! ## Loading -/

/-- The configuration with both directories as they are seen from another. -/
def seenFrom (directory : String) (c : Config) : Config :=
  { c with
    input := Path.seenFrom directory c.input
    output := Path.seenFrom directory c.output }

theorem resolvePaths_eq {base : String} (h : base ≠ "") (c : Config) :
    c.resolvePaths base = c.seenFrom base := by
  have hseen : ∀ p, Path.join base p = Path.seenFrom base p := fun p => by
    unfold Path.seenFrom
    by_cases hp : Path.isAbsolute p = true
    · rw [if_pos (Or.inl hp), Path.join, if_pos hp]
    · rw [if_neg (by simp [h, hp])]
  rw [resolvePaths, seenFrom, hseen, hseen]

theorem seenFrom_empty (c : Config) : c.seenFrom "" = c := by
  simp [seenFrom, Path.seenFrom]

/-- A file is read, and what it says is seen from where it is. -/
theorem ofFile_eq_ok_iff {t : FileTree} {file : String} {c : Config} :
    ofFile t file = .ok c ↔ ∃ text said, t.readText file = .ok text ∧ ofToml text = .ok said ∧
      c = said.seenFrom (Path.directory file) := by
  unfold ofFile Path.directory
  cases Path.parent? file with
  | none =>
    simp only [bind_eq_ok_iff, mapError_eq_ok_iff, Option.getD_none, seenFrom_empty, pure,
      Except.pure, Except.ok.injEq, exists_and_left, eq_comm (a := c)]
  | some base =>
    have hseen : ∀ said : Config, (if base.isEmpty then said else said.resolvePaths base) =
        said.seenFrom base := by
      intro said
      by_cases hbase : base = ""
      · rw [hbase, seenFrom_empty]; rfl
      · simp [hbase, resolvePaths_eq]
    simp only [bind_eq_ok_iff, mapError_eq_ok_iff, Option.getD_some, hseen, pure,
      Except.pure, Except.ok.injEq, exists_and_left, eq_comm (a := c)]

theorem pathExists_of_readText {t : FileTree} {path text : String}
    (h : t.readText path = .ok text) : t.pathExists path = true := by
  obtain ⟨l, contents, hlocate, hentry, -⟩ := (FileTree.readText_eq_ok_iff t path text).mp h
  simp [FileTree.pathExists, FileTree.find, hlocate, hentry, bind, Except.bind, pure, Except.pure,
    Except.toOption]

/-- A configuration is that of the file asked for or of the usual one, or the standard one if no
file is asked for and the usual one is not there. -/
theorem load_eq_ok_iff {t : FileTree} {path : Option String} {c : Config} :
    load t path = .ok c ↔ path = none ∧ t.pathExists fileName = false ∧ c = standard ∨
      ofFile t (path.getD fileName) = .ok c := by
  rw [load]
  cases hexists : t.pathExists (path.getD fileName) with
  | true =>
    refine ⟨Or.inr, fun h => h.resolve_left ?_⟩
    rintro ⟨rfl, hmissing, -⟩
    rw [Option.getD_none] at hexists
    rw [hexists] at hmissing
    contradiction
  | false =>
    -- a file that is not there cannot be read
    have hfile : ofFile t (path.getD fileName) ≠ .ok c := by
      intro h
      obtain ⟨text, _, htext, -⟩ := ofFile_eq_ok_iff.mp h
      rw [pathExists_of_readText htext] at hexists
      contradiction
    rw [or_iff_left hfile]
    cases path with
    | none =>
      rw [Option.getD_none] at hexists
      simp [hexists, eq_comm]
    | some p => simp

end Config

end IconCompiler
