import IconCompiler.CommandLine.Run
import IconCompiler.Proofs.Configuration.Loading
import IconCompiler.Proofs.Toml.Lines

/-!
The configuration that a command has in effect. Each field is what the command says, or else what
the file says, or else what holds by default. Only paths that the command does not say are seen from
the directory of the file.
-/

namespace IconCompiler

namespace Config

namespace Stated

/-- What a document says of each field is settled by its entries. -/
theorem WrittenIn.unique {w w' : Stated} {es : Toml.Entries} (h : w.WrittenIn es)
    (h' : w'.WrittenIn es) : w' = w := by
  have text : ∀ {a b : Option String}, a.map Toml.Value.text = b.map Toml.Value.text → a = b :=
    fun heq => Option.map_injective (fun _ _ => Toml.Value.text.inj) heq
  have bool : ∀ {a b : Option Bool}, a.map Toml.Value.bool = b.map Toml.Value.bool → a = b :=
    fun heq => Option.map_injective (fun _ _ => Toml.Value.bool.inj) heq
  cases w
  cases w'
  simp only [mk.injEq]
  exact ⟨text (h'.framework.symm.trans h.framework), text (h'.input.symm.trans h.input),
    text (h'.output.symm.trans h.output), bool (h'.typescript.symm.trans h.typescript),
    bool (h'.keepColors.symm.trans h.keepColors), text (h'.namePrefix.symm.trans h.namePrefix),
    text (h'.nameSuffix.symm.trans h.nameSuffix), bool (h'.index.symm.trans h.index),
    bool (h'.preview.symm.trans h.preview), bool (h'.cleanOutput.symm.trans h.cleanOutput)⟩

end Stated

/-- Where a configuration comes from: what is said there, and the directory that paths are seen
from. Where there is no file nothing is said, and paths stay as they are. -/
inductive Source (t : FileTree) (path : Option String) : Stated → String → Prop
  | absent : path = none → t.pathExists fileName = false → Source t path .silent ""
  | file {text : String} {es : Toml.Entries} {w : Stated} :
      t.readText (path.getD fileName) = .ok text → Toml.parse? text = some es → w.WrittenIn es →
      Source t path w (Path.directory (path.getD fileName))

variable {t : FileTree} {path : Option String}

theorem Source.unique {w w' : Stated} {d d' : String} (h : Source t path w d)
    (h' : Source t path w' d') : w' = w ∧ d' = d := by
  cases h with
  | absent hpath hmissing =>
    subst hpath
    cases h' with
    | absent _ _ => exact ⟨rfl, rfl⟩
    | file htext _ _ =>
      rw [Option.getD_none] at htext
      rw [pathExists_of_readText htext] at hmissing
      contradiction
  | file htext hparsed hw =>
    cases h' with
    | absent hpath hmissing =>
      subst hpath
      rw [Option.getD_none] at htext
      rw [pathExists_of_readText htext] at hmissing
      contradiction
    | file htext' hparsed' hw' =>
      obtain rfl := Except.ok.inj (htext'.symm.trans htext)
      obtain rfl := Option.some.inj (hparsed'.symm.trans hparsed)
      exact ⟨hw.unique hw', rfl⟩

/-- The usual file is in the working directory, which paths are seen from anyway. -/
theorem directory_fileName : Path.directory fileName = "" := by decide

theorem Source.directory_eq {w : Stated} {d : String} (h : Source t none w d) : d = "" := by
  cases h with
  | absent _ _ => rfl
  | file _ _ _ => exact directory_fileName

/-- What is loaded is what is said and what holds by default, its paths as they are seen. -/
theorem exists_source {c : Config} (h : load t path = .ok c) :
    ∃ w d, Source t path w d ∧ c = w.config.seenFrom d := by
  rcases load_eq_ok_iff.mp h with ⟨hpath, hmissing, rfl⟩ | h
  · exact ⟨.silent, "", .absent hpath hmissing, (seenFrom_empty _).symm⟩
  · obtain ⟨text, said, htext, hsaid, rfl⟩ := ofFile_eq_ok_iff.mp h
    obtain ⟨es, hparsed, hentries⟩ := ofToml_eq_ok_iff.mp hsaid
    obtain ⟨w, hw, rfl⟩ := exists_of_ofEntries hentries
    exact ⟨w, _, .file htext hparsed hw, rfl⟩

/-- Each field is what the command says, else what the file says, else what holds by default. A path
that the command says is taken as it is, and any other one as it is seen from the directory. -/
structure Layered (o : Overrides) (w : Stated) (directory : String) (c : Config) : Prop where
  framework : c.framework = (o.framework.or w.framework).getD standard.framework
  input : c.input = o.input.getD (Path.seenFrom directory (w.input.getD standard.input))
  output : c.output = o.output.getD (Path.seenFrom directory (w.output.getD standard.output))
  typescript : c.typescript = (o.typescript.or w.typescript).getD standard.typescript
  keepColors : c.keepColors = (o.keepColors.or w.keepColors).getD standard.keepColors
  namePrefix : c.namePrefix = w.namePrefix.getD standard.namePrefix
  nameSuffix : c.nameSuffix = w.nameSuffix.getD standard.nameSuffix
  index : c.generate.index = w.index.getD Extras.standard.index
  preview : c.generate.preview = w.preview.getD Extras.standard.preview
  cleanOutput : c.generate.cleanOutput = w.cleanOutput.getD Extras.standard.cleanOutput

theorem layered_override (o : Overrides) (w : Stated) (d : String) :
    Layered o w d ((w.config.seenFrom d).override o) := by
  have hor : ∀ {α : Type} (said written : Option α) (standard : α),
      said.getD (written.getD standard) = (said.or written).getD standard := by
    intro α said written standard
    cases said <;> rfl
  exact ⟨hor _ _ _, rfl, rfl, hor _ _ _, hor _ _ _, rfl, rfl, rfl, rfl, rfl⟩

end Config

namespace Command

open Config

theorem runGenerate_eq {t : FileTree} {path : Option String} {o : Overrides} {c : Config}
    (h : effectiveConfig t path o = .ok c) (dryRun : Bool) :
    runGenerate t path o dryRun = match c.validate with
      | .ok _ => generateWith t c dryRun
      | .error e => .failure t [] (.config e) := by
  rw [runGenerate, h]
  cases hvalid : c.validate with
  | ok _ => simp [hvalid, bind, Except.bind, pure, Except.pure]
  | error e => simp [hvalid, bind, Except.bind]

/-- Where a configuration can be loaded, a command runs with one that takes each field from the
command, else from the file, else from what holds by default, unless it refuses it. Nothing is seen
from another directory if no file is asked for. -/
theorem effective_in_every_field {t : FileTree} {path : Option String} {loaded : Config}
    (h : load t path = .ok loaded) (o : Overrides) :
    ∃ w d c, Source t path w d ∧ (path = none → d = "") ∧ effectiveConfig t path o = .ok c ∧
      Layered o w d c ∧ ∀ dryRun, runGenerate t path o dryRun = match c.validate with
        | .ok _ => generateWith t c dryRun
        | .error e => .failure t [] (.config e) := by
  obtain ⟨w, d, hsource, rfl⟩ := exists_source h
  have heffective : effectiveConfig t path o = .ok ((w.config.seenFrom d).override o) := by
    rw [effectiveConfig, h]
    rfl
  refine ⟨w, d, _, hsource, ?_, heffective, layered_override o w d, runGenerate_eq heffective⟩
  rintro rfl
  exact hsource.directory_eq

/-- A file that says something of four fields. -/
def layeredLines : List Toml.Line :=
  [.text "framework" "vue", .text "input" "svg", .flag "keep_colors" true, .header "generate",
    .flag "index" false]

def layeredText : String := String.ofList (Toml.document layeredLines)

def layeredTree : FileTree :=
  ((FileTree.fresh "work").put ["work", "conf"] .directory).put ["work", "conf", "vectify.toml"]
    (.file layeredText.toUTF8)

/-- What the file says of four fields. -/
def layeredStated : Stated :=
  { Stated.silent with
    framework := some "vue", input := some "svg", keepColors := some true, index := some false }

theorem readText_layered : layeredTree.readText "conf/vectify.toml" = .ok layeredText :=
  (FileTree.readText_eq_ok_iff _ _ _).mpr
    ⟨["work", "conf", "vectify.toml"], _, rfl, rfl, FileTree.fromUTF8?_toUTF8 layeredText⟩

theorem parse?_layered : Toml.parse? layeredText = some
    [("framework", .text "vue"), ("input", .text "svg"), ("keep_colors", .bool true),
      ("generate", .table .header [("index", .bool false)])] := by
  rw [Toml.parse?, layeredText, String.toList_ofList, Toml.ofChars?_document (by decide)]
  rfl

theorem layered_source : Source layeredTree (some "conf/vectify.toml") layeredStated "conf" :=
  .file readText_layered parse?_layered ⟨rfl, rfl, rfl, rfl, rfl, rfl, rfl, rfl, rfl, rfl⟩

/-- A command that says the framework and the input over a file that says them too, and leaves the
output, of which neither says anything. -/
theorem layered_fields :
    ∃ loaded c, load layeredTree (some "conf/vectify.toml") = .ok loaded ∧
      effectiveConfig layeredTree (some "conf/vectify.toml")
        { Overrides.none with framework := some "svelte", input := some "drawings" } = .ok c ∧
      loaded.input = "conf/svg" ∧ c.framework = "svelte" ∧ c.input = "drawings" ∧
      c.output = "conf/./src/icons" ∧ c.typescript = true ∧ c.keepColors = true ∧
      c.generate.index = false := by
  have hload : load layeredTree (some "conf/vectify.toml") =
      .ok (layeredStated.config.seenFrom "conf") :=
    load_eq_ok_iff.mpr (Or.inr (ofFile_eq_ok_iff.mpr ⟨layeredText, _, readText_layered,
      ofToml_eq_ok_iff.mpr ⟨_, parse?_layered, rfl⟩, rfl⟩))
  obtain ⟨w, d, c, hsource, -, heffective, hlayered, -⟩ := effective_in_every_field hload
    { Overrides.none with framework := some "svelte", input := some "drawings" }
  obtain ⟨rfl, rfl⟩ := layered_source.unique hsource
  exact ⟨_, c, hload, heffective, by decide, hlayered.framework, hlayered.input, hlayered.output,
    hlayered.typescript, hlayered.keepColors, hlayered.index⟩

end Command

end IconCompiler
