import IconCompiler.Configuration.File
import IconCompiler.Proofs.Toml.Lines

/-!
The configuration file to start from. Its text is that of a few simple lines, and so it is read to a
configuration that names the framework and is the standard one otherwise.
-/

namespace IconCompiler.Config

open Toml (Line document)

/-- The lines behind the one that names the framework: every other field as it is by default. -/
def starterFields : List Line :=
  [.blank,
    .comment " Directory containing the source SVG files",
    .text "input" "./icons",
    .blank,
    .comment " Directory receiving the generated components",
    .text "output" "./src/icons",
    .blank,
    .comment " Generate TypeScript instead of JavaScript",
    .flag "typescript" true,
    .blank,
    .comment " Keep the original fill and stroke colors instead of the `color` prop",
    .flag "keep_colors" false,
    .blank,
    .comment " Component name prefix and suffix (e.g. prefix = \"Icon\" -> IconArrowRight)",
    .text "prefix" "",
    .text "suffix" "",
    .blank,
    .header "generate",
    .comment " Generate an index file re-exporting every component",
    .flag "index" true,
    .blank,
    .comment " Generate preview.html to browse the icons",
    .flag "preview" false,
    .blank,
    .comment " Remove components whose SVG file no longer exists",
    .flag "clean_output" false]

def starterLines (framework : String) : List Line :=
  [.comment " vectify configuration file",
    .blank,
    .comment (" Target framework (" ++ Registry.builtin.listing ++ ")"),
    .text "framework" framework] ++ starterFields

theorem toList_eq {s : String} {cs : List Char} (h : s = String.ofList cs) : s.toList = cs := by
  rw [h, String.toList_ofList]

theorem document_append (ls ms : List Line) : document (ls ++ ms) = document ls ++ document ms :=
  List.flatMap_append

theorem front_starter (framework : String) :
    ("# vectify configuration file\n\n" ++
      "# Target framework (" ++ Registry.builtin.listing ++ ")\n" ++
      "framework = \"" ++ framework ++ "\"\n").toList =
      document [.comment " vectify configuration file", .blank,
        .comment (" Target framework (" ++ Registry.builtin.listing ++ ")"),
        .text "framework" framework] := by
  simp only [String.toList_append]
  simp [document, Line.chars]

set_option maxRecDepth 20000 in
theorem toList_starter (framework : String) :
    (starter framework).toList = document (starterLines framework) := by
  -- only the front depends on the framework; the rest is computed
  refine String.toList_append.trans (.trans ?_ (document_append _ _).symm)
  exact congr (congrArg _ (front_starter framework)) (toList_eq rfl)

def starterEntries (framework : String) : Toml.Entries :=
  [("framework", .text framework), ("input", .text "./icons"), ("output", .text "./src/icons"),
    ("typescript", .bool true), ("keep_colors", .bool false), ("prefix", .text ""),
    ("suffix", .text ""),
    ("generate", .table .header
      [("index", .bool true), ("preview", .bool false), ("clean_output", .bool false)])]

theorem foldlM_starter (framework : String) :
    (starterLines framework).foldlM Line.read ⟨[], []⟩ =
      some ⟨starterEntries framework, ["generate"]⟩ := by
  rfl

theorem isSimple_starterLines {framework : String} (h : ∀ c ∈ framework.toList, Toml.IsPlain c) :
    ∀ l ∈ starterLines framework, l.IsSimple := by
  have hlisting : (Line.comment (" Target framework (" ++ Registry.builtin.listing ++
      ")")).IsSimple := by decide +kernel
  have hkey : Toml.IsBareKey "framework" := by decide
  rw [starterLines, List.forall_mem_append]
  refine ⟨?_, by decide +kernel⟩
  simp only [List.forall_mem_cons]
  exact ⟨by decide, trivial, hlisting, ⟨hkey, h⟩, List.forall_mem_nil _⟩

/-- The text for a framework whose name needs no escapes is read to the standard configuration with
that framework. -/
theorem ofToml_starter {framework : String} (h : ∀ c ∈ framework.toList, Toml.IsPlain c) :
    ofToml (starter framework) = .ok { standard with framework } := by
  have hparsed : Toml.parse? (starter framework) = some (starterEntries framework) := by
    rw [Toml.parse?, toList_starter, Toml.ofChars?_document (isSimple_starterLines h),
      foldlM_starter]
    rfl
  rw [ofToml, hparsed]
  rfl

end IconCompiler.Config
