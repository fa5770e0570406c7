import IconCompiler.CommandLine.Run
import IconCompiler.Proofs.Discovery
import IconCompiler.Proofs.Generation.Confined
import IconCompiler.Proofs.Generation.Failed

/-!
What a command that generates has done when it answers that it succeeded. It has generated what
there is to generate if all drawings are found and can be read, and it has done nothing if one of
those that are found cannot.
-/

namespace IconCompiler

open FileTree Discovery

variable {t : FileTree} {c : Config} {d : Location} {files : List SourceFile}

namespace Job

variable {j : Job} {w : Writer} {report : GenerationReport} {name : String}

end Job

namespace Command

/-! ## Replies -/

section

variable {arguments : List String} {path : Option String} {o : Overrides} {dryRun : Bool}

end

end Command

end IconCompiler
