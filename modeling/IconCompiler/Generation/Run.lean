import IconCompiler.Generation.Plan
import IconCompiler.RunError

/-!
Carrying out the plan of a run on a file tree. The actions are taken one after the other up to the
first that fails; what was done before it stays done.
-/

namespace IconCompiler

structure GenerationReport where
  stats : Stats
  outputs : List Output
  removed : List String
  deriving DecidableEq

/-- How far a run has come. -/
structure Progress where
  tree : FileTree
  calls : List HookCall
  outputs : List Output
  removed : List String

namespace Progress

def start (t : FileTree) : Progress := ⟨t, [], [], []⟩

/-- How many files were changed. -/
def changes (p : Progress) : Nat := p.outputs.length + p.removed.length

/-- Takes one action in the directory that a run writes to. -/
def take (p : Progress) (w : Writer) (directory : String) :
    Action → Progress × Except WriteError Unit
  | .call c => ({ p with calls := p.calls ++ [c] }, .ok ())
  | .write file =>
    match w.write p.changes p.tree (Path.join directory file.fileName) file.contents with
    | (t, .ok o) => ({ p with tree := t, outputs := p.outputs ++ [o] }, .ok ())
    | (t, .error e) => ({ p with tree := t }, .error e)
  | .clean extension marker keep =>
    match w.removeStale p.changes p.tree directory extension marker keep with
    | (t, .ok paths) => ({ p with tree := t, removed := p.removed ++ paths }, .ok ())
    | (t, .error e) => ({ p with tree := t }, .error e)

/-- Takes actions up to the first that fails. -/
def takeAll (p : Progress) (w : Writer) (directory : String) :
    List Action → Progress × Except WriteError Unit
  | [] => (p, .ok ())
  | a :: as =>
    match p.take w directory a with
    | (p, .ok _) => p.takeAll w directory as
    | (p, .error e) => (p, .error e)

end Progress

/-- What is left of a run: the file tree, the calls of hooks in order, and what came of it. -/
structure RunResult where
  tree : FileTree
  calls : List HookCall
  report : Except RunError GenerationReport

namespace Job

/-- Generates the components of these drawings and all that goes with them. -/
def run (j : Job) (w : Writer) (t : FileTree) (files : List SourceFile) : RunResult :=
  let plan := j.plan files
  let (p, taken) := (Progress.start t).takeAll w j.config.output plan.actions
  let report : Except RunError GenerationReport := do
    taken.mapError .write
    let stats ← plan.result.mapError .generate
    pure ⟨stats, p.outputs, p.removed⟩
  ⟨p.tree, p.calls, report⟩

end Job

end IconCompiler
