import IconCompiler.Generation.Run

/-!
Runs with hooks of any kind. What a hook answers may depend on all that the run has done before the
call, and a call may change files, so nothing can be planned: a drawing is judged when its turn
comes. With hooks that only rewrite texts this is the run that is planned beforehand.
-/

namespace IconCompiler

/-- Hooks that may go by what a run has done so far and may change files. -/
structure LiveHooks where
  beforeParse : (past : List Action) → (svg fileName : String) → String
  afterGenerate : (past : List Action) → (code componentName : String) → String
  /-- The files after a call. -/
  touch : (past : List Action) → HookCall → FileTree → FileTree

/-- The files after an action, where the hook of a call has been at them. -/
def LiveHooks.touched (h : LiveHooks) (past : List Action) : Action → FileTree → FileTree
  | .call c, t => h.touch past c t
  | .write _, t | .clean _ _ _, t => t

/-- Hooks that only rewrite texts, among hooks of any kind. -/
def Hooks.live (h : Hooks) : LiveHooks :=
  ⟨fun _ => h.beforeParse, fun _ => h.afterGenerate, fun _ _ t => t⟩

/-- A run on its way: how far it has come, and what it has done, in order. -/
structure Session where
  progress : Progress
  past : List Action

def Session.start (t : FileTree) : Session := ⟨.start t, []⟩

/-- A part of a run. Where it fails, what was done before stays done. -/
abbrev Running := EStateM RunError Session

namespace Running

/-- Takes an action in the directory that the run writes to. -/
def perform (h : LiveHooks) (w : Writer) (directory : String) (a : Action) : Running Unit :=
  fun s =>
    match s.progress.take w directory a with
    | (p, .ok _) => .ok () ⟨{ p with tree := h.touched s.past a p.tree }, s.past ++ [a]⟩
    | (p, .error e) => .error (.write e) ⟨p, s.past⟩

def performAll (h : LiveHooks) (w : Writer) (directory : String) (as : List Action) :
    Running Unit :=
  as.forM (perform h w directory)

/-- Goes on with what was made, unless it could not be made. -/
def ofExcept {α : Type} : Except CompileError α → Running α
  | .ok a => pure a
  | .error e => throw (.generate e)

end Running

namespace Job

open Running

/-- Goes through a drawing, after those that have compiled. -/
def attend (j : Job) (h : LiveHooks) (w : Writer) (done : List CompiledIcon) (file : SourceFile) :
    Running Verdict := do
  let name := j.naming.componentName file.fileName
  if ComponentName.isValid name then
    match done.find? (·.name = name) with
    | some owner => pure (.taken name owner.source.fileName)
    | none =>
      let svg := h.beforeParse (← get).past file.content file.fileName
      perform h w j.config.output (.call (.beforeParse file.content file.fileName))
      match j.options.compileComponent name svg with
      | .error e => if e.isPerFile then pure (.rejected name e) else throw (.generate e)
      | .ok made =>
        let code := h.afterGenerate (← get).past made.contents name
        perform h w j.config.output (.call (.afterGenerate made.contents name))
        perform h w j.config.output (.write { made with contents := code })
        pure (.compiled ⟨file, name, svg, made.contents, { made with contents := code }⟩)
  else pure (.unnamed name)

/-- Goes through drawings in order. -/
def attendAll (j : Job) (h : LiveHooks) (w : Writer) (done : List CompiledIcon) :
    List SourceFile → Running (List (SourceFile × Verdict))
  | [] => pure []
  | file :: files => do
    let v ← j.attend h w done file
    let vs ← j.attendAll h w (done ++ v.icon?.toList) files
    pure ((file, v) :: vs)

/-- Generates the components of these drawings and all that goes with them. -/
def generate (j : Job) (h : LiveHooks) (w : Writer) (files : List SourceFile) :
    Running GenerationReport := do
  let v ← ofExcept (Registry.builtin.find j.config.framework)
  let runtime ← ofExcept j.options.compileRuntime
  perform h w j.config.output (.write runtime)
  let vs ← j.attendAll h w [] files
  let index ← ofExcept (j.indexFile? (vs.filterMap (·.2.icon?)))
  performAll h w j.config.output (j.closing v runtime vs index)
  let p := (← get).progress
  pure ⟨.ofVerdicts vs, p.outputs, p.removed⟩

end Job

/-- A run with these hooks in the place of its own. -/
def Job.runWith (j : Job) (h : LiveHooks) (w : Writer) (t : FileTree) (files : List SourceFile) :
    RunResult :=
  match j.generate h w files (.start t) with
  | .ok report s => ⟨s.progress.tree, s.progress.calls, .ok report⟩
  | .error e s => ⟨s.progress.tree, s.progress.calls, .error e⟩

end IconCompiler
