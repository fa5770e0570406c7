import IconCompiler.ComponentName
import IconCompiler.Configuration.Basic
import IconCompiler.Discovery
import IconCompiler.Generation.Preview
import IconCompiler.Report

/-!
What a run is going to do, worked out before any file is touched: a verdict on every drawing, and
from the verdicts the list of actions, in the order in which they are taken.
-/

namespace IconCompiler

/-- What is done to the texts of a run on their way: to a drawing before it is read, and to a
component before it is written. -/
structure Hooks where
  beforeParse : (svg fileName : String) → String
  afterGenerate : (code componentName : String) → String

def Hooks.identity : Hooks := ⟨fun svg _ => svg, fun code _ => code⟩

inductive HookCall where
  | beforeParse (svg fileName : String)
  | afterGenerate (code componentName : String)
  | complete (stats : Stats)
  deriving DecidableEq

/-- A component that compiled. -/
structure CompiledIcon where
  source : SourceFile
  name : String
  /-- The drawing as it was read, after the hook. -/
  svg : String
  /-- The component as it was rendered, before the hook. -/
  code : String
  file : GeneratedFile
  deriving DecidableEq

/-- What becomes of a drawing. -/
inductive Verdict where
  | unnamed (name : String)
  | taken (name owner : String)
  | rejected (name : String) (cause : CompileError)
  | compiled (icon : CompiledIcon)
  deriving DecidableEq

namespace Verdict

/-- The name of the component, if it is a valid one. -/
def validName? : Verdict → Option String
  | unnamed _ => none
  | taken name _ | rejected name _ => some name
  | compiled icon => some icon.name

def icon? : Verdict → Option CompiledIcon
  | compiled icon => some icon
  | _ => none

/-- Why no component was written. -/
def failure? : Verdict → Option String
  | unnamed name => some ("Invalid component name '" ++ name ++ "'")
  | taken name owner => some ("Component name '" ++ name ++ "' is already used by " ++ owner)
  | rejected _ cause => some cause.message
  | compiled _ => none

/-- What is wrong with more than the one drawing. -/
def fatal? : Verdict → Option CompileError
  | rejected _ cause => if cause.isPerFile then none else some cause
  | _ => none

end Verdict

/-- The account of a run with these verdicts. -/
def Stats.ofVerdicts (vs : List (SourceFile × Verdict)) : Stats :=
  vs.foldl (fun s v =>
    match v.2.failure? with
    | some reason => s.recordFailure v.1.fileName reason
    | none => s.recordSuccess) .empty

inductive Action where
  | call (c : HookCall)
  | write (file : GeneratedFile)
  | clean (extension marker : String) (keep : List String)
  deriving DecidableEq

/-- What is done about a drawing. -/
def Verdict.actions (file : SourceFile) : Verdict → List Action
  | unnamed _ | taken _ _ => []
  | rejected _ _ => [.call (.beforeParse file.content file.fileName)]
  | compiled icon =>
    [.call (.beforeParse file.content file.fileName), .call (.afterGenerate icon.code icon.name),
      .write icon.file]

/-- Actions, and how the run ends if none of them fails. -/
structure Plan where
  actions : List Action
  result : Except CompileError Stats

/-- A run as it is ordered. -/
structure Job where
  config : Config
  naming : NamingOptions
  hooks : Hooks

namespace Job

/-- A run with the names that the configuration asks for, and without hooks. -/
def ofConfig (c : Config) : Job := ⟨c, ⟨c.namePrefix, c.nameSuffix, none⟩, .identity⟩

def options (j : Job) : CompileOptions := j.config.compileOptions

/-! ## Verdicts -/

/-- The drawing as the hook leaves it. -/
def svgOf (j : Job) (file : SourceFile) : String := j.hooks.beforeParse file.content file.fileName

/-- The verdict on a drawing whose component has this valid name and no owner yet. -/
def compile (j : Job) (file : SourceFile) (name : String) : Verdict :=
  match j.options.compileComponent name (j.svgOf file) with
  | .error e => .rejected name e
  | .ok made =>
    .compiled ⟨file, name, j.svgOf file, made.contents,
      { made with contents := j.hooks.afterGenerate made.contents name }⟩

/-- The verdict on a drawing after those that have compiled. A name belongs to the first drawing
that compiles under it. -/
def verdict (j : Job) (done : List CompiledIcon) (file : SourceFile) : Verdict :=
  let name := j.naming.componentName file.fileName
  if ComponentName.isValid name then
    match done.find? (·.name = name) with
    | some owner => .taken name owner.source.fileName
    | none => j.compile file name
  else .unnamed name

/-- The verdicts on drawings in order, up to the first that stops the run. -/
def verdicts (j : Job) (done : List CompiledIcon) : List SourceFile → List (SourceFile × Verdict)
  | [] => []
  | file :: files =>
    let v := j.verdict done file
    (file, v) :: if v.fatal?.isSome then [] else j.verdicts (done ++ v.icon?.toList) files

/-! ## Actions -/

def previewFile (j : Job) (icons : List CompiledIcon) : GeneratedFile :=
  ⟨Preview.fileName, Preview.page j.config.framework
    (icons.filterMap fun icon => Preview.cardOf? j.options.keepColors icon.name icon.svg)⟩

/-- How every component names the runtime that it imports, up to where names may differ. -/
def marker (runtimeFile : String) : String :=
  "from './" ++ String.ofList (runtimeFile.toList.takeWhile (· != '.'))

/-- The names of files that cleaning up leaves alone. The component of a drawing that does not
compile this time is among them. -/
def kept (v : Variant) (typed : Bool) (runtime : GeneratedFile)
    (vs : List (SourceFile × Verdict)) (index : Option GeneratedFile) : List String :=
  runtime.fileName ::
    (vs.filterMap fun e => e.2.validName?.map (v.componentFileName · typed)) ++
    index.toList.map (·.fileName)

/-- The index, if one is asked for. -/
def indexFile? (j : Job) (icons : List CompiledIcon) :
    Except CompileError (Option GeneratedFile) :=
  if j.config.generate.index then (j.options.compileIndex (icons.map (·.name))).map some
  else .ok none

/-- What is done after the drawings. -/
def closing (j : Job) (v : Variant) (runtime : GeneratedFile) (vs : List (SourceFile × Verdict))
    (index : Option GeneratedFile) : List Action :=
  let icons := vs.filterMap (·.2.icon?)
  let typed := j.config.typescript
  index.toList.map .write ++
    (if j.config.generate.preview then [.write (j.previewFile icons)] else []) ++
    (if j.config.generate.cleanOutput then
      [.clean (v.component.pick typed) (marker runtime.fileName) (kept v typed runtime vs index)]
    else []) ++
    [.call (.complete (.ofVerdicts vs))]

/-- The plan of a run whose variant and runtime are known. -/
def planWith (j : Job) (v : Variant) (runtime : GeneratedFile) (files : List SourceFile) : Plan :=
  let vs := j.verdicts [] files
  let opening := .write runtime :: vs.flatMap fun e => e.2.actions e.1
  match vs.findSome? (·.2.fatal?) with
  | some e => ⟨opening, .error e⟩
  | none =>
    match j.indexFile? (vs.filterMap (·.2.icon?)) with
    | .error e => ⟨opening, .error e⟩
    | .ok index => ⟨opening ++ j.closing v runtime vs index, .ok (.ofVerdicts vs)⟩

/-- The plan of a run over these drawings. -/
def plan (j : Job) (files : List SourceFile) : Plan :=
  match Registry.builtin.find j.config.framework, j.options.compileRuntime with
  | .ok v, .ok runtime => j.planWith v runtime files
  | .error e, _ | _, .error e => ⟨[], .error e⟩

end Job

end IconCompiler
