import IconCompiler.Proofs.Script.Module
import IconCompiler.Proofs.Variant.Embedding

/-!
What the module of a component binds: the identifiers of the template that it is filled from, and
the name that it exports. The icon has no say in that, since all lines of its literal are indented.
-/

namespace IconCompiler

theorem ComponentName.continuesIdentifier_of_isValid {name : String}
    (h : ComponentName.isValid name = true) :
    ∀ c ∈ name.toList, Literal.continuesIdentifier c = true := by
  intro c hc
  rw [Literal.continuesIdentifier, ComponentName.isValid_chars h c hc, Bool.true_or]

namespace Variant

open Script Template Builtin

/-- The identifiers that a component binds besides its name, where it is exported by name. -/
def ownNames (v : Variant) (typed : Bool) : List String :=
  match v.family with
  | .classComponent => ["ChangeDetectionStrategy", "Component", "VectifyIcon", "IconNode"]
  | .functionComponent | .customElement | .imperative =>
    if typed then ["createIcon", "IconNode", "iconNode"] else ["createIcon", "iconNode"]
  | .templateDirective => []

theorem nodup_ownNames (v : Variant) (typed : Bool) : (v.ownNames typed).Nodup := by
  unfold ownNames
  cases v.family <;> cases typed <;> decide

theorem not_mem_reservedWords_of_mem_ownNames (v : Variant) (typed : Bool) :
    ∀ n ∈ v.ownNames typed, n ∉ reservedWords := by
  unfold ownNames
  cases v.family <;> cases typed <;> decide

/-! ## Lines of a component -/

/-- The lines of a component in front of its literal, and those behind it. -/
structure Framed (v : Variant) (typed : Bool) (name : String) (before behind : List String) :
    Prop where
  textBefore : v.textBefore typed name = Text.lines before
  textBehind : v.textBehind typed name = Text.lines ("" :: behind)
  before : ∀ l ∈ before, '\n' ∉ l.toList
  behind : ∀ l ∈ behind, '\n' ∉ l.toList

theorem bindings_of_framed {v : Variant} (hv : v ∈ builtins) {typed keepColors : Bool}
    {name code : String} {icon : Icon} {before behind : List String}
    (h : v.Framed typed name before behind)
    (hcode : v.renderComponent name typed keepColors icon = .ok code) :
    bindings code = before.flatMap (fun l => bound l.toList) ++
      behind.flatMap fun l => bound l.toList := by
  have hliteral : bindings (v.literal keepColors icon) = [] := by
    rw [literal, Literal.icon_eq_indented]
    exact bindings_indented (nodeIndent_ne_zero hv) _
  rw [renderComponent_eq hv] at hcode
  rw [← Except.ok.inj hcode, h.textBefore, h.textBehind, bindings_between h.before h.behind,
    hliteral, List.append_nil]

/-! ## Calls of a factory -/

/-- The variants whose components call a factory. -/
def callers : List Variant := [react, solid, preact, qwik, vanilla, lit]

/-- The lines of their components up to the literal. -/
def callBefore (typed : Bool) : List String :=
  ["import \x7b createIcon \x7d from './createIcon'"] ++
    (if typed then ["import type \x7b IconNode \x7d from './createIcon'"] else []) ++
    ["", if typed then "const iconNode: IconNode[] = [" else "const iconNode = ["]

/-- The comment in front of the call. -/
def callComment (v : Variant) (name : String) : List String :=
  match v.family with
  | .imperative => ["/** Renders the icon into `container` and returns the created `<svg>`. */"]
  | .customElement => ["/** Registers `<" ++ tagName name ++ ">`. */"]
  | _ => []

/-- What stands behind the name in the call. -/
def callRest (v : Variant) (name : String) : String :=
  match v.family with
  | .customElement => "', '" ++ tagName name ++ "', iconNode)"
  | _ => "', iconNode)"

/-- The lines of their components behind the literal. -/
def callBehind (v : Variant) (name : String) : List String :=
  ["]", ""] ++ v.callComment name ++
    ["export const " ++ name ++ (" = createIcon('" ++ name ++ v.callRest name)]

section

variable {v : Variant} {name : String} {typed : Bool}

theorem textBefore_callers (hv : v ∈ callers) :
    v.textBefore typed name = Text.lines (callBefore typed) := by
  have hparts : ∀ v ∈ callers,
      v.componentTemplate.takeWhile isFrame = factoryComponent.take 5 := by
    simp only [callers, List.forall_mem_cons]
    exact ⟨rfl, rfl, rfl, rfl, rfl, rfl, List.forall_mem_nil _⟩
  rw [textBefore, hparts v hv]
  cases typed <;>
    simp [factoryComponent, whenTyped, frameTexts, frameText, callBefore, Text.lines,
      String.join_cons]

theorem textBehind_callers (hv : v ∈ callers) :
    v.textBehind typed name = Text.lines ("" :: v.callBehind name) := by
  have hfactory : v.componentTemplate = factoryComponent → v.callComment name = [] →
      v.callRest name = "', iconNode)" →
      v.textBehind typed name = Text.lines ("" :: v.callBehind name) := by
    intro htemplate hcomment hrest
    have hparts : (factoryComponent.dropWhile isFrame).tail = factoryComponent.drop 6 := rfl
    rw [textBehind, callBehind, htemplate, hparts, hcomment, hrest]
    simp [-String.reduceAppend, factoryComponent, componentName, frameTexts, frameText, Text.lines,
      String.join_cons, String.append_assoc]
  simp only [callers, List.mem_cons, List.not_mem_nil, or_false] at hv
  rcases hv with rfl | rfl | rfl | rfl | rfl | rfl
  · exact hfactory rfl rfl rfl
  · exact hfactory rfl rfl rfl
  · exact hfactory rfl rfl rfl
  · exact hfactory rfl rfl rfl
  · have hparts : (vanilla.componentTemplate.dropWhile isFrame).tail =
        vanilla.componentTemplate.drop 6 := rfl
    rw [textBehind, hparts]
    simp [-String.reduceAppend, vanilla, script, Vanilla.component, componentName, frameTexts,
      frameText, callBehind, callComment, callRest, Text.lines, String.join_cons,
      String.append_assoc]
  · have hparts : (lit.componentTemplate.dropWhile isFrame).tail =
        lit.componentTemplate.drop 6 := rfl
    rw [textBehind, hparts]
    simp [-String.reduceAppend, lit, script, Lit.component, componentName, Builtin.tagName,
      frameTexts, frameText, callBehind, callComment, callRest, Text.lines, String.join_cons,
      String.append_assoc]

/-- A comment is one line, if there is one, and so is the call. -/
theorem of_mem_callComment (hname : ComponentName.isValid name = true) {l : String}
    (h : l ∈ v.callComment name) : '\n' ∉ l.toList ∧ l.toList.head? = some '/' := by
  have htag : '\n' ∉ (tagName name).toList := not_mem_tagName hname (by decide) (by decide)
  unfold callComment at h
  split at h
  · rw [List.mem_singleton.mp h]
    decide +kernel
  · rw [List.mem_singleton.mp h]
    simp [htag]
  · contradiction

theorem framed_callers (hv : v ∈ callers) (hname : ComponentName.isValid name = true) :
    v.Framed typed name (callBefore typed) (v.callBehind name) := by
  have hplain : '\n' ∉ name.toList := ComponentName.not_mem_of_isValid hname '\n' (by decide)
  have htag : '\n' ∉ (tagName name).toList := not_mem_tagName hname (by decide) (by decide)
  refine ⟨textBefore_callers hv, textBehind_callers hv, ?_, fun l hl => ?_⟩
  · revert typed
    decide +kernel
  · rw [callBehind, List.mem_append, List.mem_append] at hl
    rcases hl with (hl | hl) | hl
    · revert l
      decide
    · exact (of_mem_callComment hname hl).1
    · have hrest : '\n' ∉ (v.callRest name).toList := by
        unfold callRest
        split <;> simp [htag]
      rw [List.mem_singleton.mp hl]
      simp [hplain, hrest]

theorem flatMap_callBefore (hv : v ∈ callers) :
    (callBefore typed).flatMap (fun l => bound l.toList) = v.ownNames typed := by
  have hlines : ∀ typed, (callBefore typed).flatMap (fun l => bound l.toList) =
      if typed then ["createIcon", "IconNode", "iconNode"] else ["createIcon", "iconNode"] := by
    decide +kernel
  simp only [callers, List.mem_cons, List.not_mem_nil, or_false] at hv
  rw [hlines]
  rcases hv with rfl | rfl | rfl | rfl | rfl | rfl <;> rfl

theorem flatMap_callBehind (hname : ComponentName.isValid name = true) :
    (v.callBehind name).flatMap (fun l => bound l.toList) = [name] := by
  have hcomment : (v.callComment name).flatMap (fun l => bound l.toList) = [] :=
    List.flatMap_eq_nil_iff.mpr fun l hl =>
      bound_of_head? (Or.inr (of_mem_callComment hname hl).2)
  have hcall : bound ("export const " ++ name ++
      (" = createIcon('" ++ name ++ v.callRest name)).toList = [name] :=
    bound_export (Or.inl rfl) (ComponentName.continuesIdentifier_of_isValid hname) (by simp)
  rw [callBehind, List.flatMap_append, List.flatMap_append, hcomment, List.flatMap_singleton, hcall]
  rfl

end

/-! ## Classes -/

def classImports : List String :=
  ["import \x7b ChangeDetectionStrategy, Component \x7d from '@angular/core'",
    "import \x7b VectifyIcon \x7d from './createIcon'",
    "import type \x7b IconNode \x7d from './createIcon'", "", "@Component(\x7b"]

def classOptions : List String :=
  ["  standalone: true,", "  template: '',",
    "  changeDetection: ChangeDetectionStrategy.OnPush,", "\x7d)"]

/-- The lines of a class up to the literal. -/
def classBefore (name : String) : List String :=
  classImports ++ ["  selector: '" ++ tagName name ++ "',"] ++ classOptions ++
    ["export class " ++ name ++ " extends VectifyIcon \x7b",
      "  protected readonly name = '" ++ name ++ "'"] ++
    ["  protected readonly iconNode: IconNode[] = ["]

theorem framed_angular {name : String} (hname : ComponentName.isValid name = true) (typed : Bool) :
    angular.Framed typed name (classBefore name) ["  ]", "\x7d"] := by
  have hbefore : angular.componentTemplate.takeWhile isFrame = angular.componentTemplate.take 7 :=
    rfl
  have hbehind : (angular.componentTemplate.dropWhile isFrame).tail =
      angular.componentTemplate.drop 8 := rfl
  have hplain : '\n' ∉ name.toList := ComponentName.not_mem_of_isValid hname '\n' (by decide)
  have htag : '\n' ∉ (tagName name).toList := not_mem_tagName hname (by decide) (by decide)
  refine ⟨?_, ?_, ?_, by decide⟩
  · rw [textBefore, hbefore]
    simp [-String.reduceAppend, angular, script, Angular.component, Builtin.tagName, componentName,
      frameTexts, frameText, classBefore, classImports, classOptions, Text.lines,
      String.join_cons, String.append_assoc]
  · rw [textBehind, hbehind]
    simp [-String.reduceAppend, angular, script, Angular.component, frameTexts, frameText,
      Text.lines, String.join_cons, String.append_assoc]
  · simp only [classBefore, List.forall_mem_append, List.forall_mem_cons]
    refine ⟨⟨⟨⟨by decide +kernel, ?_, List.forall_mem_nil _⟩, by decide +kernel⟩,
      ?_, ?_, List.forall_mem_nil _⟩, by decide +kernel, List.forall_mem_nil _⟩
    · simp [htag]
    · simp [hplain]
    · simp [hplain]

theorem flatMap_classBefore {name : String} (hname : ComponentName.isValid name = true)
    (typed : Bool) :
    (classBefore name).flatMap (fun l => bound l.toList) = angular.ownNames typed ++ [name] := by
  have himports : classImports.flatMap (fun l => bound l.toList) = angular.ownNames typed := by
    have hlines : classImports.flatMap (fun l => bound l.toList) =
        ["ChangeDetectionStrategy", "Component", "VectifyIcon", "IconNode"] := by
      decide +kernel
    exact hlines
  have hoptions : classOptions.flatMap (fun l => bound l.toList) = [] := by decide +kernel
  have hclass : bound ("export class " ++ name ++ " extends VectifyIcon \x7b").toList = [name] :=
    bound_export (Or.inr rfl) (ComponentName.continuesIdentifier_of_isValid hname) (by simp)
  have hselector : bound ("  selector: '" ++ tagName name ++ "',").toList = [] :=
    bound_of_head? (Or.inl (by simp))
  have hfield : bound ("  protected readonly name = '" ++ name ++ "'").toList = [] :=
    bound_of_head? (Or.inl (by simp))
  have hlast : bound "  protected readonly iconNode: IconNode[] = [".toList = [] :=
    bound_of_head? (Or.inl (by decide +kernel))
  simp only [classBefore, List.flatMap_append, List.flatMap_cons, List.flatMap_nil, himports,
    hoptions, hclass, hselector, hfield, hlast, List.append_nil]

/-- A component that is exported by name binds the identifiers of its template, and its name. -/
theorem bindings_component {v : Variant} (hv : v ∈ builtins)
    (hd : v.family.usesDefaultExports = false) {name : String}
    (hname : ComponentName.isValid name = true) {typed keepColors : Bool} {icon : Icon}
    {code : String} (hcode : v.renderComponent name typed keepColors icon = .ok code) :
    bindings code = v.ownNames typed ++ [name] := by
  have hkind : v ∈ callers ∨ v = angular := by
    simp only [builtins, List.mem_cons, List.not_mem_nil, or_false] at hv
    rcases hv with rfl | rfl | rfl | rfl | rfl | rfl | rfl | rfl | rfl | rfl <;>
      first | contradiction | simp [callers]
  rcases hkind with h | rfl
  · rw [bindings_of_framed hv (framed_callers h hname) hcode, flatMap_callBefore h,
      flatMap_callBehind hname]
  · rw [bindings_of_framed hv (framed_angular hname typed) hcode, flatMap_classBefore hname typed]
    rfl

end Variant

end IconCompiler
