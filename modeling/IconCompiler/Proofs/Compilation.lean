import IconCompiler.Compilation
import IconCompiler.Proofs.Generation.Plan
import IconCompiler.Proofs.Variant.Import
import IconCompiler.Proofs.Variant.Index

/-!
Compilation with a built-in variant. Its templates lack nothing that they are filled with, so the
only thing that can be wrong is the drawing: a component fails as the drawing does, and the runtime
and every index are made.
-/

namespace IconCompiler

variable {v : Variant}

/-- Every built-in variant is found under its identifier. -/
theorem Registry.get?_builtin (hv : v ∈ Variant.builtins) : builtin.get? v.id = some v := by
  have hpairs : builtin = Table.ofList (Variant.builtins.map fun v => (v.id, v)) := by
    rw [Table.ofList, List.foldl_map]
    rfl
  rw [hpairs]
  refine Table.get?_ofList ?_ (List.mem_map.mpr ⟨v, hv, rfl⟩)
  decide

/-! ## Templates under their names -/

namespace Shelf

theorem get?_builtin {id : String} {t : Template}
    (h : (id, t) ∈ (Variant.builtins.flatMap fun v =>
        [(v.id ++ "/component", v.componentTemplate), (v.id ++ "/runtime", v.runtimeTemplate)]) ++
      [("index/named", Template.Builtin.Index.named),
        ("index/default", Template.Builtin.Index.byDefault)]) :
    builtin.get? id = some t := by
  refine Table.get?_ofList ?_ h
  decide

theorem render_eq_fill {id : String} {t : Template} (h : builtin.get? id = some t)
    (d : Template.Data) : builtin.render id d = Variant.fill id t d := by
  rw [render, h]
  rfl

/-- Each template of a variant is the one that the shelf has under its name. -/
theorem render_builtin (hv : v ∈ Variant.builtins) (d : Template.Data) :
    builtin.render (v.id ++ "/component") d =
        Variant.fill (v.id ++ "/component") v.componentTemplate d ∧
      builtin.render (v.id ++ "/runtime") d =
        Variant.fill (v.id ++ "/runtime") v.runtimeTemplate d := by
  constructor
  · apply render_eq_fill
    apply get?_builtin
    exact List.mem_append_left _ (List.mem_flatMap.mpr ⟨v, hv, List.mem_cons_self⟩)
  · apply render_eq_fill
    apply get?_builtin
    exact List.mem_append_left _ (List.mem_flatMap.mpr ⟨v, hv, by simp⟩)

theorem render_index (d : Template.Data) :
    builtin.render "index/named" d = Variant.fill "index/named" Template.Builtin.Index.named d ∧
      builtin.render "index/default" d =
        Variant.fill "index/default" Template.Builtin.Index.byDefault d := by
  constructor
  · apply render_eq_fill
    apply get?_builtin
    exact List.mem_append_right _ List.mem_cons_self
  · apply render_eq_fill
    apply get?_builtin
    exact List.mem_append_right _ (by simp)

end Shelf

namespace CompileOptions

variable {o : CompileOptions} {name svg : String}

theorem compileComponent_of_error (hv : Registry.builtin.get? o.variant = some v) (name : String)
    {cause : SourceError} (h : Icon.ofSvg svg = .error cause) :
    o.compileComponent name svg = .error (.source cause) := by
  have hfind : Registry.builtin.find o.variant = .ok v := Job.find_eq_ok_iff.mpr hv
  simp only [compileComponent, hfind, h, mapError_error, bind, Except.bind]

theorem compileComponent_of_ok (hv : Registry.builtin.get? o.variant = some v) (name : String)
    {icon : Icon} (h : Icon.ofSvg svg = .ok icon) :
    ∃ text, v.renderComponent name o.typed o.keepColors icon = .ok text ∧
      o.compileComponent name svg = .ok ⟨v.componentFileName name o.typed, text⟩ := by
  obtain ⟨text, htext⟩ := Variant.exists_renderComponent (Registry.mem_builtins_of_get? hv) name
    o.typed o.keepColors icon
  have hfind : Registry.builtin.find o.variant = .ok v := Job.find_eq_ok_iff.mpr hv
  refine ⟨text, htext, ?_⟩
  simp only [compileComponent, hfind, h, htext, mapError_ok, bind, Except.bind, pure, Except.pure]

/-- A component fails as its drawing does, and in no other way. -/
theorem compileComponent_eq_error_iff (hv : Registry.builtin.get? o.variant = some v)
    (name svg : String) (e : CompileError) :
    o.compileComponent name svg = .error e ↔
      ∃ cause, Icon.ofSvg svg = .error cause ∧ e = .source cause := by
  cases h : Icon.ofSvg svg with
  | error cause => simp [compileComponent_of_error hv name h, eq_comm]
  | ok icon =>
    obtain ⟨text, -, hmade⟩ := compileComponent_of_ok hv name h
    simp [hmade]

theorem exists_compileRuntime (hv : Registry.builtin.get? o.variant = some v) :
    ∃ runtime, o.compileRuntime = .ok runtime := by
  obtain ⟨runtime, h⟩ := Variant.exists_renderRuntime (Registry.mem_builtins_of_get? hv) o.typed
  have hfind : Registry.builtin.find o.variant = .ok v := Job.find_eq_ok_iff.mpr hv
  refine ⟨runtime, ?_⟩
  simp only [compileRuntime, hfind, h, mapError_ok, bind, Except.bind]

theorem compileIndex_eq (hv : Registry.builtin.get? o.variant = some v) (names : List String) :
    o.compileIndex names =
      .ok ⟨v.indexFileName o.typed, Text.lines (names.map (v.exportLine o.typed))⟩ := by
  have hfind : Registry.builtin.find o.variant = .ok v := Job.find_eq_ok_iff.mpr hv
  simp only [compileIndex, hfind, Variant.renderIndex_eq, mapError_ok, bind, Except.bind, pure,
    Except.pure]

end CompileOptions

end IconCompiler
