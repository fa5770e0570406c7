import IconCompiler.Template.Basic

/-! Filled templates: their texts are those of their parts, one after the other. -/

namespace IconCompiler.Template

theorem fillAll_cons_eq_ok_iff {d : Data} {p : Part} {ps : List Part} {s : String} :
    Part.fillAll d (p :: ps) = .ok s ↔
      ∃ a b, Part.fill d p = .ok a ∧ Part.fillAll d ps = .ok b ∧ s = a ++ b := by
  rw [Part.fillAll]
  cases Part.fill d p with
  | error e => simp [bind, Except.bind]
  | ok a =>
    cases Part.fillAll d ps with
    | error e => simp [bind, Except.bind]
    | ok b => simp [bind, Except.bind, pure, Except.pure, eq_comm]

theorem fillAll_append_eq_ok_iff {d : Data} {ps qs : List Part} {s : String} :
    Part.fillAll d (ps ++ qs) = .ok s ↔
      ∃ a b, Part.fillAll d ps = .ok a ∧ Part.fillAll d qs = .ok b ∧ s = a ++ b := by
  induction ps generalizing s with
  | nil => simp [Part.fillAll, eq_comm]
  | cons p ps ih =>
    simp only [List.cons_append, fillAll_cons_eq_ok_iff, ih]
    constructor
    · rintro ⟨a, b, ha, ⟨b, c, hb, hc, rfl⟩, rfl⟩
      exact ⟨_, c, ⟨a, b, ha, hb, rfl⟩, hc, (String.append_assoc).symm⟩
    · rintro ⟨ab, c, ⟨a, b, ha, hb, rfl⟩, hc, rfl⟩
      exact ⟨a, _, ha, ⟨b, c, hb, hc, rfl⟩, String.append_assoc⟩

theorem fill_value_eq_ok_iff {d v : Data} {path : Path} {s : String} (h : d.at? path = some v) :
    Part.fill d (.value path) = .ok s ↔ s = v.shown := by
  rw [Part.fill, h, Except.ok.injEq, eq_comm]

theorem fill_text_eq_ok_iff {d : Data} {t s : String} :
    Part.fill d (.text t) = .ok s ↔ s = t := by
  rw [Part.fill, Except.ok.injEq, eq_comm]

theorem fillAll_singleton (d : Data) (p : Part) : Part.fillAll d [p] = Part.fill d p := by
  rw [Part.fillAll, Part.fillAll]
  cases Part.fill d p with
  | error e => rfl
  | ok s => simp [bind, Except.bind, pure, Except.pure]

theorem fill_loop {d : Data} {path : Path} {items : List Data} (h : d.at? path = some (.list items))
    (body : List Part) : Part.fill d (.loop (some path) body) =
      repeated (fun item => Part.fillAll item body) items := by
  rw [Part.fill]
  simp only [argument, h, Option.bind_some, Data.items?, bind, Except.bind]

theorem repeated_map {α : Type} {f : Data → Except Fault String} {entry : α → Data}
    {g : α → String} (h : ∀ a, f (entry a) = .ok (g a)) (as : List α) :
    repeated f (as.map entry) = .ok (String.join (as.map g)) := by
  induction as with
  | nil => rfl
  | cons a as ih =>
    rw [List.map_cons, repeated, h, ih, List.map_cons, String.join_cons]
    rfl

end IconCompiler.Template
