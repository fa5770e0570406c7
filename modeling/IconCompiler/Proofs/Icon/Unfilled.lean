import IconCompiler.Proofs.Icon.Parameter
import IconCompiler.Proofs.Icon.Repainting

/-!
Nodes whose fill is `none`. Without a stroke they lose their paint and are given none in its place.
With one they are stroked in the colour of the icon, also if that stroke is `none`.
-/

namespace IconCompiler

namespace Attributes

/-- A fill that is there and is `none`. -/
def IsUnfilled (as : Attributes) : Prop := as.get? "fill" = some (.text "none")

/-- Whether some value is the colour of the icon. -/
def TakesColor (as : Attributes) : Prop := ∃ a ∈ as.entries, a.2 = .parameter .color

/-- Whether some value, other than paint, is the colour of the icon already. -/
def PlainlyTakesColor (as : Attributes) : Prop := ∃ a ∈ as.plain, a.2 = .parameter .color

variable {as : Attributes}

theorem IsUnfilled.paintRole (h : as.IsUnfilled) :
    as.paintRole = if "stroke" ∈ as.keys then .stroke else .neutral := by
  have hstroke : as.has "stroke" = decide ("stroke" ∈ as.keys) := by
    rw [Bool.eq_iff_iff, Table.has_iff, decide_eq_true_iff]
  have hfill : (as.get? "fill").any (!·.isNone) = false := by
    rw [h]
    rfl
  rw [Attributes.paintRole, hfill, if_neg Bool.false_ne_true, hstroke]
  simp only [decide_eq_true_eq]

theorem IsUnfilled.entries_of_not_mem (h : as.IsUnfilled) (hstroke : "stroke" ∉ as.keys) :
    as.repainted.entries = as.plain := by
  apply entries_repainted_of_neutral
  rw [h.paintRole, if_neg hstroke]

theorem IsUnfilled.mem_of_mem (h : as.IsUnfilled) (hstroke : "stroke" ∈ as.keys) :
    ("stroke", .parameter .color) ∈ as.repainted.entries := by
  have hrole : as.paintRole = .stroke := by
    rw [h.paintRole, if_pos hstroke]
  rw [entries_repainted_of_stroke hrole]
  simp [strokePaint]

/-- Of nodes that are not filled, those with a stroke take the colour of the icon, and those that
had it before. -/
theorem IsUnfilled.takesColor_iff (h : as.IsUnfilled) :
    as.repainted.TakesColor ↔ "stroke" ∈ as.keys ∨ as.PlainlyTakesColor := by
  by_cases hstroke : "stroke" ∈ as.keys
  · exact iff_of_true ⟨_, h.mem_of_mem hstroke, rfl⟩ (Or.inl hstroke)
  · rw [TakesColor, h.entries_of_not_mem hstroke, or_iff_right hstroke, PlainlyTakesColor]

end Attributes

namespace Node

variable {P : String × AttrValue → Prop} {R S : Attributes → Attributes → Prop}

mutual

/-- What follows for attributes with a property, follows for trees in which all have it. -/
theorem Alike.imp_of_forall (h : ∀ as bs, (∀ a ∈ as.entries, P a) → R as bs → S as bs)
    (n m : Node) (hn : n.Forall P) (hnm : n.Alike R m) : n.Alike S m := by
  match n, m with
  | leaf e as, leaf f bs => exact ⟨hnm.1, h as bs hn hnm.2⟩
  | branch e as cs, branch f bs ds =>
    exact ⟨hnm.1, h as bs hn.1 hnm.2.1, ForestAlike.imp_of_forall h cs ds hn.2 hnm.2.2⟩
  | leaf _ _, branch _ _ _ | branch _ _ _, leaf _ _ => exact hnm.elim

theorem ForestAlike.imp_of_forall (h : ∀ as bs, (∀ a ∈ as.entries, P a) → R as bs → S as bs)
    (ns ms : List Node) (hns : ForestForall P ns) (hnm : ForestAlike R ns ms) :
    ForestAlike S ns ms := by
  match ns, ms with
  | [], [] => trivial
  | n :: ns, m :: ms =>
    exact ⟨Alike.imp_of_forall h n m hns.1 hnm.1,
      ForestAlike.imp_of_forall h ns ms hns.2 hnm.2⟩
  | [], _ :: _ | _ :: _, [] => exact hnm.elim

end

end Node

namespace Icon

open Attributes

/-- A node that is neither filled nor stroked keeps what is no paint and nothing else, wherever it
is in the icon. Of the nodes of a drawing that are not filled, only those with a stroke take the
colour of the icon. -/
theorem unstroked_stay_unpainted (icon : Icon) :
    icon.Alike (fun as bs => as.IsUnfilled →
        ("stroke" ∉ as.keys → bs.entries = as.plain) ∧
        (bs.TakesColor ↔ "stroke" ∈ as.keys ∨ as.PlainlyTakesColor)) (icon.normalized false) ∧
      ∀ svg, Icon.ofSvg svg = .ok icon →
        icon.Alike (fun as bs => as.IsUnfilled → (bs.TakesColor ↔ "stroke" ∈ as.keys))
          (icon.normalized false) := by
  have hall : icon.Alike (fun as bs => as.IsUnfilled →
      ("stroke" ∉ as.keys → bs.entries = as.plain) ∧
      (bs.TakesColor ↔ "stroke" ∈ as.keys ∨ as.PlainlyTakesColor)) (icon.normalized false) := by
    rw [normalized_eq]
    apply alike_mapAttributes
    exact fun as h => ⟨h.entries_of_not_mem, h.takesColor_iff⟩
  refine ⟨hall, fun svg hsvg => ?_⟩
  have hread : Node.ForestForall (fun a => a.2 ≠ .parameter .color) icon :=
    (Node.forestForall_iff _ icon).mpr fun a ha => ne_parameter_of_ofSvg hsvg a ha .color
  apply Node.ForestAlike.imp_of_forall _ icon _ hread hall
  intro as bs has hbs h
  have hplain : ¬ as.PlainlyTakesColor := by
    rintro ⟨a, ha, hcolor⟩
    exact has a (List.mem_filter.mp ha).1 hcolor
  rw [(hbs h).2, or_iff_left hplain]

/-- A box that is not filled, in a stroked group that is filled. -/
def boxInGroup : String :=
  "<svg><g fill=\"red\" stroke=\"red\">" ++
    "<path d=\"M0 0h24v24H0z\" fill=\"none\" stroke-width=\"2\"/></g></svg>"

theorem box_in_group_stays_unpainted :
    ∃ icon, Icon.ofSvg boxInGroup = .ok icon ∧
      icon.attributes = [("fill", .text "red"), ("stroke", .text "red"),
        ("d", .text "M0 0h24v24H0z"), ("fill", .text "none"), ("strokeWidth", .number .two)] ∧
      (icon.normalized false).attributes =
        [("fill", .parameter .color), ("d", .text "M0 0h24v24H0z")] ∧
      icon.Alike (fun as bs => as.IsUnfilled → (bs.TakesColor ↔ "stroke" ∈ as.keys))
        (icon.normalized false) := by
  have hcheck : (Icon.ofSvg boxInGroup).toOption.map (fun icon =>
      (icon.attributes, (icon.normalized false).attributes)) =
        some ([("fill", .text "red"), ("stroke", .text "red"),
          ("d", .text "M0 0h24v24H0z"), ("fill", .text "none"), ("strokeWidth", .number .two)],
          [("fill", .parameter .color), ("d", .text "M0 0h24v24H0z")]) := by
    decide +kernel
  obtain ⟨icon, hread, hlook⟩ := exists_of_toOption hcheck
  obtain ⟨hbefore, hafter⟩ := Prod.mk.inj hlook
  exact ⟨icon, hread, hbefore, hafter, (unstroked_stay_unpainted icon).2 boxInGroup hread⟩

/-- A box that is neither filled nor stroked, in so many words. -/
def invisibleBox : Icon :=
  [.leaf .path ⟨[("d", .text "M0 0h24v24H0z"), ("fill", .text "none"), ("stroke", .text "none")],
    by decide⟩]

/-- The box that says that it has no stroke is stroked in the colour of the icon. One that says
nothing of a stroke is not, but no longer says that it is not filled. -/
theorem invisible_box_painted :
    ¬ invisibleBox.Alike (fun as bs => as.IsUnfilled →
        (as.get? "stroke" = none ∨ as.get? "stroke" = some (.text "none")) → ¬ bs.TakesColor)
      (invisibleBox.normalized false) ∧
    (invisibleBox.normalized false).attributes =
      [("d", .text "M0 0h24v24H0z"), ("fill", .text "none"), ("stroke", .parameter .color),
        ("strokeWidth", .parameter .strokeWidth), ("strokeLinecap", .text "round"),
        ("strokeLinejoin", .text "round")] ∧
    (Icon.ofSvg "<svg><path d=\"M0 0h24v24H0z\" fill=\"none\" stroke=\"none\"/></svg>").toOption.map
      Icon.attributes = some invisibleBox.attributes ∧
    (Icon.ofSvg "<svg><path d=\"M0 0h24v24H0z\" fill=\"none\"/></svg>").toOption.map
      (fun icon => (icon.normalized false).attributes) = some [("d", .text "M0 0h24v24H0z")] := by
  refine ⟨fun h => ?_, by decide, by decide +kernel, by decide +kernel⟩
  exact h.1.2 rfl (Or.inr rfl) ⟨("stroke", .parameter .color), by decide, rfl⟩

end Icon

end IconCompiler
