import IconCompiler.Icon.Paint
import IconCompiler.Proofs.Icon.Node

/-!
The attributes of all nodes of an icon, and where those of a recoloured icon come from: each is one
that the icon had, or one of the few that paint is replaced by.
-/

namespace IconCompiler

namespace Node

mutual

/-- The attributes of a node and of the nodes below it, in document order. -/
def allAttributes : Node → List (String × AttrValue)
  | leaf _ as => as.entries
  | branch _ as cs => as.entries ++ forestAttributes cs

def forestAttributes : List Node → List (String × AttrValue)
  | [] => []
  | n :: ns => n.allAttributes ++ forestAttributes ns

end

mutual

theorem forall_iff (P : String × AttrValue → Prop) (n : Node) :
    n.Forall P ↔ ∀ a ∈ n.allAttributes, P a := by
  match n with
  | leaf e as => rw [Forall, allAttributes]
  | branch e as cs => rw [Forall, allAttributes, List.forall_mem_append, forestForall_iff P cs]

theorem forestForall_iff (P : String × AttrValue → Prop) (ns : List Node) :
    ForestForall P ns ↔ ∀ a ∈ forestAttributes ns, P a := by
  match ns with
  | [] => simp [ForestForall, forestAttributes]
  | n :: ns =>
    rw [ForestForall, forestAttributes, List.forall_mem_append, forall_iff P n,
      forestForall_iff P ns]

end

end Node

/-- The attributes of an icon, in document order. -/
def Icon.attributes (icon : Icon) : List (String × AttrValue) := Node.forestAttributes icon

/-- The texts among the values of attributes. -/
def AttrValue.texts (es : List (String × AttrValue)) : List String := es.filterMap (·.2.text?)

/-- The texts among the values of an icon. -/
def Icon.texts (icon : Icon) : List String := AttrValue.texts icon.attributes

theorem AttrValue.text?_eq_some_iff {v : AttrValue} {s : String} :
    v.text? = some s ↔ v = .text s := by
  cases v <;> simp [text?]

theorem Icon.mem_texts_iff {icon : Icon} {s : String} :
    s ∈ icon.texts ↔ ∃ a ∈ icon.attributes, a.2 = .text s := by
  simp only [texts, AttrValue.texts, List.mem_filterMap, AttrValue.text?_eq_some_iff]

/-! ## Recoloured icons -/

namespace Attributes

/-- What the paint of a node is replaced by. -/
def paints : List (String × AttrValue) :=
  [("fill", .parameter .color), ("fill", .text "none"), ("stroke", .parameter .color),
    ("strokeWidth", .parameter .strokeWidth), ("strokeLinecap", .text "round"),
    ("strokeLinejoin", .text "round")]

variable {P : String × AttrValue → Prop} {as : Attributes} {keepColors : Bool}

theorem of_mem_unpainted {a : String × AttrValue} (h : a ∈ as.unpainted.entries) :
    a ∈ as.entries := by
  unfold unpainted Table.remove at h
  simp only [List.mem_filter] at h
  exact h.1.1.1

theorem forall_repainted (h : ∀ a ∈ as.entries, P a) (hpaints : ∀ a ∈ paints, P a) :
    ∀ a ∈ as.repainted.entries, P a := by
  have hplain : ∀ a ∈ as.unpainted.entries, P a := fun a ha => h a (of_mem_unpainted ha)
  have hwidth : P ("strokeWidth", (as.get? "strokeWidth").getD (.parameter .strokeWidth)) := by
    cases hfound : as.get? "strokeWidth" with
    | none => exact hpaints _ (by simp [paints])
    | some v => exact h _ ((Table.get?_eq_some_iff as "strokeWidth" v).mp hfound)
  simp only [paints, List.forall_mem_cons] at hpaints
  obtain ⟨hfill, hnone, hstroke, -, hcap, hjoin, -⟩ := hpaints
  unfold repainted
  split
  · exact Table.forall_mem_put hplain hfill
  · have hstroked := Table.forall_mem_put (Table.forall_mem_put hplain hnone) hstroke
    exact Table.forall_mem_put (Table.forall_mem_put (Table.forall_mem_put hstroked hwidth) hcap)
      hjoin
  · exact hplain

theorem forall_normalized (h : ∀ a ∈ as.entries, P a)
    (hpaints : keepColors = false → ∀ a ∈ paints, P a) :
    ∀ a ∈ (as.normalized keepColors).entries, P a := by
  cases keepColors with
  | true => exact h
  | false => exact forall_repainted h (hpaints rfl)

end Attributes

namespace Node

open Attributes

variable {P : String × AttrValue → Prop} {keepColors : Bool}

mutual

theorem Forall.normalized (hpaints : keepColors = false → ∀ a ∈ paints, P a) (n : Node)
    (h : n.Forall P) : (n.normalized keepColors).Forall P := by
  match n with
  | leaf e as => exact forall_normalized h hpaints
  | branch e as cs =>
    exact ⟨forall_normalized h.1 hpaints, ForestForall.normalized hpaints cs h.2⟩

theorem ForestForall.normalized (hpaints : keepColors = false → ∀ a ∈ paints, P a)
    (ns : List Node) (h : ForestForall P ns) : ForestForall P (forestNormalized keepColors ns) := by
  match ns with
  | [] => trivial
  | n :: ns => exact ⟨Forall.normalized hpaints n h.1, ForestForall.normalized hpaints ns h.2⟩

end

mutual

theorem normalized_true (n : Node) : n.normalized true = n := by
  match n with
  | leaf e as => rfl
  | branch e as cs =>
    rw [Node.normalized, forestNormalized_true cs]
    rfl

theorem forestNormalized_true (ns : List Node) : forestNormalized true ns = ns := by
  match ns with
  | [] => rfl
  | n :: ns => rw [forestNormalized, normalized_true n, forestNormalized_true ns]

end

end Node

namespace Icon

variable {icon : Icon} {keepColors : Bool}

/-- With its colours kept, an icon stays as it is. -/
theorem normalized_true (icon : Icon) : icon.normalized true = icon :=
  Node.forestNormalized_true icon

/-- An attribute of a recoloured icon was there before or is paint. -/
theorem of_mem_normalized {a : String × AttrValue}
    (h : a ∈ (icon.normalized keepColors).attributes) :
    a ∈ icon.attributes ∨ keepColors = false ∧ a ∈ Attributes.paints := by
  have hkept : Node.ForestForall
      (fun a => a ∈ icon.attributes ∨ keepColors = false ∧ a ∈ Attributes.paints) icon :=
    (Node.forestForall_iff _ icon).mpr fun a ha => Or.inl ha
  have hall := Node.ForestForall.normalized (fun hk a ha => Or.inr ⟨hk, ha⟩) icon hkept
  exact (Node.forestForall_iff _ _).mp hall a h

end Icon

end IconCompiler
