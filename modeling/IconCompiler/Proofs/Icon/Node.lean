import IconCompiler.Icon.Node
import IconCompiler.Proofs.Table

/-!
What holds of all attributes of a drawing, and drawings in which values have been replaced.
-/

namespace IconCompiler

/-- The attributes with each value replaced. -/
def Attributes.mapValues (f : AttrValue → AttrValue) (as : Attributes) : Attributes :=
  ⟨as.entries.map fun e => (e.1, f e.2), by rw [List.map_map]; exact as.nodup⟩

namespace Node

mutual

/-- What holds of every attribute of a node and of the nodes below it. -/
def Forall (P : String × AttrValue → Prop) : Node → Prop
  | leaf _ as => ∀ a ∈ as.entries, P a
  | branch _ as cs => (∀ a ∈ as.entries, P a) ∧ ForestForall P cs

def ForestForall (P : String × AttrValue → Prop) : List Node → Prop
  | [] => True
  | n :: ns => n.Forall P ∧ ForestForall P ns

end

mutual

/-- No list of children is empty. -/
def Filled : Node → Prop
  | leaf _ _ => True
  | branch _ _ cs => cs ≠ [] ∧ ForestFilled cs

def ForestFilled : List Node → Prop
  | [] => True
  | n :: ns => n.Filled ∧ ForestFilled ns

end

mutual

/-- The node with the value of every attribute replaced. -/
def mapValues (f : AttrValue → AttrValue) : Node → Node
  | leaf e as => leaf e (Attributes.mapValues f as)
  | branch e as cs => branch e (Attributes.mapValues f as) (forestMapValues f cs)

def forestMapValues (f : AttrValue → AttrValue) : List Node → List Node
  | [] => []
  | n :: ns => n.mapValues f :: forestMapValues f ns

end

variable {P Q : String × AttrValue → Prop} {f g : AttrValue → AttrValue}

mutual

theorem Forall.imp (h : ∀ a, P a → Q a) (n : Node) (hn : n.Forall P) : n.Forall Q := by
  match n with
  | leaf _ as => exact fun a ha => h a (hn a ha)
  | branch _ as cs => exact ⟨fun a ha => h a (hn.1 a ha), ForestForall.imp h cs hn.2⟩

theorem ForestForall.imp (h : ∀ a, P a → Q a) (ns : List Node) (hns : ForestForall P ns) :
    ForestForall Q ns := by
  match ns with
  | [] => trivial
  | n :: ns => exact ⟨Forall.imp h n hns.1, ForestForall.imp h ns hns.2⟩

end

mutual

theorem Forall.and (n : Node) (hp : n.Forall P) (hq : n.Forall Q) :
    n.Forall fun a => P a ∧ Q a := by
  match n with
  | leaf _ as => exact fun a ha => ⟨hp a ha, hq a ha⟩
  | branch _ as cs =>
    exact ⟨fun a ha => ⟨hp.1 a ha, hq.1 a ha⟩, ForestForall.and cs hp.2 hq.2⟩

theorem ForestForall.and (ns : List Node) (hp : ForestForall P ns) (hq : ForestForall Q ns) :
    ForestForall (fun a => P a ∧ Q a) ns := by
  match ns with
  | [] => trivial
  | n :: ns => exact ⟨Forall.and n hp.1 hq.1, ForestForall.and ns hp.2 hq.2⟩

end

/-! ## Replaced values -/

theorem attributesMapValues_congr {as : Attributes} (h : ∀ a ∈ as.entries, f a.2 = g a.2) :
    Attributes.mapValues f as = Attributes.mapValues g as := by
  have hentries : as.entries.map (fun e => (e.1, f e.2)) = as.entries.map fun e => (e.1, g e.2) :=
    List.map_congr_left fun a ha => by rw [h a ha]
  simp only [Attributes.mapValues, hentries]

mutual

theorem mapValues_congr (n : Node) (h : n.Forall fun a => f a.2 = g a.2) :
    n.mapValues f = n.mapValues g := by
  match n with
  | leaf e as => rw [mapValues, mapValues, attributesMapValues_congr h]
  | branch e as cs =>
    rw [mapValues, mapValues, attributesMapValues_congr h.1, forestMapValues_congr cs h.2]

theorem forestMapValues_congr (ns : List Node) (h : ForestForall (fun a => f a.2 = g a.2) ns) :
    forestMapValues f ns = forestMapValues g ns := by
  match ns with
  | [] => rfl
  | n :: ns =>
    rw [forestMapValues, forestMapValues, mapValues_congr n h.1, forestMapValues_congr ns h.2]

end

theorem same_attributesMapValues (f : AttrValue → AttrValue) (as : Attributes) :
    Attributes.same as (Attributes.mapValues f as) = true ↔
      ∀ a ∈ as.entries, a.2.same (f a.2) = true := by
  have hget : ∀ name v, (name, v) ∈ as.entries →
      (Attributes.mapValues f as).get? name = some (f v) := by
    intro name v ha
    rw [Table.get?_eq_some_iff]
    exact List.mem_map.mpr ⟨(name, v), ha, rfl⟩
  have hsize : (as.size == (Attributes.mapValues f as).size) = true := by
    rw [beq_iff_eq, Table.size, Table.size, Attributes.mapValues, List.length_map]
  rw [Attributes.same, hsize, Bool.true_and, List.all_eq_true]
  constructor
  · rintro h ⟨name, v⟩ ha
    have hsame := h (name, v) ha
    dsimp only at hsame
    rw [hget name v ha] at hsame
    exact hsame
  · rintro h ⟨name, v⟩ ha
    dsimp only
    rw [hget name v ha]
    exact h (name, v) ha

mutual

/-- A drawing is the same with values replaced by values that are the same. -/
theorem same_mapValues (f : AttrValue → AttrValue) (n : Node) :
    n.same (n.mapValues f) = true ↔ n.Forall fun a => a.2.same (f a.2) = true := by
  match n with
  | leaf e as =>
    rw [mapValues, same, Forall, beq_self_eq_true, Bool.true_and, same_attributesMapValues]
  | branch e as cs =>
    rw [mapValues, same, Forall, beq_self_eq_true, Bool.true_and, Bool.and_eq_true,
      same_attributesMapValues, forestSame_mapValues f cs]

theorem forestSame_mapValues (f : AttrValue → AttrValue) (ns : List Node) :
    forestSame ns (forestMapValues f ns) = true ↔
      ForestForall (fun a => a.2.same (f a.2) = true) ns := by
  match ns with
  | [] => exact iff_of_true rfl trivial
  | n :: ns =>
    rw [forestMapValues, forestSame, ForestForall, Bool.and_eq_true, same_mapValues f n,
      forestSame_mapValues f ns]

end

end Node

end IconCompiler
