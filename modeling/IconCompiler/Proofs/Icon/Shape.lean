import IconCompiler.Icon.Paint

/-!
Trees of one shape. A tree whose attributes are rewritten node by node keeps its shape, and what is
known of the rewriting of attributes carries over to the trees.
-/

namespace IconCompiler

namespace Node

mutual

/-- Trees of one shape: the same elements over the same children, and at every two nodes that
correspond attributes in this relation. -/
def Alike (R : Attributes → Attributes → Prop) : Node → Node → Prop
  | leaf e as, leaf f bs => e = f ∧ R as bs
  | branch e as cs, branch f bs ds => e = f ∧ R as bs ∧ ForestAlike R cs ds
  | _, _ => False

def ForestAlike (R : Attributes → Attributes → Prop) : List Node → List Node → Prop
  | [], [] => True
  | n :: ns, m :: ms => n.Alike R m ∧ ForestAlike R ns ms
  | _, _ => False

end

mutual

/-- The tree with the attributes of every node rewritten. -/
def mapAttributes (f : Attributes → Attributes) : Node → Node
  | leaf e as => leaf e (f as)
  | branch e as cs => branch e (f as) (forestMapAttributes f cs)

def forestMapAttributes (f : Attributes → Attributes) : List Node → List Node
  | [] => []
  | n :: ns => n.mapAttributes f :: forestMapAttributes f ns

end

variable {R : Attributes → Attributes → Prop} {f g : Attributes → Attributes}

mutual

theorem mapAttributes_id (n : Node) : n.mapAttributes id = n := by
  match n with
  | leaf e as => rfl
  | branch e as cs => rw [mapAttributes, forestMapAttributes_id cs, id]

theorem forestMapAttributes_id (ns : List Node) : forestMapAttributes id ns = ns := by
  match ns with
  | [] => rfl
  | n :: ns => rw [forestMapAttributes, mapAttributes_id n, forestMapAttributes_id ns]

end

mutual

theorem mapAttributes_mapAttributes (f g : Attributes → Attributes) (n : Node) :
    (n.mapAttributes f).mapAttributes g = n.mapAttributes (g ∘ f) := by
  match n with
  | leaf e as => rfl
  | branch e as cs =>
    rw [mapAttributes, mapAttributes, mapAttributes, forestMapAttributes_map f g cs]
    rfl

theorem forestMapAttributes_map (f g : Attributes → Attributes) (ns : List Node) :
    forestMapAttributes g (forestMapAttributes f ns) = forestMapAttributes (g ∘ f) ns := by
  match ns with
  | [] => rfl
  | n :: ns =>
    rw [forestMapAttributes, forestMapAttributes, forestMapAttributes,
      mapAttributes_mapAttributes f g n, forestMapAttributes_map f g ns]

end

mutual

theorem alike_mapAttributes (h : ∀ as, R (f as) (g as)) (n : Node) :
    (n.mapAttributes f).Alike R (n.mapAttributes g) := by
  match n with
  | leaf e as => exact ⟨rfl, h as⟩
  | branch e as cs => exact ⟨rfl, h as, forestAlike_mapAttributes h cs⟩

theorem forestAlike_mapAttributes (h : ∀ as, R (f as) (g as)) (ns : List Node) :
    ForestAlike R (forestMapAttributes f ns) (forestMapAttributes g ns) := by
  match ns with
  | [] => trivial
  | n :: ns => exact ⟨alike_mapAttributes h n, forestAlike_mapAttributes h ns⟩

end

mutual

/-- What a rewriting makes the same of any two attributes that are related, it makes the same of
trees. -/
theorem Alike.mapAttributes_eq (h : ∀ as bs, R as bs → f as = f bs) (n m : Node)
    (hnm : n.Alike R m) : n.mapAttributes f = m.mapAttributes f := by
  match n, m with
  | leaf e as, leaf e' bs =>
    obtain ⟨rfl, hr⟩ := hnm
    rw [mapAttributes, mapAttributes, h as bs hr]
  | branch e as cs, branch e' bs ds =>
    obtain ⟨rfl, hr, hforest⟩ := hnm
    rw [mapAttributes, mapAttributes, h as bs hr, ForestAlike.mapAttributes_eq h cs ds hforest]
  | leaf _ _, branch _ _ _ | branch _ _ _, leaf _ _ => exact hnm.elim

theorem ForestAlike.mapAttributes_eq (h : ∀ as bs, R as bs → f as = f bs) (ns ms : List Node)
    (hnm : ForestAlike R ns ms) : forestMapAttributes f ns = forestMapAttributes f ms := by
  match ns, ms with
  | [], [] => rfl
  | n :: ns, m :: ms =>
    rw [forestMapAttributes, forestMapAttributes, Alike.mapAttributes_eq h n m hnm.1,
      ForestAlike.mapAttributes_eq h ns ms hnm.2]
  | [], _ :: _ | _ :: _, [] => exact hnm.elim

end

mutual

theorem normalized_eq (keepColors : Bool) (n : Node) :
    n.normalized keepColors = n.mapAttributes (Attributes.normalized keepColors) := by
  match n with
  | leaf e as => rfl
  | branch e as cs => rw [normalized, mapAttributes, forestNormalized_eq keepColors cs]

theorem forestNormalized_eq (keepColors : Bool) (ns : List Node) :
    forestNormalized keepColors ns =
      forestMapAttributes (Attributes.normalized keepColors) ns := by
  match ns with
  | [] => rfl
  | n :: ns =>
    rw [forestNormalized, forestMapAttributes, normalized_eq keepColors n,
      forestNormalized_eq keepColors ns]

end

end Node

namespace Icon

/-- Icons of one shape, with attributes in this relation at every two nodes that correspond. -/
def Alike (R : Attributes → Attributes → Prop) (icon icon' : Icon) : Prop :=
  Node.ForestAlike R icon icon'

/-- The icon with the attributes of every node rewritten. -/
def mapAttributes (f : Attributes → Attributes) (icon : Icon) : Icon :=
  Node.forestMapAttributes f icon

variable {R : Attributes → Attributes → Prop} {f g : Attributes → Attributes} {icon icon' : Icon}

theorem normalized_eq (keepColors : Bool) (icon : Icon) :
    icon.normalized keepColors = icon.mapAttributes (Attributes.normalized keepColors) :=
  Node.forestNormalized_eq keepColors icon

theorem mapAttributes_mapAttributes (f g : Attributes → Attributes) (icon : Icon) :
    (icon.mapAttributes f).mapAttributes g = icon.mapAttributes (g ∘ f) :=
  Node.forestMapAttributes_map f g icon

theorem alike_mapAttributes_mapAttributes (icon : Icon) (h : ∀ as, R (f as) (g as)) :
    (icon.mapAttributes f).Alike R (icon.mapAttributes g) :=
  Node.forestAlike_mapAttributes h icon

theorem alike_mapAttributes (icon : Icon) (h : ∀ as, R as (g as)) :
    icon.Alike R (icon.mapAttributes g) := by
  have halike : (icon.mapAttributes id).Alike R (icon.mapAttributes g) :=
    icon.alike_mapAttributes_mapAttributes h
  rwa [mapAttributes, Node.forestMapAttributes_id] at halike

theorem Alike.mapAttributes_eq (hicon : icon.Alike R icon')
    (h : ∀ as bs, R as bs → f as = f bs) : icon.mapAttributes f = icon'.mapAttributes f :=
  Node.ForestAlike.mapAttributes_eq h icon icon' hicon

end Icon

end IconCompiler
