import IconCompiler.Proofs.Icon.Parameter

/-!
What an icon that was read is like at each of its nodes: the list of children is missing where it
would be empty, and keys and values are as the data model has them.
-/

namespace IconCompiler

namespace AttributeName

/-- In a folded name no hyphen is left in front of a small letter. -/
theorem isChain_foldChars (cs : List Char) :
    (foldChars cs).IsChain fun c d => c = '-' → d.isLower = false := by
  induction cs using foldChars.induct with
  | case1 d ds hd ih =>
    rw [foldChars_hyphen_lower hd, List.isChain_cons]
    exact ⟨fun _ _ hhyphen => absurd hhyphen (ne_hyphen_of_isUpper (isUpper_toUpper hd)), ih⟩
  | case2 d ds hd ih =>
    have hhead : ∀ x ∈ (d :: ds).head?, x.isLower = false := by
      intro x hx
      rw [← Option.some.inj hx]
      exact Bool.not_eq_true _ ▸ hd
    rw [foldChars, if_neg hd, List.isChain_cons]
    exact ⟨fun x hx _ => head_foldChars hhead x hx, ih⟩
  | case3 d ds hd ih =>
    rw [foldChars, List.isChain_cons]
    · refine ⟨fun x hx hhyphen => ?_, ih⟩
      -- a hyphen that is followed by something is the concern of the first two cases
      cases ds with
      | nil => contradiction
      | cons y ys => exact absurd rfl (hd y ys hhyphen)
    · exact hd
  | case4 => exact List.isChain_nil

theorem not_isLower_of_fold {key : String} (h : fold key = key) {c : Char}
    (hc : ['-', c] <:+: key.toList) : c.isLower = false := by
  obtain ⟨front, rest, hkey⟩ := hc
  have hchain := isChain_foldChars key.toList
  rw [← toList_fold, h, ← hkey] at hchain
  exact List.isChain_pair.mp hchain.left_of_append.right_of_append rfl

end AttributeName

/-! ## The nodes of an icon -/

namespace Node

mutual

/-- A node and the nodes below it, in document order. -/
def subtrees : Node → List Node
  | leaf e as => [leaf e as]
  | branch e as cs => branch e as cs :: forestSubtrees cs

def forestSubtrees : List Node → List Node
  | [] => []
  | n :: ns => n.subtrees ++ forestSubtrees ns

end

/-- The list of children is missing where it would be empty. -/
def OmitsEmpty (n : Node) : Prop := ∀ e as, n ≠ branch e as []

variable {P : String × AttrValue → Prop}

mutual

theorem forall_of_subtrees (n : Node) (h : n.Forall P ∧ n.Filled) :
    ∀ m ∈ n.subtrees, (∀ a ∈ m.attributes.entries, P a) ∧ m.OmitsEmpty := by
  match n with
  | leaf e as =>
    rintro m hm
    rw [List.mem_singleton.mp hm]
    exact ⟨h.1, fun _ _ he => by contradiction⟩
  | branch e as cs =>
    obtain ⟨⟨has, hcs⟩, hne, hfilled⟩ := h
    refine List.forall_mem_cons.mpr ⟨⟨has, fun f bs he => hne ?_⟩,
      forall_of_forestSubtrees cs ⟨hcs, hfilled⟩⟩
    exact (branch.inj he).2.2

theorem forall_of_forestSubtrees (ns : List Node) (h : ForestForall P ns ∧ ForestFilled ns) :
    ∀ m ∈ forestSubtrees ns, (∀ a ∈ m.attributes.entries, P a) ∧ m.OmitsEmpty := by
  match ns with
  | [] => simp [forestSubtrees]
  | n :: ns =>
    exact List.forall_mem_append.mpr ⟨forall_of_subtrees n ⟨h.1.1, h.2.1⟩,
      forall_of_forestSubtrees ns ⟨h.1.2, h.2.2⟩⟩

end

end Node

/-- The nodes of an icon at every depth, in document order. -/
def Icon.nodes (icon : Icon) : List Node := Node.forestSubtrees icon

/-! ## The data model -/

/-- A value as the data model has it: a finite number or a text that is none. -/
def AttrValue.IsSound : AttrValue → Prop
  | number x => x.isFinite = true
  | text s => ofText s = text s
  | parameter _ => False

theorem AttrValue.isSound_ofText (raw : String) : (ofText raw).IsSound := by
  rcases ofText_cases raw with ⟨x, hx, hfinite⟩ | htext
  · rw [hx]
    exact hfinite
  · rw [htext]
    exact htext

/-- An attribute as the data model has it, with a folded key that declares no namespace. -/
structure IsSound (a : String × AttrValue) : Prop where
  undeclared : ¬ "xmlns".toList <+: a.1.toList
  folded : ∀ c, ['-', c] <:+: a.1.toList → c.isLower = false
  value : a.2.IsSound

/-- A node as the data model has it. -/
structure Node.IsSound (n : Node) : Prop where
  children : n.OmitsEmpty
  keys : n.attributes.keys.Nodup
  attributes : ∀ a ∈ n.attributes.entries, IconCompiler.IsSound a

theorem IsParsed.isSound {a : String × AttrValue} (h : IsParsed a) : IsSound a where
  undeclared := AttributeName.IsKey.not_declares h.key
  folded _ := AttributeName.not_isLower_of_fold (AttributeName.IsKey.fold_self h.key)
  value := by
    obtain ⟨raw, hraw⟩ := h.value
    rw [hraw]
    exact AttrValue.isSound_ofText raw

/-- An icon that was read is as the data model has it, at every node. -/
theorem Icon.sound_at_every_node {svg : String} {icon : Icon} (h : Icon.ofSvg svg = .ok icon) :
    ∀ n ∈ icon.nodes, n.IsSound := by
  intro n hn
  obtain ⟨hattributes, hchildren⟩ :=
    Node.forall_of_forestSubtrees icon (isParsed_of_ofSvg h) n hn
  exact ⟨hchildren, n.attributes.nodup, fun a ha => (hattributes a ha).isSound⟩

/-- A drawing with two names that fold to one key, a group that keeps no child, a name that may not
be folded and a number in blanks. -/
def collidingNames : String :=
  "<svg><g data-x=\"1\" dataX=\" 2 \"><path a--b=\"nan\"/><g><text/></g></g></svg>"

theorem Icon.sound_at_nodes_of_collidingNames :
    ∃ icon, Icon.ofSvg collidingNames = .ok icon ∧
      icon.nodes.map (fun n => (n.element, n.attributes.entries)) =
        [(.group, [("dataX", .number .two)]), (.path, [("a-B", .text "nan")]), (.group, [])] ∧
      ∀ n ∈ icon.nodes, n.IsSound := by
  have hcheck : ((Icon.ofSvg collidingNames).toOption.any fun icon => decide
      (icon.nodes.map (fun n => (n.element, n.attributes.entries)) =
        [(.group, [("dataX", .number .two)]), (.path, [("a-B", .text "nan")]),
          (.group, [])])) = true := by
    decide +kernel
  cases hread : Icon.ofSvg collidingNames with
  | error e =>
    simp only [hread, Except.toOption, Option.any_none, Bool.false_eq_true] at hcheck
  | ok icon =>
    simp only [hread, Except.toOption, Option.any_some, decide_eq_true_eq] at hcheck
    exact ⟨icon, rfl, hcheck, Icon.sound_at_every_node hread⟩

end IconCompiler
