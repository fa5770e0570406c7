import IconCompiler.Proofs.Icon.Attributes
import IconCompiler.Proofs.Icon.Indentation
import IconCompiler.Proofs.Text.Occurrences

/-!
How often a piece of markup stands in the literal of an icon: as often as in the texts among its
values. Quoting changes nothing about that, since none of the characters of the piece is escaped,
and no other part of a literal has a `<`.
-/

namespace IconCompiler.Literal

open Text

variable {p : List Char}

/-! ## Quoted texts -/

theorem escape_cases (c : Char) :
    escape c = [c] ∨ ∃ e ∈ ['\\', '\'', 'n', 'r'], escape c = ['\\', e] := by
  unfold escape
  split
  · exact Or.inr ⟨'\\', by simp⟩
  · split
    · exact Or.inr ⟨'\'', by simp⟩
    · split
      · exact Or.inr ⟨'n', by simp⟩
      · split
        · exact Or.inr ⟨'r', by simp⟩
        · exact Or.inl rfl

theorem prefix_escaped_iff (hp : ∀ c ∈ p, escape c = [c]) (cs rest : List Char) :
    p <+: cs.flatMap escape ++ '\'' :: rest ↔ p <+: cs := by
  induction p generalizing cs with
  | nil => simp
  | cons d p ih =>
    rw [List.forall_mem_cons] at hp
    obtain ⟨hd, hp⟩ := hp
    cases cs with
    | nil =>
      have hquote : d ≠ '\'' := by
        rintro rfl
        contradiction
      simp [hquote]
    | cons c cs =>
      rcases escape_cases c with hc | ⟨e, -, hc⟩
      · rw [List.flatMap_cons, hc, List.append_assoc, List.singleton_append,
          List.cons_prefix_cons, List.cons_prefix_cons, ih hp]
      · -- a character that is escaped is none of the piece
        have hbackslash : d ≠ '\\' := by
          rintro rfl
          contradiction
        have hne : d ≠ c := by
          rintro rfl
          rw [hd] at hc
          simp at hc
        rw [List.flatMap_cons, hc]
        simp [List.cons_prefix_cons, hbackslash, hne]

theorem occurrences_escaped (hp : ∀ c ∈ p, escape c = [c]) (cs rest : List Char) :
    occurrences ('<' :: p) (cs.flatMap escape ++ '\'' :: rest) =
      occurrences ('<' :: p) cs + occurrences ('<' :: p) rest := by
  induction cs with
  | nil =>
    have hquote : ('<' :: p).isPrefixOf ('\'' :: rest) = false := by simp [List.isPrefixOf]
    rw [List.flatMap_nil, List.nil_append, occurrences, occurrences, hquote]
    simp
  | cons c cs ih =>
    rcases escape_cases c with hc | ⟨e, he, hc⟩
    · have hfirst : ('<' :: p).isPrefixOf (c :: (cs.flatMap escape ++ '\'' :: rest)) =
          ('<' :: p).isPrefixOf (c :: cs) := by
        rw [Bool.eq_iff_iff, List.isPrefixOf_iff_prefix, List.isPrefixOf_iff_prefix,
          List.cons_prefix_cons, List.cons_prefix_cons, prefix_escaped_iff hp]
      rw [List.flatMap_cons, hc, List.append_assoc, List.singleton_append, occurrences, occurrences,
        hfirst, ih, Nat.add_assoc]
    · -- neither the backslash nor what it escapes begins the piece
      have hc' : c ≠ '<' := by
        rintro rfl
        simp [escape] at hc
      have he' : e ≠ '<' := by
        rintro rfl
        contradiction
      rw [List.flatMap_cons, hc]
      simp [occurrences, List.isPrefixOf, hc'.symm, he'.symm, ih]

theorem adds_quoted (hp : ∀ c ∈ p, escape c = [c]) (s : String) :
    Adds ('<' :: p) (quoted s).toList (occurrences ('<' :: p) s.toList) := by
  intro rest
  have hopen : Adds ('<' :: p) ['\''] 0 := Adds.of_not_mem (by decide)
  have hquoted : (quoted s).toList ++ rest =
      ['\''] ++ (s.toList.flatMap escape ++ '\'' :: rest) := by
    simp [quoted]
  rw [hquoted, hopen, occurrences_escaped hp, Nat.zero_add]

/-! ## Entries -/

theorem adds_key (hp : ∀ c ∈ p, escape c = [c]) {name : String} (h : '<' ∉ name.toList) :
    Adds ('<' :: p) (key name).toList 0 := by
  have hname : Adds ('<' :: p) name.toList 0 := Adds.of_not_mem h
  unfold key
  split
  · exact hname
  · have hquoted := adds_quoted hp name
    rwa [hname.occurrences_eq] at hquoted

theorem adds_value (hp : ∀ c ∈ p, escape c = [c]) (v : AttrValue) :
    Adds ('<' :: p) (value v).toList (occurrencesIn ('<' :: p) v.text?.toList) := by
  cases v with
  | number x =>
    refine Adds.of_not_mem fun hmem => ?_
    rw [value, Binary64.toText, String.toList_ofList] at hmem
    rcases Binary64.of_mem_print hmem with h | h | h <;> exact absurd h (by decide)
  | text s => simpa [occurrencesIn, AttrValue.text?, value] using adds_quoted hp s
  | parameter q =>
    have hquoted : '<' ∉ (quoted q.placeholder).toList := by cases q <;> decide
    exact Adds.of_not_mem hquoted

theorem occurrencesIn_texts (piece : List Char) (es : List (String × AttrValue)) :
    occurrencesIn piece (AttrValue.texts es) =
      (es.map fun a => occurrencesIn piece a.2.text?.toList).sum := by
  induction es with
  | nil => rfl
  | cons a es ih =>
    rw [List.map_cons, List.sum_cons, ← ih, ← occurrencesIn_append]
    cases h : a.2.text? <;> simp [AttrValue.texts, h]

theorem adds_entry (hp : ∀ c ∈ p, escape c = [c]) (style : KeyStyle) {a : String × AttrValue}
    (h : '<' ∉ (style.key a.1).toList) :
    Adds ('<' :: p) (entry style a).toList (occurrencesIn ('<' :: p) a.2.text?.toList) := by
  have hcolon : Adds ('<' :: p) [':', ' '] 0 := Adds.of_not_mem (by decide)
  have hall := ((adds_key hp h).append hcolon).append (adds_value hp a.2)
  simpa [entry] using hall

theorem adds_attributes (hp : ∀ c ∈ p, escape c = [c]) (style : KeyStyle) {as : Attributes}
    (h : ∀ a ∈ as.entries, '<' ∉ (style.key a.1).toList) :
    Adds ('<' :: p) (attributes style as).toList
      (occurrencesIn ('<' :: p) (AttrValue.texts as.entries)) := by
  obtain ⟨es, hes⟩ := as
  cases es with
  | nil =>
    have hempty : '<' ∉ "\x7b\x7d".toList := by decide
    exact Adds.of_not_mem hempty
  | cons a es =>
    have hopen : Adds ('<' :: p) ['\x7b', ' '] 0 := Adds.of_not_mem (by decide)
    have hclose : Adds ('<' :: p) [' ', '\x7d'] 0 := Adds.of_not_mem (by decide)
    have hcomma : Adds ('<' :: p) [',', ' '] 0 := Adds.of_not_mem (by decide)
    have hentries := hcomma.intercalate fun b hb => adds_entry hp style (h b hb)
    have hall := (hopen.append hentries).append hclose
    rw [occurrencesIn_texts]
    simpa [attributes, Table.isEmpty, String.toList_intercalate, Function.comp_def] using hall

/-! ## Nodes -/

theorem adds_opening (hp : ∀ c ∈ p, escape c = [c]) (style : KeyStyle) (e : Element)
    {as : Attributes} (h : ∀ a ∈ as.entries, '<' ∉ (style.key a.1).toList) :
    Adds ('<' :: p) (opening style e as)
      (occurrencesIn ('<' :: p) (AttrValue.texts as.entries)) := by
  have hname : '<' ∉ '[' :: '\'' :: e.name.toList ++ ['\'', ',', ' '] := by cases e <;> decide
  simpa [opening] using (Adds.of_not_mem hname).append (adds_attributes hp style h)

theorem adds_spaces (n : Nat) : Adds ('<' :: p) (List.replicate n ' ') 0 :=
  Adds.of_not_mem (by simp)

mutual

theorem adds_node (hp : ∀ c ∈ p, escape c = [c]) (style : KeyStyle) (indent : Nat) (n : Node)
    (h : n.Forall fun a => '<' ∉ (style.key a.1).toList) :
    Adds ('<' :: p) (node style indent n).toList
      (occurrencesIn ('<' :: p) (AttrValue.texts n.allAttributes)) := by
  match n with
  | .leaf e as =>
    have hclose : Adds ('<' :: p) [']'] 0 := Adds.of_not_mem (by decide)
    have hall := (adds_spaces indent).append ((adds_opening hp style e h).append hclose)
    rw [toList_leaf]
    simpa [Node.allAttributes] using hall
  | .branch e as [] =>
    rw [node_branch_nil]
    simpa [Node.allAttributes, Node.forestAttributes] using
      adds_node hp style indent (.leaf e as) h.1
  | .branch e as (c :: cs) =>
    -- a line that opens the node, the lines of its children, and one that closes it
    have hchildren : Adds ('<' :: p) [',', ' ', '[', '\n'] 0 := Adds.of_not_mem (by decide)
    have hline : Adds ('<' :: p) ['\n'] 0 := Adds.of_not_mem (by decide)
    have hclose : Adds ('<' :: p) [']', ']'] 0 := Adds.of_not_mem (by decide)
    have hfirst := (adds_spaces indent).append ((adds_opening hp style e h.1).append hchildren)
    have hnodes := adds_nodes hp style (indent + 2) (c :: cs) h.2
    have hlast := hline.append ((adds_spaces indent).append hclose)
    have hall := hfirst.append (hnodes.append hlast)
    rw [toList_branch, Node.allAttributes, AttrValue.texts, List.filterMap_append,
      occurrencesIn_append]
    simpa [AttrValue.texts] using hall

theorem adds_nodes (hp : ∀ c ∈ p, escape c = [c]) (style : KeyStyle) (indent : Nat)
    (ns : List Node) (h : Node.ForestForall (fun a => '<' ∉ (style.key a.1).toList) ns) :
    Adds ('<' :: p) ([',', '\n'].intercalate ((nodes style indent ns).map String.toList))
      (occurrencesIn ('<' :: p) (AttrValue.texts (Node.forestAttributes ns))) := by
  match ns with
  | [] => exact Adds.nil
  | [n] =>
    simpa [nodes, Node.forestAttributes] using adds_node hp style indent n h.1
  | n :: m :: ns =>
    have hcomma : Adds ('<' :: p) [',', '\n'] 0 := Adds.of_not_mem (by decide)
    have hrest := adds_nodes hp style indent (m :: ns) h.2
    have hall := (adds_node hp style indent n h.1).append (hcomma.append hrest)
    rw [Node.forestAttributes, AttrValue.texts, List.filterMap_append, occurrencesIn_append]
    simpa [nodes, List.intercalate_cons_cons, AttrValue.texts] using hall

end

/-- The literal of an icon has a piece of markup as often as its texts have it. -/
theorem adds_icon (hp : ∀ c ∈ p, escape c = [c]) (style : KeyStyle) (indent : Nat) {icon : Icon}
    (h : ∀ a ∈ icon.attributes, '<' ∉ (style.key a.1).toList) :
    Adds ('<' :: p) (Literal.icon style indent icon).toList
      (occurrencesIn ('<' :: p) icon.texts) := by
  rw [Literal.icon, String.toList_intercalate]
  exact adds_nodes hp style indent icon
    ((Node.forestForall_iff (fun a => '<' ∉ (style.key a.1).toList) icon).mpr h)

end IconCompiler.Literal
