import IconCompiler.Proofs.Icon.Literal
import IconCompiler.Proofs.Variant.Exports

/-!
The lines of the literal of an icon. A line ends only between two nodes and around the children of a
node, and the next one begins with the spaces of its indentation, so none of them is an export.
-/

namespace IconCompiler.Literal

open Exports

/-! ## Texts on one line -/

/-- A line feed, or a carriage return. -/
def IsLineEnd (c : Char) : Prop := c = '\n' ∨ c = '\r'

theorem IsLineEnd.lineFeed : IsLineEnd '\n' := Or.inl rfl

theorem IsLineEnd.carriageReturn : IsLineEnd '\r' := Or.inr rfl

section

variable {b : Char}

theorem not_mem_escape (hb : IsLineEnd b) (c : Char) : b ∉ escape c := by
  unfold escape
  split
  · rcases hb with rfl | rfl <;> decide
  · split
    · rcases hb with rfl | rfl <;> decide
    · split
      · rcases hb with rfl | rfl <;> decide
      · rename_i hfeed
        split
        · rcases hb with rfl | rfl <;> decide
        · rename_i hreturn
          rw [List.mem_singleton]
          rcases hb with rfl | rfl
          · exact Ne.symm hfeed
          · exact Ne.symm hreturn

theorem not_mem_quoted (hb : IsLineEnd b) (s : String) : b ∉ (quoted s).toList := by
  have hquote : b ≠ '\'' := by rcases hb with rfl | rfl <;> decide
  simp only [quoted, String.toList_ofList, List.cons_append, List.mem_cons, List.mem_append,
    List.mem_flatMap, List.not_mem_nil, or_false, not_or, not_exists, not_and]
  exact ⟨hquote, fun c _ => not_mem_escape hb c, hquote⟩

theorem not_mem_key (hb : IsLineEnd b) (name : String) : b ∉ (key name).toList := by
  unfold key
  split
  · rename_i h
    refine fun hmem => absurd (isWordChar_of_isIdentifier h hmem) ?_
    rcases hb with rfl | rfl <;> decide
  · exact not_mem_quoted hb name

theorem not_mem_value (hb : IsLineEnd b) (v : AttrValue) : b ∉ (value v).toList := by
  cases v with
  | number x =>
    rw [value, Binary64.toText, String.toList_ofList]
    intro hmem
    rcases hb with rfl | rfl <;> rcases Binary64.of_mem_print hmem with h | h | h <;>
      exact absurd h (by decide)
  | text s => exact not_mem_quoted hb s
  | parameter p => exact not_mem_quoted hb p.placeholder

theorem not_mem_entries (hb : IsLineEnd b) (style : KeyStyle) (es : List (String × AttrValue)) :
    b ∉ [',', ' '].intercalate (es.map fun a => (entry style a).toList) := by
  have hcolon : b ∉ [':', ' '] := by rcases hb with rfl | rfl <;> decide
  have hentry : ∀ a : String × AttrValue, b ∉ (entry style a).toList := fun a => by
    simpa [entry, not_mem_key hb, not_mem_value hb] using hcolon
  intro hmem
  rcases Text.mem_of_mem_intercalate hmem with hmem | ⟨w, hw, hmem⟩
  · rcases hb with rfl | rfl <;> exact absurd hmem (by decide)
  · obtain ⟨a, -, rfl⟩ := List.mem_map.mp hw
    exact hentry a hmem

theorem not_mem_attributes (hb : IsLineEnd b) (style : KeyStyle) (as : Attributes) :
    b ∉ (attributes style as).toList := by
  have hbraces : b ∉ ['\x7b', ' ', '\x7d'] := by rcases hb with rfl | rfl <;> decide
  unfold attributes
  split
  · rcases hb with rfl | rfl <;> decide
  · simpa [String.toList_intercalate, Function.comp_def, not_mem_entries hb style as.entries]
      using hbraces

/-- A node without its indentation, up to its attributes. -/
def opening (style : KeyStyle) (e : Element) (as : Attributes) : List Char :=
  '[' :: '\'' :: e.name.toList ++ ['\'', ',', ' '] ++ (attributes style as).toList

theorem not_mem_opening (hb : IsLineEnd b) (style : KeyStyle) (e : Element) (as : Attributes) :
    b ∉ opening style e as := by
  have hname : b ∉ e.name.toList := by rcases hb with rfl | rfl <;> cases e <;> decide
  have hmarks : b ∉ ['[', '\'', ',', ' '] := by rcases hb with rfl | rfl <;> decide
  simp only [List.mem_cons, List.not_mem_nil, or_false, not_or] at hmarks
  simp [opening, hname, not_mem_attributes hb, hmarks]

end

/-! ## Nodes -/

/-- An indented line is no export, however it goes on. -/
theorem after_indented {indent : Nat} (h : indent ≠ 0) {cs : List Char} (hcs : '\n' ∉ cs) :
    Line.start.after (List.replicate indent ' ' ++ cs) = some .settled := by
  obtain ⟨n, rfl⟩ := Nat.exists_eq_succ_of_ne_zero h
  have hfirst : Line.start.after [' '] = some .settled := by decide
  have hrest : '\n' ∉ List.replicate n ' ' ++ cs := by
    simp [hcs]
  rw [List.replicate_succ, List.cons_append, ← List.singleton_append]
  exact Line.after_append hfirst (Line.after_of_not_mem hrest)

theorem after_lineEnd : Line.settled.after ['\n'] = some .start := rfl

mutual

theorem after_node (style : KeyStyle) {indent : Nat} (h : indent ≠ 0) (n : Node) :
    Line.start.after (node style indent n).toList = some .settled := by
  match n with
  | .leaf e as =>
    have hline : '\n' ∉ opening style e as ++ [']'] := by simp [not_mem_opening .lineFeed]
    simpa [node, spaces, opening] using after_indented h hline
  | .branch e as [] =>
    have hline : '\n' ∉ opening style e as ++ [']'] := by simp [not_mem_opening .lineFeed]
    simpa [node, spaces, opening] using after_indented h hline
  | .branch e as (c :: cs) =>
    have hfirst : '\n' ∉ opening style e as ++ [',', ' ', '['] := by
      simp [not_mem_opening .lineFeed]
    have hlast : '\n' ∉ [']', ']'] := by decide
    have hchildren := after_nodes style (Nat.succ_ne_zero (indent + 1)) (c :: cs)
      (List.cons_ne_nil c cs)
    have hall := Line.after_append (after_indented h hfirst) (Line.after_append after_lineEnd
      (Line.after_append hchildren (Line.after_append after_lineEnd (after_indented h hlast))))
    simpa [node, spaces, opening, String.toList_intercalate] using hall

theorem after_nodes (style : KeyStyle) {indent : Nat} (h : indent ≠ 0) (ns : List Node)
    (hne : ns ≠ []) :
    Line.start.after ([',', '\n'].intercalate ((nodes style indent ns).map String.toList)) =
      some .settled := by
  match ns with
  | [] => contradiction
  | [n] => simpa [nodes] using after_node style h n
  | n :: m :: ns =>
    have hcomma : Line.settled.after [',', '\n'] = some .start := rfl
    have hall := Line.after_append (after_node style h n)
      (Line.after_append hcomma (after_nodes style h (m :: ns) (List.cons_ne_nil m ns)))
    simpa [nodes, List.intercalate_cons_cons] using hall

end

/-- The literal of an icon leaves the line that it begins settled, or does not begin it. -/
theorem after_icon (style : KeyStyle) {indent : Nat} (h : indent ≠ 0) (icon : Icon) :
    Line.start.after (Literal.icon style indent icon).toList = some .start ∨
      Line.start.after (Literal.icon style indent icon).toList = some .settled := by
  rw [Literal.icon, String.toList_intercalate]
  cases icon with
  | nil => exact Or.inl rfl
  | cons n ns => exact Or.inr (after_nodes style h (n :: ns) (List.cons_ne_nil n ns))

end IconCompiler.Literal
