import IconCompiler.Proofs.FileTree.Way
import IconCompiler.Proofs.Icon.DataModel
import IconCompiler.Proofs.Icon.Indentation

/-!
The lines of the literal of an icon, counted. A node without children is one line; any other node is
one line in front of those of its children and one behind them. What a key or a value holds makes no
line, so the lines are those of the tree, and further indentation only moves them.
-/

namespace IconCompiler

theorem Text.length_splitAt (isSeparator : Char → Bool) (cs : List Char) :
    (splitAt isSeparator cs).length = cs.countP isSeparator + 1 := by
  induction cs with
  | nil => rfl
  | cons c cs ih =>
    rw [splitAt, List.countP_cons]
    split
    · rw [List.length_cons, ih]
    · cases hpieces : splitAt isSeparator cs with
      | nil => exact absurd hpieces (splitAt_ne_nil isSeparator cs)
      | cons piece pieces =>
        rw [hpieces] at ih
        exact ih

/-! ## Lines of nodes -/

namespace Node

def isChildless (n : Node) : Bool := n.children.isEmpty

/-- The lines of nodes: one of each without children, and two of any other. -/
def lineCount (ns : List Node) : Nat :=
  ns.countP (·.isChildless) + 2 * ns.countP (!·.isChildless)

theorem lineCount_append (ns ms : List Node) :
    lineCount (ns ++ ms) = lineCount ns + lineCount ms := by
  simp only [lineCount, List.countP_append]
  omega

theorem lineCount_leaf (e : Element) (as : Attributes) (ns : List Node) :
    lineCount (leaf e as :: ns) = 1 + lineCount ns := by
  have hleaf : (leaf e as).isChildless = true := rfl
  simp only [lineCount, List.countP_cons, hleaf, if_true, Bool.not_true, Bool.false_eq_true,
    if_false]
  omega

theorem lineCount_branch_nil (e : Element) (as : Attributes) (ns : List Node) :
    lineCount (branch e as [] :: ns) = 1 + lineCount ns := lineCount_leaf e as ns

theorem lineCount_branch_cons (e : Element) (as : Attributes) (c : Node) (cs ns : List Node) :
    lineCount (branch e as (c :: cs) :: ns) = 2 + lineCount ns := by
  have hbranch : (branch e as (c :: cs)).isChildless = false := rfl
  simp only [lineCount, List.countP_cons, hbranch, Bool.not_false, if_true, Bool.false_eq_true,
    if_false]
  omega

end Node

namespace Literal

open Node

/-- The lines of a text. -/
def lines (text : String) : List String :=
  (Text.splitAt (· == '\n') text.toList).map String.ofList

theorem length_lines (text : String) : (lines text).length = text.toList.count '\n' + 1 := by
  rw [lines, List.length_map, Text.length_splitAt, List.count_eq_countP]

theorem intercalate_lines (text : String) : "\n".intercalate (lines text) = text := by
  apply String.ext
  rw [String.toList_intercalate, lines, Path.map_toList_ofList]
  exact Text.intercalate_splitAt '\n' text.toList

theorem count_spaces (m : Nat) (cs : List Char) :
    (List.replicate m ' ' ++ cs).count '\n' = cs.count '\n' := by
  rw [List.count_append, List.count_replicate, if_neg (by decide), Nat.zero_add]

theorem count_opening (style : KeyStyle) (e : Element) (as : Attributes) (cs : List Char) :
    (opening style e as ++ cs).count '\n' = cs.count '\n' := by
  rw [List.count_append, List.count_eq_zero_of_not_mem (not_mem_opening .lineFeed style e as),
    Nat.zero_add]

mutual

theorem count_node (style : KeyStyle) (m : Nat) (x : Node) :
    (node style m x).toList.count '\n' + 1 = lineCount x.subtrees := by
  match x with
  | .leaf e as =>
    rw [toList_leaf, count_spaces, count_opening, subtrees, lineCount_leaf]
    rfl
  | .branch e as [] =>
    rw [node_branch_nil, toList_leaf, count_spaces, count_opening, subtrees, lineCount_branch_nil]
    rfl
  | .branch e as (c :: cs) =>
    -- one line end before the lines of the children, and one behind them
    have hchildren := count_nodes style (m + 2) (c :: cs) (List.cons_ne_nil c cs)
    have hlast : [']', ']'].count '\n' = 0 := rfl
    have hfirst : [',', ' ', '['].count '\n' = 0 := rfl
    rw [toList_branch, count_spaces, List.append_assoc, count_opening, List.count_append, hfirst,
      List.count_cons_self, List.count_append, List.count_cons_self, count_spaces, hlast, subtrees,
      lineCount_branch_cons]
    omega

theorem count_nodes (style : KeyStyle) (m : Nat) (xs : List Node) (h : xs ≠ []) :
    ([',', '\n'].intercalate ((nodes style m xs).map String.toList)).count '\n' + 1 =
      lineCount (forestSubtrees xs) := by
  match xs with
  | [] => contradiction
  | [x] => simpa [nodes, forestSubtrees] using count_node style m x
  | x :: y :: xs =>
    have hcomma : [',', '\n'].count '\n' = 1 := rfl
    have hnode := count_node style m x
    have hrest := count_nodes style m (y :: xs) (List.cons_ne_nil y xs)
    simp only [nodes, List.map_cons] at hrest ⊢
    rw [List.intercalate_cons_cons, List.count_append, List.count_append, hcomma,
      forestSubtrees, lineCount_append]
    omega

end

/-! ## The literal of an icon -/

theorem toList_icon (style : KeyStyle) (m : Nat) (icon : Icon) :
    (Literal.icon style m icon).toList =
      [',', '\n'].intercalate ((nodes style m icon).map String.toList) := by
  rw [Literal.icon, String.toList_intercalate]
  rfl

mutual

theorem return_not_mem_node (style : KeyStyle) (m : Nat) (x : Node) :
    '\r' ∉ (node style m x).toList := by
  have hopening := not_mem_opening .carriageReturn style
  match x with
  | .leaf e as => simpa [toList_leaf] using hopening e as
  | .branch e as [] => simpa [node_branch_nil, toList_leaf] using hopening e as
  | .branch e as (c :: cs) =>
    have hchildren := return_not_mem_nodes style (m + 2) (c :: cs)
    simpa [toList_branch] using ⟨hopening e as, hchildren⟩

theorem return_not_mem_nodes (style : KeyStyle) (m : Nat) (xs : List Node) :
    '\r' ∉ [',', '\n'].intercalate ((nodes style m xs).map String.toList) := by
  match xs with
  | [] => simp [nodes]
  | [x] => simpa [nodes] using return_not_mem_node style m x
  | x :: y :: xs =>
    have hnode := return_not_mem_node style m x
    have hrest := return_not_mem_nodes style m (y :: xs)
    simp only [nodes, List.map_cons] at hrest ⊢
    rw [List.intercalate_cons_cons]
    simp [hnode, hrest]

end

theorem lines_indented (n : Nat) {text : String} (h : text ≠ "") :
    lines (indented n text) = (lines text).map (spaces n ++ ·) := by
  rw [lines, indented, if_neg h, String.toList_ofList, splitAt_indented, lines, List.map_map,
    List.map_map]
  refine List.map_congr_left fun line _ => ?_
  simp [spaces]

/-- The literal of an icon that is not empty has the lines of the tree, whatever the keys and texts
in it are and however the keys are written: one line of each node without children and two of any
other. No line goes on behind a carriage return. With spaces in front of every line it is the
literal that is indented by as many. -/
theorem lines_of_icon (style : KeyStyle) (n : Nat) (x : Node) (xs : List Node) :
    let icon : Icon := x :: xs
    Literal.icon style n icon =
        "\n".intercalate ((lines (Literal.icon style 0 icon)).map (spaces n ++ ·)) ∧
      (lines (Literal.icon style n icon)).length =
        icon.nodes.countP (·.children.isEmpty) + 2 * icon.nodes.countP (!·.children.isEmpty) ∧
      '\r' ∉ (Literal.icon style n icon).toList := by
  refine ⟨?_, ?_, ?_⟩
  · rw [← lines_indented n (icon_ne_empty style 0 x xs), ← icon_eq_indented, intercalate_lines]
  · rw [length_lines, toList_icon]
    exact count_nodes style n (x :: xs) (List.cons_ne_nil x xs)
  · rw [toList_icon]
    exact return_not_mem_nodes style n (x :: xs)

end Literal

end IconCompiler
