import IconCompiler.Proofs.Icon.Lines

/-!
The indentation of the literal of an icon. A literal that is indented further is the same text with
more spaces in front of every line, since no key and no value goes over a line end.
-/

namespace IconCompiler.Literal

/-- The characters of a text with spaces behind every line end. -/
def indentedChars (n : Nat) (cs : List Char) : List Char :=
  cs.flatMap fun c => if c = '\n' then '\n' :: List.replicate n ' ' else [c]

/-- A text with spaces in front of every line. A text without characters has no line. -/
def indented (n : Nat) (text : String) : String :=
  if text = "" then "" else String.ofList (List.replicate n ' ' ++ indentedChars n text.toList)

theorem indentedChars_append (n : Nat) (a b : List Char) :
    indentedChars n (a ++ b) = indentedChars n a ++ indentedChars n b :=
  List.flatMap_append

theorem indentedChars_of_not_mem (n : Nat) {cs : List Char} (h : '\n' ∉ cs) :
    indentedChars n cs = cs := by
  have hplain : ∀ c ∈ cs, (if c = '\n' then '\n' :: List.replicate n ' ' else [c]) = [c] := by
    rintro c hc
    refine if_neg ?_
    rintro rfl
    exact h hc
  rw [indentedChars, List.flatMap_congr hplain, List.flatMap_singleton']

theorem indentedChars_lineEnd (n : Nat) (cs : List Char) :
    indentedChars n ('\n' :: cs) = '\n' :: (List.replicate n ' ' ++ indentedChars n cs) := by
  rw [indentedChars, List.flatMap_cons, if_pos rfl, List.cons_append]
  rfl

theorem forall_spaces_not_lineEnd (n : Nat) :
    ∀ c ∈ List.replicate n ' ', (c == '\n') = false := by
  intro c hc
  rw [List.eq_of_mem_replicate hc]
  rfl

/-- The lines of the text, all but the first with spaces in front. -/
theorem exists_splitAt_indentedChars (n : Nat) (cs : List Char) : ∃ line rest,
    Text.splitAt (· == '\n') cs = line :: rest ∧
      Text.splitAt (· == '\n') (indentedChars n cs) =
        line :: rest.map (List.replicate n ' ' ++ ·) := by
  induction cs with
  | nil => exact ⟨[], [], rfl, rfl⟩
  | cons c cs ih =>
    obtain ⟨line, rest, hcs, hindented⟩ := ih
    by_cases hc : c = '\n'
    · subst hc
      -- the spaces behind the line end stand in front of the line that follows
      refine ⟨[], line :: rest, ?_, ?_⟩
      · rw [Text.splitAt, if_pos (beq_self_eq_true _), hcs]
      · rw [indentedChars_lineEnd, Text.splitAt, if_pos (beq_self_eq_true _),
          Text.splitAt_append_of_forall_not _ (forall_spaces_not_lineEnd n) hindented,
          List.map_cons]
    · have hplain : (c == '\n') = false := beq_eq_false_iff_ne.mpr hc
      have hfront : indentedChars n (c :: cs) = c :: indentedChars n cs := by
        rw [indentedChars, List.flatMap_cons, if_neg hc]
        rfl
      refine ⟨c :: line, rest, ?_, ?_⟩
      · simp [Text.splitAt, hplain, hcs]
      · simp [Text.splitAt, hplain, hfront, hindented]

/-- The lines of a text with spaces in front of every line. -/
theorem splitAt_indented (n : Nat) (cs : List Char) :
    Text.splitAt (· == '\n') (List.replicate n ' ' ++ indentedChars n cs) =
      (Text.splitAt (· == '\n') cs).map (List.replicate n ' ' ++ ·) := by
  obtain ⟨line, rest, hcs, hindented⟩ := exists_splitAt_indentedChars n cs
  rw [hcs, Text.splitAt_append_of_forall_not _ (forall_spaces_not_lineEnd n) hindented,
    List.map_cons]

/-! ## Nodes -/

theorem toList_leaf (style : KeyStyle) (indent : Nat) (e : Element) (as : Attributes) :
    (node style indent (.leaf e as)).toList =
      List.replicate indent ' ' ++ (opening style e as ++ [']']) := by
  simp [node, spaces, opening]

theorem node_branch_nil (style : KeyStyle) (indent : Nat) (e : Element) (as : Attributes) :
    node style indent (.branch e as []) = node style indent (.leaf e as) := by
  rw [node, node]

/-- The lines of the children stand between those of the node. -/
theorem toList_branch (style : KeyStyle) (indent : Nat) (e : Element) (as : Attributes) (c : Node)
    (cs : List Node) :
    (node style indent (.branch e as (c :: cs))).toList =
      List.replicate indent ' ' ++ ((opening style e as ++ [',', ' ', '[']) ++
        '\n' :: ([',', '\n'].intercalate ((nodes style (indent + 2) (c :: cs)).map String.toList) ++
          '\n' :: (List.replicate indent ' ' ++ [']', ']']))) := by
  simp [node, spaces, opening, String.toList_intercalate]

theorem not_mem_spaces (n : Nat) {cs : List Char} (h : '\n' ∉ cs) :
    '\n' ∉ List.replicate n ' ' ++ cs := by
  simp [h]

theorem bracket_mem_node (style : KeyStyle) (indent : Nat) (x : Node) :
    '[' ∈ (node style indent x).toList := by
  cases x with
  | leaf e as => simp [toList_leaf, opening]
  | branch e as children =>
    cases children with
    | nil => simp [node_branch_nil, toList_leaf, opening]
    | cons c cs => simp [toList_branch, opening]

theorem icon_ne_empty (style : KeyStyle) (indent : Nat) (x : Node) (xs : List Node) :
    Literal.icon style indent (x :: xs) ≠ "" := by
  intro h
  have hbracket : '[' ∈ (Literal.icon style indent (x :: xs)).toList := by
    have hnode := bracket_mem_node style indent x
    cases xs <;> simp [Literal.icon, nodes, hnode]
  rw [h] at hbracket
  contradiction

mutual

theorem node_add (style : KeyStyle) (n m : Nat) (x : Node) :
    (node style (n + m) x).toList =
      List.replicate n ' ' ++ indentedChars n (node style m x).toList := by
  match x with
  | .leaf e as =>
    have hline : '\n' ∉ opening style e as ++ [']'] := by simp [not_mem_opening .lineFeed]
    rw [toList_leaf, toList_leaf, indentedChars_of_not_mem n (not_mem_spaces m hline),
      ← List.replicate_append_replicate, List.append_assoc]
  | .branch e as [] =>
    rw [node_branch_nil, node_branch_nil]
    exact node_add style n m (.leaf e as)
  | .branch e as (c :: cs) =>
    -- the children stand further in by as much, whatever is in front of the node
    have hfirst : '\n' ∉ List.replicate m ' ' ++ (opening style e as ++ [',', ' ', '[']) :=
      not_mem_spaces m (by simp [not_mem_opening .lineFeed])
    have hlast : '\n' ∉ List.replicate m ' ' ++ [']', ']'] := not_mem_spaces m (by decide)
    have hchildren := nodes_add style n (m + 2) (c :: cs) (List.cons_ne_nil c cs)
    rw [toList_branch, toList_branch, ← List.append_assoc (List.replicate m ' '),
      indentedChars_append, indentedChars_of_not_mem n hfirst, indentedChars_lineEnd,
      indentedChars_append, indentedChars_lineEnd, indentedChars_of_not_mem n hlast,
      Nat.add_assoc n m 2, hchildren]
    simp only [← List.replicate_append_replicate, List.append_assoc, List.cons_append]

theorem nodes_add (style : KeyStyle) (n m : Nat) (xs : List Node) (h : xs ≠ []) :
    [',', '\n'].intercalate ((nodes style (n + m) xs).map String.toList) =
      List.replicate n ' ' ++ indentedChars n
        ([',', '\n'].intercalate ((nodes style m xs).map String.toList)) := by
  match xs with
  | [] => contradiction
  | [x] => simpa [nodes] using node_add style n m x
  | x :: y :: xs =>
    have hcomma : indentedChars n [',', '\n'] = [',', '\n'] ++ List.replicate n ' ' := by
      simp [indentedChars]
    have hrest := nodes_add style n m (y :: xs) (List.cons_ne_nil y xs)
    simp only [nodes, List.map_cons] at hrest ⊢
    rw [List.intercalate_cons_cons, List.intercalate_cons_cons, hrest, node_add style n m x,
      indentedChars_append, indentedChars_append, hcomma]
    simp only [List.append_assoc]

end

/-- A literal that is indented has the lines of one that is not, each with spaces in front. -/
theorem icon_eq_indented (style : KeyStyle) (n : Nat) (icon : Icon) :
    Literal.icon style n icon = indented n (Literal.icon style 0 icon) := by
  cases icon with
  | nil => rfl
  | cons x xs =>
    have hlines := nodes_add style n 0 (x :: xs) (List.cons_ne_nil x xs)
    rw [indented, if_neg (icon_ne_empty style 0 x xs), ← String.toList_inj, String.toList_ofList,
      Literal.icon, Literal.icon, String.toList_intercalate, String.toList_intercalate]
    exact hlines

end IconCompiler.Literal
