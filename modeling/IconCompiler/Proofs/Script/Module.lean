import IconCompiler.Proofs.Icon.Indentation
import IconCompiler.Proofs.Text.Front

/-!
Reading the identifiers that a module binds. A line that is not indented may import identifiers, or
declare one that it may export as well; lines of brackets that are open are indented.
-/

namespace IconCompiler.Script

/-- What is behind the first of these words with which a line begins. -/
def behind? (words : List String) (line : List Char) : Option (List Char) :=
  words.findSome? (·.toList.isPrefixOf? line)

/-- The identifier that characters begin with. -/
def identifier (cs : List Char) : String := String.ofList (cs.takeWhile Literal.continuesIdentifier)

/-- The identifiers between commas, in braces or not, up to a closing brace. -/
def listed (cs : List Char) : List String :=
  (Text.splitAt (· == ',') (cs.takeWhile (· != '\x7d'))).map fun piece =>
    identifier (piece.dropWhile fun c => c == ' ' || c == '\x7b')

/-- The words that declarations begin with. -/
def declarators : List String := ["const ", "let ", "var ", "function ", "class "]

/-- The identifiers that a line binds. -/
def bound (line : List Char) : List String :=
  match behind? ["import type ", "import "] line with
  | some cs => listed cs
  | none =>
    match behind? declarators ((behind? ["export "] line).getD line) with
    | some cs => [identifier cs]
    | none => []

/-- The identifiers that a module binds, in the order of its lines. -/
def bindings (text : String) : List String :=
  (Text.splitAt (· == '\n') text.toList).flatMap bound

/-- Words that cannot be bound, in the strict mode that modules are in. -/
def reservedWords : List String :=
  ["await", "break", "case", "catch", "class", "const", "continue", "debugger", "default", "delete",
    "do", "else", "enum", "export", "extends", "false", "finally", "for", "function", "if",
    "implements", "import", "in", "instanceof", "interface", "let", "new", "null", "package",
    "private", "protected", "public", "return", "static", "super", "switch", "this", "throw",
    "true", "try", "typeof", "var", "void", "while", "with", "yield"]

/-- Every identifier is bound once, and none of them is a reserved word. -/
structure WellBound (text : String) : Prop where
  once : (bindings text).Nodup
  unreserved : ∀ n ∈ bindings text, n ∉ reservedWords

/-- A module that binds one name besides its own identifiers. -/
theorem wellBound_iff {text name : String} {own : List String} (h : bindings text = own ++ [name])
    (honce : own.Nodup) (hown : ∀ n ∈ own, n ∉ reservedWords) :
    WellBound text ↔ name ∉ own ++ reservedWords := by
  constructor
  · rintro ⟨hn, hr⟩ hmem
    rw [h] at hn hr
    rcases List.mem_append.mp hmem with hmem | hmem
    · exact (List.nodup_append.mp hn).2.2 name hmem name (List.mem_singleton_self name) rfl
    · exact hr name (List.mem_append_right own (List.mem_singleton_self name)) hmem
  · intro hname
    rw [List.mem_append, not_or] at hname
    constructor
    · rw [h]
      refine honce.append (List.nodup_singleton name) fun n hn hn' => hname.1 ?_
      rwa [← List.mem_singleton.mp hn']
    · intro n hn
      rw [h] at hn
      rcases List.mem_append.mp hn with hn | hn
      · exact hown n hn
      · rw [List.mem_singleton.mp hn]
        exact hname.2

/-! ## Lines -/

/-- A line that is indented binds nothing, and a comment does not. -/
theorem bound_of_head? {line : List Char} (h : line.head? = some ' ' ∨ line.head? = some '/') :
    bound line = [] := by
  cases line with
  | nil => rfl
  | cons c cs =>
    rcases h with h | h
    · obtain rfl := Option.some.inj h
      rfl
    · obtain rfl := Option.some.inj h
      rfl

/-- An identifier goes up to the first character that cannot stand in one. -/
theorem identifier_append {name : String}
    (h : ∀ c ∈ name.toList, Literal.continuesIdentifier c = true) (cs : List Char) :
    identifier (name.toList ++ ' ' :: cs) = name := by
  rw [identifier, Text.takeWhile_append_cons h (by decide), String.ofList_toList]

/-- A line that exports what it declares. -/
theorem bound_export {opening name rest : String}
    (hopening : opening = "export const " ∨ opening = "export class ")
    (h : ∀ c ∈ name.toList, Literal.continuesIdentifier c = true)
    (hrest : rest.toList.head? = some ' ') : bound (opening ++ name ++ rest).toList = [name] := by
  obtain ⟨cs, hcs⟩ := List.head?_eq_some_iff.mp hrest
  have hline : bound (opening.toList ++ (name.toList ++ ' ' :: cs)) =
      [identifier (name.toList ++ ' ' :: cs)] := by
    rcases hopening with rfl | rfl <;> rfl
  rw [String.toList_append, String.toList_append, hcs, List.append_assoc, hline,
    identifier_append h]

/-! ## Texts -/

/-- A text whose lines are all indented binds nothing. -/
theorem bindings_indented {n : Nat} (hn : n ≠ 0) (text : String) :
    bindings (Literal.indented n text) = [] := by
  obtain ⟨n, rfl⟩ := Nat.exists_eq_succ_of_ne_zero hn
  unfold Literal.indented
  split
  · rfl
  · rw [bindings, String.toList_ofList, Literal.splitAt_indented, List.flatMap_map]
    exact List.flatMap_eq_nil_iff.mpr fun line _ => bound_of_head? (Or.inl rfl)

/-- What stands between lines binds what it does by itself, up to the end of its last line. -/
theorem bindings_between {before behind : List String} (hbefore : ∀ l ∈ before, '\n' ∉ l.toList)
    (hbehind : ∀ l ∈ behind, '\n' ∉ l.toList) (text : String) :
    bindings (Text.lines before ++ text ++ Text.lines ("" :: behind)) =
      before.flatMap (fun l => bound l.toList) ++ bindings text ++
        behind.flatMap fun l => bound l.toList := by
  have hrest := Text.splitAt_lines hbehind []
  have hempty : bound [] = [] := rfl
  rw [List.append_nil] at hrest
  simp only [bindings, String.toList_append, List.append_assoc, Text.toList_lines_cons,
    String.toList_empty, List.nil_append]
  rw [Text.splitAt_lines hbefore, Text.splitAt_append _ _ _ _ rfl, hrest]
  simp [List.flatMap_append, List.flatMap_map, Text.splitAt, hempty]

example : bindings (Text.lines ["import A, \x7b b \x7d from 'x'", "export const c = ["] ++
    "  let d" ++ Text.lines ["", "]", "class E \x7b"]) = ["A", "b", "c", "E"] := by
  decide +kernel

end IconCompiler.Script
