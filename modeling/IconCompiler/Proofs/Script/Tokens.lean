import IconCompiler.Proofs.Script.Reader

/-!
Values written as tokens and read again. The tokens of a value are read as that value, whatever
stands behind them.
-/

namespace IconCompiler.Script

/-- A key as a bare name if it is one, else as a text. -/
def keyToken (key : String) : Token := if isName key.toList then .name key else .text key

theorem key?_keyToken (key : String) : key? (keyToken key) = some key := by
  unfold keyToken
  split <;> rfl

namespace Value

mutual

def tokens : Value → List Token
  | number x => [.number x]
  | text s => [.text s]
  | array vs => .mark '[' :: itemsTokens vs
  | object es => .mark '\x7b' :: entriesTokens es

def itemsTokens : List Value → List Token
  | [] => [.mark ']']
  | [v] => v.tokens ++ [.mark ']']
  | v :: w :: vs => v.tokens ++ .mark ',' :: itemsTokens (w :: vs)

def entriesTokens : List (String × Value) → List Token
  | [] => [.mark '\x7d']
  | [(key, v)] => keyToken key :: .mark ':' :: (v.tokens ++ [.mark '\x7d'])
  | (key, v) :: e :: es =>
    keyToken key :: .mark ':' :: (v.tokens ++ .mark ',' :: entriesTokens (e :: es))

end

theorem exists_tokens (v : Value) : ∃ t ts, v.tokens = t :: ts ∧ t ≠ .mark ']' := by
  cases v with
  | number x => exact ⟨_, _, rfl, by simp⟩
  | text s => exact ⟨_, _, rfl, by simp⟩
  | array vs => exact ⟨_, _, rfl, by simp⟩
  | object es => exact ⟨_, _, rfl, by simp⟩

end Value

open Value

/-- The items of a list begin with a literal and not with the closing bracket. -/
theorem items?_value (fuel : Nat) (v : Value) (rest : List Token) :
    items? (fuel + 1) (v.tokens ++ rest) =
      match value? fuel (v.tokens ++ rest) with
      | some (v, .mark ',' :: ts) => (items? fuel ts).map fun r => (v :: r.1, r.2)
      | some (v, .mark ']' :: ts) => some ([v], ts)
      | _ => none := by
  obtain ⟨t, ts, ht, hne⟩ := v.exists_tokens
  have hitem : ∀ us, t :: (ts ++ rest) = .mark ']' :: us → False := fun us h =>
    hne (List.cons.inj h).1
  rw [ht, List.cons_append]
  exact items?.eq_3 _ _ hitem

theorem entries?_key (fuel : Nat) (key : String) (rest : List Token) :
    entries? (fuel + 1) (keyToken key :: .mark ':' :: rest) =
      match value? fuel rest with
      | some (v, .mark ',' :: ts) => (entries? fuel ts).map fun r => ((key, v) :: r.1, r.2)
      | some (v, .mark '\x7d' :: ts) => some ([(key, v)], ts)
      | _ => none := by
  have hkey := key?_keyToken key
  rw [entries?, hkey]
  · rfl
  · intro h
    rw [h] at hkey
    contradiction

mutual

theorem value?_tokens (v : Value) {fuel : Nat} (h : v.tokens.length ≤ fuel) (rest : List Token) :
    value? fuel (v.tokens ++ rest) = some (v, rest) := by
  match v, fuel with
  | v, 0 =>
    obtain ⟨t, ts, ht, -⟩ := v.exists_tokens
    rw [ht] at h
    contradiction
  | .number x, fuel + 1 => rfl
  | .text s, fuel + 1 => rfl
  | .array vs, fuel + 1 =>
    have hitems : (itemsTokens vs).length ≤ fuel := Nat.le_of_succ_le_succ h
    rw [Value.tokens, List.cons_append, value?, items?_tokens vs hitems rest, Option.map_some]
  | .object es, fuel + 1 =>
    have hentries : (entriesTokens es).length ≤ fuel := Nat.le_of_succ_le_succ h
    rw [Value.tokens, List.cons_append, value?, entries?_tokens es hentries rest, Option.map_some]

theorem items?_tokens (vs : List Value) {fuel : Nat} (h : (itemsTokens vs).length ≤ fuel)
    (rest : List Token) : items? fuel (itemsTokens vs ++ rest) = some (vs, rest) := by
  match vs, fuel with
  | [], 0 => contradiction
  | [], fuel + 1 => rfl
  | [v], fuel =>
    rw [itemsTokens, List.length_append, List.length_singleton] at h
    obtain ⟨n, rfl⟩ := Nat.exists_eq_add_of_le' (Nat.le_of_add_left_le h)
    rw [itemsTokens, List.append_assoc, List.singleton_append, items?_value,
      value?_tokens v (by omega)]
    rfl
  | v :: w :: vs, fuel =>
    rw [itemsTokens, List.length_append, List.length_cons] at h
    obtain ⟨n, rfl⟩ := Nat.exists_eq_add_of_le' (show 1 ≤ fuel by omega)
    rw [itemsTokens, List.append_assoc, List.cons_append, items?_value,
      value?_tokens v (by omega)]
    simp only [items?_tokens (w :: vs) (show _ ≤ n by omega) rest, Option.map_some]

theorem entries?_tokens (es : List (String × Value)) {fuel : Nat}
    (h : (entriesTokens es).length ≤ fuel) (rest : List Token) :
    entries? fuel (entriesTokens es ++ rest) = some (es, rest) := by
  match es, fuel with
  | [], 0 => contradiction
  | [], fuel + 1 => rfl
  | [(key, v)], fuel =>
    rw [entriesTokens, List.length_cons, List.length_cons, List.length_append,
      List.length_singleton] at h
    obtain ⟨n, rfl⟩ := Nat.exists_eq_add_of_le' (show 1 ≤ fuel by omega)
    rw [entriesTokens, List.cons_append, List.cons_append, List.append_assoc,
      List.singleton_append, entries?_key, value?_tokens v (by omega)]
    rfl
  | (key, v) :: e :: es, fuel =>
    rw [entriesTokens, List.length_cons, List.length_cons, List.length_append,
      List.length_cons] at h
    obtain ⟨n, rfl⟩ := Nat.exists_eq_add_of_le' (show 1 ≤ fuel by omega)
    rw [entriesTokens, List.cons_append, List.cons_append, List.append_assoc, List.cons_append,
      entries?_key, value?_tokens v (by omega)]
    simp only [entries?_tokens (e :: es) (show _ ≤ n by omega) rest, Option.map_some]

end

end IconCompiler.Script
