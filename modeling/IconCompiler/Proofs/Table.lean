import IconCompiler.Table

/-!
Looking a key up in a table that was changed. A table in which values were entered one after the
other has its keys in the order in which they first came, and under each the value that came last.
-/

namespace IconCompiler.Table

variable {κ α : Type} [DecidableEq κ]

theorem find?_putEntry (key k : κ) (value : α) (es : List (κ × α)) :
    (putEntry key value es).find? (·.1 = k) =
      if k = key then some (key, value) else es.find? (·.1 = k) := by
  have hcomm : (key = k) = (k = key) := propext eq_comm
  induction es with
  | nil => by_cases h : k = key <;> simp [putEntry, hcomm, h]
  | cons e es ih =>
    by_cases he : e.1 = key
    · by_cases h : k = key <;> simp [putEntry, hcomm, he, h]
    · by_cases hk : e.1 = k
      · have h : ¬k = key := fun h => he (hk.trans h)
        simp [putEntry, hk, h]
      · simp [putEntry, he, hk, ih]

theorem get?_put (t : Table κ α) (key k : κ) (value : α) :
    (t.put key value).get? k = if k = key then some value else t.get? k := by
  simp only [get?, put, find?_putEntry]
  split <;> rfl

theorem putEntry_of_not_mem {key : κ} (value : α) {es : List (κ × α)}
    (h : key ∉ es.map Prod.fst) : putEntry key value es = es ++ [(key, value)] := by
  induction es with
  | nil => rfl
  | cons e es ih =>
    rw [List.map_cons, List.mem_cons, not_or] at h
    rw [putEntry, if_neg (Ne.symm h.1), ih h.2, List.cons_append]

theorem entries_put_of_not_mem {t : Table κ α} {key : κ} (value : α) (h : key ∉ t.keys) :
    (t.put key value).entries = t.entries ++ [(key, value)] :=
  putEntry_of_not_mem value h

theorem of_mem_putEntry {key : κ} {value : α} {es : List (κ × α)} {e : κ × α}
    (h : e ∈ putEntry key value es) : e ∈ es ∨ e = (key, value) := by
  induction es with
  | nil => exact Or.inr (List.mem_singleton.mp h)
  | cons d es ih =>
    rw [putEntry] at h
    split at h
    · rcases List.mem_cons.mp h with rfl | h
      · exact Or.inr rfl
      · exact Or.inl (List.mem_cons_of_mem d h)
    · rcases List.mem_cons.mp h with rfl | h
      · exact Or.inl List.mem_cons_self
      · exact (ih h).imp_left (List.mem_cons_of_mem d)

/-- What holds of all entries and of a new one holds of all entries then. -/
theorem forall_mem_put {P : κ × α → Prop} {t : Table κ α} {key : κ} {value : α}
    (h : ∀ e ∈ t.entries, P e) (hnew : P (key, value)) : ∀ e ∈ (t.put key value).entries, P e := by
  intro e he
  rcases of_mem_putEntry he with he | rfl
  · exact h e he
  · exact hnew

theorem get?_remove (t : Table κ α) (key k : κ) :
    (t.remove key).get? k = if k = key then none else t.get? k := by
  simp only [get?, remove, List.find?_filter]
  by_cases h : k = key
  · subst h
    rw [if_pos rfl, List.find?_eq_none.mpr, Option.map_none]
    intro e _ he
    simp at he
  · rw [if_neg h]
    congr 2
    funext e
    by_cases he : e.1 = k
    · simp [he, h]
    · simp [he]

theorem keys_put (t : Table κ α) (key : κ) (value : α) :
    (t.put key value).keys = if key ∈ t.keys then t.keys else t.keys ++ [key] :=
  map_fst_putEntry key value t.entries

theorem mem_keys_put (t : Table κ α) (key k : κ) (value : α) :
    k ∈ (t.put key value).keys ↔ k ∈ t.keys ∨ k = key := by
  rw [keys_put]
  split
  · rename_i h
    exact ⟨Or.inl, fun h' => h'.elim id fun e => e ▸ h⟩
  · simp

theorem find?_eq_some_iff (key : κ) (value : α) (es : List (κ × α))
    (hn : (es.map Prod.fst).Nodup) :
    (es.find? (·.1 = key)).map Prod.snd = some value ↔ (key, value) ∈ es := by
  induction es with
  | nil => simp
  | cons e es ih =>
    rw [List.map_cons, List.nodup_cons] at hn
    rw [List.find?_cons]
    by_cases he : e.1 = key
    · subst he
      have hout : (e.1, value) ∉ es := fun h => hn.1 (List.mem_map.mpr ⟨_, h, rfl⟩)
      simp [hout, Prod.ext_iff, eq_comm]
    · have hne : ¬(key, value) = e := fun h => he (h ▸ rfl)
      simp [he, ih hn.2, hne]

theorem get?_eq_some_iff (t : Table κ α) (key : κ) (value : α) :
    t.get? key = some value ↔ (key, value) ∈ t.entries :=
  find?_eq_some_iff key value t.entries t.nodup

theorem get?_isSome_iff (t : Table κ α) (key : κ) : (t.get? key).isSome ↔ key ∈ t.keys := by
  simp only [Option.isSome_iff_exists, get?_eq_some_iff, keys, List.mem_map, Prod.exists]
  constructor
  · rintro ⟨v, h⟩
    exact ⟨key, v, h, rfl⟩
  · rintro ⟨_, v, h, rfl⟩
    exact ⟨v, h⟩

theorem has_iff (t : Table κ α) (key : κ) : t.has key = true ↔ key ∈ t.keys := by
  simp only [has, keys, List.any_eq_true, List.mem_map, decide_eq_true_eq]

/-! ## Entries in order -/

theorem putEntry_eq (key : κ) (value : α) {es : List (κ × α)} (hn : (es.map Prod.fst).Nodup) :
    putEntry key value es = es.map (fun e => if e.1 = key then (key, value) else e) ++
      if key ∈ es.map Prod.fst then [] else [(key, value)] := by
  induction es with
  | nil => rfl
  | cons e es ih =>
    rw [List.map_cons, List.nodup_cons] at hn
    by_cases he : e.1 = key
    · -- behind the entry of the key there is no other
      have hrest : es.map (fun e => if e.1 = key then (key, value) else e) = es := by
        refine (List.map_congr_left fun x hx => ?_).trans (List.map_id es)
        have hne : x.1 ≠ key := fun h => hn.1 (List.mem_map.mpr ⟨x, hx, h.trans he.symm⟩)
        exact if_neg hne
      simp [putEntry, he, hrest]
    · have hne : ¬ key = e.1 := fun h => he h.symm
      simp only [putEntry, he, if_false, ih hn.2, List.map_cons, List.mem_cons, hne, false_or,
        List.cons_append]

/-- A value that is entered replaces the one of its key where that stands, or comes last. -/
theorem entries_put (t : Table κ α) (key : κ) (value : α) :
    (t.put key value).entries =
      t.entries.map (fun e => if e.1 = key then (key, value) else e) ++
        if key ∈ t.keys then [] else [(key, value)] :=
  putEntry_eq key value t.nodup

/-! ## Tables of pairs -/

theorem get?_foldl_put {key : κ} {pairs : List (κ × α)} (t : Table κ α)
    (h : key ∉ pairs.map Prod.fst) :
    (pairs.foldl (fun t e => t.put e.1 e.2) t).get? key = t.get? key := by
  induction pairs generalizing t with
  | nil => rfl
  | cons e pairs ih =>
    rw [List.map_cons, List.mem_cons, not_or] at h
    rw [List.foldl_cons, ih _ h.2, get?_put, if_neg h.1]

/-- Where no key comes twice, each pair is found under its key. -/
theorem get?_ofList {key : κ} {value : α} {pairs : List (κ × α)}
    (hn : (pairs.map Prod.fst).Nodup) (h : (key, value) ∈ pairs) :
    (ofList pairs).get? key = some value := by
  unfold ofList
  generalize (empty : Table κ α) = t
  induction pairs generalizing t with
  | nil => contradiction
  | cons e pairs ih =>
    rw [List.map_cons, List.nodup_cons] at hn
    rw [List.foldl_cons]
    rcases List.mem_cons.mp h with rfl | h
    · rw [get?_foldl_put _ hn.1, get?_put, if_pos rfl]
    · exact ih hn.2 h _

theorem mem_keys_ofList (key : κ) (pairs : List (κ × α)) :
    key ∈ (ofList pairs).keys ↔ key ∈ pairs.map Prod.fst := by
  have hfold : ∀ t : Table κ α, key ∈ (pairs.foldl (fun t e => t.put e.1 e.2) t).keys ↔
      key ∈ t.keys ∨ key ∈ pairs.map Prod.fst := by
    induction pairs with
    | nil => simp
    | cons e pairs ih =>
      intro t
      rw [List.foldl_cons, ih, mem_keys_put, List.map_cons, List.mem_cons, or_assoc]
  rw [ofList, hfold]
  exact or_iff_right List.not_mem_nil

/-! ## Values under keys of their own -/

section

variable (key : α → κ)

/-- Puts a value into a row, in the place of the first one with its key or at the end. -/
def enter (row : List α) (x : α) : List α :=
  match row.findIdx? (key · = key x) with
  | some i => row.set i x
  | none => row ++ [x]

/-- Values in a table, each under its own key, are a row that is searched from its front. -/
theorem putEntry_map_enter (row : List α) (x : α) :
    putEntry (key x) x (row.map fun y => (key y, y)) =
      (enter key row x).map fun y => (key y, y) := by
  induction row with
  | nil => rfl
  | cons y row ih =>
    unfold enter at ih ⊢
    rw [List.map_cons, putEntry, List.findIdx?_cons]
    by_cases h : key y = key x
    · simp [h]
    · -- the rest of the row is searched, one place further back
      rw [if_neg h, ih]
      cases row.findIdx? (key · = key x) <;> simp [h]

/-- What a table holds when these values were entered, in this order, each under its own key. -/
structure Records (t : Table κ α) (xs : List α) : Prop where
  keys_eq : t.keys = (xs.map key).eraseDups
  get?_eq : ∀ k, t.get? k = xs.reverse.find? (key · = k)
  entries_eq : t.entries = (xs.foldl (enter key) []).map fun x => (key x, x)

theorem eraseDups_concat (ks : List κ) (k : κ) :
    (ks ++ [k]).eraseDups = if k ∈ ks then ks.eraseDups else ks.eraseDups ++ [k] := by
  rw [List.eraseDups_append]
  by_cases h : k ∈ ks
  · simp [List.removeAll, h]
  · simp [List.removeAll, h, List.eraseDups_cons]

namespace Records

variable {key} {t : Table κ α} {xs : List α}

theorem empty : Records key (empty : Table κ α) [] :=
  ⟨rfl, fun _ => rfl, rfl⟩

theorem put (h : Records key t xs) (x : α) : Records key (t.put (key x) x) (xs ++ [x]) where
  keys_eq := by
    rw [keys_put, h.keys_eq, List.map_append, List.map_singleton, eraseDups_concat]
    simp only [List.mem_eraseDups]
  get?_eq k := by
    rw [get?_put, h.get?_eq, List.reverse_append, List.reverse_singleton, List.singleton_append,
      List.find?_cons]
    by_cases hk : k = key x
    · simp [hk]
    · simp [hk, Ne.symm hk]
  entries_eq := by
    rw [List.foldl_append, List.foldl_cons, List.foldl_nil, ← putEntry_map_enter, ← h.entries_eq]
    rfl

theorem foldl_put (h : Records key t xs) (ys : List α) :
    Records key (ys.foldl (fun t y => t.put (key y) y) t) (xs ++ ys) := by
  induction ys generalizing t xs with
  | nil => rwa [List.append_nil]
  | cons y ys ih =>
    rw [List.foldl_cons, List.append_cons]
    exact ih (h.put y)

/-- Under a key is found the value that came last with it. -/
theorem get?_eq_some_iff (h : Records key t xs) (k : κ) (x : α) :
    t.get? k = some x ↔
      ∃ earlier later, xs = earlier ++ x :: later ∧ key x = k ∧ ∀ y ∈ later, key y ≠ k := by
  rw [h.get?_eq, List.find?_eq_some_iff_append]
  constructor
  · rintro ⟨hx, later, earlier, hxs, hlater⟩
    refine ⟨earlier.reverse, later.reverse, ?_, by simpa using hx, by simpa using hlater⟩
    rw [← List.reverse_reverse xs, hxs]
    simp
  · rintro ⟨earlier, later, rfl, hx, hlater⟩
    exact ⟨by simpa using hx, later.reverse, earlier.reverse, by simp, by simpa using hlater⟩

end Records

end

/-! ## Equal tables -/

theorem keys_put_of_mem {t : Table κ α} {key : κ} (value : α) (h : key ∈ t.keys) :
    (t.put key value).keys = t.keys := by
  rw [keys_put, if_pos h]

omit [DecidableEq κ] in
theorem ext_entries {t t' : Table κ α} (h : t.entries = t'.entries) : t = t' := by
  cases t
  cases t'
  exact (mk.injEq ..).mpr h

/-- The entries can be told from the keys and what is found under them. -/
theorem map_some_entries (t : Table κ α) :
    t.entries.map some = t.keys.map fun key => (t.get? key).map (Prod.mk key) := by
  rw [keys, List.map_map]
  refine List.map_congr_left fun e he => ?_
  rw [Function.comp_apply, (get?_eq_some_iff t e.1 e.2).mpr he]
  rfl

/-- Tables are equal if they have the same keys in the same order and the same values. -/
theorem ext_get? {t t' : Table κ α} (hkeys : t.keys = t'.keys)
    (h : ∀ key, t.get? key = t'.get? key) : t = t' := by
  have hsome : t.entries.map some = t'.entries.map some := by
    simp only [map_some_entries, hkeys, h]
  exact ext_entries ((List.map_inj_right fun _ _ => Option.some.inj).mp hsome)

end IconCompiler.Table
