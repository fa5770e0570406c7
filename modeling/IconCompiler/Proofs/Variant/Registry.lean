import IconCompiler.Proofs.Compilation

/-!
A registry as the record of what was registered. It lists identifiers in the order in which they
first came, and finds under each the variant that came last with it.
-/

namespace IconCompiler

namespace Registry

variable {r : Registry} {vs : List Variant}

/-- How a registry answers after these registrations, in this order. -/
structure Answers (r : Registry) (vs : List Variant) : Prop where
  nodup_keys : r.keys.Nodup
  /-- Identifiers are listed as they first came. -/
  keys_eq : r.keys = (vs.map Variant.id).eraseDups
  /-- Under an identifier is found the variant that came last with it. -/
  find_eq_ok_iff : ∀ id v, r.find id = .ok v ↔
    ∃ earlier later, vs = earlier ++ v :: later ∧ v.id = id ∧ ∀ w ∈ later, w.id ≠ id
  has_iff_find : ∀ id, r.has id = true ↔ ∃ v, r.find id = .ok v
  has_iff_mem_keys : ∀ id, r.has id = true ↔ id ∈ r.keys
  find_of_not_mem_keys : ∀ id, id ∉ r.keys → r.find id = .error (.unsupportedVariant id)
  size_eq : r.size = r.keys.length
  /-- The variants are a row under their own identifiers, in which each takes the place of the one
  that has its identifier, or the next place if there is none. -/
  entries_eq : r.entries = (vs.foldl (Table.enter Variant.id) []).map fun v => (v.id, v)

/-- Registering is entering under the identifier, from whatever was registered before. -/
theorem records_foldl (h : Table.Records Variant.id r vs) (ws : List Variant) :
    Table.Records Variant.id (ws.foldl register r) (vs ++ ws) :=
  h.foldl_put ws

theorem records_builtin : Table.Records Variant.id builtin Variant.builtins :=
  records_foldl .empty Variant.builtins

theorem answers_of_records (h : Table.Records Variant.id r vs) : r.Answers vs where
  nodup_keys := r.nodup
  keys_eq := h.keys_eq
  find_eq_ok_iff id v := by rw [Job.find_eq_ok_iff, h.get?_eq_some_iff]
  has_iff_find id := by
    simp only [Table.has_iff, Job.find_eq_ok_iff, ← Table.get?_isSome_iff,
      Option.isSome_iff_exists]
  has_iff_mem_keys id := Table.has_iff r id
  find_of_not_mem_keys id hid := by
    apply Job.find_of_get?_eq_none
    rwa [← Option.not_isSome_iff_eq_none, Table.get?_isSome_iff]
  size_eq := (List.length_map ..).symm
  entries_eq := h.entries_eq

/-- Whatever is registered, in an empty registry or in the one with the built-in variants, each
identifier is listed once and as it first came, the built-in ones first. Under it is found the
variant that came last with it, and the refusal of any other identifier names that identifier. -/
theorem lists_first_finds_last (vs : List Variant) :
    (vs.foldl register Table.empty).Answers vs ∧
      (vs.foldl register builtin).Answers (Variant.builtins ++ vs) ∧
      Variant.builtins.map Variant.id <+: (vs.foldl register builtin).keys := by
  have hbuiltin := records_foldl records_builtin vs
  refine ⟨answers_of_records (records_foldl .empty vs), answers_of_records hbuiltin, ?_⟩
  -- the identifiers of the built-in variants differ, so none of them is passed over
  have hdistinct : (Variant.builtins.map Variant.id).eraseDups = Variant.builtins.map Variant.id :=
    rfl
  have hkeys := hbuiltin.keys_eq
  rw [List.map_append, List.eraseDups_append, hdistinct] at hkeys
  exact ⟨_, hkeys.symm⟩

end Registry

end IconCompiler
