/-!
Tables from keys to values, in the order in which the keys were first entered. Each key stands in a
table once; entering it again replaces its value and keeps its place.
-/

namespace IconCompiler

structure Table (κ α : Type) where
  entries : List (κ × α)
  nodup : (entries.map Prod.fst).Nodup

namespace Table

variable {κ α : Type} [DecidableEq κ]

/-- Replaces the value of a key where it stands, or adds the key at the end. -/
def putEntry (key : κ) (value : α) : List (κ × α) → List (κ × α)
  | [] => [(key, value)]
  | e :: es => if e.1 = key then (key, value) :: es else e :: putEntry key value es

theorem map_fst_putEntry (key : κ) (value : α) (es : List (κ × α)) :
    (putEntry key value es).map Prod.fst =
      if key ∈ es.map Prod.fst then es.map Prod.fst else es.map Prod.fst ++ [key] := by
  induction es with
  | nil => simp [putEntry]
  | cons e es ih =>
    by_cases h : e.1 = key
    · simp [putEntry, h]
    · have h' : ¬ key = e.1 := fun eq => h eq.symm
      simp only [putEntry, h, if_false, List.map_cons, ih, List.mem_cons, h', false_or]
      split <;> rfl

theorem nodup_putEntry (key : κ) (value : α) {es : List (κ × α)}
    (h : (es.map Prod.fst).Nodup) : ((putEntry key value es).map Prod.fst).Nodup := by
  rw [map_fst_putEntry]
  split
  · exact h
  · rename_i hn
    exact List.nodup_append.mpr ⟨h, by simp, fun a ha b hb => by
      rw [List.mem_singleton] at hb; subst hb; exact fun eq => hn (eq ▸ ha)⟩

def empty : Table κ α := ⟨[], List.nodup_nil⟩

instance : EmptyCollection (Table κ α) := ⟨empty⟩

instance : Inhabited (Table κ α) := ⟨empty⟩

def put (t : Table κ α) (key : κ) (value : α) : Table κ α :=
  ⟨putEntry key value t.entries, nodup_putEntry key value t.nodup⟩

def remove (t : Table κ α) (key : κ) : Table κ α :=
  ⟨t.entries.filter (·.1 ≠ key), t.nodup.sublist (List.filter_sublist.map Prod.fst)⟩

def get? (t : Table κ α) (key : κ) : Option α := (t.entries.find? (·.1 = key)).map Prod.snd

def has (t : Table κ α) (key : κ) : Bool := t.entries.any (·.1 = key)

def keys (t : Table κ α) : List κ := t.entries.map Prod.fst

def size (t : Table κ α) : Nat := t.entries.length

def isEmpty (t : Table κ α) : Bool := t.entries.isEmpty

/-- Enters the pairs one after the other. -/
def ofList (pairs : List (κ × α)) : Table κ α :=
  pairs.foldl (fun t e => t.put e.1 e.2) empty

end Table

end IconCompiler
