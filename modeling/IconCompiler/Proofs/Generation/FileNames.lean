import IconCompiler.ComponentName
import IconCompiler.Proofs.FileTree.Steps
import IconCompiler.Proofs.Table
import IconCompiler.Proofs.Text.Front
import IconCompiler.Variant.Registry

/-!
Names of the files that a run writes. Each consists of a stem without a point and an extension, so
two of them are the same only if both parts are.
-/

namespace IconCompiler

/-- A stem, a point and an extension. -/
def fileName (stem extension : String) : String := stem ++ "." ++ extension

theorem takeWhile_fileName (stem extension : String) (hs : '.' ∉ stem.toList) :
    (fileName stem extension).toList.takeWhile (· != '.') = stem.toList := by
  rw [fileName, String.toList_append, String.toList_append, List.append_assoc]
  exact Text.takeWhile_ne hs

theorem fileName_inj {stem stem' extension extension' : String} (hs : '.' ∉ stem.toList)
    (hs' : '.' ∉ stem'.toList) (h : fileName stem extension = fileName stem' extension') :
    stem = stem' ∧ extension = extension' := by
  -- the stem is what stands before the first point
  have hstem : stem = stem' := by
    apply String.ext
    rw [← takeWhile_fileName stem extension hs, h, takeWhile_fileName stem' extension' hs']
  subst hstem
  exact ⟨rfl, (String.append_right_inj _).mp h⟩

theorem isName_fileName {stem extension : String} (hne : stem ≠ "") (hpoint : '.' ∉ stem.toList)
    (hslash : '/' ∉ stem.toList) (hext : '/' ∉ extension.toList) :
    Path.IsName (fileName stem extension) := by
  have hne' : stem.toList ≠ [] := fun h => hne (String.toList_eq_nil_iff.mp h)
  obtain ⟨c, cs, hc⟩ := List.exists_cons_of_ne_nil hne'
  have htail : (fileName stem extension).toList = c :: (cs ++ '.' :: extension.toList) := by
    simp [fileName, hc]
  have hcp : c ≠ '.' := fun e => hpoint (hc ▸ e ▸ List.mem_cons_self)
  refine ⟨fun h => ?_, ?_, fun h => ?_, fun h => ?_⟩
  · simp [h] at htail
  · simp only [fileName, String.toList_append, List.mem_append, not_or]
    exact ⟨⟨hslash, by decide⟩, hext⟩
  · rw [h] at htail
    exact hcp (List.cons.inj htail).1.symm
  · rw [h] at htail
    exact hcp (List.cons.inj htail).1.symm

/-! ## Component names -/

namespace ComponentName

theorem isValid_chars {name : String} (h : isValid name = true) :
    ∀ c ∈ name.toList, (c.isAlphanum || c == '_') = true := by
  unfold isValid at h
  cases hn : name.toList with
  | nil => simp
  | cons c cs =>
    simp only [hn, isValidChars, Bool.and_eq_true, List.all_eq_true] at h
    intro x hx
    rcases List.mem_cons.mp hx with rfl | hx
    · have := h.1
      simp only [Bool.or_eq_true, Char.isAlphanum] at this ⊢
      exact this.imp_left Or.inl
    · exact h.2 x hx

theorem not_mem_of_isValid {name : String} (h : isValid name = true) (c : Char)
    (hc : (c.isAlphanum || c == '_') = false) : c ∉ name.toList := by
  intro hm
  rw [isValid_chars h c hm] at hc
  contradiction

theorem ne_empty_of_isValid {name : String} (h : isValid name = true) : name ≠ "" := by
  rintro rfl
  contradiction

end ComponentName

/-! ## Variants -/

/-- Extensions of the files of the built-in variants. -/
def sourceExtensions : List String := ["tsx", "jsx", "ts", "js", "vue", "svelte", "astro"]

theorem not_slash_of_mem_sourceExtensions {e : String} (h : e ∈ sourceExtensions) :
    '/' ∉ e.toList := by
  revert e
  decide

namespace Variant

/-- How the built-in variants name their files. -/
structure NamesFiles (v : Variant) : Prop where
  runtime : v.runtime = v.component
  runtimeStem : v.runtimeStem = "createIcon" ∨ v.runtimeStem = "Icon"
  component : ∀ typed, v.component.pick typed ∈ sourceExtensions
  index : ∀ typed, v.index.pick typed ∈ sourceExtensions

theorem namesFiles_of_mem_builtins {v : Variant} (h : v ∈ builtins) : v.NamesFiles := by
  simp only [builtins, List.mem_cons, List.not_mem_nil, or_false] at h
  rcases h with rfl | rfl | rfl | rfl | rfl | rfl | rfl | rfl | rfl | rfl <;>
    exact ⟨rfl, by decide, by decide, by decide⟩

theorem NamesFiles.point_not_mem_runtimeStem {v : Variant} (h : v.NamesFiles) :
    '.' ∉ v.runtimeStem.toList := by
  rcases h.runtimeStem with h | h <;> rw [h] <;> decide

theorem NamesFiles.runtimeStem_ne_empty {v : Variant} (h : v.NamesFiles) : v.runtimeStem ≠ "" := by
  rcases h.runtimeStem with h | h <;> rw [h] <;> decide

theorem NamesFiles.runtimeStem_ne_index {v : Variant} (h : v.NamesFiles) :
    v.runtimeStem ≠ "index" := by
  rcases h.runtimeStem with h | h <;> rw [h] <;> decide

theorem NamesFiles.slash_not_mem_runtimeStem {v : Variant} (h : v.NamesFiles) :
    '/' ∉ v.runtimeStem.toList := by
  rcases h.runtimeStem with h | h <;> rw [h] <;> decide

theorem NamesFiles.runtimeFileName {v : Variant} (h : v.NamesFiles) (typed : Bool) :
    v.runtimeFileName typed = fileName v.runtimeStem (v.component.pick typed) := by
  rw [← h.runtime]
  rfl

theorem NamesFiles.isName_runtimeFileName {v : Variant} (h : v.NamesFiles) (typed : Bool) :
    Path.IsName (v.runtimeFileName typed) := by
  rw [h.runtimeFileName]
  exact isName_fileName h.runtimeStem_ne_empty h.point_not_mem_runtimeStem
    h.slash_not_mem_runtimeStem (not_slash_of_mem_sourceExtensions (h.component typed))

theorem NamesFiles.isName_componentFileName {v : Variant} (h : v.NamesFiles) (typed : Bool)
    {name : String} (hname : ComponentName.isValid name = true) :
    Path.IsName (v.componentFileName name typed) :=
  isName_fileName (ComponentName.ne_empty_of_isValid hname)
    (ComponentName.not_mem_of_isValid hname '.' (by decide))
    (ComponentName.not_mem_of_isValid hname '/' (by decide))
    (not_slash_of_mem_sourceExtensions (h.component typed))

theorem NamesFiles.isName_indexFileName {v : Variant} (h : v.NamesFiles) (typed : Bool) :
    Path.IsName (v.indexFileName typed) :=
  isName_fileName (show "index" ≠ "" by decide) (by decide) (by decide)
    (not_slash_of_mem_sourceExtensions (h.index typed))

/-- A file whose stem is another one is no index. -/
theorem ne_indexFileName {stem extension : String} (v : Variant) (typed : Bool)
    (hpoint : '.' ∉ stem.toList) (hstem : stem ≠ "index") :
    fileName stem extension ≠ v.indexFileName typed := fun h =>
  hstem (fileName_inj hpoint (show '.' ∉ "index".toList by decide) h).1

end Variant

namespace Registry

theorem mem_of_get?_ofVariants (vs : List Variant) (r : Registry) (id : String) (v : Variant)
    (h : (vs.foldl register r).get? id = some v) : v ∈ vs ∨ r.get? id = some v := by
  induction vs generalizing r with
  | nil => exact Or.inr h
  | cons x vs ih =>
    rcases ih (r.register x) h with hv | hv
    · exact Or.inl (List.mem_cons_of_mem x hv)
    · rw [register, Table.get?_put] at hv
      split at hv
      · exact Or.inl (Option.some.inj hv ▸ List.mem_cons_self)
      · exact Or.inr hv

theorem mem_builtins_of_get? {id : String} {v : Variant} (h : builtin.get? id = some v) :
    v ∈ Variant.builtins :=
  (mem_of_get?_ofVariants Variant.builtins Table.empty id v h).resolve_right (by
    simp [Table.get?, Table.empty])

theorem get?_builtin_vue : builtin.get? "vue" = some Variant.vue := rfl

end Registry

end IconCompiler
