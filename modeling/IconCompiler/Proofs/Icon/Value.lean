import IconCompiler.Proofs.Binary64.RoundTrip
import IconCompiler.Proofs.Text.Words

/-!
Values as texts: a finite number is read back from its text, which holds printable ASCII only.
-/

namespace IconCompiler

namespace Text

theorem isBlank_of_printable {c : Char} (h : 0x20 < c.toNat ∧ c.toNat < 0x7F) :
    isBlank c = false := by
  obtain ⟨h1, h2⟩ := h
  simp only [isBlank, List.contains_eq_mem, List.mem_cons, List.not_mem_nil, or_false,
    Bool.or_eq_false_iff, Bool.and_eq_false_iff, decide_eq_false_iff_not]
  omega

theorem trim_of_not_blank {cs : List Char} (h : ∀ c ∈ cs, isBlank c = false) : trim cs = cs := by
  have hdrop : ∀ ds : List Char, (∀ c ∈ ds, isBlank c = false) → ds.dropWhile isBlank = ds := by
    intro ds hds
    cases ds with
    | nil => rfl
    | cons d ds => rw [List.dropWhile_cons, if_neg (by simp [hds d List.mem_cons_self])]
  rw [trim, hdrop cs h, hdrop _ fun c hc => h c (List.mem_reverse.mp hc), List.reverse_reverse]

end Text

namespace Binary64

/-- A number is written with letters, digits, points and signs only. -/
theorem of_mem_print {x : Binary64} {c : Char} (h : c ∈ x.print) :
    c = '-' ∨ c = '.' ∨ c.isAlphanum = true := by
  cases x with
  | infinite s =>
    have hall : (print (.infinite s)).all (fun d => d = '-' || d = '.' || d.isAlphanum) = true := by
      cases s <;> decide
    simpa [or_assoc] using List.all_eq_true.mp hall c h
  | nan =>
    have hall : (print .nan).all (fun d => d = '-' || d = '.' || d.isAlphanum) = true := by decide
    simpa [or_assoc] using List.all_eq_true.mp hall c h
  | finite s m q hmq =>
    rw [print] at h
    rcases List.mem_append.mp h with h | h
    · split at h
      · exact Or.inl (List.mem_singleton.mp h)
      · contradiction
    · rcases positional_chars _ c h with hd | hpoint
      · have hdigit : c.isDigit = true := by
          simpa [Text.isDigit, Char.isDigit, Char.le_def] using hd
        exact Or.inr (Or.inr (by simp [Char.isAlphanum, hdigit]))
      · exact Or.inr (Or.inl hpoint)

theorem printable_of_mem_print (x : Binary64) {c : Char} (h : c ∈ x.print) :
    0x20 < c.toNat ∧ c.toNat < 0x7F := by
  rcases of_mem_print h with rfl | rfl | h
  · decide
  · decide
  · exact Text.forall_isAlphanum
      (P := fun c => c.isAlphanum = true → 0x20 < c.toNat ∧ c.toNat < 0x7F) (by decide +kernel) h h

end Binary64

namespace AttrValue

/-- What stands for a text is a finite number or the text. -/
theorem ofText_cases (raw : String) :
    (∃ x, ofText raw = number x ∧ x.isFinite = true) ∨ ofText raw = text raw := by
  unfold ofText
  split
  · rename_i x _
    split
    · rename_i hx
      exact Or.inl ⟨x, rfl, hx⟩
    · exact Or.inr rfl
  · exact Or.inr rfl

theorem ofText_toText {x : Binary64} (hx : x.isFinite = true) : ofText x.toText = number x := by
  have htrim : Text.trim x.print = x.print :=
    Text.trim_of_not_blank fun c hc => Text.isBlank_of_printable (x.printable_of_mem_print hc)
  simp only [ofText, Binary64.toText, String.toList_ofList, htrim, Binary64.read?_print x hx, hx,
    if_true]

end AttrValue

end IconCompiler
