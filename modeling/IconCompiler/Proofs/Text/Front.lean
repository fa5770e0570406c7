import Mathlib.Data.List.TakeWhile

/-! The front of a text: its characters up to the first of another kind, or up to a mark. -/

namespace IconCompiler.Text

variable {front rest : List Char}

theorem takeWhile_append_cons {p : Char → Bool} {c : Char} (h : ∀ d ∈ front, p d = true)
    (hc : p c = false) : (front ++ c :: rest).takeWhile p = front := by
  rw [List.takeWhile_append_of_pos h, List.takeWhile_cons_of_neg (by simp [hc]), List.append_nil]

theorem dropWhile_append_cons {p : Char → Bool} {c : Char} (h : ∀ d ∈ front, p d = true)
    (hc : p c = false) : (front ++ c :: rest).dropWhile p = c :: rest := by
  rw [List.dropWhile_append_of_pos h, List.dropWhile_cons_of_neg (by simp [hc])]

theorem ne_of_not_mem {mark : Char} (h : mark ∉ front) : ∀ c ∈ front, (c != mark) = true :=
  fun _ hc => bne_iff_ne.mpr (ne_of_mem_of_not_mem hc h)

/-- What is in front of the first mark. -/
theorem takeWhile_ne {mark : Char} (h : mark ∉ front) :
    (front ++ mark :: rest).takeWhile (· != mark) = front :=
  takeWhile_append_cons (ne_of_not_mem h) (bne_self_eq_false _)

theorem dropWhile_ne {mark : Char} (h : mark ∉ front) :
    (front ++ mark :: rest).dropWhile (· != mark) = mark :: rest :=
  dropWhile_append_cons (ne_of_not_mem h) (bne_self_eq_false _)

end IconCompiler.Text
