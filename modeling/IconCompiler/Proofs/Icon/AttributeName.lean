import IconCompiler.Icon.AttributeName
import Mathlib.Data.List.TakeWhile

/-!
Folding and unfolding names of attributes. A folded name stays as it is when it is folded again, and
is what its unfolded spelling folds to.
-/

namespace IconCompiler.AttributeName

/-! ## Letters -/

theorem exists_letter {c : Char} {first : Nat} (h1 : first ≤ c.toNat) (h2 : c.toNat < first + 26) :
    ∃ i : Fin 26, c = Char.ofNat (first + i.val) := by
  refine ⟨⟨c.toNat - first, by omega⟩, ?_⟩
  rw [show first + (c.toNat - first) = c.toNat by omega, Char.ofNat_toNat]

theorem exists_of_isLower {c : Char} (h : c.isLower = true) :
    ∃ i : Fin 26, c = Char.ofNat (97 + i.val) := by
  change (decide (97 ≤ c.val) && decide (c.val ≤ 122)) = true at h
  rw [Bool.and_eq_true, decide_eq_true_eq, decide_eq_true_eq] at h
  have h1 : 97 ≤ c.toNat := UInt32.le_iff_toNat_le.mp h.1
  have h2 : c.toNat ≤ 122 := UInt32.le_iff_toNat_le.mp h.2
  exact exists_letter h1 (by omega)

theorem exists_of_isUpper {c : Char} (h : c.isUpper = true) :
    ∃ i : Fin 26, c = Char.ofNat (65 + i.val) := by
  change decide (65 ≤ c.val ∧ c.val ≤ 90) = true at h
  rw [decide_eq_true_eq] at h
  have h1 : 65 ≤ c.toNat := UInt32.le_iff_toNat_le.mp h.1
  have h2 : c.toNat ≤ 90 := UInt32.le_iff_toNat_le.mp h.2
  exact exists_letter h1 (by omega)

theorem isUpper_toUpper {c : Char} (h : c.isLower = true) : c.toUpper.isUpper = true := by
  obtain ⟨i, rfl⟩ := exists_of_isLower h
  revert i
  decide

theorem isLower_toLower {c : Char} (h : c.isUpper = true) : c.toLower.isLower = true := by
  obtain ⟨i, rfl⟩ := exists_of_isUpper h
  revert i
  decide

theorem toUpper_toLower {c : Char} (h : c.isUpper = true) : c.toLower.toUpper = c := by
  obtain ⟨i, rfl⟩ := exists_of_isUpper h
  revert i
  decide

theorem isLower_eq_false_of_isUpper {c : Char} (h : c.isUpper = true) : c.isLower = false := by
  obtain ⟨i, rfl⟩ := exists_of_isUpper h
  revert i
  decide

theorem ne_hyphen_of_isUpper {c : Char} (h : c.isUpper = true) : c ≠ '-' := by
  rintro rfl
  contradiction

/-! ## Folding -/

theorem foldChars_cons_of_ne {c : Char} (h : c ≠ '-') (cs : List Char) :
    foldChars (c :: cs) = c :: foldChars cs := by
  rw [foldChars]
  intro d ds hc
  exact absurd hc h

theorem foldChars_hyphen_lower {c : Char} (h : c.isLower = true) (cs : List Char) :
    foldChars ('-' :: c :: cs) = c.toUpper :: foldChars cs := by
  rw [foldChars, if_pos h]

theorem foldChars_hyphen {cs : List Char} (h : ∀ c ∈ cs.head?, c.isLower = false) :
    foldChars ('-' :: cs) = '-' :: foldChars cs := by
  cases cs with
  | nil => rfl
  | cons c cs =>
    have hc := h c rfl
    rw [foldChars, if_neg (by simp [hc])]

theorem foldChars_append {front : List Char} (h : '-' ∉ front) (cs : List Char) :
    foldChars (front ++ cs) = front ++ foldChars cs := by
  induction front with
  | nil => rfl
  | cons c front ih =>
    rw [List.mem_cons, not_or] at h
    rw [List.cons_append, foldChars_cons_of_ne (Ne.symm h.1), ih h.2, List.cons_append]

/-- How folding begins: with the first character, or with a capital in place of a hyphen. -/
theorem foldChars_cons (c : Char) (cs : List Char) :
    foldChars (c :: cs) = c :: foldChars cs ∨
      ∃ d ds, c = '-' ∧ cs = d :: ds ∧ d.isLower = true ∧
        foldChars (c :: cs) = d.toUpper :: foldChars ds := by
  by_cases hc : c = '-'
  · subst hc
    cases cs with
    | nil => exact Or.inl rfl
    | cons d ds =>
      cases hd : d.isLower with
      | true => exact Or.inr ⟨d, ds, rfl, rfl, hd, foldChars_hyphen_lower hd ds⟩
      | false =>
        refine Or.inl (foldChars_hyphen fun x hx => ?_)
        rw [← Option.some.inj hx, hd]
  · exact Or.inl (foldChars_cons_of_ne hc cs)

theorem head_foldChars {cs : List Char} (h : ∀ c ∈ cs.head?, c.isLower = false) :
    ∀ c ∈ (foldChars cs).head?, c.isLower = false := by
  intro x hx
  cases cs with
  | nil => exact absurd hx (Option.not_mem_none x)
  | cons c cs =>
    obtain e | ⟨d, ds, -, -, hd, e⟩ := foldChars_cons c cs
    · rw [e] at hx
      exact h x hx
    · rw [e] at hx
      rw [← Option.some.inj hx]
      exact isLower_eq_false_of_isUpper (isUpper_toUpper hd)

theorem foldChars_foldChars (cs : List Char) : foldChars (foldChars cs) = foldChars cs := by
  induction cs using foldChars.induct with
  | case1 c cs hc ih =>
    -- the capital that stands for both is no hyphen, so it is not folded again
    rw [foldChars_hyphen_lower hc,
      foldChars_cons_of_ne (ne_hyphen_of_isUpper (isUpper_toUpper hc)), ih]
  | case2 c cs hc ih =>
    have hhead : ∀ x ∈ (c :: cs).head?, x.isLower = false := fun x hx => by
      rw [← Option.some.inj hx]
      exact Bool.not_eq_true _ ▸ hc
    rw [foldChars_hyphen hhead, foldChars_hyphen (head_foldChars hhead), ih]
  | case3 c cs hc ih =>
    by_cases hh : c = '-'
    · subst hh
      cases cs with
      | nil => rfl
      | cons d ds => exact absurd rfl (hc d ds rfl)
    · rw [foldChars_cons_of_ne hh, foldChars_cons_of_ne hh, ih]
  | case4 => rfl

theorem fold_fold (name : String) : fold (fold name) = fold name := by
  rw [fold, fold, String.toList_ofList, foldChars_foldChars]

/-- A first character that folding cannot make was there before. -/
theorem exists_of_foldChars_eq_cons {c : Char} {cs rest : List Char}
    (h : foldChars cs = c :: rest) (hu : c.isUpper = false) :
    ∃ ds, cs = c :: ds ∧ foldChars ds = rest := by
  cases cs with
  | nil => contradiction
  | cons d ds =>
    obtain e | ⟨x, xs, -, -, hx, e⟩ := foldChars_cons d ds
    · obtain ⟨rfl, rfl⟩ := List.cons.inj (e.symm.trans h)
      exact ⟨ds, rfl, rfl⟩
    · obtain ⟨rfl, -⟩ := List.cons.inj (e.symm.trans h)
      rw [isUpper_toUpper hx] at hu
      contradiction

theorem exists_of_foldChars_eq_append {front cs rest : List Char}
    (h : foldChars cs = front ++ rest) (hu : front.any Char.isUpper = false) :
    ∃ ds, cs = front ++ ds ∧ foldChars ds = rest := by
  induction front generalizing cs with
  | nil => exact ⟨cs, rfl, h⟩
  | cons c front ih =>
    rw [List.any_cons, Bool.or_eq_false_iff] at hu
    obtain ⟨ds, rfl, hds⟩ := exists_of_foldChars_eq_cons h hu.1
    obtain ⟨es, rfl, hes⟩ := ih hds hu.2
    exact ⟨es, rfl, hes⟩

/-- Characters of a folded name are characters of the name or capitals. -/
theorem of_mem_foldChars {cs : List Char} {c : Char} (h : c ∈ foldChars cs) :
    c ∈ cs ∨ c.isUpper = true := by
  induction cs using foldChars.induct with
  | case1 d ds hd ih =>
    rw [foldChars_hyphen_lower hd] at h
    rcases List.mem_cons.mp h with rfl | h
    · exact Or.inr (isUpper_toUpper hd)
    · exact (ih h).imp_left fun h => List.mem_cons_of_mem _ (List.mem_cons_of_mem _ h)
  | case2 d ds hd ih =>
    rw [foldChars, if_neg hd] at h
    rcases List.mem_cons.mp h with rfl | h
    · exact Or.inl List.mem_cons_self
    · exact (ih h).imp_left (List.mem_cons_of_mem _)
  | case3 d ds hd ih =>
    rw [foldChars] at h
    · rcases List.mem_cons.mp h with rfl | h
      · exact Or.inl List.mem_cons_self
      · exact (ih h).imp_left (List.mem_cons_of_mem _)
    · exact hd
  | case4 => contradiction

/-! ## Unfolding -/

theorem unfoldChars_cons (c : Char) (cs : List Char) :
    unfoldChars (c :: cs) = (if c.isUpper then ['-', c.toLower] else [c]) ++ unfoldChars cs :=
  rfl

theorem head_unfoldChars {cs : List Char} (h : ∀ c ∈ cs.head?, c.isLower = false) :
    ∀ c ∈ (unfoldChars cs).head?, c.isLower = false := by
  intro x hx
  cases cs with
  | nil => exact absurd hx (Option.not_mem_none x)
  | cons c cs =>
    rw [unfoldChars_cons] at hx
    split at hx
    · rw [← Option.some.inj hx]
      decide
    · exact h x hx

/-- Of a name that folding leaves as it is, folding restores the capitals. -/
theorem foldChars_unfoldChars {cs : List Char} (h : foldChars cs = cs) :
    foldChars (unfoldChars cs) = cs := by
  induction cs with
  | nil => rfl
  | cons c cs ih =>
    obtain e | ⟨d, ds, rfl, -, hd, e⟩ := foldChars_cons c cs
    · rw [e] at h
      have hcs := (List.cons.inj h).2
      rw [unfoldChars_cons]
      cases hc : c.isUpper with
      | true =>
        rw [if_pos rfl, List.cons_append, List.singleton_append,
          foldChars_hyphen_lower (isLower_toLower hc), toUpper_toLower hc, ih hcs]
      | false =>
        rw [if_neg Bool.false_ne_true, List.singleton_append]
        by_cases hh : c = '-'
        · subst hh
          -- a small letter behind the hyphen would have been folded
          have hhead : ∀ x ∈ cs.head?, x.isLower = false := by
            intro x hx
            obtain ⟨xs, rfl⟩ := List.head?_eq_some_iff.mp hx
            cases hl : x.isLower with
            | false => rfl
            | true =>
              rw [foldChars_hyphen_lower hl] at e
              exact absurd (List.cons.inj e).1 (ne_hyphen_of_isUpper (isUpper_toUpper hl))
          rw [foldChars_hyphen (head_unfoldChars hhead), ih hcs]
        · rw [foldChars_cons_of_ne hh, ih hcs]
    · rw [e] at h
      exact absurd (List.cons.inj h).1 (ne_hyphen_of_isUpper (isUpper_toUpper hd))

theorem fold_unfold {name : String} (h : fold name = name) : fold (unfold name) = name := by
  unfold AttributeName.unfold
  split
  · exact h
  · have hchars : foldChars name.toList = name.toList := by
      have := congrArg String.toList h
      rwa [fold, String.toList_ofList] at this
    rw [fold, String.toList_ofList, foldChars_unfoldChars hchars, String.ofList_toList]

/-- Characters of an unfolded name are characters of the name, hyphens or small letters. -/
theorem of_mem_unfold {name : String} {c : Char} (h : c ∈ (unfold name).toList) :
    c ∈ name.toList ∨ c = '-' ∨ c.isLower = true := by
  unfold AttributeName.unfold at h
  split at h
  · exact Or.inl h
  · rw [String.toList_ofList, unfoldChars, List.mem_flatMap] at h
    obtain ⟨d, hd, hc⟩ := h
    split at hc
    · rename_i hu
      simp only [List.mem_cons, List.not_mem_nil, or_false] at hc
      rcases hc with rfl | rfl
      · exact Or.inr (Or.inl rfl)
      · exact Or.inr (Or.inr (isLower_toLower hu))
    · rw [List.mem_singleton.mp hc]
      exact Or.inl hd

theorem mem_unfold_of_not_isUpper {name : String} {c : Char} (h : c ∈ name.toList)
    (hu : c.isUpper = false) : c ∈ (unfold name).toList := by
  unfold AttributeName.unfold
  split
  · exact h
  · rw [String.toList_ofList, unfoldChars, List.mem_flatMap]
    refine ⟨c, h, ?_⟩
    rw [hu]
    exact List.mem_singleton_self c

theorem eq_append_of_isPrefixOf? {front cs rest : List Char}
    (h : front.isPrefixOf? cs = some rest) : cs = front ++ rest := by
  induction front generalizing cs with
  | nil => exact Option.some.inj h
  | cons c front ih =>
    cases cs with
    | nil => contradiction
    | cons d cs =>
      change (if c == d then front.isPrefixOf? cs else none) = some rest at h
      split at h
      · rename_i hcd
        rw [beq_iff_eq.mp hcd, ih h, List.cons_append]
      · contradiction

/-- Hyphenated names begin with a small letter, and none of them with an x. -/
theorem head_of_isHyphenated {name : String} (h : isHyphenated name = true) :
    ∃ c cs, name.toList = c :: cs ∧ c.isUpper = false ∧ c ≠ 'x' := by
  simp only [isHyphenated, Bool.or_eq_true, List.contains_eq_mem, decide_eq_true_eq,
    List.any_eq_true] at h
  rcases h with h | ⟨family, hfamily, hname⟩
  · have hall : ∀ n ∈ hyphenNames,
        (n.toList.head?.any fun c => !c.isUpper && c != 'x') = true := by decide
    have hhead := hall name h
    cases hn : name.toList with
    | nil => simp [hn] at hhead
    | cons c cs =>
      simp only [hn, List.head?_cons, Option.any_some, Bool.and_eq_true, Bool.not_eq_true',
        bne_iff_ne] at hhead
      exact ⟨c, cs, rfl, hhead.1, hhead.2⟩
  · unfold inFamily at hname
    split at hname
    · rename_i c rest hprefix
      -- a name of a family begins as its family does
      have hjoin := eq_append_of_isPrefixOf? hprefix
      simp only [hyphenFamilies, List.mem_cons, List.not_mem_nil, or_false] at hfamily
      rcases hfamily with rfl | rfl
      · exact ⟨'d', _, hjoin, by decide, by decide⟩
      · exact ⟨'a', _, hjoin, by decide, by decide⟩
    · contradiction

theorem head_unfold (name : String) : (unfold name).toList.head? = name.toList.head? := by
  unfold AttributeName.unfold
  split
  · rfl
  · rename_i h
    simp only [Bool.or_eq_true, not_or, Bool.not_eq_true', Bool.not_eq_false] at h
    obtain ⟨c, cs, hname, hu, -⟩ := head_of_isHyphenated h.2
    rw [String.toList_ofList, hname, unfoldChars_cons, hu]
    rfl

/-- Names that begin with an x have one spelling. -/
theorem unfold_of_head_x {name : String} (h : name.toList.head? = some 'x') :
    unfold name = name := by
  unfold AttributeName.unfold
  split
  · rfl
  · rename_i hc
    simp only [Bool.or_eq_true, not_or, Bool.not_eq_true', Bool.not_eq_false] at hc
    obtain ⟨c, cs, hname, -, hx⟩ := head_of_isHyphenated hc.2
    rw [hname, List.head?_cons, Option.some.injEq] at h
    exact absurd h hx

end IconCompiler.AttributeName
