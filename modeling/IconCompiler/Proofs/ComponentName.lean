import IconCompiler.Proofs.Icon.AttributeName
import IconCompiler.Proofs.Text.Words

/-!
Pascal case. Whatever a text holds, only ASCII letters and digits are left of it. The first
character is made a capital before anything is removed, so a text keeps a small letter in front
exactly if that character goes and a small letter is the first that stays.
-/

namespace IconCompiler

/-! ## Capital forms -/

namespace Text

theorem toUpper_of_not_isLower {c : Char} (h : ¬ c.isLower = true) : c.toUpper = c := by
  refine dif_neg fun hbounds => h ?_
  change (decide _ && decide _) = true
  rw [decide_eq_true hbounds.1, decide_eq_true hbounds.2, Bool.and_self]

theorem isLower_toUpper (c : Char) : c.toUpper.isLower = false := by
  by_cases h : c.isLower = true
  · exact AttributeName.isLower_eq_false_of_isUpper (AttributeName.isUpper_toUpper h)
  · rw [toUpper_of_not_isLower h]
    exact Bool.eq_false_iff.mpr h

/-- No small ASCII letter stands in a capital form. -/
theorem isLower_of_mem_capital {c x : Char} (h : x ∈ capital c) : x.isLower = false := by
  have hall : (capital c).all (!·.isLower) = true := by
    unfold capital
    split
    case h_18 => simp [isLower_toUpper c]
    all_goals decide
  simpa using List.all_eq_true.mp hall x h

theorem capital_of_isAlphanum {c : Char} (h : c.isAlphanum = true) : capital c = [c.toUpper] :=
  forall_isAlphanum (P := fun c => c.isAlphanum = true → capital c = [c.toUpper])
    (by decide +kernel) h h

theorem isAlphanum_eq (c : Char) : c.isAlphanum = (c.isUpper || c.isLower || c.isDigit) := rfl

theorem isAlphanum_of_isLower {c : Char} (h : c.isLower = true) : c.isAlphanum = true := by
  simp [isAlphanum_eq, h]

theorem isAlphanum_toUpper {c : Char} (h : c.isAlphanum = true) : c.toUpper.isAlphanum = true :=
  forall_isAlphanum (P := fun c => c.isAlphanum = true → c.toUpper.isAlphanum = true)
    (by decide +kernel) h h

end Text

namespace ComponentName

/-! ## What a text begins with -/

/-- Nothing is kept of a character, nor of its capital form. -/
def IsDropped (c : Char) : Prop := ∀ x ∈ Text.capital c, x.isAlphanum = false

instance (c : Char) : Decidable (IsDropped c) :=
  decidable_of_iff ((Text.capital c).all (!·.isAlphanum) = true) (by simp [IsDropped])

theorem IsDropped.isAlphanum {c : Char} (h : IsDropped c) : c.isAlphanum = false := by
  by_contra hc
  rw [Bool.not_eq_false] at hc
  have hcapital := h c.toUpper (by simp [Text.capital_of_isAlphanum hc])
  rw [Text.isAlphanum_toUpper hc] at hcapital
  contradiction

theorem capital_of_isDropped {c : Char} (h : IsDropped c) : Text.capital c = [c] := by
  have hc : ¬ c.isLower = true := by
    intro hlower
    have hdropped := h.isAlphanum
    rw [Text.isAlphanum_of_isLower hlower] at hdropped
    contradiction
  unfold Text.capital
  split
  case h_18 => rw [Text.toUpper_of_not_isLower hc]
  all_goals exact absurd h (by decide)

/-- A hyphen or an underscore, which takes the next character with it. -/
def IsSeparator (c : Char) : Prop := c = '-' ∨ c = '_'

instance (c : Char) : Decidable (IsSeparator c) := inferInstanceAs (Decidable (_ ∨ _))

theorem IsSeparator.isDropped {c : Char} (h : IsSeparator c) : IsDropped c := by
  rcases h with rfl | rfl <;> decide

/-- A character is the first of a text that is kept, and stands behind no separator. -/
inductive Leads (x : Char) : List Char → Prop
  | here (cs : List Char) : Leads x (x :: cs)
  | behind {c : Char} {cs : List Char} : ¬ IsSeparator c → c.isAlphanum = false → Leads x cs →
      Leads x (c :: cs)
  | behindPair {c d : Char} {cs : List Char} : IsSeparator c → IsDropped d → Leads x cs →
      Leads x (c :: d :: cs)

/-- The first character goes, and the first that stays is a small letter. -/
def LosesCapital (text : String) : Prop :=
  (∀ c ∈ text.toList.head?, IsDropped c) ∧ ∃ x, x.isLower = true ∧ Leads x text.toList

/-! ## The first character that is kept -/

theorem find?_capital {c x : Char} (h : (Text.capital c).find? Char.isAlphanum = some x) :
    x.isLower = false :=
  Text.isLower_of_mem_capital (List.mem_of_find?_eq_some h)

theorem isDropped_iff_find? (c : Char) :
    IsDropped c ↔ (Text.capital c).find? Char.isAlphanum = none := by
  simp [IsDropped, List.find?_eq_none]

section

variable {x : Char}

theorem leads_cons_iff {c : Char} (hc : ¬ IsSeparator c) (cs : List Char) :
    Leads x (c :: cs) ↔ c = x ∨ c.isAlphanum = false ∧ Leads x cs := by
  constructor
  · intro h
    cases h with
    | here => exact Or.inl rfl
    | behind _ hdropped h => exact Or.inr ⟨hdropped, h⟩
    | behindPair hsep _ _ => exact absurd hsep hc
  · rintro (rfl | ⟨hdropped, h⟩)
    · exact .here cs
    · exact .behind hc hdropped h

theorem leads_pair_iff (hx : x.isLower = true) {c : Char} (hc : IsSeparator c) (d : Char)
    (cs : List Char) : Leads x (c :: d :: cs) ↔ IsDropped d ∧ Leads x cs := by
  constructor
  · intro h
    cases h with
    | here =>
      have hdropped := hc.isDropped.isAlphanum
      rw [Text.isAlphanum_of_isLower hx] at hdropped
      contradiction
    | behind hnot _ _ => exact absurd hc hnot
    | behindPair _ hd h => exact ⟨hd, h⟩
  · exact fun ⟨hd, h⟩ => .behindPair hc hd h

theorem find?_cons_iff (hx : x.isLower = true) (c : Char) (cs : List Char) :
    (c :: cs).find? Char.isAlphanum = some x ↔
      c = x ∨ c.isAlphanum = false ∧ cs.find? Char.isAlphanum = some x := by
  cases hc : c.isAlphanum with
  | true => simp [hc]
  | false =>
    have hne : c ≠ x := by
      rintro rfl
      rw [Text.isAlphanum_of_isLower hx] at hc
      contradiction
    simp [hc, hne]

/-- What is kept of a capital form comes before what follows, and is no small letter. -/
theorem find?_capital_append (hx : x.isLower = true) (c : Char) (cs : List Char) :
    (Text.capital c ++ cs).find? Char.isAlphanum = some x ↔
      IsDropped c ∧ cs.find? Char.isAlphanum = some x := by
  rw [isDropped_iff_find?, List.find?_append]
  cases hfind : (Text.capital c).find? Char.isAlphanum with
  | none => simp
  | some y =>
    have hy := find?_capital hfind
    refine iff_of_false ?_ (by simp)
    rw [Option.some_or, Option.some.injEq]
    rintro rfl
    rw [hx] at hy
    contradiction

/-- A small letter is the first that is kept of the joined words exactly if it leads the text. -/
theorem find?_joinWords_iff (hx : x.isLower = true) (cs : List Char) :
    (joinWords cs).find? Char.isAlphanum = some x ↔ Leads x cs := by
  induction cs using joinWords.induct with
  | case1 =>
    refine iff_of_false (by simp [joinWords]) fun h => ?_
    cases h
  | case2 c =>
    rw [joinWords, find?_cons_iff hx]
    constructor
    · rintro (rfl | ⟨-, h⟩)
      · exact .here []
      · contradiction
    · intro h
      cases h with
      | here => exact Or.inl rfl
      | behind _ _ h => cases h
  | case3 c cs hsep ih =>
    have hlineEnd : IsDropped '\n' := by decide
    have hkept : (c :: '\n' :: joinWords cs).find? Char.isAlphanum =
        (joinWords cs).find? Char.isAlphanum := by
      rw [List.find?_cons_of_neg (by simp [IsSeparator.isDropped hsep |>.isAlphanum]),
        List.find?_cons_of_neg (by decide)]
    rw [joinWords, if_pos hsep, if_pos rfl, hkept, ih, leads_pair_iff hx hsep,
      and_iff_right hlineEnd]
  | case4 c d cs hsep hd ih =>
    rw [joinWords, if_pos hsep, if_neg hd, find?_capital_append hx, ih, leads_pair_iff hx hsep]
  | case5 c d cs hsep ih =>
    rw [joinWords, if_neg hsep, find?_cons_iff hx, ih, leads_cons_iff hsep]

theorem find?_capitalizeFirst_iff (hx : x.isLower = true) (cs : List Char) :
    (capitalizeFirst cs).find? Char.isAlphanum = some x ↔
      (∀ c ∈ cs.head?, IsDropped c) ∧ cs.find? Char.isAlphanum = some x := by
  cases cs with
  | nil => simp [capitalizeFirst]
  | cons c cs =>
    rw [capitalizeFirst, find?_capital_append hx, List.head?_cons]
    constructor
    · rintro ⟨hc, h⟩
      refine ⟨by simpa using hc, ?_⟩
      rwa [List.find?_cons_of_neg (by simp [hc.isAlphanum])]
    · rintro ⟨hc, h⟩
      have hc : IsDropped c := hc c rfl
      rw [List.find?_cons_of_neg (by simp [hc.isAlphanum])] at h
      exact ⟨hc, h⟩

/-- Where a small letter is the first that is kept, joining words leaves a dropped character in
front if there was one. -/
theorem isDropped_head_joinWords_iff (hx : x.isLower = true) {cs : List Char}
    (h : (joinWords cs).find? Char.isAlphanum = some x) :
    (∀ c ∈ (joinWords cs).head?, IsDropped c) ↔ ∀ c ∈ cs.head?, IsDropped c := by
  match cs with
  | [] => rfl
  | [c] => rfl
  | c :: d :: cs =>
    rw [joinWords] at h ⊢
    split
    · rename_i hsep
      rw [if_pos hsep] at h
      split
      · rfl
      · rename_i hd
        rw [if_neg hd] at h
        have hdropped := ((find?_capital_append hx d _).mp h).1
        rw [capital_of_isDropped hdropped]
        refine iff_of_true ?_ ?_
        · simpa using hdropped
        · simpa using IsSeparator.isDropped hsep
    · rfl

end

/-! ## Pascal case -/

theorem isAlphanum_of_mem_pascal {text : String} {c : Char} (h : c ∈ (pascal text).toList) :
    c.isAlphanum = true := by
  rw [pascal, String.toList_ofList] at h
  exact (List.mem_filter.mp h).2

/-- A small letter is left in front of exactly the texts that lose their capital. -/
theorem exists_head_pascal_iff (text : String) :
    (∃ x, x.isLower = true ∧ (pascal text).toList.head? = some x) ↔ LosesCapital text := by
  have hhead : (pascal text).toList.head? =
      (capitalizeFirst (joinWords text.toList)).find? Char.isAlphanum := by
    rw [pascal, String.toList_ofList]
    exact List.head?_filter
  rw [hhead]
  constructor
  · rintro ⟨x, hx, h⟩
    obtain ⟨hfirst, hkept⟩ := (find?_capitalizeFirst_iff hx _).mp h
    exact ⟨(isDropped_head_joinWords_iff hx hkept).mp hfirst, x, hx,
      (find?_joinWords_iff hx _).mp hkept⟩
  · rintro ⟨hfirst, x, hx, hleads⟩
    have hkept := (find?_joinWords_iff hx _).mpr hleads
    exact ⟨x, hx, (find?_capitalizeFirst_iff hx _).mpr
      ⟨(isDropped_head_joinWords_iff hx hkept).mpr hfirst, hkept⟩⟩

theorem joinWords_of_isAlphanum {cs : List Char} (h : ∀ c ∈ cs, c.isAlphanum = true) :
    joinWords cs = cs := by
  induction cs using joinWords.induct with
  | case1 => rfl
  | case2 c => rfl
  | case3 c cs hsep ih =>
    have hdropped := (IsSeparator.isDropped hsep).isAlphanum
    rw [h c List.mem_cons_self] at hdropped
    contradiction
  | case4 c d cs hsep hd ih =>
    have hdropped := (IsSeparator.isDropped hsep).isAlphanum
    rw [h c List.mem_cons_self] at hdropped
    contradiction
  | case5 c d cs hsep ih =>
    rw [joinWords, if_neg hsep, ih fun e he => h e (List.mem_cons_of_mem c he)]

/-- Letters and digits stay as they are, the first one as a capital. -/
theorem pascalChars_of_isAlphanum {c : Char} {cs : List Char}
    (h : ∀ d ∈ c :: cs, d.isAlphanum = true) : pascalChars (c :: cs) = c.toUpper :: cs := by
  have hc := h c List.mem_cons_self
  rw [pascalChars, joinWords_of_isAlphanum h, capitalizeFirst, Text.capital_of_isAlphanum hc,
    List.singleton_append, List.filter_eq_self]
  exact List.forall_mem_cons.mpr
    ⟨Text.isAlphanum_toUpper hc, fun d hd => h d (List.mem_cons_of_mem c hd)⟩

theorem toUpper_eq_self_iff (c : Char) : c.toUpper = c ↔ c.isLower = false := by
  constructor
  · intro h
    rw [← h]
    exact Text.isLower_toUpper c
  · exact fun h => Text.toUpper_of_not_isLower (Bool.eq_false_iff.mp h)

theorem pascal_pascal_iff (text : String) :
    pascal (pascal text) = pascal text ↔
      ¬ ∃ x, x.isLower = true ∧ (pascal text).toList.head? = some x := by
  have hkept : ∀ c ∈ (pascal text).toList, c.isAlphanum = true :=
    fun c => isAlphanum_of_mem_pascal
  rw [pascal, ← String.toList_inj, String.toList_ofList]
  cases hchars : (pascal text).toList with
  | nil => simp [pascalChars, joinWords, capitalizeFirst]
  | cons c cs =>
    rw [hchars] at hkept
    rw [pascalChars_of_isAlphanum hkept, List.cons.injEq, and_iff_left rfl, toUpper_eq_self_iff]
    simp

/-- Only letters and digits are left of a text. A small letter is not in front, and Pascal case
changes nothing more, exactly if the text does not lose its capital. -/
theorem pascal_capitalized_iff (text : String) :
    (∀ c ∈ (pascal text).toList, c.isAlphanum = true) ∧
      ((∀ c ∈ (pascal text).toList.head?, c.isUpper = true ∨ c.isDigit = true) ↔
        ¬ LosesCapital text) ∧
      (pascal (pascal text) = pascal text ↔ ¬ LosesCapital text) := by
  refine ⟨fun c => isAlphanum_of_mem_pascal, ?_, ?_⟩
  · rw [← exists_head_pascal_iff]
    constructor
    · rintro h ⟨x, hx, hhead⟩
      rcases h x hhead with hupper | hdigit
      · rw [AttributeName.isLower_eq_false_of_isUpper hupper] at hx
        contradiction
      · rw [(toUpper_eq_self_iff x).mp (Text.toUpper_of_isDigit hdigit)] at hx
        contradiction
    · intro h c hc
      have hkept := isAlphanum_of_mem_pascal (List.mem_of_head? hc)
      have hlower : c.isLower = false := Bool.eq_false_iff.mpr fun hlower => h ⟨c, hlower, hc⟩
      simpa [Text.isAlphanum_eq, hlower] using hkept
  · rw [← exists_head_pascal_iff, pascal_pascal_iff]

/-- A point, a space, an accented letter or two hyphens in front of a small letter: the first
character is made a capital and goes, and the letter stays small. -/
theorem capital_lost :
    pascal ".a" = "a" ∧ pascal " a" = "a" ∧ pascal "éa" = "a" ∧ pascal "--a" = "a" ∧
      pascal (pascal ".a") = "A" := by
  decide

end ComponentName

end IconCompiler
