import IconCompiler.ComponentName
import IconCompiler.Proofs.FileTree.Steps
import IconCompiler.Text.Words

/-!
What is left of a text that is cut into words, made small and joined again. Of a name of ASCII
letters, digits and underscores it is the words up to the case of their letters, and no more: where
every word shows its beginning by its first letter alone, that is the whole name.
-/

namespace IconCompiler.Text

/-! ## Words -/

theorem wordsAfter_ne_nil (word cs : List Char) : wordsAfter word cs ≠ [] := by
  induction cs generalizing word with
  | nil => simp [wordsAfter]
  | cons c cs ih =>
    unfold wordsAfter
    split
    · simp
    · split
      · simp
      · exact ih _

theorem flatten_wordsAfter (word cs : List Char) :
    (wordsAfter word cs).flatten = word.reverse ++ cs.filter fun c => !isSeparator c := by
  induction cs generalizing word with
  | nil => simp [wordsAfter]
  | cons c cs ih =>
    unfold wordsAfter
    split
    · rename_i hc
      rw [List.flatten_cons, ih, List.filter_cons_of_neg (by simp [hc]), List.reverse_nil,
        List.nil_append]
    · rename_i hc
      rw [List.filter_cons_of_pos (by simp [hc])]
      split
      · rw [List.flatten_cons, ih, List.reverse_cons, List.append_assoc, List.reverse_nil,
          List.nil_append, List.singleton_append]
      · rw [ih, List.reverse_cons, List.append_assoc, List.singleton_append]

/-- The words together are the text without its separators. -/
theorem flatten_words (cs : List Char) :
    (words cs).flatten = cs.filter fun c => !isSeparator c :=
  flatten_wordsAfter [] cs

theorem of_mem_words {cs w : List Char} (hw : w ∈ words cs) {c : Char} (hc : c ∈ w) :
    c ∈ cs ∧ isSeparator c = false := by
  have hall : c ∈ (words cs).flatten := List.mem_flatten.mpr ⟨w, hw, hc⟩
  rw [flatten_words, List.mem_filter, Bool.not_eq_true'] at hall
  exact hall

/-- Pieces that are joined by a separator are found again. -/
theorem splitAt_intercalate {isSeparator : Char → Bool} {separator : Char}
    (hs : isSeparator separator = true) {ws : List (List Char)} (hne : ws ≠ [])
    (hws : ∀ w ∈ ws, ∀ c ∈ w, isSeparator c = false) :
    splitAt isSeparator ([separator].intercalate ws) = ws := by
  induction ws with
  | nil => contradiction
  | cons w ws ih =>
    have hw := splitAt_of_forall_not isSeparator w (hws w List.mem_cons_self)
    cases ws with
    | nil => simpa using hw
    | cons x ws =>
      have hrest := ih (by simp) fun y hy => hws y (List.mem_cons_of_mem w hy)
      rw [List.intercalate_cons_cons, List.append_assoc, List.singleton_append,
        splitAt_append _ _ _ _ hs, hw, hrest, List.singleton_append]

theorem mem_of_mem_intercalate {separator : List Char} {ws : List (List Char)} {c : Char}
    (h : c ∈ separator.intercalate ws) : c ∈ separator ∨ ∃ w ∈ ws, c ∈ w := by
  induction ws with
  | nil => simp at h
  | cons w ws ih =>
    cases ws with
    | nil => exact Or.inr ⟨w, List.mem_cons_self, by simpa using h⟩
    | cons x ws =>
      rw [List.intercalate_cons_cons, List.mem_append, List.mem_append] at h
      rcases h with (h | h) | h
      · exact Or.inr ⟨w, List.mem_cons_self, h⟩
      · exact Or.inl h
      · exact (ih h).imp_right fun ⟨y, hy, hc⟩ => ⟨y, List.mem_cons_of_mem w hy, hc⟩

theorem toList_lines_cons (l : String) (ls : List String) :
    (lines (l :: ls)).toList = l.toList ++ '\n' :: (lines ls).toList := by
  simp [lines, String.join_cons]

/-- Lines are found again, and what follows them begins a line of its own. -/
theorem splitAt_lines {ls : List String} (h : ∀ l ∈ ls, '\n' ∉ l.toList) (cs : List Char) :
    splitAt (· == '\n') ((lines ls).toList ++ cs) =
      ls.map String.toList ++ splitAt (· == '\n') cs := by
  induction ls with
  | nil => rfl
  | cons l ls ih =>
    have hl : splitAt (· == '\n') l.toList = [l.toList] := by
      refine splitAt_of_forall_not _ _ fun c hc => ?_
      rw [beq_eq_false_iff_ne]
      exact fun e => h l List.mem_cons_self (e ▸ hc)
    have hls := ih fun m hm => h m (List.mem_cons_of_mem l hm)
    rw [toList_lines_cons, List.append_assoc, List.cons_append, splitAt_append _ _ _ _ rfl, hl,
      hls]
    rfl

/-- What is read from each line of lines, where nothing is read from an empty one. -/
theorem filterMap_splitAt_lines {α : Type} {f : List Char → Option α} (hf : f [] = none)
    {ls : List String} (h : ∀ l ∈ ls, '\n' ∉ l.toList) :
    (splitAt (· == '\n') (lines ls).toList).filterMap f = ls.filterMap fun l => f l.toList := by
  have hsplit := splitAt_lines h []
  rw [List.append_nil] at hsplit
  rw [hsplit, List.filterMap_append, List.filterMap_map, Function.comp_def]
  simp [splitAt, hf]

/-! ## ASCII letters -/

/-- What holds of all ASCII characters holds of letters and digits. -/
theorem forall_isAlphanum {P : Char → Prop} (h : ∀ n : Fin 128, P (Char.ofNat n)) {c : Char}
    (hc : c.isAlphanum = true) : P c := by
  have hlt : c.toNat < 128 := by
    -- capitals, small letters and digits by their codes
    change (decide (65 ≤ c.val ∧ c.val ≤ 90) || (decide (97 ≤ c.val) && decide (c.val ≤ 122)) ||
      (decide (48 ≤ c.val) && decide (c.val ≤ 57))) = true at hc
    simp only [Bool.or_eq_true, Bool.and_eq_true, decide_eq_true_eq,
      UInt32.le_iff_toNat_le] at hc
    change ((65 ≤ c.toNat ∧ c.toNat ≤ 90) ∨ (97 ≤ c.toNat ∧ c.toNat ≤ 122)) ∨
      (48 ≤ c.toNat ∧ c.toNat ≤ 57) at hc
    omega
  have hn := h ⟨c.toNat, hlt⟩
  rwa [Char.ofNat_toNat] at hn

/-- Of the ranges of capitals only the first has ASCII characters. -/
theorem find?_capitals {n : Nat} (h : n < 128) :
    capitals.find? (·.includes n) = (capitals.take 1).find? (·.includes n) := by
  have hrest : (capitals.drop 1).all (fun r => 128 ≤ r.first) = true := by decide
  have hnone : (capitals.drop 1).find? (·.includes n) = none := by
    rw [List.find?_eq_none]
    intro r hr hincludes
    have hfirst := of_decide_eq_true (List.all_eq_true.mp hrest r hr)
    simp only [LetterRange.includes, Bool.and_eq_true, decide_eq_true_eq] at hincludes
    omega
  rw [← List.take_append_drop 1 capitals, List.find?_append, hnone, Option.or_none]
  rfl

theorem small_of_isAlphanum {c : Char} (h : c.isAlphanum = true) : small c = [c.toLower] := by
  refine forall_isAlphanum (P := fun c => small c = [c.toLower]) (fun n => ?_) h
  have hn : ∀ n : Fin 128, (Char.ofNat n).toNat < 128 := by decide +kernel
  rw [small, find?_capitals (hn n)]
  revert n
  decide +kernel

theorem isAlphanum_toLower {c : Char} (h : c.isAlphanum = true) : c.toLower.isAlphanum = true :=
  forall_isAlphanum (P := fun c => c.isAlphanum = true → c.toLower.isAlphanum = true)
    (by decide +kernel) h h

theorem toUpper_toLower {c : Char} (h : c.isUpper = true) : c.toLower.toUpper = c :=
  forall_isAlphanum (P := fun c => c.isUpper = true → c.toLower.toUpper = c) (by decide +kernel)
    (show (c.isUpper || c.isLower || c.isDigit) = true by simp [h]) h

theorem toLower_of_isLower {c : Char} (h : c.isLower = true) : c.toLower = c :=
  forall_isAlphanum (P := fun c => c.isLower = true → c.toLower = c) (by decide +kernel)
    (show (c.isUpper || c.isLower || c.isDigit) = true by simp [h]) h

theorem toLower_of_isDigit {c : Char} (h : c.isDigit = true) : c.toLower = c :=
  forall_isAlphanum (P := fun c => c.isDigit = true → c.toLower = c) (by decide +kernel)
    (by simp [Char.isAlphanum, h]) h

theorem toUpper_of_isDigit {c : Char} (h : c.isDigit = true) : c.toUpper = c :=
  forall_isAlphanum (P := fun c => c.isDigit = true → c.toUpper = c) (by decide +kernel)
    (by simp [Char.isAlphanum, h]) h

theorem smallAfter_of_isAlphanum (inWord : Bool) {cs : List Char}
    (h : ∀ c ∈ cs, c.isAlphanum = true) : smallAfter inWord cs = cs.map Char.toLower := by
  induction cs generalizing inWord with
  | nil => rfl
  | cons c cs ih =>
    have hc := h c List.mem_cons_self
    have hsigma : c ≠ 'Σ' := by
      rintro rfl
      exact absurd hc (by decide)
    rw [smallAfter, List.map_cons, ih _ fun d hd => h d (List.mem_cons_of_mem c hd),
      small_of_isAlphanum hc, if_neg fun hfinal => hsigma hfinal.1, List.singleton_append]

/-! ## Names -/

/-- The words of a text, with small letters for capitals. -/
def foldedWords (cs : List Char) : List (List Char) := (words cs).map (·.map Char.toLower)

section

variable {name : String}

theorem isAlphanum_of_mem_words (hn : ∀ c ∈ name.toList, (c.isAlphanum || c == '_') = true)
    {w : List Char} (hw : w ∈ words name.toList) {c : Char} (hc : c ∈ w) :
    c.isAlphanum = true := by
  obtain ⟨hmem, hsep⟩ := of_mem_words hw hc
  rcases Bool.or_eq_true_iff.mp (hn c hmem) with h | h
  · exact h
  · rw [beq_iff_eq.mp h] at hsep
    contradiction

theorem hyphenated_eq (hn : ∀ c ∈ name.toList, (c.isAlphanum || c == '_') = true) :
    hyphenated name = String.ofList (['-'].intercalate (foldedWords name.toList)) := by
  have hwords : (words name.toList).map (smallAfter false) = foldedWords name.toList :=
    List.map_congr_left fun w hw =>
      smallAfter_of_isAlphanum false fun c hc => isAlphanum_of_mem_words hn hw hc
  rw [hyphenated, hwords]

theorem isAlphanum_of_mem_foldedWords
    (hn : ∀ c ∈ name.toList, (c.isAlphanum || c == '_') = true) {w : List Char}
    (hw : w ∈ foldedWords name.toList) {c : Char} (hc : c ∈ w) : c.isAlphanum = true := by
  obtain ⟨w', hw', rfl⟩ := List.mem_map.mp hw
  obtain ⟨c', hc', rfl⟩ := List.mem_map.mp hc
  exact isAlphanum_toLower (isAlphanum_of_mem_words hn hw' hc')

theorem of_mem_hyphenated (hn : ∀ c ∈ name.toList, (c.isAlphanum || c == '_') = true) {c : Char}
    (hc : c ∈ (hyphenated name).toList) : c = '-' ∨ c.isAlphanum = true := by
  rw [hyphenated_eq hn, String.toList_ofList] at hc
  rcases mem_of_mem_intercalate hc with hc | ⟨w, hw, hc⟩
  · exact Or.inl (List.mem_singleton.mp hc)
  · exact Or.inr (isAlphanum_of_mem_foldedWords hn hw hc)

theorem splitAt_hyphenated (hn : ∀ c ∈ name.toList, (c.isAlphanum || c == '_') = true) :
    splitAt (· == '-') (hyphenated name).toList = foldedWords name.toList := by
  rw [hyphenated_eq hn, String.toList_ofList]
  refine splitAt_intercalate rfl (by simp [foldedWords, words, wordsAfter_ne_nil]) ?_
  intro w hw c hc
  have halnum := isAlphanum_of_mem_foldedWords hn hw hc
  rw [beq_eq_false_iff_ne]
  rintro rfl
  contradiction

end

/-- Two names are joined to one text exactly if their words are the same but for capitals. -/
theorem hyphenated_eq_iff {a b : String}
    (ha : ∀ c ∈ a.toList, (c.isAlphanum || c == '_') = true)
    (hb : ∀ c ∈ b.toList, (c.isAlphanum || c == '_') = true) :
    hyphenated a = hyphenated b ↔ foldedWords a.toList = foldedWords b.toList := by
  constructor
  · intro h
    rw [← splitAt_hyphenated ha, ← splitAt_hyphenated hb, h]
  · intro h
    rw [hyphenated_eq ha, hyphenated_eq hb, h]

/-! ## Plain names -/

/-- A capital with small letters behind it, or digits. -/
def isPlainWord : List Char → Bool
  | [] => false
  | c :: cs => (c.isUpper && cs.all Char.isLower) || (c :: cs).all Char.isDigit

/-- The text is nothing but words that begin with a capital or are numbers. -/
def isPlain (name : String) : Bool :=
  name.toList.all Char.isAlphanum && (words name.toList).all isPlainWord

def capitalizeFirst : List Char → List Char
  | [] => []
  | c :: cs => c.toUpper :: cs

theorem capitalizeFirst_toLower {w : List Char} (h : isPlainWord w = true) :
    capitalizeFirst (w.map Char.toLower) = w := by
  cases w with
  | nil => rfl
  | cons c cs =>
    simp only [isPlainWord, Bool.or_eq_true, Bool.and_eq_true, List.all_eq_true,
      List.forall_mem_cons] at h
    rcases h with ⟨hc, hcs⟩ | ⟨hc, hcs⟩
    · have htail : cs.map Char.toLower = cs :=
        (List.map_congr_left fun d hd => toLower_of_isLower (hcs d hd)).trans (List.map_id cs)
      rw [List.map_cons, capitalizeFirst, toUpper_toLower hc, htail]
    · have htail : cs.map Char.toLower = cs :=
        (List.map_congr_left fun d hd => toLower_of_isDigit (hcs d hd)).trans (List.map_id cs)
      rw [List.map_cons, capitalizeFirst, toLower_of_isDigit hc, toUpper_of_isDigit hc, htail]

/-- A plain name can be told from its words in small letters. -/
theorem eq_of_foldedWords_eq {a b : String} (ha : isPlain a = true) (hb : isPlain b = true)
    (h : foldedWords a.toList = foldedWords b.toList) : a = b := by
  -- capitals are put back at the front of every word, and no separator has been lost
  have hrestore : ∀ name : String, isPlain name = true →
      ((foldedWords name.toList).map capitalizeFirst).flatten = name.toList := by
    intro name hn
    simp only [isPlain, Bool.and_eq_true, List.all_eq_true] at hn
    have hwords : (foldedWords name.toList).map capitalizeFirst = words name.toList := by
      rw [foldedWords, List.map_map]
      exact (List.map_congr_left fun w hw => capitalizeFirst_toLower (hn.2 w hw)).trans
        (List.map_id _)
    rw [hwords, flatten_words, List.filter_eq_self]
    intro c hc
    have halnum := hn.1 c hc
    simp only [isSeparator, Bool.not_eq_true', Bool.or_eq_false_iff, beq_eq_false_iff_ne]
    refine ⟨⟨?_, ?_⟩, ?_⟩ <;> rintro rfl <;> contradiction
  apply String.ext
  rw [← hrestore a ha, ← hrestore b hb, h]

end IconCompiler.Text
