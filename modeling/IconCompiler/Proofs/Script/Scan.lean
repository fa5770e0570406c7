import IconCompiler.Proofs.Script.Tokens

/-!
Texts cut into tokens piece by piece. A piece may end in a word, whose end only the character behind
it shows; other pieces can be put in front of anything.
-/

namespace IconCompiler.Script

theorem run_append {s s₁ s₂ : State} {a b : List Char} {ts us : List Token}
    (ha : run s a = some (s₁, ts)) (hb : run s₁ b = some (s₂, us)) :
    run s (a ++ b) = some (s₂, ts ++ us) := by
  induction a generalizing s ts with
  | nil =>
    rw [run, Option.some.injEq, Prod.mk.injEq] at ha
    obtain ⟨rfl, rfl⟩ := ha
    exact hb
  | cons c a ih =>
    simp only [run, Option.bind_eq_bind, Option.bind_eq_some_iff, Prod.exists, Option.pure_def,
      Option.some.injEq, Prod.mk.injEq] at ha
    obtain ⟨s', us', hc, s'', us'', ha, rfl, rfl⟩ := ha
    simp only [List.cons_append, run, hc, ih ha, Option.bind_eq_bind, Option.bind_some,
      Option.pure_def, List.append_assoc]

theorem run_singleton (s : State) (c : Char) : run s [c] = step s c := by
  simp only [run, Option.bind_eq_bind, Option.bind_some, Option.pure_def, List.append_nil]
  cases step s c <;> rfl

/-- The text is these tokens, and none of them can go on behind it. -/
def Scans (cs : List Char) (ts : List Token) : Prop := run .between cs = some (.between, ts)

/-- The text is these tokens if what stands behind it belongs to no word. -/
def ScansApart (cs : List Char) (ts : List Token) : Prop :=
  ∀ c, isWordChar c = false → run .between (cs ++ [c]) = some ((start c).1, ts ++ (start c).2)

theorem tokens?_of_scans {cs : List Char} {ts : List Token} (h : Scans cs ts) :
    tokens? cs = some ts := by
  rw [tokens?, h]

section

variable {a b : List Char} {ts us : List Token}

theorem Scans.nil : Scans [] [] := rfl

theorem Scans.append (ha : Scans a ts) (hb : Scans b us) : Scans (a ++ b) (ts ++ us) :=
  run_append ha hb

theorem Scans.apart (h : Scans a ts) : ScansApart a ts := fun c _ =>
  run_append h (run_singleton .between c)

theorem Scans.append_apart (ha : Scans a ts) (hb : ScansApart b us) :
    ScansApart (a ++ b) (ts ++ us) := by
  intro c hc
  rw [List.append_assoc, List.append_assoc]
  exact run_append ha (hb c hc)

theorem ScansApart.append {c : Char} (ha : ScansApart a ts) (hc : isWordChar c = false)
    (hb : Scans (c :: b) us) : Scans (a ++ c :: b) (ts ++ us) := by
  -- the first character of `b` ends the last word of `a` and begins what it begins on its own
  cases hrun : run (start c).1 b with
  | none => simp [Scans, run, step, hrun] at hb
  | some r =>
    simp only [Scans, run, step, hrun, Option.bind_eq_bind, Option.bind_some, Option.pure_def,
      Option.some.injEq, Prod.mk.injEq] at hb
    obtain ⟨hs, rfl⟩ := hb
    have h := run_append (ha c hc) hrun
    rw [hs, List.append_assoc, List.append_assoc, List.singleton_append] at h
    exact h

end

/-! ## Blanks, words and texts -/

theorem scans_spaces (n : Nat) : Scans (List.replicate n ' ') [] := by
  induction n with
  | zero => rfl
  | succ n ih => exact Scans.append (show Scans [' '] [] from rfl) ih

theorem run_inWord (read : List Char) {cs : List Char} (h : ∀ c ∈ cs, isWordChar c = true) :
    run (.inWord read) cs = some (.inWord (cs.reverse ++ read), []) := by
  induction cs generalizing read with
  | nil => rfl
  | cons c cs ih =>
    have hc := h c List.mem_cons_self
    have hcs := ih (c :: read) fun d hd => h d (List.mem_cons_of_mem c hd)
    simp only [run, step, hc, if_true, hcs, Option.bind_eq_bind, Option.bind_some, Option.pure_def,
      List.reverse_cons, List.append_assoc, List.singleton_append, List.nil_append]

/-- The characters that end a word. -/
def separators : List Char := [' ', '\t', '\n', '\r', '[', ']', '\x7b', '\x7d', ',', ':', '\'']

theorem isWordChar_of_separates {p : Char → Bool} (hp : separators.all (fun d => !p d) = true)
    {c : Char} (h : p c = true) : isWordChar c = true := by
  have hne : ∀ d ∈ separators, c ≠ d := by
    rintro d hd rfl
    have hnot := List.all_eq_true.mp hp c hd
    rw [h] at hnot
    contradiction
  simp only [separators, List.forall_mem_cons] at hne
  simp [isWordChar, isBlank, isMark, hne]

theorem start_of_isWordChar {c : Char} (h : isWordChar c = true) : start c = (.inWord [c], []) := by
  simp only [isWordChar, Bool.and_eq_true, Bool.not_eq_true', bne_iff_ne] at h
  obtain ⟨⟨hblank, hmark⟩, hquote⟩ := h
  simp only [start, hblank, hmark, hquote, Bool.false_eq_true, if_false]

theorem scansApart_word {w : List Char} {t : Token} (hne : w ≠ [])
    (hw : ∀ c ∈ w, isWordChar c = true) (ht : word? w = some t) : ScansApart w [t] := by
  intro d hd
  obtain ⟨c, cs, rfl⟩ := List.exists_cons_of_ne_nil hne
  have hfirst : run .between [c] = some (.inWord [c], []) := by
    rw [run_singleton, step, start_of_isWordChar (hw c List.mem_cons_self)]
  have hrest := run_inWord [c] fun d hd => hw d (List.mem_cons_of_mem c hd)
  have hend : run (.inWord (cs.reverse ++ [c])) [d] = some ((start d).1, t :: (start d).2) := by
    rw [run_singleton, step, if_neg (by simp [hd]), List.reverse_append, List.reverse_reverse,
      List.reverse_singleton, List.singleton_append, ht, Option.map_some]
  have hall := run_append (run_append hfirst hrest) hend
  exact hall

section

variable {quote : Char → List Char}
  (h : ∀ c read, run (.inQuotes read) (quote c) = some (.inQuotes (c :: read), []))

include h

theorem run_inQuotes (read cs : List Char) :
    run (.inQuotes read) (cs.flatMap quote) = some (.inQuotes (cs.reverse ++ read), []) := by
  induction cs generalizing read with
  | nil => rfl
  | cons c cs ih =>
    rw [List.flatMap_cons, List.reverse_cons, List.append_assoc, List.singleton_append]
    exact run_append (h c read) (ih (c :: read))

/-- A text whose characters are each quoted in a way that reads as that character. -/
theorem scans_quoted (s : String) :
    Scans ('\'' :: s.toList.flatMap quote ++ ['\'']) [.text s] := by
  have hopen : run .between ['\''] = some (.inQuotes [], []) := rfl
  have hclose : run (.inQuotes s.toList.reverse) ['\''] = some (.between, [.text s]) := by
    rw [run_singleton, step, if_pos rfl, List.reverse_reverse, String.ofList_toList]
  have hinside := run_inQuotes h [] s.toList
  rw [List.append_nil] at hinside
  exact run_append (run_append hopen hinside) hclose

end

end IconCompiler.Script
