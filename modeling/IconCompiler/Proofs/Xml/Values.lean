import IconCompiler.Proofs.Xml.Printed
import IconCompiler.Xml.Document

/-!
Reading back a value that was printed. White space in it becomes spaces, a line end of two
characters one space; all other characters come back, the escaped ones included.
-/

namespace IconCompiler.Xml

/-- What a printed value reads as. -/
def blankedChars : List Char → List Char
  | [] => []
  | c :: cs =>
    if c = '\r' ∧ cs.head? = some '\n' then blankedChars cs else blanked c :: blankedChars cs

def blankedText (s : String) : String := String.ofList (blankedChars s.toList)

/-- A character is printed as itself, or as a reference to an entity that every document has. -/
theorem escape_cases (c : Char) :
    (Markup.escape c = [c] ∧ c ≠ '&') ∨
      ∃ y name, Markup.escape c = '&' :: y :: (name ++ [';']) ∧ y ≠ '#' ∧
        isNameStart y = true ∧ (y :: name).all isNameChar = true ∧
        standardEntities.lookup (String.ofList (y :: name)) = some c ∧
        blanked c = c ∧ c ≠ '\r' ∧ c ≠ '\n' := by
  unfold Markup.escape
  split
  · exact Or.inr ⟨'a', ['m', 'p'], by decide⟩
  · exact Or.inr ⟨'l', ['t'], by decide⟩
  · exact Or.inr ⟨'g', ['t'], by decide⟩
  · exact Or.inr ⟨'q', ['u', 'o', 't'], by decide⟩
  · rename_i h _ _ _
    exact Or.inl ⟨rfl, h⟩

theorem reference?_standard {c : Cursor} {y d : Char} {name rest : List Char}
    (h : c.rest = '&' :: y :: (name ++ ';' :: rest)) (hy : y ≠ '#') (hs : isNameStart y = true)
    (hn : ∀ x ∈ y :: name, isNameChar x = true)
    (hd : standardEntities.lookup (String.ofList (y :: name)) = some d) :
    ∃ after : Cursor, after.rest = rest ∧
      reference? c = some (.character d c.position, after) := by
  have hhex : c.startsWith "&#x" = false := by
    simp [Cursor.startsWith, h, List.isPrefixOf, Ne.symm hy]
  have hcode : c.startsWith "&#" = false := by
    simp [Cursor.startsWith, h, List.isPrefixOf, Ne.symm hy]
  have hskip : (c.skip 1).rest = y :: name ++ ';' :: rest := by
    rw [Cursor.rest_skip, h]
    rfl
  have hrun : ((c.skip 1).span isNameChar).1 = y :: name := by
    rw [Cursor.span_fst, hskip, Text.takeWhile_append_cons hn (by decide)]
  have hafter : ((c.skip 1).span isNameChar).2.rest = ';' :: rest := by
    rw [Cursor.rest_span, hskip, Text.dropWhile_append_cons hn (by decide)]
  have hexpect : (c.skip 1).expectName =
      .ok (String.ofList (y :: name), ((c.skip 1).span isNameChar).2) := by
    have hempty : (c.skip 1).rest.isEmpty = false := by rw [hskip]; rfl
    rw [Cursor.expectName, hempty, if_neg Bool.false_ne_true, Cursor.optionalName, hskip]
    simp only [List.cons_append, hs, if_true, hrun]
  have hsemicolon : ((c.skip 1).span isNameChar).2.startsWith ";" = true := by
    simp [Cursor.startsWith, hafter, List.isPrefixOf]
  refine ⟨((c.skip 1).span isNameChar).2.skip 1, by rw [Cursor.rest_skip, hafter]; rfl, ?_⟩
  unfold reference?
  simp only [hhex, hcode, hexpect, hsemicolon, hd, Bool.false_eq_true, if_false, Bool.not_true]

/-- Pieces that stand for these characters, outside entities. -/
structure StandsFor (es : Entities)
    (expand : Cursor → Nesting → Except Error (List Char × Nesting)) (ps : List Piece)
    (v : List Char) : Prop where
  value : valueOf es expand ps .outside = .ok (blankedChars v, .outside)
  startsLine : startsLine ps = decide (v.head? = some '\n')

namespace StandsFor

variable {es : Entities} {expand : Cursor → Nesting → Except Error (List Char × Nesting)}
  {ps : List Piece} {v : List Char}

theorem head?_cons_ne {x : Char} (h : x ≠ '\n') (v : List Char) :
    decide ((x :: v).head? = some '\n') = false := by
  rw [decide_eq_false_iff_not, List.head?_cons, Option.some.injEq]
  exact h

theorem plain (h : StandsFor es expand ps v) (x : Char) :
    StandsFor es expand (.plain x :: ps) (x :: v) := by
  constructor
  · rw [valueOf, h.value]
    simp only [h.startsLine, decide_eq_true_eq, blankedChars, bind, Except.bind, pure, Except.pure]
  · by_cases hx : x = '\n'
    · subst hx
      rfl
    · rw [head?_cons_ne hx]
      unfold Xml.startsLine
      split
      · rename_i heq
        obtain ⟨h1, -⟩ := List.cons.inj heq
        exact absurd (Piece.plain.inj h1) hx
      · rfl

/-- A character that is referred to stands for itself, and ends no line. -/
theorem character (h : StandsFor es expand ps v) {x : Char} (hblank : blanked x = x)
    (hcr : x ≠ '\r') (hlf : x ≠ '\n') (position : Position) :
    StandsFor es expand (.character x position :: ps) (x :: v) := by
  constructor
  · have hdepth : ¬ (0 < Nesting.outside.depth ∧ x = '<') := fun hd => absurd hd.1 (by decide)
    have houtside : Nesting.outside.depth = 0 := rfl
    -- it is no part of a line end, which is what would make two characters one
    have hpair : ¬ (x = '\r' ∧ v.head? = some '\n') := fun hp => hcr hp.1
    rw [valueOf, if_neg hdepth, h.value, blankedChars, if_neg hpair, hblank]
    simp only [houtside, if_true, bind, Except.bind, pure, Except.pure]
  · rw [head?_cons_ne hlf]
    rfl

end StandsFor

theorem standsFor_escapedChars (es : Entities)
    (expand : Cursor → Nesting → Except Error (List Char × Nesting)) (v : List Char) (fuel : Nat)
    (c : Cursor) (h : c.rest = escapedChars v) (hf : (escapedChars v).length < fuel) :
    StandsFor es expand (piecesRest fuel c) v := by
  induction v generalizing fuel c with
  | nil =>
    obtain ⟨fuel, rfl⟩ := Nat.exists_eq_succ_of_ne_zero (Nat.ne_of_gt (Nat.zero_lt_of_lt hf))
    have hnil : c.rest = [] := h
    rw [piecesRest, hnil]
    exact ⟨rfl, rfl⟩
  | cons x v ih =>
    obtain ⟨fuel, rfl⟩ := Nat.exists_eq_succ_of_ne_zero (Nat.ne_of_gt (Nat.zero_lt_of_lt hf))
    rw [escapedChars, List.flatMap_cons] at h hf
    rw [List.length_append] at hf
    -- the character is one piece, whether it was printed as itself or as a reference
    rcases escape_cases x with ⟨he, hx⟩ | ⟨y, name, he, hy, hs, hn, hd, hblank, hcr, hlf⟩
    · rw [he] at h hf
      have hskip : (c.skip 1).rest = escapedChars v := by
        rw [Cursor.rest_skip, h]
        rfl
      have hrest := ih fuel (c.skip 1) hskip (by
        rw [escapedChars]
        simp only [List.length_singleton] at hf
        omega)
      have hpieces : piecesRest (fuel + 1) c = .plain x :: piecesRest fuel (c.skip 1) := by
        rw [piecesRest, h]
        simp only [List.singleton_append, hx, if_false]
      rw [hpieces]
      exact hrest.plain x
    · rw [he] at h hf
      have h' : c.rest = '&' :: y :: (name ++ ';' :: escapedChars v) := by
        rw [h, escapedChars]
        simp
      obtain ⟨after, hafter, hr⟩ := reference?_standard h' hy hs (List.all_eq_true.mp hn) hd
      have hrest := ih fuel after hafter (by
        rw [escapedChars]
        simp only [List.length_cons] at hf
        omega)
      have hpieces : piecesRest (fuel + 1) c =
          .character x c.position :: piecesRest fuel after := by
        rw [piecesRest, h']
        simp only [if_true, hr]
      rw [hpieces]
      exact hrest.character hblank hcr hlf c.position

/-- What a printed value reads as, outside entities. -/
theorem valueIn_escapedChars (es : Entities) (v : List Char) (c : Cursor)
    (h : c.rest = escapedChars v) :
    valueIn es maxDepth c .outside = .ok (blankedChars v, .outside) := by
  have hmax : maxDepth = 10 + 1 := rfl
  rw [hmax, valueIn, pieces]
  exact (standsFor_escapedChars es _ v _ c h (by rw [h]; omega)).value

theorem length_blankedChars_le (cs : List Char) : (blankedChars cs).length ≤ cs.length := by
  induction cs with
  | nil => exact Nat.le_refl _
  | cons c cs ih =>
    rw [blankedChars]
    split
    · rw [List.length_cons]
      omega
    · rw [List.length_cons, List.length_cons]
      omega

theorem blanked_eq_self_iff (c : Char) : blanked c = c ↔ c ≠ '\t' ∧ c ≠ '\n' ∧ c ≠ '\r' := by
  unfold blanked
  split
  · rename_i h
    constructor
    · rintro rfl
      decide
    · rintro ⟨h1, h2, h3⟩
      rcases h with h | h | h <;> contradiction
  · rename_i h
    simpa [not_or] using h

/-- Values without white space other than spaces come back as they are, and no others. -/
theorem blankedChars_eq_self_iff (cs : List Char) :
    blankedChars cs = cs ↔ ∀ c ∈ cs, c ≠ '\t' ∧ c ≠ '\n' ∧ c ≠ '\r' := by
  induction cs with
  | nil => simp [blankedChars]
  | cons c cs ih =>
    rw [List.forall_mem_cons, ← blanked_eq_self_iff, ← ih, blankedChars]
    split
    · rename_i h
      have hlen := length_blankedChars_le cs
      constructor
      · intro he
        have := congrArg List.length he
        rw [List.length_cons] at this
        omega
      · rintro ⟨hc, -⟩
        exact absurd h.1 ((blanked_eq_self_iff c).mp hc).2.2
    · exact List.cons_eq_cons

theorem blankedText_eq_self_iff (s : String) :
    blankedText s = s ↔ ∀ c ∈ s.toList, c ≠ '\t' ∧ c ≠ '\n' ∧ c ≠ '\r' := by
  rw [← blankedChars_eq_self_iff, blankedText]
  constructor
  · intro h
    have hchars := congrArg String.toList h
    rwa [String.toList_ofList] at hchars
  · intro h
    rw [h, String.ofList_toList]

/-- Text that reading gives back as it was written. -/
def IsPlainText (s : String) : Prop :=
  ∀ c ∈ s.toList, isXmlChar c = true ∧ c ≠ '\t' ∧ c ≠ '\n' ∧ c ≠ '\r'

instance (s : String) : Decidable (IsPlainText s) :=
  decidable_of_iff ((s.toList.all fun c =>
    isXmlChar c && (c != '\t' && (c != '\n' && c != '\r'))) = true) (by
      simp only [IsPlainText, List.all_eq_true, Bool.and_eq_true, bne_iff_ne])

theorem isXmlChar_of_printable {c : Char} (h : 0x20 < c.toNat ∧ c.toNat < 0x7F) :
    isXmlChar c = true ∧ c ≠ '\t' ∧ c ≠ '\n' ∧ c ≠ '\r' := by
  have hctrl : ¬ c.toNat < 0x20 := by omega
  refine ⟨?_, ?_, ?_, ?_⟩
  · simp only [isXmlChar, hctrl, if_false, Bool.and_eq_true, bne_iff_ne]
    omega
  all_goals
    rintro rfl
    exact absurd h.1 (by decide)

theorem IsPlainText.blankedText_eq {s : String} (h : IsPlainText s) : blankedText s = s :=
  (blankedText_eq_self_iff s).mpr fun c hc => (h c hc).2

end IconCompiler.Xml
