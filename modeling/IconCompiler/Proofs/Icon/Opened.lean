import IconCompiler.Proofs.Icon.RoundTrip
import IconCompiler.Proofs.Text.Occurrences

/-!
How often elements are opened in what is printed. A `<` stands nowhere in it but in front of a tag,
since values are escaped, so that the beginning of a tag stands there as often as there are elements
whose names begin in that way. In the document of an icon the outermost element is the only one with
a name that is not among those of the supported elements.
-/

namespace IconCompiler

namespace Xml

open Text

variable {p : List Char}

theorem prefix_append_cons_iff {name rest : List Char} {c : Char} (hc : c ∉ p) :
    p <+: name ++ c :: rest ↔ p <+: name := by
  constructor
  · intro hp
    rcases List.prefix_or_prefix_of_prefix hp (List.prefix_append name (c :: rest)) with h | h
    · exact h
    · obtain ⟨more, rfl⟩ := h
      rw [List.prefix_append_right_inj] at hp
      cases more with
      | nil => simp
      | cons d more =>
        obtain rfl := (List.cons_prefix_cons.mp hp).1
        exact absurd (List.mem_append_right name List.mem_cons_self) hc
  · exact fun hp => hp.trans (List.prefix_append _ _)

/-- A tag begins with a piece exactly if its name does, where the name ends at a character that the
piece does not have. -/
theorem adds_tag {name rest : List Char} {c : Char} (hc : c ∉ p) (hname : '<' ∉ name)
    (hrest : '<' ∉ c :: rest) :
    Adds ('<' :: p) ('<' :: (name ++ c :: rest)) (if p.isPrefixOf name then 1 else 0) := by
  intro more
  have hbehind : Adds ('<' :: p) (name ++ c :: rest) 0 := by
    apply Adds.of_not_mem
    rw [List.mem_append, not_or]
    exact ⟨hname, hrest⟩
  have hfirst : ('<' :: p).isPrefixOf ('<' :: (name ++ c :: rest ++ more)) = p.isPrefixOf name := by
    rw [Bool.eq_iff_iff, List.isPrefixOf_iff_prefix, List.isPrefixOf_iff_prefix,
      List.cons_prefix_cons, List.append_assoc, List.cons_append, prefix_append_cons_iff hc]
    simp
  rw [List.cons_append, occurrences, hfirst, hbehind, Nat.zero_add]

namespace Printed

mutual

/-- How many elements have a name that begins in this way. -/
def opened (p : List Char) : Printed → Nat
  | empty name _ => if p.isPrefixOf name.toList then 1 else 0
  | full name _ cs => (if p.isPrefixOf name.toList then 1 else 0) + forestOpened p cs

def forestOpened (p : List Char) : List Printed → Nat
  | [] => 0
  | pr :: prs => pr.opened p + forestOpened p prs

end

theorem not_mem_of_isNameText {name : String} (h : IsNameText name) : '<' ∉ name.toList :=
  fun hmem => absurd (h '<' hmem) (by decide)

theorem not_mem_attrText {a : String × String} (h : IsNameText a.1) : '<' ∉ attrText a := by
  have hvalue : '<' ∉ escapedChars a.2.toList := fun hmem => (mem_escapedChars_special hmem).2 rfl
  simp [attrText, not_mem_of_isNameText h, hvalue]

/-- A start tag up to its end, which no character of a name can be. -/
theorem adds_startTag (hp : IsPart p) {name : String} {as : List (String × String)}
    (h : Spelled name as) {c : Char} (hc : isNameChar c = false) {rest : List Char}
    (hrest : '<' ∉ c :: rest) :
    Adds ('<' :: p) ('<' :: (name.toList ++ (attrsText as ++ c :: rest)))
      (if p.isPrefixOf name.toList then 1 else 0) := by
  have hname := not_mem_of_isNameText h.1.nameText
  have hattrs : '<' ∉ attrsText as ++ c :: rest := by
    rw [List.mem_append, not_or]
    refine ⟨fun hmem => ?_, hrest⟩
    obtain ⟨a, ha, hmem⟩ := List.mem_flatMap.mp hmem
    exact not_mem_attrText (h.2 a ha) hmem
  -- behind the name there is the blank of an attribute or the end of the tag
  obtain ⟨d, more, hd, hsplit⟩ : ∃ d more, d ∉ p ∧ attrsText as ++ c :: rest = d :: more := by
    cases as with
    | nil => exact ⟨c, rest, fun hmem => by simp [hp.chars c hmem] at hc, rfl⟩
    | cons a as => exact ⟨' ', _, fun hmem => absurd (hp.chars ' ' hmem) (by decide), rfl⟩
  rw [hsplit] at hattrs ⊢
  exact adds_tag hd hname hattrs

theorem adds_endTag (hp : IsPart p) {name : String} (h : IsNameText name) :
    Adds ('<' :: p) ('<' :: '/' :: (name.toList ++ ['>'])) 0 := by
  have hend : '>' ∉ p := fun hmem => absurd (hp.chars '>' hmem) (by decide)
  have hslash : p.isPrefixOf ('/' :: name.toList) = false := by
    obtain ⟨x, xs, rfl, hx⟩ := hp.start
    have hne : x ≠ '/' := by
      rintro rfl
      contradiction
    simp [List.isPrefixOf, hne]
  have hname : '<' ∉ '/' :: name.toList := by simp [not_mem_of_isNameText h]
  have htag : Adds ('<' :: p) ('<' :: ('/' :: name.toList ++ ['>']))
      (if p.isPrefixOf ('/' :: name.toList) then 1 else 0) := adds_tag hend hname (by decide)
  rwa [hslash] at htag

mutual

/-- The beginning of a tag stands in an element as often as elements are opened with it. -/
theorem adds_text (hp : IsPart p) (pr : Printed) (h : pr.Forall Spelled) :
    Adds ('<' :: p) pr.text (pr.opened p) := by
  match pr with
  | empty name as => exact adds_startTag hp h (by decide) (by decide)
  | full name as cs =>
    have hstart : Adds ('<' :: p) ('<' :: (name.toList ++ (attrsText as ++ ['>'])))
        (if p.isPrefixOf name.toList then 1 else 0) := adds_startTag hp h.1 (by decide) (by decide)
    have hall := hstart.append
      ((adds_forestText hp cs h.2).append (adds_endTag hp h.1.1.nameText))
    simpa [text, opened] using hall

theorem adds_forestText (hp : IsPart p) (prs : List Printed) (h : ForestForall Spelled prs) :
    Adds ('<' :: p) (forestText prs) (forestOpened p prs) := by
  match prs with
  | [] => exact Adds.nil
  | pr :: prs => exact (adds_text hp pr h.1).append (adds_forestText hp prs h.2)

end

end Printed

end Xml

namespace Markup

open Text Xml

variable {options : MarkupOptions} {p : List Char}

mutual

theorem opened_printed (h : ∀ e : Element, p.isPrefixOf e.name.toList = false) (n : Node) :
    (printed options n).opened p = 0 := by
  match n with
  | .leaf e as => simp [printed, Printed.opened, h]
  | .branch e as cs => simp [printed, Printed.opened, h, forestOpened_printedForest h cs]

theorem forestOpened_printedForest (h : ∀ e : Element, p.isPrefixOf e.name.toList = false)
    (ns : List Node) : Printed.forestOpened p (printedForest options ns) = 0 := by
  match ns with
  | [] => rfl
  | n :: ns =>
    rw [printedForest, Printed.forestOpened, opened_printed h n, forestOpened_printedForest h ns]

end

/-- A tag that opens none of the supported elements opens at most the document. -/
theorem adds_document (options : MarkupOptions) (hp : IsPart p) (h : ∀ e : Element, p.isPrefixOf e.name.toList = false)
    {icon : Icon} (hkeys : Node.ForestForall (fun a => AttributeName.IsKey a.1) icon) :
    Adds ('<' :: p) (document options icon).toList
      (if p.isPrefixOf "svg".toList then 1 else 0) := by
  have hall := Printed.adds_text hp (printedDocument options icon) (spelled_document hkeys)
  rw [printedDocument, Printed.opened, forestOpened_printedForest h] at hall
  rw [toList_document]
  exact hall

end Markup

end IconCompiler
