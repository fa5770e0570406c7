import IconCompiler.Proofs.Xml.Readers

/-!
Names with a qualifier. The parts of a name that has been split are names without a colon, and
writing such parts with a colon between them gives a name that splits into them again.
-/

namespace IconCompiler.Xml

/-- A name without a colon. -/
structure IsPart (cs : List Char) : Prop where
  start : ∃ x xs, cs = x :: xs ∧ isNameStart x = true
  chars : ∀ c ∈ cs, isNameChar c = true
  noColon : ':' ∉ cs

theorem isPart_iff (cs : List Char) : IsPart cs ↔
    cs.head?.any isNameStart = true ∧ cs.all isNameChar = true ∧ cs.contains ':' = false := by
  rw [List.all_eq_true, List.contains_eq_mem, decide_eq_false_iff_not, Option.any_eq_true]
  constructor
  · rintro ⟨⟨x, xs, rfl, hx⟩, hchars, hcolon⟩
    exact ⟨⟨x, rfl, hx⟩, hchars, hcolon⟩
  · rintro ⟨⟨x, hhead, hx⟩, hchars, hcolon⟩
    obtain ⟨xs, hcons⟩ := List.head?_eq_some_iff.mp hhead
    exact ⟨⟨x, xs, hcons, hx⟩, hchars, hcolon⟩

instance (cs : List Char) : Decidable (IsPart cs) := decidable_of_iff _ (isPart_iff cs).symm

/-- A name that has both parts, or one part and no colon. -/
structure QName.IsProper (n : QName) : Prop where
  localPart : IsPart n.localPart.toList
  qualifier : n.qualifier = "" ∨ IsPart n.qualifier.toList

theorem isNameChar_colon : isNameChar ':' = true := by decide

theorem QName.toList_written (n : QName) :
    n.written.toList = if n.qualifier = "" then n.localPart.toList
      else n.qualifier.toList ++ ':' :: n.localPart.toList := by
  unfold written
  by_cases h : n.qualifier = ""
  · rw [if_pos h, h]
    rfl
  · have hempty : n.qualifier.isEmpty = false := by
      rw [Bool.eq_false_iff, ne_eq, String.isEmpty_iff]
      exact h
    rw [hempty, if_neg h, if_neg Bool.false_ne_true, String.toList_append, String.toList_append,
      List.append_assoc]
    rfl

theorem QName.toList_written_of_qualifier {n : QName} (h : n.qualifier ≠ "") :
    n.written.toList = n.qualifier.toList ++ ':' :: n.localPart.toList := by
  rw [toList_written, if_neg h]

theorem QName.toList_written_of_empty {n : QName} (h : n.qualifier = "") :
    n.written.toList = n.localPart.toList := by
  rw [toList_written, if_pos h]

namespace QName.IsProper

variable {n : QName}

theorem isPart_qualifier (h : n.IsProper) (hq : n.qualifier ≠ "") : IsPart n.qualifier.toList :=
  h.qualifier.resolve_left hq

theorem isNameChar_of_mem (h : n.IsProper) : ∀ c ∈ n.written.toList, isNameChar c = true := by
  intro c hc
  by_cases hq : n.qualifier = ""
  · rw [toList_written_of_empty hq] at hc
    exact h.localPart.chars c hc
  · rw [toList_written_of_qualifier hq] at hc
    rcases List.mem_append.mp hc with hc | hc
    · exact (h.isPart_qualifier hq).chars c hc
    · rcases List.mem_cons.mp hc with rfl | hc
      · exact isNameChar_colon
      · exact h.localPart.chars c hc

theorem start (h : n.IsProper) :
    ∃ x xs, n.written.toList = x :: xs ∧ isNameStart x = true ∧ x ≠ ':' := by
  have hpart : ∀ {cs : List Char}, IsPart cs →
      ∃ x xs, cs = x :: xs ∧ isNameStart x = true ∧ x ≠ ':' := by
    intro cs hcs
    obtain ⟨x, xs, rfl, hx⟩ := hcs.start
    refine ⟨x, xs, rfl, hx, ?_⟩
    rintro rfl
    exact hcs.noColon List.mem_cons_self
  by_cases hq : n.qualifier = ""
  · rw [toList_written_of_empty hq]
    exact hpart h.localPart
  · rw [toList_written_of_qualifier hq]
    obtain ⟨x, xs, hcons, hx⟩ := hpart (h.isPart_qualifier hq)
    exact ⟨x, xs ++ ':' :: n.localPart.toList, by rw [hcons]; rfl, hx⟩

end QName.IsProper

namespace Cursor

theorem splitName?_of_isPart {run : List Char} (h : IsPart run) :
    splitName? run = some ⟨"", String.ofList run⟩ := by
  obtain ⟨x, xs, hcons, hx⟩ := h.start
  have hdrop : run.dropWhile (· != ':') = [] :=
    List.dropWhile_eq_nil_iff.mpr (Text.ne_of_not_mem h.noColon)
  have hcolon : run.contains ':' = false := by
    rw [List.contains_eq_mem, decide_eq_false_iff_not]
    exact h.noColon
  have hstart : run.head?.all (!isNameStart ·) = false := by
    rw [hcons, List.head?_cons, Option.all_some, hx]
    rfl
  simp only [splitName?, hdrop, hcolon, hstart, Bool.false_eq_true, if_false, List.head?_nil,
    Option.any_none]

theorem splitName?_of_colon {front back : List Char} (hf : IsPart front) (hb : IsPart back) :
    splitName? (front ++ ':' :: back) = some ⟨String.ofList front, String.ofList back⟩ := by
  have htake : (front ++ ':' :: back).takeWhile (· != ':') = front := Text.takeWhile_ne hf.noColon
  have hdrop : (front ++ ':' :: back).dropWhile (· != ':') = ':' :: back :=
    Text.dropWhile_ne hf.noColon
  have hcolon : back.contains ':' = false := by
    rw [List.contains_eq_mem, decide_eq_false_iff_not]
    exact hb.noColon
  obtain ⟨x, xs, hx, hxstart⟩ := hf.start
  obtain ⟨y, ys, hy, hystart⟩ := hb.start
  have hfront : front.head?.any (!isNameStart ·) = false := by
    rw [hx, List.head?_cons, Option.any_some, hxstart]
    rfl
  have hback : back.head?.all (!isNameStart ·) = false := by
    rw [hy, List.head?_cons, Option.all_some, hystart]
    rfl
  simp only [splitName?, htake, hdrop, hcolon, hfront, hback, Bool.false_eq_true, if_false]

theorem isPart_of_split {cs : List Char} (hchars : ∀ c ∈ cs, isNameChar c = true)
    (hcolon : cs.contains ':' = false) (hstart : cs.head?.all (!isNameStart ·) = false) :
    IsPart cs := by
  refine (isPart_iff cs).mpr ⟨?_, List.all_eq_true.mpr hchars, hcolon⟩
  cases cs with
  | nil => exact absurd hstart (by simp)
  | cons x xs => simpa using hstart

theorem isProper_of_parts {front back : List Char}
    (hfront : ∀ c ∈ front, isNameChar c = true ∧ c ≠ ':')
    (hstart : front.head?.any (!isNameStart ·) = false) (hback : IsPart back) :
    (QName.mk (String.ofList front) (String.ofList back)).IsProper := by
  refine ⟨by rw [String.toList_ofList]; exact hback, ?_⟩
  cases front with
  | nil => exact Or.inl rfl
  | cons x xs =>
    rw [List.head?_cons, Option.any_some, Bool.not_eq_false'] at hstart
    rw [String.toList_ofList]
    exact Or.inr
      ⟨⟨x, xs, rfl, hstart⟩, fun c hc => (hfront c hc).1, fun hc => (hfront ':' hc).2 rfl⟩

theorem eq_written_of_parts (front back : List Char) :
    front ++ ':' :: back = (QName.mk (String.ofList front) (String.ofList back)).written.toList ∨
      front ++ ':' :: back =
        ':' :: (QName.mk (String.ofList front) (String.ofList back)).written.toList := by
  cases front with
  | nil =>
    -- nothing in front of the colon is no qualifier, and the colon is not written again
    rw [QName.toList_written_of_empty rfl, String.toList_ofList]
    exact Or.inr rfl
  | cons x xs =>
    have hne : String.ofList (x :: xs) ≠ "" := by
      intro hempty
      have hchars := congrArg String.toList hempty
      rw [String.toList_ofList] at hchars
      exact List.cons_ne_nil x xs hchars
    rw [QName.toList_written_of_qualifier hne, String.toList_ofList, String.toList_ofList]
    exact Or.inl rfl

/-- The parts of a run of characters of names. -/
theorem of_splitName? {run : List Char} {n : QName} (hrun : ∀ c ∈ run, isNameChar c = true)
    (h : splitName? run = some n) :
    n.IsProper ∧ (run = n.written.toList ∨ run = ':' :: n.written.toList) := by
  have hjoin := List.takeWhile_append_dropWhile (p := (· != ':')) (l := run)
  have hfront : ∀ c ∈ run.takeWhile (· != ':'), isNameChar c = true ∧ c ≠ ':' := by
    intro c hc
    have hne := List.mem_takeWhile_imp hc
    rw [bne_iff_ne] at hne
    exact ⟨hrun c (List.takeWhile_subset _ hc), hne⟩
  simp only [splitName?] at h
  cases hdrop : run.dropWhile (· != ':') with
  | nil =>
    -- without a colon all of it is the local part
    simp only [hdrop, List.head?_nil, Option.any_none, Bool.false_eq_true, if_false,
      Option.ite_none_left_eq_some, Bool.not_eq_true, Option.some.injEq] at h
    obtain ⟨hcolon, hstart, rfl⟩ := h
    have hpart := isPart_of_split hrun hcolon hstart
    refine ⟨⟨by rw [String.toList_ofList]; exact hpart, Or.inl rfl⟩, Or.inl ?_⟩
    rw [QName.toList_written_of_empty rfl, String.toList_ofList]
  | cons x back =>
    -- the first colon parts the qualifier from the local part
    simp only [hdrop, Option.ite_none_left_eq_some, Bool.not_eq_true, Option.some.injEq] at h
    obtain ⟨hcolon, hqualifier, hstart, rfl⟩ := h
    have hx : x = ':' := by
      have hhead := List.head?_dropWhile_not (· != ':') run
      rw [hdrop, List.head?_cons] at hhead
      exact bne_eq_false_iff_eq.mp hhead
    rw [hdrop, hx] at hjoin
    have hchars : ∀ c ∈ back, isNameChar c = true := by
      intro c hc
      apply hrun
      rw [← hjoin]
      exact List.mem_append_right _ (List.mem_cons_of_mem _ hc)
    have hwritten := eq_written_of_parts (run.takeWhile (· != ':')) back
    rw [hjoin] at hwritten
    exact ⟨isProper_of_parts hfront hqualifier (isPart_of_split hchars hcolon hstart), hwritten⟩

end Cursor

end IconCompiler.Xml
