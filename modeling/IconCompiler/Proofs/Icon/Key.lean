import IconCompiler.Proofs.Icon.AttributeName
import IconCompiler.Proofs.Xml.Resolved
import IconCompiler.Proofs.Xml.Names
import Mathlib.Data.List.Basic

/-!
Keys of attributes. A key is the folded form of a name that was read, and its unfolded form is a
name that can be read again unless it has a qualifier other than `xml`.
-/

namespace IconCompiler.AttributeName

open Xml

/-- The folded name of an attribute that declares no namespace. -/
def IsKey (key : String) : Prop :=
  ∃ n : QName, n.IsProper ∧ n.localPart ≠ "xmlns" ∧ ¬ "xmlns".toList <+: n.written.toList ∧
    fold n.written = key

/-- A key without a qualifier, or with the one that needs no declaration. -/
def IsPortable (key : String) : Prop := ':' ∉ key.toList ∨ "xml:".toList <+: key.toList

theorem toList_fold (name : String) : (fold name).toList = foldChars name.toList :=
  String.toList_ofList

theorem foldChars_append_colon (front back : List Char) :
    foldChars (front ++ ':' :: back) = foldChars front ++ ':' :: foldChars back := by
  have hcolon : foldChars (':' :: back) = ':' :: foldChars back :=
    foldChars_cons_of_ne (by decide) back
  induction front using foldChars.induct with
  | case1 d ds hd ih =>
    rw [foldChars_hyphen_lower hd, List.cons_append, List.cons_append, foldChars_hyphen_lower hd,
      ih, List.cons_append]
  | case2 d ds hd ih =>
    rw [foldChars, if_neg hd, List.cons_append, List.cons_append, foldChars, if_neg hd,
      ← List.cons_append, ih, List.cons_append]
  | case3 d ds hd ih =>
    by_cases hhyphen : d = '-'
    · -- a hyphen that is followed by something is the concern of the first two cases
      have hds : ds = [] := by
        cases ds with
        | nil => rfl
        | cons x xs => exact absurd rfl (hd x xs hhyphen)
      rw [hhyphen, hds, List.cons_append, List.nil_append, foldChars_hyphen (by simp), hcolon]
      rfl
    · rw [foldChars_cons_of_ne hhyphen, List.cons_append, foldChars_cons_of_ne hhyphen, ih,
        List.cons_append]
  | case4 => exact hcolon

theorem colon_not_mem_foldChars {cs : List Char} (h : ':' ∉ cs) : ':' ∉ foldChars cs := by
  intro hc
  rcases of_mem_foldChars hc with hc | hc
  · exact h hc
  · contradiction

theorem isNameChar_of_isUpper {c : Char} (h : c.isUpper = true) : isNameChar c = true := by
  obtain ⟨i, rfl⟩ := exists_of_isUpper h
  revert i
  decide

theorem isNameChar_of_isLower {c : Char} (h : c.isLower = true) : isNameChar c = true := by
  obtain ⟨i, rfl⟩ := exists_of_isLower h
  revert i
  decide

theorem head_foldChars_of_isNameStart {x : Char} {xs : List Char} (h : isNameStart x = true) :
    foldChars (x :: xs) = x :: foldChars xs := by
  refine foldChars_cons_of_ne ?_ xs
  rintro rfl
  contradiction

theorem isPart_foldChars {cs : List Char} (h : IsPart cs) : IsPart (foldChars cs) := by
  obtain ⟨x, xs, hcons, hx⟩ := h.start
  refine ⟨⟨x, foldChars xs, by rw [hcons, head_foldChars_of_isNameStart hx], hx⟩, ?_,
    colon_not_mem_foldChars h.noColon⟩
  intro c hc
  rcases of_mem_foldChars hc with hc | hc
  · exact h.chars c hc
  · exact isNameChar_of_isUpper hc

/-- Without capitals, nothing else folds to a name. -/
theorem eq_of_foldChars_eq {cs ds : List Char} (hu : ds.any Char.isUpper = false)
    (h : foldChars cs = ds) : cs = ds := by
  obtain ⟨es, rfl, hes⟩ := exists_of_foldChars_eq_append (h.trans (List.append_nil ds).symm) hu
  cases es with
  | nil => exact List.append_nil ds
  | cons x xs =>
    rcases foldChars_cons x xs with e | ⟨y, ys, -, -, -, e⟩
    · exact absurd (e.symm.trans hes) (List.cons_ne_nil _ _)
    · exact absurd (e.symm.trans hes) (List.cons_ne_nil _ _)

/-! ## The unfolded name of a key -/

namespace IsKey

variable {key : String}

theorem fold_self (h : IsKey key) : fold key = key := by
  obtain ⟨n, -, -, -, rfl⟩ := h
  exact fold_fold n.written

theorem isNameText (h : IsKey key) : IsNameText (unfold key) := by
  obtain ⟨n, hn, -, -, rfl⟩ := h
  intro c hc
  rcases of_mem_unfold hc with hc | rfl | hc
  · rw [toList_fold] at hc
    rcases of_mem_foldChars hc with hc | hc
    · exact hn.isNameChar_of_mem c hc
    · exact isNameChar_of_isUpper hc
  · decide
  · exact isNameChar_of_isLower hc

theorem start (h : IsKey key) :
    ∃ x xs, (unfold key).toList = x :: xs ∧ isNameStart x = true ∧ x ≠ ':' := by
  obtain ⟨n, hn, -, -, rfl⟩ := h
  obtain ⟨x, xs, hcons, hx, hcolon⟩ := hn.start
  have hhead : (unfold (fold n.written)).toList.head? = some x := by
    rw [head_unfold, toList_fold, hcons, head_foldChars_of_isNameStart hx]
    rfl
  obtain ⟨ys, hys⟩ := List.head?_eq_some_iff.mp hhead
  exact ⟨x, ys, hys, hx, hcolon⟩

/-- A key whose unfolded name starts with an `x` is spelled as it is. -/
theorem unfold_of_isPrefix {front : String} (hx : front.toList.head? = some 'x')
    (hp : front.toList <+: (unfold key).toList) : unfold key = key := by
  apply unfold_of_head_x
  rw [← head_unfold]
  obtain ⟨rest, hrest⟩ := hp
  rw [← hrest, List.head?_append, hx, Option.some_or]

/-- Folding makes no declaration of a namespace out of another name. -/
theorem not_declares (h : IsKey key) : ¬ "xmlns".toList <+: key.toList := by
  rintro ⟨rest, hrest⟩
  obtain ⟨n, -, -, hn, rfl⟩ := h
  rw [toList_fold] at hrest
  obtain ⟨ds, hds, -⟩ := exists_of_foldChars_eq_append hrest.symm (by decide)
  exact hn ⟨ds, hds.symm⟩

theorem undeclared (h : IsKey key) : ¬ "xmlns".toList <+: (unfold key).toList := by
  intro hp
  rw [unfold_of_isPrefix (by rfl) hp] at hp
  exact h.not_declares hp

theorem not_ends_xmlns (h : IsKey key) (front : List Char) :
    (unfold key).toList ≠ front ++ ':' :: "xmlns".toList := by
  intro hw
  have hkey := fold_unfold h.fold_self
  obtain ⟨n, hn, hlocal, -, rfl⟩ := h
  have hfold : foldChars n.written.toList = foldChars front ++ ':' :: "xmlns".toList := by
    have hchars := congrArg String.toList hkey
    rw [toList_fold, hw, foldChars_append_colon, toList_fold] at hchars
    exact hchars.symm
  -- folding keeps colons, so the name that was folded ends in the same part
  by_cases hq : n.qualifier = ""
  · rw [QName.toList_written_of_empty hq] at hfold
    have hmem : ':' ∈ foldChars n.localPart.toList := by
      rw [hfold]
      simp
    exact colon_not_mem_foldChars hn.localPart.noColon hmem
  · rw [QName.toList_written_of_qualifier hq, foldChars_append_colon] at hfold
    obtain ⟨-, -, hback⟩ := (List.append_cons_inj_of_notMem
      (colon_not_mem_foldChars (hn.isPart_qualifier hq).noColon)
      (colon_not_mem_foldChars hn.localPart.noColon)).mp hfold
    exact hlocal (String.toList_inj.mp (eq_of_foldChars_eq (by decide) hback))

/-- The parts of the unfolded name declare no namespace. -/
theorem of_split (h : IsKey key) {m : QName}
    (hs : Cursor.splitName? (unfold key).toList = some m) :
    m.written = unfold key ∧ m.qualifier ≠ "xmlns" ∧ m.localPart ≠ "xmlns" := by
  have hwritten : (unfold key).toList = m.written.toList := by
    rcases (Cursor.of_splitName? h.isNameText hs).2 with hw | hw
    · exact hw
    · obtain ⟨x, xs, hcons, -, hx⟩ := h.start
      exact absurd (List.cons.inj (hcons.symm.trans hw)).1 hx
  refine ⟨String.toList_inj.mp hwritten.symm, fun hq => ?_, fun hl => ?_⟩
  · have hne : m.qualifier ≠ "" := by
      rw [hq]
      decide
    rw [QName.toList_written_of_qualifier hne, hq] at hwritten
    exact h.undeclared ⟨_, hwritten.symm⟩
  · by_cases hq : m.qualifier = ""
    · rw [QName.toList_written_of_empty hq, hl] at hwritten
      exact h.undeclared ⟨[], by rw [hwritten, List.append_nil]⟩
    · rw [QName.toList_written_of_qualifier hq, hl] at hwritten
      exact h.not_ends_xmlns m.qualifier.toList hwritten

theorem colon_mem_unfold (key : String) : ':' ∈ (unfold key).toList ↔ ':' ∈ key.toList := by
  constructor
  · intro hc
    rcases of_mem_unfold hc with hc | hc | hc
    · exact hc
    · contradiction
    · contradiction
  · exact fun hc => mem_unfold_of_not_isUpper hc (by decide)

theorem isPortable_of_split (h : IsKey key) {m : QName}
    (hs : Cursor.splitName? (unfold key).toList = some m)
    (hq : m.qualifier = "" ∨ m.qualifier = "xml") : IsPortable key := by
  have hm := (Cursor.of_splitName? h.isNameText hs).1
  have hwritten := (h.of_split hs).1
  rcases hq with hq | hq
  · left
    intro hc
    apply hm.localPart.noColon
    rw [← QName.toList_written_of_empty hq, hwritten]
    exact (colon_mem_unfold key).mpr hc
  · have hne : m.qualifier ≠ "" := by
      rw [hq]
      decide
    have hp : "xml:".toList <+: (unfold key).toList := by
      rw [← hwritten, QName.toList_written_of_qualifier hne, hq]
      exact ⟨m.localPart.toList, rfl⟩
    rw [unfold_of_isPrefix (by rfl) hp] at hp
    exact Or.inr hp

theorem exists_split (h : IsKey key) (hp : IsPortable key) :
    ∃ m, Cursor.splitName? (unfold key).toList = some m ∧
      (m.qualifier = "" ∨ m.qualifier = "xml") := by
  rcases hp with hcolon | hp
  · obtain ⟨x, xs, hcons, hx, -⟩ := h.start
    have hpart : IsPart (unfold key).toList :=
      ⟨⟨x, xs, hcons, hx⟩, h.isNameText, fun hc => hcolon ((colon_mem_unfold key).mp hc)⟩
    exact ⟨_, Cursor.splitName?_of_isPart hpart, Or.inl rfl⟩
  · have hhead : key.toList.head? = some 'x' := by
      obtain ⟨rest, hrest⟩ := hp
      rw [← hrest]
      rfl
    -- the unfolded name is the key itself, which has the qualifier that its name had
    rw [unfold_of_head_x hhead]
    obtain ⟨n, hn, -, -, rfl⟩ := h
    obtain ⟨rest, hrest⟩ := hp
    rw [toList_fold] at hrest ⊢
    obtain ⟨ds, hds, hfold⟩ := exists_of_foldChars_eq_append hrest.symm (by decide)
    have hq : n.qualifier ≠ "" := by
      intro hq
      rw [QName.toList_written_of_empty hq] at hds
      apply hn.localPart.noColon
      rw [hds]
      simp
    have hjoin : n.qualifier.toList ++ ':' :: n.localPart.toList = "xml".toList ++ ':' :: ds := by
      rw [← QName.toList_written_of_qualifier hq]
      exact hds
    obtain ⟨-, -, hlocal⟩ := (List.append_cons_inj_of_notMem
      (hn.isPart_qualifier hq).noColon hn.localPart.noColon).mp hjoin
    have hback : IsPart rest := by
      rw [← hfold, ← hlocal]
      exact isPart_foldChars hn.localPart
    have hxml : IsPart "xml".toList := by decide
    rw [← hrest]
    exact ⟨_, Cursor.splitName?_of_colon hxml hback, Or.inr rfl⟩

end IsKey

end IconCompiler.AttributeName
