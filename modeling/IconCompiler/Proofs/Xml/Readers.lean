import IconCompiler.Proofs.Text.Front
import IconCompiler.Xml.Token
import Mathlib.Data.List.TakeWhile

/-!
What the readers of a cursor leave, wherever in a text they start. Only what is left counts here,
and not its place.
-/

namespace IconCompiler.Xml

namespace Cursor

theorem rest_skip (n : Nat) (c : Cursor) : (c.skip n).rest = c.rest.drop n := by
  induction n generalizing c with
  | zero => rfl
  | succ n ih =>
    obtain ⟨rest, p⟩ := c
    cases rest with
    | nil => rfl
    | cons x xs => exact ih ⟨xs, p.after x⟩

theorem span_fst (p : Char → Bool) (c : Cursor) : (c.span p).1 = c.rest.takeWhile p := rfl

theorem rest_span (p : Char → Bool) (c : Cursor) : (c.span p).2.rest = c.rest.dropWhile p := by
  have h : (c.span p).2 = c.skip (c.rest.takeWhile p).length := rfl
  have hsplit := @List.takeWhile_append_dropWhile _ p c.rest
  rw [h, rest_skip]
  exact (congrArg (List.drop _) hsplit).symm.trans List.drop_left

theorem rest_spaces (c : Cursor) : c.spaces.rest = c.rest.dropWhile isSpace := rest_span isSpace c

theorem spaces_of_not_space {c : Cursor} {x : Char} {xs : List Char} (h : c.rest = x :: xs)
    (hx : isSpace x = false) : c.spaces = c := by
  have hrun : c.rest.takeWhile isSpace = [] := by
    rw [h, List.takeWhile_cons, hx]
    rfl
  have hskip : c.spaces = c.skip (c.rest.takeWhile isSpace).length := rfl
  rw [hskip, hrun]
  rfl

theorem rest_spaces_of_not_space {c : Cursor} {x : Char} {xs : List Char} (h : c.rest = x :: xs)
    (hx : isSpace x = false) : c.spaces.rest = x :: xs := by
  rw [spaces_of_not_space h hx, h]

theorem current_cons {c : Cursor} {x : Char} {xs : List Char} (h : c.rest = x :: xs) :
    c.current = .ok x := by
  rw [current, h]

theorem expectChar_cons {c : Cursor} {x : Char} {xs : List Char} (h : c.rest = x :: xs) :
    ∃ c', c'.rest = xs ∧ c.expectChar x = .ok c' := by
  refine ⟨c.skip 1, ?_, ?_⟩
  · rw [rest_skip, h]
    rfl
  · simp [expectChar, current_cons h, bind, Except.bind, pure, Except.pure]

/-- An equals sign without spaces around it. -/
theorem expectEquals_cons {c : Cursor} {x : Char} {xs : List Char} (h : c.rest = '=' :: x :: xs)
    (hx : isSpace x = false) : ∃ c', c'.rest = x :: xs ∧ c.expectEquals = .ok c' := by
  obtain ⟨c₁, h₁, e₁⟩ := expectChar_cons (rest_spaces_of_not_space h (by decide))
  refine ⟨c₁.spaces, rest_spaces_of_not_space h₁ hx, ?_⟩
  simp [expectEquals, e₁, bind, Except.bind, pure, Except.pure]

theorem expectQuote_cons {c : Cursor} {xs : List Char} (h : c.rest = '"' :: xs) :
    ∃ c', c'.rest = xs ∧ c.expectQuote = .ok ('"', c') := by
  refine ⟨c.skip 1, ?_, ?_⟩
  · rw [rest_skip, h]
    rfl
  · simp [expectQuote, current_cons h, bind, Except.bind, pure, Except.pure]

/-! ## Names -/

theorem expectQName_of_some {c : Cursor} {name : List Char} {x : Char} {xs : List Char} {n : QName}
    (h : c.rest = name ++ x :: xs) (hn : ∀ y ∈ name, isNameChar y = true)
    (hx : isNameChar x = false) (hs : splitName? name = some n) :
    ∃ c', c'.rest = x :: xs ∧ c.expectQName = .ok (n, c') := by
  refine ⟨(c.span isNameChar).2, ?_, ?_⟩
  · rw [rest_span, h, Text.dropWhile_append_cons hn hx]
  · have hrun : (c.span isNameChar).1 = name := by
      rw [span_fst, h, Text.takeWhile_append_cons hn hx]
    simp only [expectQName, hrun, hs]

theorem expectQName_of_none {c : Cursor} {name : List Char} {x : Char} {xs : List Char}
    (h : c.rest = name ++ x :: xs) (hn : ∀ y ∈ name, isNameChar y = true)
    (hx : isNameChar x = false) (hs : splitName? name = none) :
    ∃ e, c.expectQName = .error e := by
  have hrun : (c.span isNameChar).1 = name := by
    rw [span_fst, h, Text.takeWhile_append_cons hn hx]
  simp only [expectQName, hrun, hs]
  exact ⟨_, rfl⟩

/-! ## Quoted values -/

/-- What stops the reading of a value in double quotes. -/
def stopsValue (cs : List Char) : Bool := cs.head?.any fun x => x = '"' ∨ x = '<'

theorem charsUntil_append {stops : List Char → Bool} {run : List Char} {x : Char} {xs : List Char}
    (hrun : ∀ y ∈ run, isXmlChar y = true)
    (hgo : ∀ y ∈ run, ∀ ys, stops (y :: ys) = false) (hx : isXmlChar x = true)
    (hstop : stops (x :: xs) = true) (p : Position) :
    ∃ q, charsUntil stops (run ++ x :: xs) p = .ok (run, ⟨x :: xs, q⟩) := by
  induction run generalizing p with
  | nil => exact ⟨p, by simp [charsUntil, hx, hstop]⟩
  | cons y ys ih =>
    obtain ⟨q, hq⟩ := ih (fun z hz => hrun z (List.mem_cons_of_mem y hz))
      (fun z hz => hgo z (List.mem_cons_of_mem y hz)) (p.after y)
    refine ⟨q, ?_⟩
    have hy := hrun y List.mem_cons_self
    have hy' := hgo y List.mem_cons_self (ys ++ x :: xs)
    simp [charsUntil, hy, hy', hq, bind, Except.bind, pure, Except.pure]

theorem charsUntil_error {stops : List Char → Bool} {run : List Char} (xs : List Char)
    (hrun : ∃ y ∈ run, isXmlChar y = false)
    (hgo : ∀ y ∈ run, ∀ ys, stops (y :: ys) = false) (p : Position) :
    ∃ e, charsUntil stops (run ++ xs) p = .error e := by
  induction run generalizing p with
  | nil => simp at hrun
  | cons y ys ih =>
    cases hy : isXmlChar y with
    | false => exact ⟨_, by simp [charsUntil, hy]; rfl⟩
    | true =>
      obtain ⟨z, hz, hbad⟩ := hrun
      have hz' : z ∈ ys := by
        rcases List.mem_cons.mp hz with rfl | hz
        · rw [hy] at hbad
          contradiction
        · exact hz
      obtain ⟨e, he⟩ := ih ⟨z, hz', hbad⟩ (fun w hw => hgo w (List.mem_cons_of_mem y hw))
        (p.after y)
      refine ⟨e, ?_⟩
      have hy' := hgo y List.mem_cons_self (ys ++ xs)
      simp [charsUntil, hy, hy', he, bind, Except.bind]

theorem takeValue_of_xmlChars {c : Cursor} {value xs : List Char}
    (h : c.rest = value ++ '"' :: xs) (hq : '"' ∉ value) (hl : '<' ∉ value)
    (hv : ∀ y ∈ value, isXmlChar y = true) :
    ∃ v c', v.rest = value ∧ c'.rest = xs ∧ c.takeValue '"' = .ok (v, c') := by
  have hgo : ∀ y ∈ value, ∀ ys, stopsValue (y :: ys) = false := fun y hy ys => by
    have h1 : y ≠ '"' := fun e => hq (e ▸ hy)
    have h2 : y ≠ '<' := fun e => hl (e ▸ hy)
    simp [stopsValue, h1, h2]
  have hstop : stopsValue ('"' :: xs) = true := by simp [stopsValue]
  obtain ⟨q, hrun⟩ := charsUntil_append hv hgo (by decide) hstop c.position
  rw [← h] at hrun
  obtain ⟨c', hc', e'⟩ := @expectChar_cons ⟨'"' :: xs, q⟩ '"' xs rfl
  refine ⟨⟨value, c.position⟩, c', rfl, hc', ?_⟩
  have htake : c.takeUntil stopsValue = .ok (value, ⟨'"' :: xs, q⟩) := hrun
  unfold takeValue
  unfold stopsValue at htake
  simp only [htake, e', bind, Except.bind, pure, Except.pure]

theorem takeValue_error {c : Cursor} {value : List Char} (xs : List Char)
    (h : c.rest = value ++ '"' :: xs) (hq : '"' ∉ value) (hl : '<' ∉ value)
    (hv : ∃ y ∈ value, isXmlChar y = false) : ∃ e, c.takeValue '"' = .error e := by
  have hgo : ∀ y ∈ value, ∀ ys, stopsValue (y :: ys) = false := fun y hy ys => by
    have h1 : y ≠ '"' := fun e => hq (e ▸ hy)
    have h2 : y ≠ '<' := fun e => hl (e ▸ hy)
    simp [stopsValue, h1, h2]
  obtain ⟨e, hrun⟩ := charsUntil_error ('"' :: xs) hv hgo c.position
  rw [← h] at hrun
  have htake : c.takeUntil stopsValue = .error e := hrun
  unfold takeValue
  unfold stopsValue at htake
  simp only [htake, bind, Except.bind]
  exact ⟨e, rfl⟩

end Cursor

end IconCompiler.Xml
