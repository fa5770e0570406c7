import IconCompiler.Text.Search
import Mathlib.Algebra.Ring.Nat
import Mathlib.Data.List.Infix

/-!
How often a piece stands in a text. The places are counted from left to right, and may overlap. A
text that no place goes over the end of adds its own places to whatever it stands in front of.
-/

namespace IconCompiler.Text

theorem contains_iff_infix {piece cs : List Char} : contains piece cs = true ↔ piece <:+: cs := by
  induction cs with
  | nil => simp [contains]
  | cons c cs ih =>
    rw [contains, Bool.or_eq_true, List.isPrefixOf_iff_prefix, ih, List.infix_cons_iff]

/-- In how many places of a text a piece stands. -/
def occurrences (piece : List Char) : List Char → Nat
  | [] => 0
  | c :: cs => (if piece.isPrefixOf (c :: cs) then 1 else 0) + occurrences piece cs

/-- The same, unless the text ends in a beginning of the piece. -/
def occurrences? (piece : List Char) : List Char → Option Nat
  | [] => some 0
  | c :: cs =>
    if (c :: cs).isPrefixOf piece then none
    else (occurrences? piece cs).map ((if piece.isPrefixOf (c :: cs) then 1 else 0) + ·)

/-- In how many places of several texts a piece stands. -/
def occurrencesIn (piece : List Char) (texts : List String) : Nat :=
  (texts.map fun s => occurrences piece s.toList).sum

variable {piece a b cs : List Char} {n m : Nat}

theorem occurrences_eq_zero_iff (hp : piece ≠ []) :
    occurrences piece cs = 0 ↔ ¬ piece <:+: cs := by
  induction cs with
  | nil => simp [occurrences, hp]
  | cons c cs ih =>
    rw [occurrences, Nat.add_eq_zero_iff, ih, List.infix_cons_iff, not_or,
      ← List.isPrefixOf_iff_prefix]
    simp

theorem occurrencesIn_append (ss ts : List String) :
    occurrencesIn piece (ss ++ ts) = occurrencesIn piece ss + occurrencesIn piece ts := by
  simp [occurrencesIn]

theorem occurrencesIn_eq_zero_iff (hp : piece ≠ []) {texts : List String} :
    occurrencesIn piece texts = 0 ↔ ∀ s ∈ texts, ¬ piece <:+: s.toList := by
  induction texts with
  | nil => simp [occurrencesIn]
  | cons s texts ih =>
    have hcons : occurrencesIn piece (s :: texts) =
        occurrences piece s.toList + occurrencesIn piece texts := by
      simp [occurrencesIn]
    rw [hcons, Nat.add_eq_zero_iff, occurrences_eq_zero_iff hp, ih, List.forall_mem_cons]

/-! ## Texts in front of others -/

/-- A text with `n` places of a piece, none of which can go over its end. -/
def Adds (piece cs : List Char) (n : Nat) : Prop :=
  ∀ rest, occurrences piece (cs ++ rest) = n + occurrences piece rest

namespace Adds

theorem nil : Adds piece [] 0 := fun rest => by rw [List.nil_append, Nat.zero_add]

theorem append (ha : Adds piece a n) (hb : Adds piece b m) : Adds piece (a ++ b) (n + m) := by
  intro rest
  rw [List.append_assoc, ha, hb, Nat.add_assoc]

theorem behind (ha : Adds piece a 0) (hb : Adds piece b n) : Adds piece (a ++ b) n := by
  simpa using ha.append hb

theorem before (ha : Adds piece a n) (hb : Adds piece b 0) : Adds piece (a ++ b) n := by
  simpa using ha.append hb

theorem occurrences_eq (h : Adds piece cs n) : occurrences piece cs = n := by
  simpa [occurrences] using h []

/-- A text without the first character of a piece. -/
theorem of_not_mem {c : Char} (h : c ∉ cs) : Adds (c :: piece) cs 0 := by
  intro rest
  induction cs with
  | nil => rw [List.nil_append, Nat.zero_add]
  | cons d cs ih =>
    rw [List.mem_cons, not_or] at h
    have hfirst : (c :: piece).isPrefixOf (d :: (cs ++ rest)) = false := by
      simp [List.isPrefixOf, h.1]
    rw [List.cons_append, occurrences, hfirst, ih h.2]
    simp

theorem of_occurrences? (h : occurrences? piece cs = some n) : Adds piece cs n := by
  intro rest
  induction cs generalizing n with
  | nil => rw [← Option.some.inj h, List.nil_append, Nat.zero_add]
  | cons c cs ih =>
    rw [occurrences?] at h
    split at h
    · contradiction
    · rename_i hwhole
      rw [List.isPrefixOf_iff_prefix] at hwhole
      obtain ⟨m, hm, rfl⟩ := Option.map_eq_some_iff.mp h
      -- a place at the first character is over before the text is
      have hfirst : piece.isPrefixOf (c :: (cs ++ rest)) = piece.isPrefixOf (c :: cs) := by
        rw [Bool.eq_iff_iff, List.isPrefixOf_iff_prefix, List.isPrefixOf_iff_prefix]
        constructor
        · intro hp
          exact (List.prefix_or_prefix_of_prefix hp
            (List.prefix_append (c :: cs) rest)).resolve_right hwhole
        · intro hp
          exact hp.trans (List.prefix_append (c :: cs) rest)
      rw [List.cons_append, occurrences, hfirst, ih hm, Nat.add_assoc]

/-- A text that is written out, looked through as the list of its characters. -/
theorem of_ofList {s : String} (hs : s = String.ofList cs) (h : occurrences? piece cs = some n) :
    Adds piece s.toList n := by
  rw [hs, String.toList_ofList]
  exact of_occurrences? h

/-- Texts with others between them that add nothing. -/
theorem intercalate {α : Type} {sep : List Char} (hsep : Adds piece sep 0) {f : α → List Char}
    {count : α → Nat} {as : List α} (h : ∀ a ∈ as, Adds piece (f a) (count a)) :
    Adds piece (sep.intercalate (as.map f)) (as.map count).sum := by
  induction as with
  | nil => exact nil
  | cons a as ih =>
    have ha := h a List.mem_cons_self
    have has := ih fun b hb => h b (List.mem_cons_of_mem a hb)
    cases as with
    | nil => simpa using ha
    | cons b as =>
      simpa [List.intercalate_cons_cons] using ha.append (hsep.append has)

end Adds

end IconCompiler.Text
