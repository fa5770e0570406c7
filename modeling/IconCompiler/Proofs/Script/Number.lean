import IconCompiler.Proofs.Binary64.Positional
import IconCompiler.Proofs.Icon.Value
import IconCompiler.Proofs.Script.Scan
import IconCompiler.Proofs.Text.Front
import IconCompiler.Proofs.Text.Words

/-!
Numbers in a script: the text of a finite number is a decimal there, and is read as that number.
-/

namespace IconCompiler.Script

open Text

theorem ne_of_isDigit {c d : Char} (h : isDigit c = true) (hd : isDigit d = false) : c ≠ d := by
  rintro rfl
  rw [h] at hd
  contradiction

theorem ne_point_of_isDigit {c : Char} (h : isDigit c = true) : (c != '.') = true :=
  bne_iff_ne.mpr (ne_of_isDigit h (by decide))

theorem isDecimal_of_parts {whole fraction : List Char} (hw : isWhole whole = true)
    (hdigits : ∀ c ∈ whole ++ fraction, isDigit c = true) :
    isDecimal (if fraction.isEmpty then whole else whole ++ '.' :: fraction) = true := by
  have hpoint : ∀ c ∈ whole, (c != '.') = true := fun c hc =>
    ne_point_of_isDigit (hdigits c (List.mem_append_left _ hc))
  have hfraction : fraction.all isDigit = true :=
    List.all_eq_true.mpr fun c hc => hdigits c (List.mem_append_right _ hc)
  cases fraction with
  | nil =>
    have htake := List.takeWhile_eq_self_iff.mpr hpoint
    have hdrop := List.dropWhile_eq_nil_iff.mpr hpoint
    simp [isDecimal, htake, hdrop, hw]
  | cons d ds =>
    rw [List.isEmpty_cons, if_neg (by decide), isDecimal, takeWhile_append_cons hpoint rfl,
      dropWhile_append_cons hpoint rfl, hw]
    exact hfraction

theorem isDecimal_positional (d : Binary64.Decimal) : isDecimal d.positional = true := by
  obtain ⟨whole, fraction, h⟩ := d.exists_writtenAs
  obtain ⟨c, cs, hcs, hlead⟩ := d.lead
  obtain ⟨w, ws, rfl⟩ := List.exists_cons_of_ne_nil h.ne_nil
  have hdigits : ∀ x ∈ w :: ws, isDigit x = true := fun x hx =>
    h.digits x (List.mem_append_left _ hx)
  have htail : c = w ∧ ∃ more, cs = ws ++ more := by
    have htext := hcs.symm.trans h.text
    split at htext
    · exact ⟨(List.cons.inj htext).1, [], by simpa using (List.cons.inj htext).2⟩
    · exact ⟨(List.cons.inj htext).1, _, (List.cons.inj htext).2⟩
  obtain ⟨rfl, more, rfl⟩ := htail
  rw [h.text]
  refine isDecimal_of_parts ?_ h.digits
  have hzero : c = '0' → ws = [] := by
    intro hc
    -- a digit behind the leading zero would be neither the end nor the point
    cases ws with
    | nil => rfl
    | cons x ws =>
      have hx := ne_point_of_isDigit (hdigits x (List.mem_cons_of_mem c List.mem_cons_self))
      rcases hlead hc with hnil | ⟨ds, hds⟩
      · contradiction
      · rw [(List.cons.inj hds).1] at hx
        contradiction
  simp only [isWhole, Bool.and_eq_true, List.all_eq_true, Bool.or_eq_true, bne_iff_ne,
    List.isEmpty_iff]
  exact ⟨⟨hdigits c List.mem_cons_self, fun x hx => hdigits x (List.mem_cons_of_mem c hx)⟩,
    (em (c = '0')).symm.imp_right hzero⟩

theorem head_positional (d : Binary64.Decimal) :
    ∃ c cs, d.positional = c :: cs ∧ isDigit c = true := by
  obtain ⟨whole, fraction, h⟩ := d.exists_writtenAs
  obtain ⟨w, ws, rfl⟩ := List.exists_cons_of_ne_nil h.ne_nil
  have hw := h.digits w List.mem_cons_self
  rw [h.text]
  split
  · exact ⟨w, _, rfl, hw⟩
  · exact ⟨w, _, rfl, hw⟩

/-- A finite number is written as a decimal, perhaps with a minus sign in front. -/
theorem exists_print {x : Binary64} (h : x.isFinite = true) :
    ∃ negative : Bool, ∃ d : Binary64.Decimal,
      x.print = (if negative then ['-'] else []) ++ d.positional := by
  cases x with
  | infinite _ | nan => contradiction
  | finite negative m q _ => exact ⟨negative, _, rfl⟩

theorem isWordChar_of_mem_print {x : Binary64} {c : Char} (hc : c ∈ x.print) :
    isWordChar c = true := by
  rcases Binary64.of_mem_print hc with rfl | rfl | h
  · decide
  · decide
  · exact isWordChar_of_separates (p := Char.isAlphanum) rfl h

theorem isAlpha_of_isDigit {c : Char} (h : isDigit c = true) : c.isAlpha = false := by
  have hdigit : c.isDigit = true := by simpa [isDigit, Char.isDigit, Char.le_def] using h
  exact forall_isAlphanum (P := fun c => c.isDigit = true → c.isAlpha = false) (by decide +kernel)
    (by simp [Char.isAlphanum, hdigit]) hdigit

theorem isName_print {x : Binary64} (h : x.isFinite = true) : isName x.print = false := by
  obtain ⟨negative, d, hprint⟩ := exists_print h
  obtain ⟨c, cs, hcs, hc⟩ := head_positional d
  have hfirst : (c.isAlpha || c == '_' || c == '$') = false := by
    simp [isAlpha_of_isDigit hc, ne_of_isDigit hc (d := '_') (by decide),
      ne_of_isDigit hc (d := '$') (by decide)]
  rw [hprint, hcs]
  cases negative with
  | true => rfl
  | false => exact Bool.and_eq_false_imp.mpr fun hstart => absurd hstart (by simp [hfirst])

theorem number?_print {x : Binary64} (h : x.isFinite = true) : number? x.print = some x := by
  obtain ⟨negative, d, hprint⟩ := exists_print h
  obtain ⟨c, cs, hcs, hc⟩ := head_positional d
  have hdecimal := isDecimal_positional d
  have hread := Binary64.read?_print x h
  have hmagnitude : magnitude x.print = d.positional := by
    rw [hprint]
    cases negative with
    | true => rfl
    | false =>
      rw [if_neg (by decide), List.nil_append, hcs]
      unfold magnitude
      split
      · rename_i heq
        rw [(List.cons.inj heq).1] at hc
        contradiction
      · rfl
  rw [number?, hmagnitude, if_pos hdecimal, hread]

/-- A finite number in front of what belongs to no word. -/
theorem scansApart_print {x : Binary64} (h : x.isFinite = true) :
    ScansApart x.print [.number x] := by
  refine scansApart_word ?_ (fun c hc => isWordChar_of_mem_print hc) ?_
  · obtain ⟨negative, d, hprint⟩ := exists_print h
    obtain ⟨c, cs, hcs, -⟩ := head_positional d
    rw [hprint, hcs]
    simp
  · rw [word?, isName_print h, number?_print h]
    rfl

end IconCompiler.Script
