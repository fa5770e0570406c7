import IconCompiler.Binary64.Printer
import IconCompiler.Binary64.Reader
import Mathlib.Data.List.TakeWhile
import Mathlib.Tactic.Ring

/-!
Decimal digits: what is written as digits reads as the number that it was written for, and digits
around a point read as a whole number over a power of ten.
-/

namespace IconCompiler

namespace Text

theorem readFrom_eq (base start : Nat) (cs : List Char) :
    readFrom base start cs = start * base ^ cs.length + readNat base cs := by
  induction cs generalizing start with
  | nil => simp [readFrom, readNat]
  | cons c cs ih =>
    have hstep : ∀ n, readFrom base n (c :: cs) =
        readFrom base (n * base + (digitValue? base c).getD 0) cs := fun _ => rfl
    rw [readNat, hstep, hstep, ih, ih (0 * base + _), List.length_cons, Nat.pow_succ]
    ring

theorem readNat_append (base : Nat) (xs ys : List Char) :
    readNat base (xs ++ ys) = readNat base xs * base ^ ys.length + readNat base ys := by
  rw [readNat, readFrom, List.foldl_append]
  exact readFrom_eq base _ ys

theorem readNat_zeros (n : Nat) : readNat 10 (List.replicate n '0') = 0 := by
  induction n with
  | zero => rfl
  | succ n ih =>
    rw [List.replicate_succ, show '0' :: List.replicate n '0' = ['0'] ++ List.replicate n '0' from
      rfl, readNat_append, ih]
    simp [readNat, readFrom, digitValue?]

theorem readNat_digitChar {n : Nat} (h : n < 10) : readNat 10 [n.digitChar] = n := by
  have hall : ∀ m : Fin 10, readNat 10 [m.val.digitChar] = m.val := by decide
  exact hall ⟨n, h⟩

theorem readNat_toDigits (n : Nat) : readNat 10 (Nat.toDigits 10 n) = n := by
  induction n using Nat.strongRecOn with
  | ind n ih =>
    by_cases h : n < 10
    · rw [Nat.toDigits_of_lt_base h, readNat_digitChar h]
    · have hdiv : n / 10 < n := by omega
      rw [Nat.toDigits_of_base_le (by decide) (Nat.le_of_not_lt h), readNat_append, ih _ hdiv,
        readNat_digitChar (Nat.mod_lt n (by decide))]
      simp only [List.length_singleton, Nat.pow_one]
      omega

theorem isDigit_of_mem_toDigits {n : Nat} {c : Char} (h : c ∈ Nat.toDigits 10 n) :
    isDigit c = true := by
  have hd := Nat.isDigit_of_mem_toDigits (by decide) (Nat.le_refl 10) h
  simpa [isDigit, Char.isDigit, Char.le_def] using hd

/-- A text without the zeros at its end. -/
theorem exists_dropped_zeros (cs : List Char) :
    ∃ n, cs = (cs.reverse.dropWhile (· == '0')).reverse ++ List.replicate n '0' := by
  refine ⟨(cs.reverse.takeWhile (· == '0')).length, ?_⟩
  have hzeros : cs.reverse.takeWhile (· == '0') =
      List.replicate (cs.reverse.takeWhile (· == '0')).length '0' := by
    refine List.eq_replicate_iff.mpr ⟨rfl, fun c hc => ?_⟩
    simpa using List.mem_takeWhile_imp hc
  rw [← List.reverse_replicate, ← hzeros, ← List.reverse_append, List.takeWhile_append_dropWhile,
    List.reverse_reverse]

end Text

namespace Binary64

open Text

/-! ## Reading digits -/

theorem readDigits?_fraction (negative : Bool) (whole fraction : List Char)
    (hne : whole ≠ []) (hw : ∀ c ∈ whole, isDigit c = true)
    (hf : ∀ c ∈ fraction, isDigit c = true) :
    readDigits? negative (if fraction.isEmpty then whole else whole ++ '.' :: fraction) =
      some ⟨negative, whole ++ fraction, -(fraction.length : Int)⟩ := by
  have htake : ∀ rest, (whole ++ rest).takeWhile isDigit = whole ++ rest.takeWhile isDigit :=
    fun rest => List.takeWhile_append_of_pos hw
  have hdrop : ∀ rest, (whole ++ rest).dropWhile isDigit = rest.dropWhile isDigit :=
    fun rest => List.dropWhile_append_of_pos hw
  have hftake : fraction.takeWhile isDigit = fraction := List.takeWhile_eq_self_iff.mpr hf
  have hfdrop : fraction.dropWhile isDigit = [] := List.dropWhile_eq_nil_iff.mpr hf
  have hpoint : isDigit '.' = false := by decide
  cases fraction with
  | nil =>
    have h1 := htake []
    have h2 := hdrop []
    rw [List.append_nil] at h1 h2
    simp [readDigits?, h1, h2, hne, readTail?]
  | cons d ds =>
    simp [readDigits?, htake, hdrop, hpoint, hftake, hfdrop, readTail?]

end Binary64

end IconCompiler
