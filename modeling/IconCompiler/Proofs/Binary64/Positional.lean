import IconCompiler.Proofs.Binary64.RoundTrip

/-!
The shape of a number in positional notation: no needless zeros in front, and a point only between
digits.
-/

namespace IconCompiler

namespace Text

theorem head_toDigits {n : Nat} (h : n ≠ 0) : ∃ c cs, Nat.toDigits 10 n = c :: cs ∧ c ≠ '0' := by
  induction n using Nat.strongRecOn with
  | ind n ih =>
    by_cases hlt : n < 10
    · have hall : ∀ m : Fin 10, m.val ≠ 0 → m.val.digitChar ≠ '0' := by decide
      exact ⟨_, [], Nat.toDigits_of_lt_base hlt, hall ⟨n, hlt⟩ h⟩
    · obtain ⟨c, cs, hcs, hc⟩ := ih (n / 10) (by omega) (by omega)
      rw [Nat.toDigits_of_base_le (by decide) (Nat.le_of_not_lt hlt), hcs]
      exact ⟨c, _, rfl, hc⟩

end Text

namespace Binary64

open Text

/-- A zero in front stands alone or before the point. -/
theorem Decimal.lead (d : Decimal) :
    ∃ c cs, d.positional = c :: cs ∧ (c = '0' → cs = [] ∨ ∃ ds, cs = '.' :: ds) := by
  by_cases hpower : 0 ≤ d.power
  · rw [Decimal.positional, if_pos hpower]
    by_cases hzero : d.significand = 0
    · exact ⟨'0', [], by simp [hzero], fun _ => Or.inl rfl⟩
    · obtain ⟨c, cs, hcs, hc⟩ := head_toDigits hzero
      rw [if_neg hzero, hcs]
      exact ⟨c, _, rfl, fun h => absurd h hc⟩
  · rw [Decimal.positional, if_neg hpower]
    obtain ⟨places, hplaces⟩ : ∃ places, (-d.power).toNat = places + 1 :=
      ⟨(-d.power).toNat - 1, by omega⟩
    rw [hplaces]
    dsimp only
    by_cases hlong : places + 1 < (Nat.toDigits 10 d.significand).length
    · -- no zeros are put in front, and the first digit is not behind the point
      have hzero : d.significand ≠ 0 := by
        intro h
        have hone : (Nat.toDigits 10 0).length = 1 := by decide
        rw [h, hone] at hlong
        omega
      obtain ⟨c, cs, hcs, hc⟩ := head_toDigits hzero
      rw [hcs] at hlong ⊢
      have hpad : places + 1 + 1 - (c :: cs).length = 0 := by omega
      have htake : (c :: cs).length - (places + 1) = (c :: cs).length - (places + 2) + 1 := by omega
      rw [hpad, List.replicate_zero, List.nil_append, htake, List.take_succ_cons]
      split
      · exact ⟨c, _, rfl, fun h => absurd h hc⟩
      · exact ⟨c, _, rfl, fun h => absurd h hc⟩
    · -- a zero in front of the point is the only digit there
      obtain ⟨n, hn⟩ : ∃ n, places + 1 + 1 - (Nat.toDigits 10 d.significand).length = n + 1 :=
        ⟨places + 1 - (Nat.toDigits 10 d.significand).length, by omega⟩
      have hlen : (List.replicate (n + 1) '0' ++ Nat.toDigits 10 d.significand).length -
          (places + 1) = 1 := by
        rw [List.length_append, List.length_replicate]
        omega
      rw [hn, hlen, List.replicate_succ, List.cons_append, List.take_succ_cons, List.take_zero]
      split
      · exact ⟨'0', [], rfl, fun _ => Or.inl rfl⟩
      · exact ⟨'0', _, rfl, fun _ => Or.inr ⟨_, rfl⟩⟩

end Binary64

end IconCompiler
