import IconCompiler.Icon.Value
import IconCompiler.Proofs.Binary64.Digits
import Mathlib.Tactic.Positivity

/-!
A finite binary64 number is printed as a text that reads as the same number. What is printed is a
decimal that reads back, and positional notation neither changes its value nor its sign.
-/

namespace IconCompiler

namespace Binary64

open Text

/-! ## The nearest number -/

theorem roundHalfEven_mul (num den k : Nat) (hk : 0 < k) :
    roundHalfEven (num * k) (den * k) = roundHalfEven num den := by
  have hless : ∀ a b : Nat, a * k < b * k ↔ a < b := fun a b => Nat.mul_lt_mul_right hk
  simp only [roundHalfEven, Nat.mul_div_mul_right num den hk, Nat.mul_mod_mul_right, ← mul_assoc,
    hless]

theorem roundHalfEven_mul_self (num den : Nat) (hden : 0 < den) :
    roundHalfEven (num * den) den = num := by
  simp [roundHalfEven, Nat.mul_div_cancel _ hden, hden]

/-- Only the ratio of the two numbers counts. -/
theorem ofFraction_mul (negative : Bool) (num den k : Nat) (hk : 0 < k) :
    ofFraction negative (num * k) (den * k) = ofFraction negative num den := by
  have hcomm : ∀ a b : Nat, a * k * b = a * b * k := fun a b => Nat.mul_right_comm a k b
  simp only [ofFraction, hcomm, Nat.mul_div_mul_right _ den hk, roundHalfEven_mul _ _ k hk]

theorem gridExponent_mul_pow {m q : Nat} (h : CanonicalPair m q) :
    gridExponent (m * 2 ^ q) = q := by
  obtain ⟨hm, -, hq⟩ := h
  have hm' : m < 2 ^ 53 := hm
  unfold gridExponent
  -- the number is on the finest grid, or its significand has all the bits that fit
  rcases hq with rfl | hq
  · rw [Nat.pow_zero, Nat.mul_one]
    by_cases h0 : m = 0
    · simp [h0]
    · have := (Nat.log2_lt h0).mpr hm'
      omega
  · have hq' : 2 ^ 52 ≤ m := hq
    have h0 : m * 2 ^ q ≠ 0 := Nat.mul_ne_zero (by omega) (by positivity)
    have hlow : 52 + q ≤ (m * 2 ^ q).log2 := by
      rw [Nat.le_log2 h0, Nat.pow_add]
      exact Nat.mul_le_mul_right _ hq'
    have hhigh : (m * 2 ^ q).log2 < 53 + q := by
      rw [Nat.log2_lt h0, Nat.pow_add]
      exact Nat.mul_lt_mul_of_pos_right hm' (by positivity)
    omega

/-- A number that is one of the binary64 numbers is the nearest to itself. -/
theorem ofFraction_pair {m q : Nat} (h : CanonicalPair m q) :
    ofFraction false (m * 2 ^ q) (2 ^ 1074) = ofPair false m q := by
  have hpos : 0 < 2 ^ 1074 := by positivity
  have hpow : ∀ n, Nat.pow 2 n = 2 ^ n := fun _ => rfl
  have hround : roundHalfEven (m * 2 ^ q * 2 ^ 1074) (2 ^ 1074 * 2 ^ q) = m := by
    rw [Nat.mul_assoc, Nat.mul_comm (2 ^ q)]
    exact roundHalfEven_mul_self m _ (by positivity)
  simp only [ofFraction, hpow, Nat.mul_div_cancel _ hpos, gridExponent_mul_pow h, hround]

theorem ofDecimal_expansion {m q : Nat} (h : CanonicalPair m q) :
    ofDecimal false (expansion m q).significand (expansion m q).power = ofPair false m q := by
  have hpow : ∀ b n, Nat.pow b n = b ^ n := fun _ _ => rfl
  have hten : ∀ n, 10 ^ n = 2 ^ n * 5 ^ n := fun n => by rw [← Nat.mul_pow]
  rw [← ofFraction_pair h]
  simp only [expansion, numerator, ofDecimal, hpow, Int.neg_neg, Int.toNat_natCast]
  have hnum : m * 2 ^ (q - 1074) * 5 ^ (1074 - q) * 10 ^ (-((1074 - q : Nat) : Int)).toNat =
      m * 2 ^ (q - 1074) * 5 ^ (1074 - q) := by
    have hzero : (-((1074 - q : Nat) : Int)).toNat = 0 := by omega
    rw [hzero, Nat.pow_zero, Nat.mul_one]
  rw [hnum, hten, ofFraction_mul _ _ _ _ (by positivity)]
  have hmin := ofFraction_mul false (m * 2 ^ (q - 1074)) (2 ^ (1074 - q)) (2 ^ min q 1074)
    (by positivity)
  have hnumerator : 2 ^ (q - 1074 + min q 1074) = 2 ^ q := by
    rw [show q - 1074 + min q 1074 = q by omega]
  have hdenominator : 2 ^ (1074 - q + min q 1074) = 2 ^ 1074 := by
    rw [show 1074 - q + min q 1074 = 1074 by omega]
  rw [← hmin, Nat.mul_assoc, ← Nat.pow_add, ← Nat.pow_add, hnumerator, hdenominator]

/-! ## The shortest decimal -/

theorem onGrid?_eq_some {readsBack : Decimal → Bool} {num den : Nat} {power : Int} {d : Decimal}
    (h : onGrid? readsBack num den power = some d) : readsBack d = true := by
  unfold onGrid? at h
  dsimp only at h
  split at h
  · rename_i hbelow habove
    rw [← Option.some.inj h]
    split
    · exact habove
    · exact hbelow
  · rename_i hbelow _
    exact Option.some.inj h ▸ hbelow
  · rename_i _ habove
    exact Option.some.inj h ▸ habove
  · contradiction

theorem readsBack_of_firstHit? {readsBack : Decimal → Bool} {num den count : Nat} {lead : Int}
    {d : Decimal} (h : firstHit? readsBack num den lead count = some d) : readsBack d = true := by
  obtain ⟨k, -, hk⟩ := List.exists_of_findSome?_eq_some h
  exact onGrid?_eq_some hk

theorem shortest_eq (m q : Nat) : shortest m q =
    (firstHit? (fun d => ofDecimal false d.significand d.power == ofPair false m q)
      (numerator m q) (denominator q) (leadingPower (numerator m q) (denominator q)) 17).getD
        (expansion m q) :=
  rfl

theorem ofDecimal_shortest {m q : Nat} (h : CanonicalPair m q) :
    ofDecimal false (shortest m q).significand (shortest m q).power = ofPair false m q := by
  rw [shortest_eq]
  generalize hhit : firstHit? _ _ _ _ _ = hit
  cases hit with
  | none => exact ofDecimal_expansion h
  | some d => exact beq_iff_eq.mp (readsBack_of_firstHit? hhit)

/-! ## Positional notation -/

theorem ofDecimal_of_nonneg (negative : Bool) (significand : Nat) {power : Int} (h : 0 ≤ power) :
    ofDecimal negative significand power =
      ofFraction negative (significand * 10 ^ power.toNat) 1 := by
  have hzero : (-power).toNat = 0 := by omega
  simp only [ofDecimal, Nat.pow_eq, hzero, Nat.pow_zero]

theorem ofDecimal_neg (negative : Bool) (significand places : Nat) :
    ofDecimal negative significand (-(places : Int)) =
      ofFraction negative significand (10 ^ places) := by
  have hzero : (-(places : Int)).toNat = 0 := by omega
  simp only [ofDecimal, Nat.pow_eq, hzero, Nat.pow_zero, Nat.mul_one, Int.neg_neg,
    Int.toNat_natCast]

/-- Zeros at the end of a fraction can be left out. -/
theorem ofDecimal_zeros (negative : Bool) (significand places zeros : Nat) :
    ofDecimal negative (significand * 10 ^ zeros) (-((places + zeros : Nat) : Int)) =
      ofDecimal negative significand (-(places : Int)) := by
  rw [ofDecimal_neg, ofDecimal_neg, Nat.pow_add]
  exact ofFraction_mul negative significand (10 ^ places) (10 ^ zeros) (by positivity)

/-- Digits around a point that write a decimal in positional notation. -/
structure Decimal.WrittenAs (d : Decimal) (whole fraction : List Char) : Prop where
  text : d.positional = if fraction.isEmpty then whole else whole ++ '.' :: fraction
  ne_nil : whole ≠ []
  digits : ∀ c ∈ whole ++ fraction, isDigit c = true
  zero_iff : readNat 10 (whole ++ fraction) = 0 ↔ d.significand = 0
  value : ∀ negative, ofDecimal negative (readNat 10 (whole ++ fraction))
    (-(fraction.length : Int)) = ofDecimal negative d.significand d.power

theorem isDigit_of_mem_zeros {n : Nat} {c : Char} (h : c ∈ List.replicate n '0') :
    isDigit c = true := by
  rw [List.eq_of_mem_replicate h]
  decide

theorem Decimal.writtenAs_whole {d : Decimal} (h : 0 ≤ d.power) :
    d.WrittenAs (if d.significand = 0 then ['0']
      else Nat.toDigits 10 d.significand ++ List.replicate d.power.toNat '0') [] := by
  have htext : d.positional = if d.significand = 0 then ['0']
      else Nat.toDigits 10 d.significand ++ List.replicate d.power.toNat '0' := by
    rw [Decimal.positional]
    exact if_pos h
  have hread : readNat 10 (if d.significand = 0 then ['0']
      else Nat.toDigits 10 d.significand ++ List.replicate d.power.toNat '0') =
      d.significand * 10 ^ d.power.toNat := by
    split
    · rename_i h0
      rw [h0, Nat.zero_mul]
      rfl
    · rw [readNat_append, readNat_toDigits, readNat_zeros, List.length_replicate, Nat.add_zero]
  have hpos : 10 ^ d.power.toNat ≠ 0 := by positivity
  refine ⟨htext, ?_, fun c hc => ?_, ?_, fun negative => ?_⟩
  · split <;> simp [Nat.toDigits_ne_nil]
  · rw [List.append_nil] at hc
    split at hc
    · rw [List.mem_singleton.mp hc]
      decide
    · exact (List.mem_append.mp hc).elim isDigit_of_mem_toDigits isDigit_of_mem_zeros
  · rw [List.append_nil, hread, Nat.mul_eq_zero, or_iff_left hpos]
  · rw [List.append_nil, hread, List.length_nil, ofDecimal_neg, Nat.pow_zero,
      ofDecimal_of_nonneg negative d.significand h]

theorem Decimal.writtenAs_point {d : Decimal} {places : Nat} (h : d.power = -(places : Int))
    (hplaces : 0 < places) : ∃ whole fraction, d.WrittenAs whole fraction := by
  -- zeros in front make room for the point, and those at the end of the fraction go again
  obtain ⟨padded, hpadded⟩ : ∃ padded, padded =
      List.replicate (places + 1 - (Nat.toDigits 10 d.significand).length) '0' ++
        Nat.toDigits 10 d.significand := ⟨_, rfl⟩
  have hlen : places < padded.length := by
    rw [hpadded, List.length_append, List.length_replicate]
    omega
  have hread : readNat 10 padded = d.significand := by
    rw [hpadded, readNat_append, readNat_zeros, readNat_toDigits, Nat.zero_mul, Nat.zero_add]
  obtain ⟨whole, hwhole⟩ : ∃ whole, whole = padded.take (padded.length - places) := ⟨_, rfl⟩
  obtain ⟨fraction, hfraction⟩ : ∃ fraction, fraction =
    ((padded.drop (padded.length - places)).reverse.dropWhile (· == '0')).reverse := ⟨_, rfl⟩
  obtain ⟨zeros, htrim⟩ := exists_dropped_zeros (padded.drop (padded.length - places))
  rw [← hfraction] at htrim
  have hsplit : padded = (whole ++ fraction) ++ List.replicate zeros '0' := by
    rw [List.append_assoc, ← htrim, hwhole, List.take_append_drop]
  have hsum : places = fraction.length + zeros := by
    have h1 := congrArg List.length htrim
    rw [List.length_drop, List.length_append, List.length_replicate] at h1
    omega
  have hvalue : readNat 10 (whole ++ fraction) * 10 ^ zeros = d.significand := by
    rw [hsplit, readNat_append 10 (whole ++ fraction), readNat_zeros, List.length_replicate,
      Nat.add_zero] at hread
    exact hread
  have hpos : 10 ^ zeros ≠ 0 := by positivity
  refine ⟨whole, fraction, ?_, ?_, fun c hc => ?_, ?_, fun negative => ?_⟩
  · have hneg : ¬ (0 : Int) ≤ d.power := by omega
    have htoNat : (-d.power).toNat = places := by omega
    rw [Decimal.positional, if_neg hneg, htoNat, hfraction, hwhole, hpadded]
  · intro hnil
    rw [hwhole, List.take_eq_nil_iff] at hnil
    rcases hnil with hnil | hnil
    · omega
    · rw [hnil] at hlen
      contradiction
  · have hc' : c ∈ padded := by
      rw [hsplit]
      exact List.mem_append_left _ hc
    rw [hpadded] at hc'
    exact (List.mem_append.mp hc').elim isDigit_of_mem_zeros isDigit_of_mem_toDigits
  · rw [← hvalue, Nat.mul_eq_zero, or_iff_left hpos]
  · rw [h, hsum, ← hvalue, ofDecimal_zeros]

theorem Decimal.exists_writtenAs (d : Decimal) : ∃ whole fraction, d.WrittenAs whole fraction := by
  by_cases h : 0 ≤ d.power
  · exact ⟨_, _, Decimal.writtenAs_whole h⟩
  · have hpower : d.power = -((-d.power).toNat : Int) := by omega
    exact Decimal.writtenAs_point hpower (by omega)

/-! ## Reading what was written -/

/-- The bounds beyond which a power of ten is not computed are never reached by a fraction. -/
theorem Written.value_fraction (negative : Bool) (whole fraction : List Char) :
    (Written.mk negative (whole ++ fraction) (-(fraction.length : Int))).value =
      if readNat 10 (whole ++ fraction) = 0 then zero negative
      else ofDecimal negative (readNat 10 (whole ++ fraction)) (-(fraction.length : Int)) := by
  have hlen : fraction.length ≤ (whole ++ fraction).length := by simp
  have hlarge : ¬ (400 : Int) < -(fraction.length : Int) := by omega
  have hsmall : ¬ -(fraction.length : Int) < -400 - ((whole ++ fraction).length : Int) := by omega
  simp only [Written.value, hlarge, hsmall, if_false]

theorem readDigits?_positional (negative : Bool) (d : Decimal) :
    ∃ w, readDigits? negative d.positional = some w ∧
      w.value = if d.significand = 0 then zero negative
        else ofDecimal negative d.significand d.power := by
  obtain ⟨whole, fraction, h⟩ := d.exists_writtenAs
  have hr := readDigits?_fraction negative whole fraction h.ne_nil
    (fun c hc => h.digits c (List.mem_append_left _ hc))
    (fun c hc => h.digits c (List.mem_append_right _ hc))
  rw [← h.text] at hr
  refine ⟨_, hr, ?_⟩
  rw [Written.value_fraction, h.value]
  simp only [h.zero_iff]

theorem positional_chars (d : Decimal) : ∀ c ∈ d.positional, isDigit c = true ∨ c = '.' := by
  obtain ⟨whole, fraction, h⟩ := d.exists_writtenAs
  intro c hc
  rw [h.text] at hc
  have hdigits := h.digits c
  split at hc
  · exact Or.inl (hdigits (List.mem_append_left _ hc))
  · simp only [List.mem_append, List.mem_cons] at hc hdigits
    rcases hc with hc | rfl | hc
    · exact Or.inl (hdigits (Or.inl hc))
    · exact Or.inr rfl
    · exact Or.inl (hdigits (Or.inr hc))

theorem ofPair_eq_finite {m q : Nat} (h : CanonicalPair m q) (negative : Bool) :
    ofPair negative m q = finite negative m q h := by
  have hne : m ≠ Nat.pow 2 53 := Nat.ne_of_lt h.1
  simp [ofPair, hne, h]

/-- The sign does not count for the magnitude. -/
theorem ofPair_sign {a b m q : Nat} (h : CanonicalPair m q)
    (hp : ofPair false a b = finite false m q h) (negative : Bool) :
    ofPair negative a b = finite negative m q h := by
  unfold ofPair at hp ⊢
  dsimp only at hp ⊢
  generalize (if a = Nat.pow 2 53 then Nat.pow 2 52 else a) = m' at hp ⊢
  generalize (if a = Nat.pow 2 53 then b + 1 else b) = q' at hp ⊢
  split at hp
  · rename_i hc
    obtain ⟨-, rfl, rfl⟩ := finite.inj hp
    rw [dif_pos hc]
  · contradiction

theorem ofDecimal_sign {significand m q : Nat} {power : Int} (h : CanonicalPair m q)
    (hd : ofDecimal false significand power = ofPair false m q) (negative : Bool) :
    ofDecimal negative significand power = finite negative m q h :=
  ofPair_sign h (hd.trans (ofPair_eq_finite h false)) negative

theorem takeSign_of_plain {cs : List Char} (h : ∀ c ∈ cs, isDigit c = true ∨ c = '.') :
    takeSign cs = (false, cs) := by
  have hne : ∀ c, isDigit c = true ∨ c = '.' → c ≠ '-' ∧ c ≠ '+' := by
    rintro c (hc | rfl)
    · exact ⟨by rintro rfl; contradiction, by rintro rfl; contradiction⟩
    · decide
  unfold takeSign
  split
  · exact absurd rfl (hne _ (h _ List.mem_cons_self)).1
  · exact absurd rfl (hne _ (h _ List.mem_cons_self)).2
  · rfl

theorem takeSign_signed (negative : Bool) {cs : List Char}
    (h : ∀ c ∈ cs, isDigit c = true ∨ c = '.') :
    takeSign ((if negative then ['-'] else []) ++ cs) = (negative, cs) := by
  cases negative with
  | true => rfl
  | false => exact takeSign_of_plain h

theorem ofDecimal_zero (negative : Bool) (power : Int) :
    ofDecimal negative 0 power = zero negative := by
  have hden : 0 < 10 ^ (-power).toNat := by positivity
  have hpair := ofPair_eq_finite (m := 0) (q := 0) (by decide) negative
  simp only [ofDecimal, ofFraction, Nat.pow_eq, Nat.zero_mul, Nat.zero_div]
  have hgrid : gridExponent 0 = 0 := by decide
  rw [hgrid, Nat.pow_zero, Nat.mul_one]
  have hround := roundHalfEven_mul_self 0 _ hden
  rw [Nat.zero_mul] at hround
  rw [hround, hpair]
  rfl

theorem read?_eq_value {cs rest : List Char} {negative : Bool} {w : Written}
    (hs : takeSign cs = (negative, rest)) (hw : readDigits? negative rest = some w) :
    read? cs = some w.value := by
  simp only [read?, hs, hw]

/-- A finite number reads back from its text. -/
theorem read?_print (x : Binary64) (hx : x.isFinite = true) : read? x.print = some x := by
  cases x with
  | infinite _ | nan => contradiction
  | finite s m q h =>
    obtain ⟨w, hw, hvalue⟩ := readDigits?_positional s (shortest m q)
    have hsign := takeSign_signed s (positional_chars (shortest m q))
    have hback := ofDecimal_sign h (ofDecimal_shortest h) s
    rw [print]
    rw [read?_eq_value hsign hw, hvalue, ← hback]
    split
    · rename_i h0
      rw [h0, ofDecimal_zero]
    · rfl

end Binary64

end IconCompiler
