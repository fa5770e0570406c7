import IconCompiler.Binary64.Basic

/-!
The binary64 number nearest to a fraction. A fraction half way between two numbers goes to the one
with the even significand, and one beyond the range goes to infinity.
-/

namespace IconCompiler.Binary64

/-- The whole number nearest to `num / den`, the even one of two that are equally near. -/
def roundHalfEven (num den : Nat) : Nat :=
  let floor := num / den
  let rest := 2 * (num % den)
  if rest < den then floor
  else if den < rest then floor + 1
  else floor + floor % 2

/-- The exponent whose grid a magnitude of `units` whole units is rounded on. -/
def gridExponent (units : Nat) : Nat := units.log2 - 52

/-- The number with this significand and exponent, after a carry into a 54th bit. -/
def ofPair (negative : Bool) (significand exponent : Nat) : Binary64 :=
  let carried := significand = Nat.pow 2 53
  let m := if carried then Nat.pow 2 52 else significand
  let q := if carried then exponent + 1 else exponent
  if h : CanonicalPair m q then finite negative m q h else infinite negative

/-- The number nearest to `num / den`, for a positive `den`. -/
def ofFraction (negative : Bool) (num den : Nat) : Binary64 :=
  let scaled := num * Nat.pow 2 1074
  let exponent := gridExponent (scaled / den)
  ofPair negative (roundHalfEven scaled (den * Nat.pow 2 exponent)) exponent

/-- The number nearest to `significand * 10 ^ power`. -/
def ofDecimal (negative : Bool) (significand : Nat) (power : Int) : Binary64 :=
  ofFraction negative (significand * Nat.pow 10 power.toNat) (Nat.pow 10 (-power).toNat)

end IconCompiler.Binary64
