/-!
Binary64 numbers as exact integers. A finite number is `significand * 2 ^ exponent` in units of
`2 ^ -1074`, the distance of the smallest positive number from zero, and has one such form.
-/

namespace IconCompiler

/-- The pairs that stand for a finite binary64 number, one pair for each magnitude. -/
def CanonicalPair (significand exponent : Nat) : Prop :=
  significand < Nat.pow 2 53 ∧ exponent < 2046 ∧ (exponent = 0 ∨ Nat.pow 2 52 ≤ significand)

instance (significand exponent : Nat) : Decidable (CanonicalPair significand exponent) :=
  inferInstanceAs (Decidable (_ ∧ _ ∧ _))

inductive Binary64 where
  | finite (negative : Bool) (significand exponent : Nat)
      (canonical : CanonicalPair significand exponent)
  | infinite (negative : Bool)
  | nan
  deriving DecidableEq

namespace Binary64

def zero (negative : Bool) : Binary64 := finite negative 0 0 (by decide)

def one : Binary64 := finite false (Nat.pow 2 52) 1022 (by decide)

def two : Binary64 := finite false (Nat.pow 2 52) 1023 (by decide)

instance : Inhabited Binary64 := ⟨zero false⟩

def isFinite : Binary64 → Bool
  | finite .. => true
  | _ => false

/-- Equality of the numbers: both zeros are one number, and a NaN is no number. -/
def sameNumber : Binary64 → Binary64 → Bool
  | finite s m q _, finite t n r _ => m == n && q == r && (s == t || m == 0)
  | infinite s, infinite t => s == t
  | _, _ => false

/-- The 64 bits of the interchange format: sign, eleven bits of exponent, 52 of significand. -/
def toBits : Binary64 → Nat
  | finite s m q _ =>
    let magnitude := if m < Nat.pow 2 52 then m else (q + 1) * Nat.pow 2 52 + (m - Nat.pow 2 52)
    if s then Nat.pow 2 63 + magnitude else magnitude
  | infinite s => if s then Nat.pow 2 63 + 2047 * Nat.pow 2 52 else 2047 * Nat.pow 2 52
  | nan => 2047 * Nat.pow 2 52 + Nat.pow 2 51

end Binary64

end IconCompiler
