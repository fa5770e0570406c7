import IconCompiler.Binary64.Nearest

/-!
The fewest decimal digits that read back as a given number. For one digit, two digits and so on the
two neighbours of the number on that decimal grid are tried; the first grid with a hit wins, and of
two hits the nearer, the upper one when they are equally near. Every magnitude has a finite decimal
expansion, which is the answer should no grid of up to seventeen digits hold one.
-/

namespace IconCompiler.Binary64

/-- A magnitude `significand * 10 ^ power`. -/
structure Decimal where
  significand : Nat
  power : Int
  deriving DecidableEq

/-- Numerator of a magnitude given in units of `2 ^ -1074`, over the denominator below. -/
def numerator (m q : Nat) : Nat := m * Nat.pow 2 (q - 1074)

def denominator (q : Nat) : Nat := Nat.pow 2 (1074 - q)

/-- The power of ten of the first digit of `num / den`. -/
def leadingPower (num den : Nat) : Int :=
  let estimate : Int := ((num.log2 : Int) - den.log2 - 1) * 30103 / 100000 - 1
  let reached (p : Int) : Bool := den * Nat.pow 10 p.toNat ≤ num * Nat.pow 10 (-p).toNat
  if reached (estimate + 2) then estimate + 2
  else if reached (estimate + 1) then estimate + 1
  else estimate

/-- Of the two neighbours of `num / den` on the grid of `10 ^ power`, one that reads back. -/
def onGrid? (readsBack : Decimal → Bool) (num den : Nat) (power : Int) : Option Decimal :=
  let n := num * Nat.pow 10 (-power).toNat
  let d := den * Nat.pow 10 power.toNat
  let below : Decimal := ⟨n / d, power⟩
  let above : Decimal := ⟨n / d + 1, power⟩
  match readsBack below, readsBack above with
  | true, true => some (if d ≤ 2 * (n % d) then above else below)
  | true, false => some below
  | false, true => some above
  | false, false => none

/-- The first hit among the grids of one digit up to `count` digits. -/
def firstHit? (readsBack : Decimal → Bool) (num den : Nat) (lead : Int) (count : Nat) :
    Option Decimal :=
  (List.range count).findSome? fun (k : Nat) => onGrid? readsBack num den (lead - k)

/-- The whole decimal expansion. -/
def expansion (m q : Nat) : Decimal :=
  ⟨numerator m q * Nat.pow 5 (1074 - q), -((1074 - q : Nat) : Int)⟩

/-- The shortest decimal that reads back as the magnitude of the pair. -/
def shortest (m q : Nat) : Decimal :=
  let readsBack (d : Decimal) : Bool := ofDecimal false d.significand d.power == ofPair false m q
  let num := numerator m q
  let den := denominator q
  (firstHit? readsBack num den (leadingPower num den) 17).getD (expansion m q)

end IconCompiler.Binary64
