/-! Digits and the numbers they write. -/

namespace IconCompiler.Text

def isDigit (c : Char) : Bool := '0' ≤ c && c ≤ '9'

/-- The value of a digit below the base, letters standing for ten to fifteen. -/
def digitValue? (base : Nat) (c : Char) : Option Nat :=
  let value :=
    if '0' ≤ c ∧ c ≤ '9' then c.toNat - 48
    else if 'a' ≤ c ∧ c ≤ 'f' then c.toNat - 87
    else if 'A' ≤ c ∧ c ≤ 'F' then c.toNat - 55
    else base
  if value < base then some value else none

/-- The number that the digits write after `start`; other characters count as zero. -/
def readFrom (base start : Nat) (cs : List Char) : Nat :=
  cs.foldl (fun n c => n * base + (digitValue? base c).getD 0) start

def readNat (base : Nat) (cs : List Char) : Nat := readFrom base 0 cs

end IconCompiler.Text
