import IconCompiler.Binary64.Shortest

/-! The text of a binary64 number: its shortest decimal in positional notation, never with a power
of ten, and without a point where the number is whole. -/

namespace IconCompiler.Binary64

/-- Positional notation of a decimal. -/
def Decimal.positional (d : Decimal) : List Char :=
  let ds := Nat.toDigits 10 d.significand
  if 0 ≤ d.power then
    if d.significand = 0 then ['0'] else ds ++ List.replicate d.power.toNat '0'
  else
    let places := (-d.power).toNat
    let padded := List.replicate (places + 1 - ds.length) '0' ++ ds
    let whole := padded.take (padded.length - places)
    let fraction := ((padded.drop (padded.length - places)).reverse.dropWhile (· == '0')).reverse
    if fraction.isEmpty then whole else whole ++ '.' :: fraction

def print : Binary64 → List Char
  | finite s m q _ => (if s then ['-'] else []) ++ (shortest m q).positional
  | infinite s => if s then "-inf".toList else "inf".toList
  | nan => "NaN".toList

def toText (x : Binary64) : String := String.ofList x.print

end IconCompiler.Binary64
