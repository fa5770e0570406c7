import IconCompiler.Binary64.Nearest
import IconCompiler.Text.Digit

/-!
Reading a binary64 number from text: a sign, digits with at most one point, and a power of ten; or
the word for an infinity or for NaN, in any case.
-/

namespace IconCompiler.Binary64

open Text

/-- A number as it is written: its digits without the point, and the power of ten of the last. -/
structure Written where
  negative : Bool
  digits : List Char
  power : Int

/-- Splits a leading sign off. -/
def takeSign : List Char → Bool × List Char
  | '-' :: cs => (true, cs)
  | '+' :: cs => (false, cs)
  | cs => (false, cs)

/-- A power of ten, the whole of what follows an `e`. -/
def readPower? (cs : List Char) : Option Int :=
  let (negative, ds) := takeSign cs
  if !ds.isEmpty && ds.all isDigit then
    some (if negative then -(readNat 10 ds : Int) else readNat 10 ds)
  else none

/-- What may follow the digits: nothing, or `e` and a power of ten. -/
def readTail? : List Char → Option Int
  | [] => some 0
  | c :: cs => if c = 'e' ∨ c = 'E' then readPower? cs else none

/-- Digits around an optional point, at least one of them, then the power. -/
def readDigits? (negative : Bool) (cs : List Char) : Option Written :=
  let whole := cs.takeWhile isDigit
  let rest := cs.dropWhile isDigit
  let (fraction, tail) :=
    match rest with
    | '.' :: ds => (ds.takeWhile isDigit, ds.dropWhile isDigit)
    | _ => ([], rest)
  if whole.isEmpty && fraction.isEmpty then none
  else (readTail? tail).map fun power => ⟨negative, whole ++ fraction, power - fraction.length⟩

/-- The number nearest to what is written. Beyond `10 ^ 400` and below `10 ^ -400` the answer is
known without computing the power. -/
def Written.value (w : Written) : Binary64 :=
  let significand := readNat 10 w.digits
  if significand = 0 then zero w.negative
  else if 400 < w.power then infinite w.negative
  else if w.power < -400 - w.digits.length then zero w.negative
  else ofDecimal w.negative significand w.power

/-- The words for the numbers that are not finite. -/
def readWord? (negative : Bool) (cs : List Char) : Option Binary64 :=
  let word := cs.map Char.toLower
  if word = "inf".toList ∨ word = "infinity".toList then some (infinite negative)
  else if word = "nan".toList then some nan
  else none

/-- Reads a text that is a number in full. -/
def read? (cs : List Char) : Option Binary64 :=
  let (negative, rest) := takeSign cs
  match readDigits? negative rest with
  | some written => some written.value
  | none => readWord? negative rest

end IconCompiler.Binary64
