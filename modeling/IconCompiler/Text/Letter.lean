import IconCompiler.Text.Letter.Table

/-! Capital and small letters of any alphabet. -/

namespace IconCompiler.Text

/-- A letter that has a small form and is its own capital form. -/
def isCapital (c : Char) : Bool :=
  c.toNat == 0x130 ||
    (capitals.any (·.includes c.toNat) && !titlecase.any (·.includes c.toNat))

/-- A letter that has a capital form and is its own small form. -/
def isSmall (c : Char) : Bool := smallLetters.any (·.includes c.toNat)

/-- The small form of a character; only a capital I with a dot has one of two characters. -/
def small (c : Char) : List Char :=
  if c.toNat = 0x130 then ['i', Char.ofNat 0x307]
  else match capitals.find? (·.includes c.toNat) with
    | some r => [Char.ofNat (r.small + (c.toNat - r.first))]
    | none => [c]

/-- The small form of a text whose first character follows a letter or not. A capital sigma at the
end of a word becomes a final sigma. -/
def smallAfter (inWord : Bool) : List Char → List Char
  | [] => []
  | c :: cs =>
    let cased (d : Char) : Bool := isCapital d || isSmall d
    let form := if c = 'Σ' ∧ inWord ∧ !cs.head?.any cased then ['ς'] else small c
    form ++ smallAfter (cased c) cs

/-- The capital form of a character, as far as ASCII letters stand in it; any other character
stands for itself. Ligatures and letters with a separate mark have forms of several letters. -/
def capital (c : Char) : List Char :=
  match c with
  | 'ß' => ['S', 'S']
  | 'ı' => ['I']
  | 'ŉ' => ['ʼ', 'N']
  | 'ſ' => ['S']
  | 'ǰ' => ['J', Char.ofNat 0x30C]
  | 'ẖ' => ['H', Char.ofNat 0x331]
  | 'ẗ' => ['T', Char.ofNat 0x308]
  | 'ẘ' => ['W', Char.ofNat 0x30A]
  | 'ẙ' => ['Y', Char.ofNat 0x30A]
  | 'ẚ' => ['A', 'ʾ']
  | 'ﬀ' => ['F', 'F']
  | 'ﬁ' => ['F', 'I']
  | 'ﬂ' => ['F', 'L']
  | 'ﬃ' => ['F', 'F', 'I']
  | 'ﬄ' => ['F', 'F', 'L']
  | 'ﬅ' => ['S', 'T']
  | 'ﬆ' => ['S', 'T']
  | _ => [c.toUpper]

end IconCompiler.Text
