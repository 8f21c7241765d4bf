import Dec.Token.Numeral
import Dec.Text.Character

namespace Dec.Reading

/-- A character as it counts in a numeral: beyond the plain characters, digits stand for plain
digits and blanks for the plain space. -/
def plain (c : Char) : Char :=
  if c.toNat < 127 then c
  else if Text.isBlank c then ' '
  else ((Text.digit? c).map Nat.digitChar).getD c

def isMargin (c : Char) : Bool := c == ' ' || (9 ≤ c.toNat && c.toNat ≤ 13)

def trim (cs : List Char) : List Char :=
  ((cs.dropWhile isMargin).reverse.dropWhile isMargin).reverse

/-- A text without its underscores, if each stands between two digits. The flag says whether a digit
comes right before the text. -/
def joined? (afterDigit : Bool) : List Char → Option (List Char)
  | [] => some []
  | [c] => if c = '_' then none else some [c]
  | c :: d :: cs =>
    if c ≠ '_' then (c :: ·) <$> joined? c.isDigit (d :: cs)
    else if afterDigit && d.isDigit then joined? false (d :: cs)
    else none

def signed : List Char → Bool × List Char
  | [] => (false, [])
  | c :: cs => if c = '-' then (true, cs) else if c = '+' then (false, cs) else (false, c :: cs)

def parts? (s : String) : Option (Bool × List Char) :=
  (joined? false (trim (s.toList.map plain))).map signed

def integer? (s : String) : Option Int := do
  let (negative, cs) ← parts? s
  let magnitude : Int := Nat.ofDigitChars 10 cs 0
  if cs.isEmpty || !cs.all Char.isDigit || maxIntegerDigits < cs.length then none
  else some (if negative then -magnitude else magnitude)

def double? (s : String) : Option Binary64 := do
  let (negative, cs) ← parts? s
  let word := String.ofList (cs.map Char.toLower)
  let n := Numeral.scanUnsigned false cs
  if word = "inf" ∨ word = "infinity" then some (.infinite negative)
  else if word = "nan" then some .nan
  else if n.chars = cs ∧ n.whole ++ n.fraction.getD [] ≠ [] then
    some { n with negative }.toBinary64
  else none

end Dec.Reading
