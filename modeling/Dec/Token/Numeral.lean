import Dec.Number

namespace Dec

structure Exponent where
  mark : Char
  sign : Option Char
  digits : List Char
deriving DecidableEq

namespace Exponent

def chars (e : Exponent) : List Char := e.mark :: e.sign.toList ++ e.digits

def value (e : Exponent) : Int :=
  let n : Int := Nat.ofDigitChars 10 e.digits 0
  if e.sign = some '-' then -n else n

def splitSign : List Char → Option Char × List Char
  | c :: cs => if c = '+' ∨ c = '-' then (some c, cs) else (none, c :: cs)
  | [] => (none, [])

def scan? : List Char → Option Exponent
  | [] => none
  | c :: cs =>
    if c = 'e' ∨ c = 'E' then
      let (sign, rest) := splitSign cs
      let digits := rest.takeWhile Char.isDigit
      if digits.isEmpty then none else some ⟨c, sign, digits⟩
    else none

end Exponent

/-- A numeral as it is written. A fraction may have no digits after its point. -/
structure Numeral where
  negative : Bool
  whole : List Char
  fraction : Option (List Char)
  exponent : Option Exponent
deriving DecidableEq

namespace Numeral

def chars (n : Numeral) : List Char :=
  (if n.negative then ['-'] else []) ++ n.whole ++
    (match n.fraction with
      | some digits => '.' :: digits
      | none => []) ++
    (match n.exponent with
      | some e => e.chars
      | none => [])

def isFloat (n : Numeral) : Bool := n.fraction.isSome || n.exponent.isSome

def toBinary64 (n : Numeral) : Binary64 :=
  (Decimal.ofDigits n.whole (n.fraction.getD [])
    ((n.exponent.map Exponent.value).getD 0)).toBinary64 n.negative

def value (n : Numeral) : Number :=
  if n.isFloat then .float n.toBinary64
  else
    let magnitude : Int := Nat.ofDigitChars 10 n.whole 0
    .int (if n.negative then -magnitude else magnitude)

def scanUnsigned (negative : Bool) (cs : List Char) : Numeral :=
  let whole := cs.takeWhile Char.isDigit
  match cs.dropWhile Char.isDigit with
  | '.' :: rest =>
    ⟨negative, whole, some (rest.takeWhile Char.isDigit),
      Exponent.scan? (rest.dropWhile Char.isDigit)⟩
  | rest => ⟨negative, whole, none, Exponent.scan? rest⟩

def scan : List Char → Numeral
  | '-' :: cs => scanUnsigned true cs
  | cs => scanUnsigned false cs

end Numeral

def Binary64.ofText? (s : String) : Option Binary64 :=
  if s = "inf" then some (.infinite false)
  else if s = "-inf" then some (.infinite true)
  else if s = "nan" then some .nan
  else
    let n := Numeral.scan s.toList
    if n.isFloat && n.chars == s.toList then
      match n.value with
      | .float x => some x
      | .int _ => none
    else none

end Dec
