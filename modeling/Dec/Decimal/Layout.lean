import Dec.Decimal.Shortest

namespace Dec

structure Layout where
  /-- Least place of the point that is still written out in zeros. -/
  leastPoint : Int
  /-- Greatest place of the point that is still written out in digits. -/
  mostPoint : Int
  /-- Least number of digits of an exponent. -/
  exponentDigits : Nat

/-- Numbers from a ten-thousandth up to ten to the sixteenth are written positionally, and exponents
have at least two digits. -/
def Layout.plain : Layout := ⟨-3, 16, 2⟩

namespace Decimal

def positional (digits : List Char) (point : Int) : List Char :=
  if point ≤ 0 then '0' :: '.' :: List.replicate (-point).toNat '0' ++ digits
  -- the point and a zero show that this is no integer
  else if (digits.length : Int) ≤ point then
    digits ++ List.replicate (point.toNat - digits.length) '0' ++ ['.', '0']
  else digits.take point.toNat ++ '.' :: digits.drop point.toNat

def padded (width n : Nat) : List Char :=
  let digits := n.repr.toList
  List.replicate (width - digits.length) '0' ++ digits

def scientific (exponentDigits : Nat) (digits : List Char) (point : Int) : List Char :=
  let exponent := point - 1
  let fraction := if digits.length ≤ 1 then [] else '.' :: digits.drop 1
  digits.take 1 ++ fraction ++ 'e' :: (if exponent < 0 then '-' else '+') ::
    padded exponentDigits exponent.natAbs

def written (layout : Layout) (d : Decimal) : List Char :=
  let digits := d.digits.repr.toList
  if layout.leastPoint ≤ d.point ∧ d.point ≤ layout.mostPoint then positional digits d.point
  else scientific layout.exponentDigits digits d.point

end Decimal

def Binary64.text (x : Binary64) : String :=
  let sign := if x.isNegative then ['-'] else []
  match x with
  | .finite .. => .ofList (sign ++ (Decimal.shortest x.units).written .plain)
  | .infinite _ => .ofList (sign ++ ['i', 'n', 'f'])
  | .nan => "nan"

end Dec
