import Dec.Binary64

namespace Dec

/-- The non-negative number `digits · 10 ^ exponent`. -/
structure Decimal where
  digits : Nat
  exponent : Int
deriving DecidableEq, Inhabited

namespace Decimal

def digitCount (n : Nat) : Nat := n.repr.length

def normal (digits : Nat) (exponent : Int) : Decimal :=
  if digits ≠ 0 ∧ digits % 10 = 0 then normal (digits / 10) (exponent + 1) else ⟨digits, exponent⟩
termination_by digits
decreasing_by omega

def ofDigits (whole fraction : List Char) (exponent : Int) : Decimal :=
  normal (Nat.ofDigitChars 10 (whole ++ fraction) 0) (exponent - fraction.length)

/-- The place of the decimal point, counted from before the first digit: the number is less than
ten to this power and, unless it is zero, at least a tenth of that. -/
def point (d : Decimal) : Int := digitCount d.digits + d.exponent

def pointOfInfinity : Int := 310

def pointOfZero : Int := -324

/-- The double nearest to a numeral. Numbers out of range are told by the place of their point, so
that no huge power of ten is computed. -/
def toBinary64 (negative : Bool) (d : Decimal) : Binary64 :=
  if d.digits = 0 ∨ d.point ≤ pointOfZero then .zero negative
  else if pointOfInfinity ≤ d.point then .infinite negative
  else if 0 ≤ d.exponent then .ofRatio negative (d.digits * 10 ^ d.exponent.toNat) 1
  else .ofRatio negative d.digits (10 ^ (-d.exponent).toNat)

end Decimal

end Dec
