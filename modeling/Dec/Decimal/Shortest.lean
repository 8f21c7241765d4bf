import Dec.Decimal

/-!
The shortest numeral that reads back as a given double. Of two of the same length the nearer one is
taken, and of two equally near ones the one with the even last digit.
-/
namespace Dec.Decimal

def scaled (units : Nat) (places : Int) : Nat × Nat :=
  if 0 ≤ places then (units * 10 ^ places.toNat, unitsPerOne)
  else (units, unitsPerOne * 10 ^ (-places).toNat)

def readsAs (units : Nat) (d : Decimal) : Bool :=
  (d.toBinary64 false).isFinite && (d.toBinary64 false).units == units

/-- The better of the two numerals with the given number of decimal places that enclose a double, if
one of them reads back as it. -/
def withPlaces? (units : Nat) (places : Int) : Option Decimal :=
  let (num, den) := scaled units places
  let below := num / den
  let rest := 2 * (num % den)
  let low := normal below (-places)
  let high := normal (below + 1) (-places)
  match readsAs units low, readsAs units high with
  | true, false => some low
  | false, true => some high
  | false, false => none
  -- the nearer one, and the even one of two equally near ones
  | true, true =>
    if rest < den ∨ (rest = den ∧ below % 2 = 0) then some low else some high

def exact (units : Nat) : Decimal := normal (units * 5 ^ 1074) (-1074)

/-- The place of the point of a positive double: its leading digits show even in the least one
after 330 places. -/
def pointOf (units : Nat) : Int :=
  let (num, den) := scaled units 330
  digitCount (num / den) - 330

/-- Seventeen digits are enough to tell any two doubles apart. -/
def enoughDigits : Nat := 17

/-- The shortest numeral that reads back as the double of the given number of counts. All its digits
stand in reserve, should no shorter numeral do. -/
def shortest (units : Nat) : Decimal :=
  if units = 0 then ⟨0, 0⟩
  else
    let point := pointOf units
    let found := (List.range enoughDigits).findSome? fun n : Nat =>
      withPlaces? units (n + 1 - point)
    found.getD (exact units)

end Dec.Decimal
