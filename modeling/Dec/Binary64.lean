namespace Dec

-- powers of natural numbers are those of the core library, whatever else is imported later
attribute [instance (20000)] instPowNat
attribute [default_instance (20000)] instPowNat

def significandBits : Nat := 53

def maxShift : Nat := 2045

/-- How many of the least positive double make one: 2¹⁰⁷⁴. -/
def unitsPerOne : Nat := 2 ^ 1074

/-- A significand and a shift that name a finite double, in the one way each has: the significand
is full unless the shift is zero. -/
def Canonical (significand shift : Nat) : Prop :=
  significand < 2 ^ significandBits ∧ shift ≤ maxShift ∧
    (shift = 0 ∨ 2 ^ (significandBits - 1) ≤ significand)

instance (significand shift : Nat) : Decidable (Canonical significand shift) := by
  unfold Canonical; infer_instance

inductive Binary64 where
  | finite (negative : Bool) (significand shift : Nat)
      (canonical : Canonical significand shift)
  | infinite (negative : Bool)
  | nan
deriving DecidableEq

namespace Binary64

instance : Inhabited Binary64 := ⟨.nan⟩

def zero (negative : Bool) : Binary64 := .finite negative 0 0 (by decide)

/-- The double with the given sign, significand and shift, or the infinity of that sign when the
pair names no finite double. -/
def ofParts (negative : Bool) (significand shift : Nat) : Binary64 :=
  if h : Canonical significand shift then .finite negative significand shift h
  else .infinite negative

def shiftFor (count : Nat) : Nat := count.log2 + 1 - significandBits

def roundHalfEven (num den : Nat) : Nat :=
  let floor := num / den
  let rest := 2 * (num % den)
  if rest < den then floor
  else if den < rest then floor + 1
  else if floor % 2 = 0 then floor else floor + 1

/-- The double nearest to `num / den` counts of the least positive double. A quotient that rounds up
to a power of two takes the next shift. -/
def ofUnits (negative : Bool) (num den : Nat) : Binary64 :=
  let shift := shiftFor (num / den)
  let significand := roundHalfEven num (den * 2 ^ shift)
  if significand = 2 ^ significandBits then
    ofParts negative (2 ^ (significandBits - 1)) (shift + 1)
  else ofParts negative significand shift

def ofRatio (negative : Bool) (num den : Nat) : Binary64 :=
  ofUnits negative (num * unitsPerOne) den

def ofInt (n : Int) : Binary64 := ofRatio (n < 0) n.natAbs 1

def isFinite : Binary64 → Bool
  | .finite .. => true
  | _ => false

def isNegative : Binary64 → Bool
  | .finite negative .. => negative
  | .infinite negative => negative
  | .nan => false

def isZero : Binary64 → Bool
  | .finite _ significand _ _ => significand == 0
  | _ => false

def units : Binary64 → Nat
  | .finite _ significand shift _ => significand * 2 ^ shift
  | _ => 0

def truncate? : Binary64 → Option Int
  | x@(.finite negative ..) =>
    let whole : Int := x.units / unitsPerOne
    some (if negative then -whole else whole)
  | _ => none

/-- The quotient of two doubles, correctly rounded. A zero divisor counts as the limit of small
ones. -/
def div : Binary64 → Binary64 → Binary64
  | .nan, _ => .nan
  | _, .nan => .nan
  | .infinite _, .infinite _ => .nan
  | .infinite s, y => .infinite (s != y.isNegative)
  | x, .infinite t => zero (x.isNegative != t)
  | x, y =>
    let sign := x.isNegative != y.isNegative
    if y.isZero then if x.isZero then .nan else .infinite sign
    else ofRatio sign x.units y.units

/-- Equality of numbers: the two zeros are equal and not-a-number differs from everything. -/
def same : Binary64 → Binary64 → Bool
  | .nan, _ => false
  | _, .nan => false
  | x, y => (x.isZero && y.isZero) || x == y

def sameInt (x : Binary64) (n : Int) : Bool :=
  x.isFinite && x.units == n.natAbs * unitsPerOne && (n == 0 || x.isNegative == decide (n < 0))

def toBits (x : Binary64) : UInt64 :=
  let sign (negative : Bool) : Nat := if negative then 2 ^ 63 else 0
  match x with
  | .finite negative significand shift _ =>
    if significand < 2 ^ (significandBits - 1) then .ofNat (sign negative + significand)
    else .ofNat (sign negative + shift * 2 ^ (significandBits - 1) + significand)
  | .infinite negative => .ofNat (sign negative + 2047 * 2 ^ 52)
  | .nan => .ofNat (4095 * 2 ^ 51)

def ofBits (word : UInt64) : Binary64 :=
  let negative := 2 ^ 63 ≤ word.toNat
  let field := word.toNat / 2 ^ 52 % 2048
  let fraction := word.toNat % 2 ^ 52
  if field = 2047 then if fraction = 0 then .infinite negative else .nan
  else if field = 0 then ofParts negative fraction 0
  else ofParts negative (2 ^ 52 + fraction) (field - 1)

/-- A double raised to the power of a double, by the platform's double-precision power function. -/
def power (base exponent : Binary64) : Binary64 :=
  ofBits (Float.pow (.ofBits base.toBits) (.ofBits exponent.toBits)).toBits

end Binary64

end Dec
