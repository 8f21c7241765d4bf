import Dec.Decimal.Layout

namespace Dec

inductive Number where
  | int (n : Int)
  | float (x : Binary64)
deriving DecidableEq

/-- Integers of more digits than this are neither read nor written in decimal. -/
def maxIntegerDigits : Nat := 4300

def tooManyDigits : String :=
  "Exceeds the limit (4300 digits) for integer string conversion; " ++
    "use sys.set_int_max_str_digits() to increase the limit"

inductive Unwritable where
  | integerTooLong
  | nestedTooDeep
deriving DecidableEq

/-- A text that only an integer can be in the way of. -/
def orTooLong (text : Option String) : Except Unwritable String :=
  text.getDM (.error .integerTooLong)

def decimalText (n : Int) : String :=
  .ofList ((if n < 0 then ['-'] else []) ++ n.natAbs.repr.toList)

def decimalText? (n : Int) : Option String :=
  if n.natAbs < 10 ^ maxIntegerDigits then some (decimalText n) else none

namespace Number

instance : Inhabited Number := ⟨.int 0⟩

def text? : Number → Option String
  | .int n => decimalText? n
  | .float x => some x.text

/-- Equality of value: an integer and a float that is that integer are equal. -/
def same : Number → Number → Bool
  | .int m, .int n => m == n
  | .int m, .float y => y.sameInt m
  | .float x, .int n => x.sameInt n
  | .float x, .float y => x.same y

def truncate? : Number → Option Int
  | .int n => some n
  | .float x => x.truncate?

def toBinary64 : Number → Binary64
  | .int n => .ofInt n
  | .float x => x

def isZero : Number → Bool
  | .int n => n == 0
  | .float x => x.isZero

def isFinite : Number → Bool
  | .int _ => true
  | .float x => x.isFinite

end Number

end Dec
