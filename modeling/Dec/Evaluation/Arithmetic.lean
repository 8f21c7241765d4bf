import Dec.Evaluation.Fault
import Dec.Number.Reading

namespace Dec

/-- The quotient rounded toward zero, and the remainder, which has the sign of the dividend. It is
the sizes that are divided; their quotient is negated where just one of the integers is negative. -/
def truncatedDivMod (a b : Int) : Int × Int :=
  let size : Int := a.natAbs / b.natAbs
  let quotient := if (a < 0) ≠ (b < 0) then -size else size
  (quotient, a - b * quotient)

def Number.toBinary64? (n : Number) : Option Binary64 :=
  match n with
  | .int _ => if n.toBinary64.isFinite then some n.toBinary64 else none
  | .float x => some x

namespace Scalar

def toInteger? (s : Scalar) : Option Int :=
  match s with
  | .text t => Reading.integer? t
  | _ => s.number?.bind Number.truncate?

/-- Whether a value is a number that is zero. A text is no number, whatever it holds. -/
def isZero (s : Scalar) : Bool := s.number?.any Number.isZero

end Scalar

namespace BinaryOp

variable (op : BinaryOp) (location : Option Location)

def integerPart (a : Scalar) : Except EvalFault Int :=
  match a.toInteger? with
  | some i => .ok i
  | none => .error (.overflow op location)

def doubleOf (a : Scalar) : Except EvalFault Binary64 :=
  match a with
  | .text t => (Reading.double? t).getDM (.error (.unreadable t))
  | _ => (a.number?.bind Number.toBinary64?).getDM (.error (.overflow op location))

def onIntegers (f : Int → Int → Except EvalFault Number) (a b : Scalar) :
    Except EvalFault Number := do
  let a ← integerPart op location a
  let b ← integerPart op location b
  f a b

def divide (a b : Scalar) : Except EvalFault Number :=
  if b.isZero then .error (.divisionByZero op location)
  else do
    let x ← doubleOf op location a
    let y ← doubleOf op location b
    if y.isZero then .error .zeroText else return .float (x.div y)

def divideWhole (part : Int × Int → Int) (a b : Int) : Except EvalFault Number :=
  if b = 0 then .error (.divisionByZero op location)
  else .ok (.int (part (truncatedDivMod a b)))

def raise (a b : Int) : Except EvalFault Number :=
  if a = 0 ∧ b < 0 then .error (.divisionByZero op location)
  else do
    let x ← doubleOf op location (.number (.int a))
    let y ← doubleOf op location (.number (.int b))
    let result := x.power y
    if result.isFinite then return .float result else .error (.overflow op location)

def apply (a b : Scalar) : Except EvalFault Number :=
  match op with
  | .plus => onIntegers op location (fun a b => .ok (.int (a + b))) a b
  | .minus => onIntegers op location (fun a b => .ok (.int (a - b))) a b
  | .times => onIntegers op location (fun a b => .ok (.int (a * b))) a b
  | .floatDiv => divide op location a b
  | .intDiv => onIntegers op location (divideWhole op location Prod.fst) a b
  | .modulus => onIntegers op location (divideWhole op location Prod.snd) a b
  | .power => onIntegers op location (raise op location) a b

end BinaryOp

end Dec
