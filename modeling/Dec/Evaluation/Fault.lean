import Dec.Token
import Dec.Diagnostic

namespace Dec

/-- Why an evaluation fails, and where. The last two come only from texts among the values that a
program is given: one that holds no number, and a divisor that holds zero. -/
inductive EvalFault where
  | unbound (name : String) (location : Option Location)
  | divisionByZero (op : BinaryOp) (location : Option Location)
  | emptyBlock (location : Option Location)
  | overflow (op : BinaryOp) (location : Option Location)
  | tooDeep (location : Option Location)
  | unreadable (text : String)
  | zeroText
deriving DecidableEq

namespace EvalFault

def titles : List (String × String) :=
  [("R001", "Unbound variable"), ("R002", "Division by zero"), ("R003", "Empty block"),
    ("R004", "Numeric overflow"), ("R005", "Nesting too deep")]

def unboundDiagnostic (name : String) (location : Option Location) : Diagnostic where
  message := "Unbound variable: '" ++ name ++ "'"
  location := location
  code := some "R001"
  help := some ("'" ++ name ++ "' has no value in the current or any enclosing block.")
  suggestions :=
    ["Assign '" ++ name ++ "' before reading it", "Run name analysis before evaluating"]

def divisionByZeroDiagnostic (operator : String) (location : Option Location) : Diagnostic where
  message := "Division by zero"
  location := location
  code := some "R002"
  help := some <|
    if operator = "^" then "Raising zero to a negative power divides by zero."
    else "The right operand of '" ++ operator ++ "' evaluated to zero."

def emptyBlockDiagnostic (location : Option Location) : Diagnostic where
  message := "Empty block has no value"
  location := location
  code := some "R003"
  help := some "A block evaluates to its return value or to the value of its last statement."
  suggestions := ["Add a return statement to the block"]

def overflowDiagnostic (operator : String) (location : Option Location) : Diagnostic where
  message := "Numeric overflow in '" ++ operator ++ "'"
  location := location
  code := some "R004"
  help := some "The result of this operation is too large to represent as a number."

def tooDeepDiagnostic (location : Option Location) : Diagnostic where
  message := "Nesting too deep to evaluate"
  location := location
  code := some "R005"
  help := some
    "The program nests blocks or expressions more deeply than the evaluator can follow."
  suggestions :=
    ["Split deeply nested expressions into assignments to intermediate variables"]

def unreadableDiagnostic (text : String) : Diagnostic where
  message := "could not convert string to float: " ++ Text.quoted text
  location := none

def zeroTextDiagnostic : Diagnostic where
  message := "float division by zero"
  location := none

def diagnostic : EvalFault → Diagnostic
  | unbound name location => unboundDiagnostic name location
  | divisionByZero op location => divisionByZeroDiagnostic op.symbol location
  | emptyBlock location => emptyBlockDiagnostic location
  | overflow op location => overflowDiagnostic op.symbol location
  | tooDeep location => tooDeepDiagnostic location
  | unreadable text => unreadableDiagnostic text
  | zeroText => zeroTextDiagnostic

end EvalFault

end Dec
