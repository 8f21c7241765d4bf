import Dec.Token
import Dec.Diagnostic

namespace Dec

inductive Expected where
  | kind (k : TokenKind)
  | phrase (text : String)
deriving DecidableEq

namespace Expected

def describe : Expected → String
  | phrase text => text
  | kind k =>
    match k.sign?, k with
    | some sign, _ => "'" ++ sign ++ "'"
    | none, .identifier => "identifier"
    | none, .returnWord => "'return'"
    | none, .endOfInput => "end of input"
    | none, other => other.name

def suggestions : Expected → List String
  | kind .rightParen => ["Add a closing parenthesis ')'"]
  | kind .rightBrace => ["Add a closing brace '\x7d'"]
  | kind .leftBrace => ["A DEC program is a single block: wrap it in '\x7b' ... '\x7d'"]
  | kind .assign => ["Use ':=' to assign a value to a variable"]
  | _ => []

end Expected

def operatorSuggestions (sign : String) : List String :=
  if sign = "=" then ["Use ':=' for assignment"]
  else if sign = "**" then ["Use '^' for exponentiation"]
  else if sign = "==" then ["DEC has no comparison operators"]
  else ["Valid operators are + - * / // % ^"]

inductive Delimiter where
  | paren
  | brace
deriving DecidableEq

namespace Delimiter

def opening : Delimiter → String
  | paren => "("
  | brace => "\x7b"

end Delimiter

/-- The sign that closes a delimiter; what is no delimiter closes itself. -/
def closingFor (opening : String) : String :=
  if opening = "(" then ")" else if opening = "\x7b" then "\x7d" else opening

inductive Misuse where
  | unknownSign
  | assignWithoutTarget
  | insteadOfAssign (name : String)
  | assignBeforeOperand
  | assignInsideExpression
deriving DecidableEq

namespace Misuse

def reason (found : Token) : Misuse → String
  | unknownSign => found.describe ++ " is not a DEC operator."
  | assignWithoutTarget => "':=' must follow the name of the variable being assigned."
  | insteadOfAssign name => "Assignments to '" ++ name ++ "' are written with ':='."
  | assignBeforeOperand => "':=' can only appear right after the target of an assignment."
  | assignInsideExpression => "':=' cannot be used inside an expression."

end Misuse

/-- What can be wrong with a sequence of tokens; `found` is the first token that does not fit. -/
inductive SyntaxFault where
  | unexpected (expected : Expected) (found : Token)
  | unclosed (delimiter : Delimiter) (opened : Option Location) (found : Token)
  | noExpression (found : Token)
  | misusedOperator (misuse : Misuse) (found : Token)
  | unexpectedEnd (expected : Expected) (found : Token)
  | trailingInput (found : Token)
  | tooDeep (found : Token)
deriving DecidableEq

namespace SyntaxFault

def titles : List (String × String) :=
  [("P001", "Unexpected token"), ("P004", "Unclosed delimiter"), ("P005", "Invalid expression"),
    ("P009", "Invalid operator usage"), ("P010", "Unexpected end of input"),
    ("P013", "Trailing input after program"), ("P014", "Nesting too deep")]

def found : SyntaxFault → Token
  | unexpected _ found => found
  | unclosed _ _ found => found
  | noExpression found => found
  | misusedOperator _ found => found
  | unexpectedEnd _ found => found
  | trailingInput found => found
  | tooDeep found => found

def code : SyntaxFault → String
  | unexpected .. => "P001"
  | unclosed .. => "P004"
  | noExpression .. => "P005"
  | misusedOperator .. => "P009"
  | unexpectedEnd .. => "P010"
  | trailingInput .. => "P013"
  | tooDeep .. => "P014"

def unexpectedDiagnostic (expected : Expected) (found : Token) : Diagnostic where
  message := "Expected " ++ expected.describe ++ ", found " ++ found.describe
  location := found.location
  code := some "P001"
  help := some ("The parser expected to see " ++ expected.describe ++
    " at this position, but found " ++ found.describe ++ " instead.")
  suggestions := expected.suggestions

def unclosedDiagnostic (opening : String) (opened : Option Location) (found : Token) :
    Diagnostic where
  message := "Unclosed delimiter '" ++ opening ++ "': expected '" ++ closingFor opening ++
    "', found " ++ found.describe
  location := found.location
  code := some "P004"
  help := some ("The opening '" ++ opening ++ "' at " ++ Location.textOrAbsent opened ++
    " was never closed.")
  suggestions := ["Add a closing '" ++ closingFor opening ++ "'", "Check for missing delimiters"]

def noExpressionDiagnostic (reason : String) (found : Token) : Diagnostic where
  message := "Expected expression, found " ++ found.describe
  location := found.location
  code := some "P005"
  help := some reason
  suggestions :=
    ["An expression is a number, a variable, or '(' expression operator expression ')'",
      "Wrap every binary operation in parentheses"]

def misusedOperatorDiagnostic (reason : String) (found : Token) : Diagnostic where
  message := "Invalid operator usage: " ++ found.describe
  location := found.location
  code := some "P009"
  help := some reason
  suggestions := operatorSuggestions found.lexeme

def unexpectedEndDiagnostic (expected : Expected) (found : Token) : Diagnostic where
  message := "Unexpected end of input, expected " ++ expected.describe
  location := found.location
  code := some "P010"
  help := some ("The parser reached the end of the input while expecting " ++ expected.describe ++
    ".")
  suggestions := ["Add the missing " ++ expected.describe, "Check for incomplete statements"]

def trailingInputDiagnostic (found : Token) : Diagnostic where
  message := "Expected end of input, found " ++ found.describe
  location := found.location
  code := some "P013"
  help := some "A DEC program is exactly one block; nothing may follow its closing '\x7d'."
  suggestions := ["Move the trailing statements inside the program block"]

def tooDeepDiagnostic (found : Token) : Diagnostic where
  message := "Nesting too deep at " ++ found.describe
  location := found.location
  code := some "P014"
  help := some
    "Blocks and parenthesized expressions are nested more deeply than the parser can follow."
  suggestions :=
    ["Split deeply nested expressions into assignments to intermediate variables"]

def noExpressionReason (found : Token) : String :=
  match found.kind with
  | .operator _ => "Binary operators are written between their operands: '(' left op right ')'."
  | _ => found.describe ++ " cannot start an expression."

def diagnostic : SyntaxFault → Diagnostic
  | unexpected expected found => unexpectedDiagnostic expected found
  | unclosed delimiter opened found => unclosedDiagnostic delimiter.opening opened found
  | noExpression found => noExpressionDiagnostic (noExpressionReason found) found
  | misusedOperator misuse found => misusedOperatorDiagnostic (misuse.reason found) found
  | unexpectedEnd expected found => unexpectedEndDiagnostic expected found
  | trailingInput found => trailingInputDiagnostic found
  | tooDeep found => tooDeepDiagnostic found

end SyntaxFault

end Dec
