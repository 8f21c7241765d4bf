import Dec.Scalar
import Dec.Location

namespace Dec

inductive BinaryOp where
  | plus
  | minus
  | times
  | floatDiv
  | intDiv
  | modulus
  | power
deriving DecidableEq, Inhabited

namespace BinaryOp

def all : List BinaryOp := [.plus, .minus, .times, .floatDiv, .intDiv, .modulus, .power]

def symbol : BinaryOp → String
  | .plus => "+"
  | .minus => "-"
  | .times => "*"
  | .floatDiv => "/"
  | .intDiv => "//"
  | .modulus => "%"
  | .power => "^"

def ofSymbol? (s : String) : Option BinaryOp := all.find? fun op => op.symbol == s

end BinaryOp

/-- The kinds of token. An unknown token is a run of operator characters that means nothing. -/
inductive TokenKind where
  | endOfInput
  | unknown
  | integer
  | float
  | identifier
  | returnWord
  | operator (op : BinaryOp)
  | assign
  | leftParen
  | rightParen
  | leftBrace
  | rightBrace
deriving DecidableEq, Inhabited

namespace TokenKind

def name : TokenKind → String
  | .endOfInput => "EOF"
  | .unknown => "UNKNOWN"
  | .integer => "INTEGER"
  | .float => "FLOAT"
  | .identifier => "IDENTIFIER"
  | .returnWord => "RETURN"
  | .operator .plus => "PLUS"
  | .operator .minus => "MINUS"
  | .operator .times => "MULTIPLY"
  | .operator .floatDiv => "DIVIDE"
  | .operator .intDiv => "FLOOR_DIVIDE"
  | .operator .modulus => "MODULO"
  | .operator .power => "POWER"
  | .assign => "ASSIGN"
  | .leftParen => "LEFT_PAREN"
  | .rightParen => "RIGHT_PAREN"
  | .leftBrace => "LEFT_BRACE"
  | .rightBrace => "RIGHT_BRACE"

def all : List TokenKind :=
  [.endOfInput, .unknown, .integer, .float, .identifier, .returnWord] ++
    BinaryOp.all.map .operator ++ [.assign, .leftParen, .rightParen, .leftBrace, .rightBrace]

def ofName? (s : String) : Option TokenKind := all.find? fun k => k.name == s

def category : TokenKind → String
  | .endOfInput => "eof"
  | .unknown => "unknown"
  | .integer => "literal-int"
  | .float => "literal-float"
  | .identifier => "identifier"
  | .returnWord => "keyword"
  | .operator _ | .assign => "operator"
  | .leftParen | .rightParen | .leftBrace | .rightBrace => "punctuation"

def signs : List (String × TokenKind) :=
  BinaryOp.all.map (fun op => (op.symbol, .operator op)) ++
    [(":=", .assign), ("(", .leftParen), (")", .rightParen), ("\x7b", .leftBrace),
      ("\x7d", .rightBrace)]

def sign? (k : TokenKind) : Option String := (signs.find? fun s => s.2 == k).map (·.1)

def ofSign? (s : String) : Option TokenKind := signs.lookup s

def isLiteral : TokenKind → Bool
  | .integer | .float => true
  | _ => false

def isKeyword : TokenKind → Bool
  | .returnWord => true
  | _ => false

def isOperator : TokenKind → Bool
  | .operator _ | .assign => true
  | _ => false

def isIdentifier : TokenKind → Bool
  | .identifier => true
  | _ => false

/-- The kinds after which an operand comes, so that a minus before a digit is a sign. -/
def expectsOperand : TokenKind → Bool
  | .leftParen | .leftBrace | .returnWord | .assign | .operator _ => true
  | _ => false

end TokenKind

/-- A word of a source text. Literals carry their number, identifiers their name. -/
structure Token where
  kind : TokenKind
  lexeme : String
  value : Option Scalar
  location : Option Location
deriving DecidableEq, Inhabited

namespace Token

def endOfInput (location : Option Location) : Token := ⟨.endOfInput, "", none, location⟩

def isEnd (t : Token) : Bool := t.kind == .endOfInput

def hasOwnValue (t : Token) : Bool :=
  match t.value with
  | none => false
  | some v => v != .text t.lexeme

def summary? (t : Token) : Option String := do
  let value ← if t.hasOwnValue then (" -> " ++ ·) <$> quotedOrAbsent? t.value else some ""
  return t.kind.name ++ "(" ++ Text.quoted t.lexeme ++ value ++ ")"

def details? (t : Token) : Option String := do
  let value ← quotedOrAbsent? t.value
  return "Token(" ++ t.kind.name ++ ", " ++ Text.quoted t.lexeme ++ ", " ++ value ++ ", " ++
    (match t.location with
      | some l => l.details
      | none => absentText) ++ ")"

def describe (t : Token) : String :=
  if t.isEnd then "end of input" else "'" ++ t.lexeme ++ "'"

end Token

end Dec
