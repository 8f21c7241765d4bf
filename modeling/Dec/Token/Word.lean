import Dec.Token
import Dec.Token.Numeral
import Dec.Diagnostic

namespace Dec

inductive LexicalFault where
  | invalidCharacter (c : Char)
  | runsIntoName (numeral : Numeral) (next : Char)
  | integerTooLong (numeral : Numeral)
  | floatTooLarge (numeral : Numeral)
deriving DecidableEq

namespace LexicalFault

def titles : List (String × String) :=
  [("L001", "Invalid character"), ("L003", "Invalid numeric literal")]

def codePoint (c : Char) : String :=
  .ofList ('U' :: '+' :: (Text.hexDigits 4 c.toNat).map Char.toUpper)

def characterDiagnostic (text : String) (location : Option Location) : Diagnostic where
  message := "Invalid character: '" ++ text ++ "'"
  location := location
  code := some "L001"
  help := some <|
    if text.toList.all Text.isPrintable then
      "The character '" ++ text ++ "' is not valid in DEC source code."
    else
      "Non-printable character (Unicode: " ++ String.join (text.toList.map codePoint) ++
        ") is not allowed."

def numberDiagnostic (lexeme : String) (location : Option Location) (reason : String) :
    Diagnostic where
  message := "Invalid numeric literal: '" ++ lexeme ++ "'"
  location := location
  code := some "L003"
  help := some reason
  suggestions := ["Write integers as digits only, floats as digits '.' digits"]

def diagnostic (location : Option Location) : LexicalFault → Diagnostic
  | invalidCharacter c => characterDiagnostic (.singleton c) location
  | runsIntoName n next =>
    numberDiagnostic (.ofList (n.chars ++ [next])) location
      "A numeric literal cannot run directly into a letter or underscore."
  | integerTooLong n =>
    numberDiagnostic (.ofList n.chars) location "The integer literal has too many digits."
  | floatTooLarge n =>
    numberDiagnostic (.ofList n.chars) location "The float literal is too large to represent."

/-- The characters that were read before the fault showed: a bad numeral is read to its end. -/
def consumed : LexicalFault → List Char
  | invalidCharacter _ => []
  | runsIntoName n _ | integerTooLong n | floatTooLarge n => n.chars

end LexicalFault

structure Word where
  kind : TokenKind
  chars : List Char
  value : Option Scalar
deriving DecidableEq

namespace Word

def isNameStart (c : Char) : Bool := c.isAlpha || c == '_'

def isNamePart (c : Char) : Bool := c.isAlphanum || c == '_'

def operatorChars : List Char := "+-*/%^:=<>!&|~.,;?@$".toList

def isOperatorChar (c : Char) : Bool := operatorChars.contains c

def returnWord : List Char := "return".toList

def ofNumeral (n : Numeral) (rest : List Char) : Except LexicalFault Word :=
  match rest.head?.filter isNameStart with
  | some next => .error (.runsIntoName n next)
  | none =>
    if !n.isFloat && n.whole.length > maxIntegerDigits then .error (.integerTooLong n)
    else if n.value.isFinite then
      .ok ⟨if n.isFloat then .float else .integer, n.chars, some (.number n.value)⟩
    else .error (.floatTooLarge n)

def ofName (name : List Char) : Word :=
  if name = returnWord then ⟨.returnWord, name, none⟩
  else ⟨.identifier, name, some (.text (.ofList name))⟩

def sign? : List Char → Option Word
  | c :: d :: _ =>
    match TokenKind.ofSign? (.ofList [c, d]) with
    | some kind => some ⟨kind, [c, d], none⟩
    | none => (TokenKind.ofSign? (.singleton c)).map fun kind => ⟨kind, [c], none⟩
  | [c] => (TokenKind.ofSign? (.singleton c)).map fun kind => ⟨kind, [c], none⟩
  | [] => none

/-- Whether a numeral starts here. A minus belongs to the digit after it only where a sign may
stand. -/
def startsNumeral (signAllowed : Bool) (c : Char) (rest : List Char) : Bool :=
  c.isDigit || (c == '-' && signAllowed && (rest.head?.any Char.isDigit))

def scan (signAllowed : Bool) (c : Char) (rest : List Char) : Except LexicalFault Word :=
  if startsNumeral signAllowed c rest then
    let n := Numeral.scan (c :: rest)
    ofNumeral n ((c :: rest).drop n.chars.length)
  else if isNameStart c then .ok (ofName ((c :: rest).takeWhile isNamePart))
  else
    -- a known sign is read even where a longer run of operator characters goes on
    match sign? (c :: rest) with
    | some word => .ok word
    | none =>
      if isOperatorChar c then .ok ⟨.unknown, (c :: rest).takeWhile isOperatorChar, none⟩
      else .error (.invalidCharacter c)

end Word

end Dec
