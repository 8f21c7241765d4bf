import Dec.Token.Word
import Dec.Text.Character

/-!
Whole source texts as tokens. Blanks and comments only separate; a comment runs from a number sign
to the end of its line.
-/
namespace Dec

/-- Splits off the blanks and comments at the head of a text; the flag says that a comment is
open. -/
def splitGap : Bool → List Char → List Char × List Char
  | _, [] => ([], [])
  | inComment, c :: cs =>
    if inComment || c == '#' || Text.isBlank c then
      let (gap, rest) := splitGap (if inComment then c != '\n' else c == '#') cs
      (c :: gap, rest)
    else ([], c :: cs)

/-- Splitting off a gap loses nothing. -/
theorem splitGap_append (inComment : Bool) (cs : List Char) :
    (splitGap inComment cs).1 ++ (splitGap inComment cs).2 = cs := by
  induction cs generalizing inComment with
  | nil => rfl
  | cons c cs ih =>
    rw [splitGap]
    split
    · simp [ih]
    · rfl

/-- What follows a gap is no longer than the text. -/
theorem length_splitGap_le (inComment : Bool) (cs : List Char) :
    (splitGap inComment cs).2.length ≤ cs.length := by
  conv => rhs; rw [← splitGap_append inComment cs]
  simp

structure LexicalError where
  fault : LexicalFault
  location : Location
deriving DecidableEq

def LexicalError.diagnostic (e : LexicalError) : Diagnostic := e.fault.diagnostic (some e.location)

structure Lexed where
  tokens : List Token
  error : Option LexicalError
  stop : Cursor

/-- A minus before a digit is a sign at the start and where an operand is expected. -/
def signAllowedAfter : Option TokenKind → Bool
  | none => true
  | some kind => kind.expectsOperand

/-- Reads a text that continues at position `here` after a token of kind `previous`. -/
def lexFrom (file : String) (previous : Option TokenKind) (here : Cursor) (cs : List Char) :
    Lexed :=
  let gap := splitGap false cs
  let start := here.advance gap.1
  match _h : gap.2 with
  | [] => ⟨[], none, start⟩
  | c :: rest =>
    match Word.scan (signAllowedAfter previous) c rest with
    | .error fault =>
      ⟨[], some ⟨fault, start.location file⟩, start.advance fault.consumed⟩
    | .ok word =>
      -- every word is taken to have a first character, so that the rest is shorter
      let later := lexFrom file (some word.kind) (start.advance word.chars)
        (rest.drop (word.chars.length - 1))
      let token := ⟨word.kind, .ofList word.chars, word.value, some (start.location file)⟩
      { later with tokens := token :: later.tokens }
termination_by cs.length
decreasing_by
  have hle := length_splitGap_le false cs
  have hlen : (splitGap false cs).2.length = rest.length + 1 := by
    rw [show (splitGap false cs).2 = c :: rest from _h, List.length_cons]
  rw [List.length_drop]
  omega

def lex (source file : String) : Lexed := lexFrom file none .start source.toList

def tokenize (source file : String) : Except LexicalError (List Token) :=
  let lexed := lex source file
  match lexed.error with
  | some e => .error e
  | none => .ok (lexed.tokens ++ [.endOfInput (some (lexed.stop.location file))])

end Dec
