import Dec.Number
import Dec.Text.Quoted

namespace Dec

/-- A place in a named source: line and column count from one, the offset from zero. -/
structure Location where
  file : String
  line : Int
  column : Int
  offset : Int
deriving DecidableEq, Inhabited

namespace Location

def text (l : Location) : String :=
  l.file ++ ":" ++ decimalText l.line ++ ":" ++ decimalText l.column

def details (l : Location) : String :=
  "SourceLocation(" ++ Text.quoted l.file ++ ", " ++ decimalText l.line ++ ", " ++
    decimalText l.column ++ ", " ++ decimalText l.offset ++ ")"

def unknown : Location := ⟨"<unknown>", 1, 1, 0⟩

end Location

def Location.textOrAbsent : Option Location → String
  | none => "None"
  | some l => l.text

structure Cursor where
  offset : Nat
  line : Nat
  column : Nat
deriving DecidableEq, Inhabited

namespace Cursor

def start : Cursor := ⟨0, 1, 1⟩

/-- The position after one more character. Only a line feed starts a new line. -/
def step (p : Cursor) (c : Char) : Cursor :=
  if c = '\n' then ⟨p.offset + 1, p.line + 1, 1⟩ else ⟨p.offset + 1, p.line, p.column + 1⟩

def advance (p : Cursor) (cs : List Char) : Cursor := cs.foldl step p

def location (p : Cursor) (file : String) : Location := ⟨file, p.line, p.column, p.offset⟩

end Cursor

end Dec
