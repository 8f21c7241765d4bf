import Dec.Tree
import Dec.Diagnostic

namespace Dec

inductive SourceFault where
  | tooDeep
  | integerTooLong
deriving DecidableEq

namespace SourceFault

def titles : List (String × String) := [("U001", "Nesting too deep")]

def tooDeepDiagnostic (location : Option Location) : Diagnostic where
  message := "Nesting too deep to unparse"
  location := location
  code := some "U001"
  help := some "The tree is nested more deeply than the unparser can follow."

end SourceFault

def usualIndent : String := "    "

namespace Node

def indentation (indent : String) (level : Int) : String :=
  String.join (List.replicate level.toNat indent)

mutual

/-- The source text of a tree. Operands start at level zero, whatever the level of the operation. -/
def write (indent : String) (budget : Nat) (level : Int) : Node → Except SourceFault String
  | literal _ value =>
    match value.text? with
    | some text => .ok text
    -- only integers can be too long
    | none => .error .integerTooLong
  | var _ name => .ok name
  | binary _ op left right =>
    if budget < operatorCost then .error .tooDeep
    else do
      let left ← write indent (budget - operatorCost) 0 left
      let right ← write indent (budget - operatorCost) 0 right
      return "(" ++ left ++ " " ++ op.symbol ++ " " ++ right ++ ")"
  | assign _ _ name value =>
    if budget < statementCost then .error .tooDeep
    else do
      let value ← write indent (budget - statementCost) level value
      return indentation indent level ++ name ++ " := " ++ value
  | ret _ value =>
    if budget < statementCost then .error .tooDeep
    else do
      let value ← write indent (budget - statementCost) level value
      return indentation indent level ++ "return " ++ value
  | block _ _ body =>
    if budget < blockCost then .error .tooDeep
    else do
      let body ← writeAll indent (budget - blockCost) (level + 1) body
      let opening := indentation indent level ++ "\x7b"
      let closing := indentation indent level ++ "\x7d"
      return "\n".intercalate (opening :: body ++ [closing])

def writeAll (indent : String) (budget : Nat) (level : Int) :
    List Node → Except SourceFault (List String)
  | [] => .ok []
  | n :: rest => do
    let first ← write indent budget level n
    let others ← writeAll indent budget level rest
    return first :: others

end

def source (budget : Nat) (n : Node) (indent : String) (level : Int) : Except SourceFault String :=
  n.write indent budget level

end Node

end Dec
