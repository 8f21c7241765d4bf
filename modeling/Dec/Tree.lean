import Dec.Token
import Dec.Scope

namespace Dec

structure Tag where
  id : Nat
  location : Option Location
deriving DecidableEq, Inhabited

/-- The symbol table of a block: the names that the block assigns itself. It knows which table
encloses it and how many do in all. -/
structure Table where
  id : Nat
  outer : Option Nat
  depth : Nat
  bindings : Bindings Scalar
deriving DecidableEq, Inhabited

/-- A node of a syntax tree. An assignment keeps the tag of its target variable beside its own. Any
node may stand where a node is asked for. -/
inductive Node where
  | literal (tag : Tag) (value : Number)
  | var (tag : Tag) (name : String)
  | binary (tag : Tag) (op : BinaryOp) (left right : Node)
  | assign (tag target : Tag) (name : String) (value : Node)
  | ret (tag : Tag) (value : Node)
  | block (tag : Tag) (table : Table) (body : List Node)
deriving Inhabited

namespace Node

def tag : Node → Tag
  | literal tag .. => tag
  | var tag .. => tag
  | binary tag .. => tag
  | assign tag .. => tag
  | ret tag .. => tag
  | block tag .. => tag

def id (n : Node) : Nat := n.tag.id

def location (n : Node) : Option Location := n.tag.location

/-- Nodes are equal when they are the same node. -/
instance : BEq Node := ⟨fun a b => a.id == b.id⟩

theorem beq_eq (a b : Node) : (a == b) = (a.id == b.id) := rfl

instance : EquivBEq Node where
  rfl := by simp [beq_eq]
  symm := by simp only [beq_eq, beq_iff_eq]; exact Eq.symm
  trans := by simp only [beq_eq, beq_iff_eq]; exact Eq.trans

def children : Node → List Node
  | literal .. => []
  | var .. => []
  | binary _ _ left right => [left, right]
  | assign _ target name value => [var target name, value]
  | ret _ value => [value]
  | block _ _ body => body

def operatorClass : BinaryOp → String
  | .plus => "PlusNode"
  | .minus => "MinusNode"
  | .times => "TimesNode"
  | .floatDiv => "FloatDivNode"
  | .intDiv => "IntDivNode"
  | .modulus => "ModulusNode"
  | .power => "ExponentiationNode"

def className : Node → String
  | literal .. => "LiteralNode"
  | var .. => "VariableNode"
  | binary _ op .. => operatorClass op
  | assign .. => "AssignmentStmt"
  | ret .. => "ReturnStmt"
  | block .. => "BlockStmt"

def operatorKind : BinaryOp → String
  | .plus => "PLUS"
  | .minus => "MINUS"
  | .times => "TIMES"
  | .floatDiv => "FLOAT_DIV"
  | .intDiv => "INT_DIV"
  | .modulus => "MODULUS"
  | .power => "EXPONENTIATION"

def kindName : Node → String
  | literal .. => "LITERAL"
  | var .. => "VARIABLE"
  | binary _ op .. => operatorKind op
  | assign .. => "ASSIGNMENT"
  | ret .. => "RETURN_STATEMENT"
  | block .. => "BLOCK_STATEMENT"

def heading (n : Node) : String :=
  n.className ++
    match n.location with
    | some l => "@" ++ l.text
    | none => ""

def table? : Node → Option Table
  | block _ table _ => some table
  | _ => none

-- A walk over a tree nests calls, and where the host's stack has no room for one more the walk ends
-- with a fault. There is no such stack here: a walk has a budget of calls in its place, and the
-- costs say how many of them a visit nests. `usualBudget` is what the host's stack leaves to a walk
-- as a rule, as measured. It depends on the calls around the walk, so what is proved of walks is
-- proved for every budget.

def usualBudget : Nat := 988

def operatorCost : Nat := 3

def blockCost : Nat := 2

def statementCost : Nat := 2

def textCost : Nat := 2

def blockTextCost : Nat := 3

mutual

/-- A node with all below it in one line, without places. An integer that is too long is in the way
of that, and so is a tree that is nested too deeply; the first of them from the left is reported. -/
def text (budget : Nat) : Node → Except Unwritable String
  | literal _ value => do
    let value ← orTooLong value.text?
    return "LiteralNode(" ++ value ++ ")"
  | var _ name => .ok ("VariableNode(" ++ Text.quoted name ++ ")")
  | binary _ op left right =>
    if budget < textCost then .error .nestedTooDeep
    else do
      let left ← left.text (budget - textCost)
      let right ← right.text (budget - textCost)
      return operatorClass op ++ "(" ++ left ++ ", " ++ right ++ ")"
  | assign _ _ name value =>
    if budget < textCost then .error .nestedTooDeep
    else do
      let value ← value.text (budget - textCost)
      return "AssignmentStmt(" ++ Text.quoted name ++ ", " ++ value ++ ")"
  | ret _ value =>
    if budget < textCost then .error .nestedTooDeep
    else do
      let value ← value.text (budget - textCost)
      return "ReturnStmt(" ++ value ++ ")"
  | block _ _ body =>
    if budget < blockTextCost then .error .nestedTooDeep
    else do
      let body ← texts (budget - blockTextCost) body
      return "BlockStmt([" ++ ", ".intercalate body ++ "])"

def texts (budget : Nat) : List Node → Except Unwritable (List String)
  | [] => .ok []
  | n :: rest => do
    let first ← n.text budget
    let others ← texts budget rest
    return first :: others

end

def textOrAbsent (budget : Nat) : Option Node → Except Unwritable String
  | none => .ok absentText
  | some n => n.text budget

end Node

end Dec
