import Dec.Tree

namespace Dec.Node

def isExpression : Node → Bool
  | literal .. => true
  | var .. => true
  | binary _ _ left right => left.isExpression && right.isExpression
  | _ => false

mutual

/-- Operands and the right sides of assignments and returns are expressions. -/
def wellPlaced : Node → Bool
  | literal .. => true
  | var .. => true
  | binary _ _ left right => left.isExpression && right.isExpression
  | assign _ _ _ value => value.isExpression
  | ret _ value => value.isExpression
  | block _ _ body => allWellPlaced body

def allWellPlaced : List Node → Bool
  | [] => true
  | n :: rest => n.wellPlaced && allWellPlaced rest

end

mutual

def isStatement : Node → Bool
  | assign _ _ _ value => value.isExpression
  | ret _ value => value.isExpression
  | block _ _ body => allAreStatements body
  | _ => false

def allAreStatements : List Node → Bool
  | [] => true
  | n :: rest => n.isStatement && allAreStatements rest

end

mutual

def returnFree : Node → Bool
  | literal .. => true
  | var .. => true
  | binary _ _ left right => left.returnFree && right.returnFree
  | assign _ _ _ value => value.returnFree
  | ret .. => false
  | block _ _ body => allReturnFree body

def allReturnFree : List Node → Bool
  | [] => true
  | n :: rest => n.returnFree && allReturnFree rest

end

theorem allAreStatements_iff {body : List Node} :
    allAreStatements body = true ↔ ∀ n ∈ body, n.isStatement = true := by
  induction body with
  | nil => simp [allAreStatements]
  | cons n rest ih => simp [allAreStatements, ih]

theorem wellPlaced_of_isExpression {n : Node} (h : n.isExpression = true) : n.wellPlaced = true := by
  cases n <;> simp_all [isExpression, wellPlaced]

end Dec.Node
