import Dec.Tree

namespace Dec.Node

def compareCost : Nat := 3

mutual

/-- Whether two trees have the same shape and content. There is no answer when the walk goes deeper
than its budget; it goes from left to right and ends at the first difference. -/
def alike (budget : Nat) : Node → Node → Option Bool
  | literal _ (.int m), literal _ (.int n) => some (m == n)
  | literal _ (.float x), literal _ (.float y) => some (x.same y)
  | var _ a, var _ b => some (a == b)
  | binary _ op left right, binary _ op' left' right' =>
    -- a difference that shows at once is found whatever the budget
    if op ≠ op' then some false
    else if budget < compareCost then none
    else
      match alike (budget - compareCost) left left' with
      | some true => alike (budget - compareCost) right right'
      | other => other
  | assign _ _ a value, assign _ _ b value' =>
    if budget < compareCost then none
    else if a = b then alike (budget - compareCost) value value' else some false
  | ret _ value, ret _ value' =>
    if budget < compareCost then none else alike (budget - compareCost) value value'
  | block _ _ body, block _ _ body' =>
    if body.length ≠ body'.length then some false
    else if budget < compareCost then none
    else allAlike (budget - compareCost) body body'
  | _, _ => some false

def allAlike (budget : Nat) : List Node → List Node → Option Bool
  | n :: rest, n' :: rest' =>
    match alike budget n n' with
    | some true => allAlike budget rest rest'
    | other => other
  | _, _ => some true

end

def sameShape? (budget : Nat) : Option Node → Option Node → Option Bool
  | none, none => some true
  | some a, some b => alike budget a b
  | _, _ => some false

end Dec.Node
