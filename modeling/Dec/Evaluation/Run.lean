import Dec.Evaluation.Arithmetic
import Dec.Tree

namespace Dec

inductive EvalEvent where
  | result (value : Scalar)
  | returned (value : Scalar) (location : Option Location)
  | entered (location : Option Location) (depth : Nat)
  | left (location : Option Location) (scope : Bindings Scalar)

namespace EvalEvent

def text? : EvalEvent → Option String
  | result value => ("Program result: " ++ ·) <$> value.quoted?
  | returned value location => do
    let value ← value.quoted?
    return "Return " ++ value ++ " at " ++ Location.textOrAbsent location
  | entered location depth =>
    some ("Enter block at " ++ Location.textOrAbsent location ++ " (depth " ++
      decimalText depth ++ ")")
  | left location scope => do
    let scope ← scope.text? bareOrAbsent?
    return "Leave block at " ++ Location.textOrAbsent location ++ ": " ++ scope

def isReturn : EvalEvent → Bool
  | returned .. => true
  | _ => false

end EvalEvent

structure EvalState where
  scopes : Chain Scalar
  returning : Bool
  events : List EvalEvent

namespace EvalState

def report (r : EvalState) (e : EvalEvent) : EvalState := { r with events := e :: r.events }

def enter (r : EvalState) : EvalState := { r with scopes := .empty :: r.scopes }

def leave (r : EvalState) : EvalState := { r with scopes := r.scopes.tail }

end EvalState

namespace Node

/-- Division is computed one call further up than the other operations. -/
def evalCost : BinaryOp → Nat
  | .floatDiv => 3
  | _ => 4

mutual

/-- The value of a tree, left operands first. The state is kept when the evaluation fails; `whole`
is the place of the whole tree, where too deep a nesting is reported. -/
def eval (whole : Option Location) (budget : Nat) (r : EvalState) :
    Node → Except EvalFault Scalar × EvalState
  | literal _ value => (.ok (.number value), r)
  | var tag name =>
    match r.scopes.find? name with
    | some (some value) => (.ok value, r)
    | _ => (.error (.unbound name tag.location), r)
  | binary tag op left right =>
    if budget < evalCost op then (.error (.tooDeep whole), r)
    else
      match eval whole (budget - evalCost op) r left with
      | (.error fault, r) => (.error fault, r)
      | (.ok a, r) =>
        match eval whole (budget - evalCost op) r right with
        | (.error fault, r) => (.error fault, r)
        | (.ok b, r) => ((op.apply tag.location a b).map .number, r)
  | assign _ _ name value =>
    if budget < statementCost then (.error (.tooDeep whole), r)
    else
      match eval whole (budget - statementCost) r value with
      | (.error fault, r) => (.error fault, r)
      | (.ok v, r) => (.ok v, { r with scopes := r.scopes.define name (some v) })
  | ret tag value =>
    if budget < statementCost then (.error (.tooDeep whole), r)
    else
      match eval whole (budget - statementCost) r value with
      | (.error fault, r) => (.error fault, r)
      | (.ok v, r) => (.ok v, { r with returning := true }.report (.returned v tag.location))
  | block tag _ body =>
    if body.isEmpty then (.error (.emptyBlock tag.location), r)
    else if budget < blockCost then (.error (.tooDeep whole), r)
    else
      let inside := r.enter
      let inside := inside.report (.entered tag.location inside.scopes.depth)
      match evalBody whole (budget - blockCost) tag.location inside body with
      -- the scope is dropped without a report
      | (.error fault, r) => (.error fault, r.leave)
      | (.ok v, r) =>
        (.ok v, (r.report (.left tag.location (r.scopes.headD .empty))).leave)

def evalBody (whole : Option Location) (budget : Nat) (place : Option Location) (r : EvalState) :
    List Node → Except EvalFault Scalar × EvalState
  | [] => (.error (.emptyBlock place), r)
  -- after the last statement there is nothing to skip
  | [n] => eval whole budget r n
  | n :: next :: rest =>
    match eval whole budget r n with
    | (.error fault, r) => (.error fault, r)
    | (.ok v, r) =>
      if r.returning then (.ok v, r) else evalBody whole budget place r (next :: rest)

end

end Node

structure Evaluator where
  returning : Bool
deriving DecidableEq, Inhabited

namespace Evaluator

def fresh : Evaluator := ⟨false⟩

def initial (_ : Evaluator) (bindings : List (String × Option Scalar)) : EvalState :=
  ⟨[.ofPairs bindings], false, []⟩

def evaluate (budget : Nat) (e : Evaluator) (n : Node) (bindings : List (String × Option Scalar)) :
    Except EvalFault Scalar × Evaluator × List EvalEvent :=
  match n.eval n.location budget (e.initial bindings) with
  | (.ok value, r) => (.ok value, ⟨r.returning⟩, (r.report (.result value)).events.reverse)
  | (.error fault, r) => (.error fault, ⟨r.returning⟩, r.events.reverse)

end Evaluator

def evaluate (budget : Nat) (n : Node) (bindings : List (String × Option Scalar)) :
    Except EvalFault Scalar :=
  (Evaluator.fresh.evaluate budget n bindings).1

end Dec
