import Dec.Naming.Fault
import Dec.Scope.Similar
import Dec.Tree.Builder

namespace Dec

inductive NameEvent where
  | bound (name : String) (depth : Nat)
  | entered (depth : Nat)
  | left (depth : Nat) (scope : Bindings Scalar)

namespace NameEvent

def text? : NameEvent → Option String
  | bound name depth => some ("Bind: " ++ name ++ " (scope depth " ++ decimalText depth ++ ")")
  | entered depth => some ("ENTER scope (depth " ++ decimalText depth ++ ")")
  | left depth scope => do
    let scope ← scope.text? bareOrAbsent?
    return "LEAVE scope (depth " ++ decimalText depth ++ "): " ++ scope

end NameEvent

namespace Forest

def climb (f : Forest) : Nat → Nat → Option Table
  | 0, _ => none
  | steps + 1, id =>
    match f.owner? id with
    | none => none
    | some owner =>
      match owner.table with
      | some table => some table
      | none => climb f steps owner.id

/-- The table of the innermost block around a node. No climb is longer than there are owners. -/
def blockAround? (f : Forest) (id : Nat) : Option Table := f.climb f.owners.length id

end Forest

structure NameState where
  scopes : Chain Scalar
  events : List NameEvent

namespace NameState

def report (r : NameState) (e : NameEvent) : NameState := { r with events := e :: r.events }

def enter (r : NameState) : NameState := { r with scopes := .empty :: r.scopes }

def leave (r : NameState) : NameState := { r with scopes := r.scopes.tail }

end NameState

namespace Node

/-- The fault of a variable that is in no scope. The statement it is read in, if any, leads to the
block that may assign it later. -/
def undeclaredFault (f : Forest) (statement : Option Nat) (scopes : Chain Scalar) (tag : Tag)
    (name : String) : NameFault :=
  let later := match statement.bind f.blockAround? with
    | some table => table.bindings.contains name
    | none => false
  .undeclared name tag.location (scopes.similar name usualDistance) later

mutual

/-- Checks a tree. `statement` is the statement it belongs to; the state is kept when the check
fails; `whole` is the place of the whole tree, where too deep a nesting is reported. -/
def checkNames (f : Forest) (whole : Option Location) (budget : Nat) (statement : Option Nat)
    (r : NameState) : Node → Except NameFault Unit × NameState
  | literal .. => (.ok (), r)
  | var tag name =>
    if r.scopes.contains name then (.ok (), r)
    else (.error (undeclaredFault f statement r.scopes tag name), r)
  | binary _ _ left right =>
    if budget < operatorCost then (.error (.tooDeep whole), r)
    else
      match checkNames f whole (budget - operatorCost) statement r left with
      | (.error fault, r) => (.error fault, r)
      | (.ok (), r) => checkNames f whole (budget - operatorCost) statement r right
  | assign tag _ name value =>
    if budget < statementCost then (.error (.tooDeep whole), r)
    else
      match checkNames f whole (budget - statementCost) (some tag.id) r value with
      | (.error fault, r) => (.error fault, r)
      | (.ok (), r) =>
        -- only now: the value is checked without the name
        let r := { r with scopes := r.scopes.define name none }
        (.ok (), r.report (.bound name r.scopes.depth))
  | ret tag value =>
    if budget < statementCost then (.error (.tooDeep whole), r)
    else checkNames f whole (budget - statementCost) (some tag.id) r value
  | block _ _ body =>
    if budget < blockCost then (.error (.tooDeep whole), r)
    else
      let inside := r.enter
      let inside := inside.report (.entered inside.scopes.depth)
      match checkBody f whole (budget - blockCost) inside body with
      | (.error fault, r) => (.error fault, r.leave)
      | (.ok (), r) =>
        (.ok (), (r.report (.left r.scopes.depth (r.scopes.headD .empty))).leave)

def checkBody (f : Forest) (whole : Option Location) (budget : Nat) (r : NameState) :
    List Node → Except NameFault Unit × NameState
  | [] => (.ok (), r)
  | n :: rest =>
    match checkNames f whole budget (some n.id) r n with
    | (.error fault, r) => (.error fault, r)
    | (.ok (), r) => checkBody f whole budget r rest

end

end Node

def analyzeNames (budget : Nat) (f : Forest) (n : Node) (predeclared : List String) :
    Except NameFault Unit × List NameEvent :=
  let scope : Bindings Scalar := .ofPairs (predeclared.map fun name => (name, none))
  let (result, r) := n.checkNames f n.location budget none ⟨[scope], []⟩
  (result, r.events.reverse)

end Dec
