import Dec.Tree

/-!
Making nodes. Requests for nodes are data, and a builder answers them: by making the node, by making
nothing, by refusing, or by keeping a record of the request and then making the node. A forest holds
what is known of all nodes made so far beside the nodes themselves: the next identity, and for each
node the one that last took it as a child.
-/
namespace Dec

/-- A request for a node over parts of type `ν`. A block may be asked for without a table; it then
gets an empty one of its own. -/
inductive Creation (ν : Type) where
  | literal (value : Option Scalar)
  | var (name : String)
  | binary (op : BinaryOp) (left right : ν)
  | assign (target value : ν)
  | ret (value : ν)
  | block (body : List ν) (table : Option Table)

namespace Creation

def operation {ν : Type} : Creation ν → String
  | literal _ => "create_literal_node"
  | var _ => "create_variable_node"
  | binary .plus .. => "create_plus_node"
  | binary .minus .. => "create_minus_node"
  | binary .times .. => "create_times_node"
  | binary .floatDiv .. => "create_float_div_node"
  | binary .intDiv .. => "create_int_div_node"
  | binary .modulus .. => "create_modulus_node"
  | binary .power .. => "create_exponentiation_node"
  | assign .. => "create_assignment_stmt"
  | ret _ => "create_return_stmt"
  | block .. => "create_block_stmt"

end Creation

inductive BuildFault where
  | notANumber (value : Option Scalar)
  | notFinite (x : Binary64)
  | missingPart (owner role : String)
  | notAVariable (target : Option Node)
  | refused (operation : String)

namespace BuildFault

def message (budget : Nat) : BuildFault → Except Unwritable String
  | notANumber value => ("Literal value must be an int or a float, got " ++ ·) <$>
      orTooLong (quotedOrAbsent? value)
  | notFinite x => .ok ("Literal value must be finite, got " ++ x.text)
  | missingPart owner role =>
    .ok (owner ++ " requires an AST node as its " ++ role ++ ", got " ++ absentText)
  | notAVariable target => ("Assignment target must be a VariableNode, got " ++ ·) <$>
      Node.textOrAbsent budget target
  | refused operation => .ok (operation ++ " is not implemented by this builder")

end BuildFault

structure Owner where
  id : Nat
  table : Option Table
deriving DecidableEq, Inhabited

structure BuildEvent where
  request : Creation (Option Node)
  location : Option Location

def BuildEvent.place (e : BuildEvent) : String := Location.textOrAbsent e.location

def BuildEvent.parts (budget : Nat) (e : BuildEvent) : Except Unwritable String :=
  match e.request with
  | .literal value => (· ++ ") at " ++ e.place) <$> orTooLong (quotedOrAbsent? value)
  | .var name => .ok (Text.quoted name ++ ") at " ++ e.place)
  | .binary _ left right | .assign left right => do
    let left ← Node.textOrAbsent budget left
    let right ← Node.textOrAbsent budget right
    return left ++ ", " ++ right ++ ")"
  | .ret value => (· ++ ")") <$> Node.textOrAbsent budget value
  | .block body none =>
    .ok (decimalText body.length ++ " statements, declared " ++ absentText ++ ")")
  | .block body (some table) => do
    let declared ← orTooLong (table.bindings.text? bareOrAbsent?)
    return decimalText body.length ++ " statements, declared " ++ declared ++ ")"

def BuildEvent.text (budget : Nat) (e : BuildEvent) : Except Unwritable String :=
  (e.parts budget).map fun parts => e.request.operation ++ "(" ++ parts

/-- What is known of the nodes made so far. The newest owner of a node comes first, and so does the
newest record. -/
structure Forest where
  nextNode : Nat
  nextTable : Nat
  owners : List (Nat × Owner)
  record : List BuildEvent

instance : Inhabited Forest := ⟨⟨0, 0, [], []⟩⟩

namespace Forest

def empty : Forest := default

def owner? (f : Forest) (id : Nat) : Option Owner := f.owners.lookup id

def newTag (f : Forest) (location : Option Location) : Tag × Forest :=
  (⟨f.nextNode, location⟩, { f with nextNode := f.nextNode + 1 })

def adopt (f : Forest) (owner : Owner) (child : Node) : Forest :=
  { f with owners := (child.id, owner) :: f.owners }

def newTable (f : Forest) (outer : Option Table) (bindings : Bindings Scalar) : Table × Forest :=
  (⟨f.nextTable, outer.map (·.id), (outer.map (·.depth + 1)).getD 0, bindings⟩,
    { f with nextTable := f.nextTable + 1 })

/-- Makes a block the owner of its statements, from the first on. A missing statement stops this,
and the statements before it stay with the block. -/
def adoptAll (f : Forest) (owner : Owner) : List (Option Node) → Option (List Node) × Forest
  | [] => (some [], f)
  | none :: _ => (none, f)
  | some child :: rest =>
    let (others, f) := adoptAll (f.adopt owner child) owner rest
    (others.map (child :: ·), f)

/-- Makes the node that is asked for. Every request but that for a block looks at all its parts
before it takes any. -/
def make (f : Forest) (location : Option Location) :
    Creation (Option Node) → Except BuildFault Node × Forest
  | .literal value =>
    match value with
    | some (.number (.int n)) =>
      let (tag, f) := f.newTag location
      (.ok (.literal tag (.int n)), f)
    | some (.number (.float x)) =>
      if x.isFinite then
        let (tag, f) := f.newTag location
        (.ok (.literal tag (.float x)), f)
      else (.error (.notFinite x), f)
    | other => (.error (.notANumber other), f)
  | .var name =>
    let (tag, f) := f.newTag location
    (.ok (.var tag name), f)
  | .binary op left right =>
    match left, right with
    | none, _ => (.error (.missingPart (Node.operatorClass op) "left operand"), f)
    | some _, none => (.error (.missingPart (Node.operatorClass op) "right operand"), f)
    | some left, some right =>
      let (tag, f) := f.newTag location
      let owner : Owner := ⟨tag.id, none⟩
      (.ok (.binary tag op left right), (f.adopt owner left).adopt owner right)
  | .assign target value =>
    match target, value with
    | some (.var targetTag name), some value =>
      -- without a place of its own a statement stands where its target does
      let (tag, f) := f.newTag (location <|> targetTag.location)
      let owner : Owner := ⟨tag.id, none⟩
      (.ok (.assign tag targetTag name value),
        (f.adopt owner (.var targetTag name)).adopt owner value)
    | some (.var ..), none => (.error (.missingPart "AssignmentStmt" "value"), f)
    | other, _ => (.error (.notAVariable other), f)
  | .ret value =>
    match value with
    | none => (.error (.missingPart "ReturnStmt" "value"), f)
    | some value =>
      let (tag, f) := f.newTag location
      (.ok (.ret tag value), f.adopt ⟨tag.id, none⟩ value)
  | .block body table =>
    -- the identity and the table are used up even if a statement is missing
    let (tag, f) := f.newTag location
    let (table, f) := match table with
      | none => f.newTable none .empty
      | some table => (table, f)
    match f.adoptAll ⟨tag.id, some table⟩ body with
    | (some body, f) => (.ok (.block tag table body), f)
    | (none, f) => (.error (.missingPart "BlockStmt" "statement"), f)

end Forest

inductive Builder where
  | making
  | skipping
  | refusing
  | recording
deriving DecidableEq, Inhabited

namespace Builder

def label : Builder → String
  | making => "ASTBuilder"
  | skipping => "NullBuilder"
  | refusing => "FailFastBuilder"
  | recording => "DebugBuilder"

/-- Answers a request. What was recorded stays on record even when the request then fails. -/
def create (b : Builder) (request : Creation (Option Node)) (location : Option Location)
    (f : Forest) : Except BuildFault (Option Node) × Forest :=
  let made (f : Forest) : Except BuildFault (Option Node) × Forest :=
    let (node, f) := f.make location request
    (node.map some, f)
  match b with
  | making => made f
  | skipping => (.ok none, f)
  | refusing => (.error (.refused request.operation), f)
  | recording => made { f with record := ⟨request, location⟩ :: f.record }

end Builder

end Dec
