import Dec.Digraph.Search
import Dec.Tree
import Dec.Diagnostic

namespace Dec

structure FlowGraph (α : Type) where
  graph : Digraph α
  start : Option α
deriving Inhabited

namespace FlowGraph

variable {α : Type}

def empty : FlowGraph α := ⟨.empty, none⟩

def breadthFirst [BEq α] (f : FlowGraph α) : Except (MissingVertex α) (List α × List α) :=
  f.graph.breadthFirst f.start

end FlowGraph

structure FlowFault where
  location : Option Location
deriving DecidableEq

namespace FlowFault

def titles : List (String × String) := [("C001", "Nesting too deep")]

def diagnostic (f : FlowFault) : Diagnostic where
  message := "Nesting too deep to build a control flow graph"
  location := f.location
  code := some "C001"
  help := some "The program nests blocks more deeply than the generator can follow."

end FlowFault

inductive FlowEvent where
  | edge (source destination : Node)
  | done (vertices edges : Nat)

def FlowEvent.text (budget : Nat) : FlowEvent → Except Unwritable String
  | edge source destination => do
    let source ← source.text budget
    let destination ← destination.text budget
    return "CFG edge " ++ source ++ " -> " ++ destination
  | done vertices edges =>
    .ok ("CFG: " ++ decimalText vertices ++ " vertices, " ++ decimalText edges ++ " edges")

/-- A flow graph in the making: the statement that the next one follows, and what was reported, the
last thing first. -/
structure FlowState where
  flow : FlowGraph Node
  previous : Option Node
  events : List FlowEvent

namespace FlowState

def initial : FlowState := ⟨.empty, none, []⟩

def add (s : FlowState) (statement : Node) : FlowState :=
  let graph := s.flow.graph.insertVertex statement
  let start := s.flow.start <|> some statement
  match s.previous with
  | none => { s with flow := ⟨graph, start⟩ }
  | some previous =>
    { s with
      flow := ⟨graph.insertEdge previous statement, start⟩
      events := .edge previous statement :: s.events }

end FlowState

namespace Node

/-- What a statement takes of a budget, down to the comparison of vertices. -/
def flowCost : Nat := 6

mutual

/-- Adds the statements of a tree to a flow graph. Expressions do not matter to it. The state is
kept when the tree turns out to be nested too deeply. -/
def flowFrom (whole : Option Location) (budget : Nat) (s : FlowState) :
    Node → Except FlowFault Unit × FlowState
  | literal .. => (.ok (), s)
  | var .. => (.ok (), s)
  | binary .. => (.ok (), s)
  | assign tag target name value =>
    if budget < flowCost then (.error ⟨whole⟩, s)
    else
      let statement := assign tag target name value
      (.ok (), { s.add statement with previous := some statement })
  | ret tag value =>
    if budget < flowCost then (.error ⟨whole⟩, s)
    -- what comes after a return is a vertex that no edge leads to
    else (.ok (), { s.add (ret tag value) with previous := none })
  | block _ _ body =>
    if budget < blockCost then (.error ⟨whole⟩, s)
    else flowThrough whole (budget - blockCost) s body

def flowThrough (whole : Option Location) (budget : Nat) (s : FlowState) :
    List Node → Except FlowFault Unit × FlowState
  | [] => (.ok (), s)
  | n :: rest =>
    match flowFrom whole budget s n with
    | (.error fault, s) => (.error fault, s)
    | (.ok (), s) => flowThrough whole budget s rest

end

def flow (budget : Nat) (n : Node) : Except FlowFault (FlowGraph Node) × List FlowEvent :=
  match n.flowFrom n.location budget .initial with
  | (.error fault, s) => (.error fault, s.events.reverse)
  | (.ok (), s) =>
    let graph := s.flow.graph
    (.ok s.flow, (.done graph.vertexCount graph.edgeCount :: s.events).reverse)

end Node

end Dec
