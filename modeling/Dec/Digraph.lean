namespace Dec

/-- A directed graph: every vertex with the vertices its edges lead to, oldest first. -/
structure Digraph (α : Type) where
  adjacency : List (α × List α)
deriving Inhabited

inductive VertexRole where
  | source
  | destination
  | plain
deriving DecidableEq

namespace VertexRole

def word : VertexRole → String
  | source => "Source"
  | destination => "Destination"
  | plain => "Vertex"

end VertexRole

structure MissingVertex (α : Type) where
  role : VertexRole
  vertex : Option α

def MissingVertex.message {α : Type} (m : MissingVertex α) (vertex : String) : String :=
  m.role.word ++ " vertex not in graph: " ++ vertex

namespace Digraph

variable {α : Type}

def empty : Digraph α := ⟨[]⟩

def vertices (g : Digraph α) : List α := g.adjacency.map (·.1)

def vertexCount (g : Digraph α) : Nat := g.adjacency.length

def edgeCount (g : Digraph α) : Nat := (g.adjacency.flatMap fun row => row.2).length

def edges (g : Digraph α) : List (α × α) :=
  g.adjacency.flatMap fun row => row.2.map fun destination => (row.1, destination)

variable [BEq α]

def neighbors? (g : Digraph α) (v : α) : Option (List α) := g.adjacency.lookup v

def neighbors (g : Digraph α) (v : α) : List α := (g.neighbors? v).getD []

def hasVertex (g : Digraph α) (v : α) : Bool := (g.neighbors? v).isSome

def hasEdge (g : Digraph α) (source destination : α) : Bool :=
  (g.neighbors source).contains destination

def insertVertex (g : Digraph α) (v : α) : Digraph α :=
  if g.hasVertex v then g else ⟨g.adjacency ++ [(v, [])]⟩

def updateRow (g : Digraph α) (source : α) (f : List α → List α) : Digraph α :=
  ⟨g.adjacency.map fun row => if row.1 == source then (row.1, f row.2) else row⟩

def insertEdge (g : Digraph α) (source destination : α) : Digraph α :=
  g.updateRow source fun row => if row.contains destination then row else row ++ [destination]

def eraseVertex (g : Digraph α) (v : α) : Digraph α :=
  ⟨(g.adjacency.filter fun row => !(row.1 == v)).map fun row =>
    (row.1, row.2.filter fun destination => !(destination == v))⟩

def eraseEdge (g : Digraph α) (source destination : α) : Digraph α :=
  g.updateRow source fun row => row.filter fun d => !(d == destination)

/-- Both ends of an edge, if both are given and in the graph. Where an end is not given there is
nothing to look for. -/
def ends? (g : Digraph α) (source destination : Option α) :
    Except (MissingVertex α) (Option (α × α)) :=
  match source, destination with
  | some s, some d =>
    if !g.hasVertex s then .error ⟨.source, some s⟩
    else if !g.hasVertex d then .error ⟨.destination, some d⟩
    else .ok (some (s, d))
  | _, _ => .ok none

def addVertex (g : Digraph α) : Option α → Bool × Digraph α
  | none => (false, g)
  | some v => (true, g.insertVertex v)

/-- Takes away a vertex that may be missing. Says whether a vertex was given. -/
def removeVertex (g : Digraph α) : Option α → Bool × Digraph α
  | none => (false, g)
  | some v => (true, g.eraseVertex v)

def addEdge (g : Digraph α) (source destination : Option α) :
    Except (MissingVertex α) (Bool × Digraph α) := do
  match ← g.ends? source destination with
  | none => return (false, g)
  | some (s, d) => if g.hasEdge s d then return (false, g) else return (true, g.insertEdge s d)

/-- Takes away an edge between vertices of the graph. Says whether both were given. -/
def removeEdge (g : Digraph α) (source destination : Option α) :
    Except (MissingVertex α) (Bool × Digraph α) := do
  match ← g.ends? source destination with
  | none => return (false, g)
  | some (s, d) => return (true, g.eraseEdge s d)

def requireNeighbors (g : Digraph α) (v : Option α) : Except (MissingVertex α) (List α) :=
  match v.bind g.neighbors? with
  | some row => .ok row
  | none => .error ⟨.plain, v⟩

def transpose (g : Digraph α) : Digraph α :=
  g.edges.foldl (fun t e => t.insertEdge e.2 e.1) (g.vertices.foldl insertVertex empty)

def text? (shown : α → Option String) (g : Digraph α) : Option String := do
  let rows ← g.adjacency.mapM fun (v, row) => do
    let v ← shown v
    let row ← row.mapM shown
    return v ++ " -> [" ++ ", ".intercalate row ++ "]"
  return "\n".intercalate rows

end Digraph

end Dec
