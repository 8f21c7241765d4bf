import Dec.Digraph

/-!
Searches through a graph: depth first with an explicit stack, the strongly connected components that
two such searches give, and breadth first from a start.
-/
namespace Dec.Digraph

variable {α : Type} [BEq α]

/-- The state of a depth-first search: the vertices entered, the vertices left with the last one
first, and the path from the root with the edges that are still to be followed. -/
structure Descent (α : Type) where
  path : List (α × List α)
  entered : List α
  finished : List α

def descend (g : Digraph α) (d : Descent α) : Descent α :=
  match d.path with
  | [] => d
  | (v, []) :: above => ⟨above, d.entered, v :: d.finished⟩
  | (v, next :: later) :: above =>
    -- a vertex that was entered before is passed over
    if d.entered.contains next then ⟨(v, later) :: above, d.entered, d.finished⟩
    else ⟨(next, g.neighbors next) :: (v, later) :: above, next :: d.entered, d.finished⟩

def descendAll (g : Digraph α) : Nat → Descent α → Descent α
  | 0, d => d
  | steps + 1, d => if d.path.isEmpty then d else descendAll g steps (g.descend d)

/-- Enough steps for any search from one root: each vertex is left once and each edge followed
once. -/
def searchSteps (g : Digraph α) : Nat := g.vertexCount + g.edgeCount + 1

/-- Enters everything that can be reached from a root and was not entered before. The result is what
was entered in all, and what was left on the way with the last vertex first. -/
def explore (g : Digraph α) (root : α) (entered : List α) : List α × List α :=
  let d := g.descendAll g.searchSteps ⟨[(root, g.neighbors root)], root :: entered, []⟩
  (d.entered, d.finished)

def postorder (g : Digraph α) : List α :=
  let search := g.vertices.foldl (fun (entered, finished) v =>
    if entered.contains v then (entered, finished)
    else
      let (entered, more) := g.explore v entered
      (entered, more ++ finished)) (([] : List α), ([] : List α))
  search.2.reverse

/-- The strongly connected components. A search through the turned graph, from the vertex that the
first search left last, stays within one component. -/
def components (g : Digraph α) : List (List α) :=
  let turned := g.transpose
  let search := g.postorder.reverse.foldl (fun (entered, components) v =>
    if entered.contains v then (entered, components)
    else
      let (entered, finished) := turned.explore v entered
      (entered, finished.reverse :: components)) (([] : List α), ([] : List (List α)))
  search.2.reverse

def discover (discovered queue : List α) : List α → List α × List α
  | [] => (discovered, queue)
  | v :: rest =>
    if discovered.contains v then discover discovered queue rest
    else discover (v :: discovered) (queue ++ [v]) rest

/-- Takes vertices from the queue until it is empty; the first argument bounds their number. The
result is what was discovered, and what was taken with the last vertex first. -/
def widen (g : Digraph α) :
    Nat → (queue discovered reached : List α) → Except (MissingVertex α) (List α × List α)
  | steps + 1, v :: queue, discovered, reached =>
    match g.neighbors? v with
    | none => .error ⟨.plain, some v⟩
    | some row =>
      let (discovered, queue) := discover discovered queue row
      widen g steps queue discovered (v :: reached)
  | _, _, discovered, reached => .ok (discovered, reached)

/-- The vertices that can be reached from a start, nearest first, and the others in the order of the
graph. Without a start nothing is reached. -/
def breadthFirst (g : Digraph α) (start : Option α) :
    Except (MissingVertex α) (List α × List α) := do
  let (discovered, reached) ← g.widen (g.vertexCount + 1) start.toList start.toList []
  return (reached.reverse, g.vertices.filter fun v => !discovered.contains v)

end Dec.Digraph
