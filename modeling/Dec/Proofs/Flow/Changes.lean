import Dec.Flow
import Dec.Proofs.Digraph.Distance
import Mathlib.Data.List.Induction

namespace Dec.FlowGraph

variable {α : Type} [BEq α]

inductive Change (α : Type) where
  | request (r : Digraph.Request α)
  | start (v : Option α)

/-- The flow graph after a change. A request that fails changes nothing, and a start is not looked
for in the graph. -/
def Change.apply (f : FlowGraph α) : Change α → FlowGraph α
  | request r => ⟨r.operation.apply f.graph, f.start⟩
  | start v => ⟨f.graph, v⟩

def ofChanges (changes : List (Change α)) : FlowGraph α := changes.foldl Change.apply empty

theorem ofChanges_concat (changes : List (Change α)) (c : Change α) :
    ofChanges (changes ++ [c]) = c.apply (ofChanges changes) := by
  rw [ofChanges, List.foldl_append]
  rfl

variable [EquivBEq α]

/-- Whatever changes made a flow graph, its graph is well formed. -/
theorem ofChanges_wellFormed (changes : List (Change α)) :
    (ofChanges changes).graph.WellFormed := by
  induction changes using List.reverseRecOn with
  | nil => exact Digraph.empty_wellFormed
  | append_singleton changes c ih =>
    rw [ofChanges_concat]
    cases c with
    | request r => exact Digraph.apply_wellFormed ih r.operation
    | start v => exact ih

/-- Whatever changes made a flow graph whose start is one of its vertices or missing, a search through
it comes to an end: it finds what is reached from the start, the nearest first, and with more steps it
would find the same. -/
theorem ofChanges_breadthFirst (changes : List (Change α))
    (hs : ∀ v, (ofChanges changes).start = some v →
      (ofChanges changes).graph.hasVertex v = true) :
    ∃ discovered reached rest, (ofChanges changes).breadthFirst = .ok (reached, rest) ∧
      (ofChanges changes).graph.IsNearestFirst (ofChanges changes).start reached rest ∧
      ∀ more, (ofChanges changes).graph.widen ((ofChanges changes).graph.vertexCount + 1 + more)
        (ofChanges changes).start.toList (ofChanges changes).start.toList [] =
          .ok (discovered, reached.reverse) :=
  Digraph.breadthFirst_isNearestFirst (ofChanges_wellFormed changes) hs

/-- The end of a short way is found before the middle of a long one, and a vertex that only leads to
the start is left. -/
theorem ofChanges_breadthFirst_two_ways :
    (⟨⟨[(1, [2, 4]), (2, [3]), (3, [4]), (4, [1]), (5, [1])]⟩, some 1⟩ :
        FlowGraph Nat).breadthFirst = .ok ([1, 2, 4, 3], [5]) ∧
      Digraph.IsNearestFirst (⟨[(1, [2, 4]), (2, [3]), (3, [4]), (4, [1]), (5, [1])]⟩ : Digraph Nat)
        (some 1) [1, 2, 4, 3] [5] := by
  let vertex (v : Nat) : Change Nat := .request (.addVertex (some v))
  let edge (u v : Nat) : Change Nat := .request (.addEdge (some u) (some v))
  let changes : List (Change Nat) :=
    [.start (some 5), vertex 1, vertex 2, vertex 3, vertex 4, vertex 5, edge 1 2, edge 1 4, edge 2 3,
      edge 3 4, edge 4 1, edge 5 1, .start (some 1)]
  have hrows : (ofChanges changes).graph.adjacency =
      [(1, [2, 4]), (2, [3]), (3, [4]), (4, [1]), (5, [1])] := by decide +kernel
  have hone : (ofChanges changes).start = some 1 := by decide +kernel
  have hf : ofChanges changes =
      ⟨⟨[(1, [2, 4]), (2, [3]), (3, [4]), (4, [1]), (5, [1])]⟩, some 1⟩ := by
    rw [← hrows, ← hone]
  have hstart : ∀ v, (ofChanges changes).start = some v →
      (ofChanges changes).graph.hasVertex v = true := by
    rw [hf]
    intro v hv
    rw [← Option.some.inj hv]
    rfl
  obtain ⟨discovered, reached, rest, hrun, hnearest, -⟩ := ofChanges_breadthFirst changes hstart
  have hlists : (ofChanges changes).breadthFirst = .ok ([1, 2, 4, 3], [5]) := by
    rw [hf]
    rfl
  obtain ⟨rfl, rfl⟩ := Prod.mk.inj (Except.ok.inj (hlists.symm.trans hrun))
  rw [hf] at hlists hnearest
  exact ⟨hlists, hnearest⟩

end Dec.FlowGraph
