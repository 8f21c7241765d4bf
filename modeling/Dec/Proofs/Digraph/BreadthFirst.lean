import Dec.Proofs.Digraph.Line
import Dec.Proofs.Digraph.Lookups
import Dec.Proofs.Digraph.Sets

namespace Dec.Digraph

variable {α : Type} [BEq α]

/-- Where a breadth-first search stands: what it has discovered was reached or is in the queue, no
vertex twice, and only vertices of the graph. -/
structure Widening (g : Digraph α) (queue discovered reached : List α) : Prop where
  distinct : (reached.reverse ++ queue).Pairwise fun x y => (x == y) = false
  contains : ∀ x, discovered.contains x = (reached.reverse ++ queue).contains x
  vertices : ∀ v ∈ reached.reverse ++ queue, g.hasVertex v = true

variable {g : Digraph α} {queue discovered reached : List α}

/-- The first vertex of the queue is reached. -/
theorem Widening.take {v : α} (h : g.Widening (v :: queue) discovered reached) :
    g.Widening queue discovered (v :: reached) := by
  have hlist : (v :: reached).reverse ++ queue = reached.reverse ++ v :: queue := by
    rw [List.reverse_cons, List.append_assoc, List.singleton_append]
  constructor
  · rw [hlist]
    exact h.distinct
  · rw [hlist]
    exact h.contains
  · rw [hlist]
    exact h.vertices

variable [EquivBEq α]

/-- What a list does not contain equals none of its members. -/
theorem beq_eq_false_of_contains {l : List α} {w : α} (h : l.contains w = false) :
    ∀ v ∈ l, (v == w) = false := by
  intro v hv
  rw [Bool.eq_false_iff]
  intro he
  rw [← List.contains_congr he, contains_of_mem hv] at h
  cases h

/-- A list without repetitions is no longer than one that has all its members. -/
theorem length_le_of_distinct {l l' : List α} (hd : l.Pairwise fun x y => (x == y) = false)
    (hl : ∀ x ∈ l, l'.contains x = true) : l.length ≤ l'.length := by
  induction l generalizing l' with
  | nil => exact Nat.zero_le _
  | cons x rest ih =>
    obtain ⟨hx, hd⟩ := List.pairwise_cons.mp hd
    obtain ⟨y, hy, hxy⟩ := List.contains_iff_exists_mem_beq.mp (hl x List.mem_cons_self)
    obtain ⟨front, back, rfl⟩ := List.append_of_mem hy
    -- the member that equals the first one is not needed for the others
    have hrest : ∀ z ∈ rest, (front ++ back).contains z = true := by
      intro z hz
      have hne : ¬ z == y := by
        intro he
        have hxz := BEq.trans hxy (BEq.symm he)
        rw [hx z hz] at hxz
        cases hxz
      have hmem := hl z (List.mem_cons_of_mem _ hz)
      simpa [List.contains_append, List.contains_cons, hne, -List.contains_eq_mem] using hmem
    have hle := ih hd hrest
    rw [List.length_append] at hle
    rw [List.length_cons, List.length_append, List.length_cons]
    omega

namespace Widening

/-- Vertices that edges lead to are put into the queue unless they were discovered. -/
theorem discover {row : List α} (hrow : ∀ w ∈ row, g.hasVertex w = true)
    (h : g.Widening queue discovered reached) :
    g.Widening (Digraph.discover discovered queue row).2 (Digraph.discover discovered queue row).1
      reached := by
  induction row generalizing queue discovered with
  | nil => exact h
  | cons w rest ih =>
    obtain ⟨hw, hrest⟩ := List.forall_mem_cons.mp hrow
    rw [Digraph.discover]
    split
    · exact ih hrest h
    · rename_i hnew
      rw [Bool.not_eq_true, h.contains] at hnew
      refine ih hrest ?_
      constructor
      · rw [← List.append_assoc]
        refine List.pairwise_append.mpr ⟨h.distinct, List.pairwise_singleton _ _, ?_⟩
        intro x hx y hy
        rw [List.mem_singleton.mp hy]
        exact beq_eq_false_of_contains hnew x hx
      · intro x
        rw [← List.append_assoc, List.contains_append, List.contains_cons, List.contains_cons,
          List.contains_nil, Bool.or_false, h.contains, Bool.or_comm]
      · intro v hv
        rw [← List.append_assoc] at hv
        rcases List.mem_append.mp hv with hv | hv
        · exact h.vertices v hv
        · rw [List.mem_singleton.mp hv]
          exact hw

/-- No more vertices are reached than there are. -/
theorem length_reached_le (h : g.Widening queue discovered reached) :
    reached.length + queue.length ≤ g.vertexCount := by
  have hall : ∀ x ∈ reached.reverse ++ queue, g.vertices.contains x = true := by
    intro x hx
    rw [← hasVertex_eq_contains]
    exact h.vertices x hx
  have hle := length_le_of_distinct h.distinct hall
  rwa [List.length_append, List.length_reverse, Digraph.vertices, List.length_map] at hle

/-- With enough steps the search goes on until the queue is empty. -/
theorem widen (hg : g.WellFormed) (steps : Nat) (h : g.Widening queue discovered reached)
    (hs : g.vertexCount < steps + reached.length) :
    ∃ discovered' reached', g.widen steps queue discovered reached = .ok (discovered', reached') ∧
      g.Widening [] discovered' reached' := by
  -- each step reaches one more vertex, and there are too few for the steps to run out
  induction steps generalizing queue discovered reached with
  | zero =>
    have hle := h.length_reached_le
    omega
  | succ steps ih =>
    cases queue with
    | nil => exact ⟨discovered, reached, rfl, h⟩
    | cons v queue =>
      have hv : g.hasVertex v = true := h.vertices v (by simp)
      obtain ⟨row, hrow⟩ := Option.isSome_iff_exists.mp hv
      have hneighbors : g.neighbors v = row := by
        rw [neighbors, hrow]
        rfl
      have hclosed : ∀ w ∈ row, g.hasVertex w = true := by
        intro w hw
        rw [← hneighbors] at hw
        exact hg.closed v w (hasEdge_of_mem_neighbors hw)
      rw [Digraph.widen, hrow]
      exact ih (h.take.discover hclosed) (by rw [List.length_cons]; omega)

/-- When the queue is empty the search has told the vertices apart. -/
theorem enumerates (hg : g.WellFormed) (h : g.Widening [] discovered reached) :
    Enumerates (reached.reverse ++ g.vertices.filter fun v => !discovered.contains v)
      g.hasVertex := by
  have hdistinct := h.distinct
  have hcontains := h.contains
  have hvertices := h.vertices
  rw [List.append_nil] at hdistinct hcontains hvertices
  constructor
  · refine List.pairwise_append.mpr ⟨hdistinct, hg.distinct.filter _, ?_⟩
    intro x hx y hy
    obtain ⟨-, hy⟩ := List.mem_filter.mp hy
    rw [hcontains, Bool.not_eq_true'] at hy
    exact beq_eq_false_of_contains hy x hx
  · intro x
    rw [List.contains_append, ← hcontains]
    cases hx : discovered.contains x with
    | true =>
      -- what was discovered is in the graph, with all that equals it
      rw [hcontains] at hx
      obtain ⟨y, hy, hxy⟩ := List.contains_iff_exists_mem_beq.mp hx
      rw [Bool.true_or, hasVertex_congr g hxy, hvertices y hy]
    | false =>
      rw [Bool.false_or, hasVertex_eq_contains, Bool.eq_iff_iff, List.contains_iff_exists_mem_beq,
        List.contains_iff_exists_mem_beq]
      constructor
      · rintro ⟨y, hy, hxy⟩
        exact ⟨y, (List.mem_filter.mp hy).1, hxy⟩
      · rintro ⟨y, hy, hxy⟩
        refine ⟨y, List.mem_filter.mpr ⟨hy, ?_⟩, hxy⟩
        rw [← List.contains_congr hxy, hx, Bool.not_false]

end Widening

/-- From a vertex of the graph, or from nowhere, the search gets through, and its two lists have every
vertex once. -/
theorem breadthFirst_eq_ok (hg : g.WellFormed) {start : Option α}
    (hs : ∀ v, start = some v → g.hasVertex v = true) :
    ∃ reached rest, g.breadthFirst start = .ok (reached, rest) ∧
      Enumerates (reached ++ rest) g.hasVertex := by
  have hstart : g.Widening start.toList start.toList [] := by
    constructor
    · cases start <;> simp
    · exact fun x => rfl
    · intro v hv
      exact hs v (Option.mem_toList.mp hv)
  obtain ⟨discovered, reached, hrun, hend⟩ :=
    hstart.widen hg (g.vertexCount + 1) (by rw [List.length_nil]; omega)
  rw [breadthFirst, hrun]
  exact ⟨_, _, rfl, hend.enumerates hg⟩

omit [EquivBEq α] in
/-- From a start that is not in the graph the search fails. -/
theorem breadthFirst_eq_error {v : α} (hv : g.hasVertex v = false) :
    g.breadthFirst (some v) = .error ⟨.plain, some v⟩ := by
  have hrow : g.neighbors? v = none := by simpa [hasVertex] using hv
  rw [breadthFirst, Option.toList_some, widen, hrow]
  rfl

end Dec.Digraph
