import Dec.Proofs.Digraph.History

namespace Dec.Digraph

variable {α : Type}

section Rows

def ofRows (vs : List α) (row : α → List α) : Digraph α := ⟨vs.map fun u => (u, row u)⟩

theorem vertices_ofRows (vs : List α) (row : α → List α) : (ofRows vs row).vertices = vs := by
  rw [vertices, ofRows, List.map_map]
  exact List.map_id vs

variable [BEq α]

def sourcesOf (rows : List (α × List α)) (u : α) : List α :=
  (rows.filter fun row => row.2.contains u).map (·.1)

theorem insertEdge_ofRows (vs : List α) (row : α → List α) (s d : α) :
    (ofRows vs row).insertEdge s d = ofRows vs fun u =>
      if u == s then (if (row u).contains d then row u else row u ++ [d]) else row u := by
  rw [insertEdge, updateRow, ofRows, List.map_map]
  refine congrArg Digraph.mk (List.map_congr_left fun u _ => ?_)
  dsimp only [Function.comp_apply]
  by_cases hu : u == s
  · rw [if_pos hu, if_pos hu]
  · rw [if_neg hu, if_neg hu]

/-- A lookup finds the row of an equal vertex. -/
theorem neighbors_ofRows {row : α → List α} (hrow : ∀ u v, u == v → row u = row v) (vs : List α)
    (u : α) : (ofRows vs row).neighbors u = if vs.contains u then row u else [] := by
  induction vs with
  | nil => rfl
  | cons v rest ih =>
    rw [neighbors, neighbors?, ofRows] at ih ⊢
    rw [List.map_cons, lookup_cons_ite, List.contains_cons]
    by_cases hu : u == v
    · rw [if_pos hu, hu, Bool.true_or, if_pos rfl]
      exact (hrow u v hu).symm
    · rw [if_neg hu, ih]
      simp [hu]

variable [EquivBEq α]

/-- Vertices that are all new come one after another, each with an empty row. -/
theorem foldl_insertVertex_ofRows (us vs : List α)
    (h : (us ++ vs).Pairwise fun u v => (u == v) = false) :
    vs.foldl insertVertex (ofRows us fun _ => []) = ofRows (us ++ vs) fun _ => [] := by
  induction vs generalizing us with
  | nil => rw [List.foldl_nil, List.append_nil]
  | cons v rest ih =>
    have hnew : (ofRows us fun _ => ([] : List α)).hasVertex v = false := by
      rw [hasVertex_eq_contains, vertices_ofRows, ← Bool.not_eq_true,
        List.contains_iff_exists_mem_beq]
      rintro ⟨u, hu, he⟩
      rw [BEq.comm, (List.pairwise_append.mp h).2.2 u hu v List.mem_cons_self] at he
      cases he
    have hstep : (ofRows us fun _ => ([] : List α)).insertVertex v =
        ofRows (us ++ [v]) fun _ => [] := by
      rw [insertVertex, if_neg (by simp [hnew]), ofRows, ofRows, List.map_append]
      rfl
    rw [List.append_cons] at h ⊢
    rw [List.foldl_cons, hstep, ih (us ++ [v]) h]

/-- One row is turned round: its source is appended to the row of every vertex in it, and only
once where the row has equal vertices. -/
theorem foldl_insertEdge_ofRows (vs : List α) {row : α → List α} {s : α}
    (hs : ∀ u, (row u).contains s = false) (met ds : List α) :
    ds.foldl (fun t d => t.insertEdge d s)
        (ofRows vs fun u => if met.contains u then row u ++ [s] else row u) =
      ofRows vs fun u => if (met ++ ds).contains u then row u ++ [s] else row u := by
  induction ds generalizing met with
  | nil => rw [List.foldl_nil, List.append_nil]
  | cons d rest ih =>
    rw [List.foldl_cons, insertEdge_ofRows, List.append_cons, ← ih (met ++ [d])]
    congr 2
    funext u
    rw [List.contains_append, List.contains_cons, List.contains_nil, Bool.or_false]
    cases hmet : met.contains u with
    | true =>
      -- the source stands at the end of this row already
      have hlast : (row u ++ [s]).contains s = true := by
        rw [List.contains_append, List.contains_cons, BEq.rfl, Bool.true_or, Bool.or_true]
      rw [if_pos rfl, if_pos hlast, ite_self, Bool.true_or, if_pos rfl]
    | false =>
      rw [Bool.false_or, if_neg Bool.false_ne_true, hs u, if_neg Bool.false_ne_true]

/-- The rows of the new graph while it is filled: each holds the sources met so far. -/
theorem foldl_rows_ofRows (vs : List α) (done rows : List (α × List α))
    (h : ((done ++ rows).map (·.1)).Pairwise fun u v => (u == v) = false) :
    rows.foldl (fun t row => row.2.foldl (fun t d => t.insertEdge d row.1) t)
        (ofRows vs (sourcesOf done)) =
      ofRows vs (sourcesOf (done ++ rows)) := by
  induction rows generalizing done with
  | nil => rw [List.foldl_nil, List.append_nil]
  | cons row rest ih =>
    -- the source of this row is new, since no two vertices are equal
    have hnew (u : α) : (sourcesOf done u).contains row.1 = false := by
      rw [← Bool.not_eq_true, List.contains_iff_exists_mem_beq]
      rintro ⟨v, hv, he⟩
      obtain ⟨row', hrow', rfl⟩ := List.mem_map.mp hv
      rw [List.map_append, List.map_cons, List.pairwise_append] at h
      have hmem : row'.1 ∈ done.map (·.1) := List.mem_map_of_mem (List.mem_filter.mp hrow').1
      rw [BEq.comm, h.2.2 row'.1 hmem row.1 List.mem_cons_self] at he
      cases he
    have hstep : row.2.foldl (fun t d => t.insertEdge d row.1) (ofRows vs (sourcesOf done)) =
        ofRows vs (sourcesOf (done ++ [row])) := by
      have hfill := foldl_insertEdge_ofRows vs hnew [] row.2
      simp only [List.contains_nil, Bool.false_eq_true, if_false, List.nil_append] at hfill
      rw [hfill]
      congr 1
      funext u
      rw [sourcesOf, sourcesOf, List.filter_append, List.map_append, List.filter_cons,
        List.filter_nil]
      by_cases hu : row.2.contains u = true
      · rw [if_pos hu, if_pos hu]
        rfl
      · rw [if_neg hu, if_neg hu]
        exact (List.append_nil _).symm
    rw [List.append_cons] at h ⊢
    rw [List.foldl_cons, hstep, ih (done ++ [row]) h]

end Rows

section Turned

variable [BEq α] [EquivBEq α] {g : Digraph α}

/-- The turned graph at once: every vertex with those from which an edge leads to it, in the order
of the vertices. -/
theorem WellFormed.transpose_eq (hg : g.WellFormed) :
    g.transpose = ofRows g.vertices fun u => g.vertices.filter fun v => g.hasEdge v u := by
  have hvertices := foldl_insertVertex_ofRows [] g.vertices hg.distinct
  have hrows := foldl_rows_ofRows g.vertices [] g.adjacency hg.distinct
  have hsources : sourcesOf g.adjacency = fun u => g.vertices.filter fun v => g.hasEdge v u := by
    funext u
    rw [sourcesOf, vertices, List.filter_map]
    refine congrArg (List.map _) (List.filter_congr fun row hrow => ?_)
    rw [Function.comp_apply, hasEdge, hg.neighbors_of_mem hrow]
  calc
    g.transpose = g.adjacency.foldl (fun t row => row.2.foldl (fun t d => t.insertEdge d row.1) t)
        (g.vertices.foldl Digraph.insertVertex (ofRows [] fun _ => [])) := by
      rw [transpose, edges, List.foldl_flatMap]
      simp only [List.foldl_map]
      rfl
    _ = ofRows g.vertices (sourcesOf g.adjacency) := by
      rw [hvertices]
      exact hrows
    _ = _ := by rw [hsources]

theorem WellFormed.vertices_transpose (hg : g.WellFormed) : g.transpose.vertices = g.vertices := by
  rw [hg.transpose_eq, vertices_ofRows]

theorem WellFormed.hasEdge_transpose (hg : g.WellFormed) (u v : α) :
    g.transpose.hasEdge u v = g.hasEdge v u :=
  (transpose_spec hg).2.2 u v

theorem WellFormed.neighbors_transpose (hg : g.WellFormed) (u : α) :
    g.transpose.neighbors u = g.vertices.filter fun v => g.hasEdge v u := by
  have hcongr (u w : α) (h : u == w) :
      (g.vertices.filter fun v => g.hasEdge v u) = g.vertices.filter fun v => g.hasEdge v w :=
    List.filter_congr fun v _ => hasEdge_congr g BEq.rfl h
  rw [hg.transpose_eq, neighbors_ofRows hcongr]
  split
  · rfl
  · rename_i hu
    -- no edge leads to what is not a vertex
    refine (List.filter_eq_nil_iff.mpr fun v _ he => ?_).symm
    rw [← hasVertex_eq_contains] at hu
    exact hu (hg.closed v u he)

/-- A graph of vertices and edges only: what is turned round depends on nothing else. -/
theorem WellFormed.transpose_congr {g' : Digraph α} (hg : g.WellFormed) (hg' : g'.WellFormed)
    (hv : g'.vertices = g.vertices) (he : ∀ u v, g'.hasEdge u v = g.hasEdge u v) :
    g'.transpose = g.transpose := by
  rw [hg.transpose_eq, hg'.transpose_eq, hv]
  simp only [he]

end Turned

section Count

variable [BEq α] {g : Digraph α}

def DistinctRows (g : Digraph α) : Prop :=
  ∀ v, (g.neighbors v).Pairwise fun x y => (x == y) = false

variable [EquivBEq α]

theorem DistinctRows.insertEdge (h : g.DistinctRows) {s d : α} (hs : g.hasVertex s = true)
    (he : g.hasEdge s d = false) : (g.insertEdge s d).DistinctRows := by
  intro v
  rw [Digraph.insertEdge, neighbors_updateRow v hs]
  split
  · rename_i hv
    have hnew : (g.neighbors v).contains d = false := (hasEdge_congr g hv BEq.rfl).trans he
    rw [if_neg (by simp [hnew, -List.contains_eq_mem]), List.pairwise_append]
    refine ⟨h v, List.pairwise_singleton _ _, fun x hx y hy => ?_⟩
    rw [List.mem_singleton.mp hy, ← Bool.not_eq_true]
    intro hxd
    rw [← List.contains_congr hxd, contains_of_mem hx] at hnew
    cases hnew
  · exact h v

theorem DistinctRows.eraseEdge (h : g.DistinctRows) {s : α} (d : α) (hs : g.hasVertex s = true) :
    (g.eraseEdge s d).DistinctRows := by
  intro v
  rw [Digraph.eraseEdge, neighbors_updateRow v hs]
  split
  · exact (h v).filter _
  · exact h v

theorem DistinctRows.eraseVertex (h : g.DistinctRows) (v : α) : (g.eraseVertex v).DistinctRows := by
  intro x
  rw [neighbors_eraseVertex]
  split
  · exact List.Pairwise.nil
  · exact (h x).filter _

theorem WellFormed.transpose_distinctRows (hg : g.WellFormed) : g.transpose.DistinctRows := by
  intro v
  rw [hg.neighbors_transpose]
  exact hg.distinct.filter _

theorem apply_distinctRows (hg : g.WellFormed) (h : g.DistinctRows) (op : Operation α) :
    (op.apply g).DistinctRows := by
  match op with
  | .addVertex none => exact h
  | .addVertex (some v) =>
    intro x
    rw [Operation.apply, addVertex, neighbors_insertVertex]
    exact h x
  | .removeVertex none => exact h
  | .removeVertex (some v) => exact h.eraseVertex v
  | .addEdge none _ => exact h
  | .addEdge (some _) none => exact h
  | .addEdge (some s) (some d) =>
    rw [Operation.apply, addEdge_some]
    cases hs : g.hasVertex s with
    | false => exact h
    | true =>
      cases g.hasVertex d with
      | false => exact h
      | true =>
        cases he : g.hasEdge s d with
        | true => exact h
        | false => exact h.insertEdge hs he
  | .removeEdge s d =>
    rw [Operation.apply, removeEdge]
    cases hends : g.ends? s d with
    | error m => exact h
    | ok ends =>
      cases ends with
      | none => exact h
      | some e => exact h.eraseEdge e.2 (ends?_eq_ok hends).1
  | .transpose => exact hg.transpose_distinctRows

/-- Whatever operations made a graph, no two edges out of a vertex are equal. -/
theorem ofOperations_distinctRows (ops : List (Operation α)) : (ofOperations ops).DistinctRows := by
  induction ops using List.reverseRecOn with
  | nil => exact fun _ => List.Pairwise.nil
  | append_singleton ops op ih =>
    rw [ofOperations, List.foldl_append]
    exact apply_distinctRows (ofOperations_wellFormed ops) ih op

/-- Turning round loses no edge and makes none: the edges of the new graph are those of the old one
with their ends swapped. -/
theorem WellFormed.edgeCount_transpose (hg : g.WellFormed) (h : g.DistinctRows) :
    g.transpose.edgeCount = g.edgeCount := by
  have hturned := (transpose_spec hg).1.enumerates_edges hg.transpose_distinctRows
  have hswap (e f : α × α) : (e.swap == f) = (e == f.swap) := Bool.and_comm _ _
  have hold : Enumerates (g.edges.map Prod.swap) fun e => g.transpose.hasEdge e.1 e.2 := by
    have hedges := hg.enumerates_edges h
    constructor
    · rw [List.pairwise_map]
      refine hedges.distinct.imp fun {e f} hef => ?_
      rw [hswap, Prod.swap_swap, hef]
    · intro e
      rw [List.contains_eq_any_beq, List.any_map]
      calc
        (g.edges.any fun f => e == f.swap) = g.edges.contains e.swap := by
          rw [List.contains_eq_any_beq]
          simp only [hswap]
        _ = g.hasEdge e.2 e.1 := hedges.contains e.swap
        _ = g.transpose.hasEdge e.1 e.2 := (hg.hasEdge_transpose e.1 e.2).symm
  rw [← length_edges, ← length_edges, ← hturned.hasSize.length_eq _ hold, List.length_map]

end Count

section Transposed

variable [BEq α]

/-- One graph is another one with its edges turned round: it has its vertices, in their order, and
lists what the edges of each vertex lead to in that order too. -/
structure Transposed (g t : Digraph α) : Prop where
  vertices : t.vertices = g.vertices
  hasEdge : ∀ u v, t.hasEdge u v = g.hasEdge v u
  edgeCount : t.edgeCount = g.edgeCount
  neighbors : ∀ u, t.neighbors u = g.vertices.filter fun v => g.hasEdge v u

variable [EquivBEq α] {g : Digraph α}

theorem WellFormed.transposed (hg : g.WellFormed) (h : g.DistinctRows) :
    Transposed g g.transpose :=
  ⟨hg.vertices_transpose, hg.hasEdge_transpose, hg.edgeCount_transpose h, hg.neighbors_transpose⟩

/-- Whatever operations made a graph, turning it round meets no missing vertex and gives the graph
with all edges turned. Turning round twice gives the edges back, with what they lead to in the
order of the vertices, and turning round three times gives just the graph that turning round once
does. Graphs are values, so the old one is still there. -/
theorem ofOperations_transpose (ops : List (Operation α)) :
    let g := ofOperations ops
    g.transpose? = some g.transpose ∧ Transposed g g.transpose ∧
      g.transpose.transpose.transpose = g.transpose ∧
      g.transpose.transpose.vertices = g.vertices ∧
      (∀ u v, g.transpose.transpose.hasEdge u v = g.hasEdge u v) ∧
      g.transpose.transpose.edgeCount = g.edgeCount ∧
      ∀ u, g.transpose.transpose.neighbors u = g.vertices.filter fun v => g.hasEdge u v := by
  intro g
  have hg : g.WellFormed := ofOperations_wellFormed ops
  have ht : g.transpose.WellFormed := (transpose_spec hg).1
  have hrows : g.DistinctRows := ofOperations_distinctRows ops
  have hvertices : g.transpose.transpose.vertices = g.vertices := by
    rw [ht.vertices_transpose, hg.vertices_transpose]
  have hedge (u v : α) : g.transpose.transpose.hasEdge u v = g.hasEdge u v := by
    rw [ht.hasEdge_transpose, hg.hasEdge_transpose]
  refine ⟨hg.transpose?_eq, hg.transposed hrows, ?_, hvertices, hedge, ?_, fun u => ?_⟩
  · exact hg.transpose_congr (transpose_spec ht).1 hvertices hedge
  · rw [ht.edgeCount_transpose hg.transpose_distinctRows, hg.edgeCount_transpose hrows]
  · rw [ht.neighbors_transpose, hg.vertices_transpose]
    simp only [hg.hasEdge_transpose]

/-- What the edges of a vertex lead to is listed by age at first and by vertex after two turns. -/
theorem ofOperations_transpose_by_vertex :
    let g : Digraph Nat := ofOperations [.addVertex (some 1), .addVertex (some 2),
      .addVertex (some 3), .addEdge (some 1) (some 3), .addEdge (some 1) (some 2),
      .addEdge (some 3) (some 2)]
    g.neighbors 1 = [3, 2] ∧ g.transpose.neighbors 2 = [1, 3] ∧
      g.transpose.transpose.neighbors 1 = [2, 3] ∧
      g.transpose.transpose.transpose = g.transpose := by
  intro g
  obtain ⟨-, hturned, hthrice, -, -, -, htwice⟩ := ofOperations_transpose (α := Nat)
    [.addVertex (some 1), .addVertex (some 2), .addVertex (some 3), .addEdge (some 1) (some 3),
      .addEdge (some 1) (some 2), .addEdge (some 3) (some 2)]
  refine ⟨by decide, ?_, ?_, hthrice⟩
  · rw [hturned.neighbors]
    decide
  · rw [htwice]
    decide

end Transposed

end Dec.Digraph
