import Dec.Proofs.Digraph.Edges

namespace Dec.Digraph

variable {α : Type} [BEq α]

structure WellFormed (g : Digraph α) : Prop where
  distinct : g.vertices.Pairwise fun v w => (v == w) = false
  closed : ∀ v w, g.hasEdge v w = true → g.hasVertex w = true

inductive Operation (α : Type) where
  | addVertex (v : Option α)
  | removeVertex (v : Option α)
  | addEdge (source destination : Option α)
  | removeEdge (source destination : Option α)
  | transpose

/-- The graph after an operation; one that fails changes nothing. -/
def Operation.apply (g : Digraph α) : Operation α → Digraph α
  | addVertex v => (g.addVertex v).2
  | removeVertex v => (g.removeVertex v).2
  | addEdge s d =>
    match g.addEdge s d with
    | .ok (_, g) => g
    | .error _ => g
  | removeEdge s d =>
    match g.removeEdge s d with
    | .ok (_, g) => g
    | .error _ => g
  | transpose => g.transpose

def ofOperations (ops : List (Operation α)) : Digraph α := ops.foldl Operation.apply empty

theorem empty_wellFormed : (empty : Digraph α).WellFormed :=
  ⟨List.Pairwise.nil, fun _ _ h => Bool.noConfusion h⟩

variable [EquivBEq α] {g : Digraph α}

namespace WellFormed

theorem insertVertex (hg : g.WellFormed) (v : α) : (g.insertVertex v).WellFormed := by
  constructor
  · rw [vertices_insertVertex]
    split
    · exact hg.distinct
    · rename_i hv
      -- an equal vertex would have been found
      have hnew : ∀ u ∈ g.vertices, (u == v) = false := by
        intro u hu
        rw [Bool.eq_false_iff]
        intro he
        exact hv (by rw [← hasVertex_congr g he, hasVertex_of_mem_vertices hu])
      rw [List.pairwise_append]
      exact ⟨hg.distinct, List.pairwise_singleton _ _, fun u hu w hw => by
        rw [List.mem_singleton.mp hw]
        exact hnew u hu⟩
  · intro x y h
    rw [hasEdge_insertVertex] at h
    rw [hasVertex_insertVertex, hg.closed x y h, Bool.true_or]

theorem insertEdge (hg : g.WellFormed) (s : α) {d : α} (hd : g.hasVertex d = true) :
    (g.insertEdge s d).WellFormed := by
  constructor
  · rw [Digraph.insertEdge, vertices_updateRow]
    exact hg.distinct
  · intro x y h
    rw [hasEdge_insertEdge, Bool.or_eq_true, Bool.and_eq_true] at h
    rw [Digraph.insertEdge, hasVertex_updateRow]
    rcases h with h | ⟨-, hy⟩
    · exact hg.closed x y h
    · rw [hasVertex_congr g hy, hd]

theorem eraseEdge (hg : g.WellFormed) (s d : α) : (g.eraseEdge s d).WellFormed := by
  constructor
  · rw [Digraph.eraseEdge, vertices_updateRow]
    exact hg.distinct
  · intro x y h
    rw [hasEdge_eraseEdge, Bool.and_eq_true] at h
    rw [Digraph.eraseEdge, hasVertex_updateRow]
    exact hg.closed x y h.1

theorem eraseVertex (hg : g.WellFormed) (v : α) : (g.eraseVertex v).WellFormed := by
  constructor
  · rw [vertices_eraseVertex]
    exact hg.distinct.filter _
  · intro x y h
    rw [hasEdge_eraseVertex, Bool.and_eq_true, Bool.and_eq_true] at h
    rw [hasVertex_eraseVertex, hg.closed x y h.1.1, h.2, Bool.true_and]

end WellFormed

section Transpose

theorem foldl_insertVertex (hg : g.WellFormed) (vs : List α) :
    (vs.foldl insertVertex g).WellFormed ∧
    (∀ x, (vs.foldl insertVertex g).hasVertex x = (g.hasVertex x || vs.contains x)) ∧
    ∀ x y, (vs.foldl insertVertex g).hasEdge x y = g.hasEdge x y := by
  induction vs generalizing g with
  | nil => exact ⟨hg, fun x => by simp, fun x y => rfl⟩
  | cons v rest ih =>
    obtain ⟨hw, hv, he⟩ := ih (hg.insertVertex v)
    refine ⟨hw, fun x => ?_, fun x y => ?_⟩
    · rw [List.foldl_cons, hv, hasVertex_insertVertex, List.contains_cons, Bool.or_assoc]
    · rw [List.foldl_cons, he, hasEdge_insertVertex]

theorem foldl_insertEdge (hg : g.WellFormed) (es : List (α × α))
    (hs : ∀ e ∈ es, g.hasVertex e.1 = true ∧ g.hasVertex e.2 = true) :
    (es.foldl (fun t e => t.insertEdge e.2 e.1) g).WellFormed ∧
    (∀ x, (es.foldl (fun t e => t.insertEdge e.2 e.1) g).hasVertex x = g.hasVertex x) ∧
    ∀ x y, (es.foldl (fun t e => t.insertEdge e.2 e.1) g).hasEdge x y =
      (g.hasEdge x y || es.any fun e => y == e.1 && x == e.2) := by
  induction es generalizing g with
  | nil => exact ⟨hg, fun x => rfl, fun x y => by simp⟩
  | cons e rest ih =>
    obtain ⟨h₁, h₂⟩ := hs e List.mem_cons_self
    have hrow (x : α) : (g.insertEdge e.2 e.1).hasVertex x = g.hasVertex x :=
      hasVertex_updateRow g e.2 x _
    have hrest : ∀ e' ∈ rest, (g.insertEdge e.2 e.1).hasVertex e'.1 = true ∧
        (g.insertEdge e.2 e.1).hasVertex e'.2 = true := by
      intro e' he'
      rw [hrow, hrow]
      exact hs e' (List.mem_cons_of_mem _ he')
    obtain ⟨hw, hv, he⟩ := ih (hg.insertEdge e.2 h₁) hrest
    refine ⟨hw, fun x => ?_, fun x y => ?_⟩
    · rw [List.foldl_cons, hv, hrow]
    · rw [List.foldl_cons, he, hasEdge_insertEdge, h₂, List.any_cons, Bool.or_assoc,
        Bool.true_and, Bool.and_comm (x == e.2)]

theorem any_edges (hg : g.WellFormed) (x y : α) :
    (g.edges.any fun e => x == e.1 && y == e.2) = g.hasEdge x y := by
  have hd := hg.distinct
  clear hg
  obtain ⟨rows⟩ := g
  simp only [edges, List.any_flatMap, List.any_map, Function.comp_def, hasEdge, neighbors,
    neighbors?]
  induction rows with
  | nil => rfl
  | cons row rest ih =>
    obtain ⟨u, row⟩ := row
    simp only [vertices, List.map_cons, List.pairwise_cons] at hd
    rw [List.any_cons, lookup_cons_ite, ih hd.2]
    by_cases hx : x == u
    -- no later row has a vertex equal to that of the first one
    · have hnone : rest.lookup x = none := by
        rw [lookup_congr rest hx, List.lookup_eq_none_iff]
        intro p hp
        rw [bne, hd.1 p.1 (List.mem_map_of_mem hp), Bool.not_false]
      rw [hnone, if_pos hx]
      simp [hx, List.contains_eq_any_beq]
    · simp [hx]

theorem hasVertex_of_mem_edges (hg : g.WellFormed) {e : α × α} (h : e ∈ g.edges) :
    g.hasVertex e.1 = true ∧ g.hasVertex e.2 = true := by
  constructor
  · obtain ⟨row, hrow, he⟩ := List.mem_flatMap.mp h
    obtain ⟨d, -, rfl⟩ := List.mem_map.mp he
    exact hasVertex_of_mem_vertices (List.mem_map_of_mem hrow)
  · apply hg.closed e.1
    rw [← any_edges hg]
    exact List.any_eq_true.mpr ⟨e, h, by simp⟩

/-- Turning the edges round keeps the vertices and turns each edge round. -/
theorem transpose_spec (hg : g.WellFormed) :
    g.transpose.WellFormed ∧ (∀ x, g.transpose.hasVertex x = g.hasVertex x) ∧
      ∀ x y, g.transpose.hasEdge x y = g.hasEdge y x := by
  -- all vertices first, then all edges between them
  obtain ⟨hw, hv, he⟩ := foldl_insertVertex (empty_wellFormed (α := α)) g.vertices
  have hv' (x : α) : (g.vertices.foldl Digraph.insertVertex empty).hasVertex x = g.hasVertex x := by
    rw [hv, hasVertex_eq_contains g]
    rfl
  have hs : ∀ e ∈ g.edges, (g.vertices.foldl Digraph.insertVertex empty).hasVertex e.1 = true ∧
      (g.vertices.foldl Digraph.insertVertex empty).hasVertex e.2 = true := by
    intro e h
    rw [hv', hv']
    exact hasVertex_of_mem_edges hg h
  obtain ⟨hw', hv'', he'⟩ := foldl_insertEdge hw g.edges hs
  refine ⟨hw', fun x => (hv'' x).trans (hv' x), fun x y => ?_⟩
  rw [transpose, he', he, any_edges hg]
  rfl

end Transpose

section Operations

omit [EquivBEq α] in
theorem ends?_eq_ok {s d : Option α} {p : α × α} (h : g.ends? s d = .ok (some p)) :
    g.hasVertex p.1 = true ∧ g.hasVertex p.2 = true := by
  unfold ends? at h
  split at h
  · split at h
    · cases h
    · split at h
      · cases h
      · cases h
        simp_all
  · cases h

theorem apply_wellFormed (hg : g.WellFormed) (op : Operation α) : (op.apply g).WellFormed := by
  cases op with
  | addVertex v =>
    cases v with
    | none => exact hg
    | some v => exact hg.insertVertex v
  | removeVertex v =>
    cases v with
    | none => exact hg
    | some v => exact hg.eraseVertex v
  | addEdge s d =>
    simp only [Operation.apply, addEdge]
    cases h : g.ends? s d with
    | error e => exact hg
    | ok p =>
      cases p with
      | none => exact hg
      | some p =>
        have hd := (ends?_eq_ok h).2
        by_cases he : g.hasEdge p.1 p.2 = true
        · simpa [bind, Except.bind, pure, Except.pure, he] using hg
        · simpa [bind, Except.bind, pure, Except.pure, he] using hg.insertEdge p.1 hd
  | removeEdge s d =>
    simp only [Operation.apply, removeEdge]
    cases h : g.ends? s d with
    | error e => exact hg
    | ok p =>
      cases p with
      | none => exact hg
      | some p => exact hg.eraseEdge p.1 p.2
  | transpose => exact (transpose_spec hg).1

/-- Whatever operations made a graph, it is well formed. -/
theorem ofOperations_wellFormed (ops : List (Operation α)) : (ofOperations ops).WellFormed := by
  -- the induction is on the operations, from any well-formed graph
  have hrun : ∀ (ops : List (Operation α)) (g : Digraph α), g.WellFormed →
      (ops.foldl Operation.apply g).WellFormed := by
    intro ops
    induction ops with
    | nil => exact fun g hg => hg
    | cons op rest ih => exact fun g hg => ih _ (apply_wellFormed hg op)
  exact hrun ops empty empty_wellFormed

end Operations

end Dec.Digraph
