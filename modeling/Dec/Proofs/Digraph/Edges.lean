import Dec.Digraph

namespace Dec.Digraph

variable {α : Type} [BEq α] [EquivBEq α]

section Lookup

variable {g : Digraph α} {u v w x y : α}

omit [EquivBEq α] in
theorem lookup_cons_ite (u : α) (row : List α) (rest : List (α × List α)) (x : α) :
    ((u, row) :: rest).lookup x = if x == u then some row else rest.lookup x := by
  rw [List.lookup_cons]
  cases x == u <;> rfl

theorem lookup_congr (rows : List (α × List α)) (h : v == w) : rows.lookup v = rows.lookup w := by
  induction rows with
  | nil => rfl
  | cons row rest ih => rw [List.lookup_cons, List.lookup_cons, BEq.congr_left h, ih]

theorem neighbors_congr (g : Digraph α) (h : v == w) : g.neighbors v = g.neighbors w := by
  rw [neighbors, neighbors, neighbors?, neighbors?, lookup_congr _ h]

theorem hasVertex_congr (g : Digraph α) (h : v == w) : g.hasVertex v = g.hasVertex w := by
  rw [hasVertex, hasVertex, neighbors?, neighbors?, lookup_congr _ h]

theorem hasEdge_congr (g : Digraph α) (hv : v == w) (hx : x == y) :
    g.hasEdge v x = g.hasEdge w y := by
  rw [hasEdge, hasEdge, neighbors_congr g hv, List.contains_congr hx]

theorem contains_of_mem {l : List α} (h : x ∈ l) : l.contains x = true :=
  List.contains_iff_exists_mem_beq.mpr ⟨x, h, BEq.rfl⟩

theorem hasEdge_of_mem_neighbors (h : w ∈ g.neighbors v) : g.hasEdge v w = true :=
  contains_of_mem h

omit [EquivBEq α] in
theorem hasVertex_eq_contains (g : Digraph α) (v : α) : g.hasVertex v = g.vertices.contains v := by
  obtain ⟨rows⟩ := g
  induction rows with
  | nil => rfl
  | cons row rest ih =>
    obtain ⟨u, row⟩ := row
    simp only [hasVertex, neighbors?, vertices] at ih ⊢
    rw [lookup_cons_ite, List.map_cons, List.contains_cons, ← ih]
    cases v == u <;> rfl

theorem hasVertex_of_mem_vertices (h : v ∈ g.vertices) : g.hasVertex v = true := by
  rw [hasVertex_eq_contains]
  exact contains_of_mem h

end Lookup

section Change

variable (g : Digraph α) (s d v x y : α)

omit [EquivBEq α] in
theorem neighbors?_insertVertex :
    (g.insertVertex v).neighbors? x =
      (g.neighbors? x).or (if x == v && !g.hasVertex v then some [] else none) := by
  by_cases hv : g.hasVertex v = true
  · rw [insertVertex, if_pos hv, hv]
    simp
  · rw [insertVertex, if_neg hv, neighbors?, List.lookup_append, lookup_cons_ite]
    simp [hv, neighbors?]

omit [EquivBEq α] in
theorem vertices_insertVertex :
    (g.insertVertex v).vertices = if g.hasVertex v then g.vertices else g.vertices ++ [v] := by
  rw [insertVertex]
  split
  · rfl
  · simp [vertices]

omit [EquivBEq α] in
theorem neighbors_insertVertex : (g.insertVertex v).neighbors x = g.neighbors x := by
  rw [neighbors, neighbors, neighbors?_insertVertex]
  cases g.neighbors? x with
  | none => split <;> rfl
  | some row => rfl

theorem hasVertex_insertVertex : (g.insertVertex v).hasVertex x = (g.hasVertex x || x == v) := by
  rw [hasVertex, neighbors?_insertVertex, Option.isSome_or]
  change (g.hasVertex x || _) = _
  by_cases hx : x == v
  -- the new row counts only where no equal vertex was there before
  · rw [← hasVertex_congr g hx]
    cases g.hasVertex x <;> simp [hx]
  · simp [hx]

omit [EquivBEq α] in
theorem hasEdge_insertVertex : (g.insertVertex v).hasEdge x y = g.hasEdge x y := by
  rw [hasEdge, hasEdge, neighbors_insertVertex]

omit [EquivBEq α] in
theorem vertices_updateRow (f : List α → List α) : (g.updateRow s f).vertices = g.vertices := by
  have hfst (row : α × List α) : (if row.1 == s then (row.1, f row.2) else row).1 = row.1 := by
    split <;> rfl
  simp only [vertices, updateRow, List.map_map, Function.comp_def, hfst]

omit [EquivBEq α] in
theorem hasVertex_updateRow (f : List α → List α) :
    (g.updateRow s f).hasVertex x = g.hasVertex x := by
  rw [hasVertex_eq_contains, hasVertex_eq_contains, vertices_updateRow]

theorem neighbors?_updateRow (f : List α → List α) :
    (g.updateRow s f).neighbors? x =
      if x == s then (g.neighbors? x).map f else g.neighbors? x := by
  obtain ⟨rows⟩ := g
  induction rows with
  | nil => cases x == s <;> rfl
  | cons row rest ih =>
    obtain ⟨u, row⟩ := row
    -- the update keeps the vertex of each row, so that lookups find the same rows
    have hrow : (if u == s then (u, f row) else (u, row)) = (u, if u == s then f row else row) := by
      split <;> rfl
    simp only [neighbors?, updateRow] at ih ⊢
    rw [List.map_cons, hrow, lookup_cons_ite, lookup_cons_ite, ih]
    by_cases hx : x == u
    · have hs : (u == s) = (x == s) := (BEq.congr_left hx).symm
      rw [if_pos hx, if_pos hx, hs]
      cases x == s <;> rfl
    · rw [if_neg hx, if_neg hx]

variable {g s} in
theorem neighbors_updateRow (hs : g.hasVertex s = true) (f : List α → List α) :
    (g.updateRow s f).neighbors x = if x == s then f (g.neighbors x) else g.neighbors x := by
  rw [neighbors, neighbors, neighbors?_updateRow]
  split
  · rename_i hx
    rw [← hasVertex_congr g hx] at hs
    obtain ⟨row, hrow⟩ := Option.isSome_iff_exists.mp hs
    rw [hrow]
    rfl
  · rfl

theorem hasEdge_insertEdge :
    (g.insertEdge s d).hasEdge x y = (g.hasEdge x y || (g.hasVertex s && x == s && y == d)) := by
  rw [insertEdge, hasEdge, hasEdge, neighbors, neighbors, neighbors?_updateRow]
  by_cases hs : x == s
  · rw [if_pos hs, hs, ← hasVertex_congr g hs, hasVertex]
    cases g.neighbors? x with
    | none => simp
    | some row =>
      -- an edge that is there already is not added again
      by_cases hd : row.contains d = true
      · by_cases hy : y == d
        · simp [hd, (List.contains_congr hy).trans hd, -List.contains_eq_mem]
        · simp [hd, hy, -List.contains_eq_mem]
      · cases hy : y == d <;> simp [hd, hy, List.contains_append, -List.contains_eq_mem]
  · simp [hs]

theorem contains_filter_bne (row : List α) :
    (row.filter fun w => !(w == d)).contains y = (row.contains y && !(y == d)) := by
  induction row with
  | nil => rfl
  | cons w rest ih =>
    rw [List.filter_cons]
    by_cases hw : y == w
    · have hd : (w == d) = (y == d) := (BEq.congr_left hw).symm
      cases he : y == d <;> simp [hw, hd, he, ih, -List.contains_eq_mem]
    · cases w == d <;> simp [hw, ih, -List.contains_eq_mem]

theorem hasEdge_eraseEdge :
    (g.eraseEdge s d).hasEdge x y = (g.hasEdge x y && !(x == s && y == d)) := by
  rw [eraseEdge, hasEdge, hasEdge, neighbors, neighbors, neighbors?_updateRow]
  by_cases hs : x == s
  · rw [if_pos hs, hs, Bool.true_and]
    cases g.neighbors? x with
    | none => rfl
    | some row => exact contains_filter_bne d y row
  · simp [hs]

omit [EquivBEq α] in
theorem vertices_eraseVertex :
    (g.eraseVertex v).vertices = g.vertices.filter fun w => !(w == v) := by
  simp [vertices, eraseVertex, List.filter_map, Function.comp_def]

theorem neighbors?_eraseVertex :
    (g.eraseVertex v).neighbors? x =
      if x == v then none else (g.neighbors? x).map (·.filter fun w => !(w == v)) := by
  obtain ⟨rows⟩ := g
  induction rows with
  | nil => cases x == v <;> rfl
  | cons row rest ih =>
    obtain ⟨u, row⟩ := row
    simp only [neighbors?, eraseVertex] at ih ⊢
    rw [List.filter_cons, lookup_cons_ite]
    by_cases hx : x == u
    · have hv : (u == v) = (x == v) := (BEq.congr_left hx).symm
      rw [if_pos hx]
      cases he : x == v
      · simp [hv, he, lookup_cons_ite, hx]
      · simpa [hv, he] using ih
    · rw [if_neg hx]
      cases he : u == v
      · simpa [lookup_cons_ite, hx] using ih
      · simpa using ih

theorem neighbors_eraseVertex :
    (g.eraseVertex v).neighbors x =
      if x == v then [] else (g.neighbors x).filter fun w => !(w == v) := by
  rw [neighbors, neighbors, neighbors?_eraseVertex]
  split
  · rfl
  · cases g.neighbors? x <;> rfl

theorem hasVertex_eraseVertex : (g.eraseVertex v).hasVertex x = (g.hasVertex x && !(x == v)) := by
  rw [hasVertex, hasVertex, neighbors?_eraseVertex]
  cases x == v <;> cases g.neighbors? x <;> rfl

theorem hasEdge_eraseVertex :
    (g.eraseVertex v).hasEdge x y = (g.hasEdge x y && !(x == v) && !(y == v)) := by
  rw [hasEdge, hasEdge, neighbors_eraseVertex]
  cases x == v with
  | true => simp
  | false =>
    rw [Bool.not_false, Bool.and_true]
    exact contains_filter_bne v y (g.neighbors x)

end Change

end Dec.Digraph
