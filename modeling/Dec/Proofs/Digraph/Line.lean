import Dec.Digraph.Search
import Dec.Proofs.Digraph.WellFormed

/-!
Lines: graphs in which each vertex leads to the next one of a list, unless it stops. A search from
the first vertex of a line gets up to the first one that stops.
-/
namespace Dec.Digraph

variable {α : Type}

def lineRows (stops : α → Bool) : List α → List (α × List α)
  | [] => []
  | v :: rest => (v, if stops v then [] else rest.take 1) :: lineRows stops rest

/-- The graph in which each vertex of a list leads to the next one, unless it stops. -/
def line (stops : α → Bool) (vs : List α) : Digraph α := ⟨lineRows stops vs⟩

theorem contains_eq_false [BEq α] [EquivBEq α] {l : List α} {w : α}
    (h : ∀ v ∈ l, (v == w) = false) : l.contains w = false := by
  rw [Bool.eq_false_iff, ne_eq, List.contains_iff_exists_mem_beq]
  rintro ⟨v, hv, hwv⟩
  have hvw := h v hv
  rw [BEq.comm, hwv] at hvw
  cases hvw

variable (stops : α → Bool) (vs : List α)

theorem vertices_line : (line stops vs).vertices = vs := by
  induction vs with
  | nil => rfl
  | cons v rest ih => exact congrArg (v :: ·) ih

theorem length_lineRows : (lineRows stops vs).length = vs.length := by
  rw [← List.length_map (·.1)]
  exact congrArg List.length (vertices_line stops vs)

section Growth

variable {front : List α} {u v : α}

/-- Where the last vertex stops, a new one only gets its own row. -/
theorem lineRows_concat_of_stops (h : ∀ u, front.getLast? = some u → stops u = true) :
    lineRows stops (front ++ [v]) = lineRows stops front ++ [(v, [])] := by
  induction front with
  | nil => simp [lineRows]
  | cons x rest ih =>
    cases rest with
    | nil => simp [lineRows, h x rfl]
    | cons y rest =>
      have hrest := ih fun w hw => h w (by simpa using hw)
      rw [List.cons_append, lineRows, hrest, lineRows]
      rfl

variable [BEq α] [EquivBEq α]

/-- Where the last vertex does not stop, its row changes too. -/
theorem updateRow_lineRows_concat {f : List α → List α}
    (hd : (front ++ [u, v]).Pairwise fun x y => (x == y) = false) (hu : stops u = false)
    (hf : f [] = [v]) :
    updateRow ⟨lineRows stops (front ++ [u]) ++ [(v, [])]⟩ u f = line stops (front ++ [u, v]) := by
  rw [updateRow, line, Digraph.mk.injEq]
  induction front with
  | nil =>
    have hv : (v == u) = false := by
      rw [BEq.comm]
      simpa using hd
    simp [lineRows, hu, hf, hv]
  | cons x rest ih =>
    obtain ⟨hx, hrest⟩ := List.pairwise_cons.mp hd
    have htake : (rest ++ [u]).take 1 = (rest ++ [u, v]).take 1 := by cases rest <;> rfl
    rw [List.cons_append, List.cons_append, lineRows, lineRows, List.cons_append, List.map_cons,
      ih hrest, hx u (by simp), htake]
    simp

/-- A line grows by a vertex at its end and an edge from the last one, unless that one stops. -/
theorem line_concat (hd : (front ++ [v]).Pairwise fun x y => (x == y) = false) :
    line stops (front ++ [v]) =
      match front.getLast?.filter fun u => !stops u with
      | none => (line stops front).insertVertex v
      | some u => ((line stops front).insertVertex v).insertEdge u v := by
  have hnew : (line stops front).insertVertex v = ⟨lineRows stops front ++ [(v, [])]⟩ := by
    have hv : (line stops front).hasVertex v = false := by
      rw [hasVertex_eq_contains, vertices_line]
      exact contains_eq_false fun x hx => (List.pairwise_append.mp hd).2.2 x hx v (by simp)
    rw [insertVertex, hv]
    rfl
  rw [hnew]
  rcases List.eq_nil_or_concat front with rfl | ⟨rest, u, rfl⟩
  · simp [line, lineRows]
  · rw [List.concat_eq_append] at hd ⊢
    rw [List.getLast?_concat]
    cases hu : stops u with
    | true =>
      rw [line, lineRows_concat_of_stops stops (by simp [hu])]
      simp [Option.filter, hu]
    | false =>
      rw [List.append_assoc, List.singleton_append] at hd ⊢
      simp only [Option.filter, hu, Bool.not_false, if_true, insertEdge]
      exact (updateRow_lineRows_concat stops hd hu (by simp)).symm

end Growth

section Edges

variable [BEq α] [EquivBEq α] {stops} {front rest : List α} {v w : α}

theorem neighbors?_line (hd : (front ++ v :: rest).Pairwise fun x y => (x == y) = false) :
    (line stops (front ++ v :: rest)).neighbors? v = some (if stops v then [] else rest.take 1) := by
  rw [neighbors?, line]
  induction front with
  | nil => rw [List.nil_append, lineRows, lookup_cons_ite, if_pos BEq.rfl]
  | cons x front ih =>
    obtain ⟨hx, hrest⟩ := List.pairwise_cons.mp hd
    have hv : (v == x) = false := by
      rw [BEq.comm]
      exact hx v (by simp)
    rw [List.cons_append, lineRows, lookup_cons_ite, hv]
    exact ih hrest

/-- The edges of a line lead from each vertex that does not stop to the next one. -/
theorem hasEdge_line_iff {vs : List α} (hd : vs.Pairwise fun x y => (x == y) = false) :
    (line stops vs).hasEdge v w = true ↔
      ∃ front x y rest, vs = front ++ x :: y :: rest ∧ stops x = false ∧ v == x ∧ w == y := by
  constructor
  · intro h
    have hv : (line stops vs).hasVertex v = true := by
      rw [hasEdge, neighbors] at h
      rw [hasVertex]
      cases hn : (line stops vs).neighbors? v with
      | none => simp [hn] at h
      | some row => rfl
    rw [hasVertex_eq_contains, vertices_line, List.contains_iff_exists_mem_beq] at hv
    obtain ⟨x, hx, hvx⟩ := hv
    obtain ⟨front, rest, rfl⟩ := List.append_of_mem hx
    rw [hasEdge_congr _ hvx (BEq.refl w), hasEdge, neighbors, neighbors?_line hd] at h
    cases hs : stops x with
    | true => simp [hs] at h
    | false =>
      cases rest with
      | nil => simp [hs] at h
      | cons y rest => exact ⟨front, x, y, rest, rfl, hs, hvx, by simpa [hs] using h⟩
  · rintro ⟨front, x, y, rest, rfl, hs, hvx, hwy⟩
    rw [hasEdge_congr _ hvx hwy, hasEdge, neighbors, neighbors?_line hd, hs]
    simp

theorem eq_of_getElem_beq {vs : List α} (hd : vs.Pairwise fun x y => (x == y) = false) {i j : Nat}
    {hi : i < vs.length} {hj : j < vs.length} (h : vs[i] == vs[j]) : i = j := by
  rw [List.pairwise_iff_getElem] at hd
  rcases Nat.lt_trichotomy i j with hij | hij | hij
  · rw [hd i j hi hj hij] at h
    cases h
  · exact hij
  · rw [BEq.comm, hd j i hj hi hij] at h
    cases h

/-- The edges of a line by the places of their ends. -/
theorem hasEdge_line_getElem_iff {vs : List α} (hd : vs.Pairwise fun x y => (x == y) = false)
    {i j : Nat} (hi : i < vs.length) (hj : j < vs.length) :
    (line stops vs).hasEdge vs[i] vs[j] = true ↔ j = i + 1 ∧ stops vs[i] = false := by
  rw [hasEdge_line_iff hd]
  constructor
  · rintro ⟨front, x, y, rest, rfl, hs, hix, hjy⟩
    have hnext : front.length + 1 < (front ++ x :: y :: rest).length := by simp
    have hx : (front ++ x :: y :: rest)[front.length] = x := by simp
    have hy : (front ++ x :: y :: rest)[front.length + 1] = y := by simp
    obtain rfl : i = front.length := eq_of_getElem_beq hd (by rw [hx]; exact hix)
    obtain rfl : j = front.length + 1 := eq_of_getElem_beq hd (by rw [hy]; exact hjy)
    exact ⟨rfl, by rw [hx]; exact hs⟩
  · rintro ⟨rfl, hs⟩
    refine ⟨vs.take i, vs[i], vs[i + 1], vs.drop (i + 2), ?_, hs, BEq.rfl, BEq.rfl⟩
    rw [List.getElem_cons_drop, List.getElem_cons_drop, List.take_append_drop]

end Edges

section Search

variable [BEq α] [EquivBEq α] (front rest : List α) {vs : List α}

/-- From a vertex of a line whose predecessors were all reached, the search goes on to the first
vertex that stops. -/
theorem widen_line (v : α) (steps : Nat)
    (hd : (front ++ v :: rest).Pairwise fun x y => (x == y) = false) (hs : rest.length < steps) :
    let reached := front ++ (v :: rest).take ((v :: rest).findIdx stops + 1)
    (line stops (front ++ v :: rest)).widen steps [v] (v :: front.reverse) front.reverse =
      .ok (reached.reverse, reached.reverse) := by
  -- the queue holds one vertex at a time, and just what comes before it in the line was discovered
  induction rest generalizing front v steps with
  | nil =>
    obtain ⟨k, rfl⟩ := Nat.exists_eq_add_of_lt hs
    rw [widen, neighbors?_line hd]
    cases hv : stops v <;> simp [discover, widen, List.findIdx_cons, hv]
  | cons w rest ih =>
    obtain ⟨k, rfl⟩ := Nat.exists_eq_add_of_lt hs
    rw [widen, neighbors?_line hd]
    cases hv : stops v with
    | true => simp [discover, widen, List.findIdx_cons, hv]
    | false =>
      have hw : (v :: front.reverse).contains w = false := by
        rw [← List.singleton_append, ← List.append_assoc] at hd
        refine contains_eq_false fun x hx => (List.pairwise_append.mp hd).2.2 x ?_ w (by simp)
        simpa [or_comm] using hx
      have hidx : (v :: w :: rest).findIdx stops = (w :: rest).findIdx stops + 1 := by
        rw [List.findIdx_cons, hv, cond_false]
      have hnext := ih (front ++ [v]) w ((w :: rest).length + k) (by simpa using hd) (by simp; omega)
      simp only [List.append_assoc, List.singleton_append, List.reverse_append,
        List.reverse_singleton] at hnext
      simp only [Bool.false_eq_true, if_false, List.take_succ_cons, List.take_zero, discover, hw,
        List.nil_append, hidx, List.reverse_append]
      exact hnext

/-- What is not in the first part of a list without repetitions is the second part. -/
theorem filter_not_contains_reverse (hd : (front ++ rest).Pairwise fun x y => (x == y) = false) :
    (front ++ rest).filter (fun x => !front.reverse.contains x) = rest := by
  obtain ⟨-, -, hdis⟩ := List.pairwise_append.mp hd
  have hfront : front.filter (fun x => !front.reverse.contains x) = [] := by
    rw [List.filter_eq_nil_iff]
    intro x hx
    rw [List.contains_reverse, contains_of_mem hx]
    simp
  have hrest : rest.filter (fun x => !front.reverse.contains x) = rest := by
    rw [List.filter_eq_self]
    intro x hx
    rw [List.contains_reverse, contains_eq_false fun y hy => hdis y hy x hx, Bool.not_false]
  rw [List.filter_append, hfront, hrest, List.nil_append]

/-- From its first vertex, a line is reached up to the first vertex that stops. -/
theorem breadthFirst_line (hd : vs.Pairwise fun x y => (x == y) = false) :
    (line stops vs).breadthFirst vs.head? =
      .ok (vs.take (vs.findIdx stops + 1), vs.drop (vs.findIdx stops + 1)) := by
  cases vs with
  | nil => rfl
  | cons v rest =>
    have hsteps : rest.length < (line stops (v :: rest)).vertexCount + 1 := by
      rw [vertexCount, line, length_lineRows, List.length_cons]
      omega
    have hsearch := widen_line stops [] rest v _ hd hsteps
    simp only [List.nil_append, List.reverse_nil] at hsearch
    have hrest := filter_not_contains_reverse ((v :: rest).take ((v :: rest).findIdx stops + 1))
      ((v :: rest).drop ((v :: rest).findIdx stops + 1)) (by rwa [List.take_append_drop])
    rw [List.take_append_drop] at hrest
    rw [breadthFirst, List.head?_cons, Option.toList_some, hsearch, vertices_line]
    simp only [bind, Except.bind, pure, Except.pure, List.reverse_reverse, hrest]

end Search

end Dec.Digraph
