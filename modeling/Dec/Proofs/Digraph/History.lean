import Dec.Proofs.Digraph.Acyclic
import Dec.Proofs.Digraph.Lookups
import Dec.Proofs.Digraph.Sets
import Mathlib.Data.List.Induction

namespace Dec.Digraph

section Requests

variable {α : Type} [BEq α] {g : Digraph α}

def Request.fails (g : Digraph α) : Request α → Bool
  | addEdge s d => !(g.addEdge s d).isOk
  | removeEdge s d => !(g.removeEdge s d).isOk
  | _ => false

def ofRequests (history : List (Request α)) : Digraph α :=
  ofOperations (history.map Request.operation)

theorem ofRequests_concat (history : List (Request α)) (r : Request α) :
    ofRequests (history ++ [r]) = r.operation.apply (ofRequests history) := by
  rw [ofRequests, List.map_append, ofOperations, List.foldl_append]
  rfl

omit [BEq α] in
theorem isOk_bind {ε β γ : Type} (first : Except ε β) (next : β → Except ε γ)
    (hn : ∀ b, (next b).isOk = true) : (first >>= next).isOk = first.isOk := by
  cases first with
  | error e => rfl
  | ok b => exact hn b

theorem isOk_ends? (g : Digraph α) (s d : Option α) :
    (g.ends? s d).isOk = false ↔
      ∃ u v, s = some u ∧ d = some v ∧ (g.hasVertex u && g.hasVertex v) = false := by
  cases s with
  | none => simp [ends?, Except.isOk, Except.toBool]
  | some u =>
    cases d with
    | none => simp [ends?, Except.isOk, Except.toBool]
    | some v =>
      rw [ends?]
      cases hu : g.hasVertex u <;> cases hv : g.hasVertex v <;>
        simp [Except.isOk, Except.toBool, hu, hv]

/-- A graph objects to requests about edges only, and to these just when both ends are given and one
of them is not in the graph. -/
theorem Request.fails_iff (g : Digraph α) (r : Request α) :
    r.fails g = true ↔ ∃ u v, (r = .addEdge (some u) (some v) ∨ r = .removeEdge (some u) (some v)) ∧
      (g.hasVertex u && g.hasVertex v) = false := by
  cases r with
  | addVertex v => simp [fails]
  | removeVertex v => simp [fails]
  | addEdge s d =>
    have hok : (g.addEdge s d).isOk = (g.ends? s d).isOk := by
      refine isOk_bind _ _ fun ends => ?_
      rcases ends with _ | ⟨u, v⟩
      · rfl
      · dsimp only
        split <;> rfl
    rw [fails, hok, Bool.not_eq_true', isOk_ends?]
    simp [and_assoc]
  | removeEdge s d =>
    have hok : (g.removeEdge s d).isOk = (g.ends? s d).isOk := by
      refine isOk_bind _ _ fun ends => ?_
      rcases ends with _ | ⟨u, v⟩ <;> rfl
    rw [fails, hok, Bool.not_eq_true', isOk_ends?]
    simp [and_assoc]

/-- A request that a graph objects to leaves it as it is. -/
theorem Request.apply_of_fails {r : Request α} (h : r.fails g = true) :
    r.operation.apply g = g := by
  cases r with
  | addVertex v => cases h
  | removeVertex v => cases h
  | addEdge s d =>
    rw [fails] at h
    rw [operation, Operation.apply]
    cases hadd : g.addEdge s d with
    | error m => rfl
    | ok answer =>
      rw [hadd] at h
      cases h
  | removeEdge s d =>
    rw [fails] at h
    rw [operation, Operation.apply]
    cases hremove : g.removeEdge s d with
    | error m => rfl
    | ok answer =>
      rw [hremove] at h
      cases h

end Requests

section History

variable {α : Type} [BEq α]

structure Represents (g : Digraph α) (history : List (Request α)) : Prop where
  vertices : Lists history Request.AddsVertex Sets.vertex g.vertices
  neighbors : ∀ u, Lists history (Request.AddsEdge u) (fun s => s.edge u) (g.neighbors u)

variable {g : Digraph α} {history : List (Request α)} {r : Request α}

theorem Represents.hasVertex_eq (h : g.Represents history) (x : α) :
    g.hasVertex x = (Sets.after history).vertex x := by
  rw [hasVertex_eq_contains, h.vertices.contains]

theorem Represents.hasEdge_eq (h : g.Represents history) (x y : α) :
    g.hasEdge x y = (Sets.after history).edge x y :=
  (h.neighbors x).contains y

theorem empty_represents : (empty : Digraph α).Represents [] :=
  ⟨lists_nil _ fun _ => rfl, fun _ => lists_nil _ fun _ => rfl⟩

variable [EquivBEq α]

/-- A graph goes on representing sets that do not change. -/
theorem Represents.same (h : g.Represents history)
    (hs : (Sets.after history).apply r = Sets.after history) : g.Represents (history ++ [r]) := by
  have hs : Sets.after (history ++ [r]) = Sets.after history :=
    (Sets.after_concat history r).trans hs
  exact ⟨h.vertices.keep fun x => by rw [hs], fun u => (h.neighbors u).keep fun x => by rw [hs]⟩

theorem Represents.addVertex (h : g.Represents history) (v : α) :
    (g.insertVertex v).Represents (history ++ [.addVertex (some v)]) := by
  have hs := Sets.after_concat history (.addVertex (some v))
  constructor
  · rw [vertices_insertVertex]
    split
    · rename_i hv
      -- an equal vertex is there, so the set does not change
      refine h.vertices.keep fun x => ?_
      rw [hs, Sets.apply]
      dsimp only
      rw [← h.hasVertex_eq, Bool.or_eq_left_iff_imp]
      intro hx
      rw [hasVertex_congr g hx, hv]
    · rename_i hv
      rw [Bool.not_eq_true, h.hasVertex_eq] at hv
      exact h.vertices.concat rfl hv fun x => by rw [hs, Sets.apply]
  · intro u
    rw [neighbors_insertVertex]
    exact (h.neighbors u).keep fun x => by rw [hs, Sets.apply]

theorem Represents.removeVertex (h : g.Represents history) (v : α) :
    (g.eraseVertex v).Represents (history ++ [.removeVertex (some v)]) := by
  have hs := Sets.after_concat history (.removeVertex (some v))
  constructor
  · rw [vertices_eraseVertex]
    exact h.vertices.erase fun x => by rw [hs, Sets.apply]
  · intro u
    rw [neighbors_eraseVertex]
    split
    · rename_i hu
      exact lists_nil _ fun x => by simp [hs, Sets.apply, hu]
    · rename_i hu
      exact (h.neighbors u).erase fun x => by simp [hs, Sets.apply, hu]

theorem Represents.addEdge (h : g.Represents history) {u v : α} (hu : g.hasVertex u = true)
    (hv : g.hasVertex v = true) :
    (if g.hasEdge u v then g else g.insertEdge u v).Represents
      (history ++ [.addEdge (some u) (some v)]) := by
  have hs := Sets.after_concat history (.addEdge (some u) (some v))
  rw [Sets.apply, if_pos (by rw [← h.hasVertex_eq, ← h.hasVertex_eq, hu, hv]; rfl)] at hs
  split
  · rename_i he
    -- an equal edge is there, so the set does not change
    refine ⟨h.vertices.keep fun x => by rw [hs], fun x => (h.neighbors x).keep fun y => ?_⟩
    rw [hs]
    dsimp only
    rw [← h.hasEdge_eq, Bool.or_eq_left_iff_imp, Bool.and_eq_true]
    rintro ⟨hx, hy⟩
    rw [hasEdge_congr g hx hy, he]
  · rename_i he
    rw [Bool.not_eq_true] at he
    refine ⟨?_, fun x => ?_⟩
    · rw [insertEdge, vertices_updateRow]
      exact h.vertices.keep fun x => by rw [hs]
    · rw [insertEdge, neighbors_updateRow x hu]
      split
      · rename_i hx
        have hnew : (g.neighbors x).contains v = false := (hasEdge_congr g hx BEq.rfl).trans he
        rw [if_neg (by simp [hnew, -List.contains_eq_mem])]
        refine (h.neighbors x).concat ⟨u, BEq.symm hx, rfl⟩ ?_ fun y => ?_
        · rwa [← (h.neighbors x).contains]
        · rw [hs]
          dsimp only
          rw [hx, Bool.true_and]
      · rename_i hx
        refine (h.neighbors x).keep fun y => ?_
        rw [hs]
        simp [hx]

theorem Represents.removeEdge (h : g.Represents history) {u v : α} (hu : g.hasVertex u = true)
    (hv : g.hasVertex v = true) :
    (g.eraseEdge u v).Represents (history ++ [.removeEdge (some u) (some v)]) := by
  have hs := Sets.after_concat history (.removeEdge (some u) (some v))
  rw [Sets.apply, if_pos (by rw [← h.hasVertex_eq, ← h.hasVertex_eq, hu, hv]; rfl)] at hs
  refine ⟨?_, fun x => ?_⟩
  · rw [eraseEdge, vertices_updateRow]
    exact h.vertices.keep fun x => by rw [hs]
  · rw [eraseEdge, neighbors_updateRow x hu]
    split
    · rename_i hx
      exact (h.neighbors x).erase fun y => by rw [hs]; simp [hx]
    · rename_i hx
      exact (h.neighbors x).keep fun y => by rw [hs]; simp [hx]

/-- What a graph represents stays in step with one more request, whether it is met or not. -/
theorem Represents.step (h : g.Represents history) (r : Request α) :
    (r.operation.apply g).Represents (history ++ [r]) := by
  by_cases hfails : r.fails g = true
  · rw [Request.apply_of_fails hfails]
    apply h.same
    obtain ⟨u, v, rfl | rfl, hends⟩ := (Request.fails_iff g r).mp hfails
    all_goals
      rw [h.hasVertex_eq, h.hasVertex_eq] at hends
      rw [Sets.apply, hends, if_neg Bool.false_ne_true]
  · have hends (u v : α)
        (hr : r = .addEdge (some u) (some v) ∨ r = .removeEdge (some u) (some v)) :
        g.hasVertex u = true ∧ g.hasVertex v = true := by
      rw [← Bool.and_eq_true, ← Bool.not_eq_false]
      exact fun hmissing => hfails ((Request.fails_iff g r).mpr ⟨u, v, hr, hmissing⟩)
    match r with
    | .addVertex none => exact h.same rfl
    | .addVertex (some v) => exact h.addVertex v
    | .removeVertex none => exact h.same rfl
    | .removeVertex (some v) => exact h.removeVertex v
    | .addEdge none _ => exact h.same rfl
    | .addEdge (some _) none => exact h.same rfl
    | .addEdge (some u) (some v) =>
      obtain ⟨hu, hv⟩ := hends u v (.inl rfl)
      have hadd := h.addEdge hu hv
      rw [Request.operation, Operation.apply, addEdge_some, hu, hv]
      by_cases he : g.hasEdge u v = true
      · simpa [he] using hadd
      · simpa [he] using hadd
    | .removeEdge none _ => exact h.same rfl
    | .removeEdge (some _) none => exact h.same rfl
    | .removeEdge (some u) (some v) =>
      obtain ⟨hu, hv⟩ := hends u v (.inr rfl)
      have hremove := h.removeEdge hu hv
      have hends : g.ends? (some u) (some v) = .ok (some (u, v)) := by simp [ends?, hu, hv]
      rw [Request.operation, Operation.apply, Digraph.removeEdge, hends]
      exact hremove

/-- A graph lists what the requests that made it have left. -/
theorem represents_ofRequests (history : List (Request α)) :
    (ofRequests history).Represents history := by
  induction history using List.reverseRecOn with
  | nil => exact empty_represents
  | append_singleton history r ih =>
    rw [ofRequests_concat]
    exact ih.step r

end History

section Size

variable {α β : Type} [BEq α] [EquivBEq α] [BEq β] [EquivBEq β]

instance : EquivBEq (α × β) where
  symm {p q} h := by
    simp only [BEq.beq, Bool.and_eq_true] at h ⊢
    exact ⟨BEq.symm h.1, BEq.symm h.2⟩
  trans {p q r} h h' := by
    simp only [BEq.beq, Bool.and_eq_true] at h h' ⊢
    exact ⟨BEq.trans h.1 h'.1, BEq.trans h.2 h'.2⟩

/-- Lists that enumerate one set are of one length. -/
theorem Enumerates.hasSize {l : List β} {member : β → Bool} (h : Enumerates l member) :
    HasSize member l.length := by
  refine ⟨⟨l, h, rfl⟩, fun l' h' => length_eq_of_countP_eq fun x => ?_⟩
  rw [countP_of_distinct h'.distinct, countP_of_distinct h.distinct, h'.contains, h.contains]

variable {g : Digraph α}

/-- The edges are listed once each when the rows list theirs once each. -/
theorem WellFormed.enumerates_edges (hg : g.WellFormed)
    (hrows : ∀ v, (g.neighbors v).Pairwise fun x y => (x == y) = false) :
    Enumerates g.edges fun e => g.hasEdge e.1 e.2 := by
  constructor
  · refine List.pairwise_flatMap.mpr ⟨fun row hrow => ?_, ?_⟩
    · rw [List.pairwise_map, ← hg.neighbors_of_mem hrow]
      exact (hrows row.1).imp fun hxy => Bool.and_eq_false_imp.mpr fun _ => hxy
    -- edges of different rows differ in their sources
    · refine (List.pairwise_map.mp hg.distinct).imp fun {row row'} hne e he e' he' => ?_
      obtain ⟨x, -, rfl⟩ := List.mem_map.mp he
      obtain ⟨y, -, rfl⟩ := List.mem_map.mp he'
      exact Bool.and_eq_false_imp.mpr fun heq => absurd heq (by simp [hne])
  · intro e
    rw [← any_edges hg, List.contains_eq_any_beq]
    rfl

omit [BEq α] [EquivBEq α] in
theorem length_edges (g : Digraph α) : g.edges.length = g.edgeCount := by
  simp [edges, edgeCount, List.length_flatMap]

end Size

section Refinement

variable {α : Type} [BEq α]

theorem requireNeighbors_eq_ok (g : Digraph α) (u : α) (row : List α) :
    g.requireNeighbors (some u) = .ok row ↔ g.hasVertex u = true ∧ row = g.neighbors u := by
  rw [requireNeighbors, Option.bind_some, hasVertex, neighbors]
  cases g.neighbors? u with
  | none => simp
  | some found => simp [eq_comm]

/-- What a graph owes to the history of requests that made it: it lists the sets that the history
has left and tells what is in them and how large they are, its edges lead to vertices, it gives the
rows of its vertices only, the requests that it objects to are those for edges between vertices that
are not both in the set, and no search through it and no turning round of its edges meets a missing
vertex. -/
structure Refines (g : Digraph α) (history : List (Request α)) : Prop extends
    Represents g history where
  hasVertex : ∀ x, g.hasVertex x = (Sets.after history).vertex x
  hasEdge : ∀ x y, g.hasEdge x y = (Sets.after history).edge x y
  closed : ∀ u, ∀ v ∈ g.neighbors u, g.hasVertex v = true
  row_iff : ∀ u row, g.requireNeighbors (some u) = .ok row ↔
    (Sets.after history).vertex u = true ∧ row = g.neighbors u
  vertexCount : HasSize (Sets.after history).vertex g.vertexCount
  edgeCount : HasSize (fun e : α × α => (Sets.after history).edge e.1 e.2) g.edgeCount
  fails_iff : ∀ r : Request α, r.fails g = true ↔
    ∃ u v, (r = .addEdge (some u) (some v) ∨ r = .removeEdge (some u) (some v)) ∧
      ((Sets.after history).vertex u && (Sets.after history).vertex v) = false
  unchanged : ∀ r : Request α, r.fails g = true → r.operation.apply g = g
  transpose : g.transpose? = some g.transpose
  postorder : g.postorder? = some g.postorder
  components : g.components? = some g.components

variable [EquivBEq α]

/-- Whatever history of requests made a graph, the graph is the ordered set of vertices and edges
that the history has left. -/
theorem ofRequests_refines (history : List (Request α)) :
    (ofRequests history).Refines history := by
  have h := represents_ofRequests history
  have hg : (ofRequests history).WellFormed := ofOperations_wellFormed _
  have hvertices := h.vertices.toEnumerates.hasSize
  have hedges := (hg.enumerates_edges fun v => (h.neighbors v).distinct).hasSize
  rw [length_edges] at hedges
  rw [vertices, List.length_map] at hvertices
  refine ⟨h, h.hasVertex_eq, h.hasEdge_eq, ?_, fun u row => ?_, hvertices, ?_, fun r => ?_, ?_,
    hg.transpose?_eq, hg.postorder?_eq, hg.components?_eq⟩
  · exact fun u v hv => hg.closed u v (hasEdge_of_mem_neighbors hv)
  · rw [← h.hasVertex_eq, requireNeighbors_eq_ok]
  · simpa only [h.hasEdge_eq] using hedges
  · simpa only [h.hasVertex_eq] using r.fails_iff (ofRequests history)
  · exact fun r => Request.apply_of_fails

/-- A vertex that is taken out and added again comes last, and so does the edge to it. A request for
an edge out of a vertex that is not there is in vain. -/
theorem ofRequests_refines_added_again :
    Refines (⟨[(1, [3, 2]), (3, []), (2, [])]⟩ : Digraph Nat)
      [.addVertex (some 1), .addVertex (some 2), .addVertex none, .addVertex (some 3),
        .addEdge (some 1) (some 2), .addEdge (some 1) (some 3), .addEdge (some 4) (some 1),
        .removeVertex (some 2), .addVertex (some 2), .addEdge (some 1) (some 2)] := by
  let history : List (Request Nat) :=
    [.addVertex (some 1), .addVertex (some 2), .addVertex none, .addVertex (some 3),
      .addEdge (some 1) (some 2), .addEdge (some 1) (some 3), .addEdge (some 4) (some 1),
      .removeVertex (some 2), .addVertex (some 2), .addEdge (some 1) (some 2)]
  have hg : ofRequests history = ⟨[(1, [3, 2]), (3, []), (2, [])]⟩ := by rfl
  rw [← hg]
  exact ofRequests_refines history

end Refinement

end Dec.Digraph
