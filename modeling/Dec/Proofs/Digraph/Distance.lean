import Dec.Proofs.Digraph.BreadthFirst
import Mathlib.Order.Lattice.Nat

namespace Dec.Digraph

variable {α : Type} [BEq α]

inductive Walk (g : Digraph α) (s : α) : Nat → α → Prop
  | here {v : α} (h : s == v) : Walk g s 0 v
  | step {n : Nat} {v w : α} (walk : Walk g s n v) (he : g.hasEdge v w = true) : Walk g s (n + 1) w

noncomputable def distance (g : Digraph α) (s v : α) : Nat := sInf {n | g.Walk s n v}

/-- What is promised of a breadth-first search: it lists what is reached from the start, if there is
one, each vertex once, the start first and no vertex before a nearer one, and then the other vertices
in the order of the graph. -/
structure IsNearestFirst (g : Digraph α) (start : Option α) (reached rest : List α) : Prop where
  distinct : reached.Pairwise fun v w => (v == w) = false
  reached_iff : ∀ v, reached.contains v = true ↔ ∃ s, start = some s ∧ g.Reaches s v
  first : reached.head? = start
  nearest : ∀ s, start = some s → reached.Pairwise fun v w => g.distance s v ≤ g.distance s w
  others : rest = g.vertices.filter fun v => !reached.contains v

/-- Where a breadth-first search from a start stands. All that was found is reached from the start
and found in the order of its distance; the edges out of what was taken lead to what was found; and
no two vertices of the queue are more than one edge apart in their distances. -/
structure Layered (g : Digraph α) (s : α) (queue discovered reached : List α) : Prop extends
    Widening g queue discovered reached where
  first : (reached.reverse ++ queue).head? = some s
  walks : ∀ v ∈ reached.reverse ++ queue, ∃ n, g.Walk s n v
  closed : ∀ v ∈ reached, ∀ w, g.hasEdge v w = true → discovered.contains w = true
  sorted : (reached.reverse ++ queue).Pairwise fun v w => g.distance s v ≤ g.distance s w
  near : ∀ v ∈ queue, ∀ w ∈ queue, g.distance s w ≤ g.distance s v + 1

variable {g : Digraph α} {s v w : α} {queue discovered reached row : List α}

section Walks

variable [EquivBEq α]

theorem Walk.congr {n : Nat} (h : g.Walk s n v) (hvw : v == w) : g.Walk s n w := by
  cases h with
  | here hs => exact .here (BEq.trans hs hvw)
  | step walk he => exact .step walk (by rwa [← hasEdge_congr g BEq.rfl hvw])

/-- A vertex is reached when there is a walk to it. -/
theorem reaches_iff_walk : g.Reaches s v ↔ ∃ n, g.Walk s n v := by
  constructor
  · intro h
    induction h with
    | refl => exact ⟨0, .here BEq.rfl⟩
    | tail _ hstep ih =>
      obtain ⟨n, walk⟩ := ih
      rcases hstep with he | he
      · exact ⟨n, walk.congr he⟩
      · exact ⟨n + 1, .step walk he⟩
  · rintro ⟨n, walk⟩
    induction walk with
    | here h => exact .single (.inl h)
    | step _ he ih => exact ih.tail (.inr he)

omit [EquivBEq α] in
theorem Walk.distance_le {n : Nat} (h : g.Walk s n v) : g.distance s v ≤ n := Nat.sInf_le h

omit [EquivBEq α] in
/-- Some walk is as short as the distance. -/
theorem Walk.shortest {n : Nat} (h : g.Walk s n v) : g.Walk s (g.distance s v) v :=
  Nat.sInf_mem (s := {n | g.Walk s n v}) ⟨n, h⟩

end Walks

/-- The vertices of a row that were not discovered before come last in the queue. -/
theorem exists_discover_eq (discovered queue row : List α) :
    ∃ fresh, discover discovered queue row = (fresh.reverse ++ discovered, queue ++ fresh) ∧
      ∀ w ∈ fresh, w ∈ row ∧ discovered.contains w = false := by
  induction row generalizing discovered queue with
  | nil => exact ⟨[], by simp [discover], by simp⟩
  | cons v rest ih =>
    rw [discover]
    cases hv : discovered.contains v with
    | true =>
      obtain ⟨fresh, hrun, hfresh⟩ := ih discovered queue
      exact ⟨fresh, hrun, fun w hw => ⟨List.mem_cons_of_mem _ (hfresh w hw).1, (hfresh w hw).2⟩⟩
    | false =>
      obtain ⟨fresh, hrun, hfresh⟩ := ih (v :: discovered) (queue ++ [v])
      refine ⟨v :: fresh, ?_, ?_⟩
      · simp [hrun]
      · intro w hw
        rcases List.mem_cons.mp hw with rfl | hw
        · exact ⟨List.mem_cons_self, hv⟩
        · obtain ⟨hmem, hnew⟩ := hfresh w hw
          rw [List.contains_cons, Bool.or_eq_false_iff] at hnew
          exact ⟨List.mem_cons_of_mem _ hmem, hnew.2⟩

/-- What was discovered stays discovered, and what a row holds is discovered with it. -/
theorem contains_discover [EquivBEq α]
    (h : discovered.contains w = true ∨ row.contains w = true) :
    (discover discovered queue row).1.contains w = true := by
  induction row generalizing discovered queue with
  | nil => simpa [discover] using h
  | cons v rest ih =>
    rw [discover]
    rw [List.contains_cons, Bool.or_eq_true] at h
    cases hv : discovered.contains v with
    | true =>
      refine ih ?_
      rcases h with h | h | h
      · exact .inl h
      · exact .inl ((List.contains_congr h).trans hv)
      · exact .inr h
    | false =>
      refine ih ?_
      rw [List.contains_cons, Bool.or_eq_true]
      rcases h with h | h | h
      · exact .inl (.inr h)
      · exact .inl (.inl h)
      · exact .inr h

variable [EquivBEq α]

namespace Layered

/-- A walk to a vertex that was not discovered has passed through the queue. -/
theorem exists_mem_queue (h : g.Layered s queue discovered reached) {n : Nat} (walk : g.Walk s n w)
    (hw : discovered.contains w = false) : ∃ v ∈ queue, g.distance s v < n := by
  have hfound : ∀ {x}, discovered.contains x = (reached.reverse ++ queue).contains x := h.contains _
  induction walk with
  | here hs =>
    have hstart : (reached.reverse ++ queue).contains s = true :=
      contains_of_mem (List.mem_of_mem_head? h.first)
    rw [hfound, ← List.contains_congr hs, hstart] at hw
    cases hw
  | @step n u w walk he ih =>
    cases hu : discovered.contains u with
    | false =>
      obtain ⟨v, hv, hlt⟩ := ih hu
      exact ⟨v, hv, Nat.lt_succ_of_lt hlt⟩
    | true =>
      -- the vertex before the end was found, and it was not taken
      rw [hfound] at hu
      obtain ⟨x, hx, hux⟩ := List.contains_iff_exists_mem_beq.mp hu
      rcases List.mem_append.mp hx with hx | hx
      · have hthere := h.closed x (List.mem_reverse.mp hx) w
          (by rwa [← hasEdge_congr g hux BEq.rfl])
        rw [hw] at hthere
        cases hthere
      · exact ⟨x, hx, Nat.lt_succ_of_le (walk.congr hux).distance_le⟩

omit [EquivBEq α] in
/-- The first vertex of the queue is the nearest of it. -/
theorem le_distance (h : g.Layered s (v :: queue) discovered reached) :
    ∀ x ∈ v :: queue, g.distance s v ≤ g.distance s x := by
  have hqueue := List.pairwise_cons.mp (List.pairwise_append.mp h.sorted).2.1
  intro x hx
  rcases List.mem_cons.mp hx with rfl | hx
  · exact Nat.le_refl _
  · exact hqueue.1 x hx

omit [EquivBEq α] in
/-- Nothing that was found is more than one edge further than the first vertex of the queue. -/
theorem distance_le (h : g.Layered s (v :: queue) discovered reached) :
    ∀ x ∈ reached.reverse ++ v :: queue, g.distance s x ≤ g.distance s v + 1 := by
  intro x hx
  rcases List.mem_append.mp hx with hx | hx
  · exact Nat.le_succ_of_le ((List.pairwise_append.mp h.sorted).2.2 x hx v List.mem_cons_self)
  · exact h.near v List.mem_cons_self x hx

/-- What is discovered from the first vertex of the queue is one edge further than that vertex. -/
theorem distance_fresh (h : g.Layered s (v :: queue) discovered reached)
    (he : g.hasEdge v w = true) (hw : discovered.contains w = false) :
    g.distance s w = g.distance s v + 1 := by
  obtain ⟨n, walk⟩ := h.walks v (by simp)
  have hwalk : g.Walk s (g.distance s v + 1) w := .step walk.shortest he
  obtain ⟨x, hx, hlt⟩ := h.exists_mem_queue hwalk.shortest hw
  exact Nat.le_antisymm hwalk.distance_le (Nat.lt_of_le_of_lt (h.le_distance x hx) hlt)

/-- One vertex is taken from the queue, and what its edges lead to is discovered. -/
theorem step (hg : g.WellFormed) (h : g.Layered s (v :: queue) discovered reached) :
    g.Layered s (discover discovered queue (g.neighbors v)).2
      (discover discovered queue (g.neighbors v)).1 (v :: reached) := by
  have hclosed : ∀ w ∈ g.neighbors v, g.hasVertex w = true :=
    fun w hw => hg.closed v w (hasEdge_of_mem_neighbors hw)
  have hwidening := h.toWidening.take.discover hclosed
  obtain ⟨fresh, hrun, hfresh⟩ := exists_discover_eq discovered queue (g.neighbors v)
  have hdistance : ∀ w ∈ fresh, g.distance s w = g.distance s v + 1 := fun w hw =>
    h.distance_fresh (hasEdge_of_mem_neighbors (hfresh w hw).1) (hfresh w hw).2
  obtain ⟨n, walk⟩ := h.walks v (by simp)
  have hlist : (v :: reached).reverse ++ (queue ++ fresh) =
      (reached.reverse ++ v :: queue) ++ fresh := by simp
  have hclosedNow : ∀ x ∈ v :: reached, ∀ w, g.hasEdge x w = true →
      (discover discovered queue (g.neighbors v)).1.contains w = true := by
    intro x hx w he
    rcases List.mem_cons.mp hx with rfl | hx
    · exact contains_discover (.inr he)
    · exact contains_discover (.inl (h.closed x hx w he))
  rw [hrun] at hwidening hclosedNow ⊢
  refine ⟨hwidening, ?_, ?_, hclosedNow, ?_, ?_⟩
  · dsimp only
    rw [hlist, List.head?_append, h.first, Option.some_or]
  · dsimp only
    rw [hlist]
    intro x hx
    rcases List.mem_append.mp hx with hx | hx
    · exact h.walks x hx
    · exact ⟨n + 1, .step walk (hasEdge_of_mem_neighbors (hfresh x hx).1)⟩
  · dsimp only
    rw [hlist]
    refine List.pairwise_append.mpr ⟨h.sorted, List.pairwise_of_forall_mem_list ?_, ?_⟩
    · intro x hx y hy
      rw [hdistance x hx, hdistance y hy]
    · intro x hx y hy
      rw [hdistance y hy]
      exact h.distance_le x hx
  · intro x hx y hy
    have hfar : ∀ z ∈ queue ++ fresh, g.distance s v ≤ g.distance s z ∧
        g.distance s z ≤ g.distance s v + 1 := by
      intro z hz
      rcases List.mem_append.mp hz with hz | hz
      · have hz' : z ∈ v :: queue := List.mem_cons_of_mem _ hz
        exact ⟨h.le_distance z hz', h.near v List.mem_cons_self z hz'⟩
      · rw [hdistance z hz]
        exact ⟨Nat.le_succ _, Nat.le_refl _⟩
    exact Nat.le_trans (hfar y hy).2 (Nat.succ_le_succ (hfar x hx).1)

/-- The search goes on until the queue is empty, however many more steps it is given. -/
theorem widen (hg : g.WellFormed) (steps : Nat) (h : g.Layered s queue discovered reached)
    (hs : g.vertexCount < steps + reached.length) :
    ∃ discovered' reached', g.Layered s [] discovered' reached' ∧
      ∀ more, g.widen (steps + more) queue discovered reached = .ok (discovered', reached') := by
  induction steps generalizing queue discovered reached with
  | zero =>
    have hle := h.toWidening.length_reached_le
    omega
  | succ steps ih =>
    cases queue with
    | nil =>
      refine ⟨discovered, reached, h, ?_⟩
      intro more
      rw [Nat.add_right_comm, Digraph.widen]
      simp
    | cons v queue =>
      have hv : g.hasVertex v = true := h.vertices v (by simp)
      obtain ⟨row, hrow⟩ := Option.isSome_iff_exists.mp hv
      have hneighbors : g.neighbors v = row := by
        rw [neighbors, hrow]
        rfl
      obtain ⟨discovered', reached', hend, hrun⟩ :=
        ih (h.step hg) (by rw [List.length_cons]; omega)
      refine ⟨discovered', reached', hend, ?_⟩
      intro more
      rw [Nat.add_right_comm, Digraph.widen, hrow, ← hneighbors]
      exact hrun more

/-- When the queue is empty all that is reached from the start was found. -/
theorem contains_iff_reaches (h : g.Layered s [] discovered reached) (x : α) :
    reached.reverse.contains x = true ↔ g.Reaches s x := by
  have hfound := h.contains
  have hwalks := h.walks
  rw [List.append_nil] at hfound hwalks
  rw [reaches_iff_walk]
  constructor
  · intro hx
    obtain ⟨y, hy, hxy⟩ := List.contains_iff_exists_mem_beq.mp hx
    obtain ⟨n, walk⟩ := hwalks y hy
    exact ⟨n, walk.congr (BEq.symm hxy)⟩
  · rintro ⟨n, walk⟩
    rw [← hfound]
    cases hx : discovered.contains x with
    | true => rfl
    | false =>
      obtain ⟨v, hv, -⟩ := h.exists_mem_queue walk hx
      cases hv

end Layered

/-- From a vertex of the graph, or from nowhere, the search finds what is reached, the nearest first,
and it would find no more in more steps. -/
theorem breadthFirst_isNearestFirst (hg : g.WellFormed) {start : Option α}
    (hs : ∀ v, start = some v → g.hasVertex v = true) :
    ∃ discovered reached rest, g.breadthFirst start = .ok (reached, rest) ∧
      g.IsNearestFirst start reached rest ∧
      ∀ more, g.widen (g.vertexCount + 1 + more) start.toList start.toList [] =
        .ok (discovered, reached.reverse) := by
  cases start with
  | none =>
    refine ⟨[], [], _, rfl, ⟨.nil, by simp, rfl, nofun, rfl⟩, ?_⟩
    intro more
    rw [Nat.add_right_comm]
    rfl
  | some s =>
    have hstart : g.Layered s [s] [s] [] := by
      refine ⟨⟨by simp, fun x => rfl, ?_⟩, rfl, ?_, by simp, by simp, ?_⟩
      · intro v hv
        rw [List.mem_singleton.mp hv]
        exact hs s rfl
      · intro v hv
        rw [List.mem_singleton.mp hv]
        exact ⟨0, .here BEq.rfl⟩
      · intro v hv w hw
        rw [List.mem_singleton.mp hv, List.mem_singleton.mp hw]
        exact Nat.le_succ _
    obtain ⟨discovered, reached, hend, hrun⟩ :=
      hstart.widen hg (g.vertexCount + 1) (by rw [List.length_nil]; omega)
    have hdistinct := hend.distinct
    have hfirst := hend.first
    have hsorted := hend.sorted
    have hfound := hend.contains
    rw [List.append_nil] at hdistinct hfirst hsorted hfound
    refine ⟨discovered, reached.reverse, _, ?_, ⟨hdistinct, ?_, hfirst, ?_, rfl⟩, ?_⟩
    · have hrun' : g.widen (g.vertexCount + 1) [s] [s] [] = .ok (discovered, reached) := hrun 0
      rw [breadthFirst, Option.toList_some, hrun']
      simp only [← hfound]
      rfl
    · intro v
      rw [hend.contains_iff_reaches]
      simp
    · intro v hv
      rw [← Option.some.inj hv]
      exact hsorted
    · intro more
      rw [List.reverse_reverse]
      exact hrun more

end Dec.Digraph
