import Dec.Proofs.Digraph.Acyclic
import Dec.Proofs.Digraph.Lookups
import Dec.Proofs.Digraph.Sets

namespace Dec.Digraph

variable {α : Type} [BEq α]

def CycleFree (g : Digraph α) : Prop := ∀ v w, g.hasEdge v w = true → ¬ g.Reaches w v

structure IsTopological (g : Digraph α) (order : List α) : Prop extends
    Enumerates order g.hasVertex where
  forward : ∀ v w, g.hasEdge v w = true → place order v < place order w

/-- What is promised of the order in which a depth-first search leaves the vertices: the recursive
search from the vertices in their order leaves them so and in no other order, each of them once; an
edge from a vertex to one that is left later has a way back; and an order without such edges is
topological when it is turned round. -/
structure IsPostorder (g : Digraph α) (order : List α) : Prop extends
    Enumerates order g.hasVertex where
  search : ∃ seen, Search g g.vertices [] seen order.reverse
  unique : ∀ seen finished, Search g g.vertices [] seen finished → finished.reverse = order
  leadsBack : order.Pairwise fun v w => g.hasEdge v w = true → g.Reaches w v
  topological : g.CycleFree → g.IsTopological order.reverse

variable {g : Digraph α} {pending seen seen' finished : List α}

/-- A recursive search can go on in one way only. -/
theorem Search.unique (h : Search g pending seen seen' finished) {other finished' : List α}
    (h' : Search g pending seen other finished') : other = seen' ∧ finished' = finished := by
  induction h generalizing other finished' with
  | nil =>
    cases h'
    exact ⟨rfl, rfl⟩
  | skip hv _ ih =>
    cases h' with
    | skip _ later => exact ih later
    | enter hv' => exact absurd (hv.symm.trans hv') (by decide)
  | enter hv _ _ ihi iho =>
    cases h' with
    | skip hv' => exact absurd (hv.symm.trans hv') (by decide)
    | enter _ inner outer =>
      -- the searches below the vertex agree, so the searches after it start alike
      obtain ⟨rfl, rfl⟩ := ihi inner
      obtain ⟨rfl, rfl⟩ := iho outer
      exact ⟨rfl, rfl⟩

variable [EquivBEq α]

/-- A vertex that has an edge to one that is finished later is reached from it. -/
theorem Search.leadsBack (h : Search g pending seen seen' finished) :
    finished.Pairwise fun w v => g.hasEdge v w = true → g.Reaches w v := by
  -- the edge is a walk within what is finished no later than its end
  have hstep : ∀ front w back, finished = front ++ w :: back →
      ∀ v ∈ back, g.hasEdge v w = true → g.Reaches w v := by
    intro front w back hf v hv he
    have hw : (w :: back).contains w = true := contains_of_mem List.mem_cons_self
    have hv' : (w :: back).contains v = true := contains_of_mem (List.mem_cons_of_mem _ hv)
    exact h.reaches_of_reachesWithin hf (.single ⟨hv', hw, .inr he⟩)
  clear h
  induction finished with
  | nil => exact .nil
  | cons w rest ih =>
    refine .cons (hstep [] w rest rfl) (ih ?_)
    intro front u back hf
    exact hstep (w :: front) u back (by rw [hf, List.cons_append])

omit [EquivBEq α] in
/-- Both ends of an edge are vertices. -/
theorem WellFormed.hasVertex_of_hasEdge (hg : g.WellFormed) {v w : α} (h : g.hasEdge v w = true) :
    g.hasVertex v = true ∧ g.hasVertex w = true := by
  refine ⟨?_, hg.closed v w h⟩
  rw [hasEdge, neighbors] at h
  rw [hasVertex]
  cases hrow : g.neighbors? v with
  | none => simp [hrow] at h
  | some row => rfl

/-- The place of a member of a list holds an equal one. -/
theorem getElem_place {l : List α} {v : α} (h : l.contains v = true) :
    ∃ hlt : place l v < l.length, (l[place l v] == v) = true := by
  have hex : ∃ x ∈ l, (x == v) = true := by
    obtain ⟨x, hx, hvx⟩ := List.contains_iff_exists_mem_beq.mp h
    exact ⟨x, hx, BEq.symm hvx⟩
  have hlt : place l v < l.length := List.findIdx_lt_length.mpr hex
  exact ⟨hlt, List.findIdx_getElem (w := hlt)⟩

/-- Where every edge back lies on a cycle and there is none, the edges lead forward. -/
theorem CycleFree.place_lt (hc : g.CycleFree) (hg : g.WellFormed) {order : List α}
    (ho : Enumerates order g.hasVertex)
    (hback : order.Pairwise fun w v => g.hasEdge v w = true → g.Reaches w v) {v w : α}
    (he : g.hasEdge v w = true) : place order v < place order w := by
  obtain ⟨hv, hw⟩ := hg.hasVertex_of_hasEdge he
  rw [← ho.contains] at hv hw
  obtain ⟨hvlt, hvat⟩ := getElem_place hv
  obtain ⟨hwlt, hwat⟩ := getElem_place hw
  have hedge : g.hasEdge order[place order v] order[place order w] = true := by
    rw [hasEdge_congr g hvat hwat, he]
  rcases Nat.lt_trichotomy (place order v) (place order w) with hlt | heq | hgt
  · exact hlt
  · have hloop : g.Reaches order[place order w] order[place order v] := by
      simp only [heq]
      exact .refl
    exact absurd hloop (hc _ _ hedge)
  · exact absurd (List.pairwise_iff_getElem.mp hback _ _ hwlt hvlt hgt hedge) (hc _ _ hedge)

/-- On a well-formed graph the search with the explicit path leaves the vertices in postorder. -/
theorem WellFormed.isPostorder (hg : g.WellFormed) : g.IsPostorder g.postorder := by
  have hvs : ∀ v ∈ g.vertices, g.hasVertex v = true := fun v hv => hasVertex_of_mem_vertices hv
  obtain ⟨seen, finished, hrun, hsearch⟩ := foldl_explore_search hg g.vertices hvs [] []
  have horder : g.postorder = finished.reverse := by
    rw [postorder, hrun, List.append_nil]
  have hback := hsearch.leadsBack
  have hfinished : Enumerates finished g.hasVertex :=
    ⟨hsearch.distinct, hsearch.contains_finished hg⟩
  rw [horder]
  refine ⟨⟨?_, fun x => ?_⟩, ⟨seen, ?_⟩, ?_, ?_, fun hc => ?_⟩
  · rw [List.pairwise_reverse]
    exact hfinished.distinct.imp fun hne => by rw [BEq.comm, hne]
  · rw [List.contains_reverse, hfinished.contains]
  · rwa [List.reverse_reverse]
  · intro other finished' h'
    rw [(hsearch.unique h').2]
  · exact List.pairwise_reverse.mpr hback
  · rw [List.reverse_reverse]
    exact ⟨hfinished, fun v w he => hc.place_lt hg hfinished hback he⟩

/-- Whatever operations made a graph, a depth-first search through it comes to an end, and the order
in which it leaves the vertices is their postorder. -/
theorem ofOperations_postorder (ops : List (Operation α)) :
    (ofOperations ops).postorder? = some (ofOperations ops).postorder ∧
      (ofOperations ops).IsPostorder (ofOperations ops).postorder :=
  ⟨(ofOperations_wellFormed ops).postorder?_eq, (ofOperations_wellFormed ops).isPostorder⟩

/-- The two vertices of a cycle are left first, although the root has been entered before them. -/
theorem ofOperations_postorder_cycle :
    (⟨[(1, [3, 2]), (2, [3]), (3, [2]), (4, [1])]⟩ : Digraph Nat).postorder? = some [2, 3, 1, 4] ∧
      IsPostorder (⟨[(1, [3, 2]), (2, [3]), (3, [2]), (4, [1])]⟩ : Digraph Nat) [2, 3, 1, 4] := by
  let ops : List (Operation Nat) :=
    [.addVertex (some 1), .addVertex (some 2), .addVertex (some 3), .addVertex (some 4),
      .addEdge (some 1) (some 3), .addEdge (some 1) (some 2), .addEdge (some 2) (some 3),
      .addEdge (some 3) (some 2), .addEdge (some 4) (some 1)]
  have hg : ofOperations ops = ⟨[(1, [3, 2]), (2, [3]), (3, [2]), (4, [1])]⟩ := by rfl
  have horder : (ofOperations ops).postorder = [2, 3, 1, 4] := by decide
  have h := ofOperations_postorder ops
  rwa [horder, hg] at h

end Dec.Digraph
