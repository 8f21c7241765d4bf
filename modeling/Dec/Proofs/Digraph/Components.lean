import Dec.Proofs.Digraph.DepthFirst

namespace Dec.Digraph

variable {α : Type} [BEq α]

/-- The lists hold the vertices of a graph once each, two of them in one list when each is reached
from the other, and no edge leads from a list to an earlier one. -/
structure AreComponents (g : Digraph α) (cs : List (List α)) : Prop where
  nonempty : ∀ c ∈ cs, c ≠ []
  partition : ∀ v, cs.flatten.countP (· == v) = if g.hasVertex v then 1 else 0
  mutual_iff : ∀ v w, g.hasVertex v = true → g.hasVertex w = true →
    ((∃ c ∈ cs, c.contains v = true ∧ c.contains w = true) ↔ g.Reaches v w ∧ g.Reaches w v)
  order : cs.Pairwise fun earlier later => ∀ v ∈ later, ∀ w ∈ earlier, g.hasEdge v w = false

/-- What holds of the components that were gathered so far, the last one first: they are whole, and
what leads to one of their vertices is in one of them. -/
structure Gathered (g : Digraph α) (entered : List α) (cs : List (List α)) : Prop where
  covers : ∀ x, cs.flatten.contains x = entered.contains x
  vertex : ∀ x, entered.contains x = true → g.hasVertex x = true
  nonempty : ∀ c ∈ cs, c ≠ []
  distinct : cs.flatten.Pairwise fun v w => (v == w) = false
  strong : ∀ c ∈ cs, ∀ v, c.contains v = true →
    ∀ w, c.contains w = true ↔ g.Reaches v w ∧ g.Reaches w v
  before : ∀ x y, entered.contains y = true → g.hasEdge x y = true → entered.contains x = true
  order : cs.Pairwise fun later earlier => ∀ v ∈ later, ∀ w ∈ earlier, g.hasEdge v w = false

theorem gathered_nil (g : Digraph α) : g.Gathered [] [] where
  covers _ := rfl
  vertex _ h := Bool.noConfusion h
  nonempty _ h := absurd h List.not_mem_nil
  distinct := .nil
  strong _ h := absurd h List.not_mem_nil
  before _ _ h := Bool.noConfusion h
  order := .nil

variable [EquivBEq α] {g : Digraph α}

theorem Reaches.hasVertex (hg : g.WellFormed) {v w : α} (h : g.Reaches v w)
    (hv : g.hasVertex v = true) : g.hasVertex w = true := by
  induction h with
  | refl => exact hv
  | tail _ hyz ih =>
    rcases hyz with he | he
    · rw [← hasVertex_congr g he, ih]
    · exact hg.closed _ _ he

/-- What leads to a vertex of a list is in it, if no edge leads into it. -/
theorem Reaches.contains_left {l : List α}
    (hl : ∀ x y, l.contains y = true → g.hasEdge x y = true → l.contains x = true) {x y : α}
    (h : g.Reaches x y) (hy : l.contains y = true) : l.contains x = true := by
  induction h using Relation.ReflTransGen.head_induction_on with
  | refl => exact hy
  | head hxz _ ih =>
    rcases hxz with he | he
    · rw [List.contains_congr he, ih]
    · exact hl _ _ ih he

theorem ReachesWithin.of_transpose (hg : g.WellFormed) {l : List α} {x y : α}
    (h : g.transpose.ReachesWithin l x y) : g.ReachesWithin l y x := by
  refine Relation.ReflTransGen.mono ?_ _ _ (Relation.ReflTransGen.swap _ _ h)
  rintro v w ⟨hw, hv, he⟩
  refine ⟨hv, hw, ?_⟩
  rcases he with he | he
  · exact .inl (BEq.symm he)
  · exact .inr (by rwa [(transpose_spec hg).2.2] at he)

section Gathering

variable {finished front back entered seen seen' more : List α} {cs : List (List α)} {v : α}

/-- Everything that leads to what was entered before or now was entered. -/
theorem Gathered.before_search (hg : g.WellFormed) (h : g.Gathered entered cs)
    (hs : Search g.transpose [v] entered seen' more) {x y : α} (hy : seen'.contains y = true)
    (he : g.hasEdge x y = true) : seen'.contains x = true := by
  rw [hs.contains_seen, Bool.or_eq_true] at hy
  rcases hy with hy | hy
  · exact hs.contains_seen_of_seen (h.before x y hy he)
  · exact hs.closed hy (by rwa [(transpose_spec hg).2.2])

theorem Search.contains_finished (hg : g.WellFormed)
    (hs : Search g g.vertices [] seen finished) (x : α) : finished.contains x = g.hasVertex x := by
  have hseen := hs.contains_seen x
  rw [List.contains_nil, Bool.false_or] at hseen
  rw [← hseen, Bool.eq_iff_iff]
  constructor
  · intro hx
    obtain ⟨r, hr, -, hrx⟩ := hs.reached (by rw [← hseen, hx])
    exact hrx.reaches.hasVertex hg (hasVertex_of_mem_vertices hr)
  · intro hx
    rw [hasVertex_eq_contains] at hx
    exact hs.contains_pending hx

theorem hasVertex_of_search (hg : g.WellFormed) (hv : g.hasVertex v = true)
    (hs : Search g.transpose [v] entered seen' more) {x : α} (hx : more.contains x = true) :
    g.hasVertex x = true := by
  obtain ⟨ht, htv, -⟩ := transpose_spec hg
  obtain ⟨r, hr, -, hrx⟩ := hs.reached hx
  rw [List.mem_singleton.mp hr] at hrx
  rw [← htv]
  exact hrx.reaches.hasVertex ht (by rw [htv, hv])

/-- From the vertex that was finished last of those not entered, the turned graph leads just to the
vertices of its component. -/
theorem Gathered.search_iff (hg : g.WellFormed) (h : g.Gathered entered cs)
    (hfirst : Search g g.vertices [] seen finished) (hf : finished = front ++ v :: back)
    (hfront : ∀ x, front.contains x = true → entered.contains x = true)
    (hv : entered.contains v = false) (hs : Search g.transpose [v] entered seen' more) (x : α) :
    more.contains x = true ↔ g.Reaches v x ∧ g.Reaches x v := by
  have hroot : g.hasVertex v = true := by
    rw [← hfirst.contains_finished hg, hf]
    simp
  constructor
  · intro hx
    -- the search keeps to what the first one finished no later than the root, since all else was
    -- entered before; the order of the first search then leads back from the root
    have hback : ∀ y, more.contains y = true → (v :: back).contains y = true := by
      intro y hy
      have hfin : finished.contains y = true := by
        rw [hfirst.contains_finished hg, hasVertex_of_search hg hroot hs hy]
      rw [hf, List.contains_append, Bool.or_eq_true] at hfin
      rcases hfin with hfin | hfin
      · have hfresh := hs.not_seen hy
        rw [hfront y hfin] at hfresh
        cases hfresh
      · exact hfin
    obtain ⟨r, hr, -, hrx⟩ := hs.reached hx
    rw [List.mem_singleton.mp hr] at hrx
    have hwalk := hrx.of_transpose hg
    exact ⟨hfirst.reaches_of_reachesWithin hf (hwalk.mono hback), hwalk.reaches⟩
  · rintro ⟨hvx, hxv⟩
    -- what leads to the root is seen, and it was not seen before since the root was not
    have hvs : seen'.contains v = true := hs.contains_pending (by simp)
    have hxs : seen'.contains x = true :=
      hxv.contains_left (fun _ _ hy he => h.before_search hg hs hy he) hvs
    rw [hs.contains_seen, Bool.or_eq_true] at hxs
    rcases hxs with hxs | hxs
    · rw [hvx.contains_left h.before hxs] at hv
      cases hv
    · exact hxs

/-- One more search gathers one more component. -/
theorem Gathered.add (hg : g.WellFormed) (h : g.Gathered entered cs)
    (hfirst : Search g g.vertices [] seen finished) (hf : finished = front ++ v :: back)
    (hfront : ∀ x, front.contains x = true → entered.contains x = true)
    (hv : entered.contains v = false) (hs : Search g.transpose [v] entered seen' more) :
    g.Gathered seen' (more.reverse :: cs) := by
  have hiff := h.search_iff hg hfirst hf hfront hv hs
  have hroot : more.contains v = true := (hiff v).mpr ⟨.refl, .refl⟩
  have hold : ∀ w ∈ cs.flatten, entered.contains w = true := by
    intro w hw
    rw [← h.covers]
    exact contains_of_mem hw
  constructor
  · intro x
    rw [List.flatten_cons, List.contains_append, List.contains_reverse, h.covers,
      hs.contains_seen, Bool.or_comm]
  · intro x hx
    rw [hs.contains_seen, Bool.or_eq_true] at hx
    rcases hx with hx | hx
    · exact h.vertex x hx
    · have hvertex : g.hasVertex v = true := by
        rw [← hfirst.contains_finished hg, hf]
        simp
      exact hasVertex_of_search hg hvertex hs hx
  · intro c hc
    rcases List.mem_cons.mp hc with rfl | hc
    · intro he
      rw [List.reverse_eq_nil_iff] at he
      rw [he] at hroot
      cases hroot
    · exact h.nonempty c hc
  -- the new component has no vertex twice and none of an older one
  · rw [List.flatten_cons, List.pairwise_append]
    refine ⟨?_, h.distinct, ?_⟩
    · rw [List.pairwise_reverse]
      exact hs.distinct.imp fun he => by rw [BEq.comm, he]
    · intro x hx w hw
      rw [Bool.eq_false_iff]
      intro he
      have hfresh := hs.not_seen (contains_of_mem (List.mem_reverse.mp hx))
      rw [List.contains_congr he, hold w hw] at hfresh
      cases hfresh
  · intro c hc
    rcases List.mem_cons.mp hc with rfl | hc
    · intro u hu w
      rw [List.contains_reverse, hiff] at hu
      rw [List.contains_reverse, hiff]
      constructor
      · exact fun hw => ⟨hu.2.trans hw.1, hw.2.trans hu.1⟩
      · exact fun hw => ⟨hu.1.trans hw.1, hw.2.trans hu.2⟩
    · exact h.strong c hc
  · exact fun x y hy he => h.before_search hg hs hy he
  -- an edge from the new component to an older one would have had its source entered then
  · refine List.pairwise_cons.mpr ⟨?_, h.order⟩
    intro c hc u hu w hw
    rw [Bool.eq_false_iff]
    intro he
    have hfresh := hs.not_seen (contains_of_mem (List.mem_reverse.mp hu))
    rw [h.before u w (hold w (List.mem_flatten.mpr ⟨c, hc, hw⟩)) he] at hfresh
    cases hfresh

/-- The second search gathers all components. -/
theorem foldl_gathered (hg : g.WellFormed) (hfirst : Search g g.vertices [] seen finished)
    {pending : List α} (hf : finished = front ++ pending)
    (hfront : ∀ x, front.contains x = true → entered.contains x = true)
    (h : g.Gathered entered cs) :
    ∃ entered' cs',
      pending.foldl (fun (entered, components) v =>
          if entered.contains v then (entered, components)
          else
            let (entered, finished) := g.transpose.explore v entered
            (entered, finished.reverse :: components)) (entered, cs) = (entered', cs') ∧
      g.Gathered entered' cs' ∧ ∀ x, finished.contains x = true → entered'.contains x = true := by
  -- all that stands before the pending vertices in the order of the first search was entered
  induction pending generalizing front entered cs with
  | nil =>
    rw [List.append_nil] at hf
    exact ⟨entered, cs, rfl, h, hf ▸ hfront⟩
  | cons v rest ih =>
    have hf' : finished = (front ++ [v]) ++ rest := by
      rw [hf, List.append_assoc, List.singleton_append]
    rw [List.foldl_cons]
    cases hv : entered.contains v with
    | true =>
      have hfront' : ∀ x, (front ++ [v]).contains x = true → entered.contains x = true := by
        intro x hx
        rw [List.contains_append, Bool.or_eq_true] at hx
        rcases hx with hx | hx
        · exact hfront x hx
        · rw [List.contains_congr (by simpa using hx), hv]
      simpa only [hv, if_true] using ih hf' hfront' h
    | false =>
      obtain ⟨ht, htv, -⟩ := transpose_spec hg
      have hvertex : g.transpose.hasVertex v = true := by
        rw [htv, ← hfirst.contains_finished hg, hf]
        simp
      obtain ⟨seen', more, hex, hs⟩ := explore_search ht hvertex hv
      have hfront' : ∀ x, (front ++ [v]).contains x = true → seen'.contains x = true := by
        intro x hx
        rw [List.contains_append, Bool.or_eq_true] at hx
        rcases hx with hx | hx
        · exact hs.contains_seen_of_seen (hfront x hx)
        · exact hs.contains_pending hx
      have hadd := h.add hg hfirst hf hfront hv hs
      simpa only [hv, Bool.false_eq_true, if_false, hex] using ih hf' hfront' hadd

end Gathering

theorem countP_of_distinct {l : List α} (hl : l.Pairwise fun v w => (v == w) = false) (v : α) :
    l.countP (· == v) = if l.contains v then 1 else 0 := by
  induction l with
  | nil => rfl
  | cons w rest ih =>
    obtain ⟨hw, hrest⟩ := List.pairwise_cons.mp hl
    rw [List.countP_cons, ih hrest, List.contains_cons]
    by_cases he : v == w
    · have hnot : rest.contains v = false := by
        rw [Bool.eq_false_iff, ne_eq, List.contains_iff_exists_mem_beq]
        rintro ⟨u, hu, hvu⟩
        have hwu : (w == u) = true := BEq.trans (BEq.symm he) hvu
        rw [hw u hu] at hwu
        cases hwu
      rw [hnot, he, BEq.symm he]
      rfl
    · have he' : (w == v) = false := by
        rw [Bool.eq_false_iff]
        exact fun h => he (BEq.symm h)
      simp [he, he']

/-- On a well-formed graph the two searches give the strongly connected components. -/
theorem components_areComponents (hg : g.WellFormed) : g.AreComponents g.components := by
  have hvs : ∀ v ∈ g.vertices, g.hasVertex v = true := fun v hv => hasVertex_of_mem_vertices hv
  obtain ⟨seen, finished, hpost, hfirst⟩ := foldl_explore_search hg g.vertices hvs [] []
  rw [List.append_nil] at hpost
  obtain ⟨entered, cs, hrun, h, hall⟩ := foldl_gathered hg hfirst
    (show finished = [] ++ finished from rfl) (fun x hx => Bool.noConfusion hx) (gathered_nil g)
  have hcs : g.components = cs.reverse := by
    simp only [components, postorder, hpost, List.reverse_reverse, hrun]
  have hvertex : ∀ x, cs.flatten.contains x = g.hasVertex x := by
    intro x
    rw [h.covers, Bool.eq_iff_iff]
    refine ⟨h.vertex x, fun hx => hall x ?_⟩
    rw [hfirst.contains_finished hg, hx]
  rw [hcs]
  constructor
  · exact fun c hc => h.nonempty c (List.mem_reverse.mp hc)
  · intro v
    have hperm : cs.reverse.flatten.Perm cs.flatten := (List.reverse_perm cs).flatten
    rw [hperm.countP_eq, countP_of_distinct h.distinct, hvertex]
  · intro v w hv hw
    constructor
    · rintro ⟨c, hc, hcv, hcw⟩
      exact (h.strong c (List.mem_reverse.mp hc) v hcv w).mp hcw
    · intro hvw
      have hcv := hvertex v
      rw [hv, List.contains_flatten, List.any_eq_true] at hcv
      obtain ⟨c, hc, hcv⟩ := hcv
      exact ⟨c, List.mem_reverse.mpr hc, hcv, (h.strong c hc v hcv w).mpr hvw⟩
  · exact List.pairwise_reverse.mpr h.order

/-- Whatever operations made a graph, the two searches give its strongly connected components, each
before those that its edges lead to. -/
theorem ofOperations_components (ops : List (Operation α)) :
    (ofOperations ops).AreComponents (ofOperations ops).components :=
  components_areComponents (ofOperations_wellFormed ops)

theorem ofOperations_components_cycle_and_exit :
    AreComponents (ofOperations [.addVertex (some 1), .addVertex (some 2), .addVertex (some 3),
      .addEdge (some 2) (some 3), .addEdge (some 3) (some 2), .addEdge (some 3) (some 1)])
      [[3, 2], [1]] := by
  let ops : List (Operation Nat) := [.addVertex (some 1), .addVertex (some 2), .addVertex (some 3),
    .addEdge (some 2) (some 3), .addEdge (some 3) (some 2), .addEdge (some 3) (some 1)]
  have hc : (ofOperations ops).components = [[3, 2], [1]] := by decide
  rw [← hc]
  exact ofOperations_components ops

end Dec.Digraph
