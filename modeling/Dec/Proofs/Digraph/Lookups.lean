import Dec.Proofs.Digraph.Components

namespace Dec.Digraph

variable {α : Type} [BEq α]

section Checked

variable (g : Digraph α)

/-- Turns all edges round by requests for one vertex or edge after another, which may fail. -/
def transpose? : Option (Digraph α) :=
  g.edges.foldlM (fun t e => (t.addEdge (some e.2) (some e.1)).toOption.map Prod.snd)
    (g.vertices.foldl (fun t v => (t.addVertex (some v)).2) empty)

/-- One step of a depth-first search, which fails when it enters a vertex that is not there. -/
def descend? (d : Descent α) : Option (Descent α) :=
  match d.path with
  | [] => some d
  | (v, []) :: above => some ⟨above, d.entered, v :: d.finished⟩
  | (v, next :: later) :: above =>
    if d.entered.contains next then some ⟨(v, later) :: above, d.entered, d.finished⟩
    else (g.neighbors? next).map fun row =>
      ⟨(next, row) :: (v, later) :: above, next :: d.entered, d.finished⟩

def descendAll? : Nat → Descent α → Option (Descent α)
  | 0, d => if d.path.isEmpty then some d else none
  | steps + 1, d => if d.path.isEmpty then some d else (g.descend? d).bind (descendAll? steps)

def explore? (root : α) (entered : List α) : Option (List α × List α) := do
  let row ← g.neighbors? root
  let d ← g.descendAll? g.searchSteps ⟨[(root, row)], root :: entered, []⟩
  return (d.entered, d.finished)

def postorder? : Option (List α) := do
  let search ← g.vertices.foldlM (fun (entered, finished) v =>
    if entered.contains v then some (entered, finished)
    else (g.explore? v entered).map fun (entered, more) => (entered, more ++ finished))
    (([] : List α), ([] : List α))
  return search.2.reverse

def components? : Option (List (List α)) := do
  let order ← g.postorder?
  let turned ← g.transpose?
  let search ← order.reverse.foldlM (fun (entered, components) v =>
    if entered.contains v then some (entered, components)
    else (turned.explore? v entered).map fun (entered, finished) =>
      (entered, finished.reverse :: components)) (([] : List α), ([] : List (List α)))
  return search.2.reverse

end Checked

/-- Steps that do not fail make a run that does not fail, where each of them keeps what the next one
needs. -/
theorem foldlM_eq_some {σ β : Type} {step? : σ → β → Option σ} {step : σ → β → σ}
    (keeps : σ → Prop) {l : List β}
    (h : ∀ b ∈ l, ∀ s, keeps s → step? s b = some (step s b) ∧ keeps (step s b)) {s : σ}
    (hs : keeps s) : l.foldlM step? s = some (l.foldl step s) := by
  induction l generalizing s with
  | nil => rfl
  | cons b rest ih =>
    obtain ⟨hstep, hkeeps⟩ := h b List.mem_cons_self s hs
    rw [List.foldlM_cons, hstep, List.foldl_cons]
    exact ih (fun b hb => h b (List.mem_cons_of_mem _ hb)) hkeeps

variable [EquivBEq α] {g : Digraph α}

section Transpose

/-- The row of a vertex is what a lookup of the vertex finds. -/
theorem WellFormed.neighbors_of_mem (hg : g.WellFormed) {row : α × List α}
    (h : row ∈ g.adjacency) : g.neighbors row.1 = row.2 := by
  have hd := hg.distinct
  obtain ⟨front, back, hrows⟩ := List.append_of_mem h
  rw [vertices, hrows, List.map_append, List.map_cons, List.pairwise_append] at hd
  -- no row before it has an equal vertex
  have hfront : front.lookup row.1 = none := by
    rw [List.lookup_eq_none_iff]
    intro p hp
    rw [bne, BEq.comm, hd.2.2 p.1 (List.mem_map_of_mem hp) row.1 List.mem_cons_self, Bool.not_false]
  rw [neighbors, neighbors?, hrows, List.lookup_append, hfront, lookup_cons_ite, if_pos BEq.rfl]
  rfl

/-- An edge that is there already is not added again. -/
theorem WellFormed.insertEdge_eq_self (hg : g.WellFormed) {s d : α} (h : g.hasEdge s d = true) :
    g.insertEdge s d = g := by
  have hrow : ∀ row ∈ g.adjacency, (if row.1 == s then
      (row.1, if row.2.contains d then row.2 else row.2 ++ [d]) else row) = row := by
    intro row hrow
    by_cases hs : row.1 == s
    · have hd : row.2.contains d = true := by
        rw [← hg.neighbors_of_mem hrow, neighbors_congr g hs]
        exact h
      rw [if_pos hs, if_pos hd]
    · rw [if_neg hs]
  obtain ⟨rows⟩ := g
  rw [Digraph.insertEdge, updateRow, List.map_congr_left hrow, List.map_id'']
  intro row
  rfl

omit [EquivBEq α] in
theorem addEdge_some (g : Digraph α) (s d : α) :
    g.addEdge (some s) (some d) =
      if !g.hasVertex s then .error ⟨.source, some s⟩
      else if !g.hasVertex d then .error ⟨.destination, some d⟩
      else if g.hasEdge s d then .ok (false, g) else .ok (true, g.insertEdge s d) := by
  unfold addEdge ends?
  dsimp only
  cases g.hasVertex s with
  | false => rfl
  | true => cases g.hasVertex d <;> rfl

theorem WellFormed.addEdge_eq_ok (hg : g.WellFormed) {s d : α} (hs : g.hasVertex s = true)
    (hd : g.hasVertex d = true) :
    ∃ new, g.addEdge (some s) (some d) = .ok (new, g.insertEdge s d) := by
  rw [addEdge_some, hs, hd]
  by_cases he : g.hasEdge s d = true
  · exact ⟨false, by simp [he, hg.insertEdge_eq_self he]⟩
  · exact ⟨true, by simp [he]⟩

/-- Edges can be turned round without a failure. -/
theorem WellFormed.transpose?_eq (hg : g.WellFormed) : g.transpose? = some g.transpose := by
  obtain ⟨hw, hv, -⟩ := foldl_insertVertex (empty_wellFormed (α := α)) g.vertices
  have hstart : (g.vertices.foldl Digraph.insertVertex empty).WellFormed ∧
      ∀ x, (g.vertices.foldl Digraph.insertVertex empty).hasVertex x = g.hasVertex x := by
    refine ⟨hw, fun x => ?_⟩
    rw [hv, hasVertex_eq_contains g]
    rfl
  refine foldlM_eq_some (fun t => t.WellFormed ∧ ∀ x, t.hasVertex x = g.hasVertex x) ?_ hstart
  rintro e he t ⟨ht, hvertex⟩
  obtain ⟨h₁, h₂⟩ := hasVertex_of_mem_edges hg he
  rw [← hvertex] at h₁ h₂
  obtain ⟨new, hadd⟩ := ht.addEdge_eq_ok h₂ h₁
  refine ⟨by rw [hadd]; rfl, ht.insertEdge e.2 h₁, fun x => ?_⟩
  rw [Digraph.insertEdge, hasVertex_updateRow, hvertex]

end Transpose

section Search

/-- A step is met by no missing vertex when the edges on the path lead to vertices. -/
theorem WellFormed.descend?_eq (hg : g.WellFormed) {d : Descent α}
    (hpath : ∀ row ∈ d.path, ∀ w ∈ row.2, g.hasVertex w = true) :
    g.descend? d = some (g.descend d) ∧
      ∀ row ∈ (g.descend d).path, ∀ w ∈ row.2, g.hasVertex w = true := by
  obtain ⟨path, entered, finished⟩ := d
  match path with
  | [] => exact ⟨rfl, hpath⟩
  | (v, []) :: above => exact ⟨rfl, fun row hrow => hpath row (List.mem_cons_of_mem _ hrow)⟩
  | (v, next :: later) :: above =>
    have hlater : ∀ row ∈ (v, later) :: above, ∀ w ∈ row.2, g.hasVertex w = true := by
      intro row hrow w hw
      rcases List.mem_cons.mp hrow with rfl | hrow
      · exact hpath _ List.mem_cons_self w (List.mem_cons_of_mem _ hw)
      · exact hpath row (List.mem_cons_of_mem _ hrow) w hw
    rw [descend?, descend]
    dsimp only
    split
    · exact ⟨rfl, hlater⟩
    · have hnext : g.hasVertex next = true := hpath _ List.mem_cons_self next List.mem_cons_self
      obtain ⟨row, hrow⟩ := Option.isSome_iff_exists.mp hnext
      have hrow' : g.neighbors next = row := by rw [neighbors, hrow]; rfl
      refine ⟨by rw [hrow, hrow']; rfl, fun row hrow w hw => ?_⟩
      rcases List.mem_cons.mp hrow with rfl | hrow
      · exact hg.closed next w (hasEdge_of_mem_neighbors hw)
      · exact hlater row hrow w hw

theorem WellFormed.descendAll?_eq (hg : g.WellFormed) (steps : Nat) {d : Descent α}
    (hpath : ∀ row ∈ d.path, ∀ w ∈ row.2, g.hasVertex w = true)
    (hend : (g.descendAll steps d).path = []) :
    g.descendAll? steps d = some (g.descendAll steps d) := by
  induction steps generalizing d with
  | zero =>
    rw [descendAll] at hend
    rw [descendAll?, descendAll, hend]
    rfl
  | succ steps ih =>
    obtain ⟨hstep, hkeeps⟩ := hg.descend?_eq hpath
    rw [descendAll] at hend
    rw [descendAll?, descendAll, hstep]
    split
    · rfl
    · rename_i hne
      rw [if_neg hne] at hend
      exact ih hkeeps hend

theorem WellFormed.explore?_eq (hg : g.WellFormed) {root : α} (hr : g.hasVertex root = true)
    {entered : List α} (he : entered.contains root = false) :
    g.explore? root entered = some (g.explore root entered) := by
  obtain ⟨row, hrow⟩ := Option.isSome_iff_exists.mp hr
  have hrow' : g.neighbors root = row := by rw [neighbors, hrow]; rfl
  have hpath := hasVertex_of_mem_path hg root
  obtain ⟨seen, finished, hrun, -⟩ := descendAll_unwinds hg g.searchSteps
    ⟨[(root, g.neighbors root)], root :: entered, []⟩ hpath (steps_le_searchSteps hr he)
  have hall := hg.descendAll?_eq g.searchSteps
    (d := ⟨[(root, g.neighbors root)], root :: entered, []⟩) hpath (by rw [hrun])
  rw [explore?, explore, hrow]
  rw [hrow'] at hall ⊢
  simp only [Option.bind_eq_bind, Option.bind_some, hall]
  rfl

/-- What a search from many roots does at each of them does not fail. -/
theorem WellFormed.foldlM_explore? {σ : Type} (hg : g.WellFormed) {vs : List α}
    (hvs : ∀ v ∈ vs, g.hasVertex v = true) (add : List α → σ → σ) (s : List α × σ) :
    vs.foldlM (fun (entered, s) v =>
        if entered.contains v then some (entered, s)
        else (g.explore? v entered).map fun (entered, more) => (entered, add more s)) s =
      some (vs.foldl (fun (entered, s) v =>
        if entered.contains v then (entered, s)
        else
          let (entered, more) := g.explore v entered
          (entered, add more s)) s) := by
  refine foldlM_eq_some (fun _ => True) (fun v hv state _ => ⟨?_, trivial⟩) trivial
  obtain ⟨entered, s⟩ := state
  dsimp only
  cases hc : entered.contains v with
  | true => rfl
  | false =>
    rw [hg.explore?_eq (hvs v hv) hc]
    rfl

theorem WellFormed.postorder?_eq (hg : g.WellFormed) : g.postorder? = some g.postorder := by
  have hvs : ∀ v ∈ g.vertices, g.hasVertex v = true := fun v hv => hasVertex_of_mem_vertices hv
  rw [postorder?, hg.foldlM_explore? hvs (fun more finished => more ++ finished)]
  rfl

theorem WellFormed.hasVertex_of_mem_postorder (hg : g.WellFormed) {v : α} (hv : v ∈ g.postorder) :
    g.hasVertex v = true := by
  have hvs : ∀ v ∈ g.vertices, g.hasVertex v = true := fun v hv => hasVertex_of_mem_vertices hv
  obtain ⟨seen, finished, hrun, hfirst⟩ := foldl_explore_search hg g.vertices hvs [] []
  rw [postorder, hrun, List.append_nil, List.mem_reverse] at hv
  rw [← hfirst.contains_finished hg]
  exact contains_of_mem hv

/-- The strongly connected components are found without a failure. -/
theorem WellFormed.components?_eq (hg : g.WellFormed) : g.components? = some g.components := by
  obtain ⟨ht, htv, -⟩ := transpose_spec hg
  have hvs : ∀ v ∈ g.postorder.reverse, g.transpose.hasVertex v = true := by
    intro v hv
    rw [htv]
    exact hg.hasVertex_of_mem_postorder (List.mem_reverse.mp hv)
  rw [components?, hg.postorder?_eq, hg.transpose?_eq]
  simp only [Option.bind_eq_bind, Option.bind_some]
  rw [ht.foldlM_explore? hvs (fun finished components => finished.reverse :: components)]
  rfl

end Search

end Dec.Digraph
