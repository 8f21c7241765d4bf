import Dec.Digraph.Search
import Dec.Proofs.Digraph.WellFormed
import Mathlib.Logic.Relation

/-!
Depth-first search. The machine with its explicit path does what a recursive search does, and what
such a search finishes is told by the edges of the graph. The order in which it finishes vertices has
the property on which strongly connected components rest: a vertex that leads to a later finished one
without meeting one finished later still is led to by it.
-/
namespace Dec.Digraph

variable {α : Type} [BEq α]

def Leads (g : Digraph α) (v w : α) : Prop := v == w ∨ g.hasEdge v w = true

def Reaches (g : Digraph α) : α → α → Prop := Relation.ReflTransGen g.Leads

def ReachesWithin (g : Digraph α) (within : List α) : α → α → Prop :=
  Relation.ReflTransGen fun v w =>
    within.contains v = true ∧ within.contains w = true ∧ g.Leads v w

/-- A recursive search from the pending vertices: what was seen before and after it, and what it
finished with the last vertex first. -/
inductive Search (g : Digraph α) : (pending seen seen' finished : List α) → Prop
  | nil {seen : List α} : Search g [] seen seen []
  | skip {v : α} {rest seen seen' finished : List α} (hv : seen.contains v = true)
      (later : Search g rest seen seen' finished) : Search g (v :: rest) seen seen' finished
  | enter {v : α} {rest seen seen₁ seen₂ below later : List α} (hv : seen.contains v = false)
      (inner : Search g (g.neighbors v) (v :: seen) seen₁ below)
      (outer : Search g rest seen₁ seen₂ later) :
      Search g (v :: rest) seen seen₂ (later ++ v :: below)

inductive Unwinds (g : Digraph α) : (path : List (α × List α)) → (seen seen' finished : List α) → Prop
  | nil {seen : List α} : Unwinds g [] seen seen []
  | leave {v : α} {later : List α} {above : List (α × List α)}
      {seen seen₁ seen₂ below after : List α} (inner : Search g later seen seen₁ below)
      (outer : Unwinds g above seen₁ seen₂ after) :
      Unwinds g ((v, later) :: above) seen seen₂ (after ++ v :: below)

section Machine

def pendingSteps (entered : List α) : List (α × List α) → Nat
  | [] => 0
  | (v, row) :: rest =>
    (if entered.contains v then 0 else row.length + 1) + pendingSteps entered rest

def pathSteps : List (α × List α) → Nat
  | [] => 0
  | (_, later) :: above => later.length + 1 + pathSteps above

theorem pendingSteps_le (entered : List α) (rows : List (α × List α)) :
    pendingSteps entered rows ≤ rows.length + (rows.flatMap fun row => row.2).length := by
  induction rows with
  | nil => exact Nat.le_refl 0
  | cons row rest ih =>
    obtain ⟨v, row⟩ := row
    simp only [pendingSteps, List.length_cons, List.flatMap_cons, List.length_append]
    split <;> omega

theorem pendingSteps_mono (entered : List α) (v : α) (rows : List (α × List α)) :
    pendingSteps (v :: entered) rows ≤ pendingSteps entered rows := by
  induction rows with
  | nil => exact Nat.le_refl 0
  | cons row rest ih =>
    obtain ⟨u, row⟩ := row
    simp only [pendingSteps, List.contains_cons]
    cases entered.contains u <;> cases u == v <;> simp <;> omega

variable [EquivBEq α] {g : Digraph α}

/-- Entering a vertex pays for the steps that its edges will take. -/
theorem pendingSteps_enter {entered : List α} {v : α} (hv : entered.contains v = false)
    (rows : List (α × List α)) {row : List α} (h : rows.lookup v = some row) :
    pendingSteps (v :: entered) rows + row.length + 1 ≤ pendingSteps entered rows := by
  induction rows with
  | nil => cases h
  | cons first rest ih =>
    obtain ⟨u, first⟩ := first
    rw [lookup_cons_ite] at h
    simp only [pendingSteps, List.contains_cons]
    have hmono := pendingSteps_mono entered v rest
    by_cases hu : v == u
    · obtain rfl := Option.some.inj (by simpa [hu] using h)
      have hseen : entered.contains u = false := (List.contains_congr hu).symm.trans hv
      simp only [BEq.symm hu, hseen, Bool.true_or, if_true, Bool.false_eq_true, if_false]
      omega
    · have hrest := ih (by simpa [hu] using h)
      have hu' : (u == v) = false := by
        rw [Bool.eq_false_iff]
        exact fun he => hu (BEq.symm he)
      rw [hu', Bool.false_or]
      split <;> omega

/-- With enough steps the machine does what the recursive search does, whatever path it stands on. -/
theorem descendAll_unwinds (hg : g.WellFormed) (steps : Nat) (d : Descent α)
    (hpath : ∀ row ∈ d.path, ∀ w ∈ row.2, g.hasVertex w = true)
    (hsteps : pathSteps d.path + pendingSteps d.entered g.adjacency ≤ steps) :
    ∃ seen finished, g.descendAll steps d = ⟨[], seen, finished ++ d.finished⟩ ∧
      Unwinds g d.path d.entered seen finished := by
  -- every step takes one off what the path and the vertices not entered can cost
  induction steps generalizing d with
  | zero =>
    obtain ⟨path, entered, done⟩ := d
    cases path with
    | nil => exact ⟨entered, [], rfl, .nil⟩
    | cons row above =>
      simp only [pathSteps] at hsteps
      omega
  | succ steps ih =>
    obtain ⟨path, entered, done⟩ := d
    match path with
    | [] => exact ⟨entered, [], rfl, .nil⟩
    | (v, []) :: above =>
      -- the last vertex has no edge left and is finished
      simp only [pathSteps, List.length_nil] at hsteps
      obtain ⟨seen, finished, hrun, hu⟩ := ih ⟨above, entered, v :: done⟩
        (fun row hrow => hpath row (List.mem_cons_of_mem _ hrow)) (by simp only; omega)
      refine ⟨seen, finished ++ [v], ?_, .leave .nil hu⟩
      rw [descendAll, List.append_assoc]
      exact hrun
    | (v, next :: later) :: above =>
      simp only [pathSteps, List.length_cons] at hsteps
      have hnext : g.hasVertex next = true :=
        hpath _ List.mem_cons_self next List.mem_cons_self
      have hlater : ∀ row ∈ (v, later) :: above, ∀ w ∈ row.2, g.hasVertex w = true := by
        intro row hrow w hw
        rcases List.mem_cons.mp hrow with rfl | hrow
        · exact hpath _ List.mem_cons_self w (List.mem_cons_of_mem _ hw)
        · exact hpath row (List.mem_cons_of_mem _ hrow) w hw
      cases hc : entered.contains next with
      | true =>
        -- the edge leads nowhere new: the search skips a pending vertex
        obtain ⟨seen, finished, hrun, hu⟩ :=
          ih ⟨(v, later) :: above, entered, done⟩ hlater (by simp only [pathSteps]; omega)
        cases hu with
        | leave inner outer =>
          refine ⟨seen, _, ?_, .leave (.skip hc inner) outer⟩
          rw [descendAll, ← hrun]
          simp only [descend, List.isEmpty_cons, Bool.false_eq_true, if_false, hc, if_true]
      | false =>
        -- the machine puts the vertex on its path, and what it does until the path is as short as
        -- before is the inner search
        obtain ⟨row, hrow⟩ := Option.isSome_iff_exists.mp hnext
        have hrow' : g.neighbors next = row := by rw [neighbors, hrow]; rfl
        have hpay := pendingSteps_enter hc g.adjacency hrow
        obtain ⟨seen, finished, hrun, hu⟩ :=
          ih ⟨(next, g.neighbors next) :: (v, later) :: above, next :: entered, done⟩
            (by
              intro row hrow w hw
              rcases List.mem_cons.mp hrow with rfl | hrow
              · exact hg.closed next w (hasEdge_of_mem_neighbors hw)
              · exact hlater row hrow w hw)
            (by simp only [pathSteps, hrow']; omega)
        cases hu with
        | leave inner outer =>
          cases outer with
          | leave inner' outer =>
            refine ⟨seen, _, ?_, .leave (.enter hc inner inner') outer⟩
            rw [descendAll]
            simp only [descend, List.isEmpty_cons, Bool.false_eq_true, if_false, hc]
            rw [hrun]
            simp only [List.append_assoc, List.cons_append]

/-- The steps of a search from one root suffice. -/
theorem steps_le_searchSteps {root : α} (hr : g.hasVertex root = true) {entered : List α}
    (he : entered.contains root = false) :
    pathSteps [(root, g.neighbors root)] + pendingSteps (root :: entered) g.adjacency ≤
      g.searchSteps := by
  obtain ⟨row, hrow⟩ := Option.isSome_iff_exists.mp hr
  have hrow' : g.neighbors root = row := by rw [neighbors, hrow]; rfl
  have hpay := pendingSteps_enter he g.adjacency hrow
  have hle := pendingSteps_le entered g.adjacency
  simp only [pathSteps, hrow', searchSteps, vertexCount, edgeCount]
  omega

/-- The edges on the path that a search from one root starts with lead to vertices. -/
theorem hasVertex_of_mem_path (hg : g.WellFormed) (root : α) :
    ∀ row ∈ [(root, g.neighbors root)], ∀ w ∈ row.2, g.hasVertex w = true := by
  intro row hrow w hw
  rw [List.mem_singleton.mp hrow] at hw
  exact hg.closed root w (hasEdge_of_mem_neighbors hw)

theorem explore_search (hg : g.WellFormed) {root : α} (hr : g.hasVertex root = true)
    {entered : List α} (he : entered.contains root = false) :
    ∃ seen finished, g.explore root entered = (seen, finished) ∧
      Search g [root] entered seen finished := by
  obtain ⟨seen, finished, hrun, hu⟩ := descendAll_unwinds hg g.searchSteps
    ⟨[(root, g.neighbors root)], root :: entered, []⟩ (hasVertex_of_mem_path hg root)
    (steps_le_searchSteps hr he)
  cases hu with
  | leave inner outer =>
    cases outer with
    | nil =>
      refine ⟨seen, _, ?_, .enter he inner .nil⟩
      simp only [explore, hrun, List.append_nil]

theorem foldl_explore_search (hg : g.WellFormed) (vs : List α)
    (hvs : ∀ v ∈ vs, g.hasVertex v = true) (entered done : List α) :
    ∃ seen finished,
      vs.foldl (fun (entered, finished) v =>
          if entered.contains v then (entered, finished)
          else
            let (entered, more) := g.explore v entered
            (entered, more ++ finished)) (entered, done) = (seen, finished ++ done) ∧
      Search g vs entered seen finished := by
  induction vs generalizing entered done with
  | nil => exact ⟨entered, [], rfl, .nil⟩
  | cons v rest ih =>
    have hrest : ∀ w ∈ rest, g.hasVertex w = true := fun w hw => hvs w (List.mem_cons_of_mem _ hw)
    cases hc : entered.contains v with
    | true =>
      obtain ⟨seen, finished, hrun, hs⟩ := ih hrest entered done
      refine ⟨seen, finished, ?_, .skip hc hs⟩
      rw [List.foldl_cons, ← hrun]
      simp only [hc, if_true]
    | false =>
      obtain ⟨seen₁, more, hex, hs₁⟩ := explore_search hg (hvs v List.mem_cons_self) hc
      obtain ⟨seen, finished, hrun, hs⟩ := ih hrest seen₁ (more ++ done)
      -- the search from one vertex becomes the first part of the search from all
      cases hs₁ with
      | skip hv _ => exact absurd (hc.symm.trans hv) (by decide)
      | enter hv inner outer =>
        cases outer with
        | nil =>
          refine ⟨seen, _, ?_, .enter hc inner hs⟩
          rw [List.foldl_cons]
          simp only [hc, Bool.false_eq_true, if_false, hex]
          rw [hrun]
          simp only [List.append_assoc, List.cons_append, List.nil_append]

end Machine

section Facts

variable {g : Digraph α} {pending seen seen' finished : List α}

theorem ReachesWithin.mono {l l' : List α} (hl : ∀ x, l.contains x = true → l'.contains x = true)
    {x y : α} (h : g.ReachesWithin l x y) : g.ReachesWithin l' x y :=
  Relation.ReflTransGen.mono (fun _ _ ⟨hv, hw, he⟩ => ⟨hl _ hv, hl _ hw, he⟩) _ _ h

theorem ReachesWithin.reaches {l : List α} {x y : α} (h : g.ReachesWithin l x y) : g.Reaches x y :=
  Relation.ReflTransGen.mono (fun _ _ ⟨_, _, he⟩ => he) _ _ h

theorem ReachesWithin.contains_left {l : List α} {x y : α} (h : g.ReachesWithin l x y)
    (hy : l.contains y = true) : l.contains x = true := by
  rcases Relation.ReflTransGen.cases_head h with rfl | ⟨_, ⟨hx, _⟩, _⟩
  · exact hy
  · exact hx

/-- A walk to a vertex of a list stays in the list if no step leads into the list from outside. -/
theorem ReachesWithin.restrict {big small : List α} {x r : α} (h : g.ReachesWithin big x r)
    (hr : small.contains r = true)
    (hin : ∀ y z, big.contains y = true → small.contains z = true → g.Leads y z →
      small.contains y = true) : g.ReachesWithin small x r := by
  induction h using Relation.ReflTransGen.head_induction_on with
  | refl => exact .refl
  | head hyz _ ih =>
    -- back from the end: the next vertex is in the small list already
    obtain ⟨hy, -, he⟩ := hyz
    have hz := ReachesWithin.contains_left ih hr
    exact .head ⟨hin _ _ hy hz he, hz, he⟩ ih

/-- What is seen after a search was seen before it or finished by it. -/
theorem Search.contains_seen (h : Search g pending seen seen' finished) (x : α) :
    seen'.contains x = (seen.contains x || finished.contains x) := by
  induction h with
  | nil => simp
  | skip _ _ ih => exact ih
  | @enter v rest seen seen₁ seen₂ below later hv _ _ ihi iho =>
    rw [iho, ihi]
    simp only [List.contains_cons, List.contains_append]
    cases x == v <;> cases seen.contains x <;> cases below.contains x <;>
      cases later.contains x <;> rfl

theorem Search.contains_seen_of_seen (h : Search g pending seen seen' finished) {x : α}
    (hx : seen.contains x = true) : seen'.contains x = true := by
  rw [h.contains_seen, hx, Bool.true_or]

theorem Search.contains_seen_of_finished (h : Search g pending seen seen' finished) {x : α}
    (hx : finished.contains x = true) : seen'.contains x = true := by
  rw [h.contains_seen, hx, Bool.or_true]

theorem contains_append_cons {later below : List α} {v x : α} :
    (later ++ v :: below).contains x = true ↔
      later.contains x = true ∨ x == v ∨ below.contains x = true := by
  rw [List.contains_append, List.contains_cons, Bool.or_eq_true, Bool.or_eq_true]

variable [EquivBEq α]

/-- A search finishes nothing that was seen before. -/
theorem Search.not_seen (h : Search g pending seen seen' finished) {x : α}
    (hx : finished.contains x = true) : seen.contains x = false := by
  induction h with
  | nil => cases hx
  | skip _ _ ih => exact ih hx
  | @enter v rest seen seen₁ seen₂ below later hv inner outer ihi iho =>
    have hinner : ∀ {y}, (v :: seen).contains y = false → seen.contains y = false := by
      intro y hy
      rw [List.contains_cons, Bool.or_eq_false_iff] at hy
      exact hy.2
    rcases contains_append_cons.mp hx with hx | hx | hx
    · have h₁ := iho hx
      rw [inner.contains_seen, Bool.or_eq_false_iff] at h₁
      exact hinner h₁.1
    · rw [List.contains_congr hx, hv]
    · exact hinner (ihi hx)

/-- A search finishes no vertex twice. -/
theorem Search.distinct (h : Search g pending seen seen' finished) :
    finished.Pairwise fun v w => (v == w) = false := by
  induction h with
  | nil => exact .nil
  | skip _ _ ih => exact ih
  | @enter v rest seen seen₁ seen₂ below later hv inner outer ihi iho =>
    refine List.pairwise_append.mpr ⟨iho, List.pairwise_cons.mpr ⟨?_, ihi⟩, ?_⟩
    · intro w hw
      have hs := inner.not_seen (contains_of_mem hw)
      rw [List.contains_cons, Bool.or_eq_false_iff] at hs
      rw [BEq.comm]
      exact hs.1
    · intro x hx w hw
      rw [Bool.eq_false_iff]
      intro he
      -- the later part finishes only what the tree of the root has not seen
      have hs := outer.not_seen (contains_of_mem hx)
      have hw₁ : seen₁.contains w = true := by
        rcases List.mem_cons.mp hw with rfl | hw
        · exact inner.contains_seen_of_seen (by simp)
        · exact inner.contains_seen_of_finished (contains_of_mem hw)
      rw [List.contains_congr he, hw₁] at hs
      cases hs

theorem Search.contains_pending (h : Search g pending seen seen' finished) {x : α}
    (hx : pending.contains x = true) : seen'.contains x = true := by
  induction h with
  | nil => cases hx
  | skip hv later ih =>
    rw [List.contains_cons, Bool.or_eq_true] at hx
    rcases hx with hx | hx
    · exact later.contains_seen_of_seen ((List.contains_congr hx).trans hv)
    · exact ih hx
  | enter hv inner outer _ iho =>
    rw [List.contains_cons, Bool.or_eq_true] at hx
    rcases hx with hx | hx
    · apply outer.contains_seen_of_seen
      apply inner.contains_seen_of_seen
      rw [List.contains_cons, hx, Bool.true_or]
    · exact iho hx

/-- The edges out of what a search finished lead to what it has seen. -/
theorem Search.closed (h : Search g pending seen seen' finished) {x y : α}
    (hx : finished.contains x = true) (he : g.hasEdge x y = true) : seen'.contains y = true := by
  induction h with
  | nil => cases hx
  | skip _ _ ih => exact ih hx
  | enter hv inner outer ihi iho =>
    rcases contains_append_cons.mp hx with hx | hx | hx
    · exact iho hx
    · apply outer.contains_seen_of_seen
      apply inner.contains_pending
      rwa [hasEdge_congr g hx BEq.rfl] at he
    · exact outer.contains_seen_of_seen (ihi hx)

/-- What a search finished is reached from a pending vertex through what it finished. -/
theorem Search.reached (h : Search g pending seen seen' finished) {x : α}
    (hx : finished.contains x = true) :
    ∃ r ∈ pending, finished.contains r = true ∧ g.ReachesWithin finished r x := by
  induction h with
  | nil => cases hx
  | skip _ _ ih =>
    obtain ⟨r, hr, hrf, hrx⟩ := ih hx
    exact ⟨r, List.mem_cons_of_mem _ hr, hrf, hrx⟩
  | @enter v rest seen seen₁ seen₂ below later hv inner outer ihi iho =>
    have hlater : ∀ y, later.contains y = true → (later ++ v :: below).contains y = true := by
      intro y hy
      exact contains_append_cons.mpr (.inl hy)
    have hbelow : ∀ y, below.contains y = true → (later ++ v :: below).contains y = true := by
      intro y hy
      exact contains_append_cons.mpr (.inr (.inr hy))
    have hroot : (later ++ v :: below).contains v = true := by simp
    rcases contains_append_cons.mp hx with hx' | hx' | hx'
    · obtain ⟨r, hr, hrf, hrx⟩ := iho hx'
      exact ⟨r, List.mem_cons_of_mem _ hr, hlater r hrf, hrx.mono hlater⟩
    · exact ⟨v, List.mem_cons_self, hroot, .single ⟨hroot, hx, .inl (BEq.symm hx')⟩⟩
    · obtain ⟨r, hr, hrf, hrx⟩ := ihi hx'
      refine ⟨v, List.mem_cons_self, hroot, .head ⟨hroot, hbelow r hrf, .inr ?_⟩ (hrx.mono hbelow)⟩
      exact hasEdge_of_mem_neighbors hr

/-- The order in which a search finishes vertices: a vertex that leads to `r` without meeting one that
is finished after `r` is reached from `r`. -/
theorem Search.reaches_of_reachesWithin (h : Search g pending seen seen' finished)
    {front back : List α} {r x : α} (hf : finished = front ++ r :: back)
    (hx : g.ReachesWithin (r :: back) x r) : g.Reaches r x := by
  induction h generalizing front back with
  | nil => simp at hf
  | skip _ _ ih => exact ih hf hx
  | @enter v rest seen seen₁ seen₂ below later hv inner outer ihi iho =>
    have htree : Search g [v] seen seen₁ (v :: below) := .enter hv inner .nil
    -- all that was finished below the root is reached from it
    have hroot : v :: below = r :: back → g.Reaches r x := by
      intro he
      obtain ⟨rfl, rfl⟩ := List.cons.inj he
      obtain ⟨s, hs, -, hsx⟩ := htree.reached (hx.contains_left (by simp))
      rw [List.mem_singleton.mp hs] at hsx
      exact hsx.reaches
    -- where the given vertex stands: below the root, at the root, or after it
    rcases List.append_eq_append_iff.mp hf with ⟨mid, rfl, hmid⟩ | ⟨mid, rfl, hmid⟩
    · cases mid with
      | nil => exact hroot hmid
      | cons m mid => exact ihi (List.cons.inj hmid).2 hx
    · cases mid with
      | nil => exact hroot hmid.symm
      | cons m mid =>
        obtain ⟨rfl, rfl⟩ := List.cons.inj hmid
        refine iho rfl (hx.restrict (by simp) ?_)
        -- the tree of the root was closed before the later vertices were entered
        intro y z hy hz hyz
        have hy : ((r :: mid) ++ v :: below).contains y = true := hy
        rw [List.contains_append, Bool.or_eq_true] at hy
        rcases hy with hy | hy
        · exact hy
        · have hzl : (front ++ r :: mid).contains z = true := by
            rw [List.contains_append, hz, Bool.or_true]
          have hz₁ : seen₁.contains z = true := by
            rcases hyz with he | he
            · rw [← List.contains_congr he]
              exact htree.contains_seen_of_finished hy
            · exact htree.closed hy he
          rw [outer.not_seen hzl] at hz₁
          cases hz₁

end Facts

end Dec.Digraph
