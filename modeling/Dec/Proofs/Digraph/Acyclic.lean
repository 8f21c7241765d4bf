import Dec.Proofs.Digraph.Components
import Dec.Proofs.Digraph.Line

namespace Dec.Digraph

variable {α : Type} [BEq α] [EquivBEq α] {g : Digraph α}

def Acyclic (g : Digraph α) : Prop := ∀ v w, g.Reaches v w → g.Reaches w v → v == w

section Components

/-- Lists that hold equal vertices equally often are of one length. -/
theorem length_eq_of_countP_eq {l l' : List α}
    (h : ∀ v, l.countP (· == v) = l'.countP (· == v)) : l.length = l'.length := by
  induction l generalizing l' with
  | nil =>
    cases l' with
    | nil => rfl
    | cons w rest => simpa using h w
  | cons v rest ih =>
    -- the other list holds an equal vertex; both can be left out
    have hpos : 0 < l'.countP (· == v) := by
      rw [← h v]
      simp
    obtain ⟨w, hw, hwv⟩ := List.countP_pos_iff.mp hpos
    obtain ⟨front, back, rfl⟩ := List.append_of_mem hw
    have hrest : rest.length = (front ++ back).length := by
      apply ih
      intro x
      have hx := h x
      have hwx : (w == x) = (v == x) := BEq.congr_left hwv
      simp only [List.countP_cons, List.countP_append, hwx] at hx ⊢
      omega
    simp only [List.length_cons, List.length_append] at hrest ⊢
    omega

variable {cs : List (List α)}

theorem AreComponents.hasVertex (h : g.AreComponents cs) {c : List α} (hc : c ∈ cs) {v : α}
    (hv : v ∈ c) : g.hasVertex v = true := by
  have hpos : 0 < cs.flatten.countP (· == v) :=
    List.countP_pos_iff.mpr ⟨v, List.mem_flatten.mpr ⟨c, hc, hv⟩, BEq.rfl⟩
  rw [h.partition] at hpos
  split at hpos
  · assumption
  · exact absurd hpos (Nat.lt_irrefl 0)

/-- Without cycles every component is a single vertex. -/
theorem AreComponents.length_eq_one (h : g.AreComponents cs) (ha : g.Acyclic) :
    ∀ c ∈ cs, c.length = 1 := by
  intro c hc
  match c, hc with
  | [], hc => exact absurd rfl (h.nonempty [] hc)
  | [v], _ => rfl
  | v :: w :: more, hc =>
    -- the two would be reached from each other, so they would be one vertex that is there twice
    have hv := h.hasVertex hc (v := v) (by simp)
    have hw := h.hasVertex hc (v := w) (by simp)
    obtain ⟨hvw, hwv⟩ := (h.mutual_iff v w hv hw).mp ⟨_, hc, by simp, by simp⟩
    have heq : w == v := ha w v hwv hvw
    have htwice : 2 ≤ (v :: w :: more).countP (· == v) := by
      simp only [List.countP_cons, BEq.rfl, heq, if_true]
      omega
    have honce := (List.sublist_flatten_of_mem hc).countP_le (p := fun x => x == v)
    rw [h.partition, if_pos hv] at honce
    omega

/-- Without cycles there are as many components as vertices. -/
theorem AreComponents.length_eq_vertexCount (hg : g.WellFormed) (h : g.AreComponents cs)
    (ha : g.Acyclic) : cs.length = g.vertexCount := by
  have hflatten : cs.flatten.length = cs.length := by
    have hone : cs.map List.length = List.replicate cs.length 1 :=
      List.map_eq_replicate_iff.mpr (h.length_eq_one ha)
    rw [List.length_flatten, hone, List.sum_replicate_nat, Nat.mul_one]
  have hvertices : cs.flatten.length = g.vertices.length := by
    apply length_eq_of_countP_eq
    intro v
    rw [h.partition, countP_of_distinct hg.distinct, hasVertex_eq_contains]
  rw [← hflatten, hvertices, vertices, List.length_map, vertexCount]

end Components

section Line

variable {stops : α → Bool} {vs : List α}

variable (stops) in
theorem line_wellFormed (hd : vs.Pairwise fun x y => (x == y) = false) :
    (line stops vs).WellFormed := by
  constructor
  · rw [vertices_line]
    exact hd
  · intro v w h
    obtain ⟨front, x, y, rest, rfl, -, -, hwy⟩ := (hasEdge_line_iff hd).mp h
    rw [hasVertex_eq_contains, vertices_line, List.contains_congr hwy]
    exact contains_of_mem (by simp)

def place (vs : List α) (v : α) : Nat := vs.findIdx (· == v)

theorem place_congr {v w : α} (h : v == w) : place vs v = place vs w := by
  have hfun : (fun x => x == v) = fun x => x == w := by
    funext x
    exact BEq.congr_right h
  rw [place, hfun, place]

theorem place_append {front rest : List α} {v : α}
    (hd : (front ++ v :: rest).Pairwise fun x y => (x == y) = false) :
    place (front ++ v :: rest) v = front.length := by
  have hfront : front.findIdx (· == v) = front.length := by
    rw [List.findIdx_eq_length]
    exact fun x hx => (List.pairwise_append.mp hd).2.2 x hx v (by simp)
  rw [place, List.findIdx_append, hfront, if_neg (Nat.lt_irrefl _), List.findIdx_cons]
  simp

/-- What is reached along the edges of a line is the vertex itself or stands further on. -/
theorem beq_or_place_lt_of_reaches (hd : vs.Pairwise fun x y => (x == y) = false) {v w : α}
    (h : (line stops vs).Reaches v w) : v == w ∨ place vs v < place vs w := by
  induction h with
  | refl => exact .inl BEq.rfl
  | @tail u w _ hstep ih =>
    have hle : u == w ∨ place vs u < place vs w := by
      refine hstep.imp id fun he => ?_
      obtain ⟨front, x, y, rest, rfl, -, hux, hwy⟩ := (hasEdge_line_iff hd).mp he
      have hd' : ((front ++ [x]) ++ y :: rest).Pairwise fun x y => (x == y) = false := by
        simpa using hd
      have hy := place_append hd'
      rw [List.append_assoc, List.singleton_append] at hy
      rw [place_congr hux, place_congr hwy, place_append hd, hy]
      simp
    rcases ih with ih | ih <;> rcases hle with hle | hle
    · exact .inl (BEq.trans ih hle)
    · exact .inr (by rwa [place_congr ih])
    · exact .inr (by rwa [← place_congr hle])
    · exact .inr (Nat.lt_trans ih hle)

theorem line_acyclic (hd : vs.Pairwise fun x y => (x == y) = false) : (line stops vs).Acyclic := by
  intro v w hvw hwv
  rcases beq_or_place_lt_of_reaches hd hvw with h | h
  · exact h
  · rcases beq_or_place_lt_of_reaches hd hwv with h' | h'
    · exact BEq.symm h'
    · omega

variable (stops) in
/-- The components of a line are its vertices, one by one. -/
theorem components_line (hd : vs.Pairwise fun x y => (x == y) = false) :
    (∀ c ∈ (line stops vs).components, c.length = 1) ∧
      (line stops vs).components.length = vs.length := by
  have hg := line_wellFormed stops hd
  have hc := components_areComponents hg
  refine ⟨hc.length_eq_one (line_acyclic hd), ?_⟩
  rw [hc.length_eq_vertexCount hg (line_acyclic hd), vertexCount, line, length_lineRows]

end Line

end Dec.Digraph
