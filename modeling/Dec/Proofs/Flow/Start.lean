import Dec.Flow
import Dec.Proofs.Digraph.BreadthFirst
import Mathlib.Data.List.Induction

namespace Dec

namespace Digraph

variable {α : Type} [BEq α]

def afterRequests (g : Digraph α) (requests : List (Request α)) : Digraph α :=
  requests.foldl (fun g r => r.operation.apply g) g

theorem afterRequests_concat (g : Digraph α) (requests : List (Request α)) (r : Request α) :
    g.afterRequests (requests ++ [r]) = r.operation.apply (g.afterRequests requests) := by
  rw [afterRequests, List.foldl_append]
  rfl

/-- Requests that take a vertex out, with all that equal it, and do not add it again. -/
def Dropped (v : α) (requests : List (Request α)) : Prop :=
  ∃ before u after, requests = before ++ .removeVertex (some u) :: after ∧ (v == u) = true ∧
    ∀ w, Request.addVertex (some w) ∈ after → (v == w) = false

theorem not_dropped_nil (v : α) : ¬ Dropped v [] := by
  rintro ⟨before, u, after, h, -⟩
  simp at h

/-- The last request takes the vertex out, or it was out before and is not added. -/
theorem dropped_concat {v : α} {requests : List (Request α)} {r : Request α} :
    Dropped v (requests ++ [r]) ↔
      (∃ u, r = .removeVertex (some u) ∧ (v == u) = true) ∨
        Dropped v requests ∧ ∀ w, r = .addVertex (some w) → (v == w) = false := by
  constructor
  · rintro ⟨before, u, after, h, hu, hadd⟩
    -- the request that takes the vertex out is the last one, or it is among those before
    rcases List.eq_nil_or_concat after with rfl | ⟨later, last, rfl⟩
    · obtain ⟨-, hr⟩ := List.append_inj' h rfl
      exact Or.inl ⟨u, (List.cons.inj hr).1, hu⟩
    · rw [List.concat_eq_append] at h hadd
      rw [← List.cons_append, ← List.append_assoc] at h
      obtain ⟨hbefore, hr⟩ := List.append_inj' h rfl
      obtain rfl := (List.cons.inj hr).1
      refine Or.inr ⟨⟨before, u, later, hbefore, hu, ?_⟩, ?_⟩
      · exact fun w hw => hadd w (List.mem_append_left _ hw)
      · rintro w rfl
        exact hadd w (List.mem_append_right _ List.mem_cons_self)
  · rintro (⟨u, rfl, hu⟩ | ⟨⟨before, u, after, rfl, hu, hadd⟩, hr⟩)
    · exact ⟨requests, u, [], rfl, hu, by simp⟩
    · refine ⟨before, u, after ++ [r], by simp, hu, ?_⟩
      intro w hw
      rcases List.mem_append.mp hw with hw | hw
      · exact hadd w hw
      · exact hr w (List.mem_singleton.mp hw).symm

variable [EquivBEq α] {g : Digraph α}

/-- A request changes whether a vertex is there only by adding or taking out an equal one. -/
theorem hasVertex_apply (g : Digraph α) (r : Request α) (v : α) :
    (r.operation.apply g).hasVertex v =
      match r with
      | .addVertex (some w) => g.hasVertex v || v == w
      | .removeVertex (some u) => g.hasVertex v && !(v == u)
      | _ => g.hasVertex v := by
  match r with
  | .addVertex none => rfl
  | .addVertex (some w) => exact hasVertex_insertVertex ..
  | .removeVertex none => rfl
  | .removeVertex (some u) => exact hasVertex_eraseVertex ..
  | .addEdge s d =>
    rw [Request.operation, Operation.apply, addEdge]
    rcases g.ends? s d with missing | _ | ⟨x, y⟩
    · rfl
    · rfl
    -- an edge that is added changes a row and no vertex
    · by_cases he : g.hasEdge x y = true
      · simp [bind, Except.bind, pure, Except.pure, he]
      · simp [bind, Except.bind, pure, Except.pure, he, insertEdge, hasVertex_updateRow]
  | .removeEdge s d =>
    rw [Request.operation, Operation.apply, removeEdge]
    rcases g.ends? s d with missing | _ | ⟨x, y⟩
    · rfl
    · rfl
    · exact hasVertex_updateRow ..

/-- A vertex of a graph is there after some requests unless they drop it. -/
theorem hasVertex_afterRequests {v : α} (hv : g.hasVertex v = true) (requests : List (Request α)) :
    (g.afterRequests requests).hasVertex v = true ↔ ¬ Dropped v requests := by
  induction requests using List.reverseRecOn with
  | nil => exact iff_of_true hv (not_dropped_nil v)
  | append_singleton requests r ih =>
    -- the last request decides if it names an equal vertex, else those before it do
    rw [afterRequests_concat, hasVertex_apply, dropped_concat]
    match r with
    | .addVertex (some w) =>
      cases hw : v == w with
      | true => simp [hw]
      | false => simp [ih, hw]
    | .removeVertex (some u) =>
      cases hu : v == u with
      | true => simp [hu]
      | false => simp [ih, hu]
    | .addVertex none | .removeVertex none | .addEdge .. | .removeEdge .. => simpa using ih

theorem afterRequests_wellFormed (hg : g.WellFormed) (requests : List (Request α)) :
    (g.afterRequests requests).WellFormed := by
  induction requests using List.reverseRecOn with
  | nil => exact hg
  | append_singleton requests r ih =>
    rw [afterRequests_concat]
    exact apply_wellFormed ih r.operation

end Digraph

namespace FlowState

variable {P : FlowGraph Node → Prop}

mutual

/-- What each added statement keeps is kept over a whole tree. -/
theorem flowFrom_keeps (whole : Option Location) (hadd : ∀ s n, P s.flow → P (add s n).flow)
    (n : Node) (budget : Nat) {s : FlowState} (hs : P s.flow) :
    P (n.flowFrom whole budget s).2.flow := by
  cases n with
  | literal => exact hs
  | var => exact hs
  | binary => exact hs
  | assign tag target name value =>
    rw [Node.flowFrom]
    split
    · exact hs
    · exact hadd s (.assign tag target name value) hs
  | ret tag value =>
    rw [Node.flowFrom]
    split
    · exact hs
    · exact hadd s (.ret tag value) hs
  | block tag table body =>
    rw [Node.flowFrom]
    split
    · exact hs
    · exact flowThrough_keeps whole hadd body _ hs

theorem flowThrough_keeps (whole : Option Location) (hadd : ∀ s n, P s.flow → P (add s n).flow)
    (body : List Node) (budget : Nat) {s : FlowState} (hs : P s.flow) :
    P (Node.flowThrough whole budget s body).2.flow := by
  cases body with
  | nil => exact hs
  | cons n rest =>
    have hn := flowFrom_keeps whole hadd n budget hs
    rw [Node.flowThrough]
    rcases hrun : n.flowFrom whole budget s with ⟨fault | _, s'⟩
    · rw [hrun] at hn
      exact hn
    · rw [hrun] at hn
      exact flowThrough_keeps whole hadd rest budget hn

end

end FlowState

namespace FlowGraph

structure Starts (f : FlowGraph Node) : Prop where
  wellFormed : f.graph.WellFormed
  start : ∀ v, f.start = some v → f.graph.hasVertex v = true

def afterRequests (f : FlowGraph Node) (requests : List (Digraph.Request Node)) : FlowGraph Node :=
  ⟨f.graph.afterRequests requests, f.start⟩

theorem empty_starts : (empty : FlowGraph Node).Starts :=
  ⟨Digraph.empty_wellFormed, fun _ h => nomatch h⟩

end FlowGraph

/-- The first statement of all is the start, and it is a vertex from then on. -/
theorem FlowState.starts_add (s : FlowState) (n : Node) (hs : s.flow.Starts) :
    (s.add n).flow.Starts := by
  have hn : (s.flow.graph.insertVertex n).hasVertex n = true := by
    rw [Digraph.hasVertex_insertVertex, BEq.rfl, Bool.or_true]
  have hstart : ∀ v, (s.flow.start <|> some n) = some v →
      (s.flow.graph.insertVertex n).hasVertex v = true := by
    intro v hv
    -- an old start stays, and where there is none the statement is the start
    rcases hold : s.flow.start with _ | u
    · rw [hold] at hv
      rw [← Option.some.inj hv]
      exact hn
    · rw [hold] at hv
      rw [← Option.some.inj hv, Digraph.hasVertex_insertVertex, hs.start u hold, Bool.true_or]
  have hw := hs.wellFormed.insertVertex n
  rw [add]
  cases s.previous with
  | none => exact ⟨hw, hstart⟩
  | some previous =>
    refine ⟨hw.insertEdge previous hn, ?_⟩
    intro v hv
    exact (Digraph.hasVertex_updateRow ..).trans (hstart v hv)

namespace Node

/-- The flow graph of a tree starts at one of its vertices, unless it has none. -/
theorem flow_starts {n : Node} {budget : Nat} {f : FlowGraph Node} (h : (n.flow budget).1 = .ok f) :
    f.Starts := by
  have hkeeps := FlowState.flowFrom_keeps n.location FlowState.starts_add n budget
    (s := .initial) FlowGraph.empty_starts
  rw [flow] at h
  rcases hrun : n.flowFrom n.location budget .initial with ⟨fault | _, s⟩
  · rw [hrun] at h
    cases h
  · rw [hrun] at h hkeeps
    rw [← Except.ok.inj h]
    exact hkeeps

def oneAssigned : Node := .assign ⟨1, none⟩ ⟨2, none⟩ "x" (.literal ⟨3, none⟩ (.int 1))

/-- Requests leave the start of the flow graph of a tree as it is, and it is a vertex until they drop
it. From then on searches fail; before, they get through and have every vertex once. -/
theorem flow_start_afterRequests {n : Node} {budget : Nat} {f : FlowGraph Node}
    (h : (n.flow budget).1 = .ok f) (requests : List (Digraph.Request Node)) :
    (f.afterRequests requests).start = f.start ∧
      (∀ v, f.start = some v →
        ((f.afterRequests requests).graph.hasVertex v = true ↔ ¬ Digraph.Dropped v requests)) ∧
      (∀ v, f.start = some v → Digraph.Dropped v requests →
        (f.afterRequests requests).breadthFirst = .error ⟨.plain, some v⟩) ∧
      ((∀ v, f.start = some v → ¬ Digraph.Dropped v requests) →
        ∃ reached rest, (f.afterRequests requests).breadthFirst = .ok (reached, rest) ∧
          Digraph.Enumerates (reached ++ rest) (f.afterRequests requests).graph.hasVertex) := by
  have hf := flow_starts h
  have hkept : ∀ v, f.start = some v →
      ((f.afterRequests requests).graph.hasVertex v = true ↔ ¬ Digraph.Dropped v requests) :=
    fun v hv => Digraph.hasVertex_afterRequests (hf.start v hv) requests
  refine ⟨rfl, hkept, ?_, ?_⟩
  -- the search enters the start first, and it is not there
  · intro v hv hdropped
    have hmissing : (f.afterRequests requests).graph.hasVertex v = false := by
      rw [Bool.eq_false_iff]
      exact fun hthere => (hkept v hv).mp hthere hdropped
    have hstart : (f.afterRequests requests).start = some v := hv
    rw [FlowGraph.breadthFirst, hstart]
    exact Digraph.breadthFirst_eq_error hmissing
  · intro hnot
    exact Digraph.breadthFirst_eq_ok (Digraph.afterRequests_wellFormed hf.wellFormed requests)
      fun v hv => (hkept v hv).mpr (hnot v hv)

/-- A start that is taken out and added again is a vertex that a search gets through from. -/
theorem flow_start_afterRequests_added_again :
    ∃ f, ((block ⟨0, none⟩ ⟨0, none, 0, .empty⟩ [oneAssigned]).flow 8).1 = .ok f ∧
      ∃ reached rest,
        (f.afterRequests [.removeVertex (some oneAssigned), .addVertex (some oneAssigned)]).breadthFirst
          = .ok (reached, rest) ∧
        Digraph.Enumerates (reached ++ rest)
          (f.afterRequests [.removeVertex (some oneAssigned),
            .addVertex (some oneAssigned)]).graph.hasVertex := by
  have hflow : ((block ⟨0, none⟩ ⟨0, none, 0, .empty⟩ [oneAssigned]).flow 8).1 =
      .ok ⟨Digraph.empty.insertVertex oneAssigned, some oneAssigned⟩ := rfl
  obtain ⟨-, hkept, -, hsearch⟩ := flow_start_afterRequests
    (n := block ⟨0, none⟩ ⟨0, none, 0, .empty⟩ [oneAssigned]) hflow
    [.removeVertex (some oneAssigned), .addVertex (some oneAssigned)]
  refine ⟨_, rfl, hsearch fun v hv => (hkept v hv).mp ?_⟩
  rw [← Option.some.inj hv]
  rfl

/-- The start of a flow graph is taken out of it, and a search fails. -/
theorem flow_start_taken_out :
    ∃ f, ((block ⟨0, none⟩ ⟨0, none, 0, .empty⟩ [oneAssigned]).flow 8).1 = .ok f ∧
      (f.afterRequests [.removeVertex (some oneAssigned)]).start = some oneAssigned ∧
      (f.afterRequests [.removeVertex (some oneAssigned)]).graph.hasVertex oneAssigned = false ∧
      (f.afterRequests [.removeVertex (some oneAssigned)]).breadthFirst =
        .error ⟨.plain, some oneAssigned⟩ :=
  ⟨_, rfl, rfl, rfl, rfl⟩

end Node

end Dec
