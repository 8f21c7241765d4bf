import Dec.Flow
import Dec.Proofs.Digraph.Acyclic
import Dec.Proofs.Tree.Statements

namespace Dec

namespace FlowGraph

def ofStatements (sts : List Node) : FlowGraph Node := ⟨.line Node.isReturn sts, sts.head?⟩

end FlowGraph

/-- A flow graph whose vertices are the given statements: each assignment leads to the next statement
and nothing else leads anywhere, the search from the first statement gets up to the first return, and
no two statements are in one component. -/
structure FlowGraph.Follows (f : FlowGraph Node) (sts : List Node) : Prop where
  vertices : f.graph.vertices = sts
  edges : ∀ i j (hi : i < sts.length) (hj : j < sts.length),
    f.graph.hasEdge sts[i] sts[j] = true ↔ j = i + 1 ∧ sts[i].isAssignment = true
  start : f.start = sts.head?
  search : f.breadthFirst = .ok (Node.upToReturn sts, Node.afterReturn sts)
  components_single : ∀ c ∈ f.graph.components, c.length = 1
  components_length : f.graph.components.length = sts.length

/-- The flow graph in the making is that of the statements seen so far, and the last of them is
remembered unless it returns. -/
structure FlowState.Covers (s : FlowState) (seen : List Node) : Prop where
  flow : s.flow = .ofStatements seen
  previous : s.previous = seen.getLast?.filter fun n => !n.isReturn

namespace FlowState

theorem initial_covers : initial.Covers [] := ⟨rfl, rfl⟩

/-- One more statement makes the flow graph of one more statement. -/
theorem Covers.flow_add {s : FlowState} {seen : List Node} (h : s.Covers seen) {n : Node}
    (hd : (seen ++ [n]).Pairwise fun a b => (a == b) = false) :
    (s.add n).flow = .ofStatements (seen ++ [n]) := by
  have hstart : (seen.head? <|> some n) = (seen ++ [n]).head? := by cases seen <;> rfl
  rw [add, h.flow, h.previous, FlowGraph.ofStatements, FlowGraph.ofStatements,
    Digraph.line_concat Node.isReturn hd, ← hstart]
  cases seen.getLast?.filter fun u => !u.isReturn <;> rfl

end FlowState

namespace Node

mutual

/-- The budget that the flow graph of a tree takes. -/
def flowDepth : Node → Nat
  | literal .. => 0
  | var .. => 0
  | binary .. => 0
  | assign .. => flowCost
  | ret .. => flowCost
  | block _ _ body => maxFlowDepth body + blockCost

def maxFlowDepth : List Node → Nat
  | [] => 0
  | n :: rest => max n.flowDepth (maxFlowDepth rest)

end

variable (whole : Option Location)

mutual

/-- The walk over a tree fails just when the tree is nested too deeply for its budget. -/
theorem flowFrom_fst (n : Node) (budget : Nat) (s : FlowState) :
    (n.flowFrom whole budget s).1 =
      if budget < n.flowDepth then .error ⟨whole⟩ else .ok () := by
  cases n with
  | literal => rfl
  | var => rfl
  | binary => rfl
  | assign =>
    rw [flowFrom, flowDepth]
    split <;> rfl
  | ret =>
    rw [flowFrom, flowDepth]
    split <;> rfl
  | block tag table body =>
    rw [flowFrom, flowDepth]
    split
    · rw [if_pos (by omega)]
    · rw [flowThrough_fst body]
      congr 1
      rw [eq_iff_iff]
      omega

theorem flowThrough_fst (body : List Node) (budget : Nat) (s : FlowState) :
    (flowThrough whole budget s body).1 =
      if budget < maxFlowDepth body then .error ⟨whole⟩ else .ok () := by
  cases body with
  | nil => rfl
  | cons n rest =>
    have hn := flowFrom_fst n budget s
    rw [flowThrough, maxFlowDepth]
    rcases hrun : flowFrom whole budget s n with ⟨fault | _, s'⟩
    · rw [hrun] at hn
      split at hn
      · rw [if_pos (by omega)]
        exact hn
      · cases hn
    · rw [hrun] at hn
      split at hn
      · cases hn
      · rw [flowThrough_fst rest]
        congr 1
        rw [eq_iff_iff]
        omega

end

mutual

/-- The walk over a tree that is not nested too deeply adds its statements to the flow graph. -/
theorem flowFrom_covers (n : Node) {budget : Nat} (hb : n.flowDepth ≤ budget)
    {s : FlowState} {seen : List Node} (hs : s.Covers seen)
    (hd : (seen ++ n.statements).Pairwise fun a b => (a == b) = false) :
    (n.flowFrom whole budget s).2.Covers (seen ++ n.statements) := by
  cases n with
  | literal =>
    rw [statements, List.append_nil]
    exact hs
  | var =>
    rw [statements, List.append_nil]
    exact hs
  | binary =>
    rw [statements, List.append_nil]
    exact hs
  | assign tag target name value =>
    rw [flowDepth] at hb
    rw [flowFrom, if_neg (Nat.not_lt.mpr hb)]
    refine ⟨hs.flow_add hd, ?_⟩
    rw [statements, List.getLast?_concat]
    rfl
  | ret tag value =>
    -- a return is not remembered
    rw [flowDepth] at hb
    rw [flowFrom, if_neg (Nat.not_lt.mpr hb)]
    refine ⟨hs.flow_add hd, ?_⟩
    rw [statements, List.getLast?_concat]
    rfl
  | block tag table body =>
    rw [flowDepth] at hb
    rw [flowFrom, if_neg (by omega)]
    exact flowThrough_covers body (by omega) hs hd

theorem flowThrough_covers (body : List Node) {budget : Nat}
    (hb : maxFlowDepth body ≤ budget) {s : FlowState} {seen : List Node}
    (hs : s.Covers seen)
    (hd : (seen ++ allStatements body).Pairwise fun a b => (a == b) = false) :
    (flowThrough whole budget s body).2.Covers (seen ++ allStatements body) := by
  cases body with
  | nil =>
    rw [allStatements, List.append_nil]
    exact hs
  | cons n rest =>
    rw [allStatements, ← List.append_assoc] at hd ⊢
    have hn : n.flowDepth ≤ budget ∧ maxFlowDepth rest ≤ budget := by
      rw [maxFlowDepth] at hb
      omega
    have h₁ := flowFrom_covers n hn.1 hs (List.pairwise_append.mp hd).1
    have hok := flowFrom_fst whole n budget s
    rw [if_neg (Nat.not_lt.mpr hn.1)] at hok
    rw [flowThrough]
    rcases hrun : flowFrom whole budget s n with ⟨fault | _, s'⟩
    · rw [hrun] at hok
      cases hok
    · rw [hrun] at h₁
      exact flowThrough_covers rest hn.2 h₁ hd

end

/-- A tree without repeated nodes has the flow graph of its statements, unless it is nested too
deeply. -/
theorem flow_fst {n : Node} (hn : n.ids.Nodup) (budget : Nat) :
    (n.flow budget).1 =
      if budget < n.flowDepth then .error ⟨n.location⟩
      else .ok (.ofStatements n.statements) := by
  have hfst := flowFrom_fst n.location n budget .initial
  rw [flow]
  split at hfst
  · rename_i hdeep
    rw [if_pos hdeep]
    split
    · rename_i hrun
      rw [hrun] at hfst
      rw [Except.error.inj hfst]
    · rename_i hrun
      rw [hrun] at hfst
      cases hfst
  · rename_i hdeep
    have hcovers := flowFrom_covers n.location n (Nat.not_lt.mp hdeep) FlowState.initial_covers
      (statements_distinct hn)
    rw [if_neg hdeep]
    split
    · rename_i hrun
      rw [hrun] at hfst
      cases hfst
    · rename_i hrun
      rw [hrun] at hcovers
      exact congrArg Except.ok hcovers.flow

theorem ofStatements_follows {n : Node} (hn : n.ids.Nodup) :
    (FlowGraph.ofStatements n.statements).Follows n.statements := by
  have hd := statements_distinct hn
  obtain ⟨hsingle, hlength⟩ := Digraph.components_line isReturn hd
  refine ⟨Digraph.vertices_line isReturn _, ?_, rfl, Digraph.breadthFirst_line isReturn hd, hsingle, hlength⟩
  intro i j hi hj
  have hkind := isAssignment_of_mem_statements n _ (List.getElem_mem hi)
  rw [FlowGraph.ofStatements, Digraph.hasEdge_line_getElem_iff hd hi hj, hkind, Bool.not_eq_true']

/-- The flow graph of a tree without repeated nodes follows its statements. Only a tree that is
nested too deeply for the budget has none, and then the fault is at the place of the whole tree. -/
theorem flow_follows_statements {n : Node} (hn : n.ids.Nodup) (budget : Nat) :
    (n.flowDepth ≤ budget → ∃ f, (n.flow budget).1 = .ok f ∧ f.Follows n.statements) ∧
    (budget < n.flowDepth → (n.flow budget).1 = .error ⟨n.location⟩) := by
  rw [flow_fst hn]
  constructor
  · intro hb
    exact ⟨_, if_neg (Nat.not_lt.mpr hb), ofStatements_follows hn⟩
  · exact fun hb => if_pos hb

/-- An empty block, an assignment, and a return in a block of its own with an assignment after it. -/
theorem flow_follows_statements_past_inner_return :
    ∃ f, ((block ⟨0, none⟩ ⟨0, none, 0, .empty⟩
        [.block ⟨1, none⟩ ⟨1, some 0, 1, .empty⟩ [],
          .assign ⟨2, none⟩ ⟨3, none⟩ "x" (.literal ⟨4, none⟩ (.int 1)),
          .block ⟨5, none⟩ ⟨2, some 0, 1, .empty⟩ [.ret ⟨6, none⟩ (.var ⟨7, none⟩ "x")],
          .assign ⟨8, none⟩ ⟨9, none⟩ "y" (.var ⟨10, none⟩ "x")]).flow 10).1 = .ok f ∧
      f.Follows [.assign ⟨2, none⟩ ⟨3, none⟩ "x" (.literal ⟨4, none⟩ (.int 1)),
        .ret ⟨6, none⟩ (.var ⟨7, none⟩ "x"),
        .assign ⟨8, none⟩ ⟨9, none⟩ "y" (.var ⟨10, none⟩ "x")] :=
  (flow_follows_statements (by decide) 10).1 (by decide)

def nestedReturn : Nat → Node
  | 0 => .ret ⟨0, none⟩ (.literal ⟨1, none⟩ (.int 1))
  | k + 1 => .block ⟨k + 2, none⟩ ⟨k, none, 0, .empty⟩ [nestedReturn k]

theorem nestedReturn_ids (k : Nat) :
    (nestedReturn k).ids.Nodup ∧ ∀ i ∈ (nestedReturn k).ids, i < k + 2 := by
  induction k with
  | zero => decide
  | succ k ih =>
    have hids : (nestedReturn (k + 1)).ids = (k + 2) :: (nestedReturn k).ids := by
      simp [nestedReturn, ids, allIds]
    rw [hids, List.nodup_cons]
    refine ⟨⟨fun hmem => Nat.lt_irrefl _ (ih.2 _ hmem), ih.1⟩, ?_⟩
    intro i hi
    rcases List.mem_cons.mp hi with rfl | hi
    · omega
    · have := ih.2 i hi
      omega

theorem nestedReturn_flowDepth (k : Nat) :
    (nestedReturn k).flowDepth = flowCost + k * blockCost := by
  induction k with
  | zero => rfl
  | succ k ih =>
    rw [nestedReturn, flowDepth, maxFlowDepth, maxFlowDepth, ih, Nat.max_zero, Nat.succ_mul,
      Nat.add_assoc]

/-- Within the usual stack a return inside 1200 blocks has no flow graph. -/
theorem nestedReturn_without_flow :
    (nestedReturn 1200).ids.Nodup ∧
      ¬ ∃ f, ((nestedReturn 1200).flow usualBudget).1 = .ok f ∧
        f.Follows (nestedReturn 1200).statements := by
  have hids := (nestedReturn_ids 1200).1
  refine ⟨hids, ?_⟩
  rintro ⟨f, hf, -⟩
  rw [flow_fst hids, nestedReturn_flowDepth, if_pos (by decide)] at hf
  cases hf

end Node

end Dec
