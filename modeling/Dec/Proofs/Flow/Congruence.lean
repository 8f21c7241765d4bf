import Dec.Proofs.Flow.Shape
import Dec.Proofs.Tree.Skeleton
import Mathlib.Data.List.Forall2

namespace Dec

def AtSamePlace (sts sts' : List Node) (n m : Node) : Prop :=
  ∃ i : Nat, sts[i]? = some n ∧ sts'[i]? = some m

structure FlowGraph.Corresponds (f g : FlowGraph Node) (sts sts' : List Node) : Prop where
  vertices : f.graph.vertices = sts ∧ g.graph.vertices = sts'
  skeletons : Node.skeletons sts = Node.skeletons sts'
  edges : ∀ a a' b b', AtSamePlace sts sts' a a' → AtSamePlace sts sts' b b' →
    f.graph.hasEdge a b = g.graph.hasEdge a' b'
  start : Option.Rel (AtSamePlace sts sts') f.start g.start
  search : ∃ reached reached' others others',
    f.breadthFirst = .ok (reached, others) ∧ g.breadthFirst = .ok (reached', others') ∧
      List.Forall₂ (AtSamePlace sts sts') reached reached' ∧
      List.Forall₂ (AtSamePlace sts sts') others others'

namespace Node

section Statements

mutual

/-- The statements of a tree go by its skeleton. -/
theorem statements_congr (n m : Node) (h : m.skeleton = n.skeleton) :
    skeletons n.statements = skeletons m.statements := by
  cases n with
  | literal => obtain ⟨_, rfl⟩ := skeleton_eq_literal h; rfl
  | var => obtain ⟨_, rfl⟩ := skeleton_eq_var h; rfl
  | binary => obtain ⟨_, _, _, rfl, -⟩ := skeleton_eq_binary h; rfl
  | assign tag target name value =>
    obtain ⟨tag', target', value', rfl, hv⟩ := skeleton_eq_assign h
    simp only [statements, skeletons, skeleton, hv]
  | ret tag value =>
    obtain ⟨tag', value', rfl, hv⟩ := skeleton_eq_ret h
    simp only [statements, skeletons, skeleton, hv]
  | block tag table body =>
    obtain ⟨tag', table', body', rfl, hb⟩ := skeleton_eq_block h
    exact allStatements_congr body body' hb

theorem allStatements_congr (body body' : List Node) (h : skeletons body' = skeletons body) :
    skeletons (allStatements body) = skeletons (allStatements body') := by
  cases body with
  | nil => rw [skeletons_eq_nil h]
  | cons n rest =>
    obtain ⟨m, others, rfl, hm, ho⟩ := skeletons_eq_cons h
    have hn := statements_congr n m hm
    have hrest := allStatements_congr rest others ho
    rw [skeletons_eq_map, skeletons_eq_map] at hn hrest ⊢
    rw [allStatements, allStatements, List.map_append, List.map_append, hn, hrest]

end

mutual

theorem flowDepth_congr (n m : Node) (h : m.skeleton = n.skeleton) : m.flowDepth = n.flowDepth := by
  cases n with
  | literal => obtain ⟨_, rfl⟩ := skeleton_eq_literal h; rfl
  | var => obtain ⟨_, rfl⟩ := skeleton_eq_var h; rfl
  | binary => obtain ⟨_, _, _, rfl, -⟩ := skeleton_eq_binary h; rfl
  | assign => obtain ⟨_, _, _, rfl, -⟩ := skeleton_eq_assign h; rfl
  | ret => obtain ⟨_, _, rfl, -⟩ := skeleton_eq_ret h; rfl
  | block tag table body =>
    obtain ⟨tag', table', body', rfl, hb⟩ := skeleton_eq_block h
    rw [flowDepth, flowDepth, maxFlowDepth_congr body body' hb]

theorem maxFlowDepth_congr (body body' : List Node) (h : skeletons body' = skeletons body) :
    maxFlowDepth body' = maxFlowDepth body := by
  cases body with
  | nil => rw [skeletons_eq_nil h]
  | cons n rest =>
    obtain ⟨m, others, rfl, hm, ho⟩ := skeletons_eq_cons h
    rw [maxFlowDepth, maxFlowDepth, flowDepth_congr n m hm, maxFlowDepth_congr rest others ho]

end

theorem isAssignment_congr {n m : Node} (h : n.skeleton = m.skeleton) :
    n.isAssignment = m.isAssignment := by
  cases n <;> cases m <;> first | rfl | cases h

theorem isReturn_congr {n m : Node} (h : n.skeleton = m.skeleton) : n.isReturn = m.isReturn := by
  cases n <;> cases m <;> first | rfl | cases h

end Statements

section Places

variable {sts sts' : List Node} (h : skeletons sts = skeletons sts')
include h

theorem length_eq_of_skeletons : sts.length = sts'.length := by
  simpa [skeletons_eq_map] using congrArg List.length h

theorem findIdx_isReturn_congr : sts.findIdx isReturn = sts'.findIdx isReturn := by
  induction sts generalizing sts' with
  | nil => rw [skeletons_eq_nil h.symm]
  | cons n rest ih =>
    obtain ⟨m, others, rfl, hm, ho⟩ := skeletons_eq_cons h.symm
    rw [List.findIdx_cons, List.findIdx_cons, isReturn_congr hm.symm, ih ho.symm]

/-- Each statement stands where the corresponding one does. -/
theorem forall₂_atSamePlace : List.Forall₂ (AtSamePlace sts sts') sts sts' := by
  rw [List.forall₂_iff_get]
  refine ⟨length_eq_of_skeletons h, fun i hi hi' => ⟨i, ?_, ?_⟩⟩
  · exact List.getElem?_eq_getElem hi
  · exact List.getElem?_eq_getElem hi'

theorem skeleton_eq_of_atSamePlace {n m : Node} (hnm : AtSamePlace sts sts' n m) :
    n.skeleton = m.skeleton := by
  obtain ⟨i, hn, hm⟩ := hnm
  have hi : (skeletons sts)[i]? = (skeletons sts')[i]? := by rw [h]
  rw [skeletons_eq_map, skeletons_eq_map, List.getElem?_map, List.getElem?_map, hn, hm] at hi
  exact Option.some.inj hi

/-- Flow graphs of sequences with the same skeletons correspond. -/
theorem corresponds_of_follows {f g : FlowGraph Node} (hf : f.Follows sts) (hg : g.Follows sts') :
    f.Corresponds g sts sts' := by
  constructor
  · exact ⟨hf.vertices, hg.vertices⟩
  · exact h
  · rintro a a' b b' hsame ⟨j, hb, hb'⟩
    have hkind := isAssignment_congr (skeleton_eq_of_atSamePlace h hsame)
    obtain ⟨i, ha, ha'⟩ := hsame
    obtain ⟨hi, rfl⟩ := List.getElem?_eq_some_iff.mp ha
    obtain ⟨hi', rfl⟩ := List.getElem?_eq_some_iff.mp ha'
    obtain ⟨hj, rfl⟩ := List.getElem?_eq_some_iff.mp hb
    obtain ⟨hj', rfl⟩ := List.getElem?_eq_some_iff.mp hb'
    rw [Bool.eq_iff_iff, hf.edges i j hi hj, hg.edges i j hi' hj', hkind]
  · rw [hf.start, hg.start]
    cases forall₂_atSamePlace h with
    | nil => exact .none
    | cons hfirst _ => exact .some hfirst
  · refine ⟨_, _, _, _, hf.search, hg.search, ?_, ?_⟩
    · rw [upToReturn, upToReturn, findIdx_isReturn_congr h]
      exact List.forall₂_take _ (forall₂_atSamePlace h)
    · rw [afterReturn, afterReturn, findIdx_isReturn_congr h]
      exact List.forall₂_drop _ (forall₂_atSamePlace h)

end Places

/-- Trees without repeated nodes that have the same skeleton have flow graphs that correspond, or
both are nested too deeply for the budget. -/
theorem flow_congr {n m : Node} (hn : n.ids.Nodup) (hm : m.ids.Nodup) (h : m.skeleton = n.skeleton)
    (budget : Nat) :
    (n.flowDepth ≤ budget → ∃ f g, (n.flow budget).1 = .ok f ∧ (m.flow budget).1 = .ok g ∧
      f.Corresponds g n.statements m.statements) ∧
    (budget < n.flowDepth →
      (n.flow budget).1 = .error ⟨n.location⟩ ∧ (m.flow budget).1 = .error ⟨m.location⟩) := by
  rw [flow_fst hn, flow_fst hm, flowDepth_congr n m h]
  constructor
  · intro hb
    have hwithin := Nat.not_lt.mpr hb
    exact ⟨_, _, if_neg hwithin, if_neg hwithin, corresponds_of_follows (statements_congr n m h)
      (ofStatements_follows hn) (ofStatements_follows hm)⟩
  · exact fun hb => ⟨if_pos hb, if_pos hb⟩

end Node

end Dec
