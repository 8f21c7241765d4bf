import Dec.Proofs.Evaluation.Unreached
import Dec.Proofs.Flow.Shape
import Dec.Proofs.Naming.Unbound

namespace Dec

def evaluateTraced (budget : Nat) (n : Node) (bindings : List (String × Option Scalar)) :
    Except EvalFault Scalar × List Node :=
  let run := n.evalTraced n.location budget ⟨Evaluator.fresh.initial bindings, []⟩
  (run.1, run.2.trace)

theorem evaluateTraced_fst (budget : Nat) (n : Node) (bindings : List (String × Option Scalar)) :
    (evaluateTraced budget n bindings).1 = evaluate budget n bindings := by
  have huntraced := n.untraced_evalTraced n.location budget
    ⟨Evaluator.fresh.initial bindings, []⟩
  rw [evaluate_eq]
  exact congrArg Prod.fst huntraced

/-- An evaluation enters a beginning of the statements up to the first return, and all of these when it
has a value. -/
theorem evaluateTraced_snd {n : Node} (hw : n.wellPlaced = true) (budget : Nat)
    (bindings : List (String × Option Scalar)) :
    (evaluateTraced budget n bindings).2 <+: Node.upToReturn n.statements ∧
    ∀ v, evaluate budget n bindings = .ok v →
      (evaluateTraced budget n bindings).2 = Node.upToReturn n.statements := by
  have hruns := n.evalTraced_runsThrough n.location hw budget
    (s := ⟨Evaluator.fresh.initial bindings, []⟩) rfl
  rw [← evaluateTraced_fst, evaluateTraced]
  generalize n.evalTraced n.location budget
    ⟨Evaluator.fresh.initial bindings, []⟩ = run at hruns ⊢
  -- nothing was entered before the run started
  cases hruns with
  | failed entered ht he =>
    rw [List.nil_append] at ht
    refine ⟨ht ▸ he, fun v hv => ?_⟩
    cases hv
  | ended ht hr =>
    rw [List.nil_append] at ht
    exact ⟨ht ▸ List.prefix_rfl, fun v hv => ht⟩

namespace Node

/-- What comes after the first return of a tree without repeated nodes is not there up to it. -/
theorem ne_of_mem_afterReturn {n s t : Node} (hn : n.ids.Nodup) (ht : t ∈ upToReturn n.statements)
    (hs : s ∈ afterReturn n.statements) : (t == s) = false := by
  have hd := statements_distinct hn
  rw [← upToReturn_append_afterReturn n.statements] at hd
  exact (List.pairwise_append.mp hd).2.2 t ht s hs

/-- The flow graph of a tree without repeated nodes predicts its evaluations. Whatever is bound, the
statements that are entered are a beginning of those that the search reaches, and just these when the
evaluation has a value. A statement that the search does not reach is never entered, and an
evaluation does not depend on its expression. -/
theorem flow_predicts_evaluation {n : Node} (hw : n.wellPlaced = true) (hn : n.ids.Nodup)
    {budget : Nat} (hb : n.flowDepth ≤ budget) :
    ∃ f reachable unreachable,
      (n.flow budget).1 = .ok f ∧ f.breadthFirst = .ok (reachable, unreachable) ∧
      ∀ budget' bindings,
        ((evaluateTraced budget' n bindings).1 = evaluate budget' n bindings ∧
          (evaluateTraced budget' n bindings).2 <+: reachable ∧
          ∀ v, evaluate budget' n bindings = .ok v →
            (evaluateTraced budget' n bindings).2 = reachable) ∧
        ∀ s ∈ unreachable,
          (∀ t ∈ (evaluateTraced budget' n bindings).2, (t == s) = false) ∧
          ∀ (value : Node) (e : Evaluator),
            e.evaluate budget' (replaceValue s.id value n) bindings =
              e.evaluate budget' n bindings := by
  have hflow := flow_fst hn budget
  rw [if_neg (Nat.not_lt.mpr hb)] at hflow
  -- the search finds the statements up to the first return, whatever is bound
  refine ⟨_, _, _, hflow, (ofStatements_follows hn).search, fun budget' bindings => ?_⟩
  obtain ⟨hbefore, hall⟩ := evaluateTraced_snd hw budget' bindings
  refine ⟨⟨evaluateTraced_fst budget' n bindings, hbefore, hall⟩, fun s hs => ⟨?_, ?_⟩⟩
  · exact fun t ht => ne_of_mem_afterReturn hn (hbefore.subset ht) hs
  · refine fun value e => e.evaluate_replaceValue budget' hw (fun t ht => ?_) value bindings
    have hne := ne_of_mem_afterReturn hn ht hs
    rwa [beq_eq, beq_eq_false_iff_ne] at hne

/-- A return in an inner block with an assignment after it, which fails whenever it runs. -/
theorem flow_predicts_evaluation_past_inner_return :
    ∃ f reachable unreachable,
      ((block ⟨0, none⟩ ⟨0, none, 0, .empty⟩
        [.assign ⟨1, none⟩ ⟨2, none⟩ "x" (.literal ⟨3, none⟩ (.int 1)),
          .block ⟨4, none⟩ ⟨1, some 0, 1, .empty⟩ [.ret ⟨5, none⟩ (.var ⟨6, none⟩ "x")],
          .assign ⟨7, none⟩ ⟨8, none⟩ "y" (.var ⟨9, none⟩ "z")]).flow 10).1 = .ok f ∧
      f.breadthFirst = .ok (reachable, unreachable) ∧
      (evaluateTraced 10
        (block ⟨0, none⟩ ⟨0, none, 0, .empty⟩
          [.assign ⟨1, none⟩ ⟨2, none⟩ "x" (.literal ⟨3, none⟩ (.int 1)),
            .block ⟨4, none⟩ ⟨1, some 0, 1, .empty⟩ [.ret ⟨5, none⟩ (.var ⟨6, none⟩ "x")],
            .assign ⟨7, none⟩ ⟨8, none⟩ "y" (.var ⟨9, none⟩ "z")]) []).2 = reachable := by
  obtain ⟨f, reachable, unreachable, hf, hsearch, hruns⟩ :=
    flow_predicts_evaluation
      (n := .block ⟨0, none⟩ ⟨0, none, 0, .empty⟩
        [.assign ⟨1, none⟩ ⟨2, none⟩ "x" (.literal ⟨3, none⟩ (.int 1)),
          .block ⟨4, none⟩ ⟨1, some 0, 1, .empty⟩ [.ret ⟨5, none⟩ (.var ⟨6, none⟩ "x")],
          .assign ⟨7, none⟩ ⟨8, none⟩ "y" (.var ⟨9, none⟩ "z")])
      (by decide) (by decide) (show _ ≤ 10 by decide)
  exact ⟨f, reachable, unreachable, hf, hsearch, (hruns 10 []).1.2.2 (.number (.int 1)) (by rfl)⟩

end Node

end Dec
