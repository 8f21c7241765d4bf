import Dec.Proofs.Evaluation.Rules
import Dec.Proofs.Evaluation.Run

/-!
The flag does what the rules say of returns. A run starts with the flag down, whatever the runs
before it did, and is up just when a return ended it, so a run that does not go too deep ends as the
rules say.
-/
namespace Dec

inductive ExpressionRun (n : Node) (r : EvalState) :
    Except EvalFault Scalar × EvalState → Prop where
  | value {v : Scalar} (h : n.Yields r.scopes (.ok v)) : ExpressionRun n r (.ok v, r)
  | fault {fault : EvalFault} (h : n.Yields r.scopes (.error fault)) :
      ExpressionRun n r (.error fault, r)
  | tooDeep (l : Option Location) : ExpressionRun n r (.error (.tooDeep l), r)

/-- What a run may come to that starts with the flag down: one of the outcomes that are allowed,
with the flag up just after a return, or that it goes too deep. -/
inductive GoesBy (allowed : Outcome → Prop) : Except EvalFault Scalar × EvalState → Prop where
  | normal {v : Scalar} {r : EvalState} (h : allowed (.ok (.normal v, r.scopes)))
      (hr : r.returning = false) : GoesBy allowed (.ok v, r)
  | returned {v : Scalar} {r : EvalState} (h : allowed (.ok (.returned v, r.scopes)))
      (hr : r.returning = true) : GoesBy allowed (.ok v, r)
  | failed {fault : EvalFault} {r : EvalState} (h : allowed (.error fault))
      (hr : r.returning = false) : GoesBy allowed (.error fault, r)
  | tooDeep {l : Option Location} {r : EvalState} (hr : r.returning = false) :
      GoesBy allowed (.error (.tooDeep l), r)

theorem GoesBy.mono {allowed allowed' : Outcome → Prop} {run : Except EvalFault Scalar × EvalState}
    (h : GoesBy allowed run) (himp : ∀ outcome, allowed outcome → allowed' outcome) :
    GoesBy allowed' run := by
  cases h with
  | normal h hr => exact .normal (himp _ h) hr
  | returned h hr => exact .returned (himp _ h) hr
  | failed h hr => exact .failed (himp _ h) hr
  | tooDeep hr => exact .tooDeep hr

namespace Node

variable (whole : Option Location)

theorem eval_expressionRun (n : Node) (hn : n.isExpression = true) (budget : Nat) (r : EvalState) :
    ExpressionRun n r (n.eval whole budget r) := by
  cases n with
  | literal tag value => exact .value (.literal tag value)
  | var tag name =>
    rw [eval]
    split
    · rename_i v hv
      exact .value (.var hv)
    · rename_i hv
      exact .fault (.unbound hv)
  | binary tag op left right =>
    rw [isExpression, Bool.and_eq_true] at hn
    have hl := eval_expressionRun left hn.1 (budget - evalCost op) r
    have hr := eval_expressionRun right hn.2 (budget - evalCost op) r
    rw [eval_binary]
    split
    · exact .tooDeep whole
    · generalize left.eval whole (budget - evalCost op) r = run at hl ⊢
      cases hl with
      | tooDeep l => exact .tooDeep l
      | fault hl => exact .fault (.leftFault hl)
      | value hl =>
        rw [goOn]
        generalize right.eval whole (budget - evalCost op) r = run at hr ⊢
        cases hr with
        | tooDeep l => exact .tooDeep l
        | fault hr => exact .fault (.rightFault hl hr)
        | value hr =>
          have hop : (binary tag op left right).Yields r.scopes _ := .binary hl hr
          rw [goOn]
          generalize (op.apply tag.location _ _).map Scalar.number = result at hop ⊢
          cases result with
          | error fault => exact .fault hop
          | ok v => exact .value hop
  | assign => cases hn
  | ret => cases hn
  | block => cases hn

/-- An expression that stands for itself ends in the ordinary way. -/
theorem eval_goesBy_of_isExpression {n : Node} (hn : n.isExpression = true) (budget : Nat)
    {r : EvalState} (hr : r.returning = false) :
    GoesBy (n.Ends r.scopes) (n.eval whole budget r) := by
  have hrun := eval_expressionRun whole n hn budget r
  generalize n.eval whole budget r = run at hrun
  cases hrun with
  | value h => exact .normal (.expression h) hr
  | fault h => exact .failed (.expression h) hr
  | tooDeep => exact .tooDeep hr

mutual

/-- A run that starts with the flag down goes by the rules. -/
theorem eval_goesBy (n : Node) (hn : n.wellPlaced = true) (budget : Nat) {r : EvalState}
    (hr : r.returning = false) : GoesBy (n.Ends r.scopes) (n.eval whole budget r) := by
  cases n with
  | literal => exact eval_goesBy_of_isExpression whole rfl budget hr
  | var => exact eval_goesBy_of_isExpression whole rfl budget hr
  | binary tag op left right =>
    rw [wellPlaced] at hn
    exact eval_goesBy_of_isExpression whole (by rw [isExpression, hn]) budget hr
  | assign tag target name value =>
    have hv := eval_expressionRun whole value hn (budget - statementCost) r
    rw [eval_assign]
    split
    · exact .tooDeep hr
    · generalize value.eval whole (budget - statementCost) r = run at hv ⊢
      cases hv with
      | value hv => exact .normal (.assign hv) hr
      | fault hv => exact .failed (.assign hv) hr
      | tooDeep => exact .tooDeep hr
  | ret tag value =>
    have hv := eval_expressionRun whole value hn (budget - statementCost) r
    rw [eval_ret]
    split
    · exact .tooDeep hr
    · generalize value.eval whole (budget - statementCost) r = run at hv ⊢
      cases hv with
      | value hv => exact .returned (.ret hv) rfl
      | fault hv => exact .failed (.ret hv) hr
      | tooDeep => exact .tooDeep hr
  | block tag table body =>
    rw [eval_block]
    split
    · rename_i hempty
      obtain rfl := List.isEmpty_iff.mp hempty
      exact .failed .emptyBlock hr
    · rename_i hempty
      split
      · exact .tooDeep hr
      · have hne : body ≠ [] := fun h => hempty (List.isEmpty_iff.mpr h)
        have hbody := evalBody_goesBy body hne hn (budget - blockCost) tag.location
          (r := r.enter.report (.entered tag.location r.enter.scopes.depth)) hr
        generalize evalBody whole (budget - blockCost) tag.location
          (r.enter.report (.entered tag.location r.enter.scopes.depth)) body = run at hbody ⊢
        -- the block drops its scope and leaves the flag as its statements left it
        cases hbody with
        | normal h hr => exact .normal (.block h) hr
        | returned h hr => exact .returned (.block h) hr
        | failed h hr => exact .failed (.block h) hr
        | tooDeep hr => exact .tooDeep hr

theorem evalBody_goesBy (body : List Node) (hne : body ≠ []) (hn : allWellPlaced body = true)
    (budget : Nat) (place : Option Location) {r : EvalState} (hr : r.returning = false) :
    GoesBy (EndsAll r.scopes body) (evalBody whole budget place r body) := by
  match body with
  | [] => exact absurd rfl hne
  | [n] =>
    rw [allWellPlaced, Bool.and_eq_true] at hn
    rw [evalBody]
    exact (eval_goesBy n hn.1 budget hr).mono fun _ h => .last h
  | n :: next :: rest =>
    rw [allWellPlaced, Bool.and_eq_true] at hn
    have hfirst := eval_goesBy n hn.1 budget hr
    rw [evalBody_cons]
    generalize n.eval whole budget r = run at hfirst ⊢
    cases hfirst with
    -- the flag is down, so the next statement runs as the first one did
    | normal h hr =>
      rw [goOn, hr, if_neg Bool.false_ne_true]
      exact (evalBody_goesBy (next :: rest) (List.cons_ne_nil _ _) hn.2 budget place hr).mono
        fun _ hrest => .normal h hrest
    | returned h hr =>
      rw [goOn, if_pos hr]
      exact .returned (.returned h) hr
    | failed h hr => exact .failed (.fault h) hr
    | tooDeep hr => exact .tooDeep hr

end

section Depth

mutual

def evalDepth : Node → Nat
  | literal .. => 0
  | var .. => 0
  | binary _ op left right => max left.evalDepth right.evalDepth + evalCost op
  | assign _ _ _ value => value.evalDepth + statementCost
  | ret _ value => value.evalDepth + statementCost
  | block _ _ body => maxEvalDepth body + blockCost

def maxEvalDepth : List Node → Nat
  | [] => 0
  | n :: rest => max n.evalDepth (maxEvalDepth rest)

end

mutual

/-- A run that is given at least the depth of a tree does not go too deep. -/
theorem eval_ne_tooDeep (n : Node) {budget : Nat} (hb : n.evalDepth ≤ budget) (r : EvalState)
    (l : Option Location) : (n.eval whole budget r).1 ≠ .error (.tooDeep l) := by
  cases n with
  | literal tag value => simp [eval]
  | var tag name =>
    rw [eval]
    split <;> simp
  | binary tag op left right =>
    rw [evalDepth] at hb
    rw [eval_binary, if_neg (by omega)]
    refine goOn_ne_error (eval_ne_tooDeep left (by omega) r l) fun a s => ?_
    refine goOn_ne_error (eval_ne_tooDeep right (by omega) s l) fun b s' => ?_
    have hop := op.apply_ne_tooDeep tag.location a b l
    rcases hresult : op.apply tag.location a b with fault | v
    · rw [hresult] at hop
      simpa [Except.map] using hop
    · simp [Except.map]
  | assign tag target name value =>
    rw [evalDepth] at hb
    rw [eval_assign, if_neg (by omega)]
    exact goOn_ne_error (eval_ne_tooDeep value (by omega) r l) fun v s => by simp
  | ret tag value =>
    rw [evalDepth] at hb
    rw [eval_ret, if_neg (by omega)]
    exact goOn_ne_error (eval_ne_tooDeep value (by omega) r l) fun v s => by simp
  | block tag table body =>
    rw [evalDepth] at hb
    rw [eval_block]
    split
    · simp
    · rw [if_neg (by omega)]
      exact goOn_ne_error (evalBody_ne_tooDeep body (by omega) tag.location _ l)
        fun v s => by simp

theorem evalBody_ne_tooDeep (body : List Node) {budget : Nat} (hb : maxEvalDepth body ≤ budget)
    (place : Option Location) (r : EvalState) (l : Option Location) :
    (evalBody whole budget place r body).1 ≠ .error (.tooDeep l) := by
  match body with
  | [] => simp [evalBody]
  | [n] =>
    rw [maxEvalDepth] at hb
    exact eval_ne_tooDeep n (by omega) r l
  | n :: next :: rest =>
    rw [maxEvalDepth] at hb
    rw [evalBody_cons]
    refine goOn_ne_error (eval_ne_tooDeep n (by omega) r l) fun v s => ?_
    split
    · simp
    · exact evalBody_ne_tooDeep (next :: rest) (by omega) place s l

end

end Depth

end Node

namespace Evaluator

/-- An evaluator keeps the result and the flag of the run. -/
theorem evaluate_run (budget : Nat) (e : Evaluator) (n : Node)
    (bindings : List (String × Option Scalar)) :
    (e.evaluate budget n bindings).1 =
        (n.eval n.location budget (e.initial bindings)).1 ∧
      (e.evaluate budget n bindings).2.1.returning =
        (n.eval n.location budget (e.initial bindings)).2.returning := by
  rw [evaluate]
  rcases n.eval n.location budget (e.initial bindings) with ⟨fault | v, r⟩
  · exact ⟨rfl, rfl⟩
  · exact ⟨rfl, rfl⟩

/-- An evaluator goes by the rules, whatever it did before. A tree that is not too deep is evaluated
to the end. Unless it goes too deep, the result is the one that the rules give to the tree in the
scope of the given names, and afterwards the flag is up just when the rules end the tree with a
return. -/
theorem evaluate_goes_by_rules (budget : Nat) (e : Evaluator) {n : Node} (hn : n.wellPlaced = true)
    (bindings : List (String × Option Scalar)) :
    (n.evalDepth ≤ budget → ∀ l, (e.evaluate budget n bindings).1 ≠ .error (.tooDeep l)) ∧
    ((∀ l, (e.evaluate budget n bindings).1 ≠ .error (.tooDeep l)) →
      (∀ result, (e.evaluate budget n bindings).1 = result ↔
        ∃ outcome, n.Ends [.ofPairs bindings] outcome ∧ outcome.result = result) ∧
      ((e.evaluate budget n bindings).2.1.returning = true ↔
        ∃ v c, n.Ends [.ofPairs bindings] (.ok (.returned v, c)))) := by
  obtain ⟨hresult, hflag⟩ := e.evaluate_run budget n bindings
  have hrun := n.eval_goesBy n.location hn budget (r := e.initial bindings) rfl
  rw [hresult, hflag]
  refine ⟨fun hdepth => n.eval_ne_tooDeep n.location hdepth _, fun hlimit => ?_⟩
  generalize n.eval n.location budget (e.initial bindings) = run at hrun hlimit ⊢
  -- the rules leave one outcome, so a run that has it has no other
  have settle {outcome : Outcome} (h : n.Ends [.ofPairs bindings] outcome)
      (result : Except EvalFault Scalar) : outcome.result = result ↔
        ∃ outcome, n.Ends [.ofPairs bindings] outcome ∧ outcome.result = result := by
    refine ⟨fun hr => ⟨outcome, h, hr⟩, ?_⟩
    rintro ⟨outcome', h', hr⟩
    rw [h.unique h', hr]
  cases hrun with
  | normal h hr =>
    refine ⟨settle h, iff_of_false (by simp [hr]) ?_⟩
    rintro ⟨v, c, hreturned⟩
    cases h.unique hreturned
  | returned h hr => exact ⟨settle h, iff_of_true hr ⟨_, _, h⟩⟩
  | failed h hr =>
    refine ⟨settle h, iff_of_false (by simp [hr]) ?_⟩
    rintro ⟨v, c, hreturned⟩
    cases h.unique hreturned
  | tooDeep => exact absurd rfl (hlimit _)

/-- A block whose inner block returns, on an evaluator that a return left with the flag up. -/
theorem evaluate_goes_by_rules_inner_return :
    ∃ c, Node.Ends [.ofPairs [("z", some (.number (.int 2)))]]
      (.block ⟨0, none⟩ ⟨0, none, 0, .empty⟩
        [.assign ⟨1, none⟩ ⟨2, none⟩ "x" (.var ⟨3, none⟩ "z"),
          .block ⟨4, none⟩ ⟨1, some 0, 1, .empty⟩
            [.ret ⟨5, none⟩ (.binary ⟨6, none⟩ .plus (.var ⟨7, none⟩ "x")
              (.literal ⟨8, none⟩ (.int 1)))],
          .ret ⟨9, none⟩ (.var ⟨10, none⟩ "y")])
      (.ok (.returned (.number (.int 3)), c)) := by
  let n : Node := .block ⟨0, none⟩ ⟨0, none, 0, .empty⟩
    [.assign ⟨1, none⟩ ⟨2, none⟩ "x" (.var ⟨3, none⟩ "z"),
      .block ⟨4, none⟩ ⟨1, some 0, 1, .empty⟩
        [.ret ⟨5, none⟩ (.binary ⟨6, none⟩ .plus (.var ⟨7, none⟩ "x")
          (.literal ⟨8, none⟩ (.int 1)))],
      .ret ⟨9, none⟩ (.var ⟨10, none⟩ "y")]
  obtain ⟨hends, hlimit⟩ := evaluate_goes_by_rules 10 ⟨true⟩ (n := n) (by decide)
    [("z", some (.number (.int 2)))]
  obtain ⟨hresult, hflag⟩ := hlimit (hends (by decide))
  obtain ⟨outcome, h, hthree⟩ := (hresult (.ok (.number (.int 3)))).mp rfl
  obtain ⟨v, c, hreturned⟩ := hflag.mp rfl
  obtain rfl := h.unique hreturned
  obtain rfl := Except.ok.inj hthree
  exact ⟨c, hreturned⟩

end Evaluator

end Dec
