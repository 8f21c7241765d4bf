import Dec.Evaluation.Run
import Dec.Proofs.Evaluation.Operators
import Dec.Proofs.Tree.Shape
import Dec.Proofs.Tree.Walk

namespace Dec.Node

section Equations

variable (whole : Option Location) (budget : Nat) (r : EvalState)

theorem eval_binary (tag : Tag) (op : BinaryOp) (left right : Node) :
    (binary tag op left right).eval whole budget r =
      if budget < evalCost op then (.error (.tooDeep whole), r)
      else goOn (left.eval whole (budget - evalCost op) r) (fun r => r) fun a r =>
        goOn (right.eval whole (budget - evalCost op) r) (fun r => r) fun b r =>
          ((op.apply tag.location a b).map .number, r) := by
  rw [eval]
  congr 1
  rcases left.eval whole (budget - evalCost op) r with ⟨fault | a, r⟩
  · rfl
  · simp only [goOn]
    rcases right.eval whole (budget - evalCost op) r with ⟨fault | b, r⟩ <;> rfl

theorem eval_assign (tag target : Tag) (name : String) (value : Node) :
    (assign tag target name value).eval whole budget r =
      if budget < statementCost then (.error (.tooDeep whole), r)
      else goOn (value.eval whole (budget - statementCost) r) (fun r => r) fun v r =>
        (.ok v, { r with scopes := r.scopes.define name (some v) }) := by
  rw [eval]
  congr 1
  rcases value.eval whole (budget - statementCost) r with ⟨fault | v, r⟩ <;> rfl

theorem eval_ret (tag : Tag) (value : Node) :
    (ret tag value).eval whole budget r =
      if budget < statementCost then (.error (.tooDeep whole), r)
      else goOn (value.eval whole (budget - statementCost) r) (fun r => r) fun v r =>
        (.ok v, { r with returning := true }.report (.returned v tag.location)) := by
  rw [eval]
  congr 1
  rcases value.eval whole (budget - statementCost) r with ⟨fault | v, r⟩ <;> rfl

theorem eval_block (tag : Tag) (table : Table) (body : List Node) :
    (block tag table body).eval whole budget r =
      if body.isEmpty then (.error (.emptyBlock tag.location), r)
      else if budget < blockCost then (.error (.tooDeep whole), r)
      else goOn (evalBody whole (budget - blockCost) tag.location
          (r.enter.report (.entered tag.location r.enter.scopes.depth)) body)
        EvalState.leave fun v r =>
          (.ok v, (r.report (.left tag.location (r.scopes.headD .empty))).leave) := by
  rw [eval]
  congr 2
  dsimp only
  rcases evalBody whole (budget - blockCost) tag.location
    (r.enter.report (.entered tag.location r.enter.scopes.depth)) body with ⟨fault | v, r⟩ <;> rfl

theorem evalBody_cons (place : Option Location) (n next : Node) (rest : List Node) :
    evalBody whole budget place r (n :: next :: rest) =
      goOn (n.eval whole budget r) (fun r => r) fun v r =>
        if r.returning then (.ok v, r) else evalBody whole budget place r (next :: rest) := by
  rw [evalBody]
  rcases n.eval whole budget r with ⟨fault | v, r⟩ <;> rfl

end Equations

/-- An expression changes nothing. -/
theorem eval_state_of_isExpression (n : Node) (hn : n.isExpression = true)
    (whole : Option Location) (budget : Nat) (r : EvalState) : (n.eval whole budget r).2 = r := by
  cases n with
  | literal tag value => rfl
  | var tag name =>
    rw [eval]
    split <;> rfl
  | binary tag op left right =>
    rw [isExpression, Bool.and_eq_true] at hn
    have hl := eval_state_of_isExpression left hn.1 whole (budget - evalCost op) r
    have hr := eval_state_of_isExpression right hn.2 whole (budget - evalCost op) r
    rw [eval_binary]
    split
    · rfl
    -- the right operand starts from the state that the left one left, which is the first one
    · refine goOn_snd (· = r) ?_ ?_
      · exact fun s hs => hs.symm.trans hl
      · intro a s ha
        have hs : s = r := by rw [← hl, ha]
        rw [hs]
        refine goOn_snd (· = r) ?_ ?_
        · exact fun s' hs => hs.symm.trans hr
        · intro b s' hb
          rw [← hr, hb]
  | assign => cases hn
  | ret => cases hn
  | block => cases hn

mutual

/-- A tree without returns leaves the flag as it is. -/
theorem eval_returning_of_returnFree (n : Node) (hn : n.returnFree = true)
    (whole : Option Location) (budget : Nat) (r : EvalState) :
    (n.eval whole budget r).2.returning = r.returning := by
  cases n with
  | literal tag value => rfl
  | var tag name =>
    rw [eval]
    split <;> rfl
  | binary tag op left right =>
    rw [returnFree, Bool.and_eq_true] at hn
    have hl := eval_returning_of_returnFree left hn.1 whole (budget - evalCost op) r
    rw [eval_binary]
    split
    · rfl
    · refine goOn_snd (EvalState.returning · = r.returning) ?_ ?_
      · rintro s rfl
        exact hl
      · intro a s ha
        rw [ha] at hl
        have hr := eval_returning_of_returnFree right hn.2 whole (budget - evalCost op) s
        refine goOn_snd (EvalState.returning · = r.returning) ?_ ?_
        · rintro s' rfl
          exact hr.trans hl
        · intro b s' hb
          rw [hb] at hr
          exact hr.trans hl
  | assign tag target name value =>
    have hv := eval_returning_of_returnFree value hn whole (budget - statementCost) r
    rw [eval_assign]
    split
    · rfl
    · refine goOn_snd (EvalState.returning · = r.returning) ?_ ?_
      · rintro s rfl
        exact hv
      · intro v s hs
        rwa [hs] at hv
  | ret => cases hn
  | block tag table body =>
    rw [eval_block]
    split
    · rfl
    · split
      · rfl
      · have hb := evalBody_returning_of_returnFree body hn whole (budget - blockCost) tag.location
          (r.enter.report (.entered tag.location r.enter.scopes.depth))
        refine goOn_snd (EvalState.returning · = r.returning) ?_ ?_
        · rintro s rfl
          exact hb
        · intro v s hs
          rwa [hs] at hb

theorem evalBody_returning_of_returnFree (body : List Node) (hn : allReturnFree body = true)
    (whole : Option Location) (budget : Nat) (place : Option Location) (r : EvalState) :
    (evalBody whole budget place r body).2.returning = r.returning := by
  match body with
  | [] => rfl
  | [n] =>
    rw [allReturnFree, Bool.and_eq_true] at hn
    exact eval_returning_of_returnFree n hn.1 whole budget r
  | n :: next :: rest =>
    rw [allReturnFree, Bool.and_eq_true] at hn
    have h₁ := eval_returning_of_returnFree n hn.1 whole budget r
    rw [evalBody_cons]
    refine goOn_snd (EvalState.returning · = r.returning) ?_ ?_
    · rintro s rfl
      exact h₁
    · intro v s hs
      rw [hs] at h₁
      split
      · exact h₁
      · exact (evalBody_returning_of_returnFree (next :: rest) hn.2 whole budget place s).trans h₁

end

end Dec.Node
