import Dec.Proofs.Evaluation.Run
import Dec.Proofs.Tree.Statements

/-!
Runs that keep a trace: the evaluation as it is, which also writes down each assignment and return
when it enters it. Leaving the trace out gives the evaluation back. A run enters the statements of a
tree in the order of the text and none after the first return, so those after it may be changed.
-/
namespace Dec

structure TracedState where
  state : EvalState
  trace : List Node

namespace TracedState

def enterStatement (s : TracedState) (n : Node) : TracedState := { s with trace := s.trace ++ [n] }

def update (s : TracedState) (f : EvalState → EvalState) : TracedState :=
  { s with state := f s.state }

end TracedState

namespace Node

mutual

def evalTraced (whole : Option Location) (budget : Nat) (s : TracedState) :
    Node → Except EvalFault Scalar × TracedState
  | literal _ value => (.ok (.number value), s)
  | var tag name =>
    match s.state.scopes.find? name with
    | some (some value) => (.ok value, s)
    | _ => (.error (.unbound name tag.location), s)
  | binary tag op left right =>
    if budget < evalCost op then (.error (.tooDeep whole), s)
    else
      goOn (evalTraced whole (budget - evalCost op) s left) (fun s => s) fun a s =>
        goOn (evalTraced whole (budget - evalCost op) s right) (fun s => s) fun b s =>
          ((op.apply tag.location a b).map .number, s)
  | assign tag target name value =>
    let s := s.enterStatement (assign tag target name value)
    if budget < statementCost then (.error (.tooDeep whole), s)
    else
      goOn (evalTraced whole (budget - statementCost) s value) (fun s => s) fun v s =>
        (.ok v, s.update fun r => { r with scopes := r.scopes.define name (some v) })
  | ret tag value =>
    let s := s.enterStatement (ret tag value)
    if budget < statementCost then (.error (.tooDeep whole), s)
    else
      goOn (evalTraced whole (budget - statementCost) s value) (fun s => s) fun v s =>
        (.ok v, s.update fun r =>
          { r with returning := true }.report (.returned v tag.location))
  | block tag _ body =>
    if body.isEmpty then (.error (.emptyBlock tag.location), s)
    else if budget < blockCost then (.error (.tooDeep whole), s)
    else
      let inside := s.update fun r => r.enter.report (.entered tag.location r.enter.scopes.depth)
      goOn (evalBodyTraced whole (budget - blockCost) tag.location inside body)
        (fun s => s.update EvalState.leave) fun v s =>
          (.ok v, s.update fun r => (r.report (.left tag.location (r.scopes.headD .empty))).leave)

def evalBodyTraced (whole : Option Location) (budget : Nat) (place : Option Location)
    (s : TracedState) : List Node → Except EvalFault Scalar × TracedState
  | [] => (.error (.emptyBlock place), s)
  | [n] => evalTraced whole budget s n
  | n :: next :: rest =>
    goOn (evalTraced whole budget s n) (fun s => s) fun v s =>
      if s.state.returning then (.ok v, s) else evalBodyTraced whole budget place s (next :: rest)

end

end Node

def untraced (run : Except EvalFault Scalar × TracedState) : Except EvalFault Scalar × EvalState :=
  (run.1, run.2.state)

/-- The trace can be left out of each part of a run that goes on. -/
theorem untraced_goOn {run : Except EvalFault Scalar × TracedState}
    {run' : Except EvalFault Scalar × EvalState} {settle : TracedState → TracedState}
    {settle' : EvalState → EvalState}
    {next : Scalar → TracedState → Except EvalFault Scalar × TracedState}
    {next' : Scalar → EvalState → Except EvalFault Scalar × EvalState}
    (hrun : untraced run = run') (hs : ∀ s, (settle s).state = settle' s.state)
    (hn : ∀ v s, untraced (next v s) = next' v s.state) :
    untraced (goOn run settle next) = goOn run' settle' next' := by
  subst hrun
  rcases run with ⟨fault | v, s⟩
  · exact congrArg (Prod.mk _) (hs s)
  · exact hn v s

namespace Node

variable (whole : Option Location)

mutual

/-- A traced run without its trace is the evaluation. -/
theorem untraced_evalTraced (n : Node) (budget : Nat) (s : TracedState) :
    untraced (n.evalTraced whole budget s) = n.eval whole budget s.state := by
  cases n with
  | literal => rfl
  | var tag name =>
    rw [evalTraced, eval]
    rcases s.state.scopes.find? name with _ | _ | v <;> rfl
  | binary tag op left right =>
    rw [evalTraced, eval_binary]
    split
    · rfl
    · refine untraced_goOn (untraced_evalTraced left _ s) (fun _ => rfl) fun a s => ?_
      exact untraced_goOn (untraced_evalTraced right _ s) (fun _ => rfl) fun b s => rfl
  | assign tag target name value =>
    rw [evalTraced, eval_assign]
    split
    · rfl
    · exact untraced_goOn (untraced_evalTraced value _ _) (fun _ => rfl) fun v s => rfl
  | ret tag value =>
    rw [evalTraced, eval_ret]
    split
    · rfl
    · exact untraced_goOn (untraced_evalTraced value _ _) (fun _ => rfl) fun v s => rfl
  | block tag table body =>
    rw [evalTraced, eval_block]
    split
    · rfl
    · split
      · rfl
      · exact untraced_goOn (untraced_evalBodyTraced body _ _ _) (fun _ => rfl) fun v s => rfl

theorem untraced_evalBodyTraced (body : List Node) (budget : Nat) (place : Option Location)
    (s : TracedState) :
    untraced (evalBodyTraced whole budget place s body) =
      evalBody whole budget place s.state body := by
  match body with
  | [] => rfl
  | [n] =>
    rw [evalBodyTraced, evalBody]
    exact untraced_evalTraced n budget s
  | n :: next :: rest =>
    rw [evalBodyTraced, evalBody_cons]
    refine untraced_goOn (untraced_evalTraced n budget s) (fun _ => rfl) fun v s => ?_
    split
    · rfl
    · exact untraced_evalBodyTraced (next :: rest) budget place s

end

/-- Where a run that starts after some statements is to get with the statements of a tree: a run that
ends entered them up to the first return, and tells by its flag whether there was one; a run that
fails entered a beginning of these. -/
inductive RunsThrough (before sts : List Node) : Except EvalFault Scalar × TracedState → Prop
  | failed {fault : EvalFault} {s : TracedState} (entered : List Node)
      (ht : s.trace = before ++ entered) (he : entered <+: upToReturn sts) :
      RunsThrough before sts (.error fault, s)
  | ended {v : Scalar} {s : TracedState} (ht : s.trace = before ++ upToReturn sts)
      (hr : s.state.returning = sts.any isReturn) : RunsThrough before sts (.ok v, s)

/-- An expression enters no statement. -/
theorem evalTraced_snd_of_isExpression (n : Node) (hn : n.isExpression = true) (budget : Nat)
    (s : TracedState) : (n.evalTraced whole budget s).2 = s := by
  cases n with
  | literal => rfl
  | var tag name =>
    rw [evalTraced]
    rcases s.state.scopes.find? name with _ | _ | v <;> rfl
  | binary tag op left right =>
    rw [isExpression, Bool.and_eq_true] at hn
    have hl := evalTraced_snd_of_isExpression left hn.1 (budget - evalCost op) s
    have hr := evalTraced_snd_of_isExpression right hn.2 (budget - evalCost op) s
    rw [evalTraced]
    split
    · rfl
    · refine goOn_snd (· = s) (fun s' hs => hs.symm.trans hl) fun a s' ha => ?_
      have hs : s' = s := by rw [← hl, ha]
      rw [hs]
      refine goOn_snd (· = s) (fun s' hs => hs.symm.trans hr) fun b s' hb => ?_
      rw [← hr, hb]
  | assign => cases hn
  | ret => cases hn
  | block => cases hn

theorem RunsThrough.of_isExpression {n : Node} (hn : n.isExpression = true) (budget : Nat)
    {s : TracedState} (hr : s.state.returning = false) :
    RunsThrough s.trace [] (n.evalTraced whole budget s) := by
  have hs := evalTraced_snd_of_isExpression whole n hn budget s
  rcases hrun : n.evalTraced whole budget s with ⟨fault | v, s'⟩
  · rw [hrun] at hs
    obtain rfl : s' = s := hs
    exact .failed [] (List.append_nil _).symm (List.nil_prefix)
  · rw [hrun] at hs
    obtain rfl : s' = s := hs
    exact .ended (List.append_nil _).symm hr

/-- A statement is entered before its expression is evaluated, which enters nothing more. -/
theorem RunsThrough.of_statement {n value : Node} (hv : value.isExpression = true)
    (hn : upToReturn [n] = [n]) (budget : Nat) {s : TracedState}
    {f : Scalar → EvalState → EvalState}
    (hf : ∀ v, (f v s.state).returning = [n].any isReturn) :
    RunsThrough s.trace [n]
      (goOn (value.evalTraced whole budget (s.enterStatement n)) (fun s => s) fun v s =>
        (.ok v, s.update (f v))) := by
  have hs := evalTraced_snd_of_isExpression whole value hv budget (s.enterStatement n)
  rcases hrun : value.evalTraced whole budget (s.enterStatement n) with ⟨fault | v, s'⟩
  · rw [hrun] at hs
    obtain rfl : s' = s.enterStatement n := hs
    exact .failed [n] rfl (by rewrite [hn]; exact List.prefix_rfl)
  · rw [hrun] at hs
    obtain rfl : s' = s.enterStatement n := hs
    exact .ended (by rw [hn]; rfl) (hf v)

/-- What is done at the end of a block keeps the trace and the flag. -/
theorem RunsThrough.leave {before sts : List Node} {run : Except EvalFault Scalar × TracedState}
    (h : RunsThrough before sts run) (e : EvalState → EvalState) {f : EvalState → EvalState}
    (hf : ∀ r, (f r).returning = r.returning) :
    RunsThrough before sts
      (goOn run (fun s => s.update e) fun v s => (.ok v, s.update f)) := by
  cases h with
  | failed entered ht he => exact .failed entered ht he
  | ended ht hr => exact .ended ht ((hf _).trans hr)

mutual

/-- A run goes through the statements of a tree in the order of the text, up to the first return. -/
theorem evalTraced_runsThrough (n : Node) (hn : n.wellPlaced = true) (budget : Nat)
    {s : TracedState} (hr : s.state.returning = false) :
    RunsThrough s.trace n.statements (n.evalTraced whole budget s) := by
  cases n with
  | literal => exact .of_isExpression whole rfl budget hr
  | var => exact .of_isExpression whole rfl budget hr
  | binary tag op left right =>
    rw [wellPlaced] at hn
    exact .of_isExpression whole (by rw [isExpression, hn]) budget hr
  | assign tag target name value =>
    rw [evalTraced]
    split
    · exact .failed [assign tag target name value] rfl List.prefix_rfl
    · exact .of_statement whole hn rfl _ fun v => hr
  | ret tag value =>
    rw [evalTraced]
    split
    · exact .failed [ret tag value] rfl List.prefix_rfl
    · exact .of_statement whole hn rfl _ fun v => rfl
  | block tag table body =>
    rw [evalTraced]
    split
    · exact .failed [] (List.append_nil _).symm List.nil_prefix
    · split
      · exact .failed [] (List.append_nil _).symm List.nil_prefix
      · have hbody := evalBodyTraced_runsThrough body hn (budget - blockCost) tag.location
          (s := s.update fun r => r.enter.report (.entered tag.location r.enter.scopes.depth)) hr
        exact hbody.leave _ fun r => rfl

theorem evalBodyTraced_runsThrough (body : List Node) (hn : allWellPlaced body = true)
    (budget : Nat) (place : Option Location) {s : TracedState}
    (hr : s.state.returning = false) :
    RunsThrough s.trace (allStatements body) (evalBodyTraced whole budget place s body) := by
  match body with
  | [] => exact .failed [] (List.append_nil _).symm List.nil_prefix
  | [n] =>
    rw [allWellPlaced, Bool.and_eq_true] at hn
    rw [allStatements, allStatements, List.append_nil, evalBodyTraced]
    exact evalTraced_runsThrough n hn.1 budget hr
  | n :: next :: rest =>
    rw [allWellPlaced, Bool.and_eq_true] at hn
    have h₁ := evalTraced_runsThrough n hn.1 budget hr
    rw [allStatements, evalBodyTraced]
    rcases hrun : n.evalTraced whole budget s with ⟨fault | v, s'⟩
    · rw [hrun] at h₁
      cases h₁ with
      | failed entered ht he => exact .failed entered ht (he.trans (upToReturn_prefix_append _))
    · rw [hrun] at h₁
      cases h₁ with
      | ended ht hr' =>
        rw [goOn]
        -- after a return the rest does not run
        split
        · rename_i hret
          rw [hret] at hr'
          refine .ended ?_ ?_
          · rw [ht, upToReturn_append_of_any _ hr'.symm]
          · rw [hret, List.any_append, ← hr', Bool.true_or]
        · rename_i hret
          rw [Bool.not_eq_true] at hret
          rw [hret] at hr'
          rw [upToReturn_of_any_eq_false hr'.symm] at ht
          have h₂ := evalBodyTraced_runsThrough (next :: rest) hn.2 budget place hret
          rw [ht] at h₂
          generalize evalBodyTraced whole budget place s' (next :: rest) = run at h₂
          cases h₂ with
          | failed entered ht' he =>
            refine .failed _ (by rw [ht', List.append_assoc]) ?_
            rw [upToReturn_append_of_any_eq_false _ hr'.symm]
            exact List.prefix_append_right_inj _ |>.mpr he
          | ended ht' hr'' =>
            refine .ended ?_ ?_
            · rw [ht', upToReturn_append_of_any_eq_false _ hr'.symm, List.append_assoc]
            · rw [hr'', List.any_append, ← hr', Bool.false_or]

end

end Node

end Dec
