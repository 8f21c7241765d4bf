import Dec.Proofs.Evaluation.Trace

namespace Dec

namespace Node

mutual

def replaceValue (id : Nat) (value : Node) : Node → Node
  | literal tag v => literal tag v
  | var tag name => var tag name
  | binary tag op left right => binary tag op left right
  | assign tag target name old => assign tag target name (if tag.id = id then value else old)
  | ret tag old => ret tag (if tag.id = id then value else old)
  | block tag table body => block tag table (replaceValues id value body)

def replaceValues (id : Nat) (value : Node) : List Node → List Node
  | [] => []
  | n :: rest => replaceValue id value n :: replaceValues id value rest

end

section Unreached

variable {id : Nat} {value : Node}

theorem location_replaceValue (n : Node) : (replaceValue id value n).location = n.location := by
  cases n <;> rfl

theorem isEmpty_replaceValues (body : List Node) :
    (replaceValues id value body).isEmpty = body.isEmpty := by
  cases body <;> rfl

variable (whole : Option Location)

/-- A run that ends raised the flag just when the tree has a return. -/
theorem eval_returning_eq {n : Node} (hn : n.wellPlaced = true) {budget : Nat} {r r' : EvalState}
    (hr : r.returning = false) {v : Scalar} (h : n.eval whole budget r = (.ok v, r')) :
    r'.returning = n.statements.any isReturn := by
  have hruns := evalTraced_runsThrough whole n hn budget (s := ⟨r, []⟩) hr
  have huntraced := untraced_evalTraced whole n budget ⟨r, []⟩
  rw [h] at huntraced
  generalize n.evalTraced whole budget ⟨r, []⟩ = run at hruns huntraced
  cases hruns with
  | failed => cases huntraced
  | ended ht hreturning =>
    obtain rfl : _ = r' := congrArg Prod.snd huntraced
    exact hreturning

mutual

/-- A run does not depend on the expression of a statement that is not there up to the first
return. -/
theorem eval_replaceValue (n : Node) (hn : n.wellPlaced = true)
    (hid : ∀ s ∈ upToReturn n.statements, s.id ≠ id) (budget : Nat) {r : EvalState}
    (hr : r.returning = false) :
    (replaceValue id value n).eval whole budget r = n.eval whole budget r := by
  cases n with
  | literal => rfl
  | var => rfl
  | binary => rfl
  | assign tag target name old =>
    have hne : tag.id ≠ id := hid _ List.mem_cons_self
    rw [replaceValue, if_neg hne]
  | ret tag old =>
    have hne : tag.id ≠ id := hid _ List.mem_cons_self
    rw [replaceValue, if_neg hne]
  | block tag table body =>
    rw [replaceValue, eval_block, eval_block, isEmpty_replaceValues]
    rw [evalBody_replaceValues body hn hid (budget - blockCost) tag.location
      (r := r.enter.report (.entered tag.location r.enter.scopes.depth)) hr]

theorem evalBody_replaceValues (body : List Node) (hn : allWellPlaced body = true)
    (hid : ∀ s ∈ upToReturn (allStatements body), s.id ≠ id) (budget : Nat)
    (place : Option Location) {r : EvalState} (hr : r.returning = false) :
    evalBody whole budget place r (replaceValues id value body) =
      evalBody whole budget place r body := by
  match body with
  | [] => rfl
  | [n] =>
    rw [allWellPlaced, Bool.and_eq_true] at hn
    rw [allStatements, allStatements, List.append_nil] at hid
    exact eval_replaceValue n hn.1 hid budget hr
  | n :: next :: rest =>
    rw [allWellPlaced, Bool.and_eq_true] at hn
    rw [allStatements] at hid
    have hfirst := eval_replaceValue n hn.1
      (fun s hs => hid s ((upToReturn_prefix_append _).subset hs)) budget hr
    rw [replaceValues, replaceValues, evalBody_cons, evalBody_cons, hfirst, ← replaceValues]
    refine goOn_congr fun v s hrun => ?_
    -- the rest runs only when the first node has no return
    split
    · rfl
    · rename_i hreturning
      rw [Bool.not_eq_true] at hreturning
      have hany := (eval_returning_eq whole hn.1 hr hrun).symm.trans hreturning
      rw [upToReturn_append_of_any_eq_false _ hany] at hid
      exact evalBody_replaceValues (next :: rest) hn.2
        (fun t ht => hid t (List.mem_append_right _ ht)) budget place hreturning

end

end Unreached

end Node

/-- An evaluator gives the same value and the same reports with another expression in a statement
that is not there up to the first return. -/
theorem Evaluator.evaluate_replaceValue (budget : Nat) (e : Evaluator) {n : Node}
    (hn : n.wellPlaced = true) {id : Nat} (hid : ∀ s ∈ Node.upToReturn n.statements, s.id ≠ id)
    (value : Node)
    (bindings : List (String × Option Scalar)) :
    e.evaluate budget (Node.replaceValue id value n) bindings = e.evaluate budget n bindings := by
  have heval : (Node.replaceValue id value n).eval n.location budget
      (e.initial bindings) = n.eval n.location budget (e.initial bindings) :=
    Node.eval_replaceValue n.location n hn hid budget rfl
  rw [Evaluator.evaluate, Evaluator.evaluate, Node.location_replaceValue, heval]

end Dec
