import Dec.Proofs.Evaluation.Run
import Dec.Proofs.Scope.Lookup
import Dec.Proofs.Tree.Numbers

/-!
Evaluations with a handling of their own: how faults are raised, what operators do and what is stored
is left open. A handling that does what the language does on values with a property, unless it halts,
makes the same of every tree whose numbers have the property, and all values that come up have it too.
-/
namespace Dec

structure Handling (ε : Type) where
  raise : EvalFault → ε
  apply : BinaryOp → Option Location → Scalar → Scalar → Except ε Number
  store : String → Scalar → Except ε Scalar

variable {ε : Type}

namespace Node

mutual

def evalHandled (h : Handling ε) (whole : Option Location) (budget : Nat) (r : EvalState) :
    Node → Except ε Scalar × EvalState
  | literal _ value => (.ok (.number value), r)
  | var tag name =>
    match r.scopes.find? name with
    | some (some value) => (.ok value, r)
    | _ => (.error (h.raise (.unbound name tag.location)), r)
  | binary tag op left right =>
    if budget < evalCost op then (.error (h.raise (.tooDeep whole)), r)
    else
      goOn (evalHandled h whole (budget - evalCost op) r left) (fun r => r) fun a r =>
        goOn (evalHandled h whole (budget - evalCost op) r right) (fun r => r) fun b r =>
          ((h.apply op tag.location a b).map .number, r)
  | assign _ _ name value =>
    if budget < statementCost then (.error (h.raise (.tooDeep whole)), r)
    else
      goOn (evalHandled h whole (budget - statementCost) r value) (fun r => r) fun v r =>
        goOn (h.store name v, r) (fun r => r) fun v r =>
          (.ok v, { r with scopes := r.scopes.define name (some v) })
  | ret tag value =>
    if budget < statementCost then (.error (h.raise (.tooDeep whole)), r)
    else
      goOn (evalHandled h whole (budget - statementCost) r value) (fun r => r) fun v r =>
        (.ok v, { r with returning := true }.report (.returned v tag.location))
  | block tag _ body =>
    if body.isEmpty then (.error (h.raise (.emptyBlock tag.location)), r)
    else if budget < blockCost then (.error (h.raise (.tooDeep whole)), r)
    else
      goOn (evalBodyHandled h whole (budget - blockCost) tag.location
          (r.enter.report (.entered tag.location r.enter.scopes.depth)) body)
        EvalState.leave fun v r =>
          (.ok v, (r.report (.left tag.location (r.scopes.headD .empty))).leave)

def evalBodyHandled (h : Handling ε) (whole : Option Location) (budget : Nat)
    (place : Option Location) (r : EvalState) : List Node → Except ε Scalar × EvalState
  | [] => (.error (h.raise (.emptyBlock place)), r)
  | [n] => evalHandled h whole budget r n
  | n :: next :: rest =>
    goOn (evalHandled h whole budget r n) (fun r => r) fun v r =>
      if r.returning then (.ok v, r) else evalBodyHandled h whole budget place r (next :: rest)

end

end Node

structure Promise where
  value : Scalar → Prop
  fault : EvalFault → Prop

def Promise.Kept (p : Promise) : Except EvalFault Scalar → Prop
  | .ok v => p.value v
  | .error fault => p.fault fault

namespace Handling

variable (h : Handling ε) (p : Promise) (halts : ε → Prop)

/-- On values as they are promised a handling does what the language does, unless it halts, and what
an operator then gives is as it is promised. So are the faults that do not come from operands. -/
structure Agrees : Prop where
  raise : ∀ fault, fault.isArithmetic = false → p.fault fault
  apply : ∀ op location a b, p.value a → p.value b →
    (∃ e, h.apply op location a b = .error e ∧ halts e) ∨
      h.apply op location a b = (op.apply location a b).mapError h.raise ∧
        p.Kept ((op.apply location a b).map .number)
  store : ∀ name v, p.value v → h.store name v = .ok v

/-- An evaluation under a handling halts, or it ends as the evaluation of the language does, with all
promises kept: with the fault as it is raised, or with the same value in the same scopes. -/
inductive Follows : Except ε Scalar × EvalState → Except EvalFault Scalar × EvalState → Prop where
  | halted {e : ε} (he : halts e) (r : EvalState) (run : Except EvalFault Scalar × EvalState) :
      Follows (.error e, r) run
  | fault {fault : EvalFault} (hf : p.fault fault) (r : EvalState) :
      Follows (.error (h.raise fault), r) (.error fault, r)
  | value {v : Scalar} {r : EvalState} (hv : p.value v) (hr : r.scopes.Holds p.value) :
      Follows (.ok v, r) (.ok v, r)

variable {h p halts}

theorem Follows.goOn {walk : Except ε Scalar × EvalState}
    {run : Except EvalFault Scalar × EvalState} (hw : h.Follows p halts walk run)
    {settle : EvalState → EvalState} {next : Scalar → EvalState → Except ε Scalar × EvalState}
    {next' : Scalar → EvalState → Except EvalFault Scalar × EvalState}
    (hn : ∀ v r, p.value v → r.scopes.Holds p.value → h.Follows p halts (next v r) (next' v r)) :
    h.Follows p halts (Dec.goOn walk settle next) (Dec.goOn run settle next') := by
  cases hw with
  | halted he r run => exact .halted he (settle r) _
  | fault hf r => exact .fault hf (settle r)
  | value hv hr => exact hn _ _ hv hr

/-- What an operator does to two values. -/
theorem Agrees.follows (ha : h.Agrees p halts) (op : BinaryOp) (location : Option Location)
    {a b : Scalar} (hx : p.value a) (hy : p.value b) {r : EvalState}
    (hr : r.scopes.Holds p.value) :
    h.Follows p halts ((h.apply op location a b).map .number, r)
      ((op.apply location a b).map .number, r) := by
  rcases ha.apply op location a b hx hy with ⟨e, he, hhalts⟩ | ⟨he, hkept⟩
  · rw [he]
    exact .halted hhalts r _
  · rw [he]
    rcases hop : op.apply location a b with fault | v
    · rw [hop] at hkept
      exact .fault hkept r
    · rw [hop] at hkept
      exact .value hkept hr

end Handling

namespace Node

open Handling

variable {h : Handling ε} {p : Promise} {halts : ε → Prop} (whole : Option Location)

mutual

/-- A tree whose numbers are as promised is evaluated as the language does, unless the handling halts. -/
theorem evalHandled_follows (ha : h.Agrees p halts) (n : Node)
    (hn : ∀ v ∈ n.numbers, p.value (.number v)) (budget : Nat) {r : EvalState}
    (hr : r.scopes.Holds p.value) :
    h.Follows p halts (n.evalHandled h whole budget r) (n.eval whole budget r) := by
  -- all scopes hold promised values between the steps, and each step keeps that or ends the run
  cases n with
  | literal tag value => exact .value (hn value (by simp [numbers])) hr
  | var tag name =>
    rw [evalHandled, eval]
    rcases hfound : r.scopes.find? name with _ | _ | v
    · exact .fault (ha.raise _ rfl) r
    · exact .fault (ha.raise _ rfl) r
    · exact .value (hr.of_find? hfound) hr
  | binary tag op left right =>
    obtain ⟨hl, hright⟩ := List.forall_mem_append.mp hn
    rw [evalHandled, eval_binary]
    split
    · exact .fault (ha.raise _ rfl) r
    · refine (evalHandled_follows ha left hl _ hr).goOn fun a r hx hr => ?_
      refine (evalHandled_follows ha right hright _ hr).goOn fun b r hy hr => ?_
      exact ha.follows op tag.location hx hy hr
  | assign tag target name value =>
    rw [evalHandled, eval_assign]
    split
    · exact .fault (ha.raise _ rfl) r
    · refine (evalHandled_follows ha value hn _ hr).goOn fun v r hv hr => ?_
      rw [ha.store name v hv]
      exact .value hv (hr.define hv)
  | ret tag value =>
    rw [evalHandled, eval_ret]
    split
    · exact .fault (ha.raise _ rfl) r
    · exact (evalHandled_follows ha value hn _ hr).goOn fun v r hv hr => .value hv hr
  | block tag table body =>
    rw [evalHandled, eval_block]
    split
    · exact .fault (ha.raise _ rfl) r
    · split
      · exact .fault (ha.raise _ rfl) r
      -- a block starts with nothing in its scope and leaves nothing of it behind
      · have hinside : Chain.Holds p.value
            (r.enter.report (.entered tag.location r.enter.scopes.depth)).scopes :=
          List.forall_mem_cons.mpr ⟨Bindings.holds_empty, hr⟩
        refine (evalBodyHandled_follows ha body hn _ _ hinside).goOn fun v r hv hr => .value hv ?_
        exact fun b hb => hr b (List.mem_of_mem_tail hb)

theorem evalBodyHandled_follows (ha : h.Agrees p halts) (body : List Node)
    (hn : ∀ v ∈ allNumbers body, p.value (.number v)) (budget : Nat) (place : Option Location)
    {r : EvalState} (hr : r.scopes.Holds p.value) :
    h.Follows p halts (evalBodyHandled h whole budget place r body)
      (evalBody whole budget place r body) := by
  match body with
  | [] => exact .fault (ha.raise _ rfl) r
  | [n] =>
    obtain ⟨hn, -⟩ := List.forall_mem_append.mp hn
    rw [evalBodyHandled, evalBody]
    exact evalHandled_follows ha n hn budget hr
  | n :: next :: rest =>
    obtain ⟨hn, hrest⟩ := List.forall_mem_append.mp hn
    rw [evalBodyHandled, evalBody_cons]
    refine (evalHandled_follows ha n hn budget hr).goOn fun v r hv hr => ?_
    split
    · exact .value hv hr
    · exact evalBodyHandled_follows ha (next :: rest) hrest budget place hr

end

end Node

def ofNumbers (bindings : List (String × Option Number)) : List (String × Option Scalar) :=
  bindings.map fun p => (p.1, p.2.map .number)

theorem mem_ofNumbers {bindings : List (String × Option Number)} {name : String} {v : Scalar}
    (h : (name, some v) ∈ ofNumbers bindings) : ∃ n, v = .number n ∧ (name, some n) ∈ bindings := by
  obtain ⟨⟨x, value⟩, hp, hpair⟩ := List.mem_map.mp h
  obtain ⟨rfl, hvalue⟩ := Prod.mk.inj hpair
  obtain ⟨n, rfl, rfl⟩ := Option.map_eq_some_iff.mp hvalue
  exact ⟨n, rfl, hp⟩

namespace Evaluator

def evaluateHandled (budget : Nat) (e : Evaluator) (h : Handling ε) (n : Node)
    (bindings : List (String × Option Scalar)) : Except ε Scalar :=
  (n.evalHandled h n.location budget (e.initial bindings)).1

/-- An evaluation under a handling halts or ends as that of the language, with all promises kept. -/
theorem evaluateHandled_follows {h : Handling ε} {p : Promise} {halts : ε → Prop}
    (ha : h.Agrees p halts) (budget : Nat) (e : Evaluator) {n : Node}
    (hn : ∀ v ∈ n.numbers, p.value (.number v))
    {bindings : List (String × Option Scalar)}
    (hb : ∀ name v, (name, some v) ∈ bindings → p.value v) :
    (∃ failure, e.evaluateHandled budget h n bindings = .error failure ∧ halts failure) ∨
      e.evaluateHandled budget h n bindings = (e.evaluate budget n bindings).1.mapError h.raise ∧
        p.Kept (e.evaluate budget n bindings).1 := by
  have hr : Chain.Holds p.value (e.initial bindings).scopes :=
    List.forall_mem_singleton.mpr (Bindings.holds_ofPairs hb)
  have hfollows := Node.evalHandled_follows n.location ha n hn budget hr
  rw [evaluateHandled, evaluate]
  generalize n.evalHandled h n.location budget (e.initial bindings) = walk at hfollows ⊢
  generalize n.eval n.location budget (e.initial bindings) = run at hfollows ⊢
  cases hfollows with
  | halted he r run => exact Or.inl ⟨_, rfl, he⟩
  | fault hf r => exact Or.inr ⟨rfl, hf⟩
  | value hv hr => exact Or.inr ⟨rfl, hv⟩

end Evaluator

end Dec
