import Dec.Evaluation.Run

namespace Dec

inductive Ending where
  | normal (value : Scalar)
  | returned (value : Scalar)

def Ending.value : Ending → Scalar
  | normal v => v
  | returned v => v

abbrev Outcome : Type := Except EvalFault (Ending × Chain Scalar)

def Outcome.result (outcome : Outcome) : Except EvalFault Scalar :=
  outcome.map fun ending => ending.1.value

namespace Node

/-- What an expression comes to in some scopes: the left operand is evaluated before the right one,
and the first fault ends the evaluation. -/
inductive Yields (c : Chain Scalar) : Node → Except EvalFault Scalar → Prop where
  | literal (tag : Tag) (value : Number) : Yields c (.literal tag value) (.ok (.number value))
  | var {tag : Tag} {name : String} {v : Scalar} (hv : c.find? name = some (some v)) :
      Yields c (.var tag name) (.ok v)
  | unbound {tag : Tag} {name : String} (hv : ∀ v, c.find? name ≠ some (some v)) :
      Yields c (.var tag name) (.error (.unbound name tag.location))
  | binary {tag : Tag} {op : BinaryOp} {left right : Node} {a b : Scalar}
      (hl : Yields c left (.ok a)) (hr : Yields c right (.ok b)) :
      Yields c (.binary tag op left right) ((op.apply tag.location a b).map .number)
  | leftFault {tag : Tag} {op : BinaryOp} {left right : Node} {fault : EvalFault}
      (hl : Yields c left (.error fault)) : Yields c (.binary tag op left right) (.error fault)
  | rightFault {tag : Tag} {op : BinaryOp} {left right : Node} {a : Scalar} {fault : EvalFault}
      (hl : Yields c left (.ok a)) (hr : Yields c right (.error fault)) :
      Yields c (.binary tag op left right) (.error fault)

mutual

/-- How a tree ends that is entered with some scopes. An assignment binds its name in the innermost
scope, after its right side; a block runs in a scope of its own, which it drops, and passes on how
its statements end. -/
inductive Ends : Chain Scalar → Node → Outcome → Prop where
  | expression {c : Chain Scalar} {n : Node} {result : Except EvalFault Scalar}
      (h : n.Yields c result) : Ends c n (result.map fun v => (.normal v, c))
  | assign {c : Chain Scalar} {tag target : Tag} {name : String} {value : Node}
      {result : Except EvalFault Scalar} (h : value.Yields c result) :
      Ends c (.assign tag target name value)
        (result.map fun v => (.normal v, c.define name (some v)))
  | ret {c : Chain Scalar} {tag : Tag} {value : Node} {result : Except EvalFault Scalar}
      (h : value.Yields c result) : Ends c (.ret tag value) (result.map fun v => (.returned v, c))
  | emptyBlock {c : Chain Scalar} {tag : Tag} {table : Table} :
      Ends c (.block tag table []) (.error (.emptyBlock tag.location))
  | block {c : Chain Scalar} {tag : Tag} {table : Table} {body : List Node} {outcome : Outcome}
      (h : EndsAll (.empty :: c) body outcome) :
      Ends c (.block tag table body) (outcome.map fun (ending, inner) => (ending, inner.tail))

/-- How the statements of a block end, of which there is at least one: the first that returns or
fails is the last to run, and without such a one the last statement decides. -/
inductive EndsAll : Chain Scalar → List Node → Outcome → Prop where
  | last {c : Chain Scalar} {n : Node} {outcome : Outcome} (h : Ends c n outcome) :
      EndsAll c [n] outcome
  | normal {c c' : Chain Scalar} {n next : Node} {rest : List Node} {v : Scalar} {outcome : Outcome}
      (h : Ends c n (.ok (.normal v, c'))) (hrest : EndsAll c' (next :: rest) outcome) :
      EndsAll c (n :: next :: rest) outcome
  | returned {c c' : Chain Scalar} {n next : Node} {rest : List Node} {v : Scalar}
      (h : Ends c n (.ok (.returned v, c'))) :
      EndsAll c (n :: next :: rest) (.ok (.returned v, c'))
  | fault {c : Chain Scalar} {n next : Node} {rest : List Node} {fault : EvalFault}
      (h : Ends c n (.error fault)) : EndsAll c (n :: next :: rest) (.error fault)

end

/-- An expression comes to one thing only. -/
theorem Yields.unique {c : Chain Scalar} {n : Node} {result result' : Except EvalFault Scalar}
    (h : n.Yields c result) (h' : n.Yields c result') : result = result' := by
  induction h generalizing result' with
  | literal => cases h'; rfl
  | var hv =>
    cases h' with
    | var hv' => rw [Option.some.inj (Option.some.inj (hv.symm.trans hv'))]
    | unbound hv' => exact absurd hv (hv' _)
  | unbound hv =>
    cases h' with
    | var hv' => exact absurd hv' (hv _)
    | unbound => rfl
  | binary hl hr ihl ihr =>
    cases h' with
    | binary hl' hr' => rw [Except.ok.inj (ihl hl'), Except.ok.inj (ihr hr')]
    | leftFault hl' => cases ihl hl'
    | rightFault hl' hr' => cases ihr hr'
  | leftFault hl ihl =>
    cases h' with
    | binary hl' hr' => cases ihl hl'
    | leftFault hl' => rw [Except.error.inj (ihl hl')]
    | rightFault hl' hr' => cases ihl hl'
  | rightFault hl hr ihl ihr =>
    cases h' with
    | binary hl' hr' => cases ihr hr'
    | leftFault hl' => cases ihl hl'
    | rightFault hl' hr' => rw [Except.error.inj (ihr hr')]

mutual

/-- A tree ends in one way only. -/
theorem Ends.unique {c : Chain Scalar} {n : Node} {outcome outcome' : Outcome}
    (h : n.Ends c outcome) (h' : n.Ends c outcome') : outcome = outcome' := by
  cases h with
  | expression h =>
    cases h' with
    | expression h' => rw [h.unique h']
    -- the other rules are about nodes that are no expressions
    | _ => nomatch h
  | assign h =>
    cases h' with
    | expression h' => nomatch h'
    | assign h' => rw [h.unique h']
  | ret h =>
    cases h' with
    | expression h' => nomatch h'
    | ret h' => rw [h.unique h']
  | emptyBlock =>
    cases h' with
    | expression h' => nomatch h'
    | emptyBlock => rfl
    | block h' => nomatch h'
  | block h =>
    cases h' with
    | expression h' => nomatch h'
    | emptyBlock => nomatch h
    | block h' => rw [h.unique h']

theorem EndsAll.unique {c : Chain Scalar} {body : List Node} {outcome outcome' : Outcome}
    (h : EndsAll c body outcome) (h' : EndsAll c body outcome') : outcome = outcome' := by
  cases h with
  | last h =>
    cases h' with
    | last h' => exact h.unique h'
  | normal h hrest =>
    cases h' with
    | normal h' hrest' =>
      obtain ⟨-, rfl⟩ := Prod.mk.inj (Except.ok.inj (h.unique h'))
      exact hrest.unique hrest'
    | returned h' => cases h.unique h'
    | fault h' => cases h.unique h'
  | returned h =>
    cases h' with
    | normal h' hrest' => cases h.unique h'
    | returned h' => exact h.unique h'
    | fault h' => cases h.unique h'
  | fault h =>
    cases h' with
    | normal h' hrest' => cases h.unique h'
    | returned h' => cases h.unique h'
    | fault h' => exact congrArg Except.error (Except.error.inj (h.unique h'))

end

end Node

end Dec
