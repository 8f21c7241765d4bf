import Dec.Evaluation.Arithmetic

namespace Dec

def EvalFault.isArithmetic : EvalFault → Bool
  | divisionByZero .. => true
  | overflow .. => true
  | unreadable _ => true
  | zeroText => true
  | _ => false

def FailsArithmetically {α : Type} (result : Except EvalFault α) : Prop :=
  ∀ fault, result = .error fault → fault.isArithmetic = true

namespace FailsArithmetically

variable {α β : Type}

theorem ok (a : α) : FailsArithmetically (.ok a) := fun _ h => nomatch h

theorem error {fault : EvalFault} (h : fault.isArithmetic = true) :
    FailsArithmetically (.error fault : Except EvalFault α) := by
  rintro _ ⟨⟩
  exact h

theorem bind {first : Except EvalFault α} {next : α → Except EvalFault β}
    (hf : FailsArithmetically first) (hn : ∀ a, FailsArithmetically (next a)) :
    FailsArithmetically (first >>= next) := by
  cases first with
  | error fault => exact error (hf fault rfl)
  | ok a => exact hn a

theorem getDM {value : Option α} {fault : EvalFault} (h : fault.isArithmetic = true) :
    FailsArithmetically (value.getDM (.error fault)) := by
  cases value with
  | none => exact error h
  | some a => exact ok a

end FailsArithmetically

namespace BinaryOp

variable (op : BinaryOp) (location : Option Location) (a b : Scalar)

theorem integerPart_failsArithmetically : FailsArithmetically (op.integerPart location a) := by
  unfold integerPart
  split
  · exact .ok _
  · exact .error rfl

theorem doubleOf_failsArithmetically : FailsArithmetically (op.doubleOf location a) := by
  unfold doubleOf
  split <;> exact .getDM rfl

theorem onIntegers_failsArithmetically {part : Int → Int → Except EvalFault Number}
    (hp : ∀ i j, FailsArithmetically (part i j)) :
    FailsArithmetically (op.onIntegers location part a b) :=
  .bind (integerPart_failsArithmetically op location a) fun i =>
    .bind (integerPart_failsArithmetically op location b) fun j => hp i j

theorem divide_failsArithmetically : FailsArithmetically (op.divide location a b) := by
  unfold divide
  split
  · exact .error rfl
  · refine .bind (doubleOf_failsArithmetically op location a) fun x => ?_
    refine .bind (doubleOf_failsArithmetically op location b) fun y => ?_
    split
    · exact .error rfl
    · exact .ok _

theorem divideWhole_failsArithmetically (part : Int × Int → Int) (i j : Int) :
    FailsArithmetically (op.divideWhole location part i j) := by
  unfold divideWhole
  split
  · exact .error rfl
  · exact .ok _

theorem raise_failsArithmetically (i j : Int) : FailsArithmetically (op.raise location i j) := by
  unfold raise
  split
  · exact .error rfl
  · refine .bind (doubleOf_failsArithmetically op location _) fun x => ?_
    refine .bind (doubleOf_failsArithmetically op location _) fun y => ?_
    dsimp only
    split
    · exact .ok _
    · exact .error rfl

/-- An operator objects to its operands only. -/
theorem apply_failsArithmetically : FailsArithmetically (op.apply location a b) := by
  unfold apply
  split
  · exact onIntegers_failsArithmetically _ location a b fun i j => .ok _
  · exact onIntegers_failsArithmetically _ location a b fun i j => .ok _
  · exact onIntegers_failsArithmetically _ location a b fun i j => .ok _
  · exact divide_failsArithmetically _ location a b
  · exact onIntegers_failsArithmetically _ location a b
      (divideWhole_failsArithmetically _ location Prod.fst)
  · exact onIntegers_failsArithmetically _ location a b
      (divideWhole_failsArithmetically _ location Prod.snd)
  · exact onIntegers_failsArithmetically _ location a b (raise_failsArithmetically _ location)

/-- No operator misses a variable. -/
theorem apply_ne_unbound (x : String) (l : Option Location) :
    op.apply location a b ≠ .error (.unbound x l) :=
  fun h => nomatch apply_failsArithmetically op location a b _ h

/-- No operator finds a tree too deep. -/
theorem apply_ne_tooDeep (l : Option Location) : op.apply location a b ≠ .error (.tooDeep l) :=
  fun h => nomatch apply_failsArithmetically op location a b _ h

end BinaryOp

end Dec
