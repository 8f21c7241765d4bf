import Dec.Proofs.Evaluation.Run
import Dec.Proofs.Number.Truncation

namespace Dec

theorem Scalar.toInteger?_eq_truncate? {u : Scalar} {x : Number} (h : u.number? = some x) :
    u.toInteger? = x.truncate? := by
  cases u with
  | text t => cases h
  | number n => exact congrArg (fun v => v.bind Number.truncate?) h
  | flag b => exact congrArg (fun v => v.bind Number.truncate?) h

namespace BinaryOp

variable {op : BinaryOp} {location : Option Location}

/-- An operator on integers works on the integer parts where both operands have one. -/
theorem onIntegers_eq {f : Int → Int → Except EvalFault Number} {u v : Scalar} {a b : Int}
    (hu : u.toInteger? = some a) (hv : v.toInteger? = some b) :
    op.onIntegers location f u v = f a b := by
  rw [onIntegers, integerPart, integerPart, hu, hv]
  rfl

end BinaryOp

namespace Node

/-- An expression that evaluates, within a budget and in given scopes, to a finite number. A truth
value counts as a number. -/
structure FiniteOperand (whole : Option Location) (budget : Nat) (r : EvalState) (n : Node)
    (x : Number) : Prop where
  expression : n.isExpression = true
  value : ∃ u, (n.eval whole budget r).1 = .ok u ∧ u.number? = some x
  finite : x.isFinite = true

variable {whole : Option Location} {budget : Nat} {r : EvalState} {left right : Node}
variable {x y : Number}

/-- An operand leaves the scopes alone, and its integer part is its value rounded toward zero. -/
theorem FiniteOperand.eval_eq {n : Node} (h : FiniteOperand whole budget r n x) :
    ∃ u, n.eval whole budget r = (.ok u, r) ∧ u.toInteger? = some (towardZero x.rational) := by
  obtain ⟨u, hvalue, hnumber⟩ := h.value
  refine ⟨u, Prod.ext hvalue (eval_state_of_isExpression n h.expression whole budget r), ?_⟩
  rw [Scalar.toInteger?_eq_truncate? hnumber, Number.truncate?_eq h.finite]

/-- An operation takes its share of the budget, and its operands are evaluated with the rest. -/
theorem eval_binary_of_operands (tag : Tag) (op : BinaryOp) {u v : Scalar}
    (hleft : left.eval whole budget r = (.ok u, r))
    (hright : right.eval whole budget r = (.ok v, r)) :
    (binary tag op left right).eval whole (budget + evalCost op) r =
      ((op.apply tag.location u v).map .number, r) := by
  rw [eval_binary, if_neg (Nat.not_lt.mpr (Nat.le_add_left _ _)), Nat.add_sub_cancel, hleft, goOn,
    hright, goOn]

/-- Both operators that divide integers divide the integer parts of their operands. -/
theorem eval_divideWhole (hl : FiniteOperand whole budget r left x)
    (hr : FiniteOperand whole budget r right y) (tag : Tag) (op : BinaryOp) (part : Int × Int → Int)
    (hop : ∀ u v, op.apply tag.location u v =
      op.onIntegers tag.location (op.divideWhole tag.location part) u v) :
    (binary tag op left right).eval whole (budget + evalCost op) r =
      ((op.divideWhole tag.location part (towardZero x.rational)
        (towardZero y.rational)).map .number, r) := by
  obtain ⟨u, hleft, hu⟩ := hl.eval_eq
  obtain ⟨v, hright, hv⟩ := hr.eval_eq
  rw [eval_binary_of_operands tag op hleft hright, hop, BinaryOp.onIntegers_eq hu hv]

/-- Take two expressions that evaluate to finite numbers, with the integer parts `a` and `b`, within
the budget that an operation on them leaves. Where `b` is not zero, their quotient and their
remainder are the integers of the division of `a` by `b` that truncates: they make up `a`, the
remainder is smaller than `b` and is zero or has the sign of `a`, and the quotient is the rational
one, rounded toward zero. No other two integers are like that. Where `b` is zero, and so just for a
divisor between minus one and one, both operations fail. -/
theorem wholeDivision_truncates (hl : FiniteOperand whole budget r left x)
    (hr : FiniteOperand whole budget r right y) (tag tag' : Tag) :
    let quotient := (binary tag .intDiv left right).eval whole (budget + evalCost .intDiv) r
    let remainder := (binary tag' .modulus left right).eval whole (budget + evalCost .modulus) r
    ∃ a b : ℤ, (x.truncate? = some a ∧ a = towardZero x.rational) ∧
      (y.truncate? = some b ∧ b = towardZero y.rational) ∧
      (b ≠ 0 → ∃ q m : ℤ, quotient = (.ok (.number (.int q)), r) ∧
        remainder = (.ok (.number (.int m)), r) ∧
        TruncatedDivision a b q m ∧ q = towardZero ((a : ℚ) / b) ∧
        ∀ q' m' : ℤ, TruncatedDivision a b q' m' → q' = q ∧ m' = m) ∧
      (b = 0 ↔ |y.rational| < 1) ∧
      (b = 0 → quotient = (.error (.divisionByZero .intDiv tag.location), r) ∧
        remainder = (.error (.divisionByZero .modulus tag'.location), r)) := by
  intro quotient remainder
  -- both visits come to one pair of integer parts, and each takes its own part of one division
  have hquotient := eval_divideWhole hl hr tag .intDiv Prod.fst fun _ _ => rfl
  have hremainder := eval_divideWhole hl hr tag' .modulus Prod.snd fun _ _ => rfl
  rw [BinaryOp.divideWhole] at hquotient hremainder
  refine ⟨towardZero x.rational, towardZero y.rational, ⟨Number.truncate?_eq hl.finite, rfl⟩,
    ⟨Number.truncate?_eq hr.finite, rfl⟩, ?_, towardZero_eq_zero_iff, ?_⟩
  · intro hb
    have hdivision := truncatedDivMod_truncates (towardZero x.rational) hb
    rw [if_neg hb] at hquotient hremainder
    exact ⟨_, _, hquotient, hremainder, hdivision, hdivision.quotient_eq,
      fun q' m' h => hdivision.unique h⟩
  · intro hb
    rw [if_pos hb] at hquotient hremainder
    exact ⟨hquotient, hremainder⟩

/-- A dividend of an outer scope, minus 7.9, divided by 2.5 and by 0.5. -/
theorem wholeDivision_truncates_negative_dividend :
    let left := var ⟨1, none⟩ "y"
    let right := literal ⟨2, none⟩ (.float (.ofRatio false 5 2))
    let fraction := literal ⟨3, none⟩ (.float (.ofRatio false 1 2))
    let r : EvalState :=
      ⟨[.empty, ⟨[("y", some (.number (.float (.ofRatio true 79 10))))]⟩], false, []⟩
    (FiniteOperand none 984 r left (.float (.ofRatio true 79 10)) ∧
      FiniteOperand none 984 r right (.float (.ofRatio false 5 2)) ∧
      FiniteOperand none 984 r fraction (.float (.ofRatio false 1 2))) ∧
    (binary ⟨4, none⟩ .intDiv left right).eval none 988 r = (.ok (.number (.int (-3))), r) ∧
    (binary ⟨5, none⟩ .modulus left right).eval none 988 r = (.ok (.number (.int (-1))), r) ∧
    (binary ⟨6, none⟩ .intDiv left fraction).eval none 988 r =
      (.error (.divisionByZero .intDiv none), r) ∧
    (binary ⟨7, none⟩ .modulus left fraction).eval none 988 r =
      (.error (.divisionByZero .modulus none), r) := by
  intro left right fraction r
  have hl : FiniteOperand none 984 r left (.float (.ofRatio true 79 10)) :=
    ⟨rfl, ⟨_, rfl, rfl⟩, by decide +kernel⟩
  have hr : FiniteOperand none 984 r right (.float (.ofRatio false 5 2)) :=
    ⟨rfl, ⟨_, rfl, rfl⟩, by decide +kernel⟩
  have hf : FiniteOperand none 984 r fraction (.float (.ofRatio false 1 2)) :=
    ⟨rfl, ⟨_, rfl, rfl⟩, by decide +kernel⟩
  obtain ⟨a, b, ⟨ha, -⟩, ⟨hb, -⟩, hdivided, -, -⟩ :=
    wholeDivision_truncates hl hr ⟨4, none⟩ ⟨5, none⟩
  obtain ⟨_, c, -, ⟨hc, -⟩, -, -, hrefused⟩ :=
    wholeDivision_truncates hl hf ⟨6, none⟩ ⟨7, none⟩
  have hleft : (Binary64.ofRatio true 79 10).truncate? = some (-7) := by decide +kernel
  have hright : (Binary64.ofRatio false 5 2).truncate? = some 2 := by decide +kernel
  have hfraction : (Binary64.ofRatio false 1 2).truncate? = some 0 := by decide +kernel
  obtain rfl : -7 = a := Option.some.inj (hleft.symm.trans ha)
  obtain rfl : 2 = b := Option.some.inj (hright.symm.trans hb)
  obtain rfl : 0 = c := Option.some.inj (hfraction.symm.trans hc)
  -- the integers are told by what the division promises of them
  obtain ⟨q, m, hq, hm, -, -, hunique⟩ := hdivided (by decide)
  obtain ⟨rfl, rfl⟩ := hunique (-3) (-1) ⟨by decide, by decide, by decide⟩
  exact ⟨⟨hl, hr, hf⟩, hq, hm, hrefused rfl⟩

end Node

end Dec
