import Dec.Proofs.Evaluation.Handled
import Dec.Proofs.Evaluation.Operators
import Dec.Proofs.Number.Quotients

/-!
Arithmetic that may refuse. The integer part of an infinity, the double of a huge integer, a quotient
by zero and a power of zero have no value, and what asks for them is refused. The operators of the
language look at their operands first or catch the refusal, so that an evaluation with such arithmetic
ends as the evaluation does: with a number or with a fault that has a code.
-/
namespace Dec

inductive Refusal where
  | zeroDivisor
  | outOfRange
  | outOfDomain
deriving DecidableEq

namespace Number

def wholePart : Number → Except Refusal Int
  | int n => .ok n
  | float .nan => .error .outOfDomain
  | float x => x.truncate?.getDM (.error .outOfRange)

def nearest (v : Number) : Except Refusal Binary64 := v.toBinary64?.getDM (.error .outOfRange)

end Number

def Binary64.quotient (x y : Binary64) : Except Refusal Binary64 :=
  if y.isZero then .error .zeroDivisor else .ok (x.div y)

def wholeQuotient (a b : Int) : Except Refusal (Int × Int) :=
  if b = 0 then .error .zeroDivisor
  else
    let size : Int := a.natAbs / b.natAbs
    let quotient := if (a < 0) ≠ (b < 0) then -size else size
    .ok (quotient, a - b * quotient)

def wholePower (a b : Int) : Except Refusal Binary64 := do
  let x ← (Number.int a).nearest
  let y ← (Number.int b).nearest
  if a = 0 ∧ b < 0 then .error .outOfDomain
  else if (x.power y).isFinite then return x.power y
  else .error .outOfRange

/-- How an operation fails: arithmetic was refused and nothing caught that, or a fault was raised. -/
inductive Escape where
  | refusal (reason : Refusal)
  | fault (fault : EvalFault)
deriving DecidableEq

namespace Refusal

variable {α : Type}

def catching (caught : List Refusal) (fault : EvalFault) : Except Refusal α → Except Escape α
  | .ok a => .ok a
  | .error reason => .error (if reason ∈ caught then .fault fault else .refusal reason)

end Refusal

namespace BinaryOp

variable (op : BinaryOp) (location : Option Location)

def caughtWholePart (a : Number) : Except Escape Int :=
  Refusal.catching [.outOfRange, .outOfDomain] (.overflow op location) a.wholePart

def onWholeParts (f : Int → Int → Except Escape Number) (a b : Number) : Except Escape Number := do
  let a ← op.caughtWholePart location a
  let b ← op.caughtWholePart location b
  f a b

def attemptQuotient (a b : Number) : Except Escape Number :=
  if b.isZero then .error (.fault (.divisionByZero op location))
  else (Refusal.catching [.outOfRange] (.overflow op location) do
    let x ← a.nearest
    let y ← b.nearest
    x.quotient y).map .float

def attemptWhole (part : Int × Int → Int) (a b : Int) : Except Escape Number :=
  if b = 0 then .error (.fault (.divisionByZero op location))
  else ((wholeQuotient a b).mapError .refusal).map fun q => .int (part q)

def attemptPower (a b : Int) : Except Escape Number :=
  if a = 0 ∧ b < 0 then .error (.fault (.divisionByZero op location))
  else (Refusal.catching [.outOfRange] (.overflow op location) (wholePower a b)).map .float

def attempt (a b : Number) : Except Escape Number :=
  match op with
  | .plus => op.onWholeParts location (fun a b => .ok (.int (a + b))) a b
  | .minus => op.onWholeParts location (fun a b => .ok (.int (a - b))) a b
  | .times => op.onWholeParts location (fun a b => .ok (.int (a * b))) a b
  | .floatDiv => op.attemptQuotient location a b
  | .intDiv => op.onWholeParts location (op.attemptWhole location Prod.fst) a b
  | .modulus => op.onWholeParts location (op.attemptWhole location Prod.snd) a b
  | .power => op.onWholeParts location (op.attemptPower location) a b

section Agreement

variable {op location}

theorem caughtWholePart_eq (a : Number) :
    op.caughtWholePart location a = (op.integerPart location (.number a)).mapError .fault := by
  cases a with
  | int n => rfl
  | float x => cases x <;> rfl

/-- Operators on integer parts agree where what they do with these agrees. -/
theorem onWholeParts_eq {f : Int → Int → Except EvalFault Number}
    {g : Int → Int → Except Escape Number} (h : ∀ i j, g i j = (f i j).mapError .fault)
    (a b : Number) : op.onWholeParts location g a b =
      (op.onIntegers location f (.number a) (.number b)).mapError .fault := by
  rw [onWholeParts, onIntegers, caughtWholePart_eq, caughtWholePart_eq]
  rcases op.integerPart location (.number a) with fault | i
  · rfl
  · rcases op.integerPart location (.number b) with fault | j
    · rfl
    · exact h i j

/-- A number that is not zero is not rounded to zero. -/
theorem isZero_of_toBinary64? {v : Number} (hv : v.isZero = false) {x : Binary64}
    (hx : v.toBinary64? = some x) : x.isZero = false := by
  cases v with
  | int n =>
    have hn : n ≠ 0 := by simpa [Number.isZero] using hv
    obtain ⟨-, hx⟩ := Option.ite_none_right_eq_some.mp hx
    obtain rfl := Option.some.inj hx
    exact Binary64.ofInt_isZero hn
  | float y =>
    obtain rfl := Option.some.inj hx
    exact hv

/-- A divisor that is not zero is not refused as zero. -/
theorem attemptQuotient_eq (a b : Number) : op.attemptQuotient location a b =
    (op.divide location (.number a) (.number b)).mapError .fault := by
  have hzero : Scalar.isZero (.number b) = b.isZero := rfl
  have hdouble : ∀ v : Number, op.doubleOf location (.number v) =
      v.toBinary64?.getDM (.error (.overflow op location)) := fun _ => rfl
  rw [attemptQuotient, divide, hzero, hdouble, hdouble, Number.nearest, Number.nearest]
  split
  · rfl
  · rename_i hb
    rcases a.toBinary64? with _ | x
    · rfl
    · rcases hy : b.toBinary64? with _ | y
      · rfl
      -- the divisor was looked at before it was rounded
      · have hnonzero : y.isZero = false := isZero_of_toBinary64? (by simpa using hb) hy
        show (Refusal.catching _ _ (x.quotient y)).map _ = Except.mapError _ (if _ then _ else _)
        rw [Binary64.quotient, hnonzero]
        rfl

/-- Only a divisor that is zero is refused. -/
theorem wholeQuotient_eq {a b : Int} (hb : b ≠ 0) :
    wholeQuotient a b = .ok (truncatedDivMod a b) := by
  rw [wholeQuotient, if_neg hb]
  rfl

theorem attemptWhole_eq (part : Int × Int → Int) (i j : Int) : op.attemptWhole location part i j =
    (op.divideWhole location part i j).mapError .fault := by
  rw [attemptWhole, divideWhole]
  split
  · rfl
  · rename_i hj
    rw [wholeQuotient_eq hj]
    rfl

theorem attemptPower_eq (i j : Int) :
    op.attemptPower location i j = (op.raise location i j).mapError .fault := by
  have hdouble : ∀ v : Number, op.doubleOf location (.number v) =
      v.toBinary64?.getDM (.error (.overflow op location)) := fun _ => rfl
  rw [attemptPower, raise, wholePower, hdouble, hdouble, Number.nearest, Number.nearest]
  split
  · rfl
  · rename_i hguard
    rcases (Number.int i).toBinary64? with _ | x
    · rfl
    · rcases (Number.int j).toBinary64? with _ | y
      · rfl
      · show (Refusal.catching _ _ (if (x.power y).isFinite then _ else _)).map _ =
          Except.mapError _ (if (x.power y).isFinite then _ else _)
        split <;> rfl

/-- No refusal of the arithmetic escapes from an operator. -/
theorem attempt_eq (op : BinaryOp) (location : Option Location) (a b : Number) :
    op.attempt location a b = (op.apply location (.number a) (.number b)).mapError .fault := by
  cases op with
  | plus => exact onWholeParts_eq (f := fun i j => .ok (.int (i + j))) (fun i j => rfl) a b
  | minus => exact onWholeParts_eq (f := fun i j => .ok (.int (i - j))) (fun i j => rfl) a b
  | times => exact onWholeParts_eq (f := fun i j => .ok (.int (i * j))) (fun i j => rfl) a b
  | floatDiv => exact attemptQuotient_eq a b
  | intDiv => exact onWholeParts_eq (attemptWhole_eq Prod.fst) a b
  | modulus => exact onWholeParts_eq (attemptWhole_eq Prod.snd) a b
  | power => exact onWholeParts_eq attemptPower_eq a b

end Agreement

end BinaryOp

def RaisesOwn {α : Type} (op : BinaryOp) (location : Option Location) (result : Except Escape α) :
    Prop :=
  ∀ fault, result = .error (.fault fault) →
    fault = .divisionByZero op location ∨ fault = .overflow op location

namespace RaisesOwn

variable {α β : Type} {op : BinaryOp} {location : Option Location}

theorem ok (a : α) : RaisesOwn op location (.ok a) := fun _ h => nomatch h

theorem divisionByZero :
    RaisesOwn op location (.error (.fault (.divisionByZero op location)) : Except Escape α) := by
  rintro _ ⟨⟩
  exact Or.inl rfl

theorem refused (result : Except Refusal α) :
    RaisesOwn op location (result.mapError .refusal) := by
  cases result with
  | ok a => exact ok a
  | error reason =>
    intro fault h
    cases h

theorem catching (caught : List Refusal) (result : Except Refusal α) :
    RaisesOwn op location (Refusal.catching caught (.overflow op location) result) := by
  cases result with
  | ok a => exact ok a
  | error reason =>
    intro fault h
    rw [Refusal.catching] at h
    split at h
    · cases h
      exact Or.inr rfl
    · cases h

theorem bind {first : Except Escape α} {next : α → Except Escape β}
    (hf : RaisesOwn op location first) (hn : ∀ a, RaisesOwn op location (next a)) :
    RaisesOwn op location (first >>= next) := by
  cases first with
  | error escape =>
    rintro fault ⟨⟩
    exact hf fault rfl
  | ok a => exact hn a

theorem map {result : Except Escape α} (h : RaisesOwn op location result) (f : α → β) :
    RaisesOwn op location (result.map f) := by
  cases result with
  | error escape =>
    rintro fault ⟨⟩
    exact h fault rfl
  | ok a => exact ok (f a)

end RaisesOwn

namespace BinaryOp

variable (op : BinaryOp) (location : Option Location)

theorem onWholeParts_raisesOwn {f : Int → Int → Except Escape Number}
    (hf : ∀ i j, RaisesOwn op location (f i j)) (a b : Number) :
    RaisesOwn op location (op.onWholeParts location f a b) :=
  .bind (.catching _ _) fun i => .bind (.catching _ _) fun j => hf i j

theorem attemptQuotient_raisesOwn (a b : Number) :
    RaisesOwn op location (op.attemptQuotient location a b) := by
  rw [attemptQuotient]
  split
  · exact .divisionByZero
  · exact .map (.catching _ _) _

theorem attemptWhole_raisesOwn (part : Int × Int → Int) (i j : Int) :
    RaisesOwn op location (op.attemptWhole location part i j) := by
  rw [attemptWhole]
  split
  · exact .divisionByZero
  · exact .map (.refused _) _

theorem attemptPower_raisesOwn (i j : Int) :
    RaisesOwn op location (op.attemptPower location i j) := by
  rw [attemptPower]
  split
  · exact .divisionByZero
  · exact .map (.catching _ _) _

theorem attempt_raisesOwn (a b : Number) : RaisesOwn op location (op.attempt location a b) := by
  cases op with
  | plus => exact onWholeParts_raisesOwn _ location (fun i j => .ok _) a b
  | minus => exact onWholeParts_raisesOwn _ location (fun i j => .ok _) a b
  | times => exact onWholeParts_raisesOwn _ location (fun i j => .ok _) a b
  | floatDiv => exact attemptQuotient_raisesOwn _ location a b
  | intDiv => exact onWholeParts_raisesOwn _ location (attemptWhole_raisesOwn _ location _) a b
  | modulus => exact onWholeParts_raisesOwn _ location (attemptWhole_raisesOwn _ location _) a b
  | power => exact onWholeParts_raisesOwn _ location (attemptPower_raisesOwn _ location) a b

/-- Numbers make an operator object to its operands in one of two ways. -/
theorem apply_eq_error {a b : Number} {fault : EvalFault}
    (h : op.apply location (.number a) (.number b) = .error fault) :
    fault = .divisionByZero op location ∨ fault = .overflow op location := by
  have hattempt := attempt_eq op location a b
  rw [h] at hattempt
  exact attempt_raisesOwn op location a b fault hattempt

end BinaryOp

def EvalFault.IsCoded (fault : EvalFault) : Prop :=
  ∃ code, fault.diagnostic.code = some code ∧ code ∈ titles.map Prod.fst

theorem EvalFault.isCoded_of_not_isArithmetic {fault : EvalFault}
    (h : fault.isArithmetic = false) : fault.IsCoded := by
  cases fault with
  | unbound name location => exact ⟨"R001", rfl, by decide⟩
  | emptyBlock location => exact ⟨"R003", rfl, by decide⟩
  | tooDeep location => exact ⟨"R005", rfl, by decide⟩
  | _ => cases h

def numbersOrCodes : Promise where
  value v := ∃ n, v = .number n
  fault := EvalFault.IsCoded

/-- Evaluation with arithmetic that may refuse. Operands that are no numbers make no sense to it. -/
def attempting : Handling Escape where
  raise := .fault
  apply op location a b :=
    match a, b with
    | .number a, .number b => op.attempt location a b
    | _, _ => .error (.refusal .outOfDomain)
  store _ v := .ok v

theorem attempting_agrees : attempting.Agrees numbersOrCodes fun _ => False where
  raise _ h := EvalFault.isCoded_of_not_isArithmetic h
  store _ _ _ := rfl
  apply := by
    rintro op location _ _ ⟨a, rfl⟩ ⟨b, rfl⟩
    refine Or.inr ⟨op.attempt_eq location a b, ?_⟩
    cases h : op.apply location (.number a) (.number b) with
    | ok v => exact ⟨v, rfl⟩
    | error fault =>
      rcases op.apply_eq_error location h with rfl | rfl
      · exact ⟨"R002", rfl, by decide⟩
      · exact ⟨"R004", rfl, by decide⟩

namespace Evaluator

/-- Evaluation fails only with its own faults. Whatever numbers are bound around a tree, infinities and
not-a-number among them, and whatever the tree is, its value is a number or there is a fault that has
one of the codes of the evaluation. Evaluated with arithmetic that may refuse, the tree has the same
value or the same fault, so no refusal escapes. -/
theorem evaluate_number_or_code (budget : Nat) (e : Evaluator) (n : Node)
    (bindings : List (String × Option Number)) :
    ((∃ v, (e.evaluate budget n (ofNumbers bindings)).1 = .ok (.number v)) ∨
      ∃ fault, (e.evaluate budget n (ofNumbers bindings)).1 = .error fault ∧ fault.IsCoded) ∧
    e.evaluateHandled budget attempting n (ofNumbers bindings) =
      (e.evaluate budget n (ofNumbers bindings)).1.mapError .fault := by
  have hgiven : ∀ name v, (name, some v) ∈ ofNumbers bindings → ∃ m, v = Scalar.number m := by
    intro name v hv
    obtain ⟨m, hm, -⟩ := mem_ofNumbers hv
    exact ⟨m, hm⟩
  have hnumbers : ∀ v ∈ n.numbers, ∃ m, Scalar.number v = .number m := fun v _ => ⟨v, rfl⟩
  rcases evaluateHandled_follows attempting_agrees budget e hnumbers hgiven with
    ⟨_, _, hf⟩ | ⟨heq, hkept⟩
  · exact hf.elim
  · refine ⟨?_, heq⟩
    rcases hvalue : (e.evaluate budget n (ofNumbers bindings)).1 with fault | v
    · rw [hvalue] at hkept
      exact Or.inr ⟨fault, rfl, hkept⟩
    · rw [hvalue] at hkept
      obtain ⟨m, rfl⟩ := hkept
      exact Or.inl ⟨m, rfl⟩

end Evaluator

end Dec
