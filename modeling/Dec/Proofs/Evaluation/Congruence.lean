import Dec.Proofs.Evaluation.Run
import Dec.Proofs.Tree.Skeleton
import Dec.Proofs.Tree.Walk

namespace Dec

def EvalFault.unplaced : EvalFault → EvalFault
  | unbound name _ => .unbound name none
  | divisionByZero op _ => .divisionByZero op none
  | emptyBlock _ => .emptyBlock none
  | overflow op _ => .overflow op none
  | tooDeep _ => .tooDeep none
  | unreadable text => .unreadable text
  | zeroText => .zeroText

/-- A report goes by what went wrong, and its place is where that was. -/
theorem EvalFault.diagnostic_unplaced (fault : EvalFault) :
    fault.unplaced.diagnostic = { fault.diagnostic with location := none } := by
  cases fault <;> rfl

def SameResult {α : Type} (x y : Except EvalFault α) : Prop :=
  x.mapError EvalFault.unplaced = y.mapError EvalFault.unplaced

namespace SameResult

variable {α β : Type}

theorem refl (x : Except EvalFault α) : SameResult x x := rfl

theorem bind {x y : Except EvalFault α} {f g : α → Except EvalFault β} (h : SameResult x y)
    (hf : ∀ a, SameResult (f a) (g a)) : SameResult (x >>= f) (y >>= g) := by
  cases x with
  | error fault =>
    cases y with
    | error fault' => exact congrArg Except.error (Except.error.inj h)
    | ok b => cases h
  | ok a =>
    cases y with
    | error fault' => cases h
    | ok b =>
      obtain rfl := Except.ok.inj h
      exact hf a

theorem map {x y : Except EvalFault α} (h : SameResult x y) (f : α → β) :
    SameResult (x.map f) (y.map f) := by
  cases x with
  | error fault =>
    cases y with
    | error fault' => exact congrArg Except.error (Except.error.inj h)
    | ok b => cases h
  | ok a =>
    cases y with
    | error fault' => cases h
    | ok b =>
      obtain rfl := Except.ok.inj h
      rfl

end SameResult

namespace BinaryOp

variable (op : BinaryOp) (location location' : Option Location)

theorem integerPart_sameResult (a : Scalar) :
    SameResult (integerPart op location a) (integerPart op location' a) := by
  rw [integerPart, integerPart]
  cases a.toInteger? <;> rfl

theorem doubleOf_sameResult (a : Scalar) :
    SameResult (doubleOf op location a) (doubleOf op location' a) := by
  cases a with
  | text t => rfl
  | number n =>
    simp only [doubleOf]
    cases (Scalar.number n).number?.bind Number.toBinary64? <;> rfl
  | flag b =>
    simp only [doubleOf]
    cases (Scalar.flag b).number?.bind Number.toBinary64? <;> rfl

theorem onIntegers_sameResult {f f' : Int → Int → Except EvalFault Number}
    (hf : ∀ a b, SameResult (f a b) (f' a b)) (a b : Scalar) :
    SameResult (onIntegers op location f a b) (onIntegers op location' f' a b) :=
  (integerPart_sameResult op location location' a).bind fun _ =>
    (integerPart_sameResult op location location' b).bind fun _ => hf _ _

theorem divide_sameResult (a b : Scalar) :
    SameResult (divide op location a b) (divide op location' a b) := by
  rw [divide, divide]
  split
  · rfl
  · refine (doubleOf_sameResult op location location' a).bind fun x => ?_
    exact (doubleOf_sameResult op location location' b).bind fun y => .refl _

theorem divideWhole_sameResult (part : Int × Int → Int) (a b : Int) :
    SameResult (divideWhole op location part a b) (divideWhole op location' part a b) := by
  rw [divideWhole, divideWhole]
  split <;> rfl

theorem raise_sameResult (a b : Int) :
    SameResult (raise op location a b) (raise op location' a b) := by
  rw [raise, raise]
  split
  · rfl
  · refine (doubleOf_sameResult op location location' _).bind fun x => ?_
    refine (doubleOf_sameResult op location location' _).bind fun y => ?_
    dsimp only
    split <;> rfl

/-- Where an operator stands does not matter to its result. -/
theorem apply_sameResult (a b : Scalar) :
    SameResult (op.apply location a b) (op.apply location' a b) := by
  cases op with
  | plus => exact onIntegers_sameResult _ _ _ (fun _ _ => .refl _) a b
  | minus => exact onIntegers_sameResult _ _ _ (fun _ _ => .refl _) a b
  | times => exact onIntegers_sameResult _ _ _ (fun _ _ => .refl _) a b
  | floatDiv => exact divide_sameResult _ _ _ a b
  | intDiv => exact onIntegers_sameResult _ _ _ (divideWhole_sameResult _ _ _ _) a b
  | modulus => exact onIntegers_sameResult _ _ _ (divideWhole_sameResult _ _ _ _) a b
  | power => exact onIntegers_sameResult _ _ _ (raise_sameResult _ _ _) a b

end BinaryOp

/-- What the rest of an evaluation depends on. -/
def EvalState.seen (r : EvalState) : Chain Scalar × Bool := (r.scopes, r.returning)

abbrev SameEval := SameWalk (α := Scalar) EvalFault.unplaced EvalState.seen

namespace Node

variable {whole whole' : Option Location}

mutual

/-- Trees with the same skeleton are evaluated in the same way. -/
theorem eval_congr (n m : Node) (h : m.skeleton = n.skeleton) (budget : Nat) {r r' : EvalState}
    (hr : r.seen = r'.seen) : SameEval (n.eval whole budget r) (m.eval whole' budget r') := by
  obtain ⟨hscopes, hreturning⟩ := Prod.mk.inj hr
  cases n with
  | literal tag value =>
    obtain ⟨tag', rfl⟩ := skeleton_eq_literal h
    exact ⟨rfl, hr⟩
  | var tag name =>
    obtain ⟨tag', rfl⟩ := skeleton_eq_var h
    rw [eval, eval, ← hscopes]
    split
    · exact ⟨rfl, hr⟩
    · exact ⟨rfl, hr⟩
  | binary tag op left right =>
    obtain ⟨tag', left', right', rfl, hl, hright⟩ := skeleton_eq_binary h
    rw [eval_binary, eval_binary]
    split
    · exact ⟨rfl, hr⟩
    · refine (eval_congr left left' hl _ hr).goOn (fun _ _ hs => hs) fun a s s' hs => ?_
      refine (eval_congr right right' hright _ hs).goOn (fun _ _ hs => hs) fun b t t' ht => ?_
      exact ⟨(op.apply_sameResult _ _ a b).map _, ht⟩
  | assign tag target name value =>
    obtain ⟨tag', target', value', rfl, hv⟩ := skeleton_eq_assign h
    rw [eval_assign, eval_assign]
    split
    · exact ⟨rfl, hr⟩
    · refine (eval_congr value value' hv _ hr).goOn (fun _ _ hs => hs) fun v s s' hs => ?_
      obtain ⟨hscopes, hreturning⟩ := Prod.mk.inj hs
      exact ⟨rfl, by rw [EvalState.seen, EvalState.seen, hscopes, hreturning]⟩
  | ret tag value =>
    obtain ⟨tag', value', rfl, hv⟩ := skeleton_eq_ret h
    rw [eval_ret, eval_ret]
    split
    · exact ⟨rfl, hr⟩
    · refine (eval_congr value value' hv _ hr).goOn (fun _ _ hs => hs) fun v s s' hs => ?_
      exact ⟨rfl, congrArg (fun seen => (seen.1, true)) hs⟩
  | block tag table body =>
    obtain ⟨tag', table', body', rfl, hb⟩ := skeleton_eq_block h
    have hempty : body'.isEmpty = body.isEmpty := by
      cases body with
      | nil => rw [skeletons_eq_nil hb]
      | cons n rest =>
        obtain ⟨m, others, rfl, -, -⟩ := skeletons_eq_cons hb
        rfl
    have hinside : (r.enter.report (.entered tag.location r.enter.scopes.depth)).seen =
        (r'.enter.report (.entered tag'.location r'.enter.scopes.depth)).seen :=
      congrArg (fun seen => (.empty :: seen.1, seen.2)) hr
    rw [eval_block, eval_block, hempty]
    split
    · exact ⟨rfl, hr⟩
    · split
      · exact ⟨rfl, hr⟩
      · refine (evalBody_congr body body' hb _ hinside).goOn ?_ ?_
        · exact fun s s' hs => congrArg (fun seen => (seen.1.tail, seen.2)) hs
        · exact fun v s s' hs => ⟨rfl, congrArg (fun seen => (seen.1.tail, seen.2)) hs⟩

theorem evalBody_congr (body body' : List Node) (h : skeletons body' = skeletons body) (budget : Nat)
    {place place' : Option Location} {r r' : EvalState} (hr : r.seen = r'.seen) :
    SameEval (evalBody whole budget place r body) (evalBody whole' budget place' r' body') := by
  match body with
  | [] =>
    obtain rfl := skeletons_eq_nil h
    exact ⟨rfl, hr⟩
  | [n] =>
    obtain ⟨m, others, rfl, hm, ho⟩ := skeletons_eq_cons h
    obtain rfl := skeletons_eq_nil ho
    exact eval_congr n m hm budget hr
  | n :: next :: rest =>
    obtain ⟨m, others, rfl, hm, ho⟩ := skeletons_eq_cons h
    obtain ⟨m', others', rfl, -, -⟩ := skeletons_eq_cons ho
    rw [evalBody_cons, evalBody_cons]
    refine (eval_congr n m hm budget hr).goOn (fun _ _ hs => hs) fun v s s' hs => ?_
    rw [show s.returning = s'.returning from congrArg Prod.snd hs]
    split
    · exact ⟨rfl, hs⟩
    · exact evalBody_congr (next :: rest) (m' :: others') ho budget hs

end

end Node

end Dec
