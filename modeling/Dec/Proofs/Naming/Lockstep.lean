import Dec.Naming.Analysis
import Dec.Proofs.Evaluation.Run
import Dec.Proofs.Scope.Lookup

/-!
Name analysis and evaluation side by side. The two walks keep chains of scopes that agree, scope by
scope, on which names have a value, so a variable without a value is found by both at once.
-/
namespace Dec

def Bindings.hasValue (b : Bindings Scalar) (x : String) : Prop := ∃ v, b.find? x = some (some v)

def Chain.hasValue (c : Chain Scalar) (x : String) : Prop := ∃ v, c.find? x = some (some v)

theorem Bindings.hasValue_define {b : Bindings Scalar} {name x : String} {v : Scalar} :
    (b.define name (some v)).hasValue x ↔ x = name ∨ b.hasValue x := by
  rw [hasValue, find?_define]
  by_cases hx : x = name
  · simp [hx]
  · simp [hx, hasValue]

theorem Chain.not_hasValue_nil {x : String} : ¬ Chain.hasValue [] x := by
  rintro ⟨v, hv⟩
  cases hv

theorem Chain.hasValue_cons {b : Bindings Scalar} {outer : Chain Scalar} {x : String} :
    Chain.hasValue (b :: outer) x ↔ b.hasValue x ∨ b.find? x = none ∧ Chain.hasValue outer x := by
  simp only [Chain.hasValue, Chain.find?, Bindings.hasValue]
  cases b.find? x with
  | none => simp
  | some w => simp

/-- The scopes of a name analysis and of an evaluation agree: names that the one declares have values
in the other, and, where the agreement is strict, no others have. Only the outermost scope of the
evaluation may bind names to nothing. -/
def Lockstep (strict : Prop) : Chain Scalar → Chain Scalar → Prop
  | [], [] => True
  | names :: outer, values :: outer' =>
    (∀ x, names.contains x = true → values.hasValue x) ∧
      (strict → ∀ x, values.hasValue x → names.contains x = true) ∧
      (outer' ≠ [] → ∀ x, values.find? x ≠ some none) ∧ Lockstep strict outer outer'
  | _, _ => False

namespace Lockstep

variable {strict : Prop} {names values : Chain Scalar} {x : String}

theorem hasValue (h : Lockstep strict names values) (hx : names.contains x = true) :
    values.hasValue x := by
  induction names generalizing values with
  | nil => cases hx
  | cons b outer ih =>
    cases values with
    | nil => exact h.elim
    | cons b' outer' =>
      obtain ⟨hsub, -, hfull, hrest⟩ := h
      rw [Chain.contains_cons, Bool.or_eq_true] at hx
      rcases hx with hx | hx
      · exact Chain.hasValue_cons.mpr (.inl (hsub x hx))
      · have hin := ih hrest hx
        -- a name bound to nothing would hide the value, but only the outermost scope has such
        have hne : outer' ≠ [] := by
          rintro rfl
          exact Chain.not_hasValue_nil hin
        rcases hb : b'.find? x with _ | _ | v
        · exact Chain.hasValue_cons.mpr (.inr ⟨hb, hin⟩)
        · exact absurd hb (hfull hne x)
        · exact Chain.hasValue_cons.mpr (.inl ⟨v, hb⟩)

theorem contains_of_hasValue (he : strict) (h : Lockstep strict names values)
    (hx : values.hasValue x) : names.contains x = true := by
  induction names generalizing values with
  | nil =>
    cases values with
    | nil => exact absurd hx Chain.not_hasValue_nil
    | cons _ _ => exact h.elim
  | cons b outer ih =>
    cases values with
    | nil => exact h.elim
    | cons b' outer' =>
      obtain ⟨-, hsup, -, hrest⟩ := h
      rw [Chain.contains_cons, Bool.or_eq_true]
      rcases Chain.hasValue_cons.mp hx with hx | ⟨-, hx⟩
      · exact .inl (hsup he x hx)
      · exact .inr (ih hrest hx)

theorem enter (h : Lockstep strict names values) :
    Lockstep strict (.empty :: names) (.empty :: values) := by
  refine ⟨?_, ?_, ?_, h⟩
  · intro x hx
    cases hx
  · rintro - x ⟨v, hv⟩
    cases hv
  · rintro - x hx
    cases hx

theorem leave (h : Lockstep strict names values) : Lockstep strict names.tail values.tail := by
  cases names <;> cases values
  · exact h
  · exact h.elim
  · exact h.elim
  · exact h.2.2.2

theorem define (h : Lockstep strict names values) (name : String) (v : Scalar) :
    Lockstep strict (names.define name none) (values.define name (some v)) := by
  cases names <;> cases values
  · exact h
  · exact h.elim
  · exact h.elim
  · rename_i b outer b' outer'
    obtain ⟨hsub, hsup, hfull, hrest⟩ := h
    refine ⟨?_, ?_, ?_, hrest⟩
    · intro x hx
      rw [Bindings.contains_define, Bool.or_eq_true, decide_eq_true_iff] at hx
      rw [Bindings.hasValue_define]
      rcases hx with hx | hx
      · exact .inl hx
      · exact .inr (hsub x hx)
    · intro he x hx
      rw [Bindings.contains_define, Bool.or_eq_true, decide_eq_true_iff]
      rcases Bindings.hasValue_define.mp hx with hx | hx
      · exact .inl hx
      · exact .inr (hsup he x hx)
    · intro hne x hx
      rw [Bindings.find?_define] at hx
      split at hx
      · cases hx
      · exact hfull hne x hx

end Lockstep

/-- How an evaluation and a name analysis of one tree go together: the evaluation returned early, or
both went through with scopes that agree, or the analysis objects to something that need not be met,
or both miss the same variable in the same place, or the evaluation fails for another reason. -/
inductive Agree (strict : Prop) :
    Except EvalFault Scalar × EvalState → Except NameFault Unit × NameState → Prop
  | returned {v r check} (h : r.returning = true) : Agree strict (.ok v, r) check
  | both {v r c} (h : Lockstep strict c.scopes r.scopes) : Agree strict (.ok v, r) (.ok (), c)
  | early {value fault c} (h : ¬ strict) : Agree strict value (.error fault, c)
  | unbound {x l r similar later c} :
    Agree strict (.error (.unbound x l), r) (.error (.undeclared x l similar later), c)
  | otherwise {fault r check} (h : ∀ x l, fault ≠ .unbound x l) : Agree strict (.error fault, r) check

section Agree

variable {strict : Prop} {value : Except EvalFault Scalar × EvalState}
  {check : Except NameFault Unit × NameState}
  {k : Scalar → EvalState → Except EvalFault Scalar × EvalState}
  {m : Unit → NameState → Except NameFault Unit × NameState}

/-- Agreement is kept when both walks go on in agreement from where they agree. -/
theorem Agree.goOn (h : Agree strict value check) (e : EvalState → EvalState)
    (l : NameState → NameState)
    (hk : ∀ v r c, value = (.ok v, r) → Lockstep strict c.scopes r.scopes →
      Agree strict (k v r) (m () c))
    (hr : ∀ v r check', value = (.ok v, r) → r.returning = true → Agree strict (k v r) check') :
    Agree strict (Dec.goOn value e k) (Dec.goOn check l m) := by
  cases h with
  | returned h => exact hr _ _ _ rfl h
  | both h => exact hk _ _ _ rfl h
  | early h => exact .early h
  | unbound => exact .unbound
  | otherwise h => exact .otherwise h

/-- Agreement is kept when only the evaluation goes on, from where both agree. -/
theorem Agree.goOnLeft (h : Agree strict value check)
    (hk : ∀ v r c, value = (.ok v, r) → Lockstep strict c.scopes r.scopes →
      Agree strict (k v r) (.ok (), c))
    (hr : ∀ v r check', value = (.ok v, r) → r.returning = true → Agree strict (k v r) check') :
    Agree strict (Dec.goOn value (fun r => r) k) check := by
  cases h with
  | returned h => exact hr _ _ _ rfl h
  | both h => exact hk _ _ _ rfl h
  | early h => exact .early h
  | unbound => exact .unbound
  | otherwise h => exact .otherwise h

end Agree

namespace Node

section Equations

variable (f : Forest) (whole : Option Location) (budget : Nat) (statement : Option Nat)
  (r : NameState)

theorem checkNames_binary (tag : Tag) (op : BinaryOp) (left right : Node) :
    (binary tag op left right).checkNames f whole budget statement r =
      if budget < operatorCost then (.error (.tooDeep whole), r)
      else goOn (left.checkNames f whole (budget - operatorCost) statement r) (fun r => r)
        fun _ r => right.checkNames f whole (budget - operatorCost) statement r := by
  rw [checkNames]
  congr 1
  rcases left.checkNames f whole (budget - operatorCost) statement r with ⟨fault | _, r⟩ <;> rfl

theorem checkNames_assign (tag target : Tag) (name : String) (value : Node) :
    (assign tag target name value).checkNames f whole budget statement r =
      if budget < statementCost then (.error (.tooDeep whole), r)
      else goOn (value.checkNames f whole (budget - statementCost) (some tag.id) r) (fun r => r)
        fun _ r => (.ok (), { r with scopes := r.scopes.define name none }.report
          (.bound name (r.scopes.define name none).depth)) := by
  rw [checkNames]
  congr 1
  rcases value.checkNames f whole (budget - statementCost) (some tag.id) r with ⟨fault | _, r⟩ <;>
    rfl

theorem checkNames_block (tag : Tag) (table : Table) (body : List Node) :
    (block tag table body).checkNames f whole budget statement r =
      if budget < blockCost then (.error (.tooDeep whole), r)
      else goOn (checkBody f whole (budget - blockCost)
          (r.enter.report (.entered r.enter.scopes.depth)) body)
        NameState.leave fun _ r =>
          (.ok (), (r.report (.left r.scopes.depth (r.scopes.headD .empty))).leave) := by
  rw [checkNames]
  congr 1
  dsimp only
  rcases checkBody f whole (budget - blockCost)
    (r.enter.report (.entered r.enter.scopes.depth)) body with ⟨fault | _, r⟩ <;> rfl

theorem checkBody_cons (n : Node) (rest : List Node) :
    checkBody f whole budget r (n :: rest) =
      goOn (n.checkNames f whole budget (some n.id) r) (fun r => r) fun _ r =>
        checkBody f whole budget r rest := by
  rw [checkBody]
  rcases n.checkNames f whole budget (some n.id) r with ⟨fault | _, r⟩ <;> rfl

end Equations

variable {strict : Prop} {f : Forest} {whole whole' : Option Location}

mutual

/-- The two walks over a tree agree, from scopes that agree on. The evaluation takes at least as much
of its budget at every node, so it is never the analysis alone that goes too deep. -/
theorem eval_agree_checkNames (n : Node) (hn : n.wellPlaced = true) {budget budget' : Nat}
    (hb : budget ≤ budget') (statement : Option Nat) {r : EvalState} {c : NameState}
    (hr : r.returning = false) (h : Lockstep strict c.scopes r.scopes) :
    Agree strict (n.eval whole budget r) (n.checkNames f whole' budget' statement c) := by
  cases n with
  | literal tag value => exact .both h
  | var tag name =>
    rw [eval, checkNames]
    cases hc : c.scopes.contains name with
    | true =>
      -- a declared name has a value
      obtain ⟨v, hv⟩ := h.hasValue hc
      simp only [hv, if_true]
      exact .both h
    | false =>
      rw [if_neg Bool.false_ne_true]
      split
      · rename_i v hv
        -- the analysis may object to a name with a value only where the agreement is not strict
        refine .early fun he => ?_
        rw [h.contains_of_hasValue he ⟨v, hv⟩] at hc
        cases hc
      · exact .unbound
  | binary tag op left right =>
    rw [wellPlaced, Bool.and_eq_true] at hn
    have hcost : operatorCost ≤ evalCost op := by cases op <;> decide
    have hsub : budget - evalCost op ≤ budget' - operatorCost := by omega
    rw [eval_binary, checkNames_binary]
    by_cases hlow : budget < evalCost op
    · rw [if_pos hlow]
      exact .otherwise (by simp)
    · rw [if_neg hlow, if_neg (by omega)]
      have hl := eval_agree_checkNames left (wellPlaced_of_isExpression hn.1) hsub statement hr h
      -- operands are expressions, so the flag stays down
      have hflag : ∀ (e : Node), e.isExpression = true → ∀ v r₁,
          e.eval whole (budget - evalCost op) r = (.ok v, r₁) → r₁ = r := by
        intro e he v r₁ hv
        rw [← eval_state_of_isExpression e he whole (budget - evalCost op) r, hv]
      refine hl.goOn _ _ ?_ ?_
      · intro a r₁ c₁ ha h₁
        obtain rfl := hflag left hn.1 a r₁ ha
        have hr' := eval_agree_checkNames right (wellPlaced_of_isExpression hn.2) hsub statement
          hr h₁
        refine hr'.goOnLeft ?_ ?_
        · intro b r₂ c₂ _ h₂
          -- what an operator objects to is never a variable
          rcases hap : op.apply tag.location a b with fault | m
          · refine .otherwise ?_
            rintro x l rfl
            exact BinaryOp.apply_ne_unbound op tag.location a b x l hap
          · exact .both h₂
        · intro b r₂ check hb' hret
          obtain rfl := hflag right hn.2 b r₂ hb'
          rw [hr] at hret
          cases hret
      · intro a r₁ check ha hret
        obtain rfl := hflag left hn.1 a r₁ ha
        rw [hr] at hret
        cases hret
  | assign tag target name value =>
    rw [eval_assign, checkNames_assign]
    by_cases hlow : budget < statementCost
    · rw [if_pos hlow]
      exact .otherwise (by simp)
    · rw [if_neg hlow, if_neg (by omega)]
      have hv := eval_agree_checkNames value (wellPlaced_of_isExpression hn)
        (Nat.sub_le_sub_right hb statementCost) (some tag.id) hr h
      refine hv.goOn _ _ ?_ ?_
      · intro v r₁ c₁ _ h₁
        exact .both (h₁.define name v)
      · intro v r₁ check _ hret
        exact .returned hret
  | ret tag value =>
    rw [eval_ret, checkNames]
    by_cases hlow : budget < statementCost
    · rw [if_pos hlow]
      exact .otherwise (by simp)
    · rw [if_neg hlow, if_neg (by omega)]
      have hv := eval_agree_checkNames value (wellPlaced_of_isExpression hn)
        (Nat.sub_le_sub_right hb statementCost) (some tag.id) hr h
      refine hv.goOnLeft ?_ ?_
      · intro v r₁ c₁ _ _
        exact .returned rfl
      · intro v r₁ check _ _
        exact .returned rfl
  | block tag table body =>
    rw [eval_block, checkNames_block]
    -- a block without statements has no value, and the analysis passes it
    split
    · exact .otherwise (by simp)
    · by_cases hlow : budget < blockCost
      · rw [if_pos hlow]
        exact .otherwise (by simp)
      · rw [if_neg hlow, if_neg (by omega)]
        have hbody := evalBody_agree_checkBody body hn (Nat.sub_le_sub_right hb blockCost)
          tag.location (r := r.enter.report (.entered tag.location r.enter.scopes.depth))
          (c := c.enter.report (.entered c.enter.scopes.depth)) hr h.enter
        refine hbody.goOn _ _ ?_ ?_
        · intro v r₁ c₁ _ h₁
          exact .both h₁.leave
        · intro v r₁ check _ hret
          exact .returned hret

theorem evalBody_agree_checkBody (body : List Node) (hn : allWellPlaced body = true)
    {budget budget' : Nat} (hb : budget ≤ budget') (place : Option Location) {r : EvalState}
    {c : NameState} (hr : r.returning = false) (h : Lockstep strict c.scopes r.scopes) :
    Agree strict (evalBody whole budget place r body) (checkBody f whole' budget' c body) := by
  match body with
  | [] => exact .otherwise (by simp)
  | [n] =>
    rw [allWellPlaced, Bool.and_eq_true] at hn
    have h₁ := eval_agree_checkNames n hn.1 hb (some n.id) hr h
    rw [evalBody, checkBody]
    rcases hc : checkNames f whole' budget' (some n.id) c n with ⟨fault | _, c₁⟩
    · rwa [hc] at h₁
    · rw [hc] at h₁
      simpa only [checkBody] using h₁
  | n :: next :: rest =>
    rw [allWellPlaced, Bool.and_eq_true] at hn
    have h₁ := eval_agree_checkNames n hn.1 hb (some n.id) hr h
    rw [evalBody_cons, checkBody_cons]
    refine h₁.goOn _ _ ?_ ?_
    · intro v r₁ c₁ _ h'
      -- after a return the analysis goes on alone
      by_cases hret : r₁.returning = true
      · rw [if_pos hret]
        exact .returned hret
      · rw [if_neg hret]
        exact evalBody_agree_checkBody (next :: rest) hn.2 hb place (by simpa using hret) h'
    · intro v r₁ check _ hret
      rw [if_pos hret]
      exact .returned hret

end

end Node

end Dec
