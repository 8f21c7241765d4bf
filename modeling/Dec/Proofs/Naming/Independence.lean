import Dec.Proofs.Naming.Unbound

/-!
Bindings that a program does not declare. Two runs of a program that name analysis passes read the same
values wherever they are given the same values for the declared names, so they end in the same way.
-/
namespace Dec

def Bindings.value? (b : Bindings Scalar) (x : String) : Option Scalar := (b.find? x).join

def Chain.value? (c : Chain Scalar) (x : String) : Option Scalar := (c.find? x).join

def givenValue? (bindings : List (String × Option Scalar)) (x : String) : Option Scalar :=
  (Bindings.ofPairs bindings).value? x

theorem Bindings.value?_define (b : Bindings Scalar) (name x : String) (v : Scalar) :
    (b.define name (some v)).value? x = if x = name then some v else b.value? x := by
  rw [value?, find?_define]
  split
  · rfl
  · rfl

theorem Chain.value?_cons (b : Bindings Scalar) (outer : Chain Scalar) (x : String) :
    Chain.value? (b :: outer) x = if b.contains x then b.value? x else outer.value? x := by
  rw [Chain.value?, Chain.find?, Bindings.value?, Bindings.contains]
  rcases b.find? x with _ | w
  · rfl
  · rfl

/-- The scopes of a name analysis and of two runs, from the innermost on. The runs have the same scopes,
which bind what is declared in them, but for the outermost ones: these only have the same values for
what is declared there. -/
inductive Indistinct : Chain Scalar → Chain Scalar → Chain Scalar → Prop
  | nil : Indistinct [] [] []
  | outermost {names values values' : Bindings Scalar}
      (h : ∀ x, names.contains x = true → values.value? x = values'.value? x) :
      Indistinct [names] [values] [values']
  | inner {names values : Bindings Scalar} {outer outer₁ outer₂ : Chain Scalar}
      (h : ∀ x, names.contains x = true → values.contains x = true)
      (ho : Indistinct outer outer₁ outer₂) :
      Indistinct (names :: outer) (values :: outer₁) (values :: outer₂)

namespace Indistinct

variable {names values values' : Chain Scalar}

/-- What is declared has the same value in both runs. -/
theorem value?_eq (h : Indistinct names values values') {x : String}
    (hx : names.contains x = true) : values.value? x = values'.value? x := by
  induction h with
  | nil => cases hx
  | @outermost names values values' h =>
    rw [Chain.contains_cons, Bool.or_eq_true] at hx
    have hx : names.contains x = true := hx.resolve_right Bool.false_ne_true
    have hempty : ∀ b : Bindings Scalar, Chain.value? [b] x = b.value? x := by
      intro b
      rw [Chain.value?_cons]
      -- a scope that does not bind the name gives it no value either
      cases hb : b.find? x <;> simp [Bindings.contains, Bindings.value?, Chain.value?, Chain.find?, hb]
    rw [hempty, hempty, h x hx]
  | @inner names values outer outer₁ outer₂ h ho ih =>
    rw [Chain.value?_cons, Chain.value?_cons]
    by_cases hb : values.contains x = true
    · rw [if_pos hb, if_pos hb]
    · rw [if_neg hb, if_neg hb]
      -- then the name is not declared in this scope either, so it is declared further out
      apply ih
      rw [Chain.contains_cons, Bool.or_eq_true] at hx
      exact hx.resolve_left fun hn => hb (h x hn)

theorem enter (h : Indistinct names values values') :
    Indistinct (.empty :: names) (.empty :: values) (.empty :: values') :=
  .inner (fun _ hx => by cases hx) h

theorem leave (h : Indistinct names values values') :
    Indistinct names.tail values.tail values'.tail := by
  cases h with
  | nil => exact .nil
  | outermost h => exact .nil
  | inner h ho => exact ho

/-- An assignment of the same value in both runs declares its name. -/
theorem define (h : Indistinct names values values') (name : String) (v : Scalar) :
    Indistinct (names.define name none) (values.define name (some v))
      (values'.define name (some v)) := by
  cases h with
  | nil => exact .nil
  | outermost h =>
    refine .outermost fun x hx => ?_
    rw [Bindings.value?_define, Bindings.value?_define]
    rw [Bindings.contains_define, Bool.or_eq_true, decide_eq_true_iff] at hx
    split
    · rfl
    · rename_i hne
      exact h x (hx.resolve_left hne)
  | inner h ho =>
    refine .inner (fun x hx => ?_) ho
    rw [Bindings.contains_define, Bool.or_eq_true, decide_eq_true_iff] at hx ⊢
    exact hx.imp_right (h x)

end Indistinct

/-- How two runs of one tree and its name analysis go together: the analysis objects, or both runs fail
in the same way, or both go through with the same value, and then either both returned early or all
three go on from scopes that are in step. -/
inductive SameRun : Except NameFault Unit × NameState → Except EvalFault Scalar × EvalState →
    Except EvalFault Scalar × EvalState → Prop
  | objected {fault c run run'} : SameRun (.error fault, c) run run'
  | failed {check fault r r'} : SameRun check (.error fault, r) (.error fault, r')
  | returned {check v r r'} (h : r.returning = true) (h' : r'.returning = true) :
    SameRun check (.ok v, r) (.ok v, r')
  | passed {c v r r'} (hf : r.returning = r'.returning)
      (h : Indistinct c.scopes r.scopes r'.scopes) : SameRun (.ok (), c) (.ok v, r) (.ok v, r')

/-- Runs that are too deep fail in the same way, and an analysis that is too deep objects. -/
theorem SameRun.within {low deep : Prop} [Decidable low] [Decidable deep]
    {check : Except NameFault Unit × NameState} {run run' : Except EvalFault Scalar × EvalState}
    {fault : EvalFault} {r r' : EvalState} {objection : NameFault} {c : NameState}
    (h : SameRun check run run') :
    SameRun (if deep then (.error objection, c) else check)
      (if low then (.error fault, r) else run) (if low then (.error fault, r') else run') := by
  by_cases hlow : low
  · rw [if_pos hlow, if_pos hlow]
    exact .failed
  · rw [if_neg hlow, if_neg hlow]
    by_cases hdeep : deep
    · rw [if_pos hdeep]
      exact .objected
    · rw [if_neg hdeep]
      exact h

/-- Runs that are in step with an analysis stay so when all three go on in step. -/
theorem SameRun.goOn {check : Except NameFault Unit × NameState}
    {run run' : Except EvalFault Scalar × EvalState}
    {k : Scalar → EvalState → Except EvalFault Scalar × EvalState}
    {m : Unit → NameState → Except NameFault Unit × NameState}
    (h : SameRun check run run') (e : EvalState → EvalState) (l : NameState → NameState)
    (hk : ∀ v r r' c, run = (.ok v, r) → run' = (.ok v, r') → r.returning = r'.returning →
      Indistinct c.scopes r.scopes r'.scopes → SameRun (m () c) (k v r) (k v r'))
    (hr : ∀ v r r' check', run = (.ok v, r) → r.returning = true → r'.returning = true →
      SameRun check' (k v r) (k v r')) :
    SameRun (Dec.goOn check l m) (Dec.goOn run e k) (Dec.goOn run' e k) := by
  cases h with
  | objected => exact .objected
  | failed => exact .failed
  | returned h h' => exact hr _ _ _ _ rfl h h'
  | passed hf h => exact hk _ _ _ _ rfl rfl hf h

namespace Node

theorem eval_var (whole : Option Location) (budget : Nat) (r : EvalState) (tag : Tag)
    (name : String) :
    (var tag name).eval whole budget r =
      match r.scopes.value? name with
      | some v => (.ok v, r)
      | none => (.error (.unbound name tag.location), r) := by
  rw [eval, Chain.value?]
  rcases r.scopes.find? name with _ | _ | v
  · rfl
  · rfl
  · rfl

variable {f : Forest} {whole whole' : Option Location}

mutual

/-- Two runs of a tree and its name analysis stay in step. -/
theorem eval_sameRun (n : Node) (hn : n.wellPlaced = true) (budget budget' : Nat)
    (statement : Option Nat) {r r' : EvalState} {c : NameState} (hr : r.returning = false)
    (hr' : r'.returning = false) (h : Indistinct c.scopes r.scopes r'.scopes) :
    SameRun (n.checkNames f whole' budget' statement c) (n.eval whole budget r)
      (n.eval whole budget r') := by
  have hflag : r.returning = r'.returning := hr.trans hr'.symm
  -- expressions keep the flag down
  have hkept : ∀ e : Node, e.isExpression = true → ∀ {budget : Nat} {v : Scalar} {r₁ : EvalState},
      e.eval whole budget r = (.ok v, r₁) → r₁.returning = false := by
    intro e he budget v r₁ hv
    have hstate : r₁ = r := by rw [← eval_state_of_isExpression e he whole budget r, hv]
    rw [hstate, hr]
  cases n with
  | literal tag value => exact .passed hflag h
  | var tag name =>
    rw [eval_var, eval_var, checkNames]
    split
    · rename_i hname
      rw [← h.value?_eq hname]
      cases r.scopes.value? name with
      | none => exact .failed
      | some v => exact .passed hflag h
    · exact .objected
  | binary tag op left right =>
    rw [wellPlaced, Bool.and_eq_true] at hn
    rw [eval_binary, eval_binary, checkNames_binary]
    refine .within ?_
    have hl := eval_sameRun left (wellPlaced_of_isExpression hn.1) (budget - evalCost op)
      (budget' - operatorCost) statement hr hr' h
    refine hl.goOn _ _ ?_ ?_
    · intro a r₁ r₁' c₁ ha ha' hf h₁
      have hr₁ := hkept left hn.1 ha
      have hright := eval_sameRun right (wellPlaced_of_isExpression hn.2) (budget - evalCost op)
        (budget' - operatorCost) statement hr₁ (hf ▸ hr₁) h₁
      rw [← goOn_ok (right.checkNames f whole' (budget' - operatorCost) statement c₁)]
      refine hright.goOn _ _ ?_ ?_
      · intro b r₂ r₂' c₂ _ _ hf₂ h₂
        -- the operator does not look at the scopes
        cases op.apply tag.location a b with
        | error fault => exact .failed
        | ok v => exact .passed hf₂ h₂
      · intro b r₂ r₂' check hb hret _
        have hstate : r₂ = r₁ := by
          rw [← eval_state_of_isExpression right hn.2 whole (budget - evalCost op) r₁, hb]
        rw [hstate, hr₁] at hret
        cases hret
    · intro a r₁ r₁' check ha hret _
      rw [hkept left hn.1 ha] at hret
      cases hret
  | assign tag target name value =>
    rw [eval_assign, eval_assign, checkNames_assign]
    refine .within ?_
    have hv := eval_sameRun value (wellPlaced_of_isExpression hn) (budget - statementCost)
      (budget' - statementCost) (some tag.id) hr hr' h
    refine hv.goOn _ _ ?_ ?_
    · exact fun v r₁ r₁' c₁ _ _ hf h₁ => .passed hf (h₁.define name v)
    · intro v r₁ r₁' check hrun hret _
      rw [hkept value hn hrun] at hret
      cases hret
  | ret tag value =>
    rw [eval_ret, eval_ret, checkNames]
    refine .within ?_
    have hv := eval_sameRun value (wellPlaced_of_isExpression hn) (budget - statementCost)
      (budget' - statementCost) (some tag.id) hr hr' h
    rw [← goOn_ok (value.checkNames f whole' (budget' - statementCost) (some tag.id) c)]
    refine hv.goOn _ _ ?_ ?_
    · exact fun v r₁ r₁' c₁ _ _ _ _ => .returned rfl rfl
    · exact fun v r₁ r₁' check _ _ _ => .returned rfl rfl
  | block tag table body =>
    rw [eval_block, eval_block, checkNames_block]
    by_cases hempty : body.isEmpty = true
    · rw [if_pos hempty, if_pos hempty]
      exact .failed
    rw [if_neg hempty, if_neg hempty]
    refine .within ?_
    have hin : (r.enter.report (.entered tag.location r.enter.scopes.depth)).returning = false := hr
    have hin' : (r'.enter.report (.entered tag.location r'.enter.scopes.depth)).returning = false :=
      hr'
    have hbody := evalBody_sameRun body hn (budget - blockCost) (budget' - blockCost) tag.location
      hin hin' (c := c.enter.report (.entered c.enter.scopes.depth)) h.enter
    refine hbody.goOn _ _ ?_ ?_
    · exact fun v r₁ r₁' c₁ _ _ hf h₁ => .passed hf h₁.leave
    · exact fun v r₁ r₁' check _ hret hret' => .returned hret hret'

theorem evalBody_sameRun (body : List Node) (hn : allWellPlaced body = true) (budget budget' : Nat)
    (place : Option Location) {r r' : EvalState} {c : NameState} (hr : r.returning = false)
    (hr' : r'.returning = false) (h : Indistinct c.scopes r.scopes r'.scopes) :
    SameRun (checkBody f whole' budget' c body) (evalBody whole budget place r body)
      (evalBody whole budget place r' body) := by
  match body with
  | [] => exact .failed
  | [n] =>
    rw [allWellPlaced, Bool.and_eq_true] at hn
    have hlast := eval_sameRun n hn.1 budget budget' (some n.id) hr hr' h
    have hcheck : checkBody f whole' budget' c [n] =
        n.checkNames f whole' budget' (some n.id) c :=
      (checkBody_cons f whole' budget' c n []).trans (goOn_ok _)
    rwa [hcheck]
  | n :: next :: rest =>
    rw [allWellPlaced, Bool.and_eq_true] at hn
    have hfirst := eval_sameRun n hn.1 budget budget' (some n.id) hr hr' h
    rw [evalBody_cons, evalBody_cons, checkBody_cons]
    refine hfirst.goOn _ _ ?_ ?_
    · intro v r₁ r₁' c₁ _ _ hf h₁
      -- both runs stop here, or neither does
      by_cases hret : r₁.returning = true
      · have hret' : r₁'.returning = true := hf ▸ hret
        rw [if_pos hret, if_pos hret']
        exact .returned hret hret'
      · have hret' : ¬ r₁'.returning = true := hf ▸ hret
        rw [if_neg hret, if_neg hret']
        exact evalBody_sameRun (next :: rest) hn.2 budget budget' place (by simpa using hret)
          (by simpa using hret') h₁
    · intro v r₁ r₁' check _ hret hret'
      rw [if_pos hret, if_pos hret']
      exact .returned hret hret'

end

end Node

/-- Bindings that are not declared cannot influence a run. A program that passes name analysis with some
names predeclared has the same value, or fails in the same way at the same place, with any two lists
of bindings that give these names the same values; where no name is predeclared it does so with any
two lists. -/
theorem evaluate_eq_of_analyzeNames (budget budget' : Nat) (f : Forest) {n : Node}
    (hn : n.wellPlaced = true) :
    (∀ predeclared : List String, (analyzeNames budget' f n predeclared).1 = .ok () →
      ∀ bindings bindings' : List (String × Option Scalar),
        (∀ x ∈ predeclared, givenValue? bindings x = givenValue? bindings' x) →
          evaluate budget n bindings = evaluate budget n bindings') ∧
    ((analyzeNames budget' f n []).1 = .ok () →
      ∀ bindings bindings' : List (String × Option Scalar),
        evaluate budget n bindings = evaluate budget n bindings') := by
  have hall : ∀ predeclared : List String, (analyzeNames budget' f n predeclared).1 = .ok () →
      ∀ bindings bindings' : List (String × Option Scalar),
        (∀ x ∈ predeclared, givenValue? bindings x = givenValue? bindings' x) →
          evaluate budget n bindings = evaluate budget n bindings' := by
    intro predeclared hok bindings bindings' hgiven
    rw [analyzeNames_fst] at hok
    rw [evaluate_eq, evaluate_eq]
    have hstart : Indistinct [.ofPairs (predeclared.map fun name => (name, none))]
        [.ofPairs bindings] [.ofPairs bindings'] :=
      .outermost fun x hx => hgiven x ((Bindings.contains_ofPairs x none predeclared).mp hx)
    have hruns : SameRun
        (n.checkNames f n.location budget' none
          ⟨[.ofPairs (predeclared.map fun name => (name, none))], []⟩)
        (n.eval n.location budget ⟨[.ofPairs bindings], false, []⟩)
        (n.eval n.location budget ⟨[.ofPairs bindings'], false, []⟩) :=
      n.eval_sameRun hn _ _ none rfl rfl hstart
    generalize n.eval n.location budget ⟨[.ofPairs bindings], false, []⟩ = run at hruns ⊢
    generalize n.eval n.location budget ⟨[.ofPairs bindings'], false, []⟩ = run' at hruns ⊢
    generalize n.checkNames f n.location budget' none
      ⟨[.ofPairs (predeclared.map fun name => (name, none))], []⟩ = check at hruns hok
    cases hruns with
    | objected => cases hok
    | failed => rfl
    | returned => rfl
    | passed => rfl
  exact ⟨hall, fun hok bindings bindings' => hall [] hok bindings bindings' (by simp)⟩

/-- A block that reads the declared `x` and its own `y` in an inner block, which returns. One list of
bindings gives a value to `y` as well, the other one binds `z` instead. -/
theorem evaluate_eq_of_analyzeNames_inner_return :
    let tag : Tag := default
    let sum : Node := .binary tag .plus (.var tag "y") (.var tag "x")
    let n : Node := .block tag default
      [.assign tag tag "y" (.var tag "x"), .block tag default [.ret tag sum], .ret tag (.var tag "y")]
    (analyzeNames 10 .empty n ["x"]).1 = .ok () ∧
      evaluate 10 n [("y", some (.number (.int 7))), ("x", some (.number (.int 2)))] =
        evaluate 10 n [("x", some (.number (.int 2))), ("z", none)] := by
  intro tag sum n
  have hok : (analyzeNames 10 .empty n ["x"]).1 = .ok () := by rfl
  refine ⟨hok, (evaluate_eq_of_analyzeNames 10 10 .empty (by decide)).1 ["x"] hok _ _ ?_⟩
  intro x hx
  obtain rfl := List.mem_singleton.mp hx
  rfl

end Dec
