import Dec.Proofs.Evaluation.Run
import Dec.Proofs.Naming.Scoping
import Dec.Proofs.Tree.Statements

namespace Dec

section Chains

variable {α : Type}

def Chain.binding? (chain : Chain α) (level : Nat) (name : String) : Option (Option α) :=
  chain[level]?.bind (·.find? name)

theorem Chain.binding?_define (c : Chain α) (name x : String) (value : Option α) (level : Nat)
    (h : ¬ (level = 0 ∧ name = x)) :
    (c.define name value).binding? level x = c.binding? level x := by
  cases c with
  | nil => rfl
  | cons b outer =>
    cases level with
    | zero =>
      show (b.define name value).find? x = b.find? x
      rw [Bindings.find?_define, if_neg fun hx => h ⟨rfl, hx.symm⟩]
    | succ level => rfl

theorem Chain.find?_define_of_ne (c : Chain α) {name x : String} (value : Option α)
    (h : name ≠ x) : (c.define name value).find? x = c.find? x := by
  cases c with
  | nil => rfl
  | cons b outer =>
    rw [define, find?, find?, Bindings.find?_define, if_neg (Ne.symm h)]

end Chains

namespace Node

section Settled

/-- The scopes after a visit of a node, given those before it. A visit that fails binds nothing, and
one that passes binds what the node itself assigns. -/
def settled : Node → Option (Option Scalar) → Chain Scalar → Chain Scalar
  | assign _ _ name _, some value, c => c.define name value
  | _, _, c => c

variable (n : Node) (outcome : Option (Option Scalar)) (c : Chain Scalar)

theorem settled_none : n.settled none c = c := by
  cases n <;> rfl

theorem settled_of_not_assignment (hn : n.isAssignment = false) : n.settled outcome c = c := by
  cases n with
  | assign => cases hn
  | _ => rfl

theorem tail_settled : (n.settled outcome c).tail = c.tail := by
  by_cases hn : n.isAssignment = true
  · cases n with
    | assign tag target name value =>
      cases outcome with
      | none => rfl
      | some value => cases c <;> rfl
    | _ => cases hn
  · rw [settled_of_not_assignment n outcome c (Bool.eq_false_iff.mpr hn)]

theorem declare_eq_settled : n.declare c = n.settled (some none) c := by
  cases n <;> rfl

/-- What a visit owes to the scopes around it. There are as many as before, and a binding that is
not as before is that of the name which the node itself assigns, in the innermost scope, after a
visit that passed; so every other name is found as before. In all other cases, and so for blocks,
returns and expressions, the scopes are the same ones in every respect. -/
structure Framed (before after : Chain Scalar) : Prop where
  length : after.length = before.length
  binding : ∀ level x, after.binding? level x ≠ before.binding? level x →
    level = 0 ∧ n.assigns x = true ∧ outcome.isSome = true
  resolves : ∀ x, n.assigns x = false ∨ outcome = none → after.find? x = before.find? x
  unchanged : n.isAssignment = false ∨ outcome = none → after = before

theorem framed_refl : Framed n outcome c c :=
  ⟨rfl, fun _ _ h => absurd rfl h, fun _ _ => rfl, fun _ => rfl⟩

theorem framed_settled : Framed n outcome c (n.settled outcome c) := by
  match n, outcome with
  | n, none =>
    rw [settled_none]
    exact framed_refl n none c
  | assign tag target name value, some v =>
    refine ⟨?_, fun level x hne => ?_, fun x hx => ?_, fun h => ?_⟩
    · show (c.define name v).length = c.length
      cases c <;> rfl
    · by_contra htouched
      apply hne
      apply Chain.binding?_define
      rintro ⟨hlevel, hname⟩
      exact htouched ⟨hlevel, beq_iff_eq.mpr hname, rfl⟩
    · rcases hx with hx | hx
      · exact Chain.find?_define_of_ne c v (beq_eq_false_iff_ne.mp hx)
      · cases hx
    · rcases h with h | h <;> cases h
  | literal tag value, some v => exact framed_refl _ _ c
  | var tag name, some v => exact framed_refl _ _ c
  | binary tag op left right, some v => exact framed_refl _ _ c
  | ret tag value, some v => exact framed_refl _ _ c
  | block tag table body, some v => exact framed_refl _ _ c

end Settled

section Run

variable (whole : Option Location)

mutual

/-- A run of a node, whatever ends it, binds at most the name that the node itself assigns. -/
theorem eval_scopes (n : Node) (hn : n.wellPlaced = true) (budget : Nat) (r : EvalState) :
    (n.eval whole budget r).2.scopes =
      n.settled ((n.eval whole budget r).1.toOption.map some) r.scopes := by
  cases n with
  | literal tag value => rfl
  | var tag name =>
    rw [eval_state_of_isExpression _ rfl]
    rfl
  | binary tag op left right =>
    rw [eval_state_of_isExpression (binary tag op left right) hn]
    rfl
  | assign tag target name value =>
    have hv := eval_state_of_isExpression value hn whole (budget - statementCost) r
    rw [eval_assign]
    split
    · rfl
    · rcases hrun : value.eval whole (budget - statementCost) r with ⟨fault | v, s⟩
      · rw [hrun] at hv
        exact congrArg EvalState.scopes hv
      · rw [hrun] at hv
        obtain rfl : s = r := hv
        rfl
  | ret tag value =>
    have hv := eval_state_of_isExpression value hn whole (budget - statementCost) r
    rw [settled_of_not_assignment _ _ _ rfl, eval_ret]
    split
    · rfl
    · refine goOn_snd (EvalState.scopes · = r.scopes) ?_ ?_
      · rintro s rfl
        exact congrArg EvalState.scopes hv
      · intro v s hs
        rw [hs] at hv
        obtain rfl : s = r := hv
        rfl
  | block tag table body =>
    -- the scope of the block goes, and the statements have left those around it alone
    have hbody := evalBody_tail body hn (budget - blockCost) tag.location
      (r.enter.report (.entered tag.location r.enter.scopes.depth))
    rw [settled_of_not_assignment _ _ _ rfl, eval_block]
    split
    · rfl
    · split
      · rfl
      · refine goOn_snd (EvalState.scopes · = r.scopes) ?_ ?_
        · rintro s rfl
          exact hbody
        · intro v s hs
          rw [hs] at hbody
          exact hbody

/-- Statements that run in a scope leave the scopes around it alone, wherever they stop. -/
theorem evalBody_tail (body : List Node) (hn : allWellPlaced body = true) (budget : Nat)
    (place : Option Location) (r : EvalState) :
    (evalBody whole budget place r body).2.scopes.tail = r.scopes.tail := by
  match body with
  | [] => rfl
  | [n] =>
    rw [allWellPlaced, Bool.and_eq_true] at hn
    rw [evalBody, eval_scopes n hn.1 budget r, tail_settled]
  | n :: next :: rest =>
    rw [allWellPlaced, Bool.and_eq_true] at hn
    have hfirst : (n.eval whole budget r).2.scopes.tail = r.scopes.tail := by
      rw [eval_scopes n hn.1 budget r, tail_settled]
    rw [evalBody_cons]
    refine goOn_snd (fun s : EvalState => s.scopes.tail = r.scopes.tail) ?_ ?_
    · rintro s rfl
      exact hfirst
    · intro v s hs
      rw [hs] at hfirst
      split
      · exact hfirst
      · exact (evalBody_tail (next :: rest) hn.2 budget place s).trans hfirst

end

/-- An analysis of a node, whatever ends it, binds at most the name that the node itself assigns. -/
theorem checkNames_scopes (f : Forest) (n : Node) (hn : n.wellPlaced = true) (budget : Nat)
    (statement : Option Nat) (r : NameState) :
    (n.checkNames f whole budget statement r).2.scopes =
      n.settled ((n.checkNames f whole budget statement r).1.toOption.map fun _ => none)
        r.scopes := by
  have hleaves := checkNames_leaves f whole n hn budget statement r
  rcases hrun : n.checkNames f whole budget statement r with ⟨fault | _, s⟩
  · rw [hrun] at hleaves
    cases hleaves with
    | failed h => exact h.trans (n.settled_none r.scopes).symm
  · rw [hrun] at hleaves
    cases hleaves with
    | passed h => exact h.trans (n.declare_eq_settled r.scopes)

end Run

section Frames

variable {n : Node}

/-- Runs and analyses leave the scopes around a tree alone, whichever scopes these are and whether a
visit passes, returns or fails: a block, a return or an expression changes nothing at all, and an
assignment nothing but the name that it binds in the innermost scope when it passes. -/
theorem visit_framed (hn : n.wellPlaced = true) (whole : Option Location) (budget : Nat) :
    (∀ r : EvalState, Framed n ((n.eval whole budget r).1.toOption.map some) r.scopes
      (n.eval whole budget r).2.scopes) ∧
    ∀ (f : Forest) (statement : Option Nat) (r : NameState),
      Framed n ((n.checkNames f whole budget statement r).1.toOption.map fun _ => none) r.scopes
        (n.checkNames f whole budget statement r).2.scopes := by
  constructor
  · intro r
    rw [eval_scopes whole n hn budget r]
    exact n.framed_settled _ r.scopes
  · intro f statement r
    rw [checkNames_scopes whole f n hn budget statement r]
    exact n.framed_settled _ r.scopes

/-- A block hides a name, hides it once more in a block inside, and fails there; the name means what
it meant before. -/
theorem visit_framed_hidden_name :
    let inner := block ⟨5, none⟩ ⟨1, some 0, 1, .empty⟩
      [.assign ⟨6, none⟩ ⟨7, none⟩ "x" (.literal ⟨8, none⟩ (.int 3)),
        .ret ⟨9, none⟩ (.binary ⟨10, none⟩ .modulus (.var ⟨11, none⟩ "x") (.var ⟨12, none⟩ "y"))]
    let outer := block ⟨1, none⟩ ⟨0, none, 0, .empty⟩
      [.assign ⟨2, none⟩ ⟨3, none⟩ "x" (.literal ⟨4, none⟩ (.int 2)), inner]
    let r : EvalState :=
      ⟨[⟨[("y", some (.number (.int 0)))]⟩, ⟨[("x", some (.number (.int 1)))]⟩], false, []⟩
    (outer.eval none 988 r).1 = .error (.divisionByZero .modulus none) ∧
      (outer.eval none 988 r).2.scopes.find? "x" = some (some (.number (.int 1))) := by
  intro inner outer r
  have hframed := (visit_framed (n := outer) (by decide) none 988).1 r
  refine ⟨rfl, ?_⟩
  rw [hframed.resolves "x" (.inl rfl)]
  rfl

end Frames

end Node

end Dec
