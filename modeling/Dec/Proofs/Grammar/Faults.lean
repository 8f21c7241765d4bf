import Dec.Proofs.Grammar.Completion

namespace Dec

namespace Grammar

variable {ε σ ν α β : Type} {limit : Nat}

/-- A reading that goes well has a result with one property, and one that fails does so for a reason
with another, whatever the state of the builder. -/
def Ends (post : α → Prop) (fails : Failure ε → Prop) (x : Reading ε σ α) : Prop :=
  ∀ s, match (x s).1 with
    | .ok a => post a
    | .error failure => fails failure

namespace Ends

variable {post : α → Prop} {post' : β → Prop} {fails : Failure ε → Prop}

theorem pure {a : α} (h : post a) : Ends post fails (Pure.pure a : Reading ε σ α) := fun _ => h

theorem throw {failure : Failure ε} (h : fails failure) :
    Ends post fails (MonadExcept.throw failure : Reading ε σ α) := fun _ => h

theorem bind {x : Reading ε σ α} {f : α → Reading ε σ β} (hx : Ends post fails x)
    (hf : ∀ a, post a → Ends post' fails (f a)) : Ends post' fails (x >>= f) := by
  intro s
  have hxs := hx s
  rcases hrun : x s with ⟨e | a, s₁⟩
  · rw [hrun] at hxs
    rw [bind_of_error hrun]
    exact hxs
  · rw [hrun] at hxs
    rw [bind_of_ok hrun]
    exact hf a hxs s₁

theorem request {build : Answer ε σ ν} {post : ν → Prop} (hpost : ∀ node, post node)
    (hfails : ∀ reason, fails (.refused reason)) (creation : Creation ν)
    (location : Option Location) : Ends post fails (Grammar.request build creation location) := by
  intro s
  rw [Grammar.request]
  rcases build creation location s with ⟨reason | node, s'⟩
  · exact hfails reason
  · exact hpost node

theorem of_eq_ok {x : Reading ε σ α} (hx : Ends post fails x) {s s' : σ} {a : α}
    (h : x s = (.ok a, s')) : post a := by
  have hxs := hx s
  rwa [h] at hxs

theorem of_eq_error {x : Reading ε σ α} (hx : Ends post fails x) {s s' : σ} {failure : Failure ε}
    (h : x s = (.error failure, s')) : fails failure := by
  have hxs := hx s
  rwa [h] at hxs

end Ends

def FaultsIn (kind : SyntaxFault → Prop) (x : Reading ε σ α) : Prop :=
  Ends (fun _ => True) (fun failure => ∀ fault, failure = .fault fault → kind fault) x

namespace FaultsIn

variable {kind : SyntaxFault → Prop}

theorem pure (a : α) : FaultsIn kind (Pure.pure a : Reading ε σ α) := Ends.pure trivial

theorem reject {fault : SyntaxFault} (hf : kind fault) :
    FaultsIn kind (MonadExcept.throw (.fault fault) : Reading ε σ α) := by
  refine Ends.throw fun fault' he => ?_
  rwa [← Failure.fault.inj he]

theorem bind {x : Reading ε σ α} {f : α → Reading ε σ β} (hx : FaultsIn kind x)
    (hf : ∀ a, FaultsIn kind (f a)) : FaultsIn kind (x >>= f) := Ends.bind hx fun a _ => hf a

/-- A builder does not speak of the syntax. -/
theorem request (build : Answer ε σ ν) (creation : Creation ν) (location : Option Location) :
    FaultsIn kind (Grammar.request build creation location) := by
  refine Ends.request (fun _ => trivial) (fun reason fault he => ?_) creation location
  cases he

theorem requestOperator (build : Answer ε σ ν) (symbol : String) (left right : ν)
    (location : Option Location) :
    FaultsIn kind (Grammar.requestOperator build symbol left right location) := by
  rw [Grammar.requestOperator]
  split
  · exact request _ _ _
  · refine Ends.throw fun fault he => ?_
    cases he

theorem finishOperand (build : Answer ε σ ν) (head : Head) (value : ν) (c : State ν)
    (parens : List (Paren ν)) :
    FaultsIn kind (Grammar.finishOperand build head value c parens) := by
  cases parens with
  | nil =>
    cases head with
    | assign name => exact (request _ _ _).bind fun _ => (request _ _ _).bind fun _ => pure _
    | ret word => exact (request _ _ _).bind fun _ => pure _
  | cons paren outer => cases paren <;> exact pure _

theorem closeBlock (build : Answer ε σ ν) (c : State ν) :
    FaultsIn kind (Grammar.closeBlock build c) := by
  rw [Grammar.closeBlock]
  split
  · exact pure _
  · exact (request _ _ _).bind fun _ => pure _

theorem within {depth : Nat} {t : Token} {inner : Reading ε σ α} (ht : kind (.tooDeep t))
    (h : FaultsIn kind inner) : FaultsIn kind (Grammar.within limit depth t inner) := by
  rw [Grammar.within]
  split
  · exact h
  · exact .reject ht

end FaultsIn

section Descent

def IsTooDeep (fault : SyntaxFault) : Prop := ∃ t, fault = .tooDeep t

variable (build : Answer ε σ ν)

theorem Expression.read_faultsIn (e : Expression) (depth : Nat) :
    FaultsIn IsTooDeep (e.read limit build depth) := by
  induction e generalizing depth with
  | literal w => exact .request _ _ _
  | var w => exact .request _ _ _
  | group o e c ih => exact .within ⟨_, rfl⟩ (ih _)
  | binary o l op r c ihl ihr =>
    exact .within ⟨_, rfl⟩ ((ihl _).bind fun _ => (ihr _).bind fun _ => .requestOperator _ _ _ _ _)

namespace Statement

mutual

theorem read_faultsIn (st : Statement) (depth : Nat) (table : Table) (next : Nat) :
    FaultsIn IsTooDeep (st.read limit build depth table next) := by
  cases st with
  | assign n g e =>
    exact (e.read_faultsIn build depth).bind fun _ => (FaultsIn.request _ _ _).bind fun _ =>
      (FaultsIn.request _ _ _).bind fun _ => .pure _
  | ret w e =>
    exact (e.read_faultsIn build depth).bind fun _ => (FaultsIn.request _ _ _).bind fun _ => .pure _
  | block o body c =>
    exact .within ⟨_, rfl⟩ ((readAll_faultsIn body _ _ _).bind fun _ =>
      (FaultsIn.request _ _ _).bind fun _ => .pure _)

theorem readAll_faultsIn (ss : List Statement) (depth : Nat) (table : Table) (next : Nat) :
    FaultsIn IsTooDeep (readAll limit build depth table next ss) := by
  cases ss with
  | nil => exact .pure _
  | cons st rest =>
    exact (read_faultsIn st _ _ _).bind fun _ => (readAll_faultsIn rest _ _ _).bind fun _ => .pure _

end

end Statement

/-- What has a derivation can only be too deep. -/
theorem steps_derivation_faultsIn (d : Derivation) (next : Nat) :
    FaultsIn IsTooDeep (steps limit build d.tokens ⟨.program, [], next⟩) := by
  rw [steps_derivation]
  refine FaultsIn.bind (.within ⟨_, rfl⟩ ?_) fun _ => .pure _
  exact (Statement.readAll_faultsIn build d.body _ _ _).bind fun _ =>
    (FaultsIn.request _ _ _).bind fun _ => .pure _

end Descent

section Step

def misplacedCodes : List String := ["P001", "P005", "P009"]

def unendedCodes : List String := ["P004", "P010"]

/-- What can be wrong with a token that is not the end: it is one more opening sign where too many are
open, something follows the whole program, or it is none of those that are expected. -/
inductive Misfit (limit : Nat) (c : State ν) (t : Token) : SyntaxFault → Prop
  | tooDeep (hd : limit ≤ c.depth) (ht : t.kind.turn = 1) : Misfit limit c t (.tooDeep t)
  | trailing {program : ν} (hc : c.phase = .complete program) : Misfit limit c t (.trailingInput t)
  | misplaced {fault : SyntaxFault} (hf : fault.found = t) (hcode : fault.code ∈ misplacedCodes)
      (hc : ∀ program, c.phase ≠ .complete program) : Misfit limit c t fault

theorem FaultsIn.deeper {c : State ν} {t : Token} (ht : t.kind.turn = 1) (next : State ν) :
    FaultsIn (Misfit limit c t)
      (if c.depth < limit then Pure.pure next else Grammar.reject (.tooDeep t) :
        Reading ε σ (State ν)) := by
  split
  · exact .pure _
  · rename_i hd
    exact .reject (.tooDeep (Nat.not_lt.mp hd) ht)

/-- A token that does not fit is the one that the fault names. -/
theorem step_faultsIn (build : Answer ε σ ν) (t : Token) (c : State ν) :
    FaultsIn (Misfit limit c t) (step limit build t c) := by
  have misplaced {fault : SyntaxFault} (hf : fault.found = t) (hcode : fault.code ∈ misplacedCodes)
      (hc : ∀ program, c.phase ≠ .complete program) :
      FaultsIn (Misfit limit c t) (Grammar.reject fault : Reading ε σ (State ν)) :=
    .reject (.misplaced hf hcode hc)
  obtain ⟨phase, blocks, next⟩ := c
  cases phase with
  | program =>
    rw [step]
    dsimp only
    split
    · rename_i hk
      exact .deeper (by rw [hk]; rfl) _
    · exact misplaced rfl (by simp [SyntaxFault.code, misplacedCodes]) (by simp)
  | statement =>
    rw [step]
    dsimp only
    split
    · exact .closeBlock _ _
    · rename_i hk
      exact .deeper (by rw [hk]; rfl) _
    · exact .pure _
    · exact .pure _
    all_goals exact misplaced rfl (by simp [SyntaxFault.code, misplacedCodes]) (by simp)
  | assignSign name =>
    rw [step]
    dsimp only
    split
    · exact .pure _
    all_goals exact misplaced rfl (by simp [SyntaxFault.code, misplacedCodes]) (by simp)
  | operand head parens =>
    rw [step]
    dsimp only
    split
    · exact (FaultsIn.request _ _ _).bind fun _ => .finishOperand _ _ _ _ _
    · exact (FaultsIn.request _ _ _).bind fun _ => .finishOperand _ _ _ _ _
    · exact (FaultsIn.request _ _ _).bind fun _ => .finishOperand _ _ _ _ _
    · rename_i hk
      exact .deeper (by rw [hk]; rfl) _
    all_goals exact misplaced rfl (by simp [SyntaxFault.code, misplacedCodes]) (by simp)
  | afterLeft head opened left outer =>
    rw [step]
    dsimp only
    split
    · exact .finishOperand _ _ _ _ _
    · exact .pure _
    all_goals exact misplaced rfl (by simp [SyntaxFault.code, misplacedCodes]) (by simp)
  | afterRight head opened left operator right outer =>
    rw [step]
    dsimp only
    split
    · exact (FaultsIn.requestOperator _ _ _ _ _).bind fun _ => .finishOperand _ _ _ _ _
    · exact misplaced rfl (by simp [SyntaxFault.code, misplacedCodes]) (by simp)
  | complete program => exact .reject (.trailing rfl)

/-- The end of the input does not fit inside a program, and that is all that it can mean. -/
theorem finish_error {t : Token} {c : State ν} {fault : SyntaxFault} (h : finish t c = .error fault) :
    fault.found = t ∧ fault.code ∈ unendedCodes ∧ ∀ program, c.phase ≠ .complete program := by
  obtain ⟨phase, blocks, next⟩ := c
  cases phase <;> cases h <;> exact ⟨rfl, by simp [SyntaxFault.code, unendedCodes], by simp⟩

/-- Where nothing more is expected the program is there. -/
theorem finish_ok {t : Token} {c : State ν} {program : ν} (h : finish t c = .ok program) :
    c.phase = .complete program := by
  obtain ⟨phase, blocks, next⟩ := c
  cases phase <;> cases h
  rfl

end Step

/-- A fault is reported at the token that it names, under its code. -/
theorem diagnostic_of_found (fault : SyntaxFault) :
    fault.diagnostic.location = fault.found.location ∧ fault.diagnostic.code = some fault.code := by
  cases fault <;> exact ⟨rfl, rfl⟩

end Grammar

end Dec
