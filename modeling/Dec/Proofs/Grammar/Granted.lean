import Dec.Proofs.Grammar.Faults
import Dec.Proofs.Grammar.Making

namespace Dec.Grammar

/-- A reading that goes well has a result with a property, and one that fails has a fault of the
syntax. -/
def Granted {ε σ α : Type} (post : α → Prop) (x : Reading ε σ α) : Prop :=
  Ends post (fun failure => ∃ fault, failure = .fault fault) x

def Paren.Made : Paren (Option Node) → Prop
  | .left _ => True
  | .right _ v operator => ∃ n op, v = some n ∧ BinaryOp.ofSymbol? operator.lexeme = some op

def Phase.Made : Phase (Option Node) → Prop
  | operand _ parens => ∀ p ∈ parens, p.Made
  | afterLeft _ _ left outer => (∃ n, left = some n) ∧ ∀ p ∈ outer, p.Made
  | afterRight _ opened left operator right outer =>
    (Paren.right opened left operator).Made ∧ (∃ n, right = some n) ∧ ∀ p ∈ outer, p.Made
  | _ => True

def OpenBlock.Made (b : OpenBlock (Option Node)) : Prop := ∃ ns : List Node, b.body = ns.map some

structure State.Made (c : State (Option Node)) : Prop where
  phase : c.phase.Made
  blocks : ∀ b ∈ c.blocks, b.Made

section Blocks

variable {c : State (Option Node)} (hb : ∀ b ∈ c.blocks, b.Made)
include hb

theorem addStatement_made (n : Node) : (addStatement (some n) c).Made := by
  obtain ⟨phase, blocks, next⟩ := c
  cases blocks with
  | nil => exact ⟨trivial, hb⟩
  | cons b outer =>
    obtain ⟨⟨ns, hns⟩, houter⟩ := List.forall_mem_cons.mp hb
    have hbody : OpenBlock.Made { b with body := some n :: b.body } := ⟨n :: ns, by simp [hns]⟩
    exact ⟨trivial, List.forall_mem_cons.mpr ⟨hbody, houter⟩⟩

theorem declare_blocks_made (name : String) : ∀ b ∈ (declare name c).blocks, b.Made := by
  obtain ⟨phase, blocks, next⟩ := c
  cases blocks with
  | nil => exact hb
  | cons b outer =>
    obtain ⟨hbody, houter⟩ := List.forall_mem_cons.mp hb
    exact List.forall_mem_cons.mpr ⟨hbody, houter⟩

end Blocks

section Requests

variable (location : Option Location)

def IsMade (v : Option Node) : Prop := ∃ n, v = some n

theorem granted_of_request {creation : Creation (Option Node)} {location : Option Location}
    {post : Option Node → Prop}
    (h : ∀ f, ∃ v f', request (Builder.create .making) creation location f = (.ok v, f') ∧
      post v) :
    Granted post (request (Builder.create .making) creation location) := by
  intro f
  obtain ⟨v, f', hv, hp⟩ := h f
  rw [hv]
  exact hp

theorem granted_var (name : String) :
    Granted (fun v => ∃ tag, v = some (.var tag name))
      (request (Builder.create .making) (.var name) location) :=
  granted_of_request fun f => ⟨_, _, request_making_var location f name, _, rfl⟩

theorem granted_literal {t : Token} (hs : t.Spelled) (hk : t.kind.isLiteral = true) :
    Granted IsMade (request (Builder.create .making) (.literal t.value) location) := by
  have hnumber := number_of_spelled (w := ⟨t, hk⟩) hs
  rw [hnumber.1]
  exact granted_of_request fun f =>
    ⟨_, _, request_making_literal location f hnumber.2, _, rfl⟩

theorem granted_binary (op : BinaryOp) (l r : Node) :
    Granted IsMade (request (Builder.create .making) (.binary op (some l) (some r)) location) :=
  granted_of_request fun f => ⟨_, _, request_making_binary location f op l r, _, rfl⟩

theorem granted_assign (tag : Tag) (name : String) (n : Node) :
    Granted IsMade
      (request (Builder.create .making) (.assign (some (.var tag name)) (some n)) location) :=
  granted_of_request fun f => ⟨_, _, request_making_assign location f tag name n, _, rfl⟩

theorem granted_ret (n : Node) :
    Granted IsMade (request (Builder.create .making) (.ret (some n)) location) :=
  granted_of_request fun f => ⟨_, _, request_making_ret location f n, _, rfl⟩

theorem granted_block (ns : List Node) (table : Table) :
    Granted IsMade
      (request (Builder.create .making) (.block (ns.map some) (some table)) location) :=
  granted_of_request fun f => ⟨_, _, request_making_block location f ns table, _, rfl⟩

end Requests

section Step

variable {limit : Nat} {c : State (Option Node)}

/-- After an operand the machine goes on with nodes that were made. -/
theorem finishOperand_granted (hb : ∀ b ∈ c.blocks, b.Made) (head : Head) {v : Option Node}
    (hv : IsMade v) {parens : List (Paren (Option Node))} (hp : ∀ p ∈ parens, p.Made) :
    Granted State.Made (finishOperand (Builder.create .making) head v c parens) := by
  obtain ⟨n, rfl⟩ := hv
  cases parens with
  | nil =>
    cases head with
    | assign name =>
      refine Ends.bind (granted_var _ _) ?_
      rintro _ ⟨tag, rfl⟩
      -- the target is a variable, which is what the builder asks for
      refine Ends.bind (granted_assign _ _ _ _) ?_
      rintro _ ⟨statement, rfl⟩
      exact Ends.pure (addStatement_made (declare_blocks_made hb _) _)
    | ret word =>
      refine Ends.bind (granted_ret _ _) ?_
      rintro _ ⟨statement, rfl⟩
      exact Ends.pure (addStatement_made hb _)
  | cons paren outer =>
    obtain ⟨hparen, houter⟩ := List.forall_mem_cons.mp hp
    cases paren with
    | left opened => exact Ends.pure ⟨⟨⟨n, rfl⟩, houter⟩, hb⟩
    | right opened left operator => exact Ends.pure ⟨⟨hparen, ⟨n, rfl⟩, houter⟩, hb⟩

theorem closeBlock_granted (hc : c.Made) :
    Granted State.Made (closeBlock (Builder.create .making) c) := by
  obtain ⟨phase, blocks, next⟩ := c
  cases blocks with
  | nil => exact Ends.pure hc
  | cons b outer =>
    obtain ⟨⟨ns, hns⟩, houter⟩ := List.forall_mem_cons.mp hc.blocks
    have hblock := granted_block b.opened.location ns.reverse b.table
    rw [List.map_reverse, ← hns] at hblock
    refine Ends.bind hblock ?_
    rintro _ ⟨statement, rfl⟩
    exact Ends.pure (addStatement_made houter _)

theorem deeper_granted {next : State (Option Node)} (hn : next.Made) (t : Token) :
    Granted State.Made (σ := Forest) (ε := BuildFault)
      (if c.depth < limit then pure next else reject (.tooDeep t)) := by
  split
  · exact Ends.pure hn
  · exact Ends.throw ⟨_, rfl⟩

theorem openBlock_made (hc : c.Made) (t : Token) : (openBlock t c).Made :=
  ⟨trivial, List.forall_mem_cons.mpr ⟨⟨[], rfl⟩, hc.blocks⟩⟩

/-- A spelled token takes the machine on or is a fault of the syntax. -/
theorem step_granted (hc : c.Made) {t : Token} (ht : t.Spelled) :
    Granted State.Made (step limit (Builder.create .making) t c) := by
  have hreject (fault : SyntaxFault) : Granted State.Made (σ := Forest) (ε := BuildFault)
      (reject fault) := Ends.throw ⟨fault, rfl⟩
  obtain ⟨phase, blocks, next⟩ := c
  cases phase with
  | program =>
    rw [step]
    dsimp only
    split
    · exact deeper_granted (openBlock_made hc t) t
    · exact hreject _
  | statement =>
    rw [step]
    dsimp only
    split
    · exact closeBlock_granted hc
    · exact deeper_granted (openBlock_made hc t) t
    · exact Ends.pure ⟨trivial, hc.blocks⟩
    · exact Ends.pure ⟨by simp [Phase.Made], hc.blocks⟩
    all_goals exact hreject _
  | assignSign name =>
    rw [step]
    dsimp only
    split
    · exact Ends.pure ⟨by simp [Phase.Made], hc.blocks⟩
    all_goals exact hreject _
  | operand head parens =>
    have hparens : ∀ p ∈ parens, p.Made := hc.phase
    rw [step]
    dsimp only
    split
    · rename_i hk
      exact Ends.bind (granted_literal _ ht (by rw [hk]; rfl)) fun v hv =>
        finishOperand_granted hc.blocks head hv hparens
    · rename_i hk
      exact Ends.bind (granted_literal _ ht (by rw [hk]; rfl)) fun v hv =>
        finishOperand_granted hc.blocks head hv hparens
    · refine Ends.bind (granted_var _ _) ?_
      rintro _ ⟨tag, rfl⟩
      exact finishOperand_granted hc.blocks head ⟨_, rfl⟩ hparens
    · have hnext : State.Made ⟨.operand head (.left t :: parens), blocks, next⟩ :=
        ⟨List.forall_mem_cons.mpr ⟨trivial, hparens⟩, hc.blocks⟩
      exact deeper_granted hnext t
    all_goals exact hreject _
  | afterLeft head opened left outer =>
    obtain ⟨hleft, houter⟩ := hc.phase
    rw [step]
    dsimp only
    split
    · exact finishOperand_granted hc.blocks head hleft houter
    · rename_i op hk
      -- the operator goes by its spelling
      have hop := binaryOp_of_spelled (w := ⟨t, by rw [hk]; rfl⟩) ht
      obtain ⟨n, rfl⟩ := hleft
      exact Ends.pure ⟨List.forall_mem_cons.mpr ⟨⟨n, _, rfl, hop⟩, houter⟩, hc.blocks⟩
    all_goals exact hreject _
  | afterRight head opened left operator right outer =>
    -- both operands are nodes, and the operator was found by its spelling when it was read
    obtain ⟨⟨l, op, rfl, hop⟩, ⟨r, rfl⟩, houter⟩ := hc.phase
    rw [step]
    dsimp only
    split
    · rw [requestOperator, hop]
      exact Ends.bind (granted_binary _ _ _ _) fun v hv =>
        finishOperand_granted hc.blocks head hv houter
    · exact hreject _
  | complete program => exact hreject _

/-- Spelled tokens take the machine on up to a fault of the syntax. -/
theorem steps_granted {ts : List Token} (hc : c.Made) (hs : ∀ t ∈ ts, t.Spelled) :
    Granted State.Made (steps limit (Builder.create .making) ts c) := by
  induction ts generalizing c with
  | nil => exact Ends.pure hc
  | cons t ts ih =>
    obtain ⟨ht, hts⟩ := List.forall_mem_cons.mp hs
    rw [steps_cons]
    exact Ends.bind (step_granted hc ht) fun c' hc' => ih hc' hts

end Step

end Dec.Grammar
