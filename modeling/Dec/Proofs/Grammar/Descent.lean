import Dec.Proofs.Grammar.Derivation

/-!
What the machine does along a derivation: a descent through it that asks the builder for a node at
each phrase, from left to right. The machine and the descent agree on every outcome, whatever the
builder answers and however deep the nesting is.
-/
namespace Dec.Grammar

variable {ε σ ν : Type} {limit : Nat}

section Bind

variable {α β : Type} {x : Reading ε σ α} {s s' s₁ : σ}

theorem bind_of_ok {a : α} (hx : x s = (.ok a, s₁)) (f : α → Reading ε σ β) :
    (x >>= f) s = f a s₁ := by
  simp [bind, ExceptT.bind, ExceptT.mk, StateT.bind, ExceptT.bindCont, hx]

theorem bind_of_error {e : Failure ε} (hx : x s = (.error e, s₁)) (f : α → Reading ε σ β) :
    (x >>= f) s = (.error e, s₁) := by
  simp only [bind, ExceptT.bind, ExceptT.mk, StateT.bind, ExceptT.bindCont, hx]
  rfl

/-- A reading that went well in all went well at first. -/
theorem bind_eq_ok {f : α → Reading ε σ β} {b : β} (h : (x >>= f) s = (.ok b, s')) :
    ∃ a s₁, x s = (.ok a, s₁) ∧ f a s₁ = (.ok b, s') := by
  rcases hx : x s with ⟨e | a, s₁⟩
  · rw [bind_of_error hx] at h
    exact absurd (congrArg Prod.fst h) (by simp)
  · rw [bind_of_ok hx] at h
    exact ⟨a, s₁, rfl, h⟩

theorem pure_eq_ok {a b : α} (h : (pure a : Reading ε σ α) s = (.ok b, s')) : b = a ∧ s' = s := by
  cases h
  exact ⟨rfl, rfl⟩

theorem throw_ne_ok (e : Failure ε) (a : α) : (throw e : Reading ε σ α) s ≠ (.ok a, s') := by
  intro h
  cases h

end Bind

def steps (limit : Nat) (build : Answer ε σ ν) (ts : List Token) (c : State ν) :
    Reading ε σ (State ν) :=
  ts.foldlM (fun c t => step limit build t c) c

section Steps

variable (build : Answer ε σ ν)

theorem steps_nil (c : State ν) : steps limit build [] c = pure c := rfl

theorem steps_cons (t : Token) (ts : List Token) (c : State ν) :
    steps limit build (t :: ts) c = step limit build t c >>= steps limit build ts := by
  rw [steps, List.foldlM_cons]
  rfl

theorem steps_append (ts us : List Token) (c : State ν) :
    steps limit build (ts ++ us) c = steps limit build ts c >>= steps limit build us := by
  rw [steps, List.foldlM_append]
  rfl

theorem steps_singleton (t : Token) (c : State ν) :
    steps limit build [t] c = step limit build t c := by
  rw [steps_cons]
  exact bind_pure _

end Steps

/-- Goes on with a phrase inside a block or parenthesis that opens with `t`, unless too many are open
already. -/
def within {α : Type} (limit depth : Nat) (t : Token) (inner : Reading ε σ α) : Reading ε σ α :=
  if depth < limit then inner else throw (.fault (.tooDeep t))

theorem within_bind {α β : Type} (depth : Nat) (t : Token) (inner : Reading ε σ α)
    (f : α → Reading ε σ β) :
    within limit depth t inner >>= f = within limit depth t (inner >>= f) := by
  unfold within
  split
  · rfl
  · rfl

def Expression.read (limit : Nat) (build : Answer ε σ ν) (depth : Nat) : Expression → Reading ε σ ν
  | literal word => request build (.literal word.token.value) word.token.location
  | var word => request build (.var word.token.lexeme) word.token.location
  | group opened inner _ => within limit depth opened.token (inner.read limit build (depth + 1))
  | binary opened left operator right _ =>
    within limit depth opened.token do
      let l ← left.read limit build (depth + 1)
      let r ← right.read limit build (depth + 1)
      requestOperator build operator.token.lexeme l r opened.token.location

def freshTable (next : Nat) (outer : Option Table) : Table :=
  ⟨next, outer.map (·.id), (outer.map (·.depth + 1)).getD 0, .empty⟩

namespace Statement

mutual

/-- The descent through a statement with so many blocks around it. The table of the innermost block
and the identity of the next table go in and come out. -/
def read (limit : Nat) (build : Answer ε σ ν) (depth : Nat) (table : Table) (next : Nat) :
    Statement → Reading ε σ (ν × Table × Nat)
  | assign name _ value => do
    let v ← value.read limit build depth
    let target ← request build (.var name.token.lexeme) name.token.location
    let node ← request build (.assign target v) name.token.location
    return (node, { table with bindings := table.bindings.define name.token.lexeme none }, next)
  | ret word value => do
    let v ← value.read limit build depth
    let node ← request build (.ret v) word.token.location
    return (node, table, next)
  | block opened body _ =>
    within limit depth opened.token do
      let (nodes, inner, next) ←
        readAll limit build (depth + 1) (freshTable next (some table)) (next + 1)
        body
      let node ← request build (.block nodes (some inner)) opened.token.location
      return (node, table, next)

def readAll (limit : Nat) (build : Answer ε σ ν) (depth : Nat) (table : Table) (next : Nat) :
    List Statement → Reading ε σ (List ν × Table × Nat)
  | [] => return ([], table, next)
  | s :: rest => do
    let (node, table, next) ← read limit build depth table next s
    let (nodes, table, next) ← readAll limit build depth table next rest
    return (node :: nodes, table, next)

end

end Statement

def Derivation.read (limit : Nat) (build : Answer ε σ ν) (next : Nat) (d : Derivation) :
    Reading ε σ (ν × Nat) :=
  within limit 0 d.opened.token do
    let (nodes, table, next) ←
      Statement.readAll limit build 1 (freshTable next none) (next + 1) d.body
    let node ← request build (.block nodes (some table)) d.opened.token.location
    return (node, next)

section Operand

variable (build : Answer ε σ ν) (head : Head) (parens outer : List (Paren ν))
  (blocks : List (OpenBlock ν)) (next : Nat)

theorem step_operand_literal (w : Terminal TokenKind.isLiteral) :
    step limit build w.token ⟨.operand head parens, blocks, next⟩ =
      request build (.literal w.token.value) w.token.location >>= fun v =>
        finishOperand build head v ⟨.operand head parens, blocks, next⟩ parens := by
  have hw := w.admitted
  unfold step
  cases hk : w.token.kind <;> simp [hk, TokenKind.isLiteral] at hw ⊢

theorem step_operand_name (w : Sign .identifier) :
    step limit build w.token ⟨.operand head parens, blocks, next⟩ =
      request build (.var w.token.lexeme) w.token.location >>= fun v =>
        finishOperand build head v ⟨.operand head parens, blocks, next⟩ parens := by
  simp only [step, w.kind_eq]

theorem step_operand_leftParen (w : Sign .leftParen) :
    step limit build w.token ⟨.operand head parens, blocks, next⟩ =
      within limit (blocks.length + parens.length) w.token
        (pure ⟨.operand head (.left w.token :: parens), blocks, next⟩) := by
  simp only [step, w.kind_eq]
  rfl

theorem step_afterLeft_rightParen (w : Sign .rightParen) (opened : Token) (left : ν) :
    step limit build w.token ⟨.afterLeft head opened left outer, blocks, next⟩ =
      finishOperand build head left ⟨.afterLeft head opened left outer, blocks, next⟩ outer := by
  simp only [step, w.kind_eq]

theorem step_afterLeft_operator (w : Terminal TokenKind.isBinary) (opened : Token) (left : ν) :
    step limit build w.token ⟨.afterLeft head opened left outer, blocks, next⟩ =
      pure ⟨.operand head (.right opened left w.token :: outer), blocks, next⟩ := by
  have hw := w.admitted
  unfold step
  cases hk : w.token.kind <;> simp [hk, TokenKind.isBinary] at hw ⊢

theorem step_afterRight_rightParen (w : Sign .rightParen) (opened operator : Token)
    (left right : ν) :
    step limit build w.token ⟨.afterRight head opened left operator right outer, blocks, next⟩ =
      requestOperator build operator.lexeme left right opened.location >>= fun v =>
        finishOperand build head v ⟨.afterRight head opened left operator right outer, blocks, next⟩
          outer := by
  simp only [step, w.kind_eq]

/-- What is read after an operand does not depend on the phase in which it was read. -/
theorem finishOperand_phase (value : ν) (phase phase' : Phase ν) :
    finishOperand build head value ⟨phase, blocks, next⟩ parens =
      finishOperand build head value ⟨phase', blocks, next⟩ parens := by
  cases parens with
  | cons paren outer => cases paren <;> rfl
  | nil => cases head <;> cases blocks <;> rfl

end Operand

/-- The machine reads an expression as the descent does, and then goes on with its value. -/
theorem steps_expression (build : Answer ε σ ν) (head : Head) (blocks : List (OpenBlock ν))
    (next : Nat) (e : Expression) (parens : List (Paren ν)) :
    steps limit build e.tokens ⟨.operand head parens, blocks, next⟩ =
      e.read limit build (blocks.length + parens.length) >>= fun v =>
        finishOperand build head v ⟨.operand head parens, blocks, next⟩ parens := by
  -- an inner expression is read with one parenthesis more on the path, and its value goes to that
  -- parenthesis; so the statement speaks of any parentheses
  induction e generalizing parens with
  | literal w =>
    rw [Expression.tokens, steps_singleton, step_operand_literal]
    rfl
  | var w =>
    rw [Expression.tokens, steps_singleton, step_operand_name]
    rfl
  | group o e c ih =>
    rw [Expression.tokens, steps_cons, step_operand_leftParen, within_bind, pure_bind,
      steps_append, ih, Expression.read, within_bind, bind_assoc]
    congr 2
    funext v
    -- the value waits after the left parenthesis until the right one comes
    rw [finishOperand, pure_bind, steps_singleton, step_afterLeft_rightParen,
      finishOperand_phase _ _ _ _ _ _ _ (.operand head parens)]
  | binary o l op r c ihl ihr =>
    rw [Expression.tokens, steps_cons, step_operand_leftParen, within_bind, pure_bind,
      steps_append, ihl, Expression.read, within_bind, bind_assoc, bind_assoc]
    congr 2
    funext v
    -- the left value waits for the operator
    rw [finishOperand, pure_bind, steps_cons, step_afterLeft_operator, pure_bind, steps_append,
      ihr, bind_assoc, bind_assoc]
    congr 1
    funext w
    -- both values wait for the closing parenthesis
    rw [finishOperand, pure_bind, steps_singleton, step_afterRight_rightParen]
    congr 1
    funext v'
    rw [finishOperand_phase _ _ _ _ _ _ _ (.operand head parens)]

section Sentence

variable (build : Answer ε σ ν) (blocks : List (OpenBlock ν)) (next : Nat)

theorem step_statement_name (w : Sign .identifier) :
    step limit build w.token ⟨.statement, blocks, next⟩ =
      pure ⟨.assignSign w.token, blocks, next⟩ := by
  simp only [step, w.kind_eq]

theorem step_statement_return (w : Sign .returnWord) :
    step limit build w.token ⟨.statement, blocks, next⟩ =
      pure ⟨.operand (.ret w.token) [], blocks, next⟩ := by
  simp only [step, w.kind_eq]

theorem step_assignSign (name : Token) (w : Sign .assign) :
    step limit build w.token ⟨.assignSign name, blocks, next⟩ =
      pure ⟨.operand (.assign name) [], blocks, next⟩ := by
  simp only [step, w.kind_eq]

theorem step_statement_leftBrace (w : Sign .leftBrace) :
    step limit build w.token ⟨.statement, blocks, next⟩ =
      within limit blocks.length w.token
        (pure ⟨.statement, ⟨w.token, freshTable next (blocks.head?.map (·.table)), []⟩ :: blocks,
          next + 1⟩) := by
  simp only [step, w.kind_eq]
  rfl

theorem step_statement_rightBrace (w : Sign .rightBrace) :
    step limit build w.token ⟨.statement, blocks, next⟩ =
      closeBlock build ⟨.statement, blocks, next⟩ := by
  simp only [step, w.kind_eq]

theorem step_program_leftBrace (w : Sign .leftBrace) :
    step limit build w.token ⟨.program, [], next⟩ =
      within limit 0 w.token
        (pure ⟨.statement, [⟨w.token, freshTable next none, []⟩], next + 1⟩) := by
  simp only [step, w.kind_eq]
  rfl

end Sentence

mutual

/-- The machine reads a statement as the descent does, and puts its node into the innermost block. -/
theorem steps_statement (build : Answer ε σ ν) (s : Statement) (b : OpenBlock ν)
    (outer : List (OpenBlock ν)) (next : Nat) :
    steps limit build s.tokens ⟨.statement, b :: outer, next⟩ =
      s.read limit build (outer.length + 1) b.table next >>= fun r =>
        pure ⟨.statement, { b with table := r.2.1, body := r.1 :: b.body } :: outer, r.2.2⟩ := by
  cases s with
  | assign n g e =>
    rw [Statement.tokens, steps_cons, step_statement_name, pure_bind, steps_cons, step_assignSign,
      pure_bind, steps_expression, Statement.read]
    simp only [bind_assoc, pure_bind]
    rfl
  | ret w e =>
    rw [Statement.tokens, steps_cons, step_statement_return, pure_bind, steps_expression,
      Statement.read]
    simp only [bind_assoc, pure_bind]
    rfl
  | block o body c =>
    -- the statements go into a new block, which the closing brace puts into the one around it
    rw [Statement.tokens, steps_cons, step_statement_leftBrace, within_bind, pure_bind,
      steps_append, steps_statements build body, Statement.read, within_bind]
    simp only [bind_assoc, pure_bind, steps_singleton, step_statement_rightBrace, closeBlock,
      List.append_nil, List.reverse_reverse]
    rfl

theorem steps_statements (build : Answer ε σ ν) (ss : List Statement) (b : OpenBlock ν)
    (outer : List (OpenBlock ν)) (next : Nat) :
    steps limit build (Statement.allTokens ss) ⟨.statement, b :: outer, next⟩ =
      Statement.readAll limit build (outer.length + 1) b.table next ss >>= fun r =>
        pure ⟨.statement, { b with table := r.2.1, body := r.1.reverse ++ b.body } :: outer,
          r.2.2⟩ := by
  cases ss with
  | nil =>
    rw [Statement.allTokens, steps_nil, Statement.readAll, pure_bind]
    rfl
  | cons s rest =>
    -- the block holds its statements with the last one first
    rw [Statement.allTokens, steps_append, steps_statement build s, Statement.readAll]
    simp only [bind_assoc, pure_bind, steps_statements build rest, List.reverse_cons,
      List.append_assoc, List.singleton_append]

end

/-- The machine reads a program as the descent does. -/
theorem steps_derivation (build : Answer ε σ ν) (d : Derivation) (next : Nat) :
    steps limit build d.tokens ⟨.program, [], next⟩ =
      d.read limit build next >>= fun r => pure ⟨.complete r.1, [], r.2⟩ := by
  rw [Derivation.tokens, Derivation.statement, Statement.tokens, steps_cons,
    step_program_leftBrace, within_bind, pure_bind, steps_append, steps_statements,
    Derivation.read, within_bind]
  simp only [bind_assoc, pure_bind, steps_singleton, step_statement_rightBrace, closeBlock,
    List.append_nil, List.reverse_reverse]
  rfl

end Dec.Grammar
