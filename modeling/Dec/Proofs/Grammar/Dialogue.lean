import Dec.Proofs.Grammar.Acceptance

/-!
The machine as one side of a dialogue. All that a reading does beside coming to an end is to ask the
builder, and how it goes on does not depend on the answer: the next request is of the same kind and
for the same place, so all builders are asked the same questions and take the machine to the same
end.
-/
namespace Dec.Grammar

variable {ν μ α β γ δ : Type} {limit : Nat}

section Request

variable {ε σ : Type} {build : Answer ε σ ν} {creation : Creation ν} {location : Option Location}
  {s s' : σ}

theorem request_of_ok {v : ν} (h : build creation location s = (.ok v, s')) :
    request build creation location s = (.ok v, s') := by
  rw [request, h]

theorem request_of_error {reason : ε} (h : build creation location s = (.error reason, s')) :
    request build creation location s = (.error (.refused reason), s') := by
  rw [request, h]

end Request

/-- The operation of a request for an operator node goes by the operator. -/
theorem operation_binary (op : BinaryOp) (l r : ν) (l' r' : μ) :
    (Creation.binary op l r).operation = (Creation.binary op l' r').operation := by
  cases op <;> rfl

abbrev Readings (ν α : Type) := ∀ ε σ : Type, Answer ε σ ν → Reading ε σ α

/-- Two readings that go the same way, whatever they are answered: they end alike, or they ask for
the same kind of node at the same place and go the same way from any two answers. -/
inductive Alike (post : α → β → Prop) : Readings ν α → Readings μ β → Prop where
  | pure {a : α} {b : β} (h : post a b) : Alike post (fun _ _ _ => pure a) (fun _ _ _ => pure b)
  | reject (fault : SyntaxFault) :
      Alike post (fun _ _ _ => throw (.fault fault)) (fun _ _ _ => throw (.fault fault))
  | unknownOperator (symbol : String) :
      Alike post (fun _ _ _ => throw (.unknownOperator symbol))
        (fun _ _ _ => throw (.unknownOperator symbol))
  | ask {creation : Creation ν} {creation' : Creation μ} {location : Option Location}
      {next : ν → Readings ν α} {next' : μ → Readings μ β}
      (hc : creation.operation = creation'.operation)
      (hn : ∀ v w, Alike post (next v) (next' w)) :
      Alike post (fun ε σ build => request build creation location >>= fun v => next v ε σ build)
        (fun ε σ build => request build creation' location >>= fun w => next' w ε σ build)

inductive SameEnd {ε ε' : Type} (post : α → β → Prop) :
    Except (Failure ε) α → Except (Failure ε') β → Prop where
  | ok {a : α} {b : β} (h : post a b) : SameEnd post (.ok a) (.ok b)
  | fault (fault : SyntaxFault) : SameEnd post (.error (.fault fault)) (.error (.fault fault))
  | unknownOperator (symbol : String) :
      SameEnd post (.error (.unknownOperator symbol)) (.error (.unknownOperator symbol))

def noting {ε σ : Type} (build : Answer ε σ ν) : Answer ε (List (Creation ν) × σ) ν :=
  fun creation location (noted, s) =>
    let (answer, s) := build creation location s
    (answer, noted ++ [creation], s)

namespace Alike

variable {post : α → β → Prop} {post' : γ → δ → Prop}

theorem bind {x : Readings ν α} {y : Readings μ β} (h : Alike post x y) {f : α → Readings ν γ}
    {g : β → Readings μ δ} (hf : ∀ a b, post a b → Alike post' (f a) (g b)) :
    Alike post' (fun ε σ build => x ε σ build >>= fun a => f a ε σ build)
      (fun ε σ build => y ε σ build >>= fun b => g b ε σ build) := by
  induction h with
  | pure h =>
    simp only [pure_bind]
    exact hf _ _ h
  | reject fault => exact .reject fault
  | unknownOperator symbol => exact .unknownOperator symbol
  | ask hc hn ih =>
    simp only [bind_assoc]
    exact .ask hc ih

/-- Builders that answer alike are told the same in the end. -/
theorem sameAnswers {x : Readings ν α} {y : Readings ν β} (h : Alike post x y) {ε σ τ : Type}
    {build : Answer ε σ ν} {build' : Answer ε τ ν} {rel : σ → τ → Prop}
    (hb : ∀ creation location s t, rel s t →
      (build creation location s).1 = (build' creation location t).1 ∧
        rel (build creation location s).2 (build' creation location t).2) {s : σ} {t : τ}
    (hs : rel s t) :
    (x ε σ build s).1 = (x ε τ build' t).1 ∧ rel (x ε σ build s).2 (x ε τ build' t).2 := by
  induction h generalizing s t with
  | pure h => exact ⟨rfl, hs⟩
  | reject fault => exact ⟨rfl, hs⟩
  | unknownOperator symbol => exact ⟨rfl, hs⟩
  | @ask creation creation' location next next' hc hn ih =>
    obtain ⟨hanswer, hrel⟩ := hb creation location s t hs
    dsimp only
    rcases hrun : build creation location s with ⟨reason | v, s₁⟩
    · rcases hrun' : build' creation location t with ⟨reason' | v', t₁⟩
      · rw [hrun, hrun'] at hanswer hrel
        obtain rfl := Except.error.inj hanswer
        rw [bind_of_error (request_of_error hrun), bind_of_error (request_of_error hrun')]
        exact ⟨rfl, hrel⟩
      · rw [hrun, hrun'] at hanswer
        cases hanswer
    · rcases hrun' : build' creation location t with ⟨reason' | v', t₁⟩
      · rw [hrun, hrun'] at hanswer
        cases hanswer
      · rw [hrun, hrun'] at hanswer hrel
        obtain rfl := Except.ok.inj hanswer
        rw [bind_of_ok (request_of_ok hrun), bind_of_ok (request_of_ok hrun')]
        exact ih v v hrel

/-- What every request keeps, a reading keeps. -/
theorem keeps {x : Readings ν α} {y : Readings ν β} (h : Alike post x y) {ε σ : Type}
    {build : Answer ε σ ν} {kept : σ → Prop}
    (hb : ∀ creation location s, kept s → kept (build creation location s).2) {s : σ} (hs : kept s) :
    kept (x ε σ build s).2 := by
  have hsame : ∀ creation location s t, (s = t ∧ kept s) →
      (build creation location s).1 = (build creation location t).1 ∧
        (build creation location s).2 = (build creation location t).2 ∧
          kept (build creation location s).2 := by
    rintro creation location s t ⟨rfl, hs⟩
    exact ⟨rfl, rfl, hb _ _ _ hs⟩
  exact (h.sameAnswers hsame ⟨rfl, hs⟩).2.2

/-- A builder that meets every request comes to the end of any other one, unless that one does not
meet a request. -/
theorem follows {x : Readings ν α} {y : Readings μ β} (h : Alike post x y) {ε ε' σ τ : Type}
    {build : Answer ε σ ν} {build' : Answer ε' τ μ}
    (hmeets : ∀ creation location t, ∃ w t', build' creation location t = (.ok w, t')) (s : σ)
    (t : τ) :
    (∃ reason, (x ε σ build s).1 = .error (.refused reason)) ∨
      SameEnd post (x ε σ build s).1 (y ε' τ build' t).1 := by
  induction h generalizing s t with
  | pure h => exact .inr (.ok h)
  | reject fault => exact .inr (.fault fault)
  | unknownOperator symbol => exact .inr (.unknownOperator symbol)
  | @ask creation creation' location next next' hc hn ih =>
    obtain ⟨w, t₁, hw⟩ := hmeets creation' location t
    dsimp only
    rw [bind_of_ok (request_of_ok hw)]
    rcases hrun : build creation location s with ⟨reason | v, s₁⟩
    · rw [bind_of_error (request_of_error hrun)]
      exact .inl ⟨reason, rfl⟩
    · rw [bind_of_ok (request_of_ok hrun)]
      exact ih v w s₁ t₁

/-- A builder that refuses every request refuses the first one that another builder is asked for, and
comes to the same end if there is none. -/
theorem refuses {x : Readings ν α} {y : Readings ν β} (h : Alike post x y) {ε ε' σ τ : Type}
    (build : Answer ε σ ν) {build' : Answer ε' τ ν} {reason : String → ε'}
    (hrefuses : ∀ creation location t,
      build' creation location t = (.error (reason creation.operation), t)) (s : σ) (t : τ) :
    match (x ε (List (Creation ν) × σ) (noting build) ([], s)).2.1 with
    | [] => SameEnd post (x ε (List (Creation ν) × σ) (noting build) ([], s)).1 (y ε' τ build' t).1
    | creation :: _ => (y ε' τ build' t).1 = .error (.refused (reason creation.operation)) := by
  cases h with
  | pure h => exact .ok h
  | reject fault => exact .fault fault
  | unknownOperator symbol => exact .unknownOperator symbol
  | @ask creation creation' location next next' hc hn =>
    -- what was noted first stays the first
    have hkept : ∀ later place (kept : List (Creation ν) × σ), (∃ rest, kept.1 = creation :: rest) →
        ∃ rest, (noting build later place kept).2.1 = creation :: rest := by
      rintro later place kept ⟨rest, hrest⟩
      refine ⟨rest ++ [later], ?_⟩
      rw [← List.cons_append, ← hrest]
      rfl
    have hfirst : ∃ rest, ((request (noting build) creation location >>= fun v =>
        next v ε _ (noting build)) ([], s)).2.1 = creation :: rest := by
      have hnoted : (noting build creation location ([], s)).2.1 = [creation] := rfl
      rcases hrun : noting build creation location ([], s) with ⟨failure | v, noted, s₁⟩
      · rw [hrun] at hnoted
        rw [bind_of_error (request_of_error hrun)]
        exact ⟨[], hnoted⟩
      · rw [hrun] at hnoted
        rw [bind_of_ok (request_of_ok hrun)]
        exact (hn v v).keeps hkept ⟨[], hnoted⟩
    obtain ⟨rest, hrest⟩ := hfirst
    dsimp only
    rw [hrest, bind_of_error (request_of_error (hrefuses creation' location t)), ← hc]

end Alike

inductive Paren.Alike : Paren ν → Paren μ → Prop where
  | left (opened : Token) : Alike (.left opened) (.left opened)
  | right (opened operator : Token) (l : ν) (l' : μ) :
      Alike (.right opened l operator) (.right opened l' operator)

inductive Phase.Alike : Phase ν → Phase μ → Prop where
  | program : Alike .program .program
  | statement : Alike .statement .statement
  | assignSign (name : Token) : Alike (.assignSign name) (.assignSign name)
  | operand (head : Head) {parens : List (Paren ν)} {parens' : List (Paren μ)}
      (h : List.Forall₂ Paren.Alike parens parens') :
      Alike (.operand head parens) (.operand head parens')
  | afterLeft (head : Head) (opened : Token) (l : ν) (l' : μ) {outer : List (Paren ν)}
      {outer' : List (Paren μ)} (h : List.Forall₂ Paren.Alike outer outer') :
      Alike (.afterLeft head opened l outer) (.afterLeft head opened l' outer')
  | afterRight (head : Head) (opened operator : Token) (l r : ν) (l' r' : μ)
      {outer : List (Paren ν)} {outer' : List (Paren μ)} (h : List.Forall₂ Paren.Alike outer outer') :
      Alike (.afterRight head opened l operator r outer) (.afterRight head opened l' operator r' outer')
  | complete (program : ν) (program' : μ) : Alike (.complete program) (.complete program')

/-- States in which the machine waits for the same and the same blocks are open, whatever nodes and
tables it keeps. -/
structure State.Alike (c : State ν) (c' : State μ) : Prop where
  phase : c.phase.Alike c'.phase
  blocks : List.Forall₂ (fun b b' => b.opened = b'.opened) c.blocks c'.blocks

theorem Phase.Alike.parens_eq {p : Phase ν} {p' : Phase μ} (h : p.Alike p') : p.parens = p'.parens := by
  cases h with
  | program => rfl
  | statement => rfl
  | assignSign name => rfl
  | operand head h => exact h.length_eq
  | afterLeft head opened l l' h => exact congrArg (· + 1) h.length_eq
  | afterRight head opened operator l r l' r' h => exact congrArg (· + 1) h.length_eq
  | complete program program' => rfl

section Step

variable {c : State ν} {c' : State μ}

theorem State.Alike.depth_eq (h : c.Alike c') : c.depth = c'.depth := by
  rw [depth, depth, h.blocks.length_eq, h.phase.parens_eq]

theorem addStatement_alike
    (hb : List.Forall₂ (fun b b' => b.opened = b'.opened) c.blocks c'.blocks) (v : ν) (w : μ) :
    (addStatement v c).Alike (addStatement w c') := by
  obtain ⟨phase, blocks, next⟩ := c
  obtain ⟨phase', blocks', next'⟩ := c'
  cases hb with
  | nil => exact ⟨.complete v w, .nil⟩
  | cons h houter => exact ⟨.statement, .cons h houter⟩

theorem declare_blocks_alike
    (hb : List.Forall₂ (fun b b' => b.opened = b'.opened) c.blocks c'.blocks) (name : String) :
    List.Forall₂ (fun b b' => b.opened = b'.opened) (declare name c).blocks
      (declare name c').blocks := by
  obtain ⟨phase, blocks, next⟩ := c
  obtain ⟨phase', blocks', next'⟩ := c'
  cases hb with
  | nil => exact .nil
  | cons h houter => exact .cons h houter

theorem finishOperand_alike
    (hb : List.Forall₂ (fun b b' => b.opened = b'.opened) c.blocks c'.blocks) (head : Head) (v : ν)
    (w : μ) {parens : List (Paren ν)} {parens' : List (Paren μ)}
    (hp : List.Forall₂ Paren.Alike parens parens') :
    Alike State.Alike (fun _ _ build => finishOperand build head v c parens)
      (fun _ _ build => finishOperand build head w c' parens') := by
  cases hp with
  | nil =>
    cases head with
    | assign name =>
      refine .ask rfl fun target target' => .ask rfl fun statement statement' => ?_
      exact .pure (addStatement_alike (declare_blocks_alike hb _) _ _)
    | ret word => exact .ask rfl fun statement statement' => .pure (addStatement_alike hb _ _)
  | cons h houter =>
    cases h with
    | left opened => exact .pure ⟨.afterLeft head opened v w houter, hb⟩
    | right opened operator l l' => exact .pure ⟨.afterRight head opened operator l v l' w houter, hb⟩

theorem closeBlock_alike (h : c.Alike c') :
    Alike State.Alike (fun _ _ build => closeBlock build c) (fun _ _ build => closeBlock build c') := by
  obtain ⟨phase, blocks, next⟩ := c
  obtain ⟨phase', blocks', next'⟩ := c'
  obtain ⟨hp, hb⟩ := h
  cases hb with
  | nil => exact .pure ⟨hp, .nil⟩
  | cons hopened houter =>
    simp only [closeBlock]
    rw [hopened]
    exact .ask rfl fun statement statement' => .pure (addStatement_alike houter _ _)

theorem deeper_alike (h : c.Alike c') {next : State ν} {next' : State μ} (hn : next.Alike next')
    (t : Token) :
    Alike (ν := ν) (μ := μ) State.Alike
      (fun _ _ _ => if c.depth < limit then pure next else reject (.tooDeep t))
      (fun _ _ _ => if c'.depth < limit then pure next' else reject (.tooDeep t)) := by
  rw [h.depth_eq]
  split
  · exact .pure hn
  · exact .reject _

/-- A token takes two machines the same way when they wait for the same, whatever nodes they keep. -/
theorem step_alike (h : c.Alike c') (t : Token) :
    Alike State.Alike (fun _ _ build => step limit build t c)
      (fun _ _ build => step limit build t c') := by
  obtain ⟨phase, blocks, next⟩ := c
  obtain ⟨phase', blocks', next'⟩ := c'
  obtain ⟨hp, hb⟩ := h
  have hopen : (openBlock t ⟨phase, blocks, next⟩).Alike (openBlock t ⟨phase', blocks', next'⟩) :=
    ⟨.statement, .cons rfl hb⟩
  cases hp with
  | program =>
    simp only [step]
    split
    · exact deeper_alike ⟨.program, hb⟩ hopen t
    · exact .reject _
  | statement =>
    simp only [step]
    split
    · exact closeBlock_alike ⟨.statement, hb⟩
    · exact deeper_alike ⟨.statement, hb⟩ hopen t
    · exact .pure ⟨.assignSign t, hb⟩
    · exact .pure ⟨.operand (.ret t) .nil, hb⟩
    all_goals exact .reject _
  | assignSign name =>
    simp only [step]
    split
    · exact .pure ⟨.operand (.assign name) .nil, hb⟩
    all_goals exact .reject _
  | operand head hparens =>
    simp only [step]
    split
    · exact .ask rfl fun v w => finishOperand_alike hb head v w hparens
    · exact .ask rfl fun v w => finishOperand_alike hb head v w hparens
    · exact .ask rfl fun v w => finishOperand_alike hb head v w hparens
    · have hinside : State.Alike ⟨.operand head (.left t :: _), blocks, next⟩
          ⟨.operand head (.left t :: _), blocks', next'⟩ :=
        ⟨.operand head (.cons (.left t) hparens), hb⟩
      exact deeper_alike ⟨.operand head hparens, hb⟩ hinside t
    all_goals exact .reject _
  | afterLeft head opened l l' houter =>
    simp only [step]
    split
    · exact finishOperand_alike hb head l l' houter
    · exact .pure ⟨.operand head (.cons (.right opened t l l') houter), hb⟩
    all_goals exact .reject _
  | afterRight head opened operator l r l' r' houter =>
    simp only [step]
    split
    · simp only [requestOperator]
      split
      · exact .ask (operation_binary _ _ _ _ _) fun v w => finishOperand_alike hb head v w houter
      · exact .unknownOperator _
    · exact .reject _
  | complete program program' =>
    exact .reject _

/-- The same tokens take two machines the same way. -/
theorem steps_alike (ts : List Token) (h : c.Alike c') :
    Alike State.Alike (fun _ _ build => steps limit build ts c)
      (fun _ _ build => steps limit build ts c') := by
  induction ts generalizing c c' with
  | nil => exact .pure h
  | cons t ts ih =>
    simp only [steps_cons]
    exact (step_alike h t).bind fun _ _ h => ih h

end Step

section Reading

variable {ε σ : Type}

def reading (limit : Nat) (build : Answer ε σ ν) (tokens : List Token) (firstTable : Nat) :
    Reading ε σ ν :=
  steps limit build (splitEnd tokens).1 ⟨.program, [], firstTable⟩ >>= fun c =>
    match finish (splitEnd tokens).2 c with
    | .ok program => pure program
    | .error fault => throw (.fault fault)

theorem parse_eq_reading (build : Answer ε σ ν) (tokens : List Token) (firstTable : Nat) (s : σ) :
    ((parse limit build tokens firstTable s).1.result, (parse limit build tokens firstTable s).2) =
      reading limit build tokens firstTable s := by
  rw [parse_eq_run, reading]
  rcases hsteps : steps limit build (splitEnd tokens).1 ⟨.program, [], firstTable⟩ s with
    ⟨e | c, s₁⟩
  · obtain ⟨hresult, hstate⟩ := run_of_steps_error (splitEnd tokens).2 hsteps 0
    rw [bind_of_error hsteps, hresult, hstate]
  · rw [bind_of_ok hsteps, run_of_steps_ok (splitEnd tokens).2 hsteps 0]
    cases finish (splitEnd tokens).2 c <;> rfl

/-- Whole programs are read the same way, whatever the numbers of their tables. -/
theorem reading_alike (limit : Nat) (tokens : List Token) (firstTable firstTable' : Nat) :
    Alike (ν := ν) (μ := μ) (fun _ _ => True)
      (fun _ _ build => reading limit build tokens firstTable)
      (fun _ _ build => reading limit build tokens firstTable') := by
  refine (steps_alike _ ⟨.program, .nil⟩).bind fun c c' h => ?_
  obtain ⟨phase, blocks, next⟩ := c
  obtain ⟨phase', blocks', next'⟩ := c'
  obtain ⟨hp, hb⟩ := h
  cases hp with
  | program => exact .reject _
  | statement =>
    cases hb with
    | nil => exact .reject _
    | cons hopened houter =>
      simp only [finish, List.head?_cons, Option.bind_some]
      rw [hopened]
      exact .reject _
  | assignSign name => exact .reject _
  | operand head h => exact .reject _
  | afterLeft head opened l l' h => exact .reject _
  | afterRight head opened operator l r l' r' h => exact .reject _
  | complete program program' => exact .pure trivial

end Reading

end Dec.Grammar
