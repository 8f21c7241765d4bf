import Dec.Proofs.Grammar.Beginning

namespace Dec.Grammar

variable {ε σ ν : Type} {limit : Nat}

section Run

variable {build : Answer ε σ ν} {ts : List Token} {c c' : State ν} {s s' : σ}

theorem run_of_steps_ok (endToken : Token) (h : steps limit build ts c s = (.ok c', s'))
    (consumed : Nat) :
    run limit build endToken consumed c s ts =
      (⟨(finish endToken c').mapError .fault, consumed + ts.length, c'.blocks.length,
        c'.nextTable⟩, s') := by
  induction ts generalizing c s consumed with
  | nil =>
    obtain ⟨rfl, rfl⟩ := pure_eq_ok h
    rw [run]
    cases finish endToken c' <;> rfl
  | cons t ts ih =>
    rw [steps_cons] at h
    obtain ⟨c₁, s₁, ht, h⟩ := bind_eq_ok h
    rw [run, ht]
    simp only [ih h, List.length_cons, Nat.add_assoc, Nat.add_comm 1]

theorem run_of_steps_error (endToken : Token) {e : Failure ε}
    (h : steps limit build ts c s = (.error e, s')) (consumed : Nat) :
    (run limit build endToken consumed c s ts).1.result = .error e ∧
      (run limit build endToken consumed c s ts).2 = s' := by
  induction ts generalizing c s consumed with
  | nil => cases h
  | cons t ts ih =>
    rw [steps_cons] at h
    rcases ht : step limit build t c s with ⟨e₁ | c₁, s₁⟩
    · rw [bind_of_error ht] at h
      obtain ⟨he, rfl⟩ := Prod.mk.inj h
      obtain rfl := Except.error.inj he
      rw [run, ht]
      exact ⟨rfl, rfl⟩
    · rw [bind_of_ok ht] at h
      rw [run, ht]
      exact ih h (consumed + 1)

/-- No more is consumed than is there. -/
theorem run_consumed_le (endToken : Token) (consumed : Nat) (c : State ν) (s : σ) (ts : List Token) :
    (run limit build endToken consumed c s ts).1.consumed ≤ consumed + ts.length := by
  induction ts generalizing consumed c s with
  | nil => exact Nat.le_refl _
  | cons t ts ih =>
    rw [run, List.length_cons]
    split
    · have hrest := ih (consumed + 1) ‹State ν› ‹σ›
      omega
    -- the token that ends the reading is the last one that can be consumed
    · dsimp only
      split <;> omega

end Run

section Parse

variable {build : Answer ε σ ν} {tokens : List Token} {next : Nat} {s s' : σ}

theorem parse_eq_run : parse limit build tokens next s =
    run limit build (splitEnd tokens).2 0 ⟨.program, [], next⟩ s (splitEnd tokens).1 := rfl

/-- A derivation of the tokens before the end is what is read. -/
theorem parse_of_derivation {d : Derivation} (hd : d.tokens = (splitEnd tokens).1) {v : ν}
    {next' : Nat} (h : d.read limit build next s = (.ok (v, next'), s')) :
    parse limit build tokens next s = (⟨.ok v, d.tokens.length, 0, next'⟩, s') := by
  have hs : steps limit build d.tokens ⟨.program, [], next⟩ s =
      (.ok ⟨.complete v, [], next'⟩, s') := by
    rw [steps_derivation, bind_of_ok h]
    rfl
  have hr := run_of_steps_ok (splitEnd tokens).2 hs 0
  rw [parse_eq_run, ← hd, hr, Nat.zero_add]
  rfl

theorem parse_of_derivation_error {d : Derivation} (hd : d.tokens = (splitEnd tokens).1)
    {e : Failure ε} (h : d.read limit build next s = (.error e, s')) :
    (parse limit build tokens next s).1.result = .error e ∧
      (parse limit build tokens next s).2 = s' := by
  have hs : steps limit build d.tokens ⟨.program, [], next⟩ s = (.error e, s') := by
    rw [steps_derivation, bind_of_error h]
  rw [parse_eq_run, ← hd]
  exact run_of_steps_error _ hs 0

/-- What is read has a derivation, and the reading was the descent through it. -/
theorem exists_derivation_of_parse {v : ν}
    (h : (parse limit build tokens next s).1.result = .ok v) :
    ∃ d : Derivation, d.tokens = (splitEnd tokens).1 ∧
      ∃ next' s', d.read limit build next s = (.ok (v, next'), s') := by
  rcases hs : steps limit build (splitEnd tokens).1 ⟨.program, [], next⟩ s with ⟨e | c', s'⟩
  · have hr := (run_of_steps_error (splitEnd tokens).2 hs 0).1
    exact absurd (hr.symm.trans h) (by simp)
  · have hr := run_of_steps_ok (splitEnd tokens).2 hs 0
    have hf : (finish (splitEnd tokens).2 c').mapError .fault = Except.ok (ε := Failure ε) v := by
      rw [← h, parse_eq_run, hr]
    -- the end of the input fits only where nothing more is expected
    obtain ⟨program, hc⟩ : ∃ program, c'.phase = .complete program := by
      unfold finish at hf
      split at hf <;> first | exact ⟨_, ‹_›⟩ | cases hf
    obtain ⟨d, hd⟩ := exists_derivation_of_steps hs hc
    refine ⟨d, hd, ?_⟩
    -- the descent through the derivation can end in one way only, since it is what was read
    rcases hread : d.read limit build next s with ⟨e | ⟨w, next'⟩, s₁⟩
    · have he := (parse_of_derivation_error hd hread).1
      exact absurd (he.symm.trans h) (by simp)
    · have he := parse_of_derivation hd hread
      rw [he] at h
      obtain rfl := Except.ok.inj h
      exact ⟨next', s₁, rfl⟩

end Parse

section Nesting

variable {build : Answer ε σ ν} {s s' : σ}

/-- A descent that gets through an expression did not go too deep. -/
theorem Expression.nesting_le_of_read (e : Expression) {depth : Nat} (hd : depth ≤ limit)
    {v : ν} (h : e.read limit build depth s = (.ok v, s')) : depth + e.nesting ≤ limit := by
  -- each parenthesis was let through at a depth below the limit
  induction e generalizing depth v s s' with
  | literal w => exact hd
  | var w => exact hd
  | group o e c ih =>
    obtain ⟨hlt, h⟩ := within_eq_ok h
    have := ih hlt h
    simp only [nesting]
    omega
  | binary o l op r c ihl ihr =>
    obtain ⟨hlt, h⟩ := within_eq_ok h
    obtain ⟨vl, s₁, hl, h⟩ := bind_eq_ok h
    obtain ⟨vr, s₂, hr, -⟩ := bind_eq_ok h
    have := ihl hlt hl
    have := ihr hlt hr
    simp only [nesting]
    omega

namespace Statement

mutual

theorem nesting_le_of_read (st : Statement) {depth next : Nat} {table : Table}
    (hd : depth ≤ limit) {v : ν × Table × Nat} {s s' : σ}
    (h : st.read limit build depth table next s = (.ok v, s')) : depth + st.nesting ≤ limit := by
  cases st with
  | assign n g e =>
    obtain ⟨ve, s₁, he, -⟩ := bind_eq_ok h
    exact e.nesting_le_of_read hd he
  | ret w e =>
    obtain ⟨ve, s₁, he, -⟩ := bind_eq_ok h
    exact e.nesting_le_of_read hd he
  | block o body c =>
    obtain ⟨hlt, h⟩ := within_eq_ok h
    obtain ⟨vb, s₁, hb, -⟩ := bind_eq_ok h
    have := maxNesting_le_of_readAll body hlt hb
    simp only [nesting]
    omega

theorem maxNesting_le_of_readAll (ss : List Statement) {depth next : Nat} {table : Table}
    (hd : depth ≤ limit) {v : List ν × Table × Nat} {s s' : σ}
    (h : readAll limit build depth table next ss s = (.ok v, s')) :
    depth + maxNesting ss ≤ limit := by
  cases ss with
  | nil => exact hd
  | cons st rest =>
    obtain ⟨v₁, s₁, h₁, h⟩ := bind_eq_ok h
    obtain ⟨v₂, s₂, h₂, -⟩ := bind_eq_ok h
    have := nesting_le_of_read st hd h₁
    have := maxNesting_le_of_readAll rest hd h₂
    simp only [maxNesting]
    omega

end

end Statement

theorem Derivation.nesting_le_of_read (d : Derivation) {next : Nat} {v : ν × Nat}
    (h : d.read limit build next s = (.ok v, s')) : d.nesting ≤ limit := by
  obtain ⟨hlt, h⟩ := within_eq_ok h
  obtain ⟨vb, s₁, hb, -⟩ := bind_eq_ok h
  have := Statement.maxNesting_le_of_readAll d.body hlt hb
  simp only [nesting, statement, Statement.nesting]
  omega

end Nesting

end Dec.Grammar
