import Dec.Program
import Dec.Proofs.Grammar.Dialogue

namespace Dec

namespace Grammar

/-- A reading that goes as another one does, or is given up because it goes too deep. -/
def UpToDepth {ε σ α : Type} (x y : Reading ε σ α) : Prop :=
  ∀ s, (∃ t, (x s).1 = .error (.fault (.tooDeep t))) ∨ x s = y s

namespace UpToDepth

variable {ε σ α β : Type} {x y : Reading ε σ α}

theorem refl (x : Reading ε σ α) : UpToDepth x x := fun _ => .inr rfl

theorem bind (h : UpToDepth x y) {f g : α → Reading ε σ β} (hf : ∀ a, UpToDepth (f a) (g a)) :
    UpToDepth (x >>= f) (y >>= g) := by
  intro s
  rcases hx : x s with ⟨e | a, s₁⟩
  · rw [bind_of_error hx]
    rcases h s with ⟨t, ht⟩ | hxy
    · rw [hx] at ht
      obtain rfl := Except.error.inj ht
      exact .inl ⟨t, rfl⟩
    · rw [hx] at hxy
      exact .inr (bind_of_error hxy.symm g).symm
  · rw [bind_of_ok hx]
    rcases h s with ⟨t, ht⟩ | hxy
    · rw [hx] at ht
      cases ht
    · rw [hx] at hxy
      rw [bind_of_ok hxy.symm]
      exact hf a s₁

end UpToDepth

section Limits

variable {ε σ ν : Type} {limit limit' : Nat}

theorem deeper_upToDepth (h : limit ≤ limit') (depth : Nat) (next : State ν) (t : Token) :
    UpToDepth (ε := ε) (σ := σ) (if depth < limit then pure next else reject (.tooDeep t))
      (if depth < limit' then pure next else reject (.tooDeep t)) := by
  intro s
  by_cases hd : depth < limit
  · rw [if_pos hd, if_pos (Nat.lt_of_lt_of_le hd h)]
    exact .inr rfl
  · rw [if_neg hd]
    exact .inl ⟨t, rfl⟩

theorem step_upToDepth (h : limit ≤ limit') (build : Answer ε σ ν) (t : Token) (c : State ν) :
    UpToDepth (step limit build t c) (step limit' build t c) := by
  -- only a brace or a parenthesis that opens is held against the limit
  obtain ⟨phase, blocks, next⟩ := c
  cases phase with
  | program =>
    simp only [step]
    split
    · exact deeper_upToDepth h _ _ t
    · exact .refl _
  | statement =>
    simp only [step]
    split
    · exact .refl _
    · exact deeper_upToDepth h _ _ t
    all_goals exact .refl _
  | operand head parens =>
    simp only [step]
    split
    · exact .refl _
    · exact .refl _
    · exact .refl _
    · exact deeper_upToDepth h _ _ t
    all_goals exact .refl _
  | _ => exact .refl _

theorem steps_upToDepth (h : limit ≤ limit') (build : Answer ε σ ν) (ts : List Token)
    (c : State ν) :
    UpToDepth (steps limit build ts c) (steps limit' build ts c) := by
  induction ts generalizing c with
  | nil => exact .refl _
  | cons t ts ih =>
    rw [steps_cons, steps_cons]
    exact (step_upToDepth h build t c).bind ih

theorem reading_upToDepth (h : limit ≤ limit') (build : Answer ε σ ν) (tokens : List Token)
    (firstTable : Nat) :
    UpToDepth (reading limit build tokens firstTable) (reading limit' build tokens firstTable) :=
  (steps_upToDepth h build _ _).bind fun _ => .refl _

theorem ofTokens_result_eq_reading (limit : Nat) (builder : Builder) (tokens : List Token)
    (f : Forest) :
    (Program.ofTokens limit builder tokens f).result =
      (reading limit builder.create tokens f.nextTable
        { f with record := [] }).1.mapError .grammar := by
  rw [← parse_eq_reading]
  simp only [Program.ofTokens]
  split <;> simp_all [Except.mapError]

end Limits

end Grammar

namespace Program

def TooDeep (result : Except ReadFailure (Option Node)) : Prop :=
  ∃ t, result = .error (.grammar (.fault (.tooDeep t)))

/-- A greater limit changes nothing but the readings that are given up for their depth. -/
theorem ofTokens_result_of_le {limit limit' : Nat} (h : limit ≤ limit') (builder : Builder)
    (tokens : List Token) (f : Forest) :
    TooDeep (ofTokens limit builder tokens f).result ∨
      (ofTokens limit builder tokens f).result = (ofTokens limit' builder tokens f).result := by
  rw [Grammar.ofTokens_result_eq_reading, Grammar.ofTokens_result_eq_reading]
  rcases Grammar.reading_upToDepth h builder.create tokens f.nextTable { f with record := [] } with
    ⟨t, ht⟩ | hsame
  · rw [ht]
    exact .inl ⟨t, rfl⟩
  · rw [hsame]
    exact .inr rfl

theorem ofTokens_result_ok_of_le {limit limit' : Nat} (h : limit ≤ limit') {builder : Builder}
    {tokens : List Token} {f : Forest} {n : Option Node}
    (hn : (ofTokens limit builder tokens f).result = .ok n) :
    (ofTokens limit' builder tokens f).result = .ok n := by
  rcases ofTokens_result_of_le h builder tokens f with ⟨t, ht⟩ | hsame
  · rw [hn] at ht
    cases ht
  · rw [← hsame, hn]

end Program

end Dec
