import Dec.Proofs.Grammar.Granted

/-!
The token at which a reading fails. What was read before it is the beginning of a program, and no
program goes on with it; so it is the first token that is wrong, and the code of the fault tells
whether it is the end of the input or follows a whole program.
-/
namespace Dec.Grammar

section Steps

variable {ε σ ν : Type} {limit : Nat} {build : Answer ε σ ν} {ts : List Token} {c c' : State ν}
  {s s' : σ}

/-- A reading that fails does so at one of its tokens, after those before it went well. -/
theorem steps_eq_error {e : Failure ε} (h : steps limit build ts c s = (.error e, s')) :
    ∃ before t after c₁ s₁, ts = before ++ t :: after ∧
      steps limit build before c s = (.ok c₁, s₁) ∧ step limit build t c₁ s₁ = (.error e, s') := by
  induction ts generalizing c s with
  | nil => cases h
  | cons t ts ih =>
    rw [steps_cons] at h
    rcases ht : step limit build t c s with ⟨e₁ | c₁, s₁⟩
    · rw [bind_of_error ht] at h
      cases h
      exact ⟨[], t, ts, c, s, rfl, rfl, ht⟩
    · rw [bind_of_ok ht] at h
      obtain ⟨before, u, after, c₂, s₂, rfl, hbefore, hu⟩ := ih h
      refine ⟨t :: before, u, after, c₂, s₂, rfl, ?_, hu⟩
      rw [steps_cons, bind_of_ok ht, hbefore]

/-- What was read well is consumed. -/
theorem run_append (endToken : Token) (h : steps limit build ts c s = (.ok c', s')) (consumed : Nat)
    (rest : List Token) :
    run limit build endToken consumed c s (ts ++ rest) =
      run limit build endToken (consumed + ts.length) c' s' rest := by
  induction ts generalizing c s consumed with
  | nil =>
    obtain ⟨rfl, rfl⟩ := pure_eq_ok h
    rfl
  | cons t ts ih =>
    rw [steps_cons] at h
    obtain ⟨c₁, s₁, ht, h⟩ := bind_eq_ok h
    rw [List.cons_append, run, ht]
    simp only [ih h, List.length_cons, Nat.add_assoc, Nat.add_comm 1]

/-- Where all tokens of a program were read nothing more is expected. -/
theorem phase_complete_of_derivation {d : Derivation} {next : Nat}
    (h : steps limit build d.tokens ⟨.program, [], next⟩ s = (.ok c, s')) :
    ∃ program, c.phase = .complete program := by
  rw [steps_derivation] at h
  obtain ⟨r, s₁, -, h⟩ := bind_eq_ok h
  obtain ⟨rfl, -⟩ := pure_eq_ok h
  exact ⟨r.1, rfl⟩

/-- Nothing more is expected just where all tokens of a program were read. -/
theorem phase_complete_iff {next : Nat}
    (h : steps limit build ts ⟨.program, [], next⟩ s = (.ok c, s')) :
    (∃ program, c.phase = .complete program) ↔ ∃ d : Derivation, d.tokens = ts := by
  constructor
  · rintro ⟨program, hc⟩
    exact exists_derivation_of_steps h hc
  · rintro ⟨d, rfl⟩
    exact phase_complete_of_derivation h

end Steps

/-- A fault names the first token that does not fit after those before it. These begin a program that
is nested no more deeply than the limit, or than one block. With the token they do not; if it is the
end of the input, they are no program by themselves. The code tells the end of the input and what
follows a whole program apart from all other tokens. -/
structure Pinpoints (limit : Nat) (fault : SyntaxFault) (before : List Token) : Prop where
  continuable : ∃ d : Derivation, before <+: d.tokens ∧ (∀ t ∈ d.tokens, t.Spelled) ∧
    d.nesting ≤ max 1 limit
  offending : fault.found.isEnd = false → ∀ d : Derivation, ¬ before ++ [fault.found] <+: d.tokens
  incomplete : fault.found.isEnd = true → ∀ d : Derivation, d.tokens ≠ before
  atEnd : fault.code = "P004" ∨ fault.code = "P010" ↔ fault.found.isEnd = true
  trailing : fault.code = "P013" ↔ ∃ d : Derivation, d.tokens = before

section Pinpoints

variable {limit : Nat} {ts : List Token} {next : Nat} {f f₁ f₂ : Forest} {c : State (Option Node)}
  {fault : SyntaxFault}

theorem initial_made (next : Nat) : State.Made ⟨.program, [], next⟩ := ⟨trivial, by simp⟩

/-- A program that goes on from what was read without opening anything more is not nested too
deeply. -/
theorem nesting_le_of_closing {d : Derivation} {more : List Token} (hd : d.tokens = ts ++ more)
    (hs : ∀ t ∈ ts, t.Spelled) (hmore : Closing more)
    (h : steps limit (Builder.create .making) ts ⟨.program, [], next⟩ f = (.ok c, f₁)) :
    d.nesting ≤ limit := by
  have hspelled : ∀ t ∈ d.tokens, t.Spelled := by
    rw [hd]
    exact List.forall_mem_append.mpr ⟨hs, fun t ht => (hmore t ht).1⟩
  rcases hread : d.read limit (Builder.create .making) next f with ⟨e | v, f'⟩
  · -- the reading would fail at one of the further tokens, and not for its depth
    exfalso
    have herror : steps limit (Builder.create .making) d.tokens ⟨.program, [], next⟩ f =
        (.error e, f') := by
      rw [steps_derivation, bind_of_error hread]
    obtain ⟨fault, rfl⟩ := (steps_granted (initial_made next) hspelled).of_eq_error herror
    obtain ⟨t, rfl⟩ := (steps_derivation_faultsIn _ d next).of_eq_error herror fault rfl
    rw [hd, steps_append, bind_of_ok h] at herror
    obtain ⟨before, u, after, c₁, f₂, rfl, -, hu⟩ := steps_eq_error herror
    -- only an opening sign can be too deep
    have hmisfit := (step_faultsIn _ u c₁).of_eq_error hu _ rfl
    cases hmisfit with
    | tooDeep hdeep hturn =>
      have hle := (hmore t (by simp)).2
      omega
    | misplaced hf hcode hc => exact absurd hcode (by simp [SyntaxFault.code, misplacedCodes])
  · exact d.nesting_le_of_read hread

/-- What was read begins a program that is nested no more deeply than it may be. -/
theorem exists_derivation_of_read (hs : ∀ t ∈ ts, t.Spelled)
    (h : steps limit (Builder.create .making) ts ⟨.program, [], next⟩ f = (.ok c, f₁)) :
    ∃ d : Derivation, ts <+: d.tokens ∧ (∀ t ∈ d.tokens, t.Spelled) ∧
      d.nesting ≤ max 1 limit := by
  obtain ⟨p, hp, htokens⟩ := steps_tracks (.empty next) ts h
  by_cases hempty : p = .empty
  · subst hempty
    obtain rfl : [] = ts := by simpa [Beginning.tokens] using htokens
    refine ⟨⟨plainSign .leftBrace, [], plainSign .rightBrace⟩, List.nil_prefix, ?_,
      Nat.le_max_left 1 limit⟩
    exact List.forall_mem_cons.mpr ⟨plainSign_spelled rfl,
      List.forall_mem_singleton.mpr (plainSign_spelled rfl)⟩
  · obtain ⟨d, more, hd, hmore⟩ := Beginning.completable hempty
    rw [htokens] at hd
    refine ⟨d, ⟨more, hd.symm⟩, ?_, le_max_of_le_right (nesting_le_of_closing hd hs hmore h)⟩
    rw [hd]
    exact List.forall_mem_append.mpr ⟨hs, fun t ht => (hmore t ht).1⟩

/-- A program that goes on with a token is read beyond it, unless it is too deep. -/
theorem not_prefix_of_step {t : Token} {d : Derivation}
    (h : steps limit (Builder.create .making) ts ⟨.program, [], next⟩ f = (.ok c, f₁))
    (hstep : step limit (Builder.create .making) t c f₁ = (.error (.fault fault), f₂))
    (hcode : fault.code ≠ "P014") : ¬ ts ++ [t] <+: d.tokens := by
  rintro ⟨more, hd⟩
  have herror : steps limit (Builder.create .making) d.tokens ⟨.program, [], next⟩ f =
      (.error (.fault fault), f₂) := by
    rw [← hd, List.append_assoc, steps_append, bind_of_ok h, List.singleton_append, steps_cons,
      bind_of_error hstep]
  obtain ⟨u, rfl⟩ := (steps_derivation_faultsIn _ d next).of_eq_error herror fault rfl
  exact hcode rfl

/-- A token that the machine rejects is the first that does not fit, unless too much is open already
and it opens more. -/
theorem pinpoints_of_step (hs : ∀ t ∈ ts, t.Spelled)
    (h : steps limit (Builder.create .making) ts ⟨.program, [], next⟩ f = (.ok c, f₁)) {t : Token}
    (ht : t.isEnd = false)
    (hstep : step limit (Builder.create .making) t c f₁ = (.error (.fault fault), f₂)) :
    fault.found = t ∧
      (fault.code = "P014" → limit ≤ unclosed ts ∧ t.kind.turn = 1) ∧
      (fault.code ≠ "P014" → Pinpoints limit fault ts) := by
  have hcomplete := phase_complete_iff h
  cases (step_faultsIn _ t c).of_eq_error hstep _ rfl with
  | tooDeep hd hturn =>
    -- the machine is as deep as signs are open in what it has read
    obtain ⟨p, hp, htokens⟩ := steps_tracks (.empty next) ts h
    have hdepth := hp.unclosed_tokens
    rw [htokens] at hdepth
    refine ⟨rfl, fun _ => ⟨?_, hturn⟩, fun hne => absurd rfl hne⟩
    rw [show unclosed ts = c.depth from hdepth]
    exact_mod_cast hd
  | trailing hc =>
    refine ⟨rfl, fun he => absurd he (by simp [SyntaxFault.code]), fun hcode => ?_⟩
    constructor
    · exact exists_derivation_of_read hs h
    · exact fun _ d => not_prefix_of_step h hstep hcode
    · exact fun hend => absurd (ht.symm.trans hend) (by simp)
    · simp [SyntaxFault.code, SyntaxFault.found, ht]
    · simp only [SyntaxFault.code, ← hcomplete, true_iff]
      exact ⟨_, hc⟩
  | misplaced hf hmem hc =>
    subst hf
    have hother : fault.code ≠ "P004" ∧ fault.code ≠ "P010" ∧ fault.code ≠ "P013" ∧
        fault.code ≠ "P014" := by
      simp only [misplacedCodes, List.mem_cons, List.not_mem_nil, or_false] at hmem
      rcases hmem with hk | hk | hk <;> simp [hk]
    refine ⟨rfl, fun he => absurd he hother.2.2.2, fun hcode => ?_⟩
    constructor
    · exact exists_derivation_of_read hs h
    · exact fun _ d => not_prefix_of_step h hstep hcode
    · exact fun hend => absurd (ht.symm.trans hend) (by simp)
    · simp [hother, ht]
    · simp [hother, ← hcomplete, hc]

/-- The end of the input that the machine rejects does not follow a program. -/
theorem pinpoints_of_finish (hs : ∀ t ∈ ts, t.Spelled)
    (h : steps limit (Builder.create .making) ts ⟨.program, [], next⟩ f = (.ok c, f₁)) {t : Token}
    (ht : t.isEnd = true) (hfinish : finish t c = .error fault) :
    fault.found = t ∧ fault.code ≠ "P014" ∧ Pinpoints limit fault ts := by
  obtain ⟨rfl, hmem, hc⟩ := finish_error hfinish
  have hincomplete : ∀ d : Derivation, d.tokens ≠ ts := by
    intro d hd
    obtain ⟨program, hprogram⟩ := (phase_complete_iff h).mpr ⟨d, hd⟩
    exact hc program hprogram
  have hcodes : (fault.code = "P004" ∨ fault.code = "P010") ∧ fault.code ≠ "P013" ∧
      fault.code ≠ "P014" := by
    simp only [unendedCodes, List.mem_cons, List.not_mem_nil, or_false] at hmem
    rcases hmem with hk | hk <;> simp [hk]
  refine ⟨rfl, hcodes.2.2, ?_⟩
  constructor
  · exact exists_derivation_of_read hs h
  · exact fun hend => absurd (ht.symm.trans hend) (by simp)
  · exact fun _ => hincomplete
  · simp [hcodes.1, ht]
  · simp [hcodes.2.1, hincomplete]

end Pinpoints

section Program

theorem ofTokens_result_eq_error {limit : Nat} {builder : Builder} {tokens : List Token}
    {f : Forest} {failure : Failure BuildFault} :
    (Program.ofTokens limit builder tokens f).result = .error (.grammar failure) ↔
      (parse limit builder.create tokens f.nextTable { f with record := [] }).1.result =
        .error failure := by
  simp only [Program.ofTokens]
  split <;> simp_all

/-- Where a text is no program, its reading fails with a fault of the syntax that is reported at one of
the tokens, and those before it are what was consumed. Unless as many signs are open there as may be
and the token opens one more, it is the first one that does not fit. -/
theorem ofTokens_making_fault {source file : String} {tokens : List Token}
    (h : tokenize source file = .ok tokens)
    (hnot : ∀ d : Derivation, d.tokens ≠ tokens.takeWhile fun t => !t.isEnd) (limit : Nat)
    (f : Forest) :
    ∃ fault before after,
      (Program.ofTokens limit .making tokens f).result = .error (.grammar (.fault fault)) ∧
      tokens = before ++ fault.found :: after ∧
      (Program.ofTokens limit .making tokens f).consumed = before.length ∧
      (fault.diagnostic.location = fault.found.location ∧
        fault.diagnostic.code = some fault.code) ∧
      (fault.code = "P014" → limit ≤ unclosed before ∧ fault.found.kind.turn = 1) ∧
      (fault.code ≠ "P014" → Pinpoints limit fault before) := by
  obtain ⟨ts, place, rfl, hts⟩ := tokenize_eq_ok h
  have hsplit := splitEnd_of_spelled hts place
  rw [← splitEnd_fst, hsplit] at hnot
  simp only [ofTokens_result_eq_error, ofTokens_consumed, parse_eq_run, hsplit]
  rcases hsteps : steps limit (Builder.create .making) ts ⟨.program, [], f.nextTable⟩
    { f with record := [] } with ⟨e | c, f'⟩
  -- a token is rejected before the end, and the builder has no part in that
  · obtain ⟨fault, rfl⟩ := (steps_granted (initial_made _) hts).of_eq_error hsteps
    obtain ⟨before, t, after, c, f₁, rfl, hbefore, ht⟩ := steps_eq_error hsteps
    obtain ⟨hts, htafter⟩ := List.forall_mem_append.mp hts
    have hend : t.isEnd = false := by
      have hk : t.kind ≠ .endOfInput := (htafter t (by simp)).notEnd
      simpa [Token.isEnd] using hk
    obtain ⟨rfl, hdeep, hpin⟩ := pinpoints_of_step hts hbefore hend ht
    refine ⟨fault, before, after ++ [.endOfInput place], ?_, by simp, ?_,
      diagnostic_of_found fault, hdeep, hpin⟩
    · rw [run_append _ hbefore, run, ht]
    · rw [run_append _ hbefore, run, ht]
      exact Nat.zero_add _
  -- all tokens are read: they would be a program if the end were not rejected
  · have hrun := run_of_steps_ok (.endOfInput place) hsteps 0
    rcases hfinish : finish (.endOfInput place) c with fault | program
    · obtain ⟨hfound, hcode, hpin⟩ := pinpoints_of_finish hts hsteps rfl hfinish
      refine ⟨fault, ts, [], ?_, by rw [hfound], ?_, diagnostic_of_found fault,
        fun he => absurd he hcode, fun _ => hpin⟩
      · rw [hrun, hfinish]
        rfl
      · rw [hrun, Nat.zero_add]
    · obtain ⟨d, hd⟩ := (phase_complete_iff hsteps).mp ⟨program, finish_ok hfinish⟩
      exact absurd hd (hnot d)

/-- The second operand of an operation is missing. -/
theorem ofTokens_making_fault_missing_operand :
    ∃ tokens before found after, tokenize "\x7bx := (1 + )\x7d" "f" = .ok tokens ∧
      (Program.ofTokens 2 .making tokens .empty).result =
        .error (.grammar (.fault (.noExpression found))) ∧
      tokens = before ++ found :: after ∧ Pinpoints 2 (.noExpression found) before := by
  let place (i : Int) : Option Location := some ⟨"f", 1, i + 1, i⟩
  let ts : List Token :=
    [⟨.leftBrace, "\x7b", none, place 0⟩, ⟨.identifier, "x", some (.text "x"), place 1⟩,
      ⟨.assign, ":=", none, place 3⟩, ⟨.leftParen, "(", none, place 6⟩,
      ⟨.integer, "1", some (.number (.int 1)), place 7⟩, ⟨.operator .plus, "+", none, place 9⟩,
      ⟨.rightParen, ")", none, place 11⟩, ⟨.rightBrace, "\x7d", none, place 12⟩]
  have h : tokenize "\x7bx := (1 + )\x7d" "f" = .ok (ts ++ [.endOfInput (place 13)]) := by cbv
  have hnot : ∀ d : Derivation,
      d.tokens ≠ (ts ++ [Token.endOfInput (place 13)]).takeWhile fun t => !t.isEnd := by
    intro d hd
    have hsteps : steps 2 (Builder.create .skipping) d.tokens ⟨.program, [], 0⟩ .empty =
        (.error (.fault (.noExpression ⟨.rightParen, ")", none, place 11⟩)), .empty) := by
      rw [hd]
      rfl
    obtain ⟨t, ht⟩ := (steps_derivation_faultsIn _ d 0).of_eq_error hsteps _ rfl
    cases ht
  obtain ⟨fault, before, after, hr, htokens, -, -, -, hpin⟩ :=
    ofTokens_making_fault h hnot 2 .empty
  have hresult : (Program.ofTokens 2 .making (ts ++ [.endOfInput (place 13)]) .empty).result =
      .error (.grammar (.fault (.noExpression ⟨.rightParen, ")", none, place 11⟩))) := by rfl
  rw [hresult] at hr
  cases hr
  exact ⟨_, before, _, after, h, hresult, htokens, hpin (by decide)⟩

end Program

end Dec.Grammar
