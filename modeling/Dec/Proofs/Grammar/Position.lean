import Dec.Proofs.Grammar.Matching

namespace Dec.Grammar

section Marked

def lastPlace (tokens : List Token) : Option Location :=
  (tokens.getLast?.map (·.location)).getD (some .unknown)

/-- Tokens with the mark at their end, which stands at the last token where it is missing. -/
def marked (tokens : List Token) : List Token :=
  if tokens.getLast?.any Token.isEnd then tokens else tokens ++ [.endOfInput (lastPlace tokens)]

def endIndex (tokens : List Token) : Nat := (marked tokens).findIdx Token.isEnd

variable {tokens : List Token}

/-- The number of tokens that is reported counts the mark. -/
theorem length_marked (tokens : List Token) :
    (marked tokens).length = Program.markedLength tokens := by
  rw [marked, Program.markedLength]
  cases h : tokens.getLast? with
  | none =>
    obtain rfl := List.getLast?_eq_none_iff.mp h
    rfl
  | some t => cases ht : t.isEnd <;> simp [ht]

/-- None of the tokens before the end is the end. -/
theorem isEnd_eq_false_of_mem_splitEnd {t : Token} (h : t ∈ (splitEnd tokens).1) :
    t.isEnd = false := by
  rw [splitEnd_fst] at h
  simpa using List.mem_takeWhile_imp h

/-- Where no token is the end, it stands at the last one. -/
theorem splitEnd_of_unended (h : ∀ t ∈ tokens, t.isEnd = false) :
    splitEnd tokens = (tokens, .endOfInput (lastPlace tokens)) := by
  have htake : (tokens.takeWhile fun t => !t.isEnd) = tokens :=
    List.takeWhile_eq_self_iff.mpr fun t ht => by simp [h t ht]
  have hdrop : (tokens.dropWhile fun t => !t.isEnd) = [] :=
    List.dropWhile_eq_nil_iff.mpr fun t ht => by simp [h t ht]
  simp only [splitEnd, htake, hdrop, lastPlace]
  cases tokens.getLast? <;> rfl

/-- The first end splits the tokens, unless none of them is the end. -/
theorem exists_eq_splitEnd_or (tokens : List Token) :
    (∃ rest, tokens = (splitEnd tokens).1 ++ (splitEnd tokens).2 :: rest) ∨
      ∀ t ∈ tokens, t.isEnd = false := by
  rcases hdrop : tokens.dropWhile fun t => !t.isEnd with _ | ⟨t, rest⟩
  · right
    intro t ht
    simpa using List.dropWhile_eq_nil_iff.mp hdrop t ht
  · left
    have hsplit : splitEnd tokens = (tokens.takeWhile fun t => !t.isEnd, t) := by
      simp only [splitEnd, hdrop]
    exact ⟨rest, by rw [hsplit, ← hdrop, List.takeWhile_append_dropWhile]⟩

/-- The tokens that are read and the end that they are read to begin the marked tokens. -/
theorem exists_marked_eq (tokens : List Token) :
    ∃ rest, marked tokens = (splitEnd tokens).1 ++ (splitEnd tokens).2 :: rest := by
  rcases exists_eq_splitEnd_or tokens with ⟨rest, hrest⟩ | hends
  · rw [marked]
    split
    · exact ⟨rest, hrest⟩
    · refine ⟨rest ++ [.endOfInput (lastPlace tokens)], ?_⟩
      rw [← List.cons_append, ← List.append_assoc, ← hrest]
  · have hlast : tokens.getLast?.any Token.isEnd = false := by
      cases h : tokens.getLast? with
      | none => rfl
      | some t => exact hends t (List.mem_of_getLast? h)
    refine ⟨[], ?_⟩
    rw [splitEnd_of_unended hends, marked, hlast]
    rfl

theorem endIndex_eq (tokens : List Token) : endIndex tokens = (splitEnd tokens).1.length := by
  obtain ⟨rest, hrest⟩ := exists_marked_eq tokens
  have hbefore : (splitEnd tokens).1.findIdx Token.isEnd = (splitEnd tokens).1.length :=
    List.findIdx_eq_length.mpr fun t ht => isEnd_eq_false_of_mem_splitEnd ht
  rw [endIndex, hrest, List.findIdx_append, hbefore, if_neg (Nat.lt_irrefl _), List.findIdx_cons,
    splitEnd_isEnd]
  exact Nat.zero_add _

/-- What comes behind an end is not read. -/
theorem splitEnd_append_of_ended {rest : List Token}
    (h : tokens = (splitEnd tokens).1 ++ (splitEnd tokens).2 :: rest) (more : List Token) :
    splitEnd (tokens ++ more) = splitEnd tokens := by
  have happend : tokens ++ more = (splitEnd tokens).1 ++ (splitEnd tokens).2 :: (rest ++ more) := by
    rw [← List.cons_append, ← List.append_assoc, ← h]
  rw [happend]
  exact splitEnd_append_end (fun t ht => isEnd_eq_false_of_mem_splitEnd ht) (splitEnd_isEnd tokens) _

/-- What comes behind any token that is the end is not read. -/
theorem splitEnd_append_cons {before : List Token} {t : Token} (ht : t.isEnd = true)
    (after : List Token) : splitEnd (before ++ t :: after) = splitEnd (before ++ [t]) := by
  rcases exists_eq_splitEnd_or before with ⟨rest, hrest⟩ | hends
  · rw [splitEnd_append_of_ended hrest, splitEnd_append_of_ended hrest]
  · rw [splitEnd_append_end hends ht after, splitEnd_append_end hends ht []]

/-- A mark behind the last token, at its place, changes nothing. -/
theorem splitEnd_append_mark (tokens : List Token) :
    splitEnd (tokens ++ [.endOfInput (lastPlace tokens)]) = splitEnd tokens := by
  rcases exists_eq_splitEnd_or tokens with ⟨rest, hrest⟩ | hends
  · exact splitEnd_append_of_ended hrest _
  · rw [splitEnd_of_unended hends]
    exact splitEnd_append_end hends rfl []

end Marked

section Index

variable {ε σ ν : Type} {limit : Nat}

/-- Reads tokens by their index, and has no outcome where an index is out of range. The index goes on
by one with each token, and stops at the end or where a token is rejected. -/
def readAt (limit : Nat) (build : Answer ε σ ν) (tokens : List Token) (current : Nat) (c : State ν)
    (s : σ) : Option (Outcome ε ν × σ) :=
  if h : current < tokens.length then
    let t := tokens[current]
    if t.isEnd then some (run limit build t current c s [])
    else
      match step limit build t c s with
      | (.ok next, s) => readAt limit build tokens (current + 1) next s
      | (.error _, _) => some (run limit build t current c s [t])
  else none
termination_by tokens.length - current

variable {build : Answer ε σ ν} {tokens : List Token}

theorem readAt_of_getElem? {current : Nat} {t : Token} (h : tokens[current]? = some t)
    (c : State ν) (s : σ) :
    readAt limit build tokens current c s =
      if t.isEnd then some (run limit build t current c s [])
      else
        match step limit build t c s with
        | (.ok next, s) => readAt limit build tokens (current + 1) next s
        | (.error _, _) => some (run limit build t current c s [t]) := by
  obtain ⟨hlt, rfl⟩ := List.getElem?_eq_some_iff.mp h
  rw [readAt, dif_pos hlt]

/-- From an index on, the tokens up to the end are read one after another. -/
theorem readAt_eq_run {read before rest : List Token} {endToken : Token}
    (htokens : tokens = read ++ (before ++ endToken :: rest))
    (hbefore : ∀ t ∈ before, t.isEnd = false) (hend : endToken.isEnd = true) (c : State ν) (s : σ) :
    readAt limit build tokens read.length c s =
      some (run limit build endToken read.length c s before) := by
  -- on the tokens that are left; those that were read only give the index
  induction before generalizing read c s with
  | nil =>
    have hindex : tokens[read.length]? = some endToken := by simp [htokens]
    rw [readAt_of_getElem? hindex, if_pos hend]
  | cons t before ih =>
    obtain ⟨ht, hbefore⟩ := List.forall_mem_cons.mp hbefore
    have hindex : tokens[read.length]? = some t := by simp [htokens]
    have hnext : tokens = (read ++ [t]) ++ (before ++ endToken :: rest) := by
      rw [htokens, List.append_assoc]
      rfl
    have hrest (c : State ν) (s : σ) := ih hnext hbefore c s
    rw [List.length_append, List.length_singleton] at hrest
    have hnot : ¬ t.isEnd = true := by simp [ht]
    rw [readAt_of_getElem? hindex, if_neg hnot]
    rcases hstep : step limit build t c s with ⟨failure | c₁, s₁⟩
    · simp only [run, hstep]
    · simp only [run, hstep, hrest]

/-- Read by their index, marked tokens have the outcome that they have. -/
theorem readAt_marked (build : Answer ε σ ν) (tokens : List Token) (firstTable : Nat) (s : σ) :
    readAt limit build (marked tokens) 0 ⟨.program, [], firstTable⟩ s =
      some (parse limit build tokens firstTable s) := by
  obtain ⟨rest, hrest⟩ := exists_marked_eq tokens
  show readAt limit build (marked tokens) ([] : List Token).length ⟨.program, [], firstTable⟩ s = _
  exact readAt_eq_run hrest (fun t ht => isEnd_eq_false_of_mem_splitEnd ht)
    (splitEnd_isEnd tokens) _ s

end Index

section Braces

def openBraces (ts : List Token) : Int :=
  (ts.countP fun t => t.kind = .leftBrace : Nat) - (ts.countP fun t => t.kind = .rightBrace : Nat)

theorem openBraces_append (ts us : List Token) :
    openBraces (ts ++ us) = openBraces ts + openBraces us := by
  rw [openBraces, openBraces, openBraces, List.countP_append, List.countP_append]
  omega

theorem openBraces_leftBrace {t : Token} (ht : t.kind = .leftBrace) : openBraces [t] = 1 := by
  simp [openBraces, ht]

theorem openBraces_rightBrace {t : Token} (ht : t.kind = .rightBrace) : openBraces [t] = -1 := by
  simp [openBraces, ht]

def IsInner (t : Token) : Prop := t.kind ≠ .leftBrace ∧ t.kind ≠ .rightBrace

theorem IsInner.of_kind {t : Token} {kind : TokenKind} (ht : t.kind = kind)
    (hk : kind ≠ .leftBrace ∧ kind ≠ .rightBrace) : IsInner t := by
  rwa [IsInner, ht]

theorem IsInner.openBraces_eq {t : Token} (ht : IsInner t) : openBraces [t] = 0 := by
  simp [openBraces, ht.1, ht.2]

end Braces

section Step

variable {ε σ ν : Type} {limit : Nat} {build : Answer ε σ ν} {t : Token} {c c' : State ν}

def State.Nested (c : State ν) : Prop :=
  match c.phase with
  | .program => c.blocks = []
  | .complete _ => c.blocks = []
  | _ => c.blocks ≠ []

/-- What some tokens do to the blocks: as many more are open as they have more opening than closing
braces. -/
structure Follows (ts : List Token) (c c' : State ν) : Prop where
  nested : c'.Nested
  balance : (c'.blocks.length : Int) = c.blocks.length + openBraces ts

/-- How a token ends a reading: it does not fit, or the builder fails and the blocks that are open then
are those after the token. -/
inductive FailsAt (t : Token) (c : State ν) : Failure ε → Prop
  | fault {fault : SyntaxFault} (h : fault.found = t) : FailsAt t c (.fault fault)
  | builder {failure : Failure ε} (h : ∀ fault, failure ≠ .fault fault)
      (balance : (openAfter t c.blocks.length failure : Int) = c.blocks.length + openBraces [t]) :
      FailsAt t c failure

/-- Inside a block a token that is no brace leaves the blocks as they are. -/
theorem Follows.of_inner (ht : IsInner t) (hn : c'.Nested)
    (hb : c'.blocks.length = c.blocks.length) : Follows [t] c c' :=
  ⟨hn, by rw [ht.openBraces_eq, hb, Int.add_zero]⟩

theorem FailsAt.of_inner (ht : IsInner t) {failure : Failure ε}
    (h : ∀ fault, failure ≠ .fault fault) : FailsAt t c failure := by
  refine .builder h ?_
  have hopen : openAfter t c.blocks.length failure = c.blocks.length := by
    cases failure with
    | fault fault => rfl
    | unknownOperator symbol => exact if_neg ht.2
    | refused reason => exact if_neg ht.2
  rw [hopen, ht.openBraces_eq, Int.add_zero]

theorem addStatement_nested (v : ν) (c : State ν) : (addStatement v c).Nested := by
  obtain ⟨phase, blocks, next⟩ := c
  cases blocks with
  | nil => rfl
  | cons b outer => exact List.cons_ne_nil _ _

theorem length_blocks_addStatement (v : ν) (c : State ν) :
    (addStatement v c).blocks.length = c.blocks.length := by
  obtain ⟨phase, blocks, next⟩ := c
  cases blocks <;> rfl

theorem length_blocks_declare (name : String) (c : State ν) :
    (declare name c).blocks.length = c.blocks.length := by
  obtain ⟨phase, blocks, next⟩ := c
  cases blocks <;> rfl

/-- A request at a token that is no brace. -/
theorem ends_request_of_inner (ht : IsInner t) (creation : Creation ν)
    (location : Option Location) :
    Ends (fun _ => True) (FailsAt t c) (request build creation location) :=
  .request (fun _ => trivial) (fun _ => .of_inner ht fun _ he => by cases he) creation location

theorem finishOperand_follows (ht : IsInner t) (hb : c.blocks ≠ []) (head : Head) (value : ν)
    (parens : List (Paren ν)) :
    Ends (Follows [t] c) (FailsAt t c) (finishOperand build head value c parens) := by
  cases parens with
  | nil =>
    cases head with
    | assign name =>
      refine (ends_request_of_inner ht _ _).bind fun target _ => ?_
      refine (ends_request_of_inner ht _ _).bind fun statement _ => .pure ?_
      -- the name goes into the table of a block that is open already
      refine .of_inner ht (addStatement_nested _ _) ?_
      rw [length_blocks_addStatement, length_blocks_declare]
    | ret word =>
      refine (ends_request_of_inner ht _ _).bind fun statement _ => .pure ?_
      exact .of_inner ht (addStatement_nested _ _) (length_blocks_addStatement _ _)
  | cons paren outer => cases paren <;> exact .pure (.of_inner ht hb rfl)

/-- A block is closed before the builder is asked for it. -/
theorem closeBlock_follows (ht : t.kind = .rightBrace) (hb : c.blocks ≠ []) :
    Ends (Follows [t] c) (FailsAt t c) (closeBlock build c) := by
  obtain ⟨phase, blocks, next⟩ := c
  cases blocks with
  | nil => exact absurd rfl hb
  | cons b outer =>
    have hlength : (outer.length : Int) = (b :: outer).length + openBraces [t] := by
      rw [openBraces_rightBrace ht, List.length_cons]
      omega
    have hrequest : Ends (fun _ => True) (FailsAt t ⟨phase, b :: outer, next⟩)
        (request build (.block b.body.reverse (some b.table)) b.opened.location) := by
      refine .request (fun _ => trivial) (fun reason => ?_) _ _
      -- a builder that fails here leaves one block less, as one that does not
      have hopen : openAfter t (b :: outer).length (.refused reason) = outer.length := if_pos ht
      refine .builder (fun _ he => by cases he) ?_
      rw [hopen]
      exact hlength
    refine hrequest.bind fun block _ => .pure ⟨addStatement_nested _ _, ?_⟩
    rw [length_blocks_addStatement]
    exact hlength

theorem deeper_follows {next : State ν} (h : Follows [t] c next) :
    Ends (Follows [t] c) (FailsAt t c)
      (if c.depth < limit then pure next else reject (.tooDeep t) :
        Reading ε σ (State ν)) := by
  split
  · exact .pure h
  · exact .throw (.fault rfl)

theorem openBlock_follows (ht : t.kind = .leftBrace) (c : State ν) :
    Follows [t] c (openBlock t c) := by
  refine ⟨List.cons_ne_nil _ _, ?_⟩
  rw [openBraces_leftBrace ht, openBlock, List.length_cons]
  rfl

/-- Every token opens or closes a block if it is a brace and leaves the blocks as they are if it is
none, and one that does not fit is the one that the fault names. -/
theorem step_follows (hc : c.Nested) :
    Ends (Follows [t] c) (FailsAt t c) (step limit build t c) := by
  have misplaced {fault : SyntaxFault} (hf : fault.found = t) :
      Ends (Follows [t] c) (FailsAt t c) (reject fault : Reading ε σ (State ν)) :=
    .throw (.fault hf)
  obtain ⟨phase, blocks, next⟩ := c
  cases phase with
  | program =>
    rw [step]
    dsimp only
    split
    · rename_i hk
      exact deeper_follows (openBlock_follows hk _)
    · exact misplaced rfl
  | statement =>
    have hb : blocks ≠ [] := hc
    rw [step]
    dsimp only
    split
    · rename_i hk
      exact closeBlock_follows hk hb
    · rename_i hk
      exact deeper_follows (openBlock_follows hk _)
    · rename_i hk
      exact .pure (.of_inner (.of_kind hk (by simp)) hb rfl)
    · rename_i hk
      exact .pure (.of_inner (.of_kind hk (by simp)) hb rfl)
    all_goals exact misplaced rfl
  | assignSign name =>
    have hb : blocks ≠ [] := hc
    rw [step]
    dsimp only
    split
    · rename_i hk
      exact .pure (.of_inner (.of_kind hk (by simp)) hb rfl)
    all_goals exact misplaced rfl
  | operand head parens =>
    have hb : blocks ≠ [] := hc
    -- literals and names are asked for before the operand is finished
    have operand (ht : IsInner t) (creation : Creation ν) :
        Ends (Follows [t] ⟨.operand head parens, blocks, next⟩)
          (FailsAt t ⟨.operand head parens, blocks, next⟩)
          (request build creation t.location >>= fun value =>
            finishOperand build head value ⟨.operand head parens, blocks, next⟩ parens) :=
      (ends_request_of_inner ht _ _).bind fun _ _ => finishOperand_follows ht hb _ _ _
    rw [step]
    dsimp only
    split
    · rename_i hk
      exact operand (.of_kind hk (by simp)) _
    · rename_i hk
      exact operand (.of_kind hk (by simp)) _
    · rename_i hk
      exact operand (.of_kind hk (by simp)) _
    · rename_i hk
      exact deeper_follows (.of_inner (.of_kind hk (by simp)) hb rfl)
    all_goals exact misplaced rfl
  | afterLeft head opened left outer =>
    have hb : blocks ≠ [] := hc
    rw [step]
    dsimp only
    split
    · rename_i hk
      exact finishOperand_follows (.of_kind hk (by simp)) hb _ _ _
    · rename_i hk
      exact .pure (.of_inner (.of_kind hk (by simp)) hb rfl)
    all_goals exact misplaced rfl
  | afterRight head opened left operator right outer =>
    have hb : blocks ≠ [] := hc
    rw [step]
    dsimp only
    split
    · rename_i hk
      have ht : IsInner t := .of_kind hk (by simp)
      -- an operator that is none of the language fails at the token that closes the operation
      have hrequest : Ends (fun _ => True)
          (FailsAt t ⟨.afterRight head opened left operator right outer, blocks, next⟩)
          (requestOperator build operator.lexeme left right opened.location) := by
        rw [requestOperator]
        split
        · exact ends_request_of_inner ht _ _
        · exact .throw (.of_inner ht fun _ he => by cases he)
      exact hrequest.bind fun _ _ => finishOperand_follows ht hb _ _ _
    · exact misplaced rfl
  | complete program => exact misplaced rfl

/-- What one token keeps, any tokens keep. -/
theorem follows_of_steps {ts : List Token} {s s' : σ} (hc : c.Nested)
    (h : steps limit build ts c s = (.ok c', s')) : Follows ts c c' := by
  induction ts generalizing c s with
  | nil =>
    obtain ⟨rfl, rfl⟩ := pure_eq_ok h
    exact ⟨hc, (Int.add_zero _).symm⟩
  | cons t ts ih =>
    rw [steps_cons] at h
    obtain ⟨c₁, s₁, ht, h⟩ := bind_eq_ok h
    have hstep := (step_follows hc).of_eq_ok ht
    have hrest := ih hstep.nested h
    refine ⟨hrest.nested, ?_⟩
    calc (c'.blocks.length : Int) = c.blocks.length + openBraces [t] + openBraces ts := by
          rw [hrest.balance, hstep.balance]
      _ = c.blocks.length + openBraces ([t] ++ ts) := by rw [openBraces_append, Int.add_assoc]

end Step

section Parse

variable {ε σ ν : Type} {limit : Nat} {build : Answer ε σ ν} {tokens : List Token} {c : State ν}
  {firstTable next : Nat}

/-- How an outcome stands to tokens: it is at one of those up to the end, the blocks that are open are
the braces before it, and a program ends at the end and a fault at the token that it names. -/
structure Outcome.Placed (tokens : List Token) (o : Outcome ε ν) : Prop where
  bounded : o.consumed ≤ endIndex tokens
  blocks : (o.openBlocks : Int) = openBraces ((marked tokens).take o.consumed)
  complete : ∀ program, o.result = .ok program → o.openBlocks = 0 ∧ o.consumed = endIndex tokens
  fault : ∀ fault, o.result = .error (.fault fault) →
    (marked tokens)[o.consumed]? = some fault.found

theorem initial_nested (firstTable : Nat) : State.Nested (ν := ν) ⟨.program, [], firstTable⟩ := rfl

/-- The braces that were consumed are the blocks that are open, since there are none at first. -/
theorem Follows.length_blocks {ts : List Token} (h : Follows ts ⟨.program, [], firstTable⟩ c) :
    (c.blocks.length : Int) = openBraces ts := by
  rw [h.balance]
  exact Int.zero_add _

/-- At the end of the input. -/
theorem placed_of_finish {ts rest : List Token} {endToken : Token}
    (hmarked : marked tokens = ts ++ endToken :: rest) (hindex : endIndex tokens = ts.length)
    (h : Follows ts ⟨.program, [], firstTable⟩ c) :
    Outcome.Placed (ε := ε) tokens
      ⟨(finish endToken c).mapError .fault, ts.length, c.blocks.length, next⟩ := by
  have hblocks : (c.blocks.length : Int) = openBraces ((marked tokens).take ts.length) := by
    rw [h.length_blocks, hmarked, List.take_left]
  rcases hfinish : finish endToken c with fault | program
  · refine ⟨hindex.ge, hblocks, fun program hresult => (nomatch hresult), fun fault' hresult => ?_⟩
    cases hresult
    dsimp only
    rw [(finish_error hfinish).1, hmarked]
    simp
  · refine ⟨hindex.ge, hblocks, fun program' _ => ⟨?_, hindex.symm⟩, fun fault hresult =>
      (nomatch hresult)⟩
    -- where nothing more is expected no block is open
    have hc := h.nested
    rw [State.Nested, finish_ok hfinish] at hc
    exact congrArg List.length hc

section Rejected

variable {before rest : List Token} {t : Token} (hmarked : marked tokens = before ++ t :: rest)
  (hindex : before.length < endIndex tokens)
  (hbefore : Follows before ⟨.program, [], firstTable⟩ c)

include hmarked hindex hbefore

/-- At a token that does not fit. -/
theorem placed_of_fault {fault : SyntaxFault} (hfound : fault.found = t) :
    Outcome.Placed (ε := ε) (ν := ν) tokens
      ⟨.error (.fault fault), before.length, c.blocks.length, next⟩ := by
  refine ⟨hindex.le, ?_, fun program h => (nomatch h), ?_⟩
  · dsimp only
    rw [hbefore.length_blocks, hmarked, List.take_left]
  · intro fault' h
    cases h
    dsimp only
    rw [hfound, hmarked]
    simp

/-- Behind a token whose request is not met. -/
theorem placed_of_builder {failure : Failure ε} (hnot : ∀ fault, failure ≠ .fault fault)
    (hbalance : (openAfter t c.blocks.length failure : Int) = c.blocks.length + openBraces [t]) :
    Outcome.Placed (ν := ν) tokens
      ⟨.error failure, before.length + 1, openAfter t c.blocks.length failure, next⟩ := by
  refine ⟨hindex, ?_, fun program h => (nomatch h), fun fault h => ?_⟩
  · have htake : (marked tokens).take (before.length + 1) = before ++ [t] := by
      rw [hmarked, List.append_cons]
      exact List.take_left' (List.length_append ..)
    dsimp only
    rw [hbalance, hbefore.length_blocks, htake, openBraces_append]
  · cases h
    exact absurd rfl (hnot fault)

end Rejected

/-- Whatever the tokens are and whoever builds the nodes, the outcome stands where it should. -/
theorem parse_placed (build : Answer ε σ ν) (tokens : List Token) (firstTable : Nat) (s : σ) :
    (parse limit build tokens firstTable s).1.Placed tokens := by
  obtain ⟨rest, hmarked⟩ := exists_marked_eq tokens
  have hindex := endIndex_eq tokens
  rw [parse_eq_run]
  rcases hsteps : steps limit build (splitEnd tokens).1 ⟨.program, [], firstTable⟩ s with
    ⟨failure | c, s'⟩
  -- some token ends the reading, and those before it were read well
  · obtain ⟨before, t, after, c, s₁, hsplit, hbefore, ht⟩ := steps_eq_error hsteps
    have hfollows := follows_of_steps (initial_nested firstTable) hbefore
    have hfails := (step_follows hfollows.nested).of_eq_error ht
    rw [hsplit, List.append_assoc] at hmarked
    have hlt : before.length < endIndex tokens := by
      rw [hindex, hsplit, List.length_append, List.length_cons]
      omega
    rw [hsplit, run_append _ hbefore, run, ht, Nat.zero_add]
    cases hfails with
    | fault hfound => exact placed_of_fault hmarked hlt hfollows hfound
    | builder hnot hbalance =>
      cases failure with
      | fault fault => exact absurd rfl (hnot fault)
      | unknownOperator symbol => exact placed_of_builder hmarked hlt hfollows hnot hbalance
      | refused reason => exact placed_of_builder hmarked hlt hfollows hnot hbalance
  · have hfollows := follows_of_steps (initial_nested firstTable) hsteps
    rw [run_of_steps_ok _ hsteps, Nat.zero_add]
    exact placed_of_finish hmarked hindex hfollows

/-- A reading of tokens by a builder keeps to the tokens that it may read: no index is out of range and
none is beyond the first end of the input, what comes behind that does not matter, a missing end is
read as one at the place of the last token, and the outcome stands at its place among the tokens. -/
structure Bounded (limit : Nat) (build : Answer ε σ ν) (tokens : List Token) (firstTable : Nat)
    (s : σ) : Prop where
  indexed : readAt limit build (marked tokens) 0 ⟨.program, [], firstTable⟩ s =
    some (parse limit build tokens firstTable s)
  ended : ∃ t, (marked tokens)[endIndex tokens]? = some t ∧ t.isEnd = true
  cut : ∀ before t after after', tokens = before ++ t :: after → t.isEnd = true →
    parse limit build (before ++ t :: after') firstTable s = parse limit build tokens firstTable s
  unended : parse limit build (tokens ++ [.endOfInput (lastPlace tokens)]) firstTable s =
    parse limit build tokens firstTable s
  placed : (parse limit build tokens firstTable s).1.Placed tokens

theorem parse_bounded (build : Answer ε σ ν) (tokens : List Token) (firstTable : Nat) (s : σ) :
    Bounded limit build tokens firstTable s := by
  refine ⟨readAt_marked build tokens firstTable s, ?_, ?_, ?_, parse_placed build tokens firstTable s⟩
  · obtain ⟨rest, hmarked⟩ := exists_marked_eq tokens
    refine ⟨(splitEnd tokens).2, ?_, splitEnd_isEnd tokens⟩
    rw [hmarked, endIndex_eq]
    simp
  · rintro before t after after' rfl ht
    rw [parse_eq_run, parse_eq_run, splitEnd_append_cons ht after, splitEnd_append_cons ht after']
  · rw [parse_eq_run, parse_eq_run, splitEnd_append_mark]

end Parse

end Dec.Grammar
