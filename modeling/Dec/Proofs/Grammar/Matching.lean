import Dec.Proofs.Grammar.FirstFault

namespace Dec

def TokenKind.closing? : TokenKind → Option TokenKind
  | .leftParen => some .rightParen
  | .leftBrace => some .rightBrace
  | _ => none

namespace Grammar

/-- One more token with the opening signs that wait to be matched, the innermost first. An opening
sign waits from now on, and a closing one is matched with the innermost that waits, which has to be
of its own sort. -/
def matchSign (waiting : List Token) (t : Token) : Option (List Token) :=
  match t.kind with
  | .leftParen | .leftBrace => some (t :: waiting)
  | .rightParen | .rightBrace =>
    match waiting with
    | opened :: outer => if opened.kind.closing? = some t.kind then some outer else none
    | [] => none
  | _ => some waiting

def unmatched (waiting ts : List Token) : Option (List Token) := ts.foldlM matchSign waiting

section Matching

variable {waiting : List Token}

theorem unmatched_cons (waiting : List Token) (t : Token) (ts : List Token) :
    unmatched waiting (t :: ts) = (matchSign waiting t).bind fun later => unmatched later ts :=
  List.foldlM_cons

theorem unmatched_append (waiting ts us : List Token) :
    unmatched waiting (ts ++ us) = (unmatched waiting ts).bind fun later => unmatched later us :=
  List.foldlM_append

/-- An opening sign waits. -/
theorem matchSign_opening {t : Token} (ht : t.kind = .leftParen ∨ t.kind = .leftBrace) :
    matchSign waiting t = some (t :: waiting) := by
  rcases ht with hk | hk <;> simp only [matchSign, hk]

/-- A sign that closes nothing and opens nothing changes nothing. -/
theorem matchSign_of_turn {t : Token} (ht : t.kind.turn = 0) :
    matchSign waiting t = some waiting := by
  cases hk : t.kind <;> simp only [matchSign, hk] <;> simp [hk, TokenKind.turn] at ht

theorem matchSign_closing {opened t : Token} (ht : opened.kind.closing? = some t.kind) :
    matchSign (opened :: waiting) t = some waiting := by
  cases hk : opened.kind <;>
    simp only [hk, TokenKind.closing?, Option.some.injEq, reduceCtorEq] at ht
  · simp only [matchSign, ← ht, hk, TokenKind.closing?, if_true]
  · simp only [matchSign, ← ht, hk, TokenKind.closing?, if_true]

/-- Tokens after which just the same signs wait as before leave a sign to the next one. -/
theorem unmatched_between {opened closed : Token} {inner : List Token}
    (ho : opened.kind = .leftParen ∨ opened.kind = .leftBrace)
    (hinner : unmatched (opened :: waiting) inner = some (opened :: waiting))
    (hc : opened.kind.closing? = some closed.kind) :
    unmatched waiting (opened :: (inner ++ [closed])) = some waiting := by
  rw [unmatched_cons, matchSign_opening ho, Option.bind_some, unmatched_append, hinner,
    Option.bind_some, unmatched_cons, matchSign_closing hc]
  rfl

end Matching

section Phrases

/-- A whole expression matches all that it opens. -/
theorem Expression.unmatched_tokens (e : Expression) (waiting : List Token) :
    unmatched waiting e.tokens = some waiting := by
  induction e generalizing waiting with
  | literal w =>
    rw [tokens, unmatched_cons, matchSign_of_turn (turn_literal w)]
    rfl
  | var w =>
    rw [tokens, unmatched_cons, matchSign_of_turn (by rw [w.kind_eq]; rfl)]
    rfl
  | group o e c ih =>
    refine unmatched_between (.inl o.kind_eq) (ih _) ?_
    rw [o.kind_eq, c.kind_eq]
    rfl
  | binary o l op r c ihl ihr =>
    -- each operand matches its own signs, and the operator between them is none
    have hinner : unmatched (o.token :: waiting) (l.tokens ++ op.token :: r.tokens) =
        some (o.token :: waiting) := by
      rw [unmatched_append, ihl, Option.bind_some, unmatched_cons,
        matchSign_of_turn (turn_binary op), Option.bind_some, ihr]
    have htokens : (binary o l op r c).tokens =
        o.token :: ((l.tokens ++ op.token :: r.tokens) ++ [c.token]) := by
      rw [tokens, List.append_assoc, List.cons_append]
    rw [htokens]
    refine unmatched_between (.inl o.kind_eq) hinner ?_
    rw [o.kind_eq, c.kind_eq]
    rfl

theorem Lead.unmatched_tokens (lead : Lead) (waiting : List Token) :
    unmatched waiting lead.tokens = some waiting := by
  cases lead with
  | assign n g =>
    rw [tokens, unmatched_cons, matchSign_of_turn (by rw [n.kind_eq]; rfl), Option.bind_some,
      unmatched_cons, matchSign_of_turn (by rw [g.kind_eq]; rfl)]
    rfl
  | ret w =>
    rw [tokens, unmatched_cons, matchSign_of_turn (by rw [w.kind_eq]; rfl)]
    rfl

namespace Statement

mutual

theorem unmatched_tokens (s : Statement) (waiting : List Token) :
    unmatched waiting s.tokens = some waiting := by
  cases s with
  -- what leads in to a value has no signs to match
  | assign n g e =>
    have hlead := (Lead.assign n g).unmatched_tokens waiting
    rw [show (assign n g e).tokens = (Lead.assign n g).tokens ++ e.tokens from rfl,
      unmatched_append, hlead, Option.bind_some, e.unmatched_tokens]
  | ret w e =>
    have hlead := (Lead.ret w).unmatched_tokens waiting
    rw [show (ret w e).tokens = (Lead.ret w).tokens ++ e.tokens from rfl, unmatched_append, hlead,
      Option.bind_some, e.unmatched_tokens]
  | block o body c =>
    refine unmatched_between (.inr o.kind_eq) (unmatched_allTokens body _) ?_
    rw [o.kind_eq, c.kind_eq]
    rfl

theorem unmatched_allTokens (ss : List Statement) (waiting : List Token) :
    unmatched waiting (allTokens ss) = some waiting := by
  cases ss with
  | nil => rfl
  | cons s rest =>
    rw [allTokens, unmatched_append, unmatched_tokens s, Option.bind_some, unmatched_allTokens rest]

end

end Statement

end Phrases

section Beginnings

def OpenParen.opened : OpenParen → Token
  | left opened => opened.token
  | right opened _ _ => opened.token

/-- Open parentheses and blocks leave one sign each. -/
theorem OpenParen.unmatched_allTokens (parens : List OpenParen) (waiting : List Token) :
    unmatched waiting (OpenParen.allTokens parens) = some (parens.map opened ++ waiting) := by
  induction parens with
  | nil => rfl
  | cons p parens ih =>
    rw [OpenParen.allTokens_cons, unmatched_append, ih, Option.bind_some]
    cases p with
    | left o =>
      rw [OpenParen.tokens, unmatched_cons, matchSign_opening (.inl o.kind_eq)]
      rfl
    | right o l op =>
      rw [OpenParen.tokens, unmatched_cons, matchSign_opening (.inl o.kind_eq), Option.bind_some,
        unmatched_append, l.unmatched_tokens, Option.bind_some, unmatched_cons,
        matchSign_of_turn (turn_binary op)]
      rfl

theorem BlockStart.unmatched_allTokens (blocks : List BlockStart) :
    unmatched [] (BlockStart.allTokens blocks) = some (blocks.map (·.opened.token)) := by
  induction blocks with
  | nil => rfl
  | cons b outer ih =>
    rw [BlockStart.allTokens_cons, unmatched_append, ih, Option.bind_some, BlockStart.tokens,
      unmatched_cons, matchSign_opening (.inr b.opened.kind_eq), Option.bind_some,
      Statement.unmatched_allTokens]
    rfl

variable {ν : Type}

def Paren.opened : Paren ν → Token
  | left opened => opened
  | right opened _ _ => opened

def Phase.openSigns : Phase ν → List Token
  | operand _ parens => parens.map Paren.opened
  | afterLeft _ opened _ outer => opened :: outer.map Paren.opened
  | afterRight _ opened _ _ _ outer => opened :: outer.map Paren.opened
  | _ => []

def State.openSigns (c : State ν) : List Token := c.phase.openSigns ++ c.blocks.map (·.opened)

theorem map_opened_eq {parens : List OpenParen} {ps : List (Paren ν)}
    (h : List.Forall₂ OpenParen.Tracks parens ps) :
    parens.map OpenParen.opened = ps.map Paren.opened := by
  induction h with
  | nil => rfl
  | cons hp _ ih => cases hp <;> exact congrArg (_ :: ·) ih

/-- The signs of what is pending wait for their matches, in front of those that waited before. -/
theorem Pending.Tracks.unmatched_tokens {pending : Pending} {phase : Phase ν}
    (h : pending.Tracks phase) (waiting : List Token) :
    unmatched waiting pending.tokens = some (phase.openSigns ++ waiting) := by
  cases h with
  | statement => rfl
  | assignSign n =>
    rw [Pending.tokens, unmatched_cons, matchSign_of_turn (by rw [n.kind_eq]; rfl)]
    rfl
  | operand lead hps =>
    rw [Pending.tokens, unmatched_append, lead.unmatched_tokens, Option.bind_some,
      OpenParen.unmatched_allTokens, map_opened_eq hps]
    rfl
  -- the parenthesis around an operand that is read already is kept apart from those further out
  | afterLeft lead o l v hps =>
    rw [Pending.tokens, unmatched_append, unmatched_append, lead.unmatched_tokens, Option.bind_some,
      OpenParen.unmatched_allTokens, map_opened_eq hps, Option.bind_some, unmatched_cons,
      matchSign_opening (.inl o.kind_eq), Option.bind_some, l.unmatched_tokens]
    rfl
  | afterRight lead o l op r v v' hps =>
    rw [Pending.tokens, unmatched_append, unmatched_append, lead.unmatched_tokens, Option.bind_some,
      OpenParen.unmatched_allTokens, map_opened_eq hps, Option.bind_some, unmatched_cons,
      matchSign_opening (.inl o.kind_eq), Option.bind_some, unmatched_append, l.unmatched_tokens,
      Option.bind_some, unmatched_cons, matchSign_of_turn (turn_binary op), Option.bind_some,
      r.unmatched_tokens]
    rfl

/-- The opening signs that the machine remembers are those that are not matched in what it has
read. -/
theorem Beginning.Tracks.unmatched_tokens {p : Beginning} {c : State ν} (h : p.Tracks c) :
    unmatched [] p.tokens = some c.openSigns := by
  cases h with
  | empty next => rfl
  | inside block outer next hb hp =>
    rw [Beginning.tokens, unmatched_append, BlockStart.unmatched_allTokens, Option.bind_some,
      hp.unmatched_tokens, ← hb]
    rfl
  | complete d program next => exact d.statement.unmatched_tokens []

/-- Where the end of the input leaves a delimiter unclosed, it is the innermost one that the machine
remembers. -/
theorem Beginning.Tracks.unclosed_of_finish {p : Beginning} {c : State ν} (h : p.Tracks c)
    {t : Token} {fault : SyntaxFault} (hfinish : finish t c = .error fault)
    (hcode : fault.code = "P004") :
    ∃ opened outer delimiter, c.openSigns = opened :: outer ∧
      opened.kind.sign? = some (Delimiter.opening delimiter) ∧
      fault = .unclosed delimiter opened.location t := by
  cases h with
  | empty next =>
    cases hfinish
    simp [SyntaxFault.code] at hcode
  | complete d program next => cases hfinish
  | @inside block outer pending phase blocks next hb hp =>
    cases hp with
    -- between statements the innermost sign is that of the innermost block
    | statement =>
      cases blocks with
      | nil => simp at hb
      | cons b rest =>
        cases hfinish
        have hopened : b.opened = block.opened.token := (List.cons.inj hb).1
        refine ⟨b.opened, _, .brace, rfl, ?_, rfl⟩
        rw [hopened, block.opened.kind_eq]
        rfl
    -- where a sign of assignment or an operand has to come, that is what is missing
    | assignSign n =>
      cases hfinish
      simp [SyntaxFault.code] at hcode
    | operand lead hps =>
      cases hfinish
      simp [SyntaxFault.code] at hcode
    -- behind an operand it is the parenthesis that the operand stands in
    | afterLeft lead o l v hps =>
      cases hfinish
      refine ⟨o.token, _, .paren, rfl, ?_, rfl⟩
      rw [o.kind_eq]
      rfl
    | afterRight lead o l op r v v' hps =>
      cases hfinish
      refine ⟨o.token, _, .paren, rfl, ?_, rfl⟩
      rw [o.kind_eq]
      rfl

end Beginnings

section Reports

variable {ε σ ν : Type} {limit : Nat} {build : Answer ε σ ν} {tokens : List Token} {next : Nat}
  {s : σ} {fault : SyntaxFault}

/-- The token that marks the end of the input does so. -/
theorem splitEnd_isEnd (tokens : List Token) : (splitEnd tokens).2.isEnd = true := by
  simp only [splitEnd]
  split
  · rename_i t rest hdrop
    have hhead := List.head?_dropWhile_not (fun t : Token => !t.isEnd) tokens
    rw [hdrop] at hhead
    simpa using hhead
  · rfl

/-- What is said of a delimiter that the end of the input leaves unclosed. -/
theorem message_unclosed (delimiter : Delimiter) (opened : Option Location) {t : Token}
    (ht : t.isEnd = true) :
    (SyntaxFault.unclosed delimiter opened t).diagnostic.message =
      "Unclosed delimiter '" ++ delimiter.opening ++ "': expected '" ++
        closingFor delimiter.opening ++ "', found end of input" := by
  have hfound : t.describe = "end of input" := by rw [Token.describe, if_pos ht]
  have hend (head : String) : head ++ "', found " ++ "end of input" =
      head ++ "', found end of input" := by
    rw [String.append_assoc]
    exact congrArg (head ++ ·) (by decide)
  have hmessage : (SyntaxFault.unclosed delimiter opened t).diagnostic.message =
      "Unclosed delimiter '" ++ delimiter.opening ++ "': expected '" ++
        closingFor delimiter.opening ++ "', found " ++ t.describe := rfl
  rw [hfound] at hmessage
  exact hmessage.trans (hend _)

/-- Whoever builds the nodes, an unclosed delimiter is reported only at the end of the input, and it
is the innermost of those that are not matched in what was consumed. -/
theorem parse_unclosed (h : (parse limit build tokens next s).1.result = .error (.fault fault))
    (hcode : fault.code = "P004") :
    ∃ opened outer delimiter,
      unmatched [] (tokens.take (parse limit build tokens next s).1.consumed) =
        some (opened :: outer) ∧
      opened.kind.sign? = some (Delimiter.opening delimiter) ∧
      fault = .unclosed delimiter opened.location (splitEnd tokens).2 := by
  rw [parse_eq_run] at h ⊢
  rcases hsteps : steps limit build (splitEnd tokens).1 ⟨.program, [], next⟩ s with ⟨e | c, s'⟩
  -- no token leaves a delimiter unclosed
  · have hrun := (run_of_steps_error (splitEnd tokens).2 hsteps 0).1
    obtain rfl := Except.error.inj (hrun.symm.trans h)
    obtain ⟨before, t, after, c, s₁, -, -, ht⟩ := steps_eq_error hsteps
    cases (step_faultsIn build t c).of_eq_error ht fault rfl with
    | tooDeep hd hturn => simp [SyntaxFault.code] at hcode
    | trailing hc => simp [SyntaxFault.code] at hcode
    | misplaced hf hmem hc =>
      rw [hcode] at hmem
      simp [misplacedCodes] at hmem
  · rw [run_of_steps_ok (splitEnd tokens).2 hsteps 0] at h ⊢
    have hfinish : finish (splitEnd tokens).2 c = .error fault := by
      dsimp only at h
      cases hend : finish (splitEnd tokens).2 c with
      | ok program =>
        rw [hend] at h
        cases h
      | error fault' =>
        rw [hend] at h
        cases h
        rfl
    -- the end is reached, so all tokens in front of it were consumed
    have hbefore : tokens.take (0 + (splitEnd tokens).1.length) = (splitEnd tokens).1 := by
      rw [Nat.zero_add, splitEnd_fst]
      exact (List.prefix_iff_eq_take.mp (List.takeWhile_prefix _)).symm
    obtain ⟨p, hp, htokens⟩ := steps_tracks (.empty next) _ hsteps
    obtain ⟨opened, outer, delimiter, hopen, hsign, hfault⟩ := hp.unclosed_of_finish hfinish hcode
    have hmatch := hp.unmatched_tokens
    rw [htokens, hopen] at hmatch
    refine ⟨opened, outer, delimiter, ?_, hsign, hfault⟩
    rw [hbefore]
    exact hmatch

end Reports

section Program

variable {limit : Nat} {builder : Builder} {tokens : List Token} {f : Forest} {fault : SyntaxFault}

/-- A report of an unclosed delimiter names the innermost one. Of the tokens that were consumed all
closing signs match opening ones of their own sort, and the last opening sign that is left without a
match is the one in the message, with its place in the hint. -/
theorem ofTokens_unclosed
    (h : (Program.ofTokens limit builder tokens f).result = .error (.grammar (.fault fault)))
    (hcode : fault.diagnostic.code = some "P004") :
    ∃ opened outer sign,
      unmatched [] (tokens.take (Program.ofTokens limit builder tokens f).consumed) =
        some (opened :: outer) ∧
      opened.kind.sign? = some sign ∧
      fault.diagnostic.message = "Unclosed delimiter '" ++ sign ++ "': expected '" ++
        closingFor sign ++ "', found end of input" ∧
      fault.diagnostic.help = some ("The opening '" ++ sign ++ "' at " ++
        Location.textOrAbsent opened.location ++ " was never closed.") := by
  rw [(diagnostic_of_found fault).2] at hcode
  rw [ofTokens_result_eq_error] at h
  rw [ofTokens_consumed]
  obtain ⟨opened, outer, delimiter, hmatch, hsign, rfl⟩ :=
    parse_unclosed h (Option.some.inj hcode)
  exact ⟨opened, outer, delimiter.opening, hmatch, hsign,
    message_unclosed delimiter _ (splitEnd_isEnd tokens), rfl⟩

/-- Two blocks and two parentheses are open, and another parenthesis was closed before the end. -/
theorem ofTokens_unclosed_outer_paren :
    ∃ tokens fault opened outer,
      (Program.ofTokens 4 .making tokens .empty).result = .error (.grammar (.fault fault)) ∧
      fault.diagnostic.code = some "P004" ∧
      unmatched [] (tokens.take (Program.ofTokens 4 .making tokens .empty).consumed) =
        some (opened :: outer) ∧
      opened.location = some ⟨"f", 1, 6, 5⟩ ∧
      fault.diagnostic.help = some "The opening '(' at f:1:6 was never closed." := by
  let place (i : Int) : Option Location := some ⟨"f", 1, i + 1, i⟩
  let tokens : List Token :=
    [⟨.leftBrace, "\x7b", none, place 0⟩, ⟨.leftBrace, "\x7b", none, place 1⟩,
      ⟨.identifier, "x", none, place 2⟩, ⟨.assign, ":=", none, place 3⟩,
      ⟨.leftParen, "(", none, place 5⟩, ⟨.leftParen, "(", none, place 6⟩,
      ⟨.identifier, "y", none, place 7⟩, ⟨.rightParen, ")", none, place 8⟩,
      .endOfInput (place 9)]
  have hresult : (Program.ofTokens 4 .making tokens .empty).result =
      .error (.grammar (.fault (.unclosed .paren (place 5) (.endOfInput (place 9))))) := rfl
  obtain ⟨opened, outer, sign, hmatch, hsign, -, hhelp⟩ := ofTokens_unclosed hresult rfl
  have hstack : unmatched [] (tokens.take (Program.ofTokens 4 .making tokens .empty).consumed) =
      some [⟨.leftParen, "(", none, place 5⟩, ⟨.leftBrace, "\x7b", none, place 1⟩,
        ⟨.leftBrace, "\x7b", none, place 0⟩] := rfl
  obtain ⟨rfl, -⟩ := List.cons.inj (Option.some.inj (hmatch.symm.trans hstack))
  refine ⟨tokens, _, _, outer, hresult, rfl, hmatch, rfl, hhelp.trans ?_⟩
  obtain rfl : "(" = sign := Option.some.inj hsign
  rfl

end Program

end Grammar

end Dec
