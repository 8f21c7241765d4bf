import Dec.Proofs.Grammar.Beginning
import Dec.Proofs.Token.Spelling

namespace Dec

/-- By how much a token of a kind changes the number of open signs. -/
def TokenKind.turn : TokenKind → Int
  | .leftParen | .leftBrace => 1
  | .rightParen | .rightBrace => -1
  | _ => 0

namespace Grammar

/-- How many signs of a sequence of tokens are open at its end. -/
def unclosed (ts : List Token) : Int := (ts.map fun t => t.kind.turn).sum

section Unclosed

@[simp] theorem unclosed_nil : unclosed [] = 0 := rfl

@[simp] theorem unclosed_cons (t : Token) (ts : List Token) :
    unclosed (t :: ts) = t.kind.turn + unclosed ts := List.sum_cons

@[simp] theorem unclosed_append (ts us : List Token) :
    unclosed (ts ++ us) = unclosed ts + unclosed us := by
  rw [unclosed, List.map_append, List.sum_append]
  rfl

@[simp] theorem Sign.turn_eq {kind : TokenKind} (w : Sign kind) : w.token.kind.turn = kind.turn := by
  rw [w.kind_eq]

@[simp] theorem turn_literal (w : Terminal TokenKind.isLiteral) : w.token.kind.turn = 0 := by
  have hw := w.admitted
  cases hk : w.token.kind <;> simp [hk, TokenKind.isLiteral, TokenKind.turn] at hw ⊢

@[simp] theorem turn_binary (w : Terminal TokenKind.isBinary) : w.token.kind.turn = 0 := by
  have hw := w.admitted
  cases hk : w.token.kind <;> simp [hk, TokenKind.isBinary, TokenKind.turn] at hw ⊢

/-- A whole expression closes what it opens. -/
@[simp] theorem Expression.unclosed_tokens (e : Expression) : unclosed e.tokens = 0 := by
  induction e with
  | literal w => simp +decide [tokens]
  | var w => simp +decide [tokens]
  | group o e c ih => simp +decide [tokens, ih]
  | binary o l op r c ihl ihr => simp +decide [tokens, ihl, ihr]

mutual

theorem Statement.unclosed_tokens (s : Statement) : unclosed s.tokens = 0 := by
  cases s with
  | assign n g e => simp +decide [Statement.tokens]
  | ret w e => simp +decide [Statement.tokens]
  | block o body c =>
    simp +decide [Statement.tokens, Statement.unclosed_allTokens body]

theorem Statement.unclosed_allTokens (ss : List Statement) :
    unclosed (Statement.allTokens ss) = 0 := by
  cases ss with
  | nil => rfl
  | cons s rest =>
    simp +decide [Statement.allTokens, Statement.unclosed_tokens s, Statement.unclosed_allTokens rest]

end

theorem OpenParen.unclosed_allTokens (parens : List OpenParen) :
    unclosed (OpenParen.allTokens parens) = parens.length := by
  induction parens with
  | nil => rfl
  | cons p parens ih =>
    have hp : unclosed p.tokens = 1 := by cases p <;> simp +decide [OpenParen.tokens]
    rw [OpenParen.allTokens_cons, unclosed_append, ih, hp, List.length_cons]
    rfl

theorem BlockStart.unclosed_allTokens (blocks : List BlockStart) :
    unclosed (BlockStart.allTokens blocks) = blocks.length := by
  induction blocks with
  | nil => rfl
  | cons b outer ih =>
    have hb : unclosed b.tokens = 1 := by
      simp +decide [BlockStart.tokens, Statement.unclosed_allTokens]
    rw [BlockStart.allTokens_cons, unclosed_append, ih, hb, List.length_cons]
    rfl

@[simp] theorem Lead.unclosed_tokens (lead : Lead) : unclosed lead.tokens = 0 := by
  cases lead <;> simp +decide [Lead.tokens]

/-- What is pending opens as many parentheses as the machine counts. -/
theorem Pending.Tracks.unclosed_tokens {ν : Type} {pending : Pending} {phase : Phase ν}
    (h : pending.Tracks phase) : unclosed pending.tokens = phase.parens := by
  cases h with
  | statement => rfl
  | assignSign name => simp +decide [Pending.tokens, Phase.parens]
  | operand lead hps =>
    simp +decide [Pending.tokens, OpenParen.unclosed_allTokens, hps.length_eq, Phase.parens]
  | afterLeft lead o l v hps =>
    simp +decide [Pending.tokens, OpenParen.unclosed_allTokens, hps.length_eq, Phase.parens]
  | afterRight lead o l op r v v' hps =>
    simp +decide [Pending.tokens, OpenParen.unclosed_allTokens, hps.length_eq, Phase.parens]

/-- The machine is as deep as signs are open in what it has read. -/
theorem Beginning.Tracks.unclosed_tokens {ν : Type} {p : Beginning} {c : State ν}
    (h : p.Tracks c) : unclosed p.tokens = c.depth := by
  cases h with
  | empty next => rfl
  | inside block outer next hb hp =>
    -- one brace for each open block, and the parentheses of what is pending
    have hlength := congrArg List.length hb
    simp only [List.length_map] at hlength
    rw [Beginning.tokens, unclosed_append, BlockStart.unclosed_allTokens, hp.unclosed_tokens,
      State.depth, hlength]
    rfl
  | complete d program next => exact d.statement.unclosed_tokens

end Unclosed

section Completion

/-- Tokens that may close a program: they are spelled as their kinds say and open nothing. -/
def Closing (ts : List Token) : Prop := ∀ t ∈ ts, t.Spelled ∧ t.kind.turn ≤ 0

theorem Closing.append {ts us : List Token} (ht : Closing ts) (hu : Closing us) :
    Closing (ts ++ us) := by
  intro t h
  rcases List.mem_append.mp h with h | h
  · exact ht t h
  · exact hu t h

def zero : Terminal TokenKind.isLiteral := ⟨⟨.integer, "0", some (.number (.int 0)), none⟩, rfl⟩

def plainSign (kind : TokenKind) : Sign kind := ⟨⟨kind, kind.sign?.getD "", none, none⟩, by simp⟩

theorem zero_spelled : zero.token.Spelled := by
  have hvalue : ∃ n, zero.token.word.value = some (.number (.int n)) ∧ (Number.int n).Writable :=
    ⟨0, rfl, Nat.pow_pos (by decide)⟩
  exact ⟨by decide, (fun s hs => by cases hs), (fun hk => by cases hk), fun _ => hvalue,
    (fun hk => by cases hk)⟩

theorem plainSign_spelled {kind : TokenKind}
    (hs : TokenKind.ofSign? (kind.sign?.getD "") = some kind) :
    (plainSign kind).token.Spelled := by
  refine Word.spelled_of_ofSign? ?_
  rwa [plainSign, String.ofList_toList]

theorem closing_singleton {t : Token} (hs : t.Spelled) (hk : t.kind.turn ≤ 0) : Closing [t] :=
  List.forall_mem_singleton.mpr ⟨hs, hk⟩

theorem closing_sign (kind : TokenKind) (hk : kind.turn ≤ 0)
    (hs : TokenKind.ofSign? (kind.sign?.getD "") = some kind) :
    Closing [(plainSign kind).token] := closing_singleton (plainSign_spelled hs) hk

/-- A beginning goes on to a program without opening anything more. -/
def Beginning.Completable (p : Beginning) : Prop :=
  ∃ (d : Derivation) (more : List Token), d.tokens = p.tokens ++ more ∧ Closing more

namespace Beginning

/-- What goes on to a completable beginning is completable. -/
theorem Completable.of_append {p p' : Beginning} {more : List Token} (h : p'.Completable)
    (ht : p'.tokens = p.tokens ++ more) (hm : Closing more) : p.Completable := by
  obtain ⟨d, more', hd, hm'⟩ := h
  exact ⟨d, more ++ more', by rw [hd, ht, List.append_assoc], hm.append hm'⟩

theorem completable_complete (d : Derivation) : (complete d).Completable :=
  ⟨d, [], (List.append_nil _).symm, fun _ ht => by cases ht⟩

theorem tokens_statement (block : BlockStart) (outer : List BlockStart) :
    (inside block outer .statement).tokens = BlockStart.allTokens (block :: outer) :=
  List.append_nil _

/-- Between statements the blocks are closed one after the other. -/
theorem completable_statement (block : BlockStart) (outer : List BlockStart) :
    (inside block outer .statement).Completable := by
  have hbrace := closing_sign .rightBrace (by decide) rfl
  have htokens := tokens_close block outer (plainSign .rightBrace)
  rw [← tokens_statement] at htokens
  -- the closed block is one more statement of the block around it
  induction outer generalizing block with
  | nil => exact (completable_complete _).of_append htokens hbrace
  | cons b outer ih =>
    refine (ih _ ?_).of_append htokens hbrace
    rw [tokens_close, tokens_statement]

variable (block : BlockStart) (outer : List BlockStart) (lead : Lead)

/-- After an operand the parentheses around it are closed one after the other. -/
theorem completable_addOperand (parens : List OpenParen) (e : Expression) :
    (addOperand block outer lead e parens).Completable := by
  have hparen := closing_sign .rightParen (by decide) rfl
  induction parens generalizing e with
  | nil => exact completable_statement _ _
  | cons p parens ih =>
    -- what the innermost parenthesis holds is, once it is closed, an operand of the next one
    cases p with
    | left o =>
      refine (ih (.group o e (plainSign .rightParen))).of_append ?_ hparen
      rw [tokens_addOperand, tokens_addOperand]
      simp [OpenParen.allTokens_cons, OpenParen.tokens, Expression.tokens]
    | right o l op =>
      refine (ih (.binary o l op e (plainSign .rightParen))).of_append ?_ hparen
      rw [tokens_addOperand, tokens_addOperand]
      simp [OpenParen.allTokens_cons, OpenParen.tokens, Expression.tokens]

/-- Where an operand is missing a number will do. -/
theorem completable_operand (parens : List OpenParen) :
    (inside block outer (.operand lead parens)).Completable := by
  have hzero := closing_singleton zero_spelled (by decide)
  refine (completable_addOperand block outer lead parens (.literal zero)).of_append ?_ hzero
  rw [tokens_addOperand]
  simp [tokens, Pending.tokens, Expression.tokens]

/-- A beginning that has any tokens goes on to a program without opening anything more. -/
theorem completable {p : Beginning} (hp : p ≠ .empty) : p.Completable := by
  cases p with
  | empty => exact absurd rfl hp
  | complete d => exact completable_complete d
  | inside block outer pending =>
    cases pending with
    | statement => exact completable_statement block outer
    | assignSign n =>
      refine (completable_operand block outer (.assign n (plainSign .assign)) []).of_append ?_
        (closing_sign .assign (by decide) rfl)
      simp [tokens, Pending.tokens, Lead.tokens, OpenParen.allTokens]
    | operand lead parens => exact completable_operand block outer lead parens
    -- an operand was read to its end: the beginning is what its parenthesis makes of it
    | afterLeft lead o l parens =>
      exact completable_addOperand block outer lead (.left o :: parens) l
    | afterRight lead o l op r parens =>
      exact completable_addOperand block outer lead (.right o l op :: parens) r

end Beginning

end Completion

end Grammar

end Dec
