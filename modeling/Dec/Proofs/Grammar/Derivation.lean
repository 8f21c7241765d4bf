import Dec.Grammar.Machine
import Dec.Proofs.Tree.Skeleton

/-!
Derivations: the phrases of the grammar as trees whose leaves are tokens. A sequence of tokens has
at most one derivation, and the tree that a derivation means is its skeleton, in which redundant
parentheses leave no trace.
-/
namespace Dec

/-- The kinds of binary operators; the sign of assignment is none of them. -/
def TokenKind.isBinary : TokenKind → Bool
  | .operator _ => true
  | _ => false

namespace Token

def number (t : Token) : Number :=
  match t.value with
  | some (.number n) => n
  | _ => default

def binaryOp (t : Token) : BinaryOp :=
  match t.kind with
  | .operator op => op
  | _ => default

end Token

namespace Grammar

@[ext] structure Terminal (admits : TokenKind → Bool) where
  token : Token
  admitted : admits token.kind = true

abbrev Sign (kind : TokenKind) := Terminal (· == kind)

theorem Sign.kind_eq {kind : TokenKind} (w : Sign kind) : w.token.kind = kind :=
  beq_iff_eq.mp w.admitted

theorem Terminal.exists_token {admits : TokenKind → Bool} {t : Token}
    (h : admits t.kind = true) : ∃ w : Terminal admits, w.token = t := ⟨⟨t, h⟩, rfl⟩

theorem Sign.exists_token {kind : TokenKind} {t : Token} (h : t.kind = kind) :
    ∃ w : Sign kind, w.token = t := ⟨⟨t, beq_iff_eq.mpr h⟩, rfl⟩

theorem Terminal.token_ne_sign {admits : TokenKind → Bool} {kind : TokenKind} (w : Terminal admits)
    (s : Sign kind) (hk : admits kind = false) : w.token ≠ s.token := by
  intro he
  have ha := w.admitted
  rw [he, s.kind_eq, hk] at ha
  contradiction

inductive Expression where
  | literal (word : Terminal TokenKind.isLiteral)
  | var (word : Sign .identifier)
  | group (opened : Sign .leftParen) (inner : Expression) (closed : Sign .rightParen)
  | binary (opened : Sign .leftParen) (left : Expression) (operator : Terminal TokenKind.isBinary)
      (right : Expression) (closed : Sign .rightParen)

inductive Statement where
  | assign (name : Sign .identifier) (sign : Sign .assign) (value : Expression)
  | ret (word : Sign .returnWord) (value : Expression)
  | block (opened : Sign .leftBrace) (body : List Statement) (closed : Sign .rightBrace)

structure Derivation where
  opened : Sign .leftBrace
  body : List Statement
  closed : Sign .rightBrace

namespace Expression

def tokens : Expression → List Token
  | literal word => [word.token]
  | var word => [word.token]
  | group opened inner closed => opened.token :: (inner.tokens ++ [closed.token])
  | binary opened left operator right closed =>
    opened.token :: (left.tokens ++ operator.token :: (right.tokens ++ [closed.token]))

def skeleton : Expression → Skeleton
  | literal word => .literal word.token.number
  | var word => .var word.token.lexeme
  | group _ inner _ => inner.skeleton
  | binary _ left operator right _ =>
    .binary operator.token.binaryOp left.skeleton right.skeleton

def nesting : Expression → Nat
  | literal _ => 0
  | var _ => 0
  | group _ inner _ => inner.nesting + 1
  | binary _ left _ right _ => max left.nesting right.nesting + 1

/-- No expression is the beginning of another one: what follows an expression shows where it ends.
-/
theorem tokens_append_inj (e e' : Expression) (r r' : List Token)
    (h : e.tokens ++ r = e'.tokens ++ r') : e = e' ∧ r = r' := by
  -- the first tokens tell literals, names and parentheses apart; what follows the first operand
  -- tells a group from an operation
  induction e generalizing e' r r' with
  | literal w =>
    cases e' with
    | literal w' =>
      obtain ⟨hw, hr⟩ := List.cons.inj h
      exact ⟨congrArg literal (Terminal.ext hw), hr⟩
    | var w' => exact absurd (List.cons.inj h).1 (w.token_ne_sign w' rfl)
    | group o' _ _ => exact absurd (List.cons.inj h).1 (w.token_ne_sign o' rfl)
    | binary o' _ _ _ _ => exact absurd (List.cons.inj h).1 (w.token_ne_sign o' rfl)
  | var w =>
    cases e' with
    | literal w' => exact absurd (List.cons.inj h).1.symm (w'.token_ne_sign w rfl)
    | var w' =>
      obtain ⟨hw, hr⟩ := List.cons.inj h
      exact ⟨congrArg var (Terminal.ext hw), hr⟩
    | group o' _ _ => exact absurd (List.cons.inj h).1 (w.token_ne_sign o' rfl)
    | binary o' _ _ _ _ => exact absurd (List.cons.inj h).1 (w.token_ne_sign o' rfl)
  | group o e c ih =>
    cases e' with
    | literal w' => exact absurd (List.cons.inj h).1.symm (w'.token_ne_sign o rfl)
    | var w' => exact absurd (List.cons.inj h).1 (o.token_ne_sign w' rfl)
    | group o' e' c' =>
      simp only [tokens, List.cons_append, List.append_assoc, List.nil_append, List.cons.injEq] at h
      obtain ⟨ho, ht⟩ := h
      obtain ⟨rfl, hi⟩ := ih e' _ _ ht
      obtain ⟨hc, hr⟩ := List.cons.inj hi
      exact ⟨by rw [Terminal.ext ho, Terminal.ext hc], hr⟩
    | binary o' l' op' r₂' c' =>
      simp only [tokens, List.cons_append, List.append_assoc, List.nil_append, List.cons.injEq] at h
      have ht := (ih l' _ _ h.2).2
      exact absurd (List.cons.inj ht).1.symm (op'.token_ne_sign c rfl)
  | binary o l op r₂ c ihl ihr =>
    cases e' with
    | literal w' => exact absurd (List.cons.inj h).1.symm (w'.token_ne_sign o rfl)
    | var w' => exact absurd (List.cons.inj h).1 (o.token_ne_sign w' rfl)
    | group o' e' c' =>
      simp only [tokens, List.cons_append, List.append_assoc, List.nil_append, List.cons.injEq] at h
      have ht := (ihl e' _ _ h.2).2
      exact absurd (List.cons.inj ht).1 (op.token_ne_sign c' rfl)
    | binary o' l' op' r₂' c' =>
      simp only [tokens, List.cons_append, List.append_assoc, List.nil_append, List.cons.injEq] at h
      obtain ⟨ho, ht⟩ := h
      obtain ⟨rfl, hl⟩ := ihl l' _ _ ht
      obtain ⟨hop, hl⟩ := List.cons.inj hl
      obtain ⟨rfl, hi⟩ := ihr r₂' _ _ hl
      obtain ⟨hc, hr⟩ := List.cons.inj hi
      exact ⟨by rw [Terminal.ext ho, Terminal.ext hop, Terminal.ext hc], hr⟩

end Expression

namespace Statement

mutual

def tokens : Statement → List Token
  | assign name sign value => name.token :: sign.token :: value.tokens
  | ret word value => word.token :: value.tokens
  | block opened body closed => opened.token :: (allTokens body ++ [closed.token])

def allTokens : List Statement → List Token
  | [] => []
  | s :: rest => s.tokens ++ allTokens rest

end

mutual

def skeleton : Statement → Skeleton
  | assign name _ value => .assign name.token.lexeme value.skeleton
  | ret _ value => .ret value.skeleton
  | block _ body _ => .block (skeletons body)

def skeletons : List Statement → List Skeleton
  | [] => []
  | s :: rest => s.skeleton :: skeletons rest

end

mutual

def nesting : Statement → Nat
  | assign _ _ value => value.nesting
  | ret _ value => value.nesting
  | block _ body _ => maxNesting body + 1

def maxNesting : List Statement → Nat
  | [] => 0
  | s :: rest => max s.nesting (maxNesting rest)

end

/-- A statement does not start with a closing brace. -/
theorem tokens_append_ne_closed (s : Statement) (c : Sign .rightBrace) (r r' : List Token) :
    s.tokens ++ r ≠ c.token :: r' := by
  intro h
  cases s with
  | assign n _ _ => exact n.token_ne_sign c rfl (List.cons.inj h).1
  | ret w _ => exact w.token_ne_sign c rfl (List.cons.inj h).1
  | block o _ _ => exact o.token_ne_sign c rfl (List.cons.inj h).1

mutual

theorem tokens_append_inj (s s' : Statement) (r r' : List Token)
    (h : s.tokens ++ r = s'.tokens ++ r') : s = s' ∧ r = r' := by
  cases s with
  | assign n g e =>
    cases s' with
    | assign n' g' e' =>
      obtain ⟨hn, ht⟩ := List.cons.inj h
      obtain ⟨hg, ht⟩ := List.cons.inj ht
      obtain ⟨rfl, hr⟩ := e.tokens_append_inj e' _ _ ht
      exact ⟨by rw [Terminal.ext hn, Terminal.ext hg], hr⟩
    | ret w' _ => exact absurd (List.cons.inj h).1 (n.token_ne_sign w' rfl)
    | block o' _ _ => exact absurd (List.cons.inj h).1 (n.token_ne_sign o' rfl)
  | ret w e =>
    cases s' with
    | assign n' _ _ => exact absurd (List.cons.inj h).1 (w.token_ne_sign n' rfl)
    | ret w' e' =>
      obtain ⟨hw, ht⟩ := List.cons.inj h
      obtain ⟨rfl, hr⟩ := e.tokens_append_inj e' _ _ ht
      exact ⟨by rw [Terminal.ext hw], hr⟩
    | block o' _ _ => exact absurd (List.cons.inj h).1 (w.token_ne_sign o' rfl)
  | block o body c =>
    cases s' with
    | assign n' _ _ => exact absurd (List.cons.inj h).1 (o.token_ne_sign n' rfl)
    | ret w' _ => exact absurd (List.cons.inj h).1 (o.token_ne_sign w' rfl)
    | block o' body' c' =>
      simp only [tokens, List.cons_append, List.append_assoc, List.nil_append, List.cons.injEq] at h
      obtain ⟨ho, ht⟩ := h
      obtain ⟨rfl, hc, hr⟩ := allTokens_append_inj body body' c c' r r' ht
      exact ⟨by rw [Terminal.ext ho, hc], hr⟩

-- without the closing brace this fails: the statements of one list may begin those of another

theorem allTokens_append_inj (ss ss' : List Statement) (c c' : Sign .rightBrace)
    (r r' : List Token) (h : allTokens ss ++ c.token :: r = allTokens ss' ++ c'.token :: r') :
    ss = ss' ∧ c = c' ∧ r = r' := by
  cases ss with
  | nil =>
    cases ss' with
    | nil =>
      obtain ⟨hc, hr⟩ := List.cons.inj h
      exact ⟨rfl, Terminal.ext hc, hr⟩
    | cons s' _ => exact (s'.tokens_append_ne_closed c _ r (by simpa [allTokens] using h.symm)).elim
  | cons s rest =>
    cases ss' with
    | nil => exact (s.tokens_append_ne_closed c' _ r' (by simpa [allTokens] using h)).elim
    | cons s' rest' =>
      rw [allTokens, allTokens, List.append_assoc, List.append_assoc] at h
      obtain ⟨rfl, ht⟩ := s.tokens_append_inj s' _ _ h
      obtain ⟨rfl, hc, hr⟩ := allTokens_append_inj rest rest' c c' r r' ht
      exact ⟨rfl, hc, hr⟩

end

end Statement

namespace Derivation

def statement (d : Derivation) : Statement := .block d.opened d.body d.closed

def tokens (d : Derivation) : List Token := d.statement.tokens

def skeleton (d : Derivation) : Skeleton := d.statement.skeleton

def nesting (d : Derivation) : Nat := d.statement.nesting

/-- The grammar is unambiguous: a sequence of tokens has at most one derivation. -/
theorem tokens_injective : Function.Injective tokens := by
  intro d d' h
  have hs := (d.statement.tokens_append_inj d'.statement [] [] (by simpa [tokens] using h)).1
  obtain ⟨ho, hb, hc⟩ := Statement.block.inj hs
  cases d
  cases d'
  subst ho hb hc
  rfl

end Derivation

end Grammar

end Dec
