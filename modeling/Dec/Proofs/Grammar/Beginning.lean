import Dec.Proofs.Grammar.Descent
import Mathlib.Data.List.Forall2

/-!
Beginnings of programs: derivations that were cut off after some token. Every state that the machine
gets into is tracked by the beginning that was read so far, so a complete reading leaves a derivation
of all its tokens.
-/
namespace Dec.Grammar

inductive OpenParen where
  | left (opened : Sign .leftParen)
  | right (opened : Sign .leftParen) (left : Expression) (operator : Terminal TokenKind.isBinary)

inductive Lead where
  | assign (name : Sign .identifier) (sign : Sign .assign)
  | ret (word : Sign .returnWord)

structure BlockStart where
  opened : Sign .leftBrace
  body : List Statement

inductive Pending where
  | statement
  | assignSign (name : Sign .identifier)
  | operand (lead : Lead) (parens : List OpenParen)
  | afterLeft (lead : Lead) (opened : Sign .leftParen) (left : Expression) (outer : List OpenParen)
  | afterRight (lead : Lead) (opened : Sign .leftParen) (left : Expression)
      (operator : Terminal TokenKind.isBinary) (right : Expression) (outer : List OpenParen)

/-- A beginning of a program; the blocks that are open come innermost first. -/
inductive Beginning where
  | empty
  | inside (block : BlockStart) (outer : List BlockStart) (pending : Pending)
  | complete (d : Derivation)

def OpenParen.tokens : OpenParen → List Token
  | left opened => [opened.token]
  | right opened l operator => opened.token :: (l.tokens ++ [operator.token])

def OpenParen.allTokens (parens : List OpenParen) : List Token := parens.reverse.flatMap tokens

namespace Lead

def tokens : Lead → List Token
  | assign name sign => [name.token, sign.token]
  | ret word => [word.token]

def head : Lead → Head
  | assign name _ => .assign name.token
  | ret word => .ret word.token

def statement (value : Expression) : Lead → Statement
  | assign name sign => .assign name sign value
  | ret word => .ret word value

theorem tokens_statement (lead : Lead) (value : Expression) :
    (lead.statement value).tokens = lead.tokens ++ value.tokens := by
  cases lead <;> rfl

end Lead

def BlockStart.tokens (b : BlockStart) : List Token :=
  b.opened.token :: Statement.allTokens b.body.reverse

def BlockStart.allTokens (blocks : List BlockStart) : List Token := blocks.reverse.flatMap tokens

def Pending.tokens : Pending → List Token
  | statement => []
  | assignSign name => [name.token]
  | operand lead parens => lead.tokens ++ OpenParen.allTokens parens
  | afterLeft lead opened left outer =>
    lead.tokens ++ OpenParen.allTokens outer ++ opened.token :: left.tokens
  | afterRight lead opened left operator right outer =>
    lead.tokens ++ OpenParen.allTokens outer ++
      opened.token :: (left.tokens ++ operator.token :: right.tokens)

namespace Beginning

def tokens : Beginning → List Token
  | empty => []
  | inside block outer pending => BlockStart.allTokens (block :: outer) ++ pending.tokens
  | complete d => d.tokens

def addStatement (block : BlockStart) (outer : List BlockStart) (s : Statement) : Beginning :=
  inside { block with body := s :: block.body } outer .statement

def addOperand (block : BlockStart) (outer : List BlockStart) (lead : Lead) (e : Expression) :
    List OpenParen → Beginning
  | [] => addStatement block outer (lead.statement e)
  | .left opened :: parens => inside block outer (.afterLeft lead opened e parens)
  | .right opened left operator :: parens =>
    inside block outer (.afterRight lead opened left operator e parens)

def close (block : BlockStart) (closed : Sign .rightBrace) : List BlockStart → Beginning
  | [] => complete ⟨block.opened, block.body.reverse, closed⟩
  | b :: outer => addStatement b outer (.block block.opened block.body.reverse closed)

end Beginning

section Tokens

variable (block : BlockStart) (outer : List BlockStart) (lead : Lead)

theorem Statement.allTokens_append (ss ss' : List Statement) :
    Statement.allTokens (ss ++ ss') = Statement.allTokens ss ++ Statement.allTokens ss' := by
  induction ss with
  | nil => rfl
  | cons s rest ih => simp only [List.cons_append, Statement.allTokens, ih, List.append_assoc]

theorem OpenParen.allTokens_cons (p : OpenParen) (parens : List OpenParen) :
    OpenParen.allTokens (p :: parens) = OpenParen.allTokens parens ++ p.tokens := by
  simp [OpenParen.allTokens]

theorem BlockStart.allTokens_cons :
    BlockStart.allTokens (block :: outer) = BlockStart.allTokens outer ++ block.tokens := by
  simp [BlockStart.allTokens]

theorem Beginning.tokens_addStatement (s : Statement) :
    (Beginning.addStatement block outer s).tokens =
      BlockStart.allTokens (block :: outer) ++ s.tokens := by
  simp [Beginning.addStatement, Beginning.tokens, BlockStart.allTokens_cons, BlockStart.tokens,
    Pending.tokens, Statement.allTokens_append, Statement.allTokens]

theorem Beginning.tokens_addOperand (e : Expression) (parens : List OpenParen) :
    (Beginning.addOperand block outer lead e parens).tokens =
      BlockStart.allTokens (block :: outer) ++
        (lead.tokens ++ (OpenParen.allTokens parens ++ e.tokens)) := by
  cases parens with
  | nil =>
    rw [Beginning.addOperand, Beginning.tokens_addStatement, Lead.tokens_statement]
    rfl
  | cons p parens =>
    cases p <;> simp [Beginning.addOperand, Beginning.tokens, Pending.tokens,
      OpenParen.allTokens_cons, OpenParen.tokens]

theorem Beginning.tokens_close (closed : Sign .rightBrace) :
    (Beginning.close block closed outer).tokens =
      BlockStart.allTokens (block :: outer) ++ [closed.token] := by
  cases outer with
  | nil =>
    simp [Beginning.close, Beginning.tokens, Derivation.tokens, Derivation.statement,
      Statement.tokens, BlockStart.allTokens, BlockStart.tokens]
  | cons b outer =>
    simp [Beginning.close, Beginning.tokens_addStatement, Statement.tokens,
      BlockStart.allTokens_cons block, BlockStart.tokens]

end Tokens

variable {ε σ ν : Type} {limit : Nat}

inductive OpenParen.Tracks : OpenParen → Paren ν → Prop
  | left (opened : Sign .leftParen) : Tracks (.left opened) (.left opened.token)
  | right (opened : Sign .leftParen) (l : Expression) (operator : Terminal TokenKind.isBinary)
      (value : ν) : Tracks (.right opened l operator) (.right opened.token value operator.token)

inductive Pending.Tracks : Pending → Phase ν → Prop
  | statement : Tracks .statement .statement
  | assignSign (name : Sign .identifier) : Tracks (.assignSign name) (.assignSign name.token)
  | operand (lead : Lead) {parens : List OpenParen} {ps : List (Paren ν)}
      (h : List.Forall₂ OpenParen.Tracks parens ps) :
      Tracks (.operand lead parens) (.operand lead.head ps)
  | afterLeft (lead : Lead) (opened : Sign .leftParen) (left : Expression) (value : ν)
      {parens : List OpenParen} {ps : List (Paren ν)}
      (h : List.Forall₂ OpenParen.Tracks parens ps) :
      Tracks (.afterLeft lead opened left parens) (.afterLeft lead.head opened.token value ps)
  | afterRight (lead : Lead) (opened : Sign .leftParen) (left : Expression)
      (operator : Terminal TokenKind.isBinary) (right : Expression) (value value' : ν)
      {parens : List OpenParen} {ps : List (Paren ν)}
      (h : List.Forall₂ OpenParen.Tracks parens ps) :
      Tracks (.afterRight lead opened left operator right parens)
        (.afterRight lead.head opened.token value operator.token value' ps)

inductive Beginning.Tracks : Beginning → State ν → Prop
  | empty (next : Nat) : Tracks .empty ⟨.program, [], next⟩
  | inside (block : BlockStart) (outer : List BlockStart) {pending : Pending} {phase : Phase ν}
      {blocks : List (OpenBlock ν)} (next : Nat)
      (hb : blocks.map (·.opened) = (block :: outer).map (·.opened.token))
      (hp : pending.Tracks phase) : Tracks (.inside block outer pending) ⟨phase, blocks, next⟩
  | complete (d : Derivation) (program : ν) (next : Nat) :
      Tracks (.complete d) ⟨.complete program, [], next⟩

section Tracking

variable {build : Answer ε σ ν} {s s' : σ} {c c' : State ν} {block : BlockStart}
  {outer : List BlockStart} {blocks : List (OpenBlock ν)} {phase : Phase ν} {next : Nat}

theorem addStatement_tracks (hb : blocks.map (·.opened) = (block :: outer).map (·.opened.token))
    (st : Statement) (node : ν) :
    (Beginning.addStatement block outer st).Tracks (addStatement node ⟨phase, blocks, next⟩) := by
  cases blocks with
  | nil => simp at hb
  | cons b rest => exact .inside _ _ next (by simpa using hb) .statement

theorem finishOperand_tracks (hb : blocks.map (·.opened) = (block :: outer).map (·.opened.token))
    {parens : List OpenParen} {ps : List (Paren ν)} (hps : List.Forall₂ OpenParen.Tracks parens ps)
    (lead : Lead) (e : Expression) (v : ν)
    (h : finishOperand build lead.head v ⟨phase, blocks, next⟩ ps s = (.ok c', s')) :
    (Beginning.addOperand block outer lead e parens).Tracks c' := by
  -- without open parentheses the expression ends its statement
  cases hps with
  | nil =>
    cases lead with
    | assign n g =>
      obtain ⟨target, s₁, _, h⟩ := bind_eq_ok h
      obtain ⟨node, s₂, _, h⟩ := bind_eq_ok h
      obtain ⟨rfl, -⟩ := pure_eq_ok h
      cases blocks with
      | nil => simp at hb
      | cons b rest => exact addStatement_tracks (by simpa using hb) _ _
    | ret w =>
      obtain ⟨node, s₁, _, h⟩ := bind_eq_ok h
      obtain ⟨rfl, -⟩ := pure_eq_ok h
      exact addStatement_tracks hb _ _
  | cons hp hps =>
    cases hp with
    | left o =>
      obtain ⟨rfl, -⟩ := pure_eq_ok h
      exact .inside _ _ next hb (.afterLeft lead o e v hps)
    | right o l op value =>
      obtain ⟨rfl, -⟩ := pure_eq_ok h
      exact .inside _ _ next hb (.afterRight lead o l op e value v hps)

theorem closeBlock_tracks (hb : blocks.map (·.opened) = (block :: outer).map (·.opened.token))
    (closed : Sign .rightBrace)
    (h : closeBlock build ⟨phase, blocks, next⟩ s = (.ok c', s')) :
    (Beginning.close block closed outer).Tracks c' := by
  cases blocks with
  | nil => simp at hb
  | cons b rest =>
    obtain ⟨node, s₁, _, h⟩ := bind_eq_ok h
    obtain ⟨rfl, -⟩ := pure_eq_ok h
    have hr : rest.map (·.opened) = outer.map (·.opened.token) := by
      simpa using (List.cons.inj hb).2
    -- the outermost block is the program
    cases outer with
    | nil =>
      obtain rfl : rest = [] := by simpa using hr
      exact .complete _ node next
    | cons b' outer' => exact addStatement_tracks hr _ _

theorem within_eq_ok {α : Type} {depth : Nat} {t : Token} {inner : Reading ε σ α} {a : α}
    (h : within limit depth t inner s = (.ok a, s')) :
    depth < limit ∧ inner s = (.ok a, s') := by
  unfold within at h
  split at h
  · exact ⟨‹_›, h⟩
  · exact (throw_ne_ok _ _ h).elim

-- each phase admits a few kinds of token; all others are faults

theorem step_program_accepts {t : Token}
    (h : step limit build t ⟨.program, blocks, next⟩ s = (.ok c', s')) : t.kind = .leftBrace := by
  cases hk : t.kind <;> simp only [step, hk] at h <;>
    first | rfl | exact (throw_ne_ok _ _ h).elim

theorem step_statement_accepts {t : Token}
    (h : step limit build t ⟨.statement, blocks, next⟩ s = (.ok c', s')) :
    t.kind = .rightBrace ∨ t.kind = .leftBrace ∨ t.kind = .identifier ∨ t.kind = .returnWord := by
  cases hk : t.kind <;> simp only [step, hk] at h <;>
    first | simp; done | exact (throw_ne_ok _ _ h).elim

theorem step_assignSign_accepts {t name : Token}
    (h : step limit build t ⟨.assignSign name, blocks, next⟩ s = (.ok c', s')) :
    t.kind = .assign := by
  cases hk : t.kind <;> simp only [step, hk] at h <;>
    first | rfl | exact (throw_ne_ok _ _ h).elim

theorem step_operand_accepts {t : Token} {head : Head} {ps : List (Paren ν)}
    (h : step limit build t ⟨.operand head ps, blocks, next⟩ s = (.ok c', s')) :
    t.kind.isLiteral = true ∨ t.kind = .identifier ∨ t.kind = .leftParen := by
  cases hk : t.kind <;> simp only [step, hk] at h <;>
    first | simp [TokenKind.isLiteral]; done | exact (throw_ne_ok _ _ h).elim

theorem step_afterLeft_accepts {t opened : Token} {head : Head} {v : ν} {ps : List (Paren ν)}
    (h : step limit build t ⟨.afterLeft head opened v ps, blocks, next⟩ s = (.ok c', s')) :
    t.kind = .rightParen ∨ t.kind.isBinary = true := by
  cases hk : t.kind <;> simp only [step, hk] at h <;>
    first | simp [TokenKind.isBinary]; done | exact (throw_ne_ok _ _ h).elim

theorem step_afterRight_accepts {t opened operator : Token} {head : Head} {v v' : ν}
    {ps : List (Paren ν)}
    (h : step limit build t ⟨.afterRight head opened v operator v' ps, blocks, next⟩ s =
      (.ok c', s')) :
    t.kind = .rightParen := by
  cases hk : t.kind <;> simp only [step, hk] at h <;>
    first | rfl | exact (throw_ne_ok _ _ h).elim

/-- One step of the machine reads one more token of a beginning. -/
theorem step_tracks {p : Beginning} (hp : p.Tracks c) (t : Token)
    (h : step limit build t c s = (.ok c', s')) :
    ∃ p' : Beginning, p'.Tracks c' ∧ p'.tokens = p.tokens ++ [t] := by
  cases hp with
  | empty next =>
    obtain ⟨w, rfl⟩ := Sign.exists_token (step_program_accepts h)
    rw [step_program_leftBrace] at h
    obtain ⟨rfl, -⟩ := pure_eq_ok (within_eq_ok h).2
    exact ⟨.inside ⟨w, []⟩ [] .statement, .inside _ _ _ rfl .statement, rfl⟩
  | complete d program next => exact (throw_ne_ok _ _ h).elim
  | @inside block outer pending phase blocks next hb hp =>
    -- in each phase, the tokens that do not fail the step, and what they add to the beginning
    cases hp with
    | statement =>
      rcases step_statement_accepts h with hk | hk | hk | hk
      · obtain ⟨w, rfl⟩ := Sign.exists_token hk
        rw [step_statement_rightBrace] at h
        refine ⟨_, closeBlock_tracks hb w h, ?_⟩
        rw [Beginning.tokens_close]
        simp [Beginning.tokens, Pending.tokens]
      · obtain ⟨w, rfl⟩ := Sign.exists_token hk
        rw [step_statement_leftBrace] at h
        obtain ⟨rfl, -⟩ := pure_eq_ok (within_eq_ok h).2
        refine ⟨.inside ⟨w, []⟩ (block :: outer) .statement,
          .inside _ _ _ (by simpa using hb) .statement, ?_⟩
        simp [Beginning.tokens, Pending.tokens, BlockStart.allTokens_cons ⟨w, []⟩,
          BlockStart.tokens, Statement.allTokens]
      · obtain ⟨w, rfl⟩ := Sign.exists_token hk
        rw [step_statement_name] at h
        obtain ⟨rfl, -⟩ := pure_eq_ok h
        refine ⟨.inside block outer (.assignSign w), .inside _ _ _ hb (.assignSign w), ?_⟩
        simp [Beginning.tokens, Pending.tokens]
      · obtain ⟨w, rfl⟩ := Sign.exists_token hk
        rw [step_statement_return] at h
        obtain ⟨rfl, -⟩ := pure_eq_ok h
        refine ⟨.inside block outer (.operand (.ret w) []),
          .inside _ _ _ hb (.operand (.ret w) .nil), ?_⟩
        simp [Beginning.tokens, Pending.tokens, Lead.tokens, OpenParen.allTokens]
    | assignSign n =>
      obtain ⟨w, rfl⟩ := Sign.exists_token (step_assignSign_accepts h)
      rw [step_assignSign] at h
      obtain ⟨rfl, -⟩ := pure_eq_ok h
      refine ⟨.inside block outer (.operand (.assign n w) []),
        .inside _ _ _ hb (.operand (.assign n w) .nil), ?_⟩
      simp [Beginning.tokens, Pending.tokens, Lead.tokens, OpenParen.allTokens]
    | @operand lead parens ps hps =>
      rcases step_operand_accepts h with hk | hk | hk
      · obtain ⟨w, rfl⟩ := Terminal.exists_token hk
        rw [step_operand_literal] at h
        obtain ⟨v, s₁, -, h⟩ := bind_eq_ok h
        refine ⟨_, finishOperand_tracks hb hps lead (.literal w) v h, ?_⟩
        rw [Beginning.tokens_addOperand]
        simp [Beginning.tokens, Pending.tokens, Expression.tokens]
      · obtain ⟨w, rfl⟩ := Sign.exists_token hk
        rw [step_operand_name] at h
        obtain ⟨v, s₁, -, h⟩ := bind_eq_ok h
        refine ⟨_, finishOperand_tracks hb hps lead (.var w) v h, ?_⟩
        rw [Beginning.tokens_addOperand]
        simp [Beginning.tokens, Pending.tokens, Expression.tokens]
      · obtain ⟨w, rfl⟩ := Sign.exists_token hk
        rw [step_operand_leftParen] at h
        obtain ⟨rfl, -⟩ := pure_eq_ok (within_eq_ok h).2
        refine ⟨.inside block outer (.operand lead (.left w :: parens)),
          .inside _ _ _ hb (.operand lead (.cons (.left w) hps)), ?_⟩
        simp [Beginning.tokens, Pending.tokens, OpenParen.allTokens_cons, OpenParen.tokens]
    | @afterLeft lead o l v parens ps hps =>
      rcases step_afterLeft_accepts h with hk | hk
      · obtain ⟨w, rfl⟩ := Sign.exists_token hk
        rw [step_afterLeft_rightParen] at h
        refine ⟨_, finishOperand_tracks hb hps lead (.group o l w) v h, ?_⟩
        rw [Beginning.tokens_addOperand]
        simp [Beginning.tokens, Pending.tokens, Expression.tokens]
      · obtain ⟨w, rfl⟩ := Terminal.exists_token hk
        rw [step_afterLeft_operator] at h
        obtain ⟨rfl, -⟩ := pure_eq_ok h
        refine ⟨.inside block outer (.operand lead (.right o l w :: parens)),
          .inside _ _ _ hb (.operand lead (.cons (.right o l w v) hps)), ?_⟩
        simp [Beginning.tokens, Pending.tokens, OpenParen.allTokens_cons, OpenParen.tokens]
    | @afterRight lead o l op r v v' parens ps hps =>
      obtain ⟨w, rfl⟩ := Sign.exists_token (step_afterRight_accepts h)
      rw [step_afterRight_rightParen] at h
      obtain ⟨node, s₁, -, h⟩ := bind_eq_ok h
      refine ⟨_, finishOperand_tracks hb hps lead (.binary o l op r w) node h, ?_⟩
      rw [Beginning.tokens_addOperand]
      simp [Beginning.tokens, Pending.tokens, Expression.tokens]

/-- A run of the machine reads all its tokens of a beginning. -/
theorem steps_tracks {p : Beginning} (hp : p.Tracks c) (ts : List Token)
    (h : steps limit build ts c s = (.ok c', s')) :
    ∃ p' : Beginning, p'.Tracks c' ∧ p'.tokens = p.tokens ++ ts := by
  induction ts generalizing p c s with
  | nil =>
    obtain ⟨rfl, -⟩ := pure_eq_ok h
    exact ⟨p, hp, by simp⟩
  | cons t ts ih =>
    rw [steps_cons] at h
    obtain ⟨c₁, s₁, ht, h⟩ := bind_eq_ok h
    obtain ⟨p₁, hp₁, he₁⟩ := step_tracks hp t ht
    obtain ⟨p', hp', he'⟩ := ih hp₁ h
    exact ⟨p', hp', by rw [he', he₁, List.append_assoc, List.singleton_append]⟩

/-- What the machine reads to the end of a program has a derivation. -/
theorem exists_derivation_of_steps {ts : List Token} {program : ν}
    (h : steps limit build ts ⟨.program, [], next⟩ s = (.ok c', s'))
    (hc : c'.phase = .complete program) :
    ∃ d : Derivation, d.tokens = ts := by
  obtain ⟨p, hp, he⟩ := steps_tracks (.empty next) ts h
  -- only a complete beginning is tracked by a machine that is done
  cases hp with
  | empty => cases hc
  | inside _ _ _ _ hp => cases hp <;> cases hc
  | complete d => exact ⟨d, he⟩

end Tracking

end Dec.Grammar
