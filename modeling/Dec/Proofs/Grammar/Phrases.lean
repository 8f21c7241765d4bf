import Dec.Proofs.Grammar.Making
import Dec.Proofs.Tree.Writing

namespace Dec

def WalkCost.reading : WalkCost := ⟨1, 0, 1⟩

namespace Token

variable {t : Token}

theorem kind_of_sign {kind : TokenKind} (ht : t.word = .ofSign kind) : t.kind = kind :=
  congrArg Word.kind ht

theorem number_of_word {v : Number} (ht : t.word = v.literal) : t.number = v := by
  have hvalue : t.value = some (.number v) := congrArg Word.value ht
  rw [number, hvalue]

theorem isLiteral_of_word {v : Number} (ht : t.word = v.literal) : t.kind.isLiteral = true := by
  have hkind : t.kind = v.literalKind := congrArg Word.kind ht
  rw [hkind]
  cases v <;> rfl

theorem word_of_name {name : String} (hn : IsVariable name) (ht : t.word = .ofName name.toList) :
    t.kind = .identifier ∧ t.lexeme = name := by
  rw [Word.ofName, if_neg hn.ne_return] at ht
  exact ⟨congrArg Word.kind ht, String.toList_inj.mp (congrArg Word.chars ht)⟩

theorem isVariable (hs : t.Spelled) (hk : t.kind = .identifier) : IsVariable t.lexeme := by
  obtain ⟨hn, hne⟩ := hs.name hk
  exact ⟨hn, hne⟩

end Token

namespace Grammar

section Meaning

/-- What an expression of spelled tokens means has a source text. -/
theorem Expression.sourceExpression (e : Expression) (hs : ∀ t ∈ e.tokens, t.Spelled) {n : Node}
    (hn : n.skeleton = e.skeleton) : n.SourceExpression := by
  induction e generalizing n with
  | literal word =>
    obtain ⟨tag, rfl⟩ := Node.skeleton_eq_literal hn
    exact .literal tag (number_of_spelled (hs word.token (by simp [tokens]))).2
  | var word =>
    obtain ⟨tag, rfl⟩ := Node.skeleton_eq_var hn
    exact .var tag (Token.isVariable (hs _ (by simp [tokens])) word.kind_eq)
  | group opened inner closed ih =>
    -- redundant parentheses leave no trace in the tree
    exact ih (fun t ht => hs t (by simp [tokens, ht])) hn
  | binary opened left operator right closed ihl ihr =>
    obtain ⟨tag, l, r, rfl, hl, hr⟩ := Node.skeleton_eq_binary hn
    exact .binary tag _ (ihl (fun t ht => hs t (by simp [tokens, ht])) hl)
      (ihr (fun t ht => hs t (by simp [tokens, ht])) hr)

mutual

theorem Statement.sourceStatement (s : Statement) (hs : ∀ t ∈ s.tokens, t.Spelled) {n : Node}
    (hn : n.skeleton = s.skeleton) : n.SourceStatement := by
  cases s with
  | assign name sign value =>
    obtain ⟨tag, target, v, rfl, hv⟩ := Node.skeleton_eq_assign hn
    exact .assign tag target (Token.isVariable (hs _ (by simp [tokens])) name.kind_eq)
      (value.sourceExpression (fun t ht => hs t (by simp [tokens, ht])) hv)
  | ret word value =>
    obtain ⟨tag, v, rfl, hv⟩ := Node.skeleton_eq_ret hn
    exact .ret tag (value.sourceExpression (fun t ht => hs t (by simp [tokens, ht])) hv)
  | block opened body closed =>
    obtain ⟨tag, table, ns, rfl, hb⟩ := Node.skeleton_eq_block hn
    exact .block tag table
      (Statement.sourceStatements body (fun t ht => hs t (by simp [tokens, ht])) hb)

theorem Statement.sourceStatements (body : List Statement) (hs : ∀ t ∈ allTokens body, t.Spelled)
    {ns : List Node} (hn : Node.skeletons ns = skeletons body) : ∀ n ∈ ns, n.SourceStatement := by
  cases body with
  | nil =>
    rw [Node.skeletons_eq_nil hn]
    simp
  | cons s rest =>
    obtain ⟨m, others, rfl, hm, ho⟩ := Node.skeletons_eq_cons hn
    intro n hmem
    rcases List.mem_cons.mp hmem with rfl | hmem
    · exact s.sourceStatement (fun t ht => hs t (by simp [allTokens, ht])) hm
    · exact Statement.sourceStatements rest (fun t ht => hs t (by simp [allTokens, ht])) ho n hmem

end

theorem Derivation.sourceProgram (d : Derivation) (hs : ∀ t ∈ d.tokens, t.Spelled) {n : Node}
    (hn : n.skeleton = d.skeleton) : n.SourceProgram := by
  obtain ⟨tag, table, body, rfl, -⟩ := Node.skeleton_eq_block hn
  exact ⟨d.statement.sourceStatement hs hn, tag, table, body, rfl⟩

end Meaning

section Phrases

/-- Tokens with the words of an expression are an expression that means it. -/
theorem exists_expression {n : Node} (h : n.SourceExpression) {ts : List Token}
    (ht : ts.map Token.word = n.words) :
    ∃ e : Expression, e.tokens = ts ∧ e.skeleton = n.skeleton ∧ e.nesting = n.depth .reading := by
  induction h generalizing ts with
  | @literal tag value hv =>
    obtain ⟨t, rfl, hw⟩ := List.map_eq_singleton_iff.mp ht
    obtain ⟨w, rfl⟩ := Terminal.exists_token (Token.isLiteral_of_word hw)
    refine ⟨.literal w, rfl, ?_, rfl⟩
    rw [Expression.skeleton, Token.number_of_word hw, Node.skeleton]
  | @var tag name hn =>
    obtain ⟨t, rfl, hw⟩ := List.map_eq_singleton_iff.mp ht
    obtain ⟨hkind, hname⟩ := Token.word_of_name hn hw
    obtain ⟨w, rfl⟩ := Sign.exists_token hkind
    refine ⟨.var w, rfl, ?_, rfl⟩
    rw [Expression.skeleton, hname, Node.skeleton]
  | @binary tag op left right hl hr ihl ihr =>
    -- the tokens fall apart as the words do
    rw [Node.words] at ht
    obtain ⟨t, ts, rfl, hopened, ht⟩ := List.map_eq_cons_iff.mp ht
    obtain ⟨lts, ts, rfl, hlts, ht⟩ := List.map_eq_append_iff.mp ht
    obtain ⟨u, ts, rfl, hop, ht⟩ := List.map_eq_cons_iff.mp ht
    obtain ⟨rts, ts, rfl, hrts, ht⟩ := List.map_eq_append_iff.mp ht
    obtain ⟨v, rfl, hclosed⟩ := List.map_eq_singleton_iff.mp ht
    obtain ⟨l, rfl, hls, hln⟩ := ihl hlts
    obtain ⟨r, rfl, hrs, hrn⟩ := ihr hrts
    have hkind : u.kind = .operator op := Token.kind_of_sign hop
    obtain ⟨opened, rfl⟩ := Sign.exists_token (Token.kind_of_sign hopened)
    obtain ⟨operator, rfl⟩ := Terminal.exists_token (show u.kind.isBinary = true by rw [hkind]; rfl)
    obtain ⟨closed, rfl⟩ := Sign.exists_token (Token.kind_of_sign hclosed)
    refine ⟨.binary opened l operator r closed, rfl, ?_, ?_⟩
    · rw [Expression.skeleton, hls, hrs, Token.binaryOp, hkind, Node.skeleton]
    · rw [Expression.nesting, hln, hrn]
      rfl

theorem kind_of_returnWord {t : Token} (ht : t.word = .ofName Word.returnWord) :
    t.kind = .returnWord := by
  rw [Word.ofName, if_pos rfl] at ht
  exact congrArg Word.kind ht

theorem exists_statements {body : List Node}
    (h : ∀ n ∈ body, ∀ ⦃ts : List Token⦄, ts.map Token.word = n.words →
      ∃ s : Statement, s.tokens = ts ∧ s.skeleton = n.skeleton ∧ s.nesting = n.depth .reading)
    {ts : List Token} (ht : ts.map Token.word = Node.allWords body) :
    ∃ ss : List Statement, Statement.allTokens ss = ts ∧
      Statement.skeletons ss = Node.skeletons body ∧
      Statement.maxNesting ss = Node.maxDepth .reading body := by
  induction body generalizing ts with
  | nil =>
    obtain rfl := List.map_eq_nil_iff.mp ht
    exact ⟨[], rfl, rfl, rfl⟩
  | cons n rest ih =>
    obtain ⟨first, others, rfl, hfirst, hothers⟩ := List.map_eq_append_iff.mp ht
    obtain ⟨s, rfl, hs, hn⟩ := h n (by simp) hfirst
    obtain ⟨ss, rfl, hss, hns⟩ := ih (fun m hm => h m (by simp [hm])) hothers
    refine ⟨s :: ss, rfl, ?_, ?_⟩
    · rw [Statement.skeletons, hs, hss, Node.skeletons]
    · rw [Statement.maxNesting, hn, hns, Node.maxDepth]

theorem exists_statement {n : Node} (h : n.SourceStatement) {ts : List Token}
    (ht : ts.map Token.word = n.words) :
    ∃ s : Statement, s.tokens = ts ∧ s.skeleton = n.skeleton ∧ s.nesting = n.depth .reading := by
  induction h generalizing ts with
  | @assign tag target name value hn hv =>
    obtain ⟨t, ts, rfl, hname, ht⟩ := List.map_eq_cons_iff.mp ht
    obtain ⟨u, ts, rfl, hsign, hvalue⟩ := List.map_eq_cons_iff.mp ht
    obtain ⟨hkind, hlexeme⟩ := Token.word_of_name hn hname
    obtain ⟨word, rfl⟩ := Sign.exists_token hkind
    obtain ⟨sign, rfl⟩ := Sign.exists_token (Token.kind_of_sign hsign)
    obtain ⟨e, rfl, hs, hd⟩ := exists_expression hv hvalue
    refine ⟨.assign word sign e, by rw [Statement.tokens], ?_, ?_⟩
    · rw [Statement.skeleton, hlexeme, hs, Node.skeleton]
    · rw [Statement.nesting, hd]
      rfl
  | @ret tag value hv =>
    obtain ⟨t, ts, rfl, hword, hvalue⟩ := List.map_eq_cons_iff.mp ht
    obtain ⟨word, rfl⟩ := Sign.exists_token (kind_of_returnWord hword)
    obtain ⟨e, rfl, hs, hd⟩ := exists_expression hv hvalue
    refine ⟨.ret word e, by rw [Statement.tokens], ?_, ?_⟩
    · rw [Statement.skeleton, hs, Node.skeleton]
    · rw [Statement.nesting, hd]
      rfl
  | @block tag table body hb ih =>
    rw [Node.words] at ht
    obtain ⟨t, ts, rfl, hopened, ht⟩ := List.map_eq_cons_iff.mp ht
    obtain ⟨inner, ts, rfl, hinner, ht⟩ := List.map_eq_append_iff.mp ht
    obtain ⟨u, rfl, hclosed⟩ := List.map_eq_singleton_iff.mp ht
    obtain ⟨opened, rfl⟩ := Sign.exists_token (Token.kind_of_sign hopened)
    obtain ⟨closed, rfl⟩ := Sign.exists_token (Token.kind_of_sign hclosed)
    obtain ⟨ss, rfl, hs, hd⟩ := exists_statements ih hinner
    refine ⟨.block opened ss closed, by rw [Statement.tokens], ?_, ?_⟩
    · rw [Statement.skeleton, hs, Node.skeleton]
    · rw [Statement.nesting, hd]
      rfl

/-- Tokens with the words of a program have a derivation that means it. -/
theorem exists_derivation {n : Node} (h : n.SourceProgram) {ts : List Token}
    (ht : ts.map Token.word = n.words) :
    ∃ d : Derivation, d.tokens = ts ∧ d.skeleton = n.skeleton ∧ d.nesting = n.depth .reading := by
  obtain ⟨tag, table, body, rfl⟩ := h.isBlock
  obtain ⟨s, rfl, hs, hn⟩ := exists_statement h.statement ht
  -- only a block means a block
  cases s with
  | assign name sign value => cases hs
  | ret word value => cases hs
  | block opened ss closed => exact ⟨⟨opened, ss, closed⟩, rfl, hs, hn⟩

end Phrases

end Grammar

end Dec
