import Mathlib
import Dec.Program
import Dec.Proofs.Grammar.Acceptance
import Dec.Proofs.Grammar.Numbering
import Dec.Proofs.Token.Spelling

namespace Dec.Grammar

section Words

theorem binaryOp_of_spelled {w : Terminal TokenKind.isBinary} (h : w.token.Spelled) :
    BinaryOp.ofSymbol? w.token.lexeme = some w.token.binaryOp := by
  have hw := w.admitted
  cases hk : w.token.kind <;> simp only [hk, TokenKind.isBinary, Bool.false_eq_true] at hw
  rename_i op
  have hs : w.token.kind.sign? = some op.symbol := by
    rw [hk]
    cases op <;> rfl
  have hl : w.token.lexeme = op.symbol := by
    simpa only [Token.word, String.ofList_toList] using h.sign _ hs
  rw [hl, Token.binaryOp, hk]
  cases op <;> rfl

theorem number_of_spelled {w : Terminal TokenKind.isLiteral} (h : w.token.Spelled) :
    w.token.value = some (.number w.token.number) ∧ w.token.number.Writable := by
  have hw := w.admitted
  cases hk : w.token.kind <;> simp only [hk, TokenKind.isLiteral, Bool.false_eq_true] at hw
  · obtain ⟨n, hv, hn⟩ := h.integer hk
    have hv : w.token.value = some (.number (.int n)) := hv
    simp only [Token.number, hv]
    exact ⟨trivial, hn⟩
  · obtain ⟨x, hv, hx⟩ := h.float hk
    have hv : w.token.value = some (.number (.float x)) := hv
    simp only [Token.number, hv]
    exact ⟨trivial, hx⟩

end Words

section Requests

variable (location : Option Location) (f : Forest)

-- what is asked of the builder along a derivation is met each time

theorem request_making_of_make {location : Option Location} {creation : Creation (Option Node)}
    {f f' : Forest} {n : Node} (h : f.make location creation = (.ok n, f')) :
    request (Builder.create .making) creation location f = (.ok (some n), f') := by
  simp only [request, Builder.create, h]
  rfl

theorem request_making_var (name : String) :
    request (Builder.create .making) (.var name) location f =
      (.ok (some (.var ⟨f.nextNode, location⟩ name)), f.grow 1 []) :=
  request_making_of_make rfl

theorem request_making_literal {n : Number} (hn : n.Writable) :
    request (Builder.create .making) (.literal (some (.number n))) location f =
      (.ok (some (.literal ⟨f.nextNode, location⟩ n)), f.grow 1 []) := by
  cases n with
  | int m => exact request_making_of_make rfl
  | float x =>
    -- the builder looks at floats once more
    have hx : x.isFinite = true := hn
    refine request_making_of_make ?_
    simp only [Forest.make, hx, if_true]
    rfl

theorem request_making_binary (op : BinaryOp) (l r : Node) :
    request (Builder.create .making) (.binary op (some l) (some r)) location f =
      (.ok (some (.binary ⟨f.nextNode, location⟩ op l r)),
        f.grow 1 [(r.id, ⟨f.nextNode, none⟩), (l.id, ⟨f.nextNode, none⟩)]) :=
  request_making_of_make rfl

theorem request_making_assign (tag : Tag) (name : String) (value : Node) :
    request (Builder.create .making) (.assign (some (.var tag name)) (some value)) location f =
      (.ok (some (.assign ⟨f.nextNode, location <|> tag.location⟩ tag name value)),
        f.grow 1 [(value.id, ⟨f.nextNode, none⟩), (tag.id, ⟨f.nextNode, none⟩)]) :=
  request_making_of_make rfl

theorem request_making_ret (value : Node) :
    request (Builder.create .making) (.ret (some value)) location f =
      (.ok (some (.ret ⟨f.nextNode, location⟩ value)),
        f.grow 1 [(value.id, ⟨f.nextNode, none⟩)]) :=
  request_making_of_make rfl

theorem adoptAll_map_some (owner : Owner) (body : List Node) :
    f.adoptAll owner (body.map some) =
      (some body, f.grow 0 (body.map fun n => (n.id, owner)).reverse) := by
  induction body generalizing f with
  | nil => rfl
  | cons n rest ih =>
    have hadopt : f.adopt owner n = f.grow 0 [(n.id, owner)] := rfl
    rw [List.map_cons, Forest.adoptAll, ih, hadopt, Forest.grow_grow, List.map_cons,
      List.reverse_cons]
    rfl

theorem request_making_block (body : List Node) (table : Table) :
    request (Builder.create .making) (.block (body.map some) (some table)) location f =
      (.ok (some (.block ⟨f.nextNode, location⟩ table body)),
        f.grow 1 (body.map fun n => (n.id, ⟨f.nextNode, some table⟩)).reverse) := by
  have htag : f.newTag location = (⟨f.nextNode, location⟩, f.grow 1 []) := rfl
  refine request_making_of_make ?_
  simp only [Forest.make, htag, adoptAll_map_some, Forest.grow_grow, List.append_nil]

end Requests

/-- The making builder makes the tree that an expression means. -/
theorem Expression.read_making {limit : Nat} (e : Expression) (he : ∀ t ∈ e.tokens, t.Spelled)
    (depth : Nat) (hd : depth + e.nesting ≤ limit) (f : Forest) :
    e.read limit (Builder.create .making) depth f =
      (.ok (some (e.tree f.nextNode)), f.grow e.size (e.tree f.nextNode).adoptions) := by
  induction e generalizing depth f with
  | literal w =>
    obtain ⟨hv, hn⟩ := number_of_spelled (he w.token (by simp [tokens]))
    rw [read, hv]
    exact request_making_literal _ f hn
  | var w => exact request_making_var _ f _
  | group o e c ih =>
    simp only [nesting] at hd
    rw [read, within, if_pos (by omega)]
    exact ih (fun t ht => he t (by simp [tokens, ht])) (depth + 1) (by omega) f
  | binary o l op r c ihl ihr =>
    -- the forest that the left operand leaves is the one that the right operand starts from
    simp only [nesting] at hd
    have hl := ihl (fun t ht => he t (by simp [tokens, ht])) (depth + 1) (by omega) f
    have hr := ihr (fun t ht => he t (by simp [tokens, ht])) (depth + 1) (by omega)
      (f.grow l.size (l.tree f.nextNode).adoptions)
    rw [read, within, if_pos (by omega), bind_of_ok hl, bind_of_ok hr, requestOperator,
      binaryOp_of_spelled (he op.token (by simp [tokens]))]
    dsimp only
    rw [request_making_binary, Forest.grow_grow, Forest.grow_grow]
    rfl

namespace Statement

mutual

theorem read_making {limit : Nat} (st : Statement) (hst : ∀ t ∈ st.tokens, t.Spelled) (depth : Nat)
    (hd : depth + st.nesting ≤ limit) (table : Table) (next : Nat) (f : Forest) :
    st.read limit (Builder.create .making) depth table next f =
      (.ok (some (st.tree (some table) f.nextNode next), st.declare table, next + st.tables),
        f.grow st.size (st.tree (some table) f.nextNode next).adoptions) := by
  cases st with
  | assign n g e =>
    have hv := e.read_making (fun t ht => hst t (by simp [tokens, ht])) depth hd f
    have hplace : (n.token.location <|> n.token.location) = n.token.location := by
      cases n.token.location <;> rfl
    -- the value comes before the target
    rw [read, bind_of_ok hv, bind_of_ok (request_making_var _ _ _),
      bind_of_ok (request_making_assign _ _ _ _ _), Forest.grow_grow, Forest.grow_grow]
    dsimp only
    rw [hplace]
    rfl
  | ret w e =>
    have hv := e.read_making (fun t ht => hst t (by simp [tokens, ht])) depth hd f
    rw [read, bind_of_ok hv, bind_of_ok (request_making_ret _ _ _), Forest.grow_grow]
    rfl
  | block o body c =>
    simp only [nesting] at hd
    have hbody : depth + 1 + maxNesting body ≤ limit := by omega
    have hb := readAll_making body (fun t ht => hst t (by simp [tokens, ht])) (depth + 1) hbody
      (freshTable next (some table)) (next + 1) f
    rw [read, within, if_pos (by omega), bind_of_ok hb]
    dsimp only
    rw [bind_of_ok (request_making_block _ _ _ _), Forest.grow_grow, tables,
      Nat.add_comm (allTables body) 1, ← Nat.add_assoc]
    rfl

theorem readAll_making {limit : Nat} (ss : List Statement) (hss : ∀ t ∈ allTokens ss, t.Spelled)
    (depth : Nat) (hd : depth + maxNesting ss ≤ limit) (table : Table) (next : Nat) (f : Forest) :
    readAll limit (Builder.create .making) depth table next ss f =
      (.ok ((trees table f.nextNode next ss).map some, ss.foldl declare table,
        next + allTables ss),
        f.grow (sizes ss) (Node.allAdoptions (trees table f.nextNode next ss))) := by
  cases ss with
  | nil => rfl
  | cons st rest =>
    have hdepths : depth + st.nesting ≤ limit ∧ depth + maxNesting rest ≤ limit := by
      simp only [maxNesting] at hd
      omega
    have hst := read_making st (fun t ht => hss t (by simp [allTokens, ht])) depth hdepths.1 table
      next f
    have hrest := readAll_making rest (fun t ht => hss t (by simp [allTokens, ht])) depth hdepths.2
      (st.declare table) (next + st.tables)
      (f.grow st.size (st.tree (some table) f.nextNode next).adoptions)
    rw [readAll, bind_of_ok hst]
    dsimp only
    rw [bind_of_ok hrest, Forest.grow_grow, Nat.add_assoc]
    rfl

end

end Statement

/-- The making builder makes the tree that a program means. -/
theorem Derivation.read_making {limit : Nat} (d : Derivation) (hd : ∀ t ∈ d.tokens, t.Spelled)
    (hn : d.nesting ≤ limit) (next : Nat) (f : Forest) :
    d.read limit (Builder.create .making) next f =
      (.ok (some (d.tree f.nextNode next), next + d.tables),
        f.grow d.size (d.tree f.nextNode next).adoptions) := by
  have hbody : 1 + Statement.maxNesting d.body ≤ limit := by
    simp only [nesting, statement, Statement.nesting] at hn
    omega
  have hb := Statement.readAll_making d.body
    (fun t ht => hd t (by simp [tokens, statement, Statement.tokens, ht])) 1 hbody
    (freshTable next none) (next + 1) f
  rw [read, within, if_pos (by omega), bind_of_ok hb]
  dsimp only
  rw [bind_of_ok (request_making_block _ _ _ _), Forest.grow_grow, tables, statement,
    Statement.tables, Nat.add_comm (Statement.allTables d.body) 1, ← Nat.add_assoc]
  rfl

section Program

theorem splitEnd_append_end {ts : List Token} {t : Token} (hts : ∀ u ∈ ts, u.isEnd = false)
    (ht : t.isEnd = true) (rest : List Token) : splitEnd (ts ++ t :: rest) = (ts, t) := by
  have htake : (ts ++ t :: rest).takeWhile (fun t => !t.isEnd) = ts := by
    rw [List.takeWhile_append_of_pos fun u hu => by simp [hts u hu], List.takeWhile_cons]
    simp [ht]
  have hdrop : (ts ++ t :: rest).dropWhile (fun t => !t.isEnd) = t :: rest := by
    rw [List.dropWhile_append_of_pos fun u hu => by simp [hts u hu], List.dropWhile_cons]
    simp [ht]
  simp only [splitEnd, htake, hdrop]

theorem splitEnd_fst (tokens : List Token) :
    (splitEnd tokens).1 = tokens.takeWhile fun t => !t.isEnd := by
  simp only [splitEnd]
  split <;> rfl

variable {limit : Nat} {builder : Builder} {tokens : List Token} {f : Forest}

theorem ofTokens_result_eq_ok {n : Option Node} :
    (Program.ofTokens limit builder tokens f).result = .ok n ↔
      (parse limit builder.create tokens f.nextTable { f with record := [] }).1.result = .ok n := by
  simp only [Program.ofTokens]
  split <;> simp_all

theorem ofTokens_consumed :
    (Program.ofTokens limit builder tokens f).consumed =
      (parse limit builder.create tokens f.nextTable { f with record := [] }).1.consumed := by
  simp only [Program.ofTokens]
  split <;> rfl

/-- Spelled tokens before the end of the input are all the tokens that are read. -/
theorem splitEnd_of_spelled {ts : List Token} (hs : ∀ t ∈ ts, t.Spelled) (place : Option Location) :
    splitEnd (ts ++ [.endOfInput place]) = (ts, .endOfInput place) := by
  have hends : ∀ t ∈ ts, t.isEnd = false := by
    intro t ht
    have hk : t.kind ≠ .endOfInput := (hs t ht).notEnd
    simpa [Token.isEnd] using hk
  exact splitEnd_append_end hends (t := .endOfInput place) rfl []

/-- What the making builder reads of spelled tokens has a derivation that is not too deep. -/
theorem exists_derivation_of_ofTokens {n : Option Node}
    (h : (Program.ofTokens limit .making tokens f).result = .ok n) :
    ∃ d : Derivation, d.tokens = (splitEnd tokens).1 ∧ d.nesting ≤ limit := by
  obtain ⟨d, hd, next, s, hr⟩ := exists_derivation_of_parse (ofTokens_result_eq_ok.mp h)
  exact ⟨d, hd, d.nesting_le_of_read hr⟩

/-- What the making builder reads of a text has a derivation of spelled tokens. -/
theorem exists_spelled_derivation {source file : String} (h : tokenize source file = .ok tokens)
    {n : Option Node} (hn : (Program.ofTokens limit .making tokens f).result = .ok n) :
    ∃ d : Derivation, d.tokens = (splitEnd tokens).1 ∧ (∀ t ∈ d.tokens, t.Spelled) ∧
      d.nesting ≤ limit := by
  obtain ⟨ts, place, rfl, hts⟩ := tokenize_eq_ok h
  obtain ⟨d, hd, hnesting⟩ := exists_derivation_of_ofTokens hn
  refine ⟨d, hd, ?_, hnesting⟩
  rw [hd, splitEnd_of_spelled hts]
  exact hts

/-- A derivation of spelled tokens that is not too deep is made into its tree, and no more than the
nodes of the tree comes into the forest. -/
theorem ofTokens_making_eq {d : Derivation} (hd : d.tokens = (splitEnd tokens).1)
    (hs : ∀ t ∈ d.tokens, t.Spelled) (hn : d.nesting ≤ limit) (f : Forest) :
    (Program.ofTokens limit .making tokens f).result = .ok (some (d.tree f.nextNode f.nextTable)) ∧
      (Program.ofTokens limit .making tokens f).forest =
        { f.grow d.size (d.tree f.nextNode f.nextTable).adoptions with
          nextTable := f.nextTable + d.tables } ∧
      (Program.ofTokens limit .making tokens f).consumed = d.tokens.length := by
  have hread := d.read_making hs hn f.nextTable { f with record := [] }
  have hparse := parse_of_derivation hd hread
  refine ⟨ofTokens_result_eq_ok.mpr (by rw [hparse]), ?_, by rw [ofTokens_consumed, hparse]⟩
  simp only [Program.ofTokens, hparse]
  rfl

/-- A derivation of spelled tokens that is not too deep is made into a tree with its skeleton, and
the reading consumes its tokens. -/
theorem ofTokens_making_of_derivation {d : Derivation} (hd : d.tokens = (splitEnd tokens).1)
    (hs : ∀ t ∈ d.tokens, t.Spelled) (hn : d.nesting ≤ limit) (f : Forest) :
    ∃ n, (Program.ofTokens limit .making tokens f).result = .ok (some n) ∧ n.skeleton = d.skeleton ∧
      (Program.ofTokens limit .making tokens f).consumed = d.tokens.length := by
  obtain ⟨hr, -, hc⟩ := ofTokens_making_eq hd hs hn f
  exact ⟨_, hr, d.skeleton_tree _ _, hc⟩

/-- The making builder reads exactly the grammar. The tokens of a text are read to a tree just when
the ones before the end have a derivation that is not nested too deeply; there is at most one, the
tree is the one that it means, and the reading stops at the end of the input. -/
theorem ofTokens_making_reads_grammar {source file : String} {tokens : List Token}
    (h : tokenize source file = .ok tokens) (limit : Nat) (f : Forest) :
    ((∃ n, (Program.ofTokens limit .making tokens f).result = .ok n) ↔
      ∃ d : Derivation, d.tokens = tokens.takeWhile (fun t => !t.isEnd) ∧
        d.nesting ≤ limit) ∧
    ∀ d : Derivation, d.tokens = tokens.takeWhile (fun t => !t.isEnd) →
      (∀ d' : Derivation, d'.tokens = tokens.takeWhile (fun t => !t.isEnd) → d' = d) ∧
      (d.nesting ≤ limit →
        ∃ n t, (Program.ofTokens limit .making tokens f).result = .ok (some n) ∧
          n.skeleton = d.skeleton ∧
          tokens[(Program.ofTokens limit .making tokens f).consumed]? = some t ∧
          t.isEnd = true) := by
  obtain ⟨ts, place, rfl, hts⟩ := tokenize_eq_ok h
  have hbefore : (splitEnd (ts ++ [.endOfInput place])).1 = ts := by
    rw [splitEnd_of_spelled hts place]
  rw [← splitEnd_fst]
  refine ⟨⟨fun ⟨n, hn⟩ => exists_derivation_of_ofTokens hn, ?_⟩, fun d hd => ⟨?_, ?_⟩⟩
  · rintro ⟨d, hd, hn⟩
    have hspelled : ∀ t ∈ d.tokens, t.Spelled := by
      rw [hd, hbefore]
      exact hts
    obtain ⟨n, hr, -, -⟩ := ofTokens_making_of_derivation hd hspelled hn f
    exact ⟨some n, hr⟩
  · intro d' hd'
    exact Derivation.tokens_injective (hd'.trans hd.symm)
  · intro hn
    have hspelled : ∀ t ∈ d.tokens, t.Spelled := by
      rw [hd, hbefore]
      exact hts
    obtain ⟨n, hr, hk, hc⟩ := ofTokens_making_of_derivation hd hspelled hn f
    refine ⟨n, .endOfInput place, hr, hk, ?_, rfl⟩
    rw [hc, hd, hbefore]
    simp

theorem ofTokens_making_reads_parenthesized_name :
    ∃ tokens n, tokenize "\x7breturn (x)\x7d" "f" = .ok tokens ∧
      (Program.ofTokens 2 .making tokens .empty).result = .ok (some n) ∧
      n.skeleton = .block [.ret (.var "x")] := by
  let place (i : Int) : Option Location := some ⟨"f", 1, i + 1, i⟩
  let opened : Sign .leftBrace := ⟨⟨.leftBrace, "\x7b", none, place 0⟩, rfl⟩
  let word : Sign .returnWord := ⟨⟨.returnWord, "return", none, place 1⟩, rfl⟩
  let paren : Sign .leftParen := ⟨⟨.leftParen, "(", none, place 8⟩, rfl⟩
  let name : Sign .identifier := ⟨⟨.identifier, "x", some (.text "x"), place 9⟩, rfl⟩
  let closing : Sign .rightParen := ⟨⟨.rightParen, ")", none, place 10⟩, rfl⟩
  let closed : Sign .rightBrace := ⟨⟨.rightBrace, "\x7d", none, place 11⟩, rfl⟩
  let d : Derivation := ⟨opened, [.ret word (.group paren (.var name) closing)], closed⟩
  have h : tokenize "\x7breturn (x)\x7d" "f" = .ok (d.tokens ++ [.endOfInput (place 12)]) := by cbv
  obtain ⟨n, t, hr, hk, -⟩ :=
    ((ofTokens_making_reads_grammar h 2 .empty).2 d rfl).2 (by decide)
  exact ⟨_, n, h, hr, hk⟩

end Program

end Dec.Grammar
