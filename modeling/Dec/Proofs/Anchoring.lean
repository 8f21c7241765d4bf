import Dec.Proofs.Diagnosis
import Dec.Proofs.Grammar.Signs
import Dec.Proofs.Reprinting
import Dec.Proofs.Token.Runs
import Dec.Proofs.Tree.Places

namespace Dec

open Grammar

namespace Node

def offset (n : Node) : Nat := n.location.elim 0 fun place => place.offset.toNat

def IsTargetOf (n a : Node) : Prop :=
  ∃ tag target name value, a = .assign tag target name value ∧ n = .var target name

/-- A node stands in front of another, or at the same place where that is its target. -/
def Precedes (a b : Node) : Prop := a.offset < b.offset ∨ a.offset = b.offset ∧ b.IsTargetOf a

def ReadFrom (e : Expression) (n : Node) : Prop :=
  n.skeleton = e.skeleton ∧ ∀ m ∈ n.nodes, ∃ t ∈ e.tokens, m.location = t.location

/-- A token is the one that the text of a node starts with. For an operation that is the parenthesis
with the two operands behind it and the operator between them. -/
def StartsAt (tokens : List Token) (t : Token) : Node → Prop
  | literal _ value => t.kind.isLiteral = true ∧ t.value = some (.number value)
  | var _ name => t.kind = .identifier ∧ t.lexeme = name
  | binary _ op left right => t.lexeme = "(" ∧ ∃ before l o r c after,
      tokens = before ++ t :: (l.tokens ++ o :: (r.tokens ++ c :: after)) ∧
        left.ReadFrom l ∧ right.ReadFrom r ∧ o.kind = .operator op ∧ c.kind = .rightParen
  | assign _ target name _ =>
    t.kind = .identifier ∧ t.lexeme = name ∧ target.location = t.location
  | ret .. => t.lexeme = "return"
  | block .. => t.lexeme = "\x7b"

/-- Each node of a tree stands in a text where it says, at the token that its text starts with, and
behind those nodes that come before it from the root down and from left to right. -/
structure StandsIn (source file : String) (tokens : List Token) (n : Node) : Prop where
  /-- A node has the place of a token, and at its offset the text goes on with that token. -/
  place : ∀ m ∈ n.nodes, ∃ t ∈ tokens, m.location = t.location ∧
    m.location = some (.after file (source.toList.take m.offset)) ∧ m.StartsAt tokens t ∧
    t.lexeme.toList <+: source.toList.drop m.offset
  /-- Offsets grow strictly, but for an assignment and its target. -/
  order : n.nodes.Pairwise Precedes

theorem offset_eq {n : Node} {t : Token} (h : n.location = t.location) : n.offset = t.offset := by
  rw [offset, h]
  rfl

/-- A token that starts the text of a node does so in any longer text. -/
theorem StartsAt.append {tokens : List Token} {t : Token} {n : Node} (h : n.StartsAt tokens t)
    (before after : List Token) : n.StartsAt (before ++ tokens ++ after) t := by
  cases n with
  | binary tag op left right =>
    obtain ⟨hsign, front, l, o, r, c, back, rfl, hfound⟩ := h
    refine ⟨hsign, before ++ front, l, o, r, c, back ++ after, ?_, hfound⟩
    simp only [List.append_assoc, List.cons_append]
  | _ => exact h

end Node

def Anchored (tokens : List Token) (nodes : List Node) : Prop :=
  ∀ m ∈ nodes, ∃ t ∈ tokens, m.location = t.location ∧ m.StartsAt tokens t

namespace Anchored

variable {tokens later : List Token} {t : Token} {n : Node} {nodes others : List Node}

theorem singleton (hplace : n.location = t.location) (hstart : n.StartsAt [t] t) :
    Anchored [t] [n] :=
  List.forall_mem_singleton.mpr ⟨t, List.mem_singleton_self t, hplace, hstart⟩

theorem cons (ht : t ∈ tokens) (hplace : n.location = t.location) (hstart : n.StartsAt tokens t)
    (h : Anchored tokens nodes) : Anchored tokens (n :: nodes) :=
  List.forall_mem_cons.mpr ⟨⟨t, ht, hplace, hstart⟩, h⟩

theorem append (h : Anchored tokens nodes) (ho : Anchored tokens others) :
    Anchored tokens (nodes ++ others) :=
  List.forall_mem_append.mpr ⟨h, ho⟩

theorem within (h : Anchored tokens nodes) (before after : List Token) :
    Anchored (before ++ tokens ++ after) nodes := by
  intro m hm
  obtain ⟨t, ht, hplace, hstart⟩ := h m hm
  refine ⟨t, ?_, hplace, hstart.append before after⟩
  exact List.mem_append_left _ (List.mem_append_right _ ht)

theorem exists_token (h : Anchored tokens nodes) :
    ∀ m ∈ nodes, ∃ t ∈ tokens, m.location = t.location := by
  intro m hm
  obtain ⟨t, ht, hplace, -⟩ := h m hm
  exact ⟨t, ht, hplace⟩

/-- A node at a token stands in front of nodes at later ones. -/
theorem precedes_of_location (hplace : n.location = t.location) (hl : Anchored later others)
    (horder : ∀ u ∈ later, t.offset < u.offset) : ∀ b ∈ others, n.Precedes b := by
  intro b hb
  obtain ⟨u, hu, hub, -⟩ := hl b hb
  left
  rw [Node.offset_eq hplace, Node.offset_eq hub]
  exact horder u hu

/-- Nodes at earlier tokens stand in front of nodes at later ones. -/
theorem precedes (h : Anchored tokens nodes) (hl : Anchored later others)
    (horder : ∀ t ∈ tokens, ∀ u ∈ later, t.offset < u.offset) :
    ∀ a ∈ nodes, ∀ b ∈ others, a.Precedes b := by
  intro a ha
  obtain ⟨t, ht, hplace, -⟩ := h a ha
  exact hl.precedes_of_location hplace (horder t ht)

end Anchored

section Words

/-- A token is spelled as its kind says, also where it is the one word that is no name. -/
structure Token.AsWritten (t : Token) : Prop where
  spelled : t.Spelled
  returns : t.kind = .returnWord → t.lexeme = "return"

theorem Word.kind_mem_signs {cs : List Char} {w : Word} (h : sign? cs = some w) :
    ∃ sign, (sign, w.kind) ∈ TokenKind.signs := by
  have single {c : Char}
      (hc : (TokenKind.ofSign? (.singleton c)).map (fun kind => (⟨kind, [c], none⟩ : Word)) =
        some w) : ∃ sign, (sign, w.kind) ∈ TokenKind.signs := by
    obtain ⟨k, hk, rfl⟩ := Option.map_eq_some_iff.mp hc
    exact ⟨_, TokenKind.mem_signs_of_ofSign? hk⟩
  unfold sign? at h
  split at h
  · split at h
    · rename_i k hk
      obtain rfl := Option.some.inj h
      exact ⟨_, TokenKind.mem_signs_of_ofSign? hk⟩
    · exact single h
  · exact single h
  · cases h

/-- The one word that is no name is read only where it is written. -/
theorem Word.chars_of_scan_returnWord {allowed : Bool} {c : Char} {rest : List Char} {w : Word}
    (h : scan allowed c rest = .ok w) (hw : w.kind = .returnWord) : w.chars = returnWord := by
  unfold scan at h
  split at h
  · -- a literal has another kind
    have hliteral := ofNumeral_isLiteral h
    rw [hw] at hliteral
    cases hliteral
  · split at h
    · obtain rfl := Except.ok.inj h
      by_cases hname : (c :: rest).takeWhile isNamePart = returnWord
      · rw [ofName_chars, hname]
      · rw [ofName, if_neg hname] at hw
        cases hw
    · split at h
      · -- and so has a sign
        rename_i hsign
        obtain rfl := Except.ok.inj h
        have hkinds : ∀ p ∈ TokenKind.signs, p.2 ≠ .returnWord := by decide
        obtain ⟨sign, hmem⟩ := kind_mem_signs hsign
        exact absurd hw (hkinds _ hmem)
      · split at h
        · obtain rfl := Except.ok.inj h
          cases hw
        · cases h

variable {source file : String} {tokens : List Token}

/-- A token of a text is written as its kind says, at the head of what stands behind its offset. -/
theorem asWritten_of_tokenize (h : tokenize source file = .ok tokens) {t : Token} (ht : t ∈ tokens)
    (hend : t.isEnd = false) :
    t.AsWritten ∧ t.lexeme.toList <+: source.toList.drop t.offset := by
  obtain ⟨allowed, c, rest, hdrop, hscan⟩ := scan_of_tokenize h ht hend
  refine ⟨⟨Word.scan_spelled hscan, fun hk => ?_⟩, ?_⟩
  · have hchars : t.lexeme.toList = Word.returnWord := Word.chars_of_scan_returnWord hscan hk
    exact String.toList_injective hchars
  · rw [hdrop]
    exact (Word.scan_isPrefix hscan).2

end Words

namespace Grammar

def InOrder (tokens : List Token) : Prop := tokens.Pairwise fun t u => t.offset < u.offset

theorem Terminal.kind_eq_operator (w : Terminal TokenKind.isBinary) :
    w.token.kind = .operator w.token.binaryOp := by
  have hw := w.admitted
  rw [Token.binaryOp]
  cases hk : w.token.kind with
  | operator op => rfl
  | _ =>
    rw [hk] at hw
    cases hw

namespace Expression

/-- The nodes of an expression have the places of the tokens that their texts start with. -/
theorem anchored_tree (e : Expression) (hw : ∀ t ∈ e.tokens, t.AsWritten) (next : Nat) :
    Anchored e.tokens (e.tree next).nodes := by
  induction e generalizing next with
  | literal w =>
    have hvalue := (number_of_spelled (hw _ List.mem_cons_self).spelled).1
    exact .singleton rfl ⟨w.admitted, hvalue⟩
  | var w => exact .singleton rfl ⟨w.kind_eq, rfl⟩
  | group o e c ih =>
    have hinner := ih (fun t ht => hw t (by simp [tokens, ht])) next
    exact hinner.within [o.token] [c.token]
  | binary o l op r c ihl ihr =>
    have hleft := ihl (fun t ht => hw t (by simp [tokens, ht])) next
    have hright := ihr (fun t ht => hw t (by simp [tokens, ht])) (next + l.size)
    have hopened : o.token.lexeme = "(" :=
      (hw _ List.mem_cons_self).spelled.lexeme_eq (by rw [o.kind_eq]; rfl)
    have hstart : ((binary o l op r c).tree next).StartsAt (binary o l op r c).tokens o.token :=
      ⟨hopened, [], l, op.token, r, c.token, [], rfl, ⟨l.skeleton_tree _, hleft.exists_token⟩,
        ⟨r.skeleton_tree _, hright.exists_token⟩, op.kind_eq_operator, c.kind_eq⟩
    -- the operands are phrases of their own inside of the parentheses
    refine .cons List.mem_cons_self rfl hstart (.append ?_ ?_)
    · exact hleft.within [o.token] (op.token :: (r.tokens ++ [c.token]))
    · have hwithin := hright.within (o.token :: (l.tokens ++ [op.token])) [c.token]
      simpa [tokens] using hwithin

/-- From the root down and from left to right the nodes of an expression come one behind the other.
-/
theorem pairwise_tree (e : Expression) (hw : ∀ t ∈ e.tokens, t.AsWritten) (ho : InOrder e.tokens)
    (next : Nat) : (e.tree next).nodes.Pairwise Node.Precedes := by
  induction e generalizing next with
  | literal w => exact List.pairwise_singleton _ _
  | var w => exact List.pairwise_singleton _ _
  | group o e c ih =>
    rw [InOrder, tokens, List.pairwise_cons, List.pairwise_append] at ho
    exact ih (fun t ht => hw t (by simp [tokens, ht])) ho.2.1 next
  | binary o l op r c ihl ihr =>
    have hwl : ∀ t ∈ l.tokens, t.AsWritten := fun t ht => hw t (by simp [tokens, ht])
    have hwr : ∀ t ∈ r.tokens, t.AsWritten := fun t ht => hw t (by simp [tokens, ht])
    have hleft := l.anchored_tree hwl next
    have hright := r.anchored_tree hwr (next + l.size)
    rw [InOrder, tokens, List.pairwise_cons, List.pairwise_append, List.pairwise_cons,
      List.pairwise_append] at ho
    obtain ⟨hopened, hol, ⟨-, hor, -⟩, hbetween⟩ := ho
    refine List.pairwise_cons.mpr ⟨?_, List.pairwise_append.mpr ⟨ihl hwl hol _, ihr hwr hor _, ?_⟩⟩
    -- the parenthesis comes in front of both operands
    · refine List.forall_mem_append.mpr ⟨?_, ?_⟩
      · exact hleft.precedes_of_location rfl fun u hu => hopened u (by simp [hu])
      · exact hright.precedes_of_location rfl fun u hu => hopened u (by simp [hu])
    · exact hleft.precedes hright fun t ht u hu => hbetween t ht u (by simp [hu])

end Expression

namespace Statement

mutual

theorem anchored_tree (s : Statement) (hw : ∀ t ∈ s.tokens, t.AsWritten) (outer : Option Table)
    (next nextTable : Nat) : Anchored s.tokens (s.tree outer next nextTable).nodes := by
  cases s with
  | assign n g e =>
    have hvalue := e.anchored_tree (fun t ht => hw t (by simp [tokens, ht])) next
    -- the assignment and its target start with the same name
    refine .cons List.mem_cons_self rfl ⟨n.kind_eq, rfl, rfl⟩ ?_
    refine .cons List.mem_cons_self rfl ⟨n.kind_eq, rfl⟩ ?_
    have hwithin := hvalue.within [n.token, g.token] []
    rwa [List.append_nil] at hwithin
  | ret w e =>
    have hvalue := e.anchored_tree (fun t ht => hw t (by simp [tokens, ht])) next
    refine .cons List.mem_cons_self rfl ((hw _ List.mem_cons_self).returns w.kind_eq) ?_
    have hwithin := hvalue.within [w.token] []
    rwa [List.append_nil] at hwithin
  | block o body c =>
    have hbody := anchored_trees body (fun t ht => hw t (by simp [tokens, ht]))
      (freshTable nextTable outer) next (nextTable + 1)
    have hopened : o.token.lexeme = "\x7b" :=
      (hw _ List.mem_cons_self).spelled.lexeme_eq (by rw [o.kind_eq]; rfl)
    refine .cons List.mem_cons_self rfl hopened ?_
    exact hbody.within [o.token] [c.token]

theorem anchored_trees (ss : List Statement) (hw : ∀ t ∈ allTokens ss, t.AsWritten) (table : Table)
    (next nextTable : Nat) :
    Anchored (allTokens ss) (Node.allNodes (trees table next nextTable ss)) := by
  cases ss with
  | nil => exact List.forall_mem_nil _
  | cons s rest =>
    have hs := anchored_tree s (fun t ht => hw t (by simp [allTokens, ht])) (some table) next
      nextTable
    have hrest := anchored_trees rest (fun t ht => hw t (by simp [allTokens, ht]))
      (s.declare table) (next + s.size) (nextTable + s.tables)
    refine .append (hs.within [] (allTokens rest)) ?_
    have hwithin := hrest.within s.tokens []
    rwa [List.append_nil] at hwithin

end

mutual

theorem pairwise_tree (s : Statement) (hw : ∀ t ∈ s.tokens, t.AsWritten) (ho : InOrder s.tokens)
    (outer : Option Table) (next nextTable : Nat) :
    (s.tree outer next nextTable).nodes.Pairwise Node.Precedes := by
  cases s with
  | assign n g e =>
    have hwe : ∀ t ∈ e.tokens, t.AsWritten := fun t ht => hw t (by simp [tokens, ht])
    have hvalue := e.anchored_tree hwe next
    rw [InOrder, tokens, List.pairwise_cons, List.pairwise_cons] at ho
    obtain ⟨hname, -, hoe⟩ := ho
    have hlater : ∀ u ∈ e.tokens, n.token.offset < u.offset := fun u hu => hname u (by simp [hu])
    -- the target stands where the assignment does, and the value behind both
    refine List.pairwise_cons.mpr ⟨List.forall_mem_cons.mpr ⟨?_, ?_⟩, ?_⟩
    · exact .inr ⟨rfl, _, _, _, _, rfl, rfl⟩
    · exact hvalue.precedes_of_location rfl hlater
    · refine List.pairwise_cons.mpr ⟨?_, e.pairwise_tree hwe hoe next⟩
      exact hvalue.precedes_of_location rfl hlater
  | ret w e =>
    have hwe : ∀ t ∈ e.tokens, t.AsWritten := fun t ht => hw t (by simp [tokens, ht])
    rw [InOrder, tokens, List.pairwise_cons] at ho
    refine List.pairwise_cons.mpr ⟨?_, e.pairwise_tree hwe ho.2 next⟩
    exact (e.anchored_tree hwe next).precedes_of_location rfl ho.1
  | block o body c =>
    have hwb : ∀ t ∈ allTokens body, t.AsWritten := fun t ht => hw t (by simp [tokens, ht])
    rw [InOrder, tokens, List.pairwise_cons, List.pairwise_append] at ho
    obtain ⟨hopened, hob, -⟩ := ho
    refine List.pairwise_cons.mpr ⟨?_, pairwise_trees body hwb hob _ _ _⟩
    exact (anchored_trees body hwb _ _ _).precedes_of_location rfl
      fun u hu => hopened u (by simp [hu])

theorem pairwise_trees (ss : List Statement) (hw : ∀ t ∈ allTokens ss, t.AsWritten)
    (ho : InOrder (allTokens ss)) (table : Table) (next nextTable : Nat) :
    (Node.allNodes (trees table next nextTable ss)).Pairwise Node.Precedes := by
  cases ss with
  | nil => exact .nil
  | cons s rest =>
    have hws : ∀ t ∈ s.tokens, t.AsWritten := fun t ht => hw t (by simp [allTokens, ht])
    have hwr : ∀ t ∈ allTokens rest, t.AsWritten := fun t ht => hw t (by simp [allTokens, ht])
    rw [InOrder, allTokens, List.pairwise_append] at ho
    obtain ⟨hos, hor, hbetween⟩ := ho
    refine List.pairwise_append.mpr
      ⟨pairwise_tree s hws hos _ _ _, pairwise_trees rest hwr hor _ _ _, ?_⟩
    exact (anchored_tree s hws _ _ _).precedes (anchored_trees rest hwr _ _ _) hbetween

end

end Statement

end Grammar

namespace Program

variable {limit : Nat} {source file : String} {f : Forest} {n : Node}

/-- A program that is read is the tree of a derivation of the tokens that stand in its text, each
written as its kind says. -/
theorem exists_charted_derivation
    (h : (ofSource limit .making source file f).result = .ok (some n)) :
    ∃ d : Derivation, n = d.tree f.nextNode f.nextTable ∧
      tokenize source file = .ok (d.tokens ++ [.endOfInput (some (.after file source.toList))]) ∧
      Chart file source.toList 0 d.tokens source.length ∧
      ∀ t ∈ d.tokens, t.AsWritten ∧ t.lexeme.toList <+: source.toList.drop t.offset := by
  cases ht : tokenize source file with
  | error e =>
    rw [ofSource, ht] at h
    cases h
  | ok tokens =>
    rw [ofSource_of_tokenize ht] at h
    have hcharts := tokenize_charts source file
    rw [ht] at hcharts
    obtain ⟨words, rfl, hchart⟩ := hcharts
    obtain ⟨d, hd, hspelled, hnesting⟩ := exists_spelled_derivation ht h
    obtain ⟨hresult, -⟩ := ofTokens_making_eq hd hspelled hnesting f
    -- a token of the chart is no end of the input, so the parse reads all of them
    have hends : ∀ t ∈ words, t.isEnd = false := fun t hmem => (hchart.piece t hmem).1
    rw [splitEnd_append_end hends rfl] at hd
    obtain rfl : d.tokens = words := hd
    have htree := Option.some.inj (Except.ok.inj (h.symm.trans hresult))
    refine ⟨d, htree, rfl, hchart, fun t hmem => ?_⟩
    exact asWritten_of_tokenize ht (List.mem_append_left _ hmem) (hends t hmem)

/-- The places of the nodes of a program come one behind the other, from the root down and from left
to right. -/
theorem pairwise_nodes (h : (ofSource limit .making source file f).result = .ok (some n)) :
    n.nodes.Pairwise Node.Precedes := by
  obtain ⟨d, rfl, -, hchart, hread⟩ := exists_charted_derivation h
  exact d.statement.pairwise_tree (fun t ht => (hread t ht).1) (hchart.order.imp And.left) none _ _

/-- Every node of a program that is read has the place of a token of the source text, and at its
offset the text goes on with that token: a brace for a block, the word for a return, the name for an
assignment, for its target and for a variable, the literal itself, and for an operation its own
parenthesis. The offsets grow from node to node, but for an assignment and its target. -/
theorem ofSource_standsIn (h : (ofSource limit .making source file f).result = .ok (some n)) :
    ∃ tokens, tokenize source file = .ok tokens ∧ n.StandsIn source file tokens := by
  have horder := pairwise_nodes h
  obtain ⟨d, rfl, htokens, hchart, hread⟩ := exists_charted_derivation h
  refine ⟨_, htokens, fun m hm => ?_, horder⟩
  have hwritten : ∀ t ∈ d.tokens, t.AsWritten := fun t ht => (hread t ht).1
  obtain ⟨t, ht, hplace, hstart⟩ := d.statement.anchored_tree hwritten none _ _ m hm
  have hoffset : m.offset = t.offset := Node.offset_eq hplace
  refine ⟨t, List.mem_append_left _ ht, hplace, ?_, hstart.append [] _, ?_⟩
  · rw [hplace, hoffset]
    exact hchart.place t ht
  · rw [hoffset]
    exact (hread t ht).2

/-- The sum stands at the inner one of two parentheses, and the target where its assignment does. -/
theorem ofSource_standsIn_grouped :
    ∃ n tokens, (ofSource 3 .making "\x7bx := ((1 + y))\x7breturn x\x7d\x7d" "f" .empty).result =
        .ok (some n) ∧
      n.nodes.map Node.offset = [0, 1, 1, 7, 8, 12, 15, 16, 23] ∧
      n.StandsIn "\x7bx := ((1 + y))\x7breturn x\x7d\x7d" "f" tokens := by
  let place (i : Int) : Option Location := some ⟨"f", 1, i + 1, i⟩
  let tokens : List Token :=
    [⟨.leftBrace, "\x7b", none, place 0⟩, ⟨.identifier, "x", some (.text "x"), place 1⟩,
      ⟨.assign, ":=", none, place 3⟩, ⟨.leftParen, "(", none, place 6⟩,
      ⟨.leftParen, "(", none, place 7⟩, ⟨.integer, "1", some (.number (.int 1)), place 8⟩,
      ⟨.operator .plus, "+", none, place 10⟩, ⟨.identifier, "y", some (.text "y"), place 12⟩,
      ⟨.rightParen, ")", none, place 13⟩, ⟨.rightParen, ")", none, place 14⟩,
      ⟨.leftBrace, "\x7b", none, place 15⟩, ⟨.returnWord, "return", none, place 16⟩,
      ⟨.identifier, "x", some (.text "x"), place 23⟩, ⟨.rightBrace, "\x7d", none, place 24⟩,
      ⟨.rightBrace, "\x7d", none, place 25⟩, .endOfInput (place 26)]
  let sum : Node :=
    .binary ⟨2, place 7⟩ .plus (.literal ⟨0, place 8⟩ (.int 1)) (.var ⟨1, place 12⟩ "y")
  let inner : Node :=
    .block ⟨7, place 15⟩ ⟨1, some 0, 1, .empty⟩ [.ret ⟨6, place 16⟩ (.var ⟨5, place 23⟩ "x")]
  let n : Node :=
    .block ⟨8, place 0⟩ ⟨0, none, 0, ⟨[("x", none)]⟩⟩
      [.assign ⟨4, place 1⟩ ⟨3, place 1⟩ "x" sum, inner]
  have htokens : tokenize "\x7bx := ((1 + y))\x7breturn x\x7d\x7d" "f" = .ok tokens := by
    decide +kernel
  have hn : (ofSource 3 .making "\x7bx := ((1 + y))\x7breturn x\x7d\x7d" "f" .empty).result =
      .ok (some n) := by
    rw [ofSource_of_tokenize htokens]
    rfl
  obtain ⟨tokens', -, hstands⟩ := ofSource_standsIn hn
  exact ⟨n, tokens', hn, rfl, hstands⟩

end Program

end Dec
