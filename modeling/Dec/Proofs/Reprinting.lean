import Dec.Proofs.Evaluation.Congruence
import Dec.Proofs.Flow.Congruence
import Dec.Proofs.Naming.Congruence
import Dec.Proofs.Naming.Unbound
import Dec.Proofs.RoundTrip

namespace Dec

open Grammar

section Depth

/-- A tree is nested no more deeply than the expression that it stands for: parentheses around one
expression leave no trace in it. -/
theorem Grammar.Expression.depth_tree_le (e : Expression) (next : Nat) :
    (e.tree next).depth .reading ≤ e.nesting := by
  induction e generalizing next with
  | literal w => exact Nat.le_refl _
  | var w => exact Nat.le_refl _
  | group o e c ih => exact Nat.le_succ_of_le (ih next)
  | binary o l op r c ihl ihr =>
    have hl := ihl next
    have hr := ihr (next + l.size)
    rw [tree, Node.depth, nesting]
    show _ + 1 ≤ _
    omega

namespace Grammar.Statement

mutual

theorem depth_tree_le (s : Statement) (outer : Option Table) (next nextTable : Nat) :
    (s.tree outer next nextTable).depth .reading ≤ s.nesting := by
  cases s with
  | assign n g e => exact e.depth_tree_le next
  | ret w e => exact e.depth_tree_le next
  | block o body c => exact Nat.succ_le_succ (maxDepth_trees_le body _ _ _)

theorem maxDepth_trees_le (ss : List Statement) (table : Table) (next nextTable : Nat) :
    Node.maxDepth .reading (trees table next nextTable ss) ≤ maxNesting ss := by
  cases ss with
  | nil => exact Nat.le_refl _
  | cons s rest =>
    have hs := depth_tree_le s (some table) next nextTable
    have hrest := maxDepth_trees_le rest (s.declare table) (next + s.size) (nextTable + s.tables)
    rw [trees, Node.maxDepth, maxNesting]
    omega

end

end Grammar.Statement

namespace Node

mutual

/-- A tree has no more blocks to follow than it has to read. -/
theorem flowDepth_le (n : Node) : n.flowDepth ≤ n.depth .reading * blockCost + flowCost := by
  cases n with
  | literal => exact Nat.zero_le _
  | var => exact Nat.zero_le _
  | binary => exact Nat.zero_le _
  | assign => exact Nat.le_add_left _ _
  | ret => exact Nat.le_add_left _ _
  | block tag table body =>
    have hbody := maxFlowDepth_le body
    have hblock : WalkCost.reading.block = 1 := rfl
    rw [flowDepth, depth, hblock, Nat.succ_mul]
    omega

theorem maxFlowDepth_le (body : List Node) :
    maxFlowDepth body ≤ maxDepth .reading body * blockCost + flowCost := by
  cases body with
  | nil => exact Nat.zero_le _
  | cons n rest =>
    have hn := flowDepth_le n
    have hrest := maxFlowDepth_le rest
    rw [maxFlowDepth, maxDepth, blockCost] at *
    omega

end

theorem SourceStatement.wellPlaced {n : Node} (h : n.SourceStatement) : n.wellPlaced = true := by
  induction h with
  | assign tag target hn hv => exact hv.isExpression
  | ret tag hv => exact hv.isExpression
  | @block tag table body hb ih =>
    rw [Node.wellPlaced]
    clear hb
    induction body with
    | nil => rfl
    | cons n rest ihrest =>
      obtain ⟨hn, hrest⟩ := List.forall_mem_cons.mp ih
      rw [allWellPlaced, hn, ihrest hrest]
      rfl

end Node

end Depth

/-- Two programs, each with a forest that it is analysed in, that mean the same within every budget.
-/
structure SameMeaning (f : Forest) (p : Node) (g : Forest) (q : Node) : Prop where
  /-- They have the same values, or fail alike. -/
  evaluation : ∀ budget bindings, (evaluate budget p bindings).mapError EvalFault.unplaced =
    (evaluate budget q bindings).mapError EvalFault.unplaced
  /-- They pass the analysis alike, or the same name is objected to with the same advice. -/
  naming : ∀ budget predeclared,
    (analyzeNames budget f p predeclared).1.mapError NameFault.unplaced =
      (analyzeNames budget g q predeclared).1.mapError NameFault.unplaced
  /-- Control flows through their statements alike where the budget lets it be followed. -/
  flow : ∀ budget,
    (p.flowDepth ≤ budget → ∃ a b, (p.flow budget).1 = .ok a ∧ (q.flow budget).1 = .ok b ∧
      a.Corresponds b p.statements q.statements) ∧
    (budget < p.flowDepth →
      (p.flow budget).1 = .error ⟨p.location⟩ ∧ (q.flow budget).1 = .error ⟨q.location⟩)

namespace Program

variable {limit : Nat} {source file : String} {f : Forest} {p : Node}

/-- What the making builder reads is the tree of a derivation, and the forest grows by its nodes. -/
theorem exists_tree_of_ofSource (h : (ofSource limit .making source file f).result = .ok (some p)) :
    ∃ d : Derivation, d.nesting ≤ limit ∧ p = d.tree f.nextNode f.nextTable ∧
      (ofSource limit .making source file f).forest =
        { f.grow d.size p.adoptions with nextTable := f.nextTable + d.tables } := by
  cases ht : tokenize source file with
  | error e =>
    rw [ofSource, ht] at h
    cases h
  | ok tokens =>
    rw [ofSource_of_tokenize ht] at h ⊢
    obtain ⟨d, hd, hspelled, hnesting⟩ := exists_spelled_derivation ht h
    obtain ⟨hresult, hforest, -⟩ := ofTokens_making_eq hd hspelled hnesting f
    obtain rfl := Option.some.inj (Except.ok.inj (h.symm.trans hresult))
    exact ⟨d, hnesting, rfl, hforest⟩

theorem depth_tree_le (d : Derivation) (next nextTable : Nat) :
    (d.tree next nextTable).depth .reading ≤ d.nesting := d.statement.depth_tree_le none next nextTable

/-- What is known of a tree that was read: no node occurs twice in it, its tables bind what its blocks
assign, and the forest leads from its nodes to their owners. -/
structure Hosts (f : Forest) (n : Node) : Prop where
  nodup : n.ids.Nodup
  tabled : n.Tabled
  knows : f.Knows n

/-- Programs with the same skeleton mean the same in forests where they were read. -/
theorem Hosts.sameMeaning {g : Forest} {q : Node} (hp : Hosts f p) (hq : Hosts g q)
    (hprogram : p.SourceProgram) (hskeleton : q.skeleton = p.skeleton) : SameMeaning f p g q := by
  constructor
  · intro budget bindings
    rw [evaluate_eq, evaluate_eq]
    exact (Node.eval_congr p q hskeleton budget rfl).1
  · intro budget
    obtain ⟨tag, table, body, rfl⟩ := hprogram.isBlock
    exact Node.analyzeNames_congr hprogram.statement.wellPlaced (by simp [Node.table?]) hskeleton
      hp.knows hq.knows hp.tabled hq.tabled budget
  · exact Node.flow_congr hp.nodup hq.nodup hskeleton

/-- The tree of a derivation is hosted by each forest that knows it. -/
theorem hosts_tree {d : Derivation} {next nextTable : Nat} (hk : f.Knows (d.tree next nextTable)) :
    Hosts f (d.tree next nextTable) :=
  ⟨d.nodup_ids_tree next nextTable, d.tabled_tree next nextTable, hk⟩

/-- What was read is hosted by the forest that the reading leaves. -/
theorem ofSource_hosts (h : (ofSource limit .making source file f).result = .ok (some p)) :
    Hosts (ofSource limit .making source file f).forest p := by
  obtain ⟨d, hd, rfl, hforest⟩ := exists_tree_of_ofSource h
  apply hosts_tree
  rw [hforest]
  exact Forest.knows_grow (d.nodup_ids_tree _ _) f d.size

/-- Writing keeps the meaning. A program that is read and can be written is read again from its own
source text, with any blank indentation at any level, and the copy means the same as the program
does, before the copy was read and after. -/
theorem ofSource_source_sameMeaning
    (h : (ofSource limit .making source file f).result = .ok (some p)) {indent : String}
    (hi : ∀ c ∈ indent.toList, Text.isBlank c = true) {budget : Nat} {level : Int} {text : String}
    (htext : p.source budget indent level = .ok text) (file' : String) :
    p.flowDepth ≤ limit * Node.blockCost + Node.flowCost ∧
    ∃ q, (ofSource limit .making text file' (ofSource limit .making source file f).forest).result =
        .ok (some q) ∧
      SameMeaning (ofSource limit .making source file f).forest p
        (ofSource limit .making text file' (ofSource limit .making source file f).forest).forest q ∧
      SameMeaning
        (ofSource limit .making text file' (ofSource limit .making source file f).forest).forest p
        (ofSource limit .making text file' (ofSource limit .making source file f).forest).forest
        q := by
  have hprogram := sourceProgram_of_ofSource h
  obtain ⟨d, hd, rfl, hforest⟩ := exists_tree_of_ofSource h
  generalize (ofSource limit .making source file f).forest = f₁ at hforest ⊢
  -- the text of the tree is read as the words of the tree, which have a derivation
  obtain ⟨text', hwritten, hlexes⟩ := exists_source hprogram hi level
  have hwritten := hwritten budget
  rw [htext] at hwritten
  split at hwritten
  case isFalse => cases hwritten
  obtain rfl := Except.ok.inj hwritten
  obtain ⟨ts, place, htokens, hwords, hspelled⟩ := tokenize_of_lexes hlexes file'
  obtain ⟨e, rfl, hskeleton, hnesting⟩ := exists_derivation hprogram hwords
  have he : e.nesting ≤ limit := by
    rw [hnesting]
    exact (depth_tree_le d _ _).trans hd
  have hsplit : e.tokens = (splitEnd (e.tokens ++ [.endOfInput place])).1 := by
    rw [splitEnd_of_spelled hspelled]
  obtain ⟨hresult, hforest', -⟩ := ofTokens_making_eq hsplit hspelled he f₁
  rw [ofSource_of_tokenize htokens]
  generalize (ofTokens limit .making (e.tokens ++ [.endOfInput place]) f₁).forest = f₂ at hforest' ⊢
  -- each tree is known where it was read, and the numbers of the copy are new ones
  have hknows₁ : f₁.Knows (d.tree f.nextNode f.nextTable) := by
    rw [hforest]
    exact Forest.knows_grow (d.nodup_ids_tree _ _) f d.size
  have hknows₂ : f₂.Knows (d.tree f.nextNode f.nextTable) := by
    have hnext : f₁.nextNode = f.nextNode + d.size := by rw [hforest]; rfl
    rw [hforest']
    refine hknows₁.grow (fun o ho hmem => ?_) e.size
    have hnew := e.mem_ids_tree.mp (Node.mem_ids_of_mem_adoptions ho)
    have hold := d.mem_ids_tree.mp hmem
    omega
  have hknows : f₂.Knows (e.tree f₁.nextNode f₁.nextTable) := by
    rw [hforest']
    exact Forest.knows_grow (e.nodup_ids_tree _ _) f₁ e.size
  have hsame : (e.tree f₁.nextNode f₁.nextTable).skeleton =
      (d.tree f.nextNode f.nextTable).skeleton := (e.skeleton_tree _ _).trans hskeleton
  refine ⟨?_, _, hresult, (hosts_tree hknows₁).sameMeaning (hosts_tree hknows) hprogram hsame,
    (hosts_tree hknows₂).sameMeaning (hosts_tree hknows) hprogram hsame⟩
  refine (Node.flowDepth_le _).trans (Nat.add_le_add_right (Nat.mul_le_mul_right _ ?_) _)
  exact (depth_tree_le d _ _).trans hd

/-- Parentheses around an operation are dropped. -/
theorem ofSource_source_sameMeaning_grouped :
    ∃ f p g q, (ofSource 3 .making "\x7breturn ((1 + x))\x7d" "f" .empty).result = .ok (some p) ∧
      p.source 9 "\t" 0 = .ok "\x7b\n\treturn (1 + x)\n\x7d" ∧
      (ofSource 3 .making "\x7b\n\treturn (1 + x)\n\x7d" "g" f).result = .ok (some q) ∧
      SameMeaning f p g q := by
  let place (i : Int) : Option Location := some ⟨"f", 1, i + 1, i⟩
  let tokens : List Token :=
    [⟨.leftBrace, "\x7b", none, place 0⟩, ⟨.returnWord, "return", none, place 1⟩,
      ⟨.leftParen, "(", none, place 8⟩, ⟨.leftParen, "(", none, place 9⟩,
      ⟨.integer, "1", some (.number (.int 1)), place 10⟩, ⟨.operator .plus, "+", none, place 12⟩,
      ⟨.identifier, "x", some (.text "x"), place 14⟩, ⟨.rightParen, ")", none, place 15⟩,
      ⟨.rightParen, ")", none, place 16⟩, ⟨.rightBrace, "\x7d", none, place 17⟩,
      .endOfInput (place 18)]
  let sum : Node :=
    .binary ⟨2, place 9⟩ .plus (.literal ⟨0, place 10⟩ (.int 1)) (.var ⟨1, place 14⟩ "x")
  let p : Node := .block ⟨4, place 0⟩ ⟨0, none, 0, .empty⟩ [.ret ⟨3, place 1⟩ sum]
  have htokens : tokenize "\x7breturn ((1 + x))\x7d" "f" = .ok tokens := by cbv
  have hp : (ofSource 3 .making "\x7breturn ((1 + x))\x7d" "f" .empty).result = .ok (some p) := by
    rw [ofSource_of_tokenize htokens]
    rfl
  have hindent : ∀ c ∈ "\t".toList, Text.isBlank c = true := by
    intro c hc
    obtain rfl := List.mem_singleton.mp hc
    rfl
  have htext : p.source 9 "\t" 0 = .ok "\x7b\n\treturn (1 + x)\n\x7d" := by decide +kernel
  obtain ⟨-, q, hq, hmeaning, -⟩ := ofSource_source_sameMeaning hp hindent htext "g"
  exact ⟨_, p, _, q, hp, htext, hq, hmeaning⟩

end Program

end Dec
