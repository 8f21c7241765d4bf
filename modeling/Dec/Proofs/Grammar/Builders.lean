import Dec.Proofs.Grammar.FirstFault
import Dec.Proofs.Grammar.Limits
import Dec.Proofs.Grammar.Phrases

namespace Dec

namespace Forest

section Record

variable (f : Forest) (record : List BuildEvent)

theorem adoptAll_record (owner : Owner) (body : List (Option Node)) :
    ({ f with record := record } : Forest).adoptAll owner body =
      ((f.adoptAll owner body).1, { (f.adoptAll owner body).2 with record := record }) := by
  induction body generalizing f with
  | nil => rfl
  | cons child rest ih =>
    cases child with
    | none => rfl
    | some child =>
      have hadopt : ({ f with record := record } : Forest).adopt owner child =
          { f.adopt owner child with record := record } := rfl
      rw [adoptAll, adoptAll, hadopt, ih]

/-- What is on record has no part in the making of a node. -/
theorem make_record (location : Option Location) (creation : Creation (Option Node)) :
    ({ f with record := record } : Forest).make location creation =
      ((f.make location creation).1, { (f.make location creation).2 with record := record }) := by
  cases creation with
  | literal value =>
    simp only [make]
    split
    · rfl
    · split <;> rfl
    · rfl
  | var name => rfl
  | binary op left right => cases left <;> cases right <;> rfl
  | assign target value =>
    simp only [make]
    split <;> rfl
  | ret value => cases value <;> rfl
  | block body table =>
    have hadopt (g : Forest) (owner : Owner) := g.adoptAll_record record owner body
    cases table with
    | none =>
      have hnew := hadopt ((f.newTag location).2.newTable none .empty).2
        ⟨f.nextNode, some ((f.newTag location).2.newTable none .empty).1⟩
      simp only [make, newTag, newTable] at hnew ⊢
      rw [hnew]
      generalize adoptAll _ _ body = adopted
      rcases adopted with ⟨_ | nodes, f₁⟩ <;> rfl
    | some table =>
      have hnew := hadopt (f.newTag location).2 ⟨f.nextNode, some table⟩
      simp only [make, newTag] at hnew ⊢
      rw [hnew]
      generalize adoptAll _ _ body = adopted
      rcases adopted with ⟨_ | nodes, f₁⟩ <;> rfl

end Record

end Forest

namespace Program

def calls (limit : Nat) (tokens : List Token) (f : Forest) : List (Creation (Option Node)) :=
  (Grammar.parse limit (Grammar.noting (Builder.create .making)) tokens f.nextTable
    ([], { f with record := [] })).2.1

end Program

namespace Grammar

variable {ε σ ν : Type} (limit : Nat) {tokens : List Token} {f : Forest}

/-- The program that is read is an answer of the builder. -/
theorem answer_of_reading {limit : Nat} {build : Answer ε σ ν} {answered : ν → Prop}
    (hanswers : ∀ creation location s v s', build creation location s = (.ok v, s') → answered v)
    {firstTable : Nat} {s : σ} {v : ν} (h : (reading limit build tokens firstTable s).1 = .ok v) :
    answered v := by
  rw [← parse_eq_reading] at h
  obtain ⟨d, -, next, s', hread⟩ := exists_derivation_of_parse h
  -- the last request is that for the program
  obtain ⟨-, hread⟩ := within_eq_ok hread
  obtain ⟨body, s₁, -, hread⟩ := bind_eq_ok hread
  obtain ⟨node, s₂, hnode, hread⟩ := bind_eq_ok hread
  obtain ⟨hresult, -⟩ := pure_eq_ok hread
  obtain rfl := (Prod.mk.inj hresult).1
  rw [request] at hnode
  rcases hrun : build (.block body.1 (some body.2.1)) d.opened.token.location s₁ with ⟨reason | w, s₃⟩
  · rw [hrun] at hnode
    cases hnode
  · rw [hrun] at hnode
    cases hnode
    exact hanswers _ _ _ _ _ hrun

/-- On the tokens of a text the making builder meets every request. -/
theorem reading_making_granted {source file : String} (h : tokenize source file = .ok tokens)
    (firstTable : Nat) :
    Granted (fun _ => True) (reading limit (Builder.create .making) tokens firstTable) := by
  obtain ⟨ts, place, rfl, hts⟩ := tokenize_eq_ok h
  rw [reading, splitEnd_of_spelled hts]
  refine Ends.bind (steps_granted (initial_made _) hts) fun c _ => ?_
  split
  · exact Ends.pure trivial
  · exact Ends.throw ⟨_, rfl⟩

/-- Noting the requests does not change the reading. -/
theorem noting_reading (build : Answer ε σ ν) (tokens : List Token) (firstTable : Nat)
    (noted : List (Creation ν)) (s : σ) :
    (reading limit (noting build) tokens firstTable (noted, s)).1 =
      (reading limit build tokens firstTable s).1 := by
  have hanswers : ∀ creation location (p : List (Creation ν) × σ) (s : σ), p.2 = s →
      (noting build creation location p).1 = (build creation location s).1 ∧
        (noting build creation location p).2.2 = (build creation location s).2 := by
    rintro creation location p s rfl
    exact ⟨rfl, rfl⟩
  exact ((reading_alike limit tokens firstTable firstTable).sameAnswers hanswers rfl).1

/-- The recording builder makes what the making builder makes. -/
theorem recording_reading (tokens : List Token) (firstTable : Nat) (f : Forest) :
    (reading limit (Builder.create .recording) tokens firstTable f).1 =
      (reading limit (Builder.create .making) tokens firstTable f).1 := by
  have hanswers : ∀ creation location (g f : Forest), g = { f with record := g.record } →
      (Builder.create .recording creation location g).1 =
          (Builder.create .making creation location f).1 ∧
        (Builder.create .recording creation location g).2 =
          { (Builder.create .making creation location f).2 with
            record := (Builder.create .recording creation location g).2.record } := by
    intro creation location g f hg
    have hrecord : ({ g with record := ⟨creation, location⟩ :: g.record } : Forest) =
        { f with record := ⟨creation, location⟩ :: g.record } := by rw [hg]
    simp only [Builder.create]
    rw [hrecord, Forest.make_record]
    exact ⟨rfl, rfl⟩
  exact ((reading_alike limit tokens firstTable firstTable).sameAnswers hanswers rfl).1

section Agreement

/-- An identity moved on with the start of the numbering. -/
def moved (start start' : Nat) (id : Nat) : Nat := id - start + start'

theorem moved_add (start start' i : Nat) : moved start start' (start + i) = start' + i := by
  rw [moved]
  omega

/-- How the four builders agree on tokens, each within a limit of its own, the making one in the
forest `f` and the others in `g`. Where one of two readings is given up for its depth the other may
go on. -/
structure BuildersAgree (limit : Builder → Nat) (tokens : List Token) (f g : Forest) : Prop where
  /-- There is a tree, or a fault of the syntax. -/
  making : (∃ n, (Program.ofTokens (limit .making) .making tokens f).result = .ok (some n)) ∨
    ∃ fault, (Program.ofTokens (limit .making) .making tokens f).result =
      .error (.grammar (.fault fault))
  /-- Without any nodes the end is the same. -/
  skipping : ¬ Program.TooDeep (Program.ofTokens (limit .skipping) .skipping tokens g).result →
    ¬ Program.TooDeep (Program.ofTokens (limit .making) .making tokens f).result →
    (Program.ofTokens (limit .skipping) .skipping tokens g).result =
      (Program.ofTokens (limit .making) .making tokens f).result.map fun _ => none
  /-- The tree that is made for the record is the same up to where the numbering starts. -/
  recording : ¬ Program.TooDeep (Program.ofTokens (limit .recording) .recording tokens g).result →
    ¬ Program.TooDeep (Program.ofTokens (limit .making) .making tokens f).result →
    (Program.ofTokens (limit .recording) .recording tokens g).result =
      (Program.ofTokens (limit .making) .making tokens f).result.map
        (Option.map (Node.rename (moved f.nextNode g.nextNode) (moved f.nextTable g.nextTable)))
  /-- The two trees have the same shape where the comparison does not go too deep. -/
  sameShape : ∀ budget n m,
    (Program.ofTokens (limit .making) .making tokens f).result = .ok (some n) →
    (Program.ofTokens (limit .recording) .recording tokens g).result = .ok (some m) →
    n.depth .comparing ≤ budget → Node.sameShape? budget (some m) (some n) = some true
  /-- The first request is refused, and if there is none the fault is the same. -/
  refusing : ¬ Program.TooDeep (Program.ofTokens (limit .refusing) .refusing tokens g).result →
    match Program.calls (limit .making) tokens f with
    | call :: _ => (Program.ofTokens (limit .refusing) .refusing tokens g).result =
        .error (.grammar (.refused (.refused call.operation)))
    | [] => ¬ Program.TooDeep (Program.ofTokens (limit .making) .making tokens f).result →
        (Program.ofTokens (limit .refusing) .refusing tokens g).result =
          (Program.ofTokens (limit .making) .making tokens f).result
  /-- No tree is made without a request. -/
  asked : (∃ n, (Program.ofTokens (limit .making) .making tokens f).result = .ok n) →
    Program.calls (limit .making) tokens f ≠ []

variable {source file : String}

/-- What the making builder reads in any forest is the tree of one derivation. -/
theorem exists_tree_of_making {limit : Nat} (h : tokenize source file = .ok tokens)
    {n : Option Node} (hn : (Program.ofTokens limit .making tokens f).result = .ok n) :
    ∃ d : Derivation, (∀ t ∈ d.tokens, t.Spelled) ∧
      n = some (d.tree f.nextNode f.nextTable) ∧
      ∀ g : Forest, (Program.ofTokens limit .making tokens g).result =
        .ok (some (d.tree g.nextNode g.nextTable)) := by
  obtain ⟨d, hd, hspelled, hnesting⟩ := exists_spelled_derivation h hn
  have hread (g : Forest) := (ofTokens_making_eq hd hspelled hnesting g).1
  exact ⟨d, hspelled, Except.ok.inj (hn.symm.trans (hread f)), hread⟩

/-- The skipping builder comes to the same end as the making one, with nothing made. -/
theorem skipping_result (h : tokenize source file = .ok tokens) (f g : Forest) :
    (Program.ofTokens limit .skipping tokens g).result =
      (Program.ofTokens limit .making tokens f).result.map fun _ => none := by
  rw [ofTokens_result_eq_reading, ofTokens_result_eq_reading]
  have hgranted := reading_making_granted limit h f.nextTable { f with record := [] }
  have hmeets : ∀ creation location (g : Forest), ∃ w g',
      Builder.create .skipping creation location g = (.ok w, g') :=
    fun _ _ g => ⟨none, g, rfl⟩
  have hnothing : ∀ creation location (g : Forest) v g',
      Builder.create .skipping creation location g = (.ok v, g') → v = none := by
    rintro creation location g v g' ⟨⟩
    rfl
  have hend : (∃ reason, (reading limit (Builder.create .making) tokens f.nextTable
        { f with record := [] }).1 = .error (.refused reason)) ∨
      SameEnd (fun _ _ => True)
        (reading limit (Builder.create .making) tokens f.nextTable { f with record := [] }).1
        (reading limit (Builder.create .skipping) tokens g.nextTable { g with record := [] }).1 :=
    (reading_alike limit tokens f.nextTable g.nextTable).follows hmeets _ _
  generalize (reading limit (Builder.create .making) tokens f.nextTable
    { f with record := [] }).1 = made at hgranted hend ⊢
  rcases hend with ⟨reason, rfl⟩ | hend
  · obtain ⟨fault, hfault⟩ := hgranted
    cases hfault
  · rcases hskipped : (reading limit (Builder.create .skipping) tokens g.nextTable
      { g with record := [] }).1 with failure | w
    · rw [hskipped] at hend
      cases hend <;> rfl
    · obtain rfl := answer_of_reading hnothing hskipped
      rw [hskipped] at hend
      cases hend
      rfl

/-- In one forest the recording builder makes the very tree that the making builder makes. -/
theorem recording_result (tokens : List Token) (f : Forest) :
    (Program.ofTokens limit .recording tokens f).result =
      (Program.ofTokens limit .making tokens f).result := by
  rw [ofTokens_result_eq_reading, ofTokens_result_eq_reading, recording_reading]

theorem calls_eq (tokens : List Token) (f : Forest) :
    Program.calls limit tokens f =
      (reading limit (noting (Builder.create .making)) tokens f.nextTable
        ([], { f with record := [] })).2.1 := by
  rw [Program.calls, ← parse_eq_reading]

/-- The refusing builder refuses the first request that the making builder gets. -/
theorem refusing_result (tokens : List Token) (f g : Forest) :
    match Program.calls limit tokens f with
    | call :: _ => (Program.ofTokens limit .refusing tokens g).result =
        .error (.grammar (.refused (.refused call.operation)))
    | [] => ∃ failure,
        (Program.ofTokens limit .refusing tokens g).result = .error (.grammar failure) ∧
        (Program.ofTokens limit .making tokens f).result = .error (.grammar failure) := by
  have hrefuses : ∀ creation location (g : Forest),
      Builder.create .refusing creation location g =
        (.error (BuildFault.refused creation.operation), g) := fun _ _ _ => rfl
  have hnever : ∀ creation location (g : Forest) v g',
      Builder.create .refusing creation location g = (.ok v, g') → False := by
    rintro creation location g v g' ⟨⟩
  have hend := (reading_alike limit tokens f.nextTable g.nextTable).refuses (Builder.create .making)
    hrefuses { f with record := [] } { g with record := [] }
  rw [noting_reading, ← calls_eq] at hend
  rw [ofTokens_result_eq_reading, ofTokens_result_eq_reading]
  rcases hcalls : Program.calls limit tokens f with _ | ⟨call, calls⟩
  · rw [hcalls] at hend
    rcases hrefused : (reading limit (Builder.create .refusing) tokens g.nextTable
      { g with record := [] }).1 with failure | v
    · dsimp only at hend
      rw [hrefused] at hend
      generalize (reading limit (Builder.create .making) tokens f.nextTable
        { f with record := [] }).1 = made at hend
      cases hend <;> exact ⟨_, rfl, rfl⟩
    · exact (answer_of_reading hnever hrefused).elim
  · rw [hcalls] at hend
    dsimp only at hend
    rw [hend]
    rfl

/-- On the tokens of a text the making builder fails for a fault of the syntax only. -/
theorem making_result_eq_error {limit : Nat} (h : tokenize source file = .ok tokens)
    {failure : ReadFailure}
    (hmade : (Program.ofTokens limit .making tokens f).result = .error failure) :
    ∃ fault, failure = .grammar (.fault fault) := by
  rw [ofTokens_result_eq_reading] at hmade
  have hgranted := reading_making_granted limit h f.nextTable { f with record := [] }
  rcases hread : (reading limit (Builder.create .making) tokens f.nextTable
    { f with record := [] }).1 with reason | v
  · rw [hread] at hgranted hmade
    obtain ⟨fault, rfl⟩ := hgranted
    exact ⟨fault, (Except.error.inj hmade).symm⟩
  · rw [hread] at hmade
    cases hmade

/-- In another forest the making builder comes to the same end, and the numbering of its tree starts
where that forest's does. -/
theorem making_result_moved (h : tokenize source file = .ok tokens) (f g : Forest) :
    (Program.ofTokens limit .making tokens g).result =
      (Program.ofTokens limit .making tokens f).result.map
        (Option.map
          (Node.rename (moved f.nextNode g.nextNode) (moved f.nextTable g.nextTable))) := by
  rcases hmade : (Program.ofTokens limit .making tokens f).result with failure | n
  · -- skipping goes by making in either of the two forests
    have hsame := (skipping_result limit h g f).symm.trans (skipping_result limit h f f)
    rw [hmade] at hsame
    rcases hg : (Program.ofTokens limit .making tokens g).result with failure | n
    · rw [hg] at hsame
      exact hsame
    · rw [hg] at hsame
      cases hsame
  · obtain ⟨d, -, rfl, hread⟩ := exists_tree_of_making h hmade
    rw [hread g, Except.map, Option.map, d.rename_tree (moved_add _ _) (moved_add _ _)]

/-- A program that is read asks for a node. -/
theorem calls_ne_nil {limit : Nat} {n : Option Node}
    (h : (Program.ofTokens limit .making tokens f).result = .ok n) :
    Program.calls limit tokens f ≠ [] := by
  intro hcalls
  have hrefusing := refusing_result limit tokens f f
  rw [hcalls] at hrefusing
  obtain ⟨failure, -, hfailure⟩ := hrefusing
  rw [h] at hfailure
  cases hfailure

/-- The reading does not depend on the builder but for how deep it may go. On the tokens of a text,
making ends with a tree or with a fault of the syntax; skipping ends in the same way, recording
makes the same tree, and refusing stops at the first request, if there is one before the fault. -/
theorem ofTokens_builders_agree (h : tokenize source file = .ok tokens) (limit : Builder → Nat)
    (f g : Forest) : BuildersAgree limit tokens f g := by
  -- a reading within its own limit is the one within a limit above all four
  obtain ⟨top, htop⟩ : ∃ top, ∀ builder, limit builder ≤ top := by
    refine ⟨limit .making + limit .skipping + limit .recording + limit .refusing, ?_⟩
    intro builder
    cases builder <;> omega
  have hup (builder : Builder) (f : Forest) :=
    Program.ofTokens_result_of_le (htop builder) builder tokens f
  constructor
  · rcases hmade : (Program.ofTokens (limit .making) .making tokens f).result with failure | n
    · obtain ⟨fault, rfl⟩ := making_result_eq_error h hmade
      exact .inr ⟨fault, rfl⟩
    · obtain ⟨d, -, rfl, -⟩ := exists_tree_of_making h hmade
      exact .inl ⟨_, rfl⟩
  · intro hs hm
    rw [(hup .skipping g).resolve_left hs, (hup .making f).resolve_left hm]
    exact skipping_result top h f g
  · intro hr hm
    rw [(hup .recording g).resolve_left hr, (hup .making f).resolve_left hm, recording_result]
    exact making_result_moved top h f g
  · intro budget n m hn hm hdepth
    have hn := Program.ofTokens_result_ok_of_le (htop .making) hn
    have hm := Program.ofTokens_result_ok_of_le (htop .recording) hm
    obtain ⟨d, hspelled, hd, hread⟩ := exists_tree_of_making h hn
    rw [recording_result, hread g] at hm
    cases hd
    cases hm
    have hprogram := d.sourceProgram hspelled (d.skeleton_tree f.nextNode f.nextTable)
    have hskeleton := (d.skeleton_tree g.nextNode g.nextTable).trans
      (d.skeleton_tree f.nextNode f.nextTable).symm
    exact (hprogram.statement.alike_eq hskeleton budget).trans (if_pos hdepth)
  · intro hr
    have hrefusing := refusing_result (limit .making) tokens f g
    have htop := Program.ofTokens_result_of_le (htop .making) .refusing tokens g
    rcases hcalls : Program.calls (limit .making) tokens f with _ | ⟨call, calls⟩
    · rw [hcalls] at hrefusing
      obtain ⟨failure, hrefused, hfailure⟩ := hrefusing
      intro hm
      rw [hrefused, ← hfailure] at htop
      rw [(hup .refusing g).resolve_left hr, htop.resolve_left hm]
    · rw [hcalls] at hrefusing
      rw [hrefusing] at htop
      rw [(hup .refusing g).resolve_left hr]
      refine (htop.resolve_left ?_).symm
      rintro ⟨t, ht⟩
      cases ht
  · rintro ⟨n, hn⟩
    exact calls_ne_nil hn

/-- The fault is found after the request for one literal. -/
theorem ofTokens_builders_agree_missing_operand :
    ∃ tokens fault, tokenize "\x7breturn (1 + )\x7d" "f" = .ok tokens ∧
      (Program.ofTokens (Program.usualLimit .making) .making tokens .empty).result =
        .error (.grammar (.fault fault)) ∧
      (Program.ofTokens (Program.usualLimit .skipping) .skipping tokens .empty).result =
        .error (.grammar (.fault fault)) ∧
      (Program.ofTokens (Program.usualLimit .recording) .recording tokens .empty).result =
        .error (.grammar (.fault fault)) ∧
      (Program.ofTokens (Program.usualLimit .refusing) .refusing tokens .empty).result =
        .error (.grammar (.refused (.refused "create_literal_node"))) := by
  let place (i : Int) : Option Location := some ⟨"f", 1, i + 1, i⟩
  let tokens : List Token :=
    [⟨.leftBrace, "\x7b", none, place 0⟩, ⟨.returnWord, "return", none, place 1⟩,
      ⟨.leftParen, "(", none, place 8⟩, ⟨.integer, "1", some (.number (.int 1)), place 9⟩,
      ⟨.operator .plus, "+", none, place 11⟩, ⟨.rightParen, ")", none, place 13⟩,
      ⟨.rightBrace, "\x7d", none, place 14⟩, .endOfInput (place 15)]
  have h : tokenize "\x7breturn (1 + )\x7d" "f" = .ok tokens := by cbv
  have hmade : (Program.ofTokens (Program.usualLimit .making) .making tokens .empty).result =
      .error (.grammar (.fault (.noExpression ⟨.rightParen, ")", none, place 13⟩))) := by rfl
  have hcalls : Program.calls (Program.usualLimit .making) tokens .empty =
      [.literal (some (.number (.int 1)))] := by rfl
  have hshallow (builder : Builder) : ¬ Program.TooDeep
      (Program.ofTokens (Program.usualLimit builder) builder tokens .empty).result := by
    rintro ⟨t, ht⟩
    cases builder <;> cases ht
  obtain ⟨-, hskipping, hrecording, -, hrefusing, -⟩ :=
    ofTokens_builders_agree h Program.usualLimit .empty .empty
  have hskipped := hskipping (hshallow .skipping) (hshallow .making)
  have hrecorded := hrecording (hshallow .recording) (hshallow .making)
  have hrefused := hrefusing (hshallow .refusing)
  rw [hmade] at hskipped hrecorded
  rw [hcalls] at hrefused
  exact ⟨tokens, _, h, hmade, hskipped, hrecorded, hrefused⟩

def nestedSum : Nat → Node
  | 0 => .literal default (.int 1)
  | k + 1 => .binary default .plus (nestedSum k) (.literal default (.int 1))

def nestedSumText : Nat → String
  | 0 => "1"
  | k + 1 => "(" ++ nestedSumText k ++ " + 1)"

theorem writable_one : (Number.int 1).Writable := by
  have hpow : 10 ≤ 10 ^ maxIntegerDigits := Nat.le_self_pow (by decide) 10
  rw [Number.Writable]
  exact Nat.lt_of_lt_of_le (by decide) hpow

theorem nestedSum_sourceExpression (k : Nat) : (nestedSum k).SourceExpression := by
  induction k with
  | zero => exact .literal default writable_one
  | succ k ih => exact .binary default .plus ih (.literal default writable_one)

theorem nestedSum_depth (k : Nat) : (nestedSum k).depth .reading = k := by
  induction k with
  | zero => rfl
  | succ k ih => rw [nestedSum, Node.depth, ih, Node.depth, Nat.max_zero, WalkCost.reading]

theorem nestedSumText_readsAs (k : Nat) : ReadsAs true (nestedSumText k) (nestedSum k).words := by
  have htext : (Number.int 1).text? = some "1" := by
    have hlong : Int.natAbs 1 < 10 ^ maxIntegerDigits := writable_one
    rw [Number.text?, decimalText?, if_pos hlong]
    rfl
  have hone : ReadsAs true "1" [(Number.int 1).literal] := .literal writable_one htext
  induction k with
  | zero => exact hone
  | succ k ih =>
    have hsum := ReadsAs.binary ih hone .plus
    simpa [nestedSumText, nestedSum, Node.words, BinaryOp.symbol, String.append_assoc] using hsum

/-- The program that returns such a sum is nested one level deeper. -/
theorem nestedSum_derivation (k : Nat) :
    ∃ tokens, tokenize ("\x7breturn " ++ nestedSumText k ++ " \x7d") "f" = .ok tokens ∧
      ∃ d : Derivation, d.tokens = (splitEnd tokens).1 ∧ (∀ t ∈ d.tokens, t.Spelled) ∧
        d.nesting = k + 1 := by
  have hprogram : (Node.block default default [.ret default (nestedSum k)]).SourceProgram := by
    refine ⟨.block default default ?_, default, default, _, rfl⟩
    exact List.forall_mem_singleton.mpr (.ret default (nestedSum_sourceExpression k))
  have hlexes : Lexes true ("\x7breturn " ++ nestedSumText k ++ " \x7d").toList
      (Node.block default default [.ret default (nestedSum k)]).words := by
    have hfront : ∀ c ∈ "".toList, Text.isBlank c = true := by simp
    have hend (allowed : Bool) : Lexes allowed ['\x7d'] [.ofSign .rightBrace] :=
      .rightBrace (.nil _)
    have hret := ReadsAs.ret hfront (nestedSumText_readsAs k) true (EndsWord.space _)
      fun allowed => (hend allowed).space
    simpa [String.toList_append, Node.words, Node.allWords] using Lexes.leftBrace hret
  obtain ⟨ts, place, htokens, hwords, hspelled⟩ := tokenize_of_lexes hlexes "f"
  obtain ⟨d, rfl, -, hnesting⟩ := exists_derivation hprogram hwords
  refine ⟨_, htokens, d, ?_, hspelled, ?_⟩
  · rw [splitEnd_of_spelled hspelled]
  · rw [hnesting, Node.depth, Node.maxDepth, Node.maxDepth, Node.depth, nestedSum_depth,
      Nat.max_zero]
    rfl

/-- The sum within 491 others is read without nodes, but not with nodes. -/
theorem nestedSum_skipped_only :
    ∃ tokens, tokenize ("\x7breturn " ++ nestedSumText 491 ++ " \x7d") "f" = .ok tokens ∧
      (Program.ofTokens (Program.usualLimit .skipping) .skipping tokens .empty).result = .ok none ∧
      ¬ ∃ n,
        (Program.ofTokens (Program.usualLimit .making) .making tokens .empty).result = .ok n := by
  obtain ⟨tokens, h, d, hd, hspelled, hnesting⟩ := nestedSum_derivation 491
  refine ⟨tokens, h, ?_, ?_⟩
  · have hwithin : d.nesting ≤ Program.usualLimit .skipping := by
      rw [hnesting]
      decide
    rw [skipping_result _ h .empty .empty, (ofTokens_making_eq hd hspelled hwithin .empty).1]
    rfl
  · rintro ⟨n, hn⟩
    obtain ⟨d', hd', hnesting'⟩ := exists_derivation_of_ofTokens hn
    obtain rfl := Derivation.tokens_injective (hd'.trans hd.symm)
    rw [hnesting] at hnesting'
    exact absurd hnesting' (by decide)

end Agreement

end Grammar

end Dec
