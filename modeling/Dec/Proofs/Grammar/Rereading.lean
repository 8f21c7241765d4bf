import Dec.Proofs.Grammar.Builders
import Dec.Proofs.Grammar.Position
import Dec.Proofs.Grammar.Renaming

namespace Dec

section Forests

open Grammar

variable (nodes tables : Nat → Nat)

def BuildFault.rename : BuildFault → BuildFault
  | .notAVariable target => .notAVariable (target.map (Node.rename nodes tables))
  | other => other

def renumbering : Renaming BuildFault (Option Node) :=
  ⟨Option.map (Node.rename nodes tables), tables, BuildFault.rename nodes tables⟩

def BuildEvent.rename (e : BuildEvent) : BuildEvent :=
  ⟨(renumbering nodes tables).creation e.request, e.location⟩

def ReadEvent.rename : ReadEvent → ReadEvent
  | .requested request => .requested (request.rename nodes tables)
  | other => other

def ReadFailure.rename : ReadFailure → ReadFailure
  | .grammar failure => .grammar ((renumbering nodes tables).failure failure)
  | .lexical error => .lexical error

/-- A forest whose next node and table have the numbers that another forest gives them, each of them
past the start of the renumbering, and whose record is that of the other forest. -/
structure Forest.Renumbered (nodes tables : Nat → Nat) (f₀ f g : Forest) : Prop where
  nextNode : g.nextNode = nodes f.nextNode
  node_le : f₀.nextNode ≤ f.nextNode
  nextTable : g.nextTable = tables f.nextTable
  table_le : f₀.nextTable ≤ f.nextTable
  record : g.record = f.record.map (BuildEvent.rename nodes tables)

namespace Forest

variable {nodes tables} {f₀ f g : Forest}

namespace Renumbered

theorem adopt (h : Renumbered nodes tables f₀ f g) (owner owner' : Owner) (child child' : Node) :
    Renumbered nodes tables f₀ (f.adopt owner child) (g.adopt owner' child') :=
  ⟨h.nextNode, h.node_le, h.nextTable, h.table_le, h.record⟩

theorem newTag (h : Renumbered nodes tables f₀ f g) (hn : Moves f₀.nextNode nodes)
    (location : Option Location) :
    (g.newTag location).1 = (f.newTag location).1.rename nodes ∧
      Renumbered nodes tables f₀ (f.newTag location).2 (g.newTag location).2 := by
  refine ⟨?_, ?_, Nat.le_succ_of_le h.node_le, h.nextTable, h.table_le, h.record⟩
  · rw [Forest.newTag, Forest.newTag, Tag.rename, h.nextNode]
  · show g.nextNode + 1 = nodes (f.nextNode + 1)
    rw [hn _ h.node_le, h.nextNode]

theorem newTable (h : Renumbered nodes tables f₀ f g) (ht : Moves f₀.nextTable tables)
    (bindings : Bindings Scalar) :
    (g.newTable none bindings).1 = (f.newTable none bindings).1.rename tables ∧
      Renumbered nodes tables f₀ (f.newTable none bindings).2 (g.newTable none bindings).2 := by
  refine ⟨?_, h.nextNode, h.node_le, ?_, Nat.le_succ_of_le h.table_le, h.record⟩
  · rw [Forest.newTable, Forest.newTable, Table.rename, h.nextTable]
    rfl
  · show g.nextTable + 1 = tables (f.nextTable + 1)
    rw [ht _ h.table_le, h.nextTable]

theorem adoptAll (h : Renumbered nodes tables f₀ f g) (owner owner' : Owner)
    (body : List (Option Node)) :
    (g.adoptAll owner' (body.map (Option.map (Node.rename nodes tables)))).1 =
        (f.adoptAll owner body).1.map (Node.renameAll nodes tables) ∧
      Renumbered nodes tables f₀ (f.adoptAll owner body).2
        (g.adoptAll owner' (body.map (Option.map (Node.rename nodes tables)))).2 := by
  induction body generalizing f g with
  | nil => exact ⟨rfl, h⟩
  | cons child rest ih =>
    cases child with
    | none => exact ⟨rfl, h⟩
    | some child =>
      obtain ⟨hrest, hrel⟩ := ih (h.adopt owner owner' child (child.rename nodes tables))
      refine ⟨?_, hrel⟩
      simp only [List.map_cons, Option.map_some, Forest.adoptAll, hrest, Option.map_map]
      rfl

end Renumbered

/-- The answer of a builder that has made a node under other numbers. -/
theorem ok_eq_answer {n m : Node} (h : m = n.rename nodes tables) :
    Except.ok (some m) = (renumbering nodes tables).answer (.ok (some n)) := by
  rw [h]
  rfl

def ofAdopted (tag : Tag) (table : Table) :
    Option (List Node) × Forest → Except BuildFault Node × Forest
  | (some body, f) => (.ok (.block tag table body), f)
  | (none, f) => (.error (.missingPart "BlockStmt" "statement"), f)

theorem ofAdopted_renumbered {tag tag' : Tag} {table table' : Table}
    {x y : Option (List Node) × Forest} (htag : tag' = tag.rename nodes)
    (htable : table' = table.rename tables) (hbody : y.1 = x.1.map (Node.renameAll nodes tables))
    (hrel : Renumbered nodes tables f₀ x.2 y.2) :
    (ofAdopted tag' table' y).1.map some =
        (renumbering nodes tables).answer ((ofAdopted tag table x).1.map some) ∧
      Renumbered nodes tables f₀ (ofAdopted tag table x).2 (ofAdopted tag' table' y).2 := by
  obtain ⟨body, f₁⟩ := x
  obtain ⟨body', g₁⟩ := y
  subst htag htable
  obtain rfl : body' = body.map (Node.renameAll nodes tables) := hbody
  cases body with
  | none => exact ⟨rfl, hrel⟩
  | some body => exact ⟨rfl, hrel⟩

/-- A renamed request is met by the renamed node, or refused for the renamed reason. -/
theorem make_renumbered (h : Renumbered nodes tables f₀ f g) (hn : Moves f₀.nextNode nodes)
    (ht : Moves f₀.nextTable tables) (location : Option Location)
    (creation : Creation (Option Node)) :
    (g.make location ((renumbering nodes tables).creation creation)).1.map some =
        (renumbering nodes tables).answer ((f.make location creation).1.map some) ∧
      Renumbered nodes tables f₀ (f.make location creation).2
        (g.make location ((renumbering nodes tables).creation creation)).2 := by
  obtain ⟨htag, hgrown⟩ := h.newTag hn location
  cases creation with
  | literal value =>
    simp only [Renaming.creation, make]
    split
    · exact ⟨ok_eq_answer (congrArg (Node.literal · _) htag), hgrown⟩
    · split
      · exact ⟨ok_eq_answer (congrArg (Node.literal · _) htag), hgrown⟩
      · exact ⟨rfl, h⟩
    · exact ⟨rfl, h⟩
  | var name => exact ⟨ok_eq_answer (congrArg (Node.var · name) htag), hgrown⟩
  | binary op left right =>
    cases left with
    | none => exact ⟨rfl, h⟩
    | some left =>
      cases right with
      | none => exact ⟨rfl, h⟩
      | some right =>
        exact ⟨ok_eq_answer (congrArg (Node.binary · op _ _) htag),
          (hgrown.adopt _ _ _ _).adopt _ _ _ _⟩
  | assign target value =>
    cases target with
    | none => exact ⟨rfl, h⟩
    | some target =>
      cases target with
      | var targetTag name =>
        cases value with
        | none => exact ⟨rfl, h⟩
        | some value =>
          obtain ⟨htag, hgrown⟩ := h.newTag hn (location <|> targetTag.location)
          exact ⟨ok_eq_answer (congrArg (Node.assign · _ name _) htag),
            (hgrown.adopt _ _ _ _).adopt _ _ _ _⟩
      | _ => exact ⟨rfl, h⟩
  | ret value =>
    cases value with
    | none => exact ⟨rfl, h⟩
    | some value =>
      exact ⟨ok_eq_answer (congrArg (Node.ret · _) htag), hgrown.adopt _ _ _ _⟩
  | block body table =>
    cases table with
    | none =>
      obtain ⟨htable, hnew⟩ := hgrown.newTable ht .empty
      obtain ⟨hbody, hadopted⟩ := hnew.adoptAll ⟨(f.newTag location).1.id,
        some ((f.newTag location).2.newTable none .empty).1⟩ ⟨(g.newTag location).1.id,
        some ((g.newTag location).2.newTable none .empty).1⟩ body
      exact ofAdopted_renumbered htag htable hbody hadopted
    | some table =>
      obtain ⟨hbody, hadopted⟩ := hgrown.adoptAll ⟨(f.newTag location).1.id, some table⟩
        ⟨(g.newTag location).1.id, some (table.rename tables)⟩ body
      exact ofAdopted_renumbered htag rfl hbody hadopted

end Forest

variable {nodes tables} {f₀ : Forest}

theorem operation_creation {ε ν : Type} (r : Renaming ε ν) (creation : Creation ν) :
    (r.creation creation).operation = creation.operation := by
  cases creation with
  | binary op left right => exact operation_binary op _ _ _ _
  | _ => rfl

/-- Each of the four builders answers alike when its nodes and tables have other numbers. -/
theorem Builder.create_consistent (b : Builder) (hn : Moves f₀.nextNode nodes)
    (ht : Moves f₀.nextTable tables) :
    Consistent b.create (renumbering nodes tables) (Forest.Renumbered nodes tables f₀) := by
  cases b with
  | making =>
    exact ⟨fun creation location f g h => (Forest.make_renumbered h hn ht location creation).1,
      fun creation location f g h => (Forest.make_renumbered h hn ht location creation).2⟩
  | skipping => exact ⟨fun creation location f g h => rfl, fun creation location f g h => h⟩
  | refusing =>
    refine ⟨fun creation location f g h => ?_, fun creation location f g h => h⟩
    simp only [create, operation_creation]
    rfl
  | recording =>
    -- the request is on record before its node is made
    have hrecord {f g : Forest} (h : Forest.Renumbered nodes tables f₀ f g)
        (creation : Creation (Option Node)) (location : Option Location) :
        Forest.Renumbered nodes tables f₀ { f with record := ⟨creation, location⟩ :: f.record }
          { g with record :=
            ⟨(renumbering nodes tables).creation creation, location⟩ :: g.record } := by
      refine ⟨h.nextNode, h.node_le, h.nextTable, h.table_le, ?_⟩
      rw [h.record, List.map_cons]
      rfl
    exact ⟨fun creation location f g h =>
        (Forest.make_renumbered (hrecord h creation location) hn ht location creation).1,
      fun creation location f g h =>
        (Forest.make_renumbered (hrecord h creation location) hn ht location creation).2⟩

end Forests

section Program

open Grammar

/-- A reading that ends where another one does and in the same way, with the same reports on its way,
up to the numbers of nodes and tables. -/
structure Reading.Repeated (nodes tables : Nat → Nat) (once again : Reading) : Prop where
  result : again.result = (once.result.map (Option.map (Node.rename nodes tables))).mapError
    (ReadFailure.rename nodes tables)
  events : again.events = once.events.map (ReadEvent.rename nodes tables)
  consumed : again.consumed = once.consumed
  openBlocks : again.openBlocks = once.openBlocks

theorem Node.location_rename (nodes tables : Nat → Nat) (n : Node) :
    (n.rename nodes tables).location = n.location := by
  cases n <;> rfl

theorem moved_moves (start start' : Nat) : Moves start (moved start start') := by
  intro n hn
  rw [moved, moved]
  omega

theorem moved_start (start start' : Nat) : moved start start' start = start' :=
  moved_add start start' 0

/-- What is reported of the requests, in order. -/
theorem map_rename_requested (nodes tables : Nat → Nat) (record : List BuildEvent) :
    (record.map (BuildEvent.rename nodes tables)).reverse.map ReadEvent.requested =
      (record.reverse.map ReadEvent.requested).map (ReadEvent.rename nodes tables) := by
  rw [← List.map_reverse, List.map_map, List.map_map]
  rfl

/-- In any other forest the same tokens are read to the same end. -/
theorem Program.ofTokens_repeated (limit : Nat) (builder : Builder) (tokens : List Token)
    (f g : Forest) :
    Reading.Repeated (moved f.nextNode g.nextNode) (moved f.nextTable g.nextTable)
      (ofTokens limit builder tokens f) (ofTokens limit builder tokens g) := by
  have hstart : Forest.Renumbered (moved f.nextNode g.nextNode) (moved f.nextTable g.nextTable) f
      { f with record := [] } { g with record := [] } :=
    ⟨(moved_start _ _).symm, Nat.le_refl _, (moved_start _ _).symm, Nat.le_refl _, rfl⟩
  have hbuilder : Consistent builder.create _ (Forest.Renumbered _ _ f) :=
    builder.create_consistent (moved_moves f.nextNode g.nextNode)
      (moved_moves f.nextTable g.nextTable)
  obtain ⟨houtcome, hrel⟩ :=
    parse_repeats limit hbuilder (moved_moves f.nextTable g.nextTable) tokens hstart
  have htable : (renumbering (moved f.nextNode g.nextNode) (moved f.nextTable g.nextTable)).table
      f.nextTable = g.nextTable := moved_start _ _
  rw [htable] at houtcome hrel
  simp only [ofTokens]
  rcases hf : parse limit builder.create tokens f.nextTable { f with record := [] } with
    ⟨⟨result, consumed, openBlocks, next⟩, grown⟩
  rcases hg : parse limit builder.create tokens g.nextTable { g with record := [] } with ⟨o, grown'⟩
  rw [hf, hg] at houtcome hrel
  obtain rfl := houtcome
  dsimp only at hrel ⊢
  cases result with
  | ok node =>
    refine ⟨rfl, ?_, rfl, rfl⟩
    have hplace : ((node.map (Node.rename (moved f.nextNode g.nextNode)
        (moved f.nextTable g.nextTable))).bind Node.location) = node.bind Node.location := by
      cases node with
      | none => rfl
      | some n => exact n.location_rename _ _
    simp only [Renaming.outcome, Renaming.result, hrel.record, map_rename_requested]
    rw [List.map_append, List.map_cons]
    exact congrArg (fun place => _ ++ [ReadEvent.finished place]) hplace
  | error failure =>
    refine ⟨rfl, ?_, rfl, rfl⟩
    simp only [Renaming.outcome, Renaming.result, hrel.record, map_rename_requested]
    rfl

end Program

namespace Grammar

section Again

variable {ε σ ν : Type} {limit : Nat}

/-- A second reading of the same tokens, which begins where the first one has left the builder and the
numbers of the tables. -/
def parseAgain (limit : Nat) (build : Answer ε σ ν) (tokens : List Token) (firstTable : Nat)
    (s : σ) : Outcome ε ν × σ :=
  let (once, s) := parse limit build tokens firstTable s
  parse limit build tokens once.nextTable s

theorem parseAgain_eq {build : Answer ε σ ν} {tokens : List Token} {firstTable : Nat} {s : σ}
    {r : Renaming ε ν} {rel : σ → σ → Prop}
    (htable : r.table = moved firstTable (parse limit build tokens firstTable s).1.nextTable)
    (hb : Consistent build r rel) (hs : rel s (parse limit build tokens firstTable s).2) :
    (parseAgain limit build tokens firstTable s).1 =
      r.outcome (parse limit build tokens firstTable s).1 := by
  have hmoves : Moves firstTable r.table := by
    rw [htable]
    exact moved_moves _ _
  have hfirst : r.table firstTable = (parse limit build tokens firstTable s).1.nextTable := by
    rw [htable, moved_start]
  have hagain := (parse_repeats limit hb hmoves tokens hs).1
  rw [hfirst] at hagain
  exact hagain

/-- For any tokens and any builder a reading keeps to the tokens up to the first end of the input, and
its place and its open blocks are right where it ends, in whatever way it does. A second reading ends
where the first one did and in the same way, up to numbers: with a builder that answers alike when it
is asked again, and with each of the four builders. -/
theorem parse_bounded_and_repeated (limit : Nat) (tokens : List Token) :
    (∀ {ε σ ν : Type} (build : Answer ε σ ν) (firstTable : Nat) (s : σ),
      Bounded limit build tokens firstTable s) ∧
    (∀ {ε σ ν : Type} (build : Answer ε σ ν) (r : Renaming ε ν) (rel : σ → σ → Prop)
      (firstTable : Nat) (s : σ),
      r.table = moved firstTable (parse limit build tokens firstTable s).1.nextTable →
      Consistent build r rel → rel s (parse limit build tokens firstTable s).2 →
      (parseAgain limit build tokens firstTable s).1 =
        r.outcome (parse limit build tokens firstTable s).1) ∧
    ∀ (builder : Builder) (f : Forest),
      Reading.Repeated (moved f.nextNode (Program.ofTokens limit builder tokens f).forest.nextNode)
        (moved f.nextTable (Program.ofTokens limit builder tokens f).forest.nextTable)
        (Program.ofTokens limit builder tokens f)
        (Program.ofTokens limit builder tokens (Program.ofTokens limit builder tokens f).forest) :=
  ⟨fun build firstTable s => parse_bounded build tokens firstTable s,
    fun _ _ _ _ _ htable hb hs => parseAgain_eq htable hb hs,
    fun builder f => Program.ofTokens_repeated limit builder tokens f _⟩

/-- A builder whose nodes are their numbers, and that refuses a block without statements. -/
def numbering : Answer Nat Nat Nat := fun creation _ next =>
  match creation with
  | .block [] _ => (.error next, next)
  | _ => (.ok next, next + 1)

theorem numbering_consistent (tables : Nat → Nat) (made : Nat) :
    Consistent numbering ⟨(· + made), tables, (· + made)⟩ fun s t => t = s + made := by
  constructor
  · rintro creation location s t rfl
    cases creation with
    | block body table => cases body <;> rfl
    | _ => rfl
  · rintro creation location s t rfl
    have hnext : s + made + 1 = s + 1 + made := Nat.add_right_comm ..
    cases creation with
    | block body table =>
      cases body with
      | nil => rfl
      | cons statement rest => exact hnext
    | _ => exact hnext

/-- The inner block is refused when it is closed already: the outer one is still open, and another
reading is refused there again. -/
theorem parse_bounded_and_repeated_inner_block :
    ∃ tokens : List Token, (∀ t ∈ tokens, t.isEnd = false) ∧
      (parse 2 numbering tokens 0 0).1.result = .error (.refused 2) ∧
      (parse 2 numbering tokens 0 0).1.Placed tokens ∧
      (parse 2 numbering tokens 0 0).1.consumed = 5 ∧
      (parse 2 numbering tokens 0 0).1.openBlocks = 1 ∧
      (parseAgain 2 numbering tokens 0 0).1.result = .error (.refused 4) ∧
      (parseAgain 2 numbering tokens 0 0).1.consumed = 5 ∧
      (parseAgain 2 numbering tokens 0 0).1.openBlocks = 1 := by
  let tokens : List Token :=
    [⟨.leftBrace, "\x7b", none, none⟩, ⟨.returnWord, "return", none, none⟩,
      ⟨.identifier, "x", none, none⟩, ⟨.leftBrace, "\x7b", none, none⟩,
      ⟨.rightBrace, "\x7d", none, none⟩, ⟨.rightBrace, "\x7d", none, none⟩]
  have hparse : parse 2 numbering tokens 0 0 = (⟨.error (.refused 2), 5, 1, 2⟩, 2) := rfl
  obtain ⟨hbounded, hagain, -⟩ := parse_bounded_and_repeated 2 tokens
  have houtcome := hagain numbering ⟨(· + 2), moved 0 2, (· + 2)⟩ (fun s t => t = s + 2) 0 0
    (by rw [hparse]) (numbering_consistent _ 2) (by rw [hparse])
  have hplaced := (hbounded numbering 0 0).placed
  rw [hparse] at houtcome
  refine ⟨tokens, by decide, ?_, hplaced, ?_, ?_, ?_, ?_, ?_⟩
  · rw [hparse]
  · rw [hparse]
  · rw [hparse]
  all_goals rw [houtcome]; rfl

end Again

end Grammar

end Dec
