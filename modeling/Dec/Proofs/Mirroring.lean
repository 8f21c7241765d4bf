import Dec.Proofs.Reprinting
import Dec.Proofs.Tree.Places

namespace Dec

namespace Bindings

variable {α : Type}

theorem setEntry_none (x : String) (names : List String) :
    setEntry x none (names.map fun y => (y, (none : Option α))) =
      (if x ∈ names then names else names ++ [x]).map fun y => (y, none) := by
  induction names with
  | nil => rfl
  | cons y rest ih =>
    rw [List.map_cons, setEntry]
    by_cases hy : y = x
    · simp [hy]
    · rw [if_neg hy, ih]
      by_cases hx : x ∈ rest
      · simp [hx]
      · simp [hx, Ne.symm hy]

/-- Names that are bound one after another are listed as they come first. -/
theorem entries_foldl_define (names : List String) :
    (names.foldl (fun b x => b.define x none) (empty : Bindings α)).entries =
      names.eraseDups.map fun x => (x, none) := by
  induction names using List.reverseRecOn with
  | nil => rfl
  | append_singleton names x ih =>
    have hlast : (names ++ [x]).eraseDups =
        if x ∈ names.eraseDups then names.eraseDups else names.eraseDups ++ [x] := by
      rw [List.eraseDups_append, List.removeAll, List.filter_singleton]
      by_cases hx : x ∈ names
      · simp [hx]
      · simp [hx, List.eraseDups_cons]
    rw [List.foldl_append, List.foldl_cons, List.foldl_nil, define, ih, setEntry_none, hlast]

end Bindings

/-- The table of a block whose statements are given and which stands inside blocks with the given
tables, the innermost first. -/
structure Table.Mirrors (table : Table) (around : List Table) (body : List Node) : Prop where
  /-- The names that the block assigns itself, each once, as they come first, and without values. -/
  entries : table.bindings.entries = (Node.assignedNames body).eraseDups.map fun x => (x, none)
  outer : table.outer = around.head?.map Table.id
  depth : table.depth = around.length

namespace Node

def tablesAround : List Nat → Node → List Table
  | [], _ => []
  | k :: path, n => (n.children[k]?.elim [] (tablesAround path)) ++ n.table?.toList

def tableId? (n : Node) : Option Nat := n.table?.map Table.id

mutual

def Mirrored (around : List Table) : Node → Prop
  | literal .. => True
  | var .. => True
  | binary _ _ left right => left.Mirrored around ∧ right.Mirrored around
  | assign _ _ _ value => value.Mirrored around
  | ret _ value => value.Mirrored around
  | block _ table body => table.Mirrors around body ∧ AllMirrored (table :: around) body

def AllMirrored (around : List Table) : List Node → Prop
  | [] => True
  | n :: rest => n.Mirrored around ∧ AllMirrored around rest

end

section Mirrored

variable {n : Node} {around : List Table}

theorem allMirrored_iff {body : List Node} :
    AllMirrored around body ↔ ∀ n ∈ body, n.Mirrored around := by
  induction body with
  | nil => simp [AllMirrored]
  | cons n rest ih => simp [AllMirrored, ih]

theorem Mirrored.child (h : n.Mirrored around) {child : Node} (hc : child ∈ n.children) :
    child.Mirrored (n.table?.toList ++ around) := by
  cases n with
  | literal => cases hc
  | var => cases hc
  | binary tag op left right =>
    rcases List.mem_pair.mp hc with rfl | rfl
    · exact h.1
    · exact h.2
  | assign tag target name value =>
    rcases List.mem_pair.mp hc with rfl | rfl
    · trivial
    · exact h
  | ret tag value =>
    obtain rfl := List.mem_singleton.mp hc
    exact h
  | block tag table body => exact allMirrored_iff.mp h.2 child hc

/-- Where all blocks of a tree are mirrored, each is, among the blocks that it stands in. -/
theorem Mirrored.at? (h : n.Mirrored around) {path : List Nat} {tag : Tag} {table : Table}
    {body : List Node} (hb : n.at? path = some (.block tag table body)) :
    table.Mirrors (n.tablesAround path ++ around) body := by
  induction path generalizing n around with
  | nil =>
    obtain rfl := Option.some.inj hb
    exact h.1
  | cons k path ih =>
    obtain ⟨child, hchild, hbelow⟩ := Option.bind_eq_some_iff.mp hb
    have hmirrors := ih (h.child (List.mem_of_getElem? hchild)) hbelow
    rw [tablesAround, hchild, Option.elim_some, List.append_assoc]
    exact hmirrors

end Mirrored

end Node

namespace Grammar

theorem Expression.mirrored_tree (e : Expression) (next : Nat) (around : List Table) :
    (e.tree next).Mirrored around := by
  induction e generalizing next with
  | literal w => trivial
  | var w => trivial
  | group o e c ih => exact ih next
  | binary o l op r c ihl ihr => exact ⟨ihl next, ihr _⟩

theorem Expression.tableIds_tree (e : Expression) (next : Nat) :
    (e.tree next).nodes.filterMap Node.tableId? = [] := by
  induction e generalizing next with
  | literal w => rfl
  | var w => rfl
  | group o e c ih => exact ih next
  | binary o l op r c ihl ihr =>
    rw [tree, Node.nodes, List.filterMap_cons_none rfl, List.filterMap_append, ihl, ihr]
    rfl

/-- Whether a statement that finds the given table around it stands inside blocks with the given
tables, the innermost first. The innermost one may bind more by then. -/
structure Chained (outer : Option Table) (around : List Table) : Prop where
  id : outer.map Table.id = around.head?.map Table.id
  depth : (outer.map (·.depth + 1)).getD 0 = around.length

namespace Statement

/-- The statements of a block add to its table what they assign, and change nothing else. -/
theorem foldl_declare_eq (ss : List Statement) (table growing : Table) (next nextTable : Nat) :
    let names := Node.assignedNames (trees growing next nextTable ss)
    ss.foldl declare table =
      { table with bindings := names.foldl (fun b x => b.define x none) table.bindings } := by
  induction ss generalizing table growing next nextTable with
  | nil => rfl
  | cons s rest ih =>
    rw [List.foldl_cons, ih (s.declare table) (s.declare growing) (next + s.size)
      (nextTable + s.tables), trees]
    cases s with
    | assign n g e => rfl
    | ret w e => rfl
    | block o body c => rfl

theorem chained_declare (s : Statement) {table : Table} {around : List Table}
    (h : Chained (some table) around) : Chained (some (s.declare table)) around := by
  cases s with
  | assign n g e => exact ⟨h.id, h.depth⟩
  | ret w e => exact h
  | block o body c => exact h

/-- The table of a block mirrors it, and is the innermost one around its statements. -/
theorem mirrors_foldl_declare (ss : List Statement) {outer : Option Table} {around : List Table}
    (h : Chained outer around) (growing : Table) (next nextTable id : Nat) :
    let table := ss.foldl declare (freshTable id outer)
    table.Mirrors around (trees growing next nextTable ss) ∧
      Chained (some (freshTable id outer)) (table :: around) := by
  rw [foldl_declare_eq ss (freshTable id outer) growing next nextTable]
  refine ⟨⟨Bindings.entries_foldl_define _, h.id, h.depth⟩, rfl, ?_⟩
  exact congrArg (· + 1) h.depth

mutual

/-- The tables in the tree of a statement mirror its blocks. -/
theorem mirrored_tree (s : Statement) {outer : Option Table} {around : List Table}
    (h : Chained outer around) (next nextTable : Nat) :
    (s.tree outer next nextTable).Mirrored around := by
  cases s with
  | assign n g e => exact e.mirrored_tree next around
  | ret w e => exact e.mirrored_tree next around
  | block o body c =>
    have htable := mirrors_foldl_declare body h (freshTable nextTable outer) next (nextTable + 1)
      nextTable
    exact ⟨htable.1, mirrored_trees body htable.2 next (nextTable + 1)⟩

theorem mirrored_trees (ss : List Statement) {table : Table} {around : List Table}
    (h : Chained (some table) around) (next nextTable : Nat) :
    Node.AllMirrored around (trees table next nextTable ss) := by
  cases ss with
  | nil => trivial
  | cons s rest => exact ⟨mirrored_tree s h _ _, mirrored_trees rest (s.chained_declare h) _ _⟩

end

mutual

/-- The tables of a statement have just the numbers that it uses up, in order. -/
theorem tableIds_tree (s : Statement) (outer : Option Table) (next nextTable : Nat) :
    (s.tree outer next nextTable).nodes.filterMap Node.tableId? =
      List.range' nextTable s.tables := by
  cases s with
  | assign n g e =>
    rw [tree, Node.nodes, List.filterMap_cons_none rfl, List.filterMap_cons_none rfl,
      e.tableIds_tree]
    rfl
  | ret w e =>
    rw [tree, Node.nodes, List.filterMap_cons_none rfl, e.tableIds_tree]
    rfl
  | block o body c =>
    have hid : Node.tableId? (tree outer next nextTable (.block o body c)) = some nextTable := by
      rw [tree, foldl_declare_eq body (freshTable nextTable outer) (freshTable nextTable outer) next
        (nextTable + 1)]
      rfl
    rw [tree] at hid ⊢
    rw [Node.nodes, List.filterMap_cons_some hid, tableIds_trees body, tables, List.range'_succ]

theorem tableIds_trees (ss : List Statement) (table : Table) (next nextTable : Nat) :
    (Node.allNodes (trees table next nextTable ss)).filterMap Node.tableId? =
      List.range' nextTable (allTables ss) := by
  cases ss with
  | nil => rfl
  | cons s rest =>
    rw [trees, Node.allNodes, allTables, range'_add, List.filterMap_append, tableIds_tree s,
      tableIds_trees rest]

end

end Statement

end Grammar

def Forest.Numbered (f : Forest) : Prop := ∀ e ∈ f.owners, e.1 < f.nextNode

structure Mirrors (f : Forest) (n : Node) : Prop where
  /-- No node occurs at two places. -/
  once : ∀ p q a b, n.at? p = some a → n.at? q = some b → a.id = b.id → p = q
  root : f.owner? n.id = none
  /-- Every other node belongs to the one that it is a child of, and is a child of no other one. -/
  owner : ∀ p k c, n.at? (p ++ [k]) = some c →
    ∃ m, n.at? p = some m ∧ c ∈ m.children ∧ f.owner? c.id = some ⟨m.id, m.table?⟩ ∧
      ∀ q m', n.at? q = some m' → (∃ c' ∈ m'.children, c'.id = c.id) → q = p
  /-- No two blocks have the same table. -/
  tables : ∀ p q a b t, n.at? p = some a → n.at? q = some b → a.tableId? = some t →
    b.tableId? = some t → p = q
  block : ∀ p tag table body, n.at? p = some (.block tag table body) →
    table.Mirrors (n.tablesAround p) body

namespace Program

open Grammar

/-- Where the nodes of a tree are known and it has each node and each table once, every node but the
root belongs to the one that it is a child of. -/
theorem owner_of_knows {f : Forest} {n : Node} (hknows : f.Knows n)
    (honce : ∀ p q a b, n.at? p = some a → n.at? q = some b → a.id = b.id → p = q)
    {p : List Nat} {k : Nat} {c : Node} (hc : n.at? (p ++ [k]) = some c) :
    ∃ m, n.at? p = some m ∧ c ∈ m.children ∧ f.owner? c.id = some ⟨m.id, m.table?⟩ ∧
      ∀ q m', n.at? q = some m' → (∃ c' ∈ m'.children, c'.id = c.id) → q = p := by
  have hstep := hc
  rw [Node.at?_concat] at hstep
  obtain ⟨m, hm, hchild⟩ := Option.bind_eq_some_iff.mp hstep
  have hmem := List.mem_of_getElem? hchild
  have howner := hknows _ (Node.mem_adoptions_of_at? hm hmem)
  refine ⟨m, hm, hmem, howner, ?_⟩
  -- as a child of another node it would stand at another place
  rintro q m' hm' ⟨c', hc', hid⟩
  obtain ⟨j, hj⟩ := List.getElem?_of_mem hc'
  have hplace : n.at? (q ++ [j]) = some c' := by
    rw [Node.at?_concat, hm', Option.bind_some, hj]
  have hsame := honce _ _ _ _ hplace hc hid
  exact (List.append_inj' hsame rfl).1

/-- The tree of a derivation is mirrored in a forest that has just taken it up, and the nodes that
belong to others are numbered then as before. -/
theorem mirrors_tree (d : Derivation) {f : Forest} (hf : f.Numbered) (nextTable : Nat) :
    Mirrors (f.grow d.size (d.tree f.nextNode nextTable).adoptions) (d.tree f.nextNode nextTable) ∧
      (f.grow d.size (d.tree f.nextNode nextTable).adoptions).Numbered := by
  have hids := d.nodup_ids_tree f.nextNode nextTable
  have hbounds : ∀ id ∈ (d.tree f.nextNode nextTable).ids,
      f.nextNode ≤ id ∧ id < f.nextNode + d.size := fun _ h => d.mem_ids_tree.mp h
  have hmirrored : (d.tree f.nextNode nextTable).Mirrored [] :=
    d.statement.mirrored_tree ⟨rfl, rfl⟩ f.nextNode nextTable
  have htables : ((d.tree f.nextNode nextTable).nodes.filterMap Node.tableId?).Nodup := by
    rw [Derivation.tree, d.statement.tableIds_tree]
    exact List.nodup_range'
  generalize d.tree f.nextNode nextTable = n at *
  have hknows := Forest.knows_grow hids f d.size
  have honce : ∀ p q a b, n.at? p = some a → n.at? q = some b → a.id = b.id → p = q := by
    intro p q a b ha hb hid
    have hkeys : (n.nodes.filterMap fun m => some m.id).Nodup := by
      rwa [List.filterMap_eq_map', ← Node.ids_eq_map_nodes]
    exact Node.at?_injective hkeys ha hb rfl (congrArg some hid.symm)
  -- the root is not among the nodes that it adopts, and it is too new to belong to an older one
  have hperm := n.ids_perm_adoptions
  have hroot : (n.adoptions ++ f.owners).lookup n.id = none := by
    have hnew : ∀ e ∈ n.adoptions, e.1 ≠ n.id := by
      rintro e he heq
      apply (List.nodup_cons.mp (hperm.nodup_iff.mp hids)).1
      exact heq ▸ List.mem_map_of_mem he
    rw [lookup_append_of_not_mem hnew, List.lookup_eq_none_iff]
    intro e he
    have hold : e.1 < f.nextNode := hf e he
    have hid := (hbounds n.id (hperm.mem_iff.mpr List.mem_cons_self)).1
    rw [bne_iff_ne]
    omega
  refine ⟨⟨honce, hroot, ?_, ?_, ?_⟩, ?_⟩
  · intro p k c hc
    exact owner_of_knows hknows honce hc
  · intro p q a b t ha hb hat hbt
    exact Node.at?_injective htables ha hb hat hbt
  · intro p tag table body hb
    have hblock := hmirrored.at? hb
    rwa [List.append_nil] at hblock
  · intro e he
    rcases List.mem_append.mp he with hnew | hold
    · exact (hbounds e.1 (Node.mem_ids_of_mem_adoptions hnew)).2
    · exact Nat.lt_add_right d.size (hf e hold)

/-- A program that was read is mirrored by its tables and by the forest that it was read into: every
node stands at one place and belongs to the node above it, and the table of every block lists what the
block assigns itself and is chained to the table of the block around it. This stays so for all
programs that are read one after another. -/
theorem ofSource_mirrors {limit : Nat} {source file : String} {f : Forest} {n : Node}
    (hf : f.Numbered) (h : (ofSource limit .making source file f).result = .ok (some n)) :
    Mirrors (ofSource limit .making source file f).forest n ∧
      (ofSource limit .making source file f).forest.Numbered := by
  obtain ⟨d, -, rfl, hforest⟩ := exists_tree_of_ofSource h
  obtain ⟨hmirrors, hnumbered⟩ := mirrors_tree d hf f.nextTable
  rw [hforest]
  exact ⟨⟨hmirrors.once, hmirrors.root, hmirrors.owner, hmirrors.tables, hmirrors.block⟩, hnumbered⟩

theorem ofSource_mirrors_nested :
    ∃ n, Forest.empty.Numbered ∧
      (ofSource 3 .making "\x7bx:=1\x7by:=x\x7dx:=2\x7d" "f" .empty).result = .ok (some n) ∧
      Mirrors (ofSource 3 .making "\x7bx:=1\x7by:=x\x7dx:=2\x7d" "f" .empty).forest n ∧
      ∃ tag outer body tag' inner body', n = .block tag outer body ∧
        n.at? [1] = some (.block tag' inner body') ∧ outer.bindings.names = ["x"] ∧
        inner.bindings.entries = [("y", none)] ∧ inner.outer = some outer.id := by
  let place (i : Int) : Option Location := some ⟨"f", 1, i + 1, i⟩
  let tokens : List Token :=
    [⟨.leftBrace, "\x7b", none, place 0⟩, ⟨.identifier, "x", some (.text "x"), place 1⟩,
      ⟨.assign, ":=", none, place 2⟩, ⟨.integer, "1", some (.number (.int 1)), place 4⟩,
      ⟨.leftBrace, "\x7b", none, place 5⟩, ⟨.identifier, "y", some (.text "y"), place 6⟩,
      ⟨.assign, ":=", none, place 7⟩, ⟨.identifier, "x", some (.text "x"), place 9⟩,
      ⟨.rightBrace, "\x7d", none, place 10⟩, ⟨.identifier, "x", some (.text "x"), place 11⟩,
      ⟨.assign, ":=", none, place 12⟩, ⟨.integer, "2", some (.number (.int 2)), place 14⟩,
      ⟨.rightBrace, "\x7d", none, place 15⟩, .endOfInput (place 16)]
  let outer : Table := ⟨0, none, 0, ⟨[("x", none)]⟩⟩
  let inner : Table := ⟨1, some 0, 1, ⟨[("y", none)]⟩⟩
  let nested : Node :=
    .block ⟨6, place 5⟩ inner [.assign ⟨5, place 6⟩ ⟨4, place 6⟩ "y" (.var ⟨3, place 9⟩ "x")]
  let n : Node := .block ⟨10, place 0⟩ outer
    [.assign ⟨2, place 1⟩ ⟨1, place 1⟩ "x" (.literal ⟨0, place 4⟩ (.int 1)), nested,
      .assign ⟨9, place 11⟩ ⟨8, place 11⟩ "x" (.literal ⟨7, place 14⟩ (.int 2))]
  have htokens : tokenize "\x7bx:=1\x7by:=x\x7dx:=2\x7d" "f" = .ok tokens := by decide +kernel
  have hn : (ofSource 3 .making "\x7bx:=1\x7by:=x\x7dx:=2\x7d" "f" .empty).result =
      .ok (some n) := by
    rw [ofSource_of_tokenize htokens]
    rfl
  have hempty : Forest.empty.Numbered := by
    intro e he
    cases he
  have hmirrors := (ofSource_mirrors hempty hn).1
  have hinner := hmirrors.block [1] _ _ _ rfl
  exact ⟨n, hempty, hn, hmirrors, _, _, _, _, _, _, rfl, rfl, rfl, hinner.entries, hinner.outer⟩

end Program

end Dec
