import Dec.Proofs.Grammar.Descent
import Dec.Proofs.Scope.Lookup
import Dec.Proofs.Tree.Adoption
import Mathlib.Data.List.Range

namespace Dec

open scoped List

section Renaming

def Table.rename (tables : Nat → Nat) (t : Table) : Table :=
  { t with id := tables t.id, outer := t.outer.map tables }

def Tag.rename (nodes : Nat → Nat) (t : Tag) : Tag := { t with id := nodes t.id }

namespace Node

mutual

def rename (nodes tables : Nat → Nat) : Node → Node
  | literal tag value => .literal (tag.rename nodes) value
  | var tag name => .var (tag.rename nodes) name
  | binary tag op left right =>
    .binary (tag.rename nodes) op (left.rename nodes tables) (right.rename nodes tables)
  | assign tag target name value =>
    .assign (tag.rename nodes) (target.rename nodes) name (value.rename nodes tables)
  | ret tag value => .ret (tag.rename nodes) (value.rename nodes tables)
  | block tag table body =>
    .block (tag.rename nodes) (table.rename tables) (renameAll nodes tables body)

def renameAll (nodes tables : Nat → Nat) : List Node → List Node
  | [] => []
  | n :: rest => n.rename nodes tables :: renameAll nodes tables rest

end

end Node

end Renaming

namespace Node

def assignedNames (body : List Node) : List String :=
  body.filterMap fun n =>
    match n with
    | assign _ _ name _ => some name
    | _ => none

mutual

def Tabled : Node → Prop
  | literal .. => True
  | var .. => True
  | binary _ _ left right => left.Tabled ∧ right.Tabled
  | assign _ _ _ value => value.Tabled
  | ret _ value => value.Tabled
  | block _ table body =>
    (∀ x, table.bindings.contains x = true ↔ x ∈ assignedNames body) ∧ AllTabled body

def AllTabled : List Node → Prop
  | [] => True
  | n :: rest => n.Tabled ∧ AllTabled rest

end

theorem AllTabled.tabled {body : List Node} (h : AllTabled body) : ∀ n ∈ body, n.Tabled := by
  induction body with
  | nil => exact List.forall_mem_nil _
  | cons n rest ih => exact List.forall_mem_cons.mpr ⟨h.1, ih h.2⟩

end Node

/-- Numbers that are used up one after another. -/
theorem range'_add (start m n : Nat) :
    List.range' start (m + n) = List.range' start m ++ List.range' (start + m) n := by
  rw [List.range'_append_1]

namespace Grammar

namespace Expression

def size : Expression → Nat
  | literal _ => 1
  | var _ => 1
  | group _ inner _ => inner.size
  | binary _ left _ right _ => left.size + right.size + 1

def tree (next : Nat) : Expression → Node
  | literal word => .literal ⟨next, word.token.location⟩ word.token.number
  | var word => .var ⟨next, word.token.location⟩ word.token.lexeme
  | group _ inner _ => inner.tree next
  | binary opened left operator right _ =>
    .binary ⟨next + (left.size + right.size), opened.token.location⟩ operator.token.binaryOp
      (left.tree next) (right.tree (next + left.size))

theorem skeleton_tree (e : Expression) (next : Nat) : (e.tree next).skeleton = e.skeleton := by
  induction e generalizing next with
  | literal w => rfl
  | var w => rfl
  | group o e c ih => exact ih next
  | binary o l op r c ihl ihr => rw [tree, Node.skeleton, ihl, ihr, skeleton]

/-- The nodes of an expression have just the numbers that it uses up. -/
theorem ids_tree (e : Expression) (next : Nat) :
    (e.tree next).ids ~ List.range' next e.size := by
  induction e generalizing next with
  | literal w => exact .refl _
  | var w => exact .refl _
  | group o e c ih => exact ih next
  | binary o l op r c ihl ihr =>
    -- the node itself has the last number
    rw [tree, Node.ids, size, range'_add, range'_add]
    exact (((ihl next).append (ihr _)).cons _).trans (List.perm_append_singleton _ _).symm

theorem tabled_tree (e : Expression) (next : Nat) : (e.tree next).Tabled := by
  induction e generalizing next with
  | literal w => trivial
  | var w => trivial
  | group o e c ih => exact ih next
  | binary o l op r c ihl ihr => exact ⟨ihl next, ihr _⟩

theorem rename_tree (e : Expression) {nodes : Nat → Nat} {next next' : Nat}
    (h : ∀ i, nodes (next + i) = next' + i) (tables : Nat → Nat) :
    (e.tree next).rename nodes tables = e.tree next' := by
  induction e generalizing next next' with
  | literal w =>
    have hn := h 0
    rw [Nat.add_zero, Nat.add_zero] at hn
    rw [tree, Node.rename, Tag.rename, hn, tree]
  | var w =>
    have hn := h 0
    rw [Nat.add_zero, Nat.add_zero] at hn
    rw [tree, Node.rename, Tag.rename, hn, tree]
  | group o e c ih => exact ih h
  | binary o l op r c ihl ihr =>
    have hright : ∀ i, nodes (next + l.size + i) = next' + l.size + i := by
      intro i
      rw [Nat.add_assoc, h, Nat.add_assoc]
    rw [tree, Node.rename, Tag.rename, ihl h, ihr hright, h, tree]

end Expression

namespace Statement

def declare (table : Table) : Statement → Table
  | assign name _ _ => { table with bindings := table.bindings.define name.token.lexeme none }
  | ret .. => table
  | block .. => table

mutual

def size : Statement → Nat
  | assign _ _ value => value.size + 2
  | ret _ value => value.size + 1
  | block _ body _ => sizes body + 1

def sizes : List Statement → Nat
  | [] => 0
  | s :: rest => s.size + sizes rest

end

mutual

def tables : Statement → Nat
  | assign .. => 0
  | ret .. => 0
  | block _ body _ => allTables body + 1

def allTables : List Statement → Nat
  | [] => 0
  | s :: rest => s.tables + allTables rest

end

mutual

def tree (outer : Option Table) (next nextTable : Nat) : Statement → Node
  | assign name _ value =>
    .assign ⟨next + (value.size + 1), name.token.location⟩
      ⟨next + value.size, name.token.location⟩ name.token.lexeme (value.tree next)
  | ret word value => .ret ⟨next + value.size, word.token.location⟩ (value.tree next)
  | block opened body _ =>
    let table := freshTable nextTable outer
    .block ⟨next + sizes body, opened.token.location⟩ (body.foldl declare table)
      (trees table next (nextTable + 1) body)

def trees (table : Table) (next nextTable : Nat) : List Statement → List Node
  | [] => []
  | s :: rest =>
    s.tree (some table) next nextTable ::
      trees (s.declare table) (next + s.size) (nextTable + s.tables) rest

end

mutual

theorem skeleton_tree (s : Statement) (outer : Option Table) (next nextTable : Nat) :
    (s.tree outer next nextTable).skeleton = s.skeleton := by
  cases s with
  | assign n g e => rw [tree, Node.skeleton, e.skeleton_tree, skeleton]
  | ret w e => rw [tree, Node.skeleton, e.skeleton_tree, skeleton]
  | block o body c => rw [tree, Node.skeleton, skeletons_trees body, skeleton]

theorem skeletons_trees (ss : List Statement) (table : Table) (next nextTable : Nat) :
    Node.skeletons (trees table next nextTable ss) = skeletons ss := by
  cases ss with
  | nil => rfl
  | cons s rest =>
    rw [trees, Node.skeletons, skeleton_tree s, skeletons_trees rest, skeletons]

end

mutual

/-- The nodes of a statement have just the numbers that it uses up. -/
theorem ids_tree (s : Statement) (outer : Option Table) (next nextTable : Nat) :
    (s.tree outer next nextTable).ids ~ List.range' next s.size := by
  cases s with
  | assign n g e =>
    -- the target comes after the value, and the statement after both
    have hlast : List.range' next (e.size + 2) =
        List.range' next e.size ++ [next + e.size] ++ [next + (e.size + 1)] := by
      rw [range'_add, List.append_assoc]
      rfl
    rw [tree, Node.ids, size, hlast]
    exact (((e.ids_tree next).cons _).trans (List.perm_append_singleton _ _).symm).cons _ |>.trans
      (List.perm_append_singleton _ _).symm
  | ret w e =>
    rw [tree, Node.ids, size, range'_add]
    exact ((e.ids_tree next).cons _).trans (List.perm_append_singleton _ _).symm
  | block o body c =>
    rw [tree, Node.ids, size, range'_add]
    exact ((ids_trees body _ _ _).cons _).trans (List.perm_append_singleton _ _).symm

theorem ids_trees (ss : List Statement) (table : Table) (next nextTable : Nat) :
    Node.allIds (trees table next nextTable ss) ~ List.range' next (sizes ss) := by
  cases ss with
  | nil => exact .refl _
  | cons s rest =>
    rw [trees, Node.allIds, sizes, range'_add]
    exact (ids_tree s _ _ _).append (ids_trees rest _ _ _)

end

/-- What the statements of a block add to its table. -/
theorem contains_foldl_declare (ss : List Statement) (table growing : Table)
    (next nextTable : Nat) (x : String) :
    (ss.foldl declare table).bindings.contains x = true ↔
      table.bindings.contains x = true ∨
        x ∈ Node.assignedNames (trees growing next nextTable ss) := by
  induction ss generalizing table growing next nextTable with
  | nil => simp [trees, Node.assignedNames]
  | cons s rest ih =>
    rw [List.foldl_cons, ih (s.declare table) (s.declare growing) (next + s.size)
      (nextTable + s.tables), trees]
    cases s with
    | assign n g e =>
      have hname : (Bindings.define table.bindings n.token.lexeme none).contains x = true ↔
          x = n.token.lexeme ∨ table.bindings.contains x = true := by
        rw [Bindings.contains_define, Bool.or_eq_true, decide_eq_true_iff]
      simp only [declare, tree, Node.assignedNames, List.filterMap_cons, List.mem_cons, hname]
      tauto
    | ret w e => rfl
    | block o body c => rfl

mutual

/-- The table of each block in the tree of a statement binds what the block assigns. -/
theorem tabled_tree (s : Statement) (outer : Option Table) (next nextTable : Nat) :
    (s.tree outer next nextTable).Tabled := by
  cases s with
  | assign n g e => exact e.tabled_tree next
  | ret w e => exact e.tabled_tree next
  | block o body c =>
    refine ⟨fun x => ?_, tabled_trees body _ _ _⟩
    rw [contains_foldl_declare body _ (freshTable nextTable outer) next (nextTable + 1)]
    simp [freshTable, Bindings.contains, Bindings.find?, Bindings.empty]

theorem tabled_trees (ss : List Statement) (table : Table) (next nextTable : Nat) :
    Node.AllTabled (trees table next nextTable ss) := by
  cases ss with
  | nil => trivial
  | cons s rest => exact ⟨tabled_tree s _ _ _, tabled_trees rest _ _ _⟩

end

section Renaming

variable {nodes ids : Nat → Nat}

theorem rename_freshTable (outer : Option Table) (nextTable nextTable' : Nat)
    (h : ids nextTable = nextTable') :
    (freshTable nextTable outer).rename ids =
      freshTable nextTable' (outer.map (Table.rename ids)) := by
  cases outer with
  | none => simp [freshTable, Table.rename, h]
  | some t => simp [freshTable, Table.rename, h]

theorem rename_declare (s : Statement) (table : Table) :
    (s.declare table).rename ids = s.declare (table.rename ids) := by
  cases s <;> rfl

theorem rename_foldl_declare (ss : List Statement) (table : Table) :
    (ss.foldl declare table).rename ids = ss.foldl declare (table.rename ids) := by
  induction ss generalizing table with
  | nil => rfl
  | cons s rest ih => rw [List.foldl_cons, List.foldl_cons, ih, rename_declare]

mutual

/-- Under other numbers the tree of a statement is the tree with these numbers. -/
theorem rename_tree (s : Statement) {outer : Option Table} {next next' nextTable nextTable' : Nat}
    (hn : ∀ i, nodes (next + i) = next' + i) (ht : ∀ i, ids (nextTable + i) = nextTable' + i) :
    (s.tree outer next nextTable).rename nodes ids =
      s.tree (outer.map (Table.rename ids)) next' nextTable' := by
  cases s with
  | assign n g e =>
    rw [tree, Node.rename, Tag.rename, Tag.rename, e.rename_tree hn, hn, hn, tree]
  | ret w e => rw [tree, Node.rename, Tag.rename, e.rename_tree hn, hn, tree]
  | block o body c =>
    have hnext : ∀ i, ids (nextTable + 1 + i) = nextTable' + 1 + i := by
      intro i
      rw [Nat.add_assoc, ht, Nat.add_assoc]
    rw [tree, Node.rename, Tag.rename, hn, rename_foldl_declare, rename_trees body hn hnext,
      rename_freshTable outer nextTable nextTable' (ht 0), tree]

theorem rename_trees (ss : List Statement) {table : Table} {next next' nextTable nextTable' : Nat}
    (hn : ∀ i, nodes (next + i) = next' + i) (ht : ∀ i, ids (nextTable + i) = nextTable' + i) :
    Node.renameAll nodes ids (trees table next nextTable ss) =
      trees (table.rename ids) next' nextTable' ss := by
  cases ss with
  | nil => rfl
  | cons s rest =>
    have hnodes : ∀ i, nodes (next + s.size + i) = next' + s.size + i := by
      intro i
      rw [Nat.add_assoc, hn, Nat.add_assoc]
    have htables : ∀ i, ids (nextTable + s.tables + i) = nextTable' + s.tables + i := by
      intro i
      rw [Nat.add_assoc, ht, Nat.add_assoc]
    rw [trees, Node.renameAll, rename_tree s hn ht, rename_trees rest hnodes htables,
      rename_declare, trees]
    rfl

end

end Renaming

end Statement

namespace Derivation

def size (d : Derivation) : Nat := d.statement.size

def tables (d : Derivation) : Nat := d.statement.tables

def tree (next nextTable : Nat) (d : Derivation) : Node := d.statement.tree none next nextTable

theorem skeleton_tree (d : Derivation) (next nextTable : Nat) :
    (d.tree next nextTable).skeleton = d.skeleton := d.statement.skeleton_tree none next nextTable

theorem ids_tree (d : Derivation) (next nextTable : Nat) :
    (d.tree next nextTable).ids ~ List.range' next d.size := d.statement.ids_tree none next nextTable

/-- No node occurs twice in the tree of a program. -/
theorem nodup_ids_tree (d : Derivation) (next nextTable : Nat) : (d.tree next nextTable).ids.Nodup :=
  (d.ids_tree next nextTable).nodup_iff.mpr List.nodup_range'

theorem mem_ids_tree (d : Derivation) {next nextTable id : Nat} :
    id ∈ (d.tree next nextTable).ids ↔ next ≤ id ∧ id < next + d.size := by
  rw [(d.ids_tree next nextTable).mem_iff, List.mem_range'_1]

theorem tabled_tree (d : Derivation) (next nextTable : Nat) : (d.tree next nextTable).Tabled :=
  d.statement.tabled_tree none next nextTable

theorem rename_tree (d : Derivation) {nodes ids : Nat → Nat} {next next' nextTable nextTable' : Nat}
    (hn : ∀ i, nodes (next + i) = next' + i) (ht : ∀ i, ids (nextTable + i) = nextTable' + i) :
    (d.tree next nextTable).rename nodes ids = d.tree next' nextTable' :=
  d.statement.rename_tree hn ht

end Derivation

end Grammar

end Dec
