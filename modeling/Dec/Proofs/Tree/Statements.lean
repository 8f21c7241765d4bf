import Dec.Tree
import Mathlib.Data.List.Nodup

namespace Dec.Node

def isAssignment : Node → Bool
  | assign .. => true
  | _ => false

def isReturn : Node → Bool
  | ret .. => true
  | _ => false

mutual

def statements : Node → List Node
  | literal .. => []
  | var .. => []
  | binary .. => []
  | assign tag target name value => [assign tag target name value]
  | ret tag value => [ret tag value]
  | block _ _ body => allStatements body

def allStatements : List Node → List Node
  | [] => []
  | n :: rest => n.statements ++ allStatements rest

end

mutual

/-- The identities of all nodes of a tree, the targets of assignments among them. -/
def ids : Node → List Nat
  | literal tag _ => [tag.id]
  | var tag _ => [tag.id]
  | binary tag _ left right => tag.id :: (left.ids ++ right.ids)
  | assign tag target _ value => tag.id :: target.id :: value.ids
  | ret tag value => tag.id :: value.ids
  | block tag _ body => tag.id :: allIds body

def allIds : List Node → List Nat
  | [] => []
  | n :: rest => n.ids ++ allIds rest

end

section Kinds

mutual

theorem isAssignment_of_mem_statements (n : Node) :
    ∀ s ∈ n.statements, s.isAssignment = !s.isReturn := by
  intro s hs
  cases n with
  | literal => cases hs
  | var => cases hs
  | binary => cases hs
  | assign =>
    rw [List.mem_singleton.mp hs]
    rfl
  | ret =>
    rw [List.mem_singleton.mp hs]
    rfl
  | block tag table body => exact isAssignment_of_mem_allStatements body s hs

theorem isAssignment_of_mem_allStatements (body : List Node) :
    ∀ s ∈ allStatements body, s.isAssignment = !s.isReturn := by
  intro s hs
  cases body with
  | nil => cases hs
  | cons n rest =>
    rcases List.mem_append.mp hs with hs | hs
    · exact isAssignment_of_mem_statements n s hs
    · exact isAssignment_of_mem_allStatements rest s hs

end

end Kinds

section Distinct

mutual

theorem statements_ids_sublist (n : Node) : (n.statements.map Node.id).Sublist n.ids := by
  cases n with
  | literal => exact List.nil_sublist _
  | var => exact List.nil_sublist _
  | binary => exact List.nil_sublist _
  | assign => exact List.singleton_sublist.mpr List.mem_cons_self
  | ret => exact List.singleton_sublist.mpr List.mem_cons_self
  | block tag table body => exact (allStatements_ids_sublist body).cons _

theorem allStatements_ids_sublist (body : List Node) :
    ((allStatements body).map Node.id).Sublist (allIds body) := by
  cases body with
  | nil => exact List.nil_sublist _
  | cons n rest =>
    rw [allStatements, List.map_append]
    exact (statements_ids_sublist n).append (allStatements_ids_sublist rest)

end

/-- In a tree without repeated nodes no statement is repeated. -/
theorem statements_distinct {n : Node} (h : n.ids.Nodup) :
    n.statements.Pairwise fun s t => (s == t) = false := by
  have hs : (n.statements.map Node.id).Nodup := h.sublist n.statements_ids_sublist
  rw [List.Nodup, List.pairwise_map] at hs
  exact hs.imp fun hne => by rw [beq_eq, beq_eq_false_iff_ne]; exact hne

end Distinct

section UpToReturn

/-- The statements of a sequence up to its first return, which is the last of them. -/
def upToReturn (sts : List Node) : List Node := sts.take (sts.findIdx isReturn + 1)

def afterReturn (sts : List Node) : List Node := sts.drop (sts.findIdx isReturn + 1)

variable (sts more : List Node)

theorem upToReturn_append_afterReturn : upToReturn sts ++ afterReturn sts = sts :=
  List.take_append_drop _ _

variable {sts}

theorem upToReturn_of_any_eq_false (h : sts.any isReturn = false) : upToReturn sts = sts := by
  have hi : sts.findIdx isReturn = sts.length := by
    rw [List.findIdx_eq_length]
    simpa using h
  rw [upToReturn, hi]
  exact List.take_of_length_le (Nat.le_succ _)

/-- What follows a sequence with a return does not count. -/
theorem upToReturn_append_of_any (h : sts.any isReturn = true) :
    upToReturn (sts ++ more) = upToReturn sts := by
  have hi : sts.findIdx isReturn < sts.length := List.findIdx_lt_length.mpr (by simpa using h)
  rw [upToReturn, List.findIdx_append, if_pos hi, List.take_append_of_le_length hi, upToReturn]

theorem upToReturn_append_of_any_eq_false (h : sts.any isReturn = false) :
    upToReturn (sts ++ more) = sts ++ upToReturn more := by
  have hi : sts.findIdx isReturn = sts.length := by
    rw [List.findIdx_eq_length]
    simpa using h
  rw [upToReturn, List.findIdx_append, hi, if_neg (Nat.lt_irrefl _), upToReturn,
    Nat.add_comm _ sts.length, Nat.add_assoc, List.take_length_add_append]

theorem upToReturn_prefix_append : upToReturn sts <+: upToReturn (sts ++ more) := by
  cases h : sts.any isReturn with
  | true =>
    rewrite [upToReturn_append_of_any more h]
    exact List.prefix_rfl
  | false =>
    rw [upToReturn_append_of_any_eq_false more h, upToReturn_of_any_eq_false h]
    exact List.prefix_append _ _

end UpToReturn

end Dec.Node
