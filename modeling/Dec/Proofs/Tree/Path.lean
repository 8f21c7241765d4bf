import Dec.Proofs.Tree.Statements

namespace Dec.Node

/-- What stands at the end of a way through a tree. Each step tells which child to go on to. -/
def at? : List Nat → Node → Option Node
  | [], n => some n
  | k :: path, n => n.children[k]?.bind (at? path)

def assigns (x : String) : Node → Bool
  | assign _ _ name _ => name == x
  | _ => false

def IsTargetAt (n : Node) (path : List Nat) : Prop :=
  ∃ above a, path = above ++ [0] ∧ n.at? above = some a ∧ a.isAssignment = true

def ReadsAt (n : Node) (path : List Nat) (tag : Tag) (x : String) : Prop :=
  n.at? path = some (.var tag x) ∧ ¬ n.IsTargetAt path

/-- A block on the way to a place has an assignment to a name among its own statements, in front of
the one that the way goes on through. -/
def AssignedBefore (n : Node) (path : List Nat) (x : String) : Prop :=
  ∃ outer k inner tag table body, path = outer ++ k :: inner ∧
    n.at? outer = some (.block tag table body) ∧ ∃ s ∈ body.take k, s.assigns x = true

section Steps

variable {n : Node} {k : Nat} {path : List Nat} {tag : Tag} {x : String}

theorem at?_cons : n.at? (k :: path) = n.children[k]?.bind (at? path) := rfl

theorem isTargetAt_cons : n.IsTargetAt (k :: path) ↔
    (k = 0 ∧ path = [] ∧ n.isAssignment = true) ∨
      ∃ m, n.children[k]? = some m ∧ m.IsTargetAt path := by
  constructor
  · rintro ⟨above, a, hpath, ha, hassign⟩
    cases above with
    | nil =>
      obtain ⟨rfl, rfl⟩ := List.cons.inj hpath
      obtain rfl := Option.some.inj ha
      exact .inl ⟨rfl, rfl, hassign⟩
    | cons j above =>
      obtain ⟨rfl, rfl⟩ := List.cons.inj hpath
      obtain ⟨m, hm, ha⟩ := Option.bind_eq_some_iff.mp ha
      exact .inr ⟨m, hm, above, a, rfl, ha, hassign⟩
  · rintro (⟨rfl, rfl, hassign⟩ | ⟨m, hm, above, a, rfl, ha, hassign⟩)
    · exact ⟨[], n, rfl, rfl, hassign⟩
    · exact ⟨k :: above, a, rfl, by rw [at?_cons, hm, Option.bind_some, ha], hassign⟩

theorem readsAt_nil : n.ReadsAt [] tag x ↔ n = .var tag x := by
  constructor
  · exact fun h => Option.some.inj h.1
  · rintro rfl
    refine ⟨rfl, ?_⟩
    rintro ⟨above, a, hpath, -⟩
    simp at hpath

theorem readsAt_cons : n.ReadsAt (k :: path) tag x ↔
    (∃ m, n.children[k]? = some m ∧ m.ReadsAt path tag x) ∧
      ¬ (k = 0 ∧ path = [] ∧ n.isAssignment = true) := by
  rw [ReadsAt, at?_cons, Option.bind_eq_some_iff, isTargetAt_cons, not_or]
  constructor
  · rintro ⟨⟨m, hm, hvar⟩, htarget, hinner⟩
    exact ⟨⟨m, hm, hvar, fun h => hinner ⟨m, hm, h⟩⟩, htarget⟩
  · rintro ⟨⟨m, hm, hvar, hinner⟩, htarget⟩
    refine ⟨⟨m, hm, hvar⟩, htarget, ?_⟩
    rintro ⟨m', hm', h⟩
    obtain rfl := Option.some.inj (hm.symm.trans hm')
    exact hinner h

theorem not_assignedBefore_nil : ¬ n.AssignedBefore [] x := by
  rintro ⟨outer, k, inner, tag, table, body, hpath, -⟩
  simp at hpath

theorem assignedBefore_cons : n.AssignedBefore (k :: path) x ↔
    (∃ tag table body, n = .block tag table body ∧ ∃ s ∈ body.take k, s.assigns x = true) ∨
      ∃ m, n.children[k]? = some m ∧ m.AssignedBefore path x := by
  constructor
  · rintro ⟨outer, j, inner, tag, table, body, hpath, hblock, hs⟩
    cases outer with
    | nil =>
      obtain ⟨rfl, rfl⟩ := List.cons.inj hpath
      exact .inl ⟨tag, table, body, Option.some.inj hblock, hs⟩
    | cons i outer =>
      obtain ⟨rfl, rfl⟩ := List.cons.inj hpath
      obtain ⟨m, hm, hblock⟩ := Option.bind_eq_some_iff.mp hblock
      exact .inr ⟨m, hm, outer, j, inner, tag, table, body, rfl, hblock, hs⟩
  · rintro (⟨tag, table, body, rfl, hs⟩ | ⟨m, hm, outer, j, inner, tag, table, body, rfl, hblock, hs⟩)
    · exact ⟨[], k, path, tag, table, body, rfl, rfl, hs⟩
    · refine ⟨k :: outer, j, inner, tag, table, body, rfl, ?_, hs⟩
      rw [at?_cons, hm, Option.bind_some, hblock]

end Steps

end Dec.Node
