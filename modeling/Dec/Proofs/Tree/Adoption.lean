import Dec.Naming.Analysis
import Dec.Proofs.Tree.Statements
import Mathlib.Data.List.Perm.Basic

/-!
Who owns the nodes of a tree. A tree that is made from its parts up leaves a list of adoptions in the
forest, one for every node below its root, and as long as no newer node takes one of these over the
forest leads from each statement to the table of its block.
-/
namespace Dec

open scoped List

namespace Node

mutual

/-- Which node takes each of the nodes below a tree as a part when the tree is made from its parts up,
the last one first. -/
def adoptions : Node → List (Nat × Owner)
  | literal .. => []
  | var .. => []
  | binary tag _ left right =>
    (right.id, ⟨tag.id, none⟩) :: (left.id, ⟨tag.id, none⟩) :: (right.adoptions ++ left.adoptions)
  | assign tag target _ value =>
    (value.id, ⟨tag.id, none⟩) :: (target.id, ⟨tag.id, none⟩) :: value.adoptions
  | ret tag value => (value.id, ⟨tag.id, none⟩) :: value.adoptions
  | block tag table body =>
    (body.map fun n => (n.id, ⟨tag.id, some table⟩)).reverse ++ allAdoptions body

def allAdoptions : List Node → List (Nat × Owner)
  | [] => []
  | n :: rest => allAdoptions rest ++ n.adoptions

end

mutual

/-- Every node below the root of a tree is adopted once. -/
theorem ids_perm_adoptions (n : Node) : n.ids ~ n.id :: n.adoptions.map (·.1) := by
  cases n with
  | literal => exact .refl _
  | var => exact .refl _
  | binary tag op left right =>
    have hl := ids_perm_adoptions left
    have hr := ids_perm_adoptions right
    have hboth : left.ids ++ right.ids ~
        right.id :: left.id :: (right.adoptions ++ left.adoptions).map (·.1) := by
      rw [List.map_append]
      calc left.ids ++ right.ids
        _ ~ (left.id :: left.adoptions.map (·.1)) ++ (right.id :: right.adoptions.map (·.1)) :=
          hl.append hr
        _ ~ (right.id :: right.adoptions.map (·.1)) ++ (left.id :: left.adoptions.map (·.1)) :=
          List.perm_append_comm
        _ ~ right.id :: left.id :: (right.adoptions.map (·.1) ++ left.adoptions.map (·.1)) :=
          .cons _ List.perm_middle
    exact hboth.cons tag.id
  | assign tag target name value =>
    have hv := ids_perm_adoptions value
    have hparts : target.id :: value.ids ~ value.id :: target.id :: value.adoptions.map (·.1) :=
      (hv.cons target.id).trans (.swap _ _ _)
    exact hparts.cons tag.id
  | ret tag value => exact (ids_perm_adoptions value).cons tag.id
  | block tag table body =>
    have hb := allIds_perm_allAdoptions body
    have hparts : allIds body ~ (block tag table body).adoptions.map (·.1) := by
      rw [adoptions, List.map_append, List.map_reverse, List.map_map]
      exact hb.trans ((List.reverse_perm _).symm.append_right _)
    exact hparts.cons tag.id

theorem allIds_perm_allAdoptions (body : List Node) :
    allIds body ~ body.map Node.id ++ (allAdoptions body).map (·.1) := by
  cases body with
  | nil => exact .refl _
  | cons n rest =>
    have hn := ids_perm_adoptions n
    have hrest := allIds_perm_allAdoptions rest
    rw [allIds, allAdoptions, List.map_cons, List.map_append]
    calc n.ids ++ allIds rest
      _ ~ (n.id :: n.adoptions.map (·.1)) ++ (rest.map Node.id ++ (allAdoptions rest).map (·.1)) :=
        hn.append hrest
      _ ~ n.id :: (rest.map Node.id ++ (allAdoptions rest).map (·.1) ++ n.adoptions.map (·.1)) :=
        .cons _ List.perm_append_comm
      _ = n.id :: rest.map Node.id ++ ((allAdoptions rest).map (·.1) ++ n.adoptions.map (·.1)) := by
        rw [List.append_assoc, List.cons_append]

end

/-- What is adopted below a node of several is adopted below them. -/
theorem adoptions_subset_allAdoptions {body : List Node} {n : Node} (hn : n ∈ body) :
    n.adoptions ⊆ allAdoptions body := by
  induction body with
  | nil => cases hn
  | cons m rest ih =>
    rw [allAdoptions]
    rcases List.mem_cons.mp hn with rfl | hn
    · exact List.subset_append_right _ _
    · exact List.subset_append_of_subset_left _ (ih hn)

/-- Only nodes of a tree are adopted when it is made. -/
theorem mem_ids_of_mem_adoptions {n : Node} {e : Nat × Owner} (he : e ∈ n.adoptions) :
    e.1 ∈ n.ids := by
  rw [n.ids_perm_adoptions.mem_iff]
  exact List.mem_cons_of_mem _ (List.mem_map_of_mem he)

end Node

/-- Where no key occurs twice, every entry is found under its key. -/
theorem lookup_eq_of_mem {β : Type} {entries : List (Nat × β)} (h : (entries.map (·.1)).Nodup)
    {e : Nat × β} (he : e ∈ entries) : entries.lookup e.1 = some e.2 := by
  obtain ⟨before, after, rfl⟩ := List.append_of_mem he
  rw [List.map_append, List.map_cons] at h
  have hbefore : ∀ p ∈ before, p.1 ≠ e.1 := by
    intro p hp
    exact (List.pairwise_append.mp h).2.2 _ (List.mem_map_of_mem hp) _ List.mem_cons_self
  rw [List.lookup_eq_some_iff]
  exact ⟨before, after, rfl, fun p hp => by simpa using (hbefore p hp).symm⟩

/-- What was not found under a key is looked for in the older entries. -/
theorem lookup_append_of_not_mem {β : Type} {newer older : List (Nat × β)} {k : Nat}
    (h : ∀ e ∈ newer, e.1 ≠ k) : (newer ++ older).lookup k = older.lookup k := by
  induction newer with
  | nil => rfl
  | cons e newer ih =>
    obtain ⟨he, hnewer⟩ := List.forall_mem_cons.mp h
    have hk : (k == e.1) = false := by simpa using he.symm
    rw [List.cons_append, List.lookup_cons, hk]
    exact ih hnewer

namespace Forest

def grow (f : Forest) (nodes : Nat) (owners : List (Nat × Owner)) : Forest :=
  { f with nextNode := f.nextNode + nodes, owners := owners ++ f.owners }

theorem grow_grow (f : Forest) (m n : Nat) (older newer : List (Nat × Owner)) :
    (f.grow m older).grow n newer = f.grow (m + n) (newer ++ older) := by
  simp only [grow, Nat.add_assoc, List.append_assoc]

def Knows (f : Forest) (n : Node) : Prop := ∀ e ∈ n.adoptions, f.owner? e.1 = some e.2

variable {f : Forest} {n : Node}

/-- A tree that was made just now is known if no node occurs twice in it. -/
theorem knows_grow (hn : n.ids.Nodup) (f : Forest) (nodes : Nat) :
    (f.grow nodes n.adoptions).Knows n := by
  intro e he
  have hkeys : (n.adoptions.map (·.1)).Nodup :=
    (List.nodup_cons.mp (n.ids_perm_adoptions.nodup_iff.mp hn)).2
  have hfound := lookup_eq_of_mem hkeys he
  rw [List.lookup_eq_some_iff] at hfound
  obtain ⟨before, after, hsplit, hbefore⟩ := hfound
  rw [owner?, grow, List.lookup_eq_some_iff]
  exact ⟨before, after ++ f.owners, by simp [hsplit], hbefore⟩

/-- A tree stays known when none of its nodes is taken over. -/
theorem Knows.grow (h : f.Knows n) {owners : List (Nat × Owner)} (ho : ∀ e ∈ owners, e.1 ∉ n.ids)
    (nodes : Nat) : (f.grow nodes owners).Knows n := by
  intro e he
  have hkey := Node.mem_ids_of_mem_adoptions he
  rw [owner?, Forest.grow, lookup_append_of_not_mem fun o hmem heq => ho o hmem (heq ▸ hkey)]
  exact h e he

/-- The statements of a known block belong to it, and they are known. -/
theorem Knows.statements {tag : Tag} {table : Table} {body : List Node}
    (h : f.Knows (.block tag table body)) :
    (∀ c ∈ body, f.owner? c.id = some ⟨tag.id, some table⟩) ∧ ∀ c ∈ body, f.Knows c := by
  constructor
  · intro c hc
    refine h (c.id, ⟨tag.id, some table⟩) ?_
    rw [Node.adoptions, List.mem_append, List.mem_reverse]
    exact .inl (List.mem_map_of_mem hc)
  · intro c hc e he
    refine h e ?_
    rw [Node.adoptions, List.mem_append]
    exact .inr (Node.adoptions_subset_allAdoptions hc he)

/-- A statement that belongs to a block leads to its table. -/
theorem blockAround?_of_owner? {id block : Nat} {table : Table}
    (h : f.owner? id = some ⟨block, some table⟩) : f.blockAround? id = some table := by
  rw [blockAround?]
  have howners : f.owners ≠ [] := by
    intro hnil
    rw [owner?, hnil] at h
    cases h
  -- the climb ends at once
  rcases hlength : f.owners.length with _ | steps
  · exact absurd (List.length_eq_zero_iff.mp hlength) howners
  · rw [climb, h]

end Forest

end Dec
