import Dec.Proofs.Digraph.WellFormed

namespace Dec.Digraph

section Sets

variable {α : Type}

inductive Request (α : Type) where
  | addVertex (v : Option α)
  | removeVertex (v : Option α)
  | addEdge (source destination : Option α)
  | removeEdge (source destination : Option α)

def Request.operation : Request α → Operation α
  | addVertex v => .addVertex v
  | removeVertex v => .removeVertex v
  | addEdge s d => .addEdge s d
  | removeEdge s d => .removeEdge s d

/-- A request adds a vertex, this one and not just an equal one. -/
def Request.AddsVertex (v : α) (r : Request α) : Prop := r = .addVertex (some v)

structure Sets (α : Type) where
  vertex : α → Bool
  edge : α → α → Bool

namespace Sets

def empty : Sets α := ⟨fun _ => false, fun _ _ => false⟩

variable [BEq α]

/-- The sets after a request. Edges come and go between members only, and a vertex takes its edges
with it. -/
def apply (s : Sets α) : Request α → Sets α
  | .addVertex (some v) => { s with vertex := fun x => s.vertex x || x == v }
  | .removeVertex (some v) =>
    ⟨fun x => s.vertex x && !(x == v), fun x y => s.edge x y && !(x == v) && !(y == v)⟩
  | .addEdge (some u) (some v) =>
    if s.vertex u && s.vertex v then { s with edge := fun x y => s.edge x y || (x == u && y == v) }
    else s
  | .removeEdge (some u) (some v) =>
    if s.vertex u && s.vertex v then { s with edge := fun x y => s.edge x y && !(x == u && y == v) }
    else s
  | _ => s

def after (history : List (Request α)) : Sets α := history.foldl apply empty

theorem after_concat (history : List (Request α)) (r : Request α) :
    after (history ++ [r]) = (after history).apply r := by
  rw [after, List.foldl_append]
  rfl

end Sets

variable [BEq α]

def Request.AddsEdge (u v : α) (r : Request α) : Prop :=
  ∃ u', u' == u ∧ r = .addEdge (some u') (some v)

end Sets

section Order

variable {α β : Type} [BEq α] [BEq β]

structure Enumerates (l : List β) (member : β → Bool) : Prop where
  distinct : l.Pairwise fun x y => (x == y) = false
  contains : ∀ x, l.contains x = member x

structure HasSize (member : β → Bool) (n : Nat) : Prop where
  enumerated : ∃ l, Enumerates l member ∧ l.length = n
  length_eq : ∀ l, Enumerates l member → l.length = n

/-- A request of a history put a member in, which was absent then and has been in since. -/
structure Inserted (history : List (Request α)) (adds : Request α → Prop) (member : Sets α → Bool)
    (i : Nat) : Prop where
  request : ∃ r, history[i]? = some r ∧ adds r
  absent : member (Sets.after (history.take i)) = false
  present : ∀ k, i < k → k ≤ history.length → member (Sets.after (history.take k)) = true

/-- A list enumerates a set that a history has left, in the order in which the members were inserted
last. -/
structure Lists (history : List (Request α)) (adds : α → Request α → Prop)
    (member : Sets α → α → Bool) (l : List α) : Prop extends
    Enumerates l (member (Sets.after history)) where
  inserted : ∀ x ∈ l, ∃ i, Inserted history (adds x) (member · x) i
  order : l.Pairwise fun x y => ∃ i j, i < j ∧ Inserted history (adds x) (member · x) i ∧
    Inserted history (adds y) (member · y) j

variable {history : List (Request α)} {r : Request α}

section Inserted

variable {adds : Request α → Prop} {member : Sets α → Bool} {i : Nat}

theorem Inserted.lt_length (h : Inserted history adds member i) : i < history.length := by
  obtain ⟨r, hr, -⟩ := h.request
  exact (List.getElem?_eq_some_iff.mp hr).1

/-- A member that the next request leaves in keeps the place in time at which it was inserted. -/
theorem Inserted.concat (h : Inserted history adds member i)
    (hm : member (Sets.after (history ++ [r])) = true) :
    Inserted (history ++ [r]) adds member i := by
  have hi := h.lt_length
  refine ⟨?_, ?_, fun k hk hle => ?_⟩
  · rw [List.getElem?_append_left hi]
    exact h.request
  · rw [List.take_append_of_le_length (Nat.le_of_lt hi)]
    exact h.absent
  · rw [List.length_append, List.length_singleton] at hle
    by_cases hlast : k ≤ history.length
    · rw [List.take_append_of_le_length hlast]
      exact h.present k hk hlast
    · rw [List.take_of_length_le (by simp; omega)]
      exact hm

/-- A member that the last request has put in. -/
theorem inserted_last (hr : adds r) (habsent : member (Sets.after history) = false)
    (hm : member (Sets.after (history ++ [r])) = true) :
    Inserted (history ++ [r]) adds member history.length := by
  refine ⟨⟨r, by simp, hr⟩, by rwa [List.take_left], fun k hk hle => ?_⟩
  rw [List.take_of_length_le (by simp; omega)]
  exact hm

end Inserted

section Lists

variable {adds : α → Request α → Prop} {member : Sets α → α → Bool} {l l' : List α} {v : α}

theorem lists_nil (adds : α → Request α → Prop) (hm : ∀ x, member (Sets.after history) x = false) :
    Lists history adds member [] where
  distinct := .nil
  contains x := (hm x).symm
  inserted _ h := absurd h List.not_mem_nil
  order := .nil

variable [EquivBEq α]

/-- What is left of a list goes on listing what is left of the set. -/
theorem Lists.sublist (h : Lists history adds member l) (hl : l'.Sublist l)
    (hm : ∀ x, l'.contains x = member (Sets.after (history ++ [r])) x) :
    Lists (history ++ [r]) adds member l' := by
  have hleft : ∀ x ∈ l', member (Sets.after (history ++ [r])) x = true := by
    intro x hx
    rw [← hm]
    exact contains_of_mem hx
  refine ⟨⟨h.distinct.sublist hl, hm⟩, ?_, ?_⟩
  · intro x hx
    obtain ⟨i, hi⟩ := h.inserted x (hl.subset hx)
    exact ⟨i, hi.concat (hleft x hx)⟩
  · refine (h.order.sublist hl).imp_of_mem fun {x y} hx hy hxy => ?_
    obtain ⟨i, j, hij, hi, hj⟩ := hxy
    exact ⟨i, j, hij, hi.concat (hleft x hx), hj.concat (hleft y hy)⟩

theorem Lists.keep (h : Lists history adds member l)
    (hm : ∀ x, member (Sets.after (history ++ [r])) x = member (Sets.after history) x) :
    Lists (history ++ [r]) adds member l :=
  h.sublist (List.Sublist.refl l) fun x => by rw [hm, h.contains]

theorem Lists.erase (h : Lists history adds member l)
    (hm : ∀ x, member (Sets.after (history ++ [r])) x =
      (member (Sets.after history) x && !(x == v))) :
    Lists (history ++ [r]) adds member (l.filter fun x => !(x == v)) :=
  h.sublist List.filter_sublist fun x => by rw [hm, contains_filter_bne, h.contains]

/-- A new member comes last. -/
theorem Lists.concat (h : Lists history adds member l) (hr : adds v r)
    (hv : member (Sets.after history) v = false)
    (hm : ∀ x, member (Sets.after (history ++ [r])) x =
      (member (Sets.after history) x || x == v)) :
    Lists (history ++ [r]) adds member (l ++ [v]) := by
  have hold : ∀ x ∈ l, member (Sets.after (history ++ [r])) x = true := by
    intro x hx
    rw [hm, ← h.contains, contains_of_mem hx, Bool.true_or]
  have hlast : Inserted (history ++ [r]) (adds v) (member · v) history.length :=
    inserted_last hr hv (by rw [hm, BEq.rfl, Bool.or_true])
  have hnew : ∀ x ∈ l, (x == v) = false := by
    intro x hx
    rw [Bool.eq_false_iff]
    intro he
    have hx' := h.contains v
    rw [← List.contains_congr he, contains_of_mem hx, hv] at hx'
    cases hx'
  refine ⟨⟨?_, fun x => ?_⟩, ?_, ?_⟩
  · refine List.pairwise_append.mpr ⟨h.distinct, List.pairwise_singleton _ _, fun x hx y hy => ?_⟩
    rw [List.mem_singleton.mp hy]
    exact hnew x hx
  · rw [hm, List.contains_append, h.contains, List.contains_cons, List.contains_nil, Bool.or_false]
  · intro x hx
    rcases List.mem_append.mp hx with hx | hx
    · obtain ⟨i, hi⟩ := h.inserted x hx
      exact ⟨i, hi.concat (hold x hx)⟩
    · rw [List.mem_singleton.mp hx]
      exact ⟨_, hlast⟩
  -- whatever is listed came in by an earlier request
  · refine List.pairwise_append.mpr ⟨?_, List.pairwise_singleton _ _, fun x hx y hy => ?_⟩
    · refine h.order.imp_of_mem fun {x y} hx hy hxy => ?_
      obtain ⟨i, j, hij, hi, hj⟩ := hxy
      exact ⟨i, j, hij, hi.concat (hold x hx), hj.concat (hold y hy)⟩
    · rw [List.mem_singleton.mp hy]
      obtain ⟨i, hi⟩ := h.inserted x hx
      exact ⟨i, history.length, hi.lt_length, hi.concat (hold x hx), hlast⟩

end Lists

end Order

end Dec.Digraph
