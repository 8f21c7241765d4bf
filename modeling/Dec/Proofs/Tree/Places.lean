import Dec.Proofs.Tree.Adoption
import Dec.Proofs.Tree.Path

namespace Dec.Node

mutual

def nodes : Node → List Node
  | literal tag value => [.literal tag value]
  | var tag name => [.var tag name]
  | binary tag op left right => .binary tag op left right :: (left.nodes ++ right.nodes)
  | assign tag target name value =>
    .assign tag target name value :: .var target name :: value.nodes
  | ret tag value => .ret tag value :: value.nodes
  | block tag table body => .block tag table body :: allNodes body

def allNodes : List Node → List Node
  | [] => []
  | n :: rest => n.nodes ++ allNodes rest

end

theorem allNodes_eq_flatMap (body : List Node) : allNodes body = body.flatMap nodes := by
  induction body with
  | nil => rfl
  | cons n rest ih => rw [allNodes, ih, List.flatMap_cons]

/-- A node comes first, and then its children come with all below them. -/
theorem nodes_eq (n : Node) : n.nodes = n :: n.children.flatMap nodes := by
  cases n with
  | literal => rfl
  | var => rfl
  | binary tag op left right => simp [nodes, children]
  | assign tag target name value => simp [nodes, children]
  | ret tag value => simp [nodes, children]
  | block tag table body => rw [nodes, children, allNodes_eq_flatMap]

mutual

theorem ids_eq_map_nodes (n : Node) : n.ids = n.nodes.map id := by
  cases n with
  | literal tag value => rfl
  | var tag name => rfl
  | binary tag op left right =>
    rw [ids, nodes, List.map_cons, List.map_append, ids_eq_map_nodes left, ids_eq_map_nodes right]
    rfl
  | assign tag target name value =>
    rw [ids, nodes, List.map_cons, List.map_cons, ids_eq_map_nodes value]
    rfl
  | ret tag value =>
    rw [ids, nodes, List.map_cons, ids_eq_map_nodes value]
    rfl
  | block tag table body =>
    rw [ids, nodes, List.map_cons, allIds_eq_map_allNodes body]
    rfl

theorem allIds_eq_map_allNodes (body : List Node) : allIds body = (allNodes body).map id := by
  cases body with
  | nil => rfl
  | cons n rest =>
    rw [allIds, allNodes, List.map_append, ids_eq_map_nodes n, allIds_eq_map_allNodes rest]

end

section Places

variable {n m : Node} {path : List Nat}

/-- What stands at the end of a way is a node of the tree. -/
theorem mem_nodes_of_at? (h : n.at? path = some m) : m ∈ n.nodes := by
  induction path generalizing n with
  | nil =>
    obtain rfl := Option.some.inj h
    rw [nodes_eq]
    exact List.mem_cons_self
  | cons k path ih =>
    rw [at?_cons] at h
    obtain ⟨child, hchild, hbelow⟩ := Option.bind_eq_some_iff.mp h
    rw [nodes_eq]
    apply List.mem_cons_of_mem
    exact List.mem_flatMap.mpr ⟨child, List.mem_of_getElem? hchild, ih hbelow⟩

/-- The last step of a way leads to a child of what stands before it. -/
theorem at?_concat (n : Node) (path : List Nat) (k : Nat) :
    n.at? (path ++ [k]) = (n.at? path).bind fun m => m.children[k]? := by
  induction path generalizing n with
  | nil =>
    show n.children[k]?.bind some = n.children[k]?
    exact Option.bind_fun_some _
  | cons j path ih =>
    rw [List.cons_append, at?_cons, at?_cons, Option.bind_assoc]
    exact congrArg _ (funext ih)

section Keys

variable {key : Node → Option Nat} {i : Nat}

/-- The keys of a tree are its own, if it has one, and then those of its children. -/
theorem filterMap_nodes (key : Node → Option Nat) (n : Node) :
    n.nodes.filterMap key =
      (key n).toList ++ n.children.flatMap fun child => child.nodes.filterMap key := by
  rw [nodes_eq, List.filterMap_cons, List.filterMap_flatMap]
  cases key n <;> rfl

theorem mem_keys_of_at? (h : n.at? path = some m) (hi : key m = some i) :
    i ∈ n.nodes.filterMap key :=
  List.mem_filterMap.mpr ⟨m, mem_nodes_of_at? h, hi⟩

/-- Where no key occurs twice in a tree, that of the root does not occur below it. -/
theorem at?_cons_key_ne (hn : (n.nodes.filterMap key).Nodup) (hroot : key n = some i) {k : Nat}
    (h : n.at? (k :: path) = some m) : key m ≠ some i := by
  intro hkey
  rw [filterMap_nodes, List.nodup_append] at hn
  obtain ⟨child, hchild, hbelow⟩ := Option.bind_eq_some_iff.mp h
  have hmem : i ∈ n.children.flatMap fun child => child.nodes.filterMap key :=
    List.mem_flatMap.mpr ⟨child, List.mem_of_getElem? hchild, mem_keys_of_at? hbelow hkey⟩
  exact hn.2.2 i (by simp [hroot]) i hmem rfl

/-- In lists that have nothing in common and no element twice, an element is in one of them. -/
theorem index_eq_of_mem {α : Type} {f : α → List Nat} {l : List α} (hl : (l.flatMap f).Nodup)
    {j k : Nat} {x y : α} (hj : l[j]? = some x) (hk : l[k]? = some y) (hx : i ∈ f x)
    (hy : i ∈ f y) : j = k := by
  have hapart := List.pairwise_iff_getElem.mp (List.nodup_flatMap.mp hl).2
  obtain ⟨hjl, rfl⟩ := List.getElem?_eq_some_iff.mp hj
  obtain ⟨hkl, rfl⟩ := List.getElem?_eq_some_iff.mp hk
  rcases Nat.lt_trichotomy j k with hlt | heq | hlt
  · exact (hapart j k hjl hkl hlt hx hy).elim
  · exact heq
  · exact (hapart k j hkl hjl hlt hy hx).elim

/-- Where no key occurs twice in a tree, it is found at one place only. -/
theorem at?_injective (hn : (n.nodes.filterMap key).Nodup) {p q : List Nat} {a b : Node}
    (ha : n.at? p = some a) (hb : n.at? q = some b) (hka : key a = some i) (hkb : key b = some i) :
    p = q := by
  induction p generalizing n q with
  | nil =>
    obtain rfl := Option.some.inj ha
    cases q with
    | nil => rfl
    | cons k q => exact absurd hkb (at?_cons_key_ne hn hka hb)
  | cons j p ih =>
    cases q with
    | nil =>
      obtain rfl := Option.some.inj hb
      exact absurd hka (at?_cons_key_ne hn hkb ha)
    | cons k q =>
      obtain ⟨left, hleft, ha⟩ := Option.bind_eq_some_iff.mp ha
      obtain ⟨right, hright, hb⟩ := Option.bind_eq_some_iff.mp hb
      rw [filterMap_nodes, List.nodup_append] at hn
      have hbelow := hn.2.1
      -- the ways start with the same step, and so they lead into the same child
      obtain rfl : j = k :=
        index_eq_of_mem hbelow hleft hright (mem_keys_of_at? ha hka) (mem_keys_of_at? hb hkb)
      obtain rfl := Option.some.inj (hleft.symm.trans hright)
      have hchild := (List.nodup_flatMap.mp hbelow).1 left (List.mem_of_getElem? hleft)
      rw [ih hchild ha hb]

end Keys

section Adoptions

variable {child : Node}

/-- A node adopts its children. -/
theorem mem_adoptions_of_mem_children (hc : child ∈ n.children) :
    (child.id, ⟨n.id, n.table?⟩) ∈ n.adoptions := by
  cases n with
  | literal => cases hc
  | var => cases hc
  | binary tag op left right =>
    rw [adoptions]
    rcases List.mem_pair.mp hc with rfl | rfl
    · exact List.mem_cons_of_mem _ List.mem_cons_self
    · exact List.mem_cons_self
  | assign tag target name value =>
    rw [adoptions]
    rcases List.mem_pair.mp hc with rfl | rfl
    · exact List.mem_cons_of_mem _ List.mem_cons_self
    · exact List.mem_cons_self
  | ret tag value =>
    obtain rfl := List.mem_singleton.mp hc
    exact List.mem_cons_self
  | block tag table body =>
    rw [adoptions]
    apply List.mem_append_left
    exact List.mem_reverse.mpr (List.mem_map.mpr ⟨child, hc, rfl⟩)

/-- What is adopted below a child is adopted below the node. -/
theorem adoptions_subset_of_mem_children (hc : child ∈ n.children) :
    child.adoptions ⊆ n.adoptions := by
  intro e he
  cases n with
  | literal => cases hc
  | var => cases hc
  | binary tag op left right =>
    rw [adoptions]
    apply List.mem_cons_of_mem
    apply List.mem_cons_of_mem
    rcases List.mem_pair.mp hc with rfl | rfl
    · exact List.mem_append_right _ he
    · exact List.mem_append_left _ he
  | assign tag target name value =>
    rw [adoptions]
    apply List.mem_cons_of_mem
    apply List.mem_cons_of_mem
    rcases List.mem_pair.mp hc with rfl | rfl
    -- nothing stands below the target
    · cases he
    · exact he
  | ret tag value =>
    obtain rfl := List.mem_singleton.mp hc
    exact List.mem_cons_of_mem _ he
  | block tag table body =>
    rw [adoptions]
    exact List.mem_append_right _ (adoptions_subset_allAdoptions hc he)

/-- Whatever stands in a tree adopts its children. -/
theorem mem_adoptions_of_at? (h : n.at? path = some m) (hc : child ∈ m.children) :
    (child.id, ⟨m.id, m.table?⟩) ∈ n.adoptions := by
  induction path generalizing n with
  | nil =>
    obtain rfl := Option.some.inj h
    exact mem_adoptions_of_mem_children hc
  | cons k path ih =>
    obtain ⟨next, hnext, hbelow⟩ := Option.bind_eq_some_iff.mp h
    exact adoptions_subset_of_mem_children (List.mem_of_getElem? hnext) (ih hbelow)

end Adoptions

end Places

end Dec.Node
